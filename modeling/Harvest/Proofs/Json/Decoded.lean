import Harvest.Proofs.Json.Canonical
import Harvest.Proofs.Text.Digits

/-!
# Values read back

A value without floating-point numbers is read back from its JSON text, in every layout, provided
that no mapping has a key twice and the digits of its integers are within the limit of the reader.
Without a limit this holds for integers of any size.
-/

namespace Harvest.Json

open Text (isAsciiDigit readDecimal readDecimalOnto decimalValue?)

variable {limit : Option Nat} {style : Style} {rest : List Char}

/-! ## Integers -/

/-- Whether a text is at its end or goes on with what cannot belong to a number. -/
def Stops (rest : List Char) : Prop := ∀ c cs, rest = c :: cs → isNumberChar c = false ∧ c ≠ 'E'

theorem stops_cons {c : Char} {cs : List Char} (h : isNumberChar c = false ∧ c ≠ 'E') :
    Stops (c :: cs) := by
  intro d ds heq
  obtain ⟨rfl, _⟩ := List.cons.inj heq
  exact h

theorem isAsciiDigit_eq (c : Char) : isAsciiDigit c = c.isDigit := by
  rw [Bool.eq_iff_iff]
  simp only [isAsciiDigit, Char.isDigit, Bool.and_eq_true, Nat.ble_eq, decide_eq_true_eq, ge_iff_le,
    UInt32.le_iff_toNat_le]
  exact Iff.rfl

theorem isAsciiDigit_toDigits {n : Nat} : ∀ c ∈ Nat.toDigits 10 n, isAsciiDigit c = true := by
  intro c hc
  rw [isAsciiDigit_eq]
  exact Nat.isDigit_of_mem_toDigits (by decide) (by decide) hc

/-- No number but zero has a zero in front. -/
theorem head?_toDigits {n : Nat} (hn : n ≠ 0) : (Nat.toDigits 10 n).head? ≠ some '0' := by
  have hdigit : ∀ d < 10, d ≠ 0 → d.digitChar ≠ '0' := by decide
  induction n using Nat.strongRecOn with
  | _ n ih =>
      by_cases hlt : n < 10
      · rw [Nat.toDigits_of_lt_base hlt]
        simpa using hdigit n hlt hn
      · rw [Nat.toDigits_of_base_le (by decide) (by omega), List.head?_append_of_ne_nil _
          Nat.toDigits_ne_nil]
        exact ih _ (by omega) (by omega)

theorem readWhole?_toDigits (n : Nat) (hrest : Stops rest) :
    readWhole? (Nat.toDigits 10 n ++ rest) = some (Nat.toDigits 10 n, rest) := by
  have hstop : ∀ c cs, rest = c :: cs → isAsciiDigit c = false := by
    intro c cs heq
    have hc := (hrest c cs heq).1
    rw [isAsciiDigit_eq]
    simp only [isNumberChar, Bool.or_eq_false_iff] at hc
    exact hc.1.1.1.1
  have htake : rest.takeWhile isAsciiDigit = [] := by
    cases rest with
    | nil => rfl
    | cons c cs => rw [List.takeWhile_cons, hstop c cs rfl]; rfl
  have hdrop : rest.dropWhile isAsciiDigit = rest := by
    cases rest with
    | nil => rfl
    | cons c cs => rw [List.dropWhile_cons, hstop c cs rfl]; rfl
  by_cases hn : n = 0
  · subst hn
    rfl
  · unfold readWhole?
    split
    · rename_i r heq
      obtain ⟨c, cs, hds⟩ := List.exists_cons_of_ne_nil (Nat.toDigits_ne_nil (b := 10) (n := n))
      rw [hds, List.cons_append] at heq
      have hhead := head?_toDigits hn
      rw [hds, (List.cons.inj heq).1] at hhead
      exact (hhead rfl).elim
    · rw [List.takeWhile_append_of_pos isAsciiDigit_toDigits, htake, List.append_nil,
        List.dropWhile_append_of_pos isAsciiDigit_toDigits, hdrop]
      split
      · rename_i hnil
        exact (Nat.toDigits_ne_nil hnil).elim
      · rfl

theorem readFraction_of_stops (hrest : Stops rest) : readFraction rest = (none, rest) := by
  unfold readFraction
  split
  · exact absurd (hrest _ _ rfl).1 (by decide)
  · rfl

theorem readExponent_of_stops (hrest : Stops rest) : readExponent rest = (none, rest) := by
  cases rest with
  | nil => rfl
  | cons c cs =>
      obtain ⟨hc, hE⟩ := hrest c cs rfl
      have he : c ≠ 'e' := by
        rintro rfl
        exact absurd hc (by decide)
      simp [readExponent, he, hE]

theorem readNumber_toDigits (negative : Bool) (n : Nat) (hrest : Stops rest)
    (hlimit : exceeds limit (Nat.toDigits 10 n).length = false) :
    readNumber limit negative (Nat.toDigits 10 n ++ rest) =
      .ok (.int (if negative then -n else n), rest) := by
  rw [readNumber, readWhole?_toDigits n hrest]
  simp only [readFraction_of_stops hrest, readExponent_of_stops hrest, hlimit,
    Text.readDecimal_toDigits]
  rfl

theorem toList_toString_int (i : Int) : (toString i).toList =
    if 0 ≤ i then Nat.toDigits 10 i.natAbs else '-' :: Nat.toDigits 10 i.natAbs := by
  rw [Int.toString_eq_repr, Int.repr_eq_if]
  split
  · rw [Nat.toList_repr, show i.toNat = i.natAbs by omega]
  · rw [String.toList_append, Nat.toList_repr, show (-i).toNat = i.natAbs by omega]
    rfl

/-- No named constant begins with a digit, nor does one behind a minus sign. -/
theorem findSome?_constants_digit {c : Char} (hc : c.isDigit = true) (cs : List Char) :
    (constants.findSome? fun (w, v) => (dropWord? w.toList (c :: cs)).map (v, ·)) = none ∧
      (constants.findSome? fun (w, v) => (dropWord? w.toList ('-' :: c :: cs)).map (v, ·)) =
        none := by
  have hdigit : ∀ d ∈ ['n', 't', 'f', 'N', 'I', '-'], d.isDigit = false := by simp [Char.isDigit]
  have hne : ∀ d ∈ ['n', 't', 'f', 'N', 'I', '-'], d ≠ c := by
    rintro d hd rfl
    rw [hdigit _ hd] at hc
    cases hc
  simp only [List.mem_cons, List.not_mem_nil, or_false, forall_eq_or_imp, forall_eq] at hne
  simp [constants, dropWord?, hne]

theorem readScalar_int (i : Int) (hrest : Stops rest)
    (hlimit : exceeds limit (Nat.toDigits 10 i.natAbs).length = false) :
    readScalar limit ((toString i).toList ++ rest) = .ok (.int i, rest) := by
  obtain ⟨c, cs, hds⟩ := List.exists_cons_of_ne_nil (Nat.toDigits_ne_nil (b := 10) (n := i.natAbs))
  have hc : c.isDigit = true := by
    rw [← isAsciiDigit_eq]
    exact isAsciiDigit_toDigits c (hds ▸ List.mem_cons_self)
  have hconstants := findSome?_constants_digit hc (cs ++ rest)
  have hread := fun negative => readNumber_toDigits negative i.natAbs hrest hlimit
  rw [hds] at hread
  rw [toList_toString_int, hds]
  unfold readScalar
  by_cases hi : 0 ≤ i
  · rw [if_pos hi, List.cons_append, hconstants.1]
    dsimp only
    split
    · rename_i heq
      obtain ⟨rfl, _⟩ := List.cons.inj heq
      exact absurd hc (by decide)
    · rw [← List.cons_append, hread]
      simp [Int.natAbs_of_nonneg hi]
  · rw [if_neg hi, List.cons_append, List.cons_append, hconstants.2]
    change readNumber limit true (c :: cs ++ rest) = _
    rw [hread, if_pos rfl, show -(i.natAbs : Int) = i by omega]

/-! ## Blanks -/

theorem skipSpace_of_head {c : Char} {cs : List Char} (hc : isSpace c = false) :
    skipSpace (c :: cs) = c :: cs := by
  rw [skipSpace, List.dropWhile_cons, hc]
  rfl

theorem isSpace_newline (level : Nat) : ∀ c ∈ style.newline level, isSpace c = true := by
  unfold Style.newline
  split
  · simp
  · intro c hc
    obtain rfl | hc := List.mem_cons.mp hc
    · rfl
    · rw [List.eq_of_mem_replicate hc]
      rfl

theorem skipSpace_newline (level : Nat) (cs : List Char) :
    skipSpace (style.newline level ++ cs) = skipSpace cs :=
  List.dropWhile_append_of_pos (isSpace_newline level)

/-- A separator is a comma with blanks behind it. -/
theorem separator_eq (style : Style) (level : Nat) :
    ∃ blanks, style.separator level = ',' :: blanks ∧
      ∀ cs, skipSpace (blanks ++ cs) = skipSpace cs := by
  unfold Style.separator
  split
  · exact ⟨[' '], rfl, fun cs => rfl⟩
  · exact ⟨_, rfl, skipSpace_newline level⟩

theorem stops_newline {level : Nat} {c : Char} {cs : List Char}
    (hc : isNumberChar c = false ∧ c ≠ 'E') : Stops (style.newline level ++ c :: cs) := by
  unfold Style.newline
  split
  · exact stops_cons hc
  · exact stops_cons (by decide)

/-! ## Scalars -/

/-- The text of a scalar has no control characters. -/
theorem printable_scalarText? {v : Json} {t : List Char} (h : scalarText? v = some t) :
    ∀ c ∈ t, 0x20 ≤ c.toNat := by
  have hnumber : ∀ c, isNumberChar c = true → 0x20 ≤ c.toNat := by
    intro c hc
    simp only [isNumberChar, Bool.or_eq_true, beq_iff_eq] at hc
    obtain (((hc | rfl) | rfl) | rfl) | rfl := hc
    · rw [← isAsciiDigit_eq, isAsciiDigit, Bool.and_eq_true, Nat.ble_eq] at hc
      omega
    all_goals decide
  cases v with
  | null =>
      obtain rfl := Option.some.inj h
      simp
  | bool b => cases b <;> obtain rfl := Option.some.inj h <;> simp
  | int i =>
      obtain rfl := Option.some.inj h
      exact fun c hc => hnumber c (isNumberChar_int hc)
  | float x =>
      obtain rfl := Option.some.inj h
      rcases renderFloat_cases x with hnamed | ⟨hchars, _⟩
      · have hall : ∀ t ∈ ["NaN".toList, "-Infinity".toList, "Infinity".toList],
            ∀ c ∈ t, 0x20 ≤ c.toNat := by simp
        exact hall _ hnamed
      · exact fun c hc => hnumber c (hchars c hc)
  | str s => simp [scalarText?] at h
  | list xs => simp [scalarText?] at h
  | map ms => simp [scalarText?] at h

theorem isSpace_of_not_mem_marks {c : Char} (hc : c ∉ marks) (hcontrol : 0x20 ≤ c.toNat) :
    isSpace c = false := by
  have hblank : c ≠ ' ' := fun h => hc (h ▸ by decide)
  have hbelow : ∀ d ∈ ['\t', '\n', '\r'], d.toNat < 0x20 := by simp
  have hall : ∀ d ∈ ['\t', '\n', '\r'], d ≠ c := by
    rintro d hd rfl
    exact absurd hcontrol (Nat.not_le.mpr (hbelow _ hd))
  simp only [List.mem_cons, List.not_mem_nil, or_false, forall_eq_or_imp, forall_eq] at hall
  simp [isSpace, hblank, hall.1.symm, hall.2.1.symm, hall.2.2.symm]

/-- The text of a value does not begin with a blank. -/
theorem skipSpace_renderAt (style : Style) (level : Nat) (v : Json) (cs : List Char) :
    skipSpace (renderAt style level v ++ cs) = renderAt style level v ++ cs := by
  obtain ⟨c, t, ht, hopening | ⟨hnone, hplain⟩⟩ := renderAt_head style level v
  · have hall : ∀ d ∈ ['"', '[', '\x7b'], isSpace d = false := by simp [isSpace]
    rw [ht, List.cons_append, skipSpace_of_head (hall c (opening?_mem hopening))]
  · obtain ⟨t', ht'⟩ := scalarText?_of_opening? hnone
    have hc : c ∈ t' := by
      rw [← renderAt_of_scalarText? ht' style level, ht]
      exact List.mem_cons_self
    rw [ht, List.cons_append,
      skipSpace_of_head (isSpace_of_not_mem_marks hplain (printable_scalarText? ht' c hc))]

theorem skipSpace_renderString (asciiOnly : Bool) (s : String) (cs : List Char) :
    skipSpace (renderString asciiOnly s ++ cs) = renderString asciiOnly s ++ cs := by
  obtain ⟨text, htext, _⟩ := readString?_renderString asciiOnly s cs
  rw [htext, skipSpace_of_head (by decide)]

theorem readValue_of_not_mem_marks {bound : Nat} {c : Char} (hc : c ∉ marks) (cs : List Char) :
    readValue limit (bound + 1) (c :: cs) = readScalar limit (c :: cs) := by
  have hall : ∀ d ∈ ['"', '[', '\x7b'], d ∈ marks := by simp [marks]
  rw [readValue]
  all_goals
    intro r heq
    exact hc ((List.cons.inj heq).1 ▸ hall _ (by decide))

/-! ## Values -/

mutual

/-- Whether a value has no floating-point numbers, no mapping in it has a key twice, and the digits
of its integers are within a limit. -/
def Portable (limit : Option Nat) : Json → Prop
  | .int i => exceeds limit (Nat.toDigits 10 i.natAbs).length = false
  | .float _ => False
  | .list xs => PortableItems limit xs
  | .map ms => (ms.map (·.1)).Nodup ∧ PortableMembers limit ms
  | _ => True

def PortableItems (limit : Option Nat) : List Json → Prop
  | [] => True
  | x :: xs => x.Portable limit ∧ PortableItems limit xs

def PortableMembers (limit : Option Nat) : List (String × Json) → Prop
  | [] => True
  | (_, v) :: ms => v.Portable limit ∧ PortableMembers limit ms

end

theorem put_of_not_mem {ms : Members} {k : String} (h : k ∉ ms.keys) (v : Json) :
    ms.put k v = ms ++ [(k, v)] := by
  induction ms with
  | nil => rfl
  | cons m ms ih =>
      obtain ⟨name, w⟩ := m
      rw [Members.keys, List.map_cons, List.mem_cons, not_or] at h
      rw [Members.put, if_neg (by simpa using Ne.symm h.1), ih h.2]
      rfl

/-- Members without a key twice are what their pairs give. -/
theorem ofPairs_of_nodup {ms : Members} (h : (ms.map (·.1)).Nodup) : Members.ofPairs ms = ms := by
  have hall : ∀ ms before : Members, ((before ++ ms).map (·.1)).Nodup →
      ms.foldl (fun ms p => ms.put p.1 p.2) before = before ++ ms := by
    intro ms
    induction ms with
    | nil => simp
    | cons m ms ih =>
        intro before h
        have hm : m.1 ∉ before.keys := by
          rw [List.map_append, List.nodup_append] at h
          exact fun hmem => h.2.2 _ hmem _ List.mem_cons_self rfl
        rw [List.foldl_cons, put_of_not_mem hm, ih _ (by simpa using h)]
        simp
  exact hall ms [] h

/-- What is read behind an item of a list. -/
def afterItem (limit : Option Nat) (bound : Nat) (v : Json) (cs : List Char) :
    Except ReadError (List Json × List Char) :=
  match skipSpace cs with
  | ']' :: rest => return ([v], rest)
  | ',' :: rest => do
    let (vs, rest) ← readItems limit bound (skipSpace rest)
    return (v :: vs, rest)
  | _ => throw .malformed

/-- What is read behind a member of a mapping. -/
def afterMember (limit : Option Nat) (bound : Nat) (m : String × Json) (cs : List Char) :
    Except ReadError (List (String × Json) × List Char) :=
  match skipSpace cs with
  | '\x7d' :: rest => return ([m], rest)
  | ',' :: rest => do
    let (ms, rest) ← readMembers limit bound (skipSpace rest)
    return (m :: ms, rest)
  | _ => throw .malformed

section

variable {bound : Nat} {cs : List Char}

theorem afterItem_comma {v : Json} : afterItem limit bound v (',' :: cs) =
    (readItems limit bound (skipSpace cs) >>= fun (vs, rest) => .ok (v :: vs, rest)) :=
  rfl

theorem afterMember_comma {m : String × Json} : afterMember limit bound m (',' :: cs) =
    (readMembers limit bound (skipSpace cs) >>= fun (ms, rest) => .ok (m :: ms, rest)) :=
  rfl

theorem readItems_of_value {v : Json} (h : readValue limit bound cs = .ok (v, rest)) :
    readItems limit (bound + 1) cs = afterItem limit bound v rest := by
  rw [readItems, h]
  rfl

theorem readMembers_of_value {asciiOnly : Bool} {k : String} {v : Json} (hcs : skipSpace cs = cs)
    (h : readValue limit bound cs = .ok (v, rest)) :
    readMembers limit (bound + 1) (renderString asciiOnly k ++ ':' :: ' ' :: cs) =
      afterMember limit bound (k, v) rest := by
  obtain ⟨text, htext, hread⟩ := readString?_renderString asciiOnly k (':' :: ' ' :: cs)
  have hblank : skipSpace (' ' :: cs) = cs := hcs
  rw [htext, readMembers, hread]
  dsimp only
  rw [skipSpace_of_head (by decide)]
  simp only [hblank, h, String.ofList_toList]
  rfl

theorem readValue_of_scalarText? {v : Json} {t : List Char} (ht : scalarText? v = some t)
    (hbound : t.length ≤ bound) (hread : readScalar limit (t ++ rest) = .ok (v, rest)) :
    readValue limit bound (t ++ rest) = .ok (v, rest) := by
  obtain ⟨hne, hplain⟩ := plain_scalarText? ht
  obtain ⟨c, cs, rfl⟩ := List.exists_cons_of_ne_nil hne
  rw [List.length_cons] at hbound
  obtain ⟨bound, rfl⟩ : ∃ n, bound = n + 1 := ⟨bound - 1, by omega⟩
  rw [List.cons_append, readValue_of_not_mem_marks (hplain c List.mem_cons_self),
    ← List.cons_append, hread]

end

theorem stops_renderItems (style : Style) (level closing : Nat) (rest : List Char)
    (xs : List Json) :
    Stops (renderItems style level xs ++ (style.newline closing ++ ']' :: rest)) := by
  cases xs with
  | nil => exact stops_newline (by decide)
  | cons x xs =>
      obtain ⟨blanks, hblanks, _⟩ := separator_eq style level
      rw [renderItems, hblanks]
      exact stops_cons (by decide)

theorem stops_renderMembers (style : Style) (level closing : Nat) (rest : List Char)
    (ms : Members) :
    Stops (renderMembers style level ms ++ (style.newline closing ++ '\x7d' :: rest)) := by
  cases ms with
  | nil => exact stops_newline (by decide)
  | cons m ms =>
      obtain ⟨blanks, hblanks, _⟩ := separator_eq style level
      rw [renderMembers, hblanks]
      exact stops_cons (by decide)

/-! The induction is on the value.  What follows it stops a number, and the bound of the reader is
at least the length of its text, of which every call takes a character. -/

mutual

theorem readValue_renderAt (style : Style) : ∀ (v : Json), v.Portable limit →
    ∀ (level : Nat) (rest : List Char), Stops rest →
    ∀ bound, (renderAt style level v).length ≤ bound →
      readValue limit bound (renderAt style level v ++ rest) = .ok (v, rest)
  | .null, _, level, rest, _, bound, hbound => readValue_of_scalarText? rfl hbound rfl
  | .bool true, _, level, rest, _, bound, hbound => readValue_of_scalarText? rfl hbound rfl
  | .bool false, _, level, rest, _, bound, hbound => readValue_of_scalarText? rfl hbound rfl
  | .int i, hi, level, rest, hrest, bound, hbound =>
      readValue_of_scalarText? rfl hbound (readScalar_int i hrest hi)
  | .float _, h, _, _, _, _, _ => h.elim
  | .str s, _, level, rest, _, bound, hbound => by
      obtain ⟨cs, hcs, hread⟩ := readString?_renderString style.asciiOnly s rest
      rw [renderAt] at hbound ⊢
      obtain ⟨bound, rfl⟩ : ∃ n, bound = n + 1 :=
        ⟨bound - 1, by simp [renderString] at hbound; omega⟩
      rw [hcs, readValue, hread]
      simp only [String.ofList_toList]
  | .list [], _, level, rest, _, bound, hbound => by
      rw [renderAt] at hbound ⊢
      obtain ⟨bound, rfl⟩ : ∃ n, bound = n + 1 := ⟨bound - 1, by simp at hbound; omega⟩
      rfl
  | .list (x :: xs), ⟨hx, hxs⟩, level, rest, hrest, bound, hbound => by
      simp only [renderAt, List.length_append, List.length_cons, List.length_nil] at hbound
      obtain ⟨bound, rfl⟩ : ∃ n, bound = n + 2 := ⟨bound - 2, by omega⟩
      have hread := readValue_renderAt style x hx (level + 1) _
        (stops_renderItems style (level + 1) level rest xs) bound (by omega)
      rw [renderAt_list_append, readValue, skipSpace_newline, skipSpace_renderAt]
      split
      · rename_i heq
        exact (renderAt_append_ne (by decide) heq).elim
      · rw [readItems_of_value hread,
          afterItem_renderItems style xs hxs x _ _ rest bound (by omega)]
        rfl
  | .map [], _, level, rest, _, bound, hbound => by
      rw [renderAt] at hbound ⊢
      obtain ⟨bound, rfl⟩ : ∃ n, bound = n + 1 := ⟨bound - 1, by simp at hbound; omega⟩
      rfl
  | .map ((k, v) :: ms), ⟨hkeys, hv, hms⟩, level, rest, hrest, bound, hbound => by
      simp only [renderAt, List.length_append, List.length_cons, List.length_nil] at hbound
      obtain ⟨bound, rfl⟩ : ∃ n, bound = n + 2 := ⟨bound - 2, by omega⟩
      have hread := readValue_renderAt style v hv (level + 1) _
        (stops_renderMembers style (level + 1) level rest ms) bound (by omega)
      rw [renderAt_map_append, readValue, skipSpace_newline, skipSpace_renderString]
      split
      · rename_i heq
        obtain ⟨cs, hcs, _⟩ := readString?_renderString style.asciiOnly k (':' :: ' ' ::
          (renderAt style (level + 1) v ++ (renderMembers style (level + 1) ms ++
            (style.newline level ++ '\x7d' :: rest))))
        rw [hcs] at heq
        cases heq
      · rw [readMembers_of_value (skipSpace_renderAt _ _ _ _) hread,
          afterMember_renderMembers style ms hms (k, v) _ _ rest bound (by omega)]
        change Except.ok (Json.map (Members.ofPairs ((k, v) :: ms)), rest) = _
        rw [ofPairs_of_nodup hkeys]

theorem afterItem_renderItems (style : Style) : ∀ (xs : List Json), PortableItems limit xs →
    ∀ (v : Json) (level closing : Nat) (rest : List Char) (bound : Nat),
    (renderItems style level xs).length ≤ bound →
      afterItem limit bound v
        (renderItems style level xs ++ (style.newline closing ++ ']' :: rest)) =
          .ok (v :: xs, rest)
  | [], _, v, level, closing, rest, bound, _ => by
      rw [renderItems, List.nil_append, afterItem, skipSpace_newline, skipSpace_of_head (by decide)]
      rfl
  | x :: xs, ⟨hx, hxs⟩, v, level, closing, rest, bound, hbound => by
      obtain ⟨blanks, hblanks, hskip⟩ := separator_eq style level
      rw [renderItems, hblanks] at hbound ⊢
      simp only [List.cons_append, List.append_assoc, List.length_cons,
        List.length_append] at hbound ⊢
      obtain ⟨bound, rfl⟩ : ∃ n, bound = n + 1 := ⟨bound - 1, by omega⟩
      have hread := readValue_renderAt style x hx level _
        (stops_renderItems style level closing rest xs) bound (by omega)
      rw [afterItem_comma, hskip, skipSpace_renderAt, readItems_of_value hread,
        afterItem_renderItems style xs hxs x _ _ rest bound (by omega)]
      rfl

theorem afterMember_renderMembers (style : Style) : ∀ (ms : List (String × Json)),
    PortableMembers limit ms →
    ∀ (m : String × Json) (level closing : Nat) (rest : List Char) (bound : Nat),
    (renderMembers style level ms).length ≤ bound →
      afterMember limit bound m
        (renderMembers style level ms ++ (style.newline closing ++ '\x7d' :: rest)) =
          .ok (m :: ms, rest)
  | [], _, m, level, closing, rest, bound, _ => by
      rw [renderMembers, List.nil_append, afterMember, skipSpace_newline,
        skipSpace_of_head (by decide)]
      rfl
  | (k, v) :: ms, ⟨hv, hms⟩, m, level, closing, rest, bound, hbound => by
      obtain ⟨blanks, hblanks, hskip⟩ := separator_eq style level
      rw [renderMembers, hblanks] at hbound ⊢
      simp only [List.cons_append, List.nil_append, List.append_assoc, List.length_cons,
        List.length_append] at hbound ⊢
      obtain ⟨bound, rfl⟩ : ∃ n, bound = n + 1 := ⟨bound - 1, by omega⟩
      have hread := readValue_renderAt style v hv level _
        (stops_renderMembers style level closing rest ms) bound (by omega)
      rw [afterMember_comma, hskip, skipSpace_renderString,
        readMembers_of_value (skipSpace_renderAt _ _ _ _) hread,
        afterMember_renderMembers style ms hms (k, v) _ _ rest bound (by omega)]
      rfl

end

/-- A value is read back from its text. -/
theorem readWithin_render {v : Json} (hv : v.Portable limit) (style : Style) :
    readWithin limit (render style v) = .ok v := by
  have hskip : skipSpace (renderAt style 0 v) = renderAt style 0 v := by
    simpa using skipSpace_renderAt style 0 v []
  have hread := readValue_renderAt style v hv 0 [] (fun c cs h => by cases h)
    (2 * (renderAt style 0 v).length + 1) (by omega)
  rw [List.append_nil] at hread
  rw [readWithin, render, String.toList_ofList, hskip]
  simp only [hread]
  rfl

end Harvest.Json
