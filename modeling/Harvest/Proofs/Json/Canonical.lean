import Harvest.Proofs.Json.Strings
import Mathlib.Data.List.Nodup
import Std.Data.String.ToInt

/-!
# Canonical text

Values with the same JSON text on one line are the same, up to floating-point numbers that have the
same text.  So the canonical text tells values apart that differ in more than the order of members.
-/

namespace Harvest.Json

/-! ## Numbers and constants -/

/-- Whether a character may stand in the text of a finite number. -/
def isNumberChar (c : Char) : Bool := c.isDigit || c == '.' || c == '-' || c == '+' || c == 'e'

theorem isNumberChar_digit {n : Nat} {c : Char} (h : c ∈ Decimal.digitChars n) :
    isNumberChar c = true := by
  have hdigit := Nat.isDigit_of_mem_toDigits (by decide) (by decide) h
  simp [isNumberChar, hdigit]

theorem mem_positional {ds : List Char} {point : Int} {c : Char}
    (h : c ∈ Decimal.positional ds point) : c ∈ ds ∨ c = '0' ∨ c = '.' := by
  unfold Decimal.positional at h
  split at h
  · simp only [List.cons_append, List.mem_append, List.mem_cons, List.mem_replicate] at h
    rcases h with h | h | h | h
    · exact Or.inr (Or.inl h)
    · exact Or.inr (Or.inr h)
    · exact Or.inr (Or.inl h.2)
    · exact Or.inl h
  split at h
  · rcases List.mem_append.mp h with h | h
    · exact Or.inl h
    · exact Or.inr (Or.inl (List.mem_replicate.mp h).2)
  · simp only [List.mem_append, List.mem_cons] at h
    rcases h with h | h | h
    · exact Or.inl (List.mem_of_mem_take h)
    · exact Or.inr (Or.inr h)
    · exact Or.inl (List.mem_of_mem_drop h)

theorem point_mem_positional {ds : List Char} {point : Int} :
    '.' ∈ Decimal.positional ds point ++ if (ds.length : Int) ≤ point then ['.', '0'] else [] := by
  unfold Decimal.positional
  split
  · simp
  split
  · simp
  · simp

theorem isNumberChar_exponential {n : Nat} {point : Int} {c : Char}
    (h : c ∈ Decimal.exponential (Decimal.digitChars n) point) : isNumberChar c = true := by
  unfold Decimal.exponential at h
  simp only [List.mem_append, List.mem_cons, List.mem_replicate] at h
  rcases h with (h | h) | rfl | h | ⟨_, rfl⟩ | h
  · exact isNumberChar_digit (List.mem_of_mem_take h)
  · split at h
    · simp at h
    · rcases List.mem_cons.mp h with rfl | h
      · rfl
      · exact isNumberChar_digit (List.mem_of_mem_drop h)
  · rfl
  · rw [h]
    split <;> rfl
  · rfl
  · exact isNumberChar_digit h

theorem mem_signed {negative : Bool} {cs : List Char} {c : Char}
    (h : c ∈ Decimal.signed negative cs) : c = '-' ∨ c ∈ cs := by
  cases negative with
  | true => exact List.mem_cons.mp h
  | false => exact Or.inr h

theorem mem_signed_of_mem {negative : Bool} {cs : List Char} {c : Char} (h : c ∈ cs) :
    c ∈ Decimal.signed negative cs := by
  cases negative with
  | true => exact List.mem_cons_of_mem _ h
  | false => exact h

/-- The text of a finite number is made of the characters of numbers, and has a point or a power. -/
theorem general_finite {x : Binary64} {m : Nat} {q : Int} (h : x.magnitude = .finite m q) :
    (∀ c ∈ (Decimal.general x).toList, isNumberChar c = true) ∧
      ('.' ∈ (Decimal.general x).toList ∨ 'e' ∈ (Decimal.general x).toList) := by
  obtain ⟨body, hbody, hchars, hmark⟩ : ∃ body,
      Decimal.general x = String.ofList (Decimal.signed x.isNegative body) ∧
        (∀ c ∈ body, isNumberChar c = true) ∧ ('.' ∈ body ∨ 'e' ∈ body) := by
    unfold Decimal.general
    rw [h]
    cases m with
    | zero => exact ⟨['0', '.', '0'], rfl, by simp [isNumberChar, Char.isDigit], by decide⟩
    | succ m =>
        refine ⟨_, rfl, ?_⟩
        split
        · refine ⟨fun c hc => ?_, Or.inl point_mem_positional⟩
          rcases List.mem_append.mp hc with hc | hc
          · rcases mem_positional hc with hc | rfl | rfl
            · exact isNumberChar_digit hc
            · rfl
            · rfl
          · split at hc
            · rcases List.mem_pair.mp hc with rfl | rfl
              · rfl
              · rfl
            · simp at hc
        · refine ⟨fun c hc => isNumberChar_exponential hc, Or.inr ?_⟩
          simp [Decimal.exponential]
  rw [hbody, String.toList_ofList]
  refine ⟨fun c hc => ?_, hmark.imp mem_signed_of_mem mem_signed_of_mem⟩
  rcases mem_signed hc with rfl | hc
  · rfl
  · exact hchars c hc

/-- The text of a floating-point number is that of a named one, or has a point or a power. -/
theorem renderFloat_cases (x : Binary64) :
    renderFloat x ∈ ["NaN".toList, "-Infinity".toList, "Infinity".toList] ∨
      (∀ c ∈ renderFloat x, isNumberChar c = true) ∧
      ('.' ∈ renderFloat x ∨ 'e' ∈ renderFloat x) := by
  unfold renderFloat
  cases hm : x.magnitude with
  | undefined => simp
  | infinite =>
      dsimp only
      split <;> simp
  | finite m q => exact Or.inr (general_finite hm)

theorem mem_toString_int {i : Int} {c : Char} (h : c ∈ (toString i).toList) :
    c.isDigit = true ∨ c = '-' := by
  rw [Int.toString_eq_repr, Int.repr_eq_if] at h
  split at h
  · rw [Nat.toList_repr] at h
    exact Or.inl (Nat.isDigit_of_mem_toDigits (by decide) (by decide) h)
  · rw [String.toList_append, List.mem_append, Nat.toList_repr] at h
    rcases h with h | h
    · exact Or.inr (by simpa using h)
    · exact Or.inl (Nat.isDigit_of_mem_toDigits (by decide) (by decide) h)

/-! ## Scalars -/

/-- The text of a value that is neither a string nor has parts. -/
def scalarText? : Json → Option (List Char)
  | .null => some "null".toList
  | .bool true => some "true".toList
  | .bool false => some "false".toList
  | .int i => some (toString i).toList
  | .float x => some (renderFloat x)
  | _ => none

theorem renderAt_of_scalarText? {v : Json} {t : List Char} (h : scalarText? v = some t)
    (style : Style) (level : Nat) : renderAt style level v = t := by
  cases v with
  | null => exact Option.some.inj h
  | bool b => cases b <;> exact Option.some.inj h
  | int i => exact Option.some.inj h
  | float x => exact Option.some.inj h
  | str s => simp [scalarText?] at h
  | list xs => simp [scalarText?] at h
  | map ms => simp [scalarText?] at h

/-- The characters that begin or end what is no scalar, or stand between values. -/
def marks : List Char := ['"', '[', ']', '\x7b', '\x7d', ',', ':', ' ']

theorem not_mem_marks {c : Char} (h : isNumberChar c = true) : c ∉ marks := by
  intro hc
  have hall : ∀ d ∈ marks, isNumberChar d = false := by simp [marks, isNumberChar, Char.isDigit]
  rw [hall c hc] at h
  exact Bool.noConfusion h

theorem isNumberChar_int {i : Int} {c : Char} (h : c ∈ (toString i).toList) :
    isNumberChar c = true := by
  rcases mem_toString_int h with h | rfl
  · simp [isNumberChar, h]
  · rfl

/-- The text of a scalar has no marks. -/
theorem plain_scalarText? {v : Json} {t : List Char} (h : scalarText? v = some t) :
    t ≠ [] ∧ ∀ c ∈ t, c ∉ marks := by
  cases v with
  | null =>
      obtain rfl := Option.some.inj h
      simp [marks]
  | bool b =>
      cases b with
      | false =>
          obtain rfl := Option.some.inj h
          simp [marks]
      | true =>
          obtain rfl := Option.some.inj h
          simp [marks]
  | int i =>
      obtain rfl := Option.some.inj h
      refine ⟨?_, fun c hc => not_mem_marks (isNumberChar_int hc)⟩
      rw [Int.toString_eq_repr, Int.repr_eq_if]
      split
      · rw [Nat.toList_repr]
        exact Nat.toDigits_ne_nil
      · simp
  | float x =>
      obtain rfl := Option.some.inj h
      rcases renderFloat_cases x with hnamed | ⟨hchars, hmark⟩
      · have hall : ∀ t ∈ ["NaN".toList, "-Infinity".toList, "Infinity".toList],
            t ≠ [] ∧ ∀ c ∈ t, c ∉ marks := by simp [marks]
        exact hall _ hnamed
      · refine ⟨fun hnil => ?_, fun c hc => not_mem_marks (hchars c hc)⟩
        simp [hnil] at hmark
  | str s => simp [scalarText?] at h
  | list xs => simp [scalarText?] at h
  | map ms => simp [scalarText?] at h

mutual

/-- Whether values differ in nothing but floating-point numbers of the same text. -/
def Alike : Json → Json → Prop
  | .list xs, .list ys => AlikeItems xs ys
  | .map ms, .map ns => AlikeMembers ms ns
  | .float x, .float y => renderFloat x = renderFloat y
  | .null, .null => True
  | .bool a, .bool b => a = b
  | .int i, .int j => i = j
  | .str s, .str t => s = t
  | _, _ => False

/-- `Alike` for items, one by one. -/
def AlikeItems : List Json → List Json → Prop
  | [], [] => True
  | x :: xs, y :: ys => Alike x y ∧ AlikeItems xs ys
  | _, _ => False

/-- `Alike` for the values of members with the same keys, one by one. -/
def AlikeMembers : List (String × Json) → List (String × Json) → Prop
  | [], [] => True
  | (k, v) :: ms, (l, w) :: ns => k = l ∧ Alike v w ∧ AlikeMembers ms ns
  | _, _ => False

end

/-- Which kind of scalar a value is. -/
def scalarKind : Json → Nat
  | .null => 0
  | .bool true => 1
  | .bool false => 2
  | .int _ => 3
  | _ => 4

/-- Which kind of scalar a text is that of. -/
def textKind (t : List Char) : Nat :=
  if t = "null".toList then 0
  else if t = "true".toList then 1
  else if t = "false".toList then 2
  else if t.all fun c => c.isDigit || c == '-' then 3
  else 4

/-- A text of number characters is no word. -/
theorem textKind_number {t : List Char} (h : ∀ c ∈ t, isNumberChar c = true) :
    textKind t = if t.all fun c => c.isDigit || c == '-' then 3 else 4 := by
  have hnull : t ≠ "null".toList := by
    rintro rfl
    exact absurd (h 'u' (by decide)) (by decide)
  have htrue : t ≠ "true".toList := by
    rintro rfl
    exact absurd (h 'u' (by decide)) (by decide)
  have hfalse : t ≠ "false".toList := by
    rintro rfl
    exact absurd (h 'f' (by decide)) (by decide)
  rw [textKind, if_neg hnull, if_neg htrue, if_neg hfalse]

/-- The text of a scalar tells its kind. -/
theorem textKind_of_scalarText? {v : Json} {t : List Char} (h : scalarText? v = some t) :
    textKind t = scalarKind v := by
  cases v with
  | null =>
      obtain rfl := Option.some.inj h
      rfl
  | bool b =>
      cases b with
      | false =>
          obtain rfl := Option.some.inj h
          rfl
      | true =>
          obtain rfl := Option.some.inj h
          rfl
  | int i =>
      obtain rfl := Option.some.inj h
      rw [textKind_number fun c hc => isNumberChar_int hc, if_pos]
      · rfl
      · rw [List.all_eq_true]
        intro c hc
        simpa using mem_toString_int hc
  -- a float has a point or an exponent, unless it is one of the three that are written by name
  | float x =>
      obtain rfl := Option.some.inj h
      rcases renderFloat_cases x with hnamed | ⟨hchars, hmark⟩
      · have hall : ∀ t ∈ ["NaN".toList, "-Infinity".toList, "Infinity".toList],
            textKind t = 4 := by
          decide
        exact hall _ hnamed
      · rw [textKind_number hchars, if_neg]
        · rfl
        · intro hdigits
          rw [List.all_eq_true] at hdigits
          rcases hmark with hc | hc
          · exact absurd (hdigits _ hc) (by decide)
          · exact absurd (hdigits _ hc) (by decide)
  | str s => simp [scalarText?] at h
  | list xs => simp [scalarText?] at h
  | map ms => simp [scalarText?] at h

/-- Scalars of the same text are alike. -/
theorem alike_of_scalarText? {v w : Json} {t : List Char} (hv : scalarText? v = some t)
    (hw : scalarText? w = some t) : Alike v w := by
  have hkind : scalarKind v = scalarKind w := by
    rw [← textKind_of_scalarText? hv, textKind_of_scalarText? hw]
  cases v with
  | null => cases w with
    | null => trivial
    | bool b => cases b <;> cases hkind
    | _ => cases hkind
  | bool a => cases w with
    | bool b => cases a <;> cases b <;> first | rfl | cases hkind
    | _ => cases a <;> cases hkind
  | int i => cases w with
    | int j =>
        have htext : (toString i).toList = (toString j).toList :=
          (Option.some.inj hv).trans (Option.some.inj hw).symm
        rw [String.toList_inj, Int.toString_eq_repr, Int.toString_eq_repr] at htext
        exact Int.repr_injective htext
    | bool b => cases b <;> cases hkind
    | _ => cases hkind
  | float x => cases w with
    | float y => exact (Option.some.inj hv).trans (Option.some.inj hw).symm
    | bool b => cases b <;> cases hkind
    | str s => cases hw
    | list xs => cases hw
    | map ms => cases hw
    | _ => cases hkind
  | _ => cases hv

/-! ## Values -/

/-- Whether a text is at its end or goes on with a mark. -/
def Ends (r : List Char) : Prop := ∀ c cs, r = c :: cs → c ∈ marks

theorem ends_cons {c : Char} {cs : List Char} (h : c ∈ marks) : Ends (c :: cs) := by
  intro d ds heq
  rw [List.cons.injEq] at heq
  rw [← heq.1]
  exact h

/-- Two texts without marks that are followed by marks end at the same place. -/
theorem append_inj_of_plain {t u r r' : List Char} (ht : ∀ c ∈ t, c ∉ marks)
    (hu : ∀ c ∈ u, c ∉ marks) (hr : Ends r) (hr' : Ends r') (h : t ++ r = u ++ r') :
    t = u ∧ r = r' := by
  induction t generalizing u with
  | nil =>
      cases u with
      | nil => exact ⟨rfl, h⟩
      | cons d u => exact absurd (hr d _ h) (hu d List.mem_cons_self)
  | cons c t ih =>
      cases u with
      | nil => exact absurd (hr' c _ h.symm) (ht c List.mem_cons_self)
      | cons d u =>
          rw [List.cons_append, List.cons_append, List.cons.injEq] at h
          obtain ⟨rfl, h⟩ := h
          obtain ⟨rfl, hrest⟩ := ih (fun e he => ht e (List.mem_cons_of_mem c he))
            (fun e he => hu e (List.mem_cons_of_mem c he)) h
          exact ⟨rfl, hrest⟩

/-- The mark with which the text of a value begins, if it is no scalar. -/
def opening? : Json → Option Char
  | .str _ => some '"'
  | .list _ => some '['
  | .map _ => some '\x7b'
  | _ => none

theorem scalarText?_of_opening? {v : Json} (h : opening? v = none) :
    ∃ t, scalarText? v = some t := by
  cases v with
  | bool b => cases b <;> exact ⟨_, rfl⟩
  | str s => cases h
  | list xs => cases h
  | map ms => cases h
  | _ => exact ⟨_, rfl⟩

/-- The text of a value begins with its opening mark, or with no mark. -/
theorem renderAt_head (style : Style) (level : Nat) (v : Json) :
    ∃ c cs, renderAt style level v = c :: cs ∧
      (opening? v = some c ∨ (opening? v = none ∧ c ∉ marks)) := by
  cases hv : opening? v with
  | none =>
      obtain ⟨t, ht⟩ := scalarText?_of_opening? hv
      obtain ⟨hne, hplain⟩ := plain_scalarText? ht
      obtain ⟨c, cs, rfl⟩ := List.exists_cons_of_ne_nil hne
      exact ⟨c, cs, renderAt_of_scalarText? ht style level,
        Or.inr ⟨rfl, hplain c List.mem_cons_self⟩⟩
  | some c =>
      cases v with
      | str s => exact ⟨'"', _, rfl, Or.inl hv.symm⟩
      | list xs =>
          cases xs with
          | nil => exact ⟨'[', _, by rw [renderAt], Or.inl hv.symm⟩
          | cons x xs => exact ⟨'[', _, by rw [renderAt]; rfl, Or.inl hv.symm⟩
      | map ms =>
          cases ms with
          | nil => exact ⟨'\x7b', _, by rw [renderAt], Or.inl hv.symm⟩
          | cons m ms => exact ⟨'\x7b', _, by rw [renderAt]; rfl, Or.inl hv.symm⟩
      | _ => cases hv

theorem opening?_mem {v : Json} {c : Char} (h : opening? v = some c) :
    c ∈ ['"', '[', '\x7b'] := by
  cases v with
  | str s => simp [← Option.some.inj h]
  | list xs => simp [← Option.some.inj h]
  | map ms => simp [← Option.some.inj h]
  | _ => cases h

theorem opening?_eq {style : Style} {l l' : Nat} {v w : Json} {r r' : List Char}
    (h : renderAt style l v ++ r = renderAt style l' w ++ r') : opening? v = opening? w := by
  have hmarks : ∀ c ∈ ['"', '[', '\x7b'], c ∈ marks := by simp [marks]
  obtain ⟨c, cs, hv, hc⟩ := renderAt_head style l v
  obtain ⟨d, ds, hw, hd⟩ := renderAt_head style l' w
  rw [hv, hw, List.cons_append, List.cons_append, List.cons.injEq] at h
  obtain ⟨rfl, _⟩ := h
  rcases hc with hc | ⟨hc, hplain⟩
  · rcases hd with hd | ⟨_, hplain⟩
    · rw [hc, hd]
    · exact absurd (hmarks c (opening?_mem hc)) hplain
  · rcases hd with hd | ⟨hd, _⟩
    · exact absurd (hmarks c (opening?_mem hd)) hplain
    · rw [hc, hd]

/-- No value begins with a mark that closes. -/
theorem renderAt_append_ne {style : Style} {l : Nat} {v : Json} {c : Char} {r r' : List Char}
    (hc : c ∈ [']', '\x7d', ',']) : renderAt style l v ++ r ≠ c :: r' := by
  intro h
  obtain ⟨d, ds, hv, hd⟩ := renderAt_head style l v
  rw [hv, List.cons_append, List.cons.injEq] at h
  obtain ⟨rfl, _⟩ := h
  rcases hd with hd | ⟨_, hplain⟩
  · have hne : ∀ e ∈ ['"', '[', '\x7b'], e ∉ [']', '\x7d', ','] := by simp
    exact hne d (opening?_mem hd) hc
  · have hmarks : ∀ e ∈ [']', '\x7d', ','], e ∈ marks := by simp [marks]
    exact hplain (hmarks d hc)

/-- Scalars with the same text in front of marks are alike. -/
theorem alike_of_opening? {style : Style} {l l' : Nat} {v w : Json} {r r' : List Char}
    (hv : opening? v = none) (hw : opening? w = none) (hr : Ends r) (hr' : Ends r')
    (h : renderAt style l v ++ r = renderAt style l' w ++ r') : Alike v w ∧ r = r' := by
  obtain ⟨t, ht⟩ := scalarText?_of_opening? hv
  obtain ⟨u, hu⟩ := scalarText?_of_opening? hw
  rw [renderAt_of_scalarText? ht, renderAt_of_scalarText? hu] at h
  obtain ⟨rfl, hrest⟩ :=
    append_inj_of_plain (plain_scalarText? ht).2 (plain_scalarText? hu).2 hr hr' h
  exact ⟨alike_of_scalarText? ht hu, hrest⟩

theorem renderAt_list_append (style : Style) (level : Nat) (x : Json) (xs : List Json)
    (rest : List Char) : renderAt style level (.list (x :: xs)) ++ rest =
      '[' :: (style.newline (level + 1) ++ (renderAt style (level + 1) x ++
        (renderItems style (level + 1) xs ++ (style.newline level ++ ']' :: rest)))) := by
  simp [renderAt]

theorem renderAt_map_append (style : Style) (level : Nat) (k : String) (v : Json) (ms : Members)
    (rest : List Char) : renderAt style level (.map ((k, v) :: ms)) ++ rest =
      '\x7b' :: (style.newline (level + 1) ++ (renderString style.asciiOnly k ++ ':' :: ' ' ::
        (renderAt style (level + 1) v ++ (renderMembers style (level + 1) ms ++
          (style.newline level ++ '\x7d' :: rest))))) := by
  simp [renderAt]

section

variable {a : Bool} {l l' : Nat} {r r' : List Char}

theorem renderAt_list (x : Json) (xs : List Json) :
    renderAt ⟨none, a⟩ l (.list (x :: xs)) ++ r =
      '[' :: (renderAt ⟨none, a⟩ (l + 1) x ++ (renderItems ⟨none, a⟩ (l + 1) xs ++ ']' :: r)) :=
  renderAt_list_append ⟨none, a⟩ l x xs r

theorem renderItems_cons (x : Json) (xs : List Json) :
    renderItems ⟨none, a⟩ l (x :: xs) ++ r =
      ',' :: ' ' :: (renderAt ⟨none, a⟩ l x ++ (renderItems ⟨none, a⟩ l xs ++ r)) := by
  simp [renderItems, Style.separator]

theorem renderAt_map (k : String) (v : Json) (ms : Members) :
    renderAt ⟨none, a⟩ l (.map ((k, v) :: ms)) ++ r =
      '\x7b' :: (renderString a k ++ ':' :: ' ' ::
        (renderAt ⟨none, a⟩ (l + 1) v ++ (renderMembers ⟨none, a⟩ (l + 1) ms ++ '\x7d' :: r))) :=
  renderAt_map_append ⟨none, a⟩ l k v ms r

theorem renderMembers_cons (k : String) (v : Json) (ms : Members) :
    renderMembers ⟨none, a⟩ l ((k, v) :: ms) ++ r =
      ',' :: ' ' :: (renderString a k ++ ':' :: ' ' ::
        (renderAt ⟨none, a⟩ l v ++ (renderMembers ⟨none, a⟩ l ms ++ r))) := by
  simp [renderMembers, Style.separator]

theorem ends_renderItems (xs : List Json) : Ends (renderItems ⟨none, a⟩ l xs ++ ']' :: r) := by
  cases xs with
  | nil => exact ends_cons (by decide)
  | cons x xs =>
      rw [renderItems_cons]
      exact ends_cons (by decide)

theorem ends_renderMembers (ms : Members) : Ends (renderMembers ⟨none, a⟩ l ms ++ '\x7d' :: r) := by
  cases ms with
  | nil => exact ends_cons (by decide)
  | cons m ms =>
      rw [renderMembers_cons]
      exact ends_cons (by decide)

end

/-! The induction is on the first value: its text and that of the second begin with the same mark,
and each part ends where the next mark stands. -/

mutual

/-- Values with the same text on one line, in front of marks, are alike. -/
theorem alike_of_renderAt {a : Bool} {l l' : Nat} {r r' : List Char} (v w : Json) (hr : Ends r)
    (hr' : Ends r') (h : renderAt ⟨none, a⟩ l v ++ r = renderAt ⟨none, a⟩ l' w ++ r') :
    Alike v w ∧ r = r' := by
  have hopen := opening?_eq h
  cases v with
  | str s =>
      cases w with
      | str t => exact renderString_append_inj h
      | _ => cases hopen
  | list xs =>
      cases w with
      | list ys =>
          cases xs with
          | nil =>
              cases ys with
              | nil => exact ⟨trivial, by simpa [renderAt] using h⟩
              | cons y ys =>
                  -- no item begins with a closing bracket
                  rw [renderAt_list, renderAt, List.cons_append, List.cons.injEq] at h
                  exact absurd h.2.symm (renderAt_append_ne (by decide))
          | cons x xs =>
              cases ys with
              | nil =>
                  rw [renderAt_list, renderAt, List.cons_append, List.cons.injEq] at h
                  exact absurd h.2 (renderAt_append_ne (by decide))
              | cons y ys =>
                  rw [renderAt_list, renderAt_list, List.cons.injEq] at h
                  obtain ⟨hx, h⟩ :=
                    alike_of_renderAt x y (ends_renderItems xs) (ends_renderItems ys) h.2
                  obtain ⟨hxs, hrest⟩ := alikeItems_of_renderItems xs ys h
                  exact ⟨⟨hx, hxs⟩, hrest⟩
      | _ => cases hopen
  | map ms =>
      cases w with
      | map ns =>
          cases ms with
          | nil =>
              cases ns with
              | nil => exact ⟨trivial, by simpa [renderAt] using h⟩
              | cons n ns =>
                  rw [renderAt_map, renderAt, List.cons_append, List.cons.injEq] at h
                  cases h.2
          | cons m ms =>
              cases ns with
              | nil =>
                  rw [renderAt_map, renderAt, List.cons_append, List.cons.injEq] at h
                  cases h.2
              | cons n ns =>
                  rw [renderAt_map, renderAt_map, List.cons.injEq] at h
                  obtain ⟨hk, h⟩ := renderString_append_inj h.2
                  rw [List.cons.injEq, List.cons.injEq] at h
                  obtain ⟨hv, h⟩ :=
                    alike_of_renderAt m.2 n.2 (ends_renderMembers ms) (ends_renderMembers ns) h.2.2
                  obtain ⟨hms, hrest⟩ := alikeMembers_of_renderMembers ms ns h
                  exact ⟨⟨hk, hv, hms⟩, hrest⟩
      | _ => cases hopen
  | _ =>
      -- what is no text, list or object ends only where a mark follows, so that both end together
      exact alike_of_opening? rfl hopen.symm hr hr' h

/-- `alike_of_renderAt` for further items and the bracket behind them. -/
theorem alikeItems_of_renderItems {a : Bool} {l l' : Nat} {r r' : List Char} (xs ys : List Json)
    (h : renderItems ⟨none, a⟩ l xs ++ ']' :: r = renderItems ⟨none, a⟩ l' ys ++ ']' :: r') :
    AlikeItems xs ys ∧ r = r' := by
  cases xs with
  | nil =>
      cases ys with
      | nil => exact ⟨trivial, by simpa [renderItems] using h⟩
      | cons y ys =>
          rw [renderItems_cons, renderItems] at h
          cases h
  | cons x xs =>
      cases ys with
      | nil =>
          rw [renderItems_cons, renderItems] at h
          cases h
      | cons y ys =>
          rw [renderItems_cons, renderItems_cons, List.cons.injEq, List.cons.injEq] at h
          obtain ⟨hx, h⟩ :=
            alike_of_renderAt x y (ends_renderItems xs) (ends_renderItems ys) h.2.2
          obtain ⟨hxs, hrest⟩ := alikeItems_of_renderItems xs ys h
          exact ⟨⟨hx, hxs⟩, hrest⟩

/-- `alike_of_renderAt` for further members and the brace behind them. -/
theorem alikeMembers_of_renderMembers {a : Bool} {l l' : Nat} {r r' : List Char} (ms ns : Members)
    (h : renderMembers ⟨none, a⟩ l ms ++ '\x7d' :: r =
      renderMembers ⟨none, a⟩ l' ns ++ '\x7d' :: r') :
    AlikeMembers ms ns ∧ r = r' := by
  cases ms with
  | nil =>
      cases ns with
      | nil => exact ⟨trivial, by simpa [renderMembers] using h⟩
      | cons n ns =>
          rw [renderMembers_cons, renderMembers] at h
          cases h
  | cons m ms =>
      cases ns with
      | nil =>
          rw [renderMembers_cons, renderMembers] at h
          cases h
      | cons n ns =>
          rw [renderMembers_cons, renderMembers_cons, List.cons.injEq, List.cons.injEq] at h
          obtain ⟨hk, h⟩ := renderString_append_inj h.2.2
          rw [List.cons.injEq, List.cons.injEq] at h
          obtain ⟨hv, h⟩ :=
            alike_of_renderAt m.2 n.2 (ends_renderMembers ms) (ends_renderMembers ns) h.2.2
          obtain ⟨hms, hrest⟩ := alikeMembers_of_renderMembers ms ns h
          exact ⟨⟨hk, hv, hms⟩, hrest⟩

end

mutual

theorem renderAt_of_alike {style : Style} {l : Nat} (v w : Json) (h : Alike v w) :
    renderAt style l v = renderAt style l w := by
  cases v with
  | list xs =>
      cases w with
      | list ys =>
          cases xs with
          | nil =>
              cases ys with
              | nil => rfl
              | cons y ys => cases h
          | cons x xs =>
              cases ys with
              | nil => cases h
              | cons y ys =>
                  rw [renderAt, renderAt, renderAt_of_alike x y h.1,
                    renderItems_of_alikeItems xs ys h.2]
      | _ => cases h
  | map ms =>
      cases w with
      | map ns =>
          cases ms with
          | nil =>
              cases ns with
              | nil => rfl
              | cons n ns => cases h
          | cons m ms =>
              cases ns with
              | nil => cases h
              | cons n ns =>
                  obtain ⟨hk, hv, hms⟩ := h
                  rw [renderAt, renderAt, hk, renderAt_of_alike m.2 n.2 hv,
                    renderMembers_of_alikeMembers ms ns hms]
      | _ => cases h
  | float x =>
      cases w with
      | float y => exact h
      | _ => cases h
  | _ =>
      cases w <;> cases h
      rfl

theorem renderItems_of_alikeItems {style : Style} {l : Nat} (xs ys : List Json)
    (h : AlikeItems xs ys) : renderItems style l xs = renderItems style l ys := by
  cases xs with
  | nil =>
      cases ys with
      | nil => rfl
      | cons y ys => cases h
  | cons x xs =>
      cases ys with
      | nil => cases h
      | cons y ys =>
          rw [renderItems, renderItems, renderAt_of_alike x y h.1,
            renderItems_of_alikeItems xs ys h.2]

theorem renderMembers_of_alikeMembers {style : Style} {l : Nat} (ms ns : Members)
    (h : AlikeMembers ms ns) : renderMembers style l ms = renderMembers style l ns := by
  cases ms with
  | nil =>
      cases ns with
      | nil => rfl
      | cons n ns => cases h
  | cons m ms =>
      cases ns with
      | nil => cases h
      | cons n ns =>
          obtain ⟨hk, hv, hms⟩ := h
          rw [renderMembers, renderMembers, hk, renderAt_of_alike m.2 n.2 hv,
            renderMembers_of_alikeMembers ms ns hms]

end

/-- Values have the same canonical text just if they are alike once their members are sorted. -/
theorem canonical_eq_iff {v w : Json} :
    canonical v = canonical w ↔ Alike v.sortKeys w.sortKeys := by
  have hnil : Ends [] := fun _ _ h => by cases h
  rw [canonical, canonical, render, render, String.ofList_inj]
  constructor
  · intro h
    exact (alike_of_renderAt _ _ hnil hnil (congrArg (· ++ []) h)).1
  · exact renderAt_of_alike _ _

/-! ## The order of members -/

theorem sortMembers_eq_map (ms : Members) :
    sortMembers ms = ms.map fun m => (m.1, m.2.sortKeys) := by
  induction ms with
  | nil => rfl
  | cons m ms ih => rw [sortMembers, ih, List.map_cons]

theorem keys_sortMembers (ms : Members) : Members.keys (sortMembers ms) = ms.keys := by
  rw [sortMembers_eq_map, Members.keys, List.map_map]
  rfl

theorem pairwise_keyLe (ms : Members) :
    ((sortMembers ms).mergeSort keyLe).Pairwise fun a b => keyLe a b = true := by
  refine List.pairwise_mergeSort (fun a b c hab hbc => ?_) (fun a b => ?_) _
  · exact decide_eq_true (String.le_trans (of_decide_eq_true hab) (of_decide_eq_true hbc))
  · simpa [keyLe] using String.le_total a.1 b.1

/-- Once the keys are sorted, it does not matter in which order they were. -/
theorem sortKeys_of_perm {ms ns : Members} (h : ms.Perm ns) (hkeys : ms.keys.Nodup) :
    (Json.map ms).sortKeys = (Json.map ns).sortKeys := by
  have hperm : (sortMembers ms).Perm (sortMembers ns) := by
    rw [sortMembers_eq_map, sortMembers_eq_map]
    exact h.map _
  have hms := List.mergeSort_perm (sortMembers ms) keyLe
  have hns := List.mergeSort_perm (sortMembers ns) keyLe
  rw [← keys_sortMembers] at hkeys
  rw [sortKeys, sortKeys]
  refine congrArg Json.map ((hms.trans (hperm.trans hns.symm)).eq_of_pairwise
    (fun a b ha hb hab hba => ?_) (pairwise_keyLe ms) (pairwise_keyLe ns))
  have heq : a.1 = b.1 := String.le_antisymm (of_decide_eq_true hab) (of_decide_eq_true hba)
  exact List.inj_on_of_nodup_map hkeys (hms.mem_iff.mp ha)
    (hperm.mem_iff.mpr (hns.mem_iff.mp hb)) heq

end Harvest.Json
