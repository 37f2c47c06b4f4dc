import Harvest.Match
import Harvest.Proofs.Calendar.ReadBack

/-!
# The text of a number

What a decimal text denotes exactly, whether it stands with or without a power of ten.  The text of
a finite number is plain and denotes the number itself if it is an integer, and else what its
shortest text denotes.
-/

namespace Harvest

open Text (readDecimal isDecimal)
open Calendar (isDecimal_of_isDigit)

namespace Decimal

/-- A number behind a sign. -/
def withSign (negative : Bool) (v : ℚ) : ℚ := if negative then -v else v

end Decimal

/-- The value of a finite number. -/
def Binary64.value? (x : Binary64) : Option ℚ :=
  match x.magnitude with
  | .finite m q => some (Decimal.withSign x.isNegative (m * 2 ^ q))
  | _ => none

namespace Decimal

/-! ## What a text denotes -/

def Scientific.value (s : Scientific) : ℚ := s.digits * 10 ^ s.exponent

theorem Scientific.value_mul_pow (n k : Nat) (e : Int) :
    Scientific.value ⟨n * 10 ^ k, e⟩ = Scientific.value ⟨n, e + k⟩ := by
  rw [Scientific.value, Scientific.value, zpow_add₀ (by norm_num), zpow_natCast]
  push_cast
  ring

/-- The digits and the power of ten that an unsigned text of digits, point and power writes. -/
def scientific? (cs : List Char) : Option Scientific :=
  let (whole, rest) := takeGrouped cs
  let (fraction, rest) := match rest with
    | '.' :: r => takeGrouped r
    | r => ([], r)
  if whole.isEmpty && fraction.isEmpty then none
  else (readPower? rest).map fun power =>
    ⟨readDecimal (whole ++ fraction), power - fraction.length⟩

/-- The number that an unsigned text denotes, before any rounding. -/
def unsigned? (cs : List Char) : Option ℚ := (scientific? cs).map Scientific.value

/-- The number that a text with a sign or without one denotes. -/
def denoted? (cs : List Char) : Option ℚ :=
  let (negative, cs) := takeSign cs
  (unsigned? cs).map (withSign negative)

/-- A sign that may be missing, digits, and a point with digits that may be missing. -/
inductive IsPlain : List Char → Prop
  | whole (negative : Bool) {ds : List Char} (hne : ds ≠ [])
      (hds : ∀ c ∈ ds, c.isDigit = true) : IsPlain (signed negative ds)
  | fraction (negative : Bool) {ds es : List Char} (hne : ds ≠ [])
      (hds : ∀ c ∈ ds, c.isDigit = true) (hne' : es ≠ [])
      (hes : ∀ c ∈ es, c.isDigit = true) : IsPlain (signed negative (ds ++ '.' :: es))

/-! ## Digits -/

section
variable {ds es rest : List Char}

theorem isDigit_digitChars (n : Nat) : ∀ c ∈ digitChars n, c.isDigit = true :=
  fun _ => Nat.isDigit_of_mem_toDigits (by decide) (by decide)

theorem digitChars_ne_nil (n : Nat) : digitChars n ≠ [] := Nat.toDigits_ne_nil

theorem isDigit_append (hds : ∀ c ∈ ds, c.isDigit = true) (hes : ∀ c ∈ es, c.isDigit = true) :
    ∀ c ∈ ds ++ es, c.isDigit = true :=
  List.forall_mem_append.mpr ⟨hds, hes⟩

theorem isDigit_zeros (k : Nat) : ∀ c ∈ List.replicate k '0', c.isDigit = true := by
  intro c hc
  rw [List.eq_of_mem_replicate hc]
  rfl

theorem takeGrouped_append (hds : ∀ c ∈ ds, c.isDigit = true)
    (hrest : ∀ c ∈ rest.head?, isDecimal c = false ∧ c ≠ '_') :
    takeGrouped (ds ++ rest) = (ds, rest) := by
  induction ds with
  | nil =>
      cases rest with
      | nil => rfl
      | cons c r =>
          obtain ⟨hc, -⟩ := hrest c rfl
          rw [List.nil_append, takeGrouped.eq_def]
          split <;> simp_all
  | cons d ds ih =>
      have hd := isDecimal_of_isDigit (hds d List.mem_cons_self)
      have htail := ih fun c hc => hds c (List.mem_cons_of_mem d hc)
      -- the character behind a digit is no low line: it is a digit or the head of the rest
      have hline : ∀ e r, ds ++ rest ≠ '_' :: e :: r := by
        intro e r heq
        cases ds with
        | nil =>
            rw [List.nil_append] at heq
            exact (hrest '_' (by rw [heq]; rfl)).2 rfl
        | cons c ds =>
            obtain ⟨rfl, -⟩ := List.cons.inj heq
            have hc := hds '_' (by simp)
            cases hc
      rw [List.cons_append, takeGrouped, if_pos hd, htail]
      exact hline

theorem readDecimal_append_zeros (ds : List Char) (k : Nat) :
    readDecimal (ds ++ List.replicate k '0') = readDecimal ds * 10 ^ k := by
  induction k with
  | zero => simp
  | succ k ih =>
      rw [List.replicate_succ', ← List.append_assoc, Text.readDecimal_concat, ih, Nat.pow_succ]
      have hzero : (Text.decimalValue? '0').getD 0 = 0 := rfl
      rw [hzero]
      ring

theorem readDecimal_digitChars (n : Nat) : readDecimal (digitChars n) = n :=
  Text.readDecimal_toDigits n

end

/-! ## Reading what was laid out -/

section
variable {ds es rest : List Char}

/-- Where a power of ten or nothing follows. -/
def EndsDigits (rest : List Char) : Prop :=
  ∀ c ∈ rest.head?, isDecimal c = false ∧ c ≠ '_' ∧ c ≠ '.'

theorem EndsDigits.head (h : EndsDigits rest) :
    ∀ c ∈ rest.head?, isDecimal c = false ∧ c ≠ '_' :=
  fun c hc => ⟨(h c hc).1, (h c hc).2.1⟩

theorem endsDigits_nil : EndsDigits [] := nofun

theorem readPower?_nil : readPower? [] = some 0 := rfl

theorem unsigned?_whole {power : Int} (hne : ds ≠ []) (hds : ∀ c ∈ ds, c.isDigit = true)
    (hrest : EndsDigits rest) (hpower : readPower? rest = some power) :
    unsigned? (ds ++ rest) = some (Scientific.value ⟨readDecimal ds, power⟩) := by
  have hpoint : ∀ r, rest ≠ '.' :: r := by
    rintro r rfl
    exact (hrest '.' rfl).2.2 rfl
  unfold unsigned? scientific?
  rw [takeGrouped_append hds hrest.head]
  dsimp only
  split
  · next r => exact absurd rfl (hpoint r)
  · simp [hne, hpower]

theorem unsigned?_fraction {power : Int} (hne : ds ≠ []) (hds : ∀ c ∈ ds, c.isDigit = true)
    (hes : ∀ c ∈ es, c.isDigit = true) (hrest : EndsDigits rest)
    (hpower : readPower? rest = some power) :
    unsigned? (ds ++ '.' :: (es ++ rest)) =
      some (Scientific.value ⟨readDecimal (ds ++ es), power - es.length⟩) := by
  have hpoint : ∀ c ∈ ('.' :: (es ++ rest)).head?, isDecimal c = false ∧ c ≠ '_' := by
    rintro c ⟨⟩
    decide
  simp only [unsigned?, scientific?, takeGrouped_append hds hpoint,
    takeGrouped_append hes hrest.head, hpower]
  simp [hne]

/-- A positional layout has zeros behind its digits, or a point among them or in front of them. -/
theorem positional_cases (hne : ds ≠ []) (hds : ∀ c ∈ ds, c.isDigit = true) (point : Int) :
    (∃ k : Nat, point = ds.length + k ∧ positional ds point = ds ++ List.replicate k '0') ∨
    ∃ whole fraction, whole ≠ [] ∧ fraction ≠ [] ∧ (∀ c ∈ whole, c.isDigit = true) ∧
      (∀ c ∈ fraction, c.isDigit = true) ∧ positional ds point = whole ++ '.' :: fraction ∧
      readDecimal (whole ++ fraction) = readDecimal ds ∧
      point - ds.length = -fraction.length := by
  have hpos : 0 < ds.length := List.length_pos_iff.mpr hne
  unfold positional
  split
  · -- the point stands in front, with zeros between it and the digits
    refine Or.inr ⟨['0'], List.replicate (-point).toNat '0' ++ ds, by simp, by simp [hne],
      isDigit_zeros 1, isDigit_append (isDigit_zeros _) hds, by simp, ?_, ?_⟩
    · exact Text.readDecimal_replicate_zero ((-point).toNat + 1) ds
    · rw [List.length_append, List.length_replicate]
      omega
  split
  · exact Or.inl ⟨point.toNat - ds.length, by omega, rfl⟩
  · refine Or.inr ⟨ds.take point.toNat, ds.drop point.toNat, ?_, ?_,
      fun c hc => hds c (List.mem_of_mem_take hc), fun c hc => hds c (List.mem_of_mem_drop hc),
      rfl, ?_, ?_⟩
    · intro hnil
      rcases List.take_eq_nil_iff.mp hnil with hzero | hnil
      · omega
      · exact hne hnil
    · rw [Ne, List.drop_eq_nil_iff]
      omega
    · rw [List.take_append_drop]
    · rw [List.length_drop]
      omega

theorem unsigned?_positional (hne : ds ≠ []) (hds : ∀ c ∈ ds, c.isDigit = true) (point : Int) :
    unsigned? (positional ds point) =
      some (Scientific.value ⟨readDecimal ds, point - ds.length⟩) := by
  obtain ⟨k, rfl, heq⟩ | ⟨whole, fraction, hwhole, _, hdigits, hdigits', heq, hread, hpoint⟩ :=
    positional_cases hne hds point
  · have hzeros := unsigned?_whole (List.append_ne_nil_of_left_ne_nil hne _)
      (isDigit_append hds (isDigit_zeros k)) endsDigits_nil readPower?_nil
    rw [List.append_nil] at hzeros
    rw [heq, hzeros, readDecimal_append_zeros, Scientific.value_mul_pow, zero_add,
      add_sub_cancel_left]
  · have hfraction := unsigned?_fraction hwhole hdigits hdigits' endsDigits_nil readPower?_nil
    rw [List.append_nil] at hfraction
    rw [heq, hfraction, hread, hpoint, zero_sub]

/-- A point and a zero behind an integer change nothing. -/
theorem unsigned?_positional_point (hne : ds ≠ []) (hds : ∀ c ∈ ds, c.isDigit = true)
    (point : Int) :
    unsigned? (positional ds point ++ if (ds.length : Int) ≤ point then ['.', '0'] else []) =
      some (Scientific.value ⟨readDecimal ds, point - ds.length⟩) := by
  split
  · obtain ⟨k, rfl, heq⟩ | ⟨_, fraction, _, hfraction, _, _, _, _, hpoint⟩ :=
      positional_cases hne hds point
    · have hpad := unsigned?_fraction (List.append_ne_nil_of_left_ne_nil hne _)
        (isDigit_append hds (isDigit_zeros k)) (isDigit_zeros 1) endsDigits_nil readPower?_nil
      have hmore : ds ++ List.replicate k '0' ++ List.replicate 1 '0' =
          ds ++ List.replicate (k + 1) '0' := by
        rw [List.append_assoc, List.replicate_append_replicate]
      rw [hmore, readDecimal_append_zeros, Scientific.value_mul_pow, List.length_replicate] at hpad
      rw [heq, add_sub_cancel_left]
      refine hpad.trans ?_
      congr 3
      omega
    · have hlength : 0 < fraction.length := List.length_pos_iff.mpr hfraction
      omega
  · rw [List.append_nil]
    exact unsigned?_positional hne hds point

/-! ## Powers of ten -/

/-- The power that stands behind the digits of an exponential layout. -/
def powerText (power : Int) : List Char :=
  let ps := digitChars power.natAbs
  'e' :: (if power < 0 then '-' else '+') :: (List.replicate (2 - ps.length) '0' ++ ps)

theorem endsDigits_powerText (power : Int) : EndsDigits (powerText power) := by
  rintro c ⟨⟩
  decide

theorem readPower?_cons (negative : Bool) (hne : es ≠ []) (hes : ∀ c ∈ es, c.isDigit = true) :
    readPower? ('e' :: (if negative then '-' else '+') :: es) =
      some (if negative then -(readDecimal es : Int) else readDecimal es) := by
  have htake := takeGrouped_append hes endsDigits_nil.head
  rw [List.append_nil] at htake
  obtain ⟨c, cs, rfl⟩ := List.exists_cons_of_ne_nil hne
  cases negative <;> simp [readPower?, takeSign, htake]

theorem readPower?_powerText (power : Int) : readPower? (powerText power) = some power := by
  have hpower := readPower?_cons (decide (power < 0))
    (List.append_ne_nil_of_right_ne_nil _ (digitChars_ne_nil power.natAbs))
    (isDigit_append (isDigit_zeros (2 - (digitChars power.natAbs).length))
      (isDigit_digitChars power.natAbs))
  rw [Text.readDecimal_replicate_zero, readDecimal_digitChars] at hpower
  simp only [decide_eq_true_eq] at hpower
  rw [powerText, hpower]
  split <;> congr 1 <;> omega

theorem exponential_cons (d : Char) (ds : List Char) (point : Int) :
    exponential (d :: ds) point =
      [d] ++ ((if ds = [] then [] else '.' :: ds) ++ powerText (point - 1)) := by
  cases ds <;> simp [exponential, powerText]

theorem unsigned?_exponential (hne : ds ≠ []) (hds : ∀ c ∈ ds, c.isDigit = true) (point : Int) :
    unsigned? (exponential ds point) =
      some (Scientific.value ⟨readDecimal ds, point - ds.length⟩) := by
  obtain ⟨d, es, rfl⟩ := List.exists_cons_of_ne_nil hne
  obtain ⟨hd, hes⟩ := List.forall_mem_cons.mp hds
  have hd : ∀ c ∈ [d], c.isDigit = true := by simpa using hd
  have hends := endsDigits_powerText (point - 1)
  have hpower := readPower?_powerText (point - 1)
  rw [exponential_cons]
  split
  · next hnil =>
    subst hnil
    exact unsigned?_whole (by simp) hd hends hpower
  · have hfraction := unsigned?_fraction (by simp) hd hes hends hpower
    refine hfraction.trans ?_
    rw [List.length_cons]
    congr 3
    omega

/-! ## Signs -/

theorem head?_append_digits (hne : ds ≠ []) (hds : ∀ c ∈ ds, c.isDigit = true)
    (rest : List Char) : ∀ c ∈ (ds ++ rest).head?, c.isDigit = true := by
  obtain ⟨d, ds, rfl⟩ := List.exists_cons_of_ne_nil hne
  rintro c ⟨⟩
  exact hds d List.mem_cons_self

theorem denoted?_signed (negative : Bool) {cs : List Char}
    (hhead : ∀ c ∈ cs.head?, c.isDigit = true) :
    denoted? (signed negative cs) = (unsigned? cs).map (withSign negative) := by
  cases negative with
  | true => rfl
  | false =>
      have hsign : takeSign cs = (false, cs) := by
        unfold takeSign
        split
        · cases hhead '-' rfl
        · cases hhead '+' rfl
        · rfl
      rw [signed, if_neg Bool.false_ne_true, denoted?, hsign]

theorem head?_positional (hne : ds ≠ []) (hds : ∀ c ∈ ds, c.isDigit = true) (point : Int)
    (rest : List Char) : ∀ c ∈ (positional ds point ++ rest).head?, c.isDigit = true := by
  obtain ⟨k, _, heq⟩ | ⟨whole, fraction, hwhole, _, hdigits, _, heq, _⟩ :=
    positional_cases hne hds point
  · rw [heq, List.append_assoc]
    exact head?_append_digits hne hds _
  · rw [heq, List.append_assoc]
    exact head?_append_digits hwhole hdigits _

theorem head?_exponential (hne : ds ≠ []) (hds : ∀ c ∈ ds, c.isDigit = true) (point : Int) :
    ∀ c ∈ (exponential ds point).head?, c.isDigit = true := by
  obtain ⟨d, es, rfl⟩ := List.exists_cons_of_ne_nil hne
  rw [exponential_cons]
  exact head?_append_digits (by simp) (fun c hc => hds c (by simp_all)) _

theorem isPlain_positional (negative : Bool) (hne : ds ≠ [])
    (hds : ∀ c ∈ ds, c.isDigit = true) (point : Int) :
    IsPlain (signed negative (positional ds point)) := by
  obtain ⟨k, _, heq⟩ | ⟨whole, fraction, hwhole, hfraction, hdigits, hdigits', heq, _⟩ :=
    positional_cases hne hds point
  · rw [heq]
    exact .whole negative (List.append_ne_nil_of_left_ne_nil hne _)
      (isDigit_append hds (isDigit_zeros k))
  · rw [heq]
    exact .fraction negative hwhole hdigits hfraction hdigits'

end

/-! ## The texts of a number -/

section
variable {m : Nat} {q : Int} {x : Binary64}

theorem wholeValue?_eq_some_iff {n : Nat} :
    Binary64.wholeValue? m q = some n ↔ (m : ℚ) * 2 ^ q = n := by
  unfold Binary64.wholeValue?
  split
  · next hq =>
    obtain ⟨k, rfl⟩ := Int.eq_ofNat_of_zero_le hq
    rw [Option.some_inj, Int.toNat_natCast, zpow_natCast]
    exact_mod_cast Iff.rfl
  · next hq =>
    obtain ⟨k, rfl⟩ := Int.eq_negSucc_of_lt_zero (not_le.mp hq)
    rw [Int.neg_negSucc, Int.toNat_natCast, zpow_negSucc, ← div_eq_mul_inv,
      div_eq_iff (by positivity)]
    have hcast : (m : ℚ) = n * 2 ^ (k + 1) ↔ m = n * pow2 (k + 1) := by
      exact_mod_cast Iff.rfl
    have hpos : 0 < pow2 (k + 1) := Nat.pow_pos (by decide)
    rw [hcast]
    split
    · next hzero =>
      rw [Option.some_inj, Nat.div_eq_iff_eq_mul_left hpos (Nat.dvd_of_mod_eq_zero hzero)]
    · next hzero =>
      refine iff_of_false nofun ?_
      rintro rfl
      exact hzero (Nat.mul_mod_left n _)

theorem exists_withSign_iff (negative : Bool) :
    (∃ n : ℤ, withSign negative (m * 2 ^ q) = n) ↔ ∃ n, Binary64.wholeValue? m q = some n := by
  simp only [wholeValue?_eq_some_iff]
  have hpos : (0 : ℚ) ≤ m * 2 ^ q := by positivity
  constructor
  · rintro ⟨n, hn⟩
    refine ⟨n.natAbs, ?_⟩
    have habs : |withSign negative (m * 2 ^ q)| = m * 2 ^ q := by
      cases negative with
      | true => exact (abs_neg _).trans (abs_of_nonneg hpos)
      | false => exact abs_of_nonneg hpos
    rw [← habs, hn, Nat.cast_natAbs, Int.cast_abs]
  · rintro ⟨n, hn⟩
    rw [hn]
    cases negative with
    | true => exact ⟨-n, by simp [withSign]⟩
    | false => exact ⟨n, by simp [withSign]⟩

theorem denoted?_digitChars (negative : Bool) (n : Nat) :
    denoted? (signed negative (digitChars n)) = some (withSign negative n) := by
  have hdigits := isDigit_digitChars n
  have hhead := head?_append_digits (digitChars_ne_nil n) hdigits []
  have hwhole := unsigned?_whole (digitChars_ne_nil n) hdigits endsDigits_nil readPower?_nil
  rw [List.append_nil] at hhead hwhole
  rw [denoted?_signed negative hhead, hwhole, readDecimal_digitChars]
  simp [Scientific.value]

/-- A text that lays out the digits of a decimal and denotes them denotes this decimal. -/
theorem denoted?_of_unsigned? (negative : Bool) (s : Scientific) {cs : List Char}
    (hhead : ∀ c ∈ cs.head?, c.isDigit = true)
    (hcs : unsigned? cs = some (Scientific.value ⟨readDecimal s.spread.1,
      s.spread.2 - s.spread.1.length⟩)) :
    denoted? (signed negative cs) = some (withSign negative s.value) := by
  have hexponent : (digitChars s.digits).length + s.exponent - (digitChars s.digits).length =
      s.exponent := by omega
  rw [denoted?_signed negative hhead, hcs, Option.map_some, Scientific.spread]
  dsimp only
  rw [readDecimal_digitChars, hexponent]

theorem plain_zero (hx : x.magnitude = .finite 0 q) : plain x = "0" := by
  simp [plain, hx]

theorem plain_whole {n : Nat} (hx : x.magnitude = .finite m q) (hm : m ≠ 0)
    (hwhole : Binary64.wholeValue? m q = some n) :
    (plain x).toList = signed x.isNegative (digitChars n) := by
  simp [plain, hx, hwhole]

theorem plain_fraction (hx : x.magnitude = .finite m q) (hm : m ≠ 0)
    (hwhole : Binary64.wholeValue? m q = none) :
    (plain x).toList =
      signed x.isNegative (positional (shortest m q).spread.1 (shortest m q).spread.2) := by
  simp [plain, hx, hwhole]

/-- The plain text of a number that is no integer denotes its shortest decimal. -/
theorem denoted?_plain (hx : x.magnitude = .finite m q) (hm : m ≠ 0)
    (hwhole : Binary64.wholeValue? m q = none) :
    denoted? (plain x).toList = some (withSign x.isNegative (shortest m q).value) := by
  have hne := digitChars_ne_nil (shortest m q).digits
  have hdigits := isDigit_digitChars (shortest m q).digits
  have hhead := head?_positional hne hdigits (shortest m q).spread.2 []
  rw [List.append_nil] at hhead
  rw [plain_fraction hx hm hwhole]
  exact denoted?_of_unsigned? _ _ hhead (unsigned?_positional hne hdigits _)

/-- The text that may use a power of ten denotes the shortest decimal too. -/
theorem denoted?_general (hx : x.magnitude = .finite m q) (hm : m ≠ 0) :
    denoted? (general x).toList = some (withSign x.isNegative (shortest m q).value) := by
  have hne := digitChars_ne_nil (shortest m q).digits
  have hdigits := isDigit_digitChars (shortest m q).digits
  have htext : general x = String.ofList (signed x.isNegative
      (if -4 < (shortest m q).spread.2 ∧ (shortest m q).spread.2 ≤ 16 then
        positional (shortest m q).spread.1 (shortest m q).spread.2 ++
          if ((shortest m q).spread.1.length : Int) ≤ (shortest m q).spread.2 then ['.', '0']
          else []
      else exponential (shortest m q).spread.1 (shortest m q).spread.2)) := by
    simp [general, hx]
  rw [htext, String.toList_ofList]
  split
  · exact denoted?_of_unsigned? _ _ (head?_positional hne hdigits _ _)
      (unsigned?_positional_point hne hdigits _)
  · exact denoted?_of_unsigned? _ _ (head?_exponential hne hdigits _)
      (unsigned?_exponential hne hdigits _)

theorem isPlain_plain (hx : x.magnitude = .finite m q) : IsPlain (plain x).toList := by
  by_cases hm : m = 0
  · subst hm
    have hzero : IsPlain (signed false ['0']) := .whole false (by simp) (isDigit_zeros 1)
    rwa [plain_zero hx]
  cases hwhole : Binary64.wholeValue? m q with
  | some n =>
      rw [plain_whole hx hm hwhole]
      exact .whole _ (digitChars_ne_nil n) (isDigit_digitChars n)
  | none =>
      rw [plain_fraction hx hm hwhole]
      exact isPlain_positional _ (digitChars_ne_nil _) (isDigit_digitChars _) _

theorem point_notMem_signed (negative : Bool) (n : Nat) :
    '.' ∉ signed negative (digitChars n) := by
  have hdigits : '.' ∉ digitChars n := by
    intro hpoint
    cases isDigit_digitChars n '.' hpoint
  cases negative with
  | true => exact List.not_mem_cons_of_ne_of_not_mem (by decide) hdigits
  | false => exact hdigits

theorem withSign_eq_zero_iff (negative : Bool) (v : ℚ) : withSign negative v = 0 ↔ v = 0 := by
  cases negative with
  | true => exact neg_eq_zero
  | false => exact Iff.rfl

/-- The text of an integer denotes it, with no point and with no sign on zero. -/
theorem plain_of_wholeValue? {n : Nat} (hx : x.magnitude = .finite m q)
    (hwhole : Binary64.wholeValue? m q = some n) :
    '.' ∉ (plain x).toList ∧
      denoted? (plain x).toList = some (withSign x.isNegative (m * 2 ^ q)) ∧
      (withSign x.isNegative (m * 2 ^ q) = 0 → (plain x).toList = ['0']) := by
  by_cases hm : m = 0
  · subst hm
    have hzero : withSign x.isNegative ((0 : Nat) * 2 ^ q) = 0 := by
      rw [withSign_eq_zero_iff, Nat.cast_zero, zero_mul]
    rw [plain_zero hx, hzero]
    have hdigit : denoted? "0".toList = some 0 := denoted?_digitChars false 0
    exact ⟨by decide, hdigit, fun _ => rfl⟩
  · rw [plain_whole hx hm hwhole, denoted?_digitChars, wholeValue?_eq_some_iff.mp hwhole]
    refine ⟨point_notMem_signed _ n, rfl, fun hzero => ?_⟩
    -- a number that is not zero has a significand
    rw [withSign_eq_zero_iff, ← wholeValue?_eq_some_iff.mp hwhole, mul_eq_zero] at hzero
    rcases hzero with hzero | hzero
    · exact absurd (Nat.cast_eq_zero.mp hzero) hm
    · exact absurd hzero (by positivity)

end

/-- The text of a finite number has no power of ten.  That of an integer has no point either and
denotes the integer, without a sign on zero; that of any other number denotes exactly what its
shortest text denotes, which may have a power of ten. -/
theorem read_number_exact (d : Markup.Document) {x : Binary64} {v : ℚ} (hx : x.value? = some v) :
    let text := (Match.read d (.number x)).toList
    IsPlain text ∧
      ((∃ n : ℤ, v = n) → '.' ∉ text ∧ denoted? text = some v ∧ (v = 0 → text = ['0'])) ∧
      ((¬ ∃ n : ℤ, v = n) →
        ∃ w, denoted? text = some w ∧ denoted? (general x).toList = some w) := by
  intro text
  unfold Binary64.value? at hx
  split at hx
  · next m q hmagnitude =>
    cases hx
    rw [exists_withSign_iff]
    refine ⟨isPlain_plain hmagnitude, ?_, fun hnone => ?_⟩
    · rintro ⟨n, hwhole⟩
      exact plain_of_wholeValue? hmagnitude hwhole
    · have hwhole : Binary64.wholeValue? m q = none := by
        rw [Option.eq_none_iff_forall_ne_some]
        exact fun n hn => hnone ⟨n, hn⟩
      have hm : m ≠ 0 := by
        rintro rfl
        rw [Option.eq_none_iff_forall_ne_some] at hwhole
        exact hwhole 0 (wholeValue?_eq_some_iff.mpr (by simp))
      exact ⟨_, denoted?_plain hmagnitude hm hwhole, denoted?_general hmagnitude hm⟩
  · cases hx

/-- The power of two whose shortest text has a power of ten. -/
theorem read_number_exact_power :
    let page := Markup.Html.parse "<p>x</p>".toList
    let x : Binary64 := ⟨0x3EB0000000000000⟩
    x.value? = some (1 / 2 ^ 20) ∧ (¬ ∃ n : ℤ, (1 / 2 ^ 20 : ℚ) = n) ∧
      Match.read page (.number x) = "0.00000095367431640625" ∧
      general x = "9.5367431640625e-07" ∧
      ∃ w, denoted? "0.00000095367431640625".toList = some w ∧
        denoted? "9.5367431640625e-07".toList = some w := by
  intro page x
  have hmagnitude : x.magnitude = .finite (2 ^ 52) (-72) := by decide +kernel
  have hpositive : x.isNegative = false := by decide +kernel
  have hvalue : x.value? = some (1 / 2 ^ 20) := by
    rw [Binary64.value?, hmagnitude, hpositive]
    norm_num [withSign]
  have hfraction : ¬ ∃ n : ℤ, (1 / 2 ^ 20 : ℚ) = n := by
    rintro ⟨n, hn⟩
    have hn' : (1 : ℚ) = n * 2 ^ 20 := by rw [← hn]; norm_num
    have hn'' : (1 : ℤ) = n * 2 ^ 20 := by exact_mod_cast hn'
    omega
  have hplain : Match.read page (.number x) = "0.00000095367431640625" := by
    change plain x = _
    decide +kernel
  have hgeneral : general x = "9.5367431640625e-07" := by decide +kernel
  have hdenoted := (read_number_exact page hvalue).2.2 hfraction
  rw [hplain, hgeneral] at hdenoted
  exact ⟨hvalue, hfraction, hplain, hgeneral, hdenoted⟩

end Decimal

end Harvest
