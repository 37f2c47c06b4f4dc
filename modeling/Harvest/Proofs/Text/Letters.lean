import Harvest.Pattern.Basic
import Harvest.Proofs.Text.Digits
import Harvest.Text.Word

/-!
# Letters, digits and blanks

Digits and letters are word characters, white space is not.  What equals an ASCII letter where case
is ignored is a letter, too, and ASCII letters of either case are found that way.
-/

namespace Harvest.Text

variable {c x y : Char} {n : Nat}

/-! ## Word characters -/

theorem covers_eq_true {ranges : List (Nat × Nat)} {r : Nat × Nat} (hr : r ∈ ranges)
    (hlow : r.1 ≤ n) (hhigh : n ≤ r.2) : covers ranges n = true := by
  apply List.any_eq_true.mpr
  refine ⟨r, hr, ?_⟩
  rw [Bool.and_eq_true, Nat.ble_eq, Nat.ble_eq]
  exact ⟨hlow, hhigh⟩

theorem covers_eq_false {ranges : List (Nat × Nat)} (h : ∀ r ∈ ranges, n < r.1 ∨ r.2 < n) :
    covers ranges n = false := by
  apply List.any_eq_false.mpr
  intro r hr
  rw [Bool.and_eq_true, Nat.ble_eq, Nat.ble_eq]
  have hout := h r hr
  omega

/-- Whether a range of the list holds two code points and all between them. -/
def spans (ranges : List (Nat × Nat)) (low high : Nat) : Bool :=
  ranges.any fun r => Nat.ble r.1 low && Nat.ble high r.2

theorem isWord_of_covers (hwide : 0x80 ≤ c.toNat) (h : covers wideAlphanumerics c.toNat = true) :
    isWord c = true := by
  rw [isWord, isAlphanumeric, if_neg (Nat.not_lt_of_le hwide), h, Bool.or_true]

theorem isWord_of_spans {low high : Nat} (h : spans wideAlphanumerics low high = true)
    (hlow : low ≤ c.toNat) (hhigh : c.toNat ≤ high) (hwide : 0x80 ≤ c.toNat) :
    isWord c = true := by
  obtain ⟨r, hr, hrange⟩ := List.any_eq_true.mp h
  rw [Bool.and_eq_true, Nat.ble_eq, Nat.ble_eq] at hrange
  exact isWord_of_covers hwide
    (covers_eq_true hr (le_trans hrange.1 hlow) (le_trans hhigh hrange.2))

theorem isWord_of_ascii (h : isAsciiAlphanumeric c = true) : isWord c = true := by
  have hascii : c.toNat < 0x80 := by
    simp only [isAsciiAlphanumeric, Bool.or_eq_true, Bool.and_eq_true, Nat.ble_eq] at h
    omega
  rw [isWord, isAlphanumeric, if_pos hascii, h, Bool.or_true]

theorem isWord_of_isAlpha (h : c.isAlpha = true) : isWord c = true := by
  rw [isAlpha_iff] at h
  apply isWord_of_ascii
  simp only [isAsciiAlphanumeric, Bool.or_eq_true, Bool.and_eq_true, Nat.ble_eq]
  omega

/-- Whether a range holds the ten digits from a zero on. -/
def holdsDigits (r : Nat × Nat) (z : Nat) : Bool := Nat.ble r.1 z && Nat.ble (z + 9) r.2

/-- What the tables of characters say of each other. -/
structure TablesFit : Prop where
  wide : decimalZeros.tail.all (Nat.ble 0x80) = true
  held : wideAlphanumerics.foldl (fun zs r => zs.dropWhile (holdsDigits r)) decimalZeros.tail = []
  blanks : (blankRanges.all fun b => Nat.blt b.2 0x30 || (Nat.ble 0x80 b.1 &&
    wideAlphanumerics.all fun r => Nat.blt b.2 r.1 || Nat.blt r.2 b.1)) = true
  /-- What becomes a letter of the first blocks in lower case is a letter itself. -/
  lower : ∀ r ∈ lowerRuns, 0x17F < r.first + r.shift ∨
    (spans wideAlphanumerics r.first r.last = true ∧
      ∀ z ∈ decimalZeros, r.last < z ∨ z + 9 < r.first)
  /-- No run of capitals starts in ASCII. -/
  capitals : ∀ r ∈ lowerRuns, 0x80 ≤ r.first
  /-- Only letters of the first blocks equal an ASCII letter where case is ignored. -/
  fellows : ∀ e ∈ caseFellows, ∀ n ∈ e.2, (Char.ofNat n).toNat = n ∧
    (e.1 < 0x80 ∨ n < 0x80 →
      (e.1 ≤ 0x17F ∧ isWord (Char.ofNat e.1) = true ∧ isDecimal (Char.ofNat e.1) = false) ∧
        n ≤ 0x17F ∧ isWord (Char.ofNat n) = true ∧ isDecimal (Char.ofNat n) = false)

theorem tablesFit : TablesFit := by
  suffices h : _ ∧ _ ∧ _ ∧ _ ∧ _ ∧ _ from
    ⟨h.1, h.2.1, h.2.2.1, h.2.2.2.1, h.2.2.2.2.1, h.2.2.2.2.2⟩
  decide +kernel

/-- Taking off what the ranges hold one after another finds a range for all that is gone. -/
theorem mem_foldl_dropWhile (ranges : List (Nat × Nat)) {zeros : List Nat} {z : Nat}
    (hz : z ∈ zeros) :
    z ∈ ranges.foldl (fun zs r => zs.dropWhile (holdsDigits r)) zeros ∨
      ∃ r ∈ ranges, holdsDigits r z = true := by
  induction ranges generalizing zeros with
  | nil => exact .inl hz
  | cons r ranges ih =>
      rw [← List.takeWhile_append_dropWhile (p := holdsDigits r) (l := zeros),
        List.mem_append] at hz
      rcases hz with hz | hz
      · exact .inr ⟨r, List.mem_cons_self, List.mem_takeWhile_imp hz⟩
      · rcases ih hz with hleft | ⟨r', hr', hholds⟩
        · exact .inl hleft
        · exact .inr ⟨r', List.mem_cons_of_mem _ hr', hholds⟩

/-- The digits of all scripts are word characters. -/
theorem isWord_of_isDecimal (h : isDecimal c = true) : isWord c = true := by
  rw [isDecimal, decimalValue?, Option.isSome_map, List.find?_isSome] at h
  obtain ⟨z, hz, hrange⟩ := h
  rw [Bool.and_eq_true, Nat.ble_eq, Nat.ble_eq] at hrange
  have hzeros : decimalZeros = 0x30 :: decimalZeros.tail := rfl
  rw [hzeros] at hz
  rcases List.mem_cons.mp hz with rfl | hz
  · apply isWord_of_ascii
    simp only [isAsciiAlphanumeric, Bool.or_eq_true, Bool.and_eq_true, Nat.ble_eq]
    omega
  · have hlow : 0x80 ≤ z :=
      Nat.le_of_ble_eq_true (List.all_eq_true.mp (TablesFit.wide tablesFit) z hz)
    rcases mem_foldl_dropWhile wideAlphanumerics hz with hleft | ⟨r, hr, hholds⟩
    · rw [TablesFit.held tablesFit] at hleft
      cases hleft
    · rw [holdsDigits, Bool.and_eq_true, Nat.ble_eq, Nat.ble_eq] at hholds
      exact isWord_of_covers (by omega)
        (covers_eq_true hr (le_trans hholds.1 hrange.1) (le_trans hrange.2 hholds.2))

theorem isWord_of_isBlank (h : isBlank c = true) : isWord c = false := by
  obtain ⟨b, hb, hlow, hhigh⟩ := exists_blankRange h
  have hline : c ≠ '_' := by
    rintro rfl
    exact absurd h (by decide)
  rw [isWord, Bool.or_eq_false_iff, beq_eq_false_iff_ne]
  refine ⟨hline, ?_⟩
  have hb' := List.all_eq_true.mp (TablesFit.blanks tablesFit) b hb
  rw [Bool.or_eq_true, Bool.and_eq_true, Nat.blt_eq, Nat.ble_eq] at hb'
  rcases hb' with hascii | ⟨hwide, hout⟩
  · rw [isAlphanumeric, if_pos (by omega), ← Bool.not_eq_true]
    simp only [isAsciiAlphanumeric, Bool.or_eq_true, Bool.and_eq_true, Nat.ble_eq]
    omega
  · rw [isAlphanumeric, if_neg (by omega)]
    apply covers_eq_false
    intro r hr
    have hr' := List.all_eq_true.mp hout r hr
    rw [Bool.or_eq_true, Nat.blt_eq, Nat.blt_eq] at hr'
    omega

theorem isBlank_of_isWord (h : isWord c = true) : isBlank c = false := by
  rw [← Bool.not_eq_true]
  intro hblank
  rw [isWord_of_isBlank hblank] at h
  cases h

/-! ## Letters -/

/-- A word character that is no digit. -/
def IsLetter (c : Char) : Prop := isWord c = true ∧ isDecimal c = false

theorem isLetter_of_isAlpha (h : c.isAlpha = true) : IsLetter c :=
  ⟨isWord_of_isAlpha h, isDecimal_of_isAlpha h⟩

theorem isLower_iff : c.isLower = true ↔ 0x61 ≤ c.toNat ∧ c.toNat ≤ 0x7A := by
  rw [Char.isLower, Bool.and_eq_true, decide_eq_true_iff, decide_eq_true_iff]
  exact Iff.rfl

theorem isAlpha_of_isLower (h : c.isLower = true) : c.isAlpha = true := by
  rw [Char.isAlpha, h, Bool.or_true]

theorem isLetter_of_lowerChar (h : IsLetter (lowerChar c)) (hnear : (lowerChar c).toNat ≤ 0x17F) :
    IsLetter c := by
  unfold lowerChar at h hnear
  split at h
  · cases hupper : c.isUpper with
    | true => exact isLetter_of_isAlpha (by rw [Char.isAlpha, hupper, Bool.true_or])
    | false => rwa [Char.toLower_eq_of_not_isUpper (by simp [hupper])] at h
  · next hwide =>
    rw [if_neg hwide] at hnear
    unfold shiftBy at h hnear
    split at h
    · next r hr =>
      have hmem := List.mem_of_find?_eq_some hr
      have hrange := List.find?_some hr
      simp only [CaseRun.covers, Bool.and_eq_true, Nat.ble_eq] at hrange
      rw [hr] at hnear
      dsimp only at hnear
      rcases TablesFit.lower tablesFit r hmem with hfar | ⟨hspans, hbeside⟩
      · by_cases hvalid : (c.toNat + r.shift).toNat.isValidChar
        · have hvalue : (Char.ofNat (c.toNat + r.shift).toNat).toNat =
              (c.toNat + r.shift).toNat := by
            rw [Char.toNat_ofNat, if_pos hvalid]
          omega
        · rw [Char.ofNat, dif_neg hvalid] at h
          exact absurd h.1 (by decide)
      · refine ⟨isWord_of_spans hspans hrange.1.1 hrange.1.2 (Nat.le_of_not_lt hwide), ?_⟩
        apply isDecimal_eq_false
        intro z hz
        have hout := hbeside z hz
        omega
    · rwa [Char.ofNat_toNat] at h

theorem lowerChar_of_isLower (hy : y.isLower = true) : lowerChar y = y := by
  have hrange := isLower_iff.mp hy
  rw [lowerChar, if_pos (by omega), Char.toLower_eq_of_not_isUpper (Char.not_isUpper_of_isLower hy)]

/-! ## Letters that are equal where case is ignored -/

theorem mem_caseClass (h : x ∈ caseClass y) :
    x = y ∨ ∃ e ∈ caseFellows, e.1 = y.toNat ∧ x.toNat ∈ e.2 := by
  rcases List.mem_cons.mp h with rfl | hmem
  · exact .inl rfl
  · obtain ⟨n, hn, rfl⟩ := List.mem_map.mp hmem
    cases hlookup : caseFellows.lookup y.toNat with
    | none =>
        rw [hlookup] at hn
        cases hn
    | some ns =>
        obtain ⟨front, back, heq, _⟩ := List.lookup_eq_some_iff.mp hlookup
        rw [hlookup] at hn
        have he : (y.toNat, ns) ∈ caseFellows := by
          rw [heq]
          simp
        refine .inr ⟨(y.toNat, ns), he, rfl, ?_⟩
        rw [(TablesFit.fellows tablesFit _ he n hn).1]
        exact hn

/-- The letters of a class with an ASCII letter. -/
theorem near_of_mem_caseClass (hy : y.isLower = true) (h : x ∈ caseClass y ∨ y ∈ caseClass x) :
    IsLetter x ∧ x.toNat ≤ 0x17F := by
  have hrange := isLower_iff.mp hy
  have hself : IsLetter y ∧ y.toNat ≤ 0x17F :=
    ⟨isLetter_of_isAlpha (isAlpha_of_isLower hy), by omega⟩
  rcases h with h | h
  · rcases mem_caseClass h with rfl | ⟨e, he, hcode, hx⟩
    · exact hself
    · obtain ⟨_, hle, hletter⟩ := (TablesFit.fellows tablesFit e he _ hx).2 (.inl (by omega))
      rw [Char.ofNat_toNat] at hletter
      exact ⟨hletter, hle⟩
  · rcases mem_caseClass h with rfl | ⟨e, he, hcode, hx⟩
    · exact hself
    · obtain ⟨⟨hle, hletter⟩, _⟩ := (TablesFit.fellows tablesFit e he _ hx).2 (.inr (by omega))
      rw [hcode, Char.ofNat_toNat] at hletter
      exact ⟨hletter, hcode ▸ hle⟩

theorem isLower_ofNat_eq_false (hn : 0x80 ≤ n) : (Char.ofNat n).isLower = false := by
  rw [← Bool.not_eq_true, isLower_iff, Char.toNat_ofNat]
  split <;> omega

/-- The lower-case letters of ASCII are no capitals. -/
theorem isLower_of_mem_capitals (h : y ∈ capitals x) : y.isLower = false := by
  unfold capitals at h
  split_ifs at h
  · simp only [List.mem_cons, List.not_mem_nil, or_false] at h
    rcases h with rfl | rfl <;> decide
  · simp only [List.mem_cons, List.not_mem_nil, or_false] at h
    rcases h with rfl | rfl <;> decide
  · rw [List.mem_singleton.mp h]
    exact Char.isLower_toUpper_eq_false x
  · cases h
  · obtain ⟨r, hr, hsome⟩ := List.mem_filterMap.mp h
    obtain ⟨hcovers, heq⟩ := Option.ite_none_right_eq_some.mp hsome
    cases heq
    simp only [CaseRun.covers, Bool.and_eq_true, Nat.ble_eq] at hcovers
    exact isLower_ofNat_eq_false (le_trans (TablesFit.capitals tablesFit r hr) hcovers.1.1)

/-- What equals a lower-case ASCII letter where case is ignored is a letter. -/
theorem isLetter_of_equal (hy : y.isLower = true) (h : equalIgnoringCase y x = true) :
    IsLetter x := by
  rw [equalIgnoringCase, lowerChar_of_isLower hy, List.contains_iff_mem] at h
  obtain ⟨hletter, hnear⟩ := near_of_mem_caseClass hy (.inl h)
  exact isLetter_of_lowerChar hletter hnear

theorem lowerChar_of_toLower (hy : y.isLower = true) (h : x.toLower = y) : lowerChar x = y := by
  have halpha : x.isAlpha = true := by
    rw [← Char.isAlpha_toLower_eq_isAlpha, h, isAlpha_of_isLower hy]
  rw [isAlpha_iff] at halpha
  rw [lowerChar, if_pos (by omega), h]

theorem equalIgnoringCase_of_toLower (hy : y.isLower = true) (h : x.toLower = y) :
    equalIgnoringCase y x = true := by
  rw [equalIgnoringCase, lowerChar_of_isLower hy, lowerChar_of_toLower hy h, List.contains_iff_mem]
  exact List.mem_cons_self

end Harvest.Text

namespace Harvest.Pattern

open Harvest.Text

variable {x y : Char} {i : Item}

theorem isLetter_of_mem_fellows (hy : y.isLower = true) (h : y ∈ fellows x) : IsLetter x := by
  have hclass : y ∈ caseClass (lowerChar x) := by
    rcases List.mem_append.mp h with hlow | hcapital
    · exact hlow
    · obtain ⟨z, _, hz⟩ := List.mem_flatMap.mp hcapital
      rw [isLower_of_mem_capitals hz] at hy
      cases hy
  obtain ⟨hletter, hnear⟩ := near_of_mem_caseClass hy (.inr hclass)
  exact isLetter_of_lowerChar hletter hnear

theorem mem_fellows_of_toLower (hy : y.isLower = true) (h : x.toLower = y) : y ∈ fellows x := by
  apply List.mem_append_left
  rw [lowerChar_of_toLower hy h]
  exact List.mem_cons_self

end Harvest.Pattern
