import Harvest.Decimal.Reader
import Harvest.Text.Case
import Mathlib

/-!
# Digits of any script

How large the number of a run of digits can be, which digits an integer is read from, and that
upper case brings no digits in.
-/

namespace Harvest.Text

theorem decimalValue?_le {c : Char} {n : Nat} (h : decimalValue? c = some n) : n ≤ 9 := by
  obtain ⟨z, hz, rfl⟩ := Option.map_eq_some_iff.mp h
  have hrange := List.find?_some hz
  rw [Bool.and_eq_true, Nat.ble_eq, Nat.ble_eq] at hrange
  omega

theorem readDecimalOnto_lt (acc : Nat) (cs : List Char) :
    readDecimalOnto acc cs < (acc + 1) * 10 ^ cs.length := by
  induction cs generalizing acc with
  | nil => simp [readDecimalOnto]
  | cons c cs ih =>
      have hdigit : (decimalValue? c).getD 0 ≤ 9 := by
        cases hvalue : decimalValue? c with
        | none => simp
        | some n => exact decimalValue?_le hvalue
      calc
        readDecimalOnto acc (c :: cs)
          = readDecimalOnto (10 * acc + (decimalValue? c).getD 0) cs := rfl
        _ < (10 * acc + (decimalValue? c).getD 0 + 1) * 10 ^ cs.length := ih _
        _ ≤ ((acc + 1) * 10) * 10 ^ cs.length := Nat.mul_le_mul_right _ (by omega)
        _ = (acc + 1) * 10 ^ (cs.length + 1) := by rw [Nat.pow_succ', Nat.mul_assoc]

theorem readDecimal_lt (cs : List Char) : readDecimal cs < 10 ^ cs.length := by
  have hlt := readDecimalOnto_lt 0 cs
  rwa [Nat.zero_add, Nat.one_mul] at hlt

theorem readDecimal_concat (cs : List Char) (c : Char) :
    readDecimal (cs ++ [c]) = 10 * readDecimal cs + (decimalValue? c).getD 0 := by
  simp [readDecimal, readDecimalOnto]

/-- The digits of a number are read as this number. -/
theorem readDecimal_toDigits (n : Nat) : readDecimal (Nat.toDigits 10 n) = n := by
  have hdigit : ∀ d < 10, decimalValue? d.digitChar = some d := by decide
  induction n using Nat.strongRecOn with
  | _ n ih =>
      by_cases hn : n < 10
      · rw [Nat.toDigits_of_lt_base hn, ← List.nil_append [n.digitChar], readDecimal_concat,
          hdigit n hn]
        exact Nat.zero_add n
      · rw [Nat.toDigits_of_base_le (by decide) (by omega), readDecimal_concat, ih _ (by omega),
          hdigit _ (Nat.mod_lt _ (by decide)), Option.getD_some]
        omega

theorem readDecimal_replicate_zero (k : Nat) (cs : List Char) :
    readDecimal (List.replicate k '0' ++ cs) = readDecimal cs := by
  induction k with
  | zero => rfl
  | succ k ih => exact ih

/-- The digits of a text: how many of its characters are one. -/
def decimalCount (cs : List Char) : Nat := cs.countP isDecimal

theorem decimalCount_le_of_sublist {cs ds : List Char} (h : cs.Sublist ds) :
    decimalCount cs ≤ decimalCount ds := h.countP_le

theorem decimalCount_append (cs ds : List Char) :
    decimalCount (cs ++ ds) = decimalCount cs + decimalCount ds := List.countP_append

theorem decimalCount_eq_length {cs : List Char} (h : ∀ c ∈ cs, isDecimal c = true) :
    decimalCount cs = cs.length := List.countP_eq_length.mpr h

theorem decimalCount_eq_zero_iff {cs : List Char} :
    decimalCount cs = 0 ↔ ∀ c ∈ cs, isDecimal c = false := by
  rw [decimalCount, List.countP_eq_zero]
  simp only [Bool.not_eq_true]

theorem decimalCount_cons_of_isDecimal {c : Char} (h : isDecimal c = true) (cs : List Char) :
    decimalCount (c :: cs) = decimalCount cs + 1 := List.countP_cons_of_pos h

theorem isDecimal_eq_false {c : Char} (h : ∀ z ∈ decimalZeros, c.toNat < z ∨ z + 9 < c.toNat) :
    isDecimal c = false := by
  rw [isDecimal, decimalValue?, Option.isSome_map, Bool.eq_false_iff, Ne, List.find?_isSome]
  rintro ⟨z, hz, hrange⟩
  rw [Bool.and_eq_true, Nat.ble_eq, Nat.ble_eq] at hrange
  have hout := h z hz
  omega

theorem isDecimal_of_ascii {c : Char} (hlow : 0x30 ≤ c.toNat) (hhigh : c.toNat ≤ 0x39) :
    isDecimal c = true := by
  rw [isDecimal, decimalValue?, Option.isSome_map, List.find?_isSome]
  refine ⟨0x30, by decide, ?_⟩
  rw [Bool.and_eq_true, Nat.ble_eq, Nat.ble_eq]
  exact ⟨hlow, hhigh⟩

/-- The code points of white space, as ranges. -/
def blankRanges : List (Nat × Nat) := [
  (0x09, 0x0D), (0x1C, 0x20), (0x85, 0x85), (0xA0, 0xA0), (0x1680, 0x1680), (0x2000, 0x200A),
  (0x2028, 0x202F), (0x205F, 0x205F), (0x3000, 0x3000)]

theorem exists_blankRange {c : Char} (h : isBlank c = true) :
    ∃ r ∈ blankRanges, r.1 ≤ c.toNat ∧ c.toNat ≤ r.2 := by
  simp only [isBlank, Bool.or_eq_true, Bool.and_eq_true, Nat.ble_eq, beq_iff_eq] at h
  simp only [blankRanges, List.exists_mem_cons_iff, List.not_mem_nil, false_and, exists_false,
    or_false]
  omega

/-- White space lies beside the digits of all scripts. -/
theorem isDecimal_of_isBlank {c : Char} (h : isBlank c = true) : isDecimal c = false := by
  have hbeside : ∀ r ∈ blankRanges, ∀ z ∈ decimalZeros, r.2 < z ∨ z + 9 < r.1 := by decide +kernel
  obtain ⟨r, hr, hlow, hhigh⟩ := exists_blankRange h
  apply isDecimal_eq_false
  intro z hz
  have hout := hbeside r hr z hz
  omega

theorem isAlpha_iff {c : Char} : c.isAlpha = true ↔
    (0x41 ≤ c.toNat ∧ c.toNat ≤ 0x5A) ∨ (0x61 ≤ c.toNat ∧ c.toNat ≤ 0x7A) := by
  rw [Char.isAlpha, Bool.or_eq_true, Char.isUpper, Char.isLower, Bool.and_eq_true,
    decide_eq_true_iff, decide_eq_true_iff, decide_eq_true_iff]
  exact Iff.rfl

theorem isDecimal_of_isAlpha {c : Char} (h : c.isAlpha = true) : isDecimal c = false := by
  have hbeside : ∀ z ∈ decimalZeros, 0x7A < z ∨ z + 9 < 0x41 := by decide
  rw [isAlpha_iff] at h
  apply isDecimal_eq_false
  intro z hz
  have hout := hbeside z hz
  omega

theorem sublist_stripBy (p : Char → Bool) (cs : List Char) : (stripBy p cs).Sublist cs := by
  have hfront := List.dropWhile_sublist p (l := (cs.dropWhile p).reverse)
  exact (List.reverse_reverse (cs.dropWhile p) ▸ hfront.reverse).trans (List.dropWhile_sublist p)

/-! ## Upper case -/

theorem isDecimal_ofNat_eq_false {n : Nat} (h0 : isDecimal '\x00' = false)
    (h : ∀ z ∈ decimalZeros, n < z ∨ z + 9 < n) : isDecimal (Char.ofNat n) = false := by
  by_cases hvalid : n.isValidChar
  · have hn : (Char.ofNat n).toNat = n := by
      rw [Char.toNat_ofNat, if_pos hvalid]
    apply isDecimal_eq_false
    rwa [hn]
  · rwa [Char.ofNat, dif_neg hvalid]

/-- No letter becomes a digit: every run of letters lands beside the digits of all scripts. -/
theorem upperRuns_beside : ∀ r ∈ upperRuns, ∀ z ∈ decimalZeros,
    (r.last + r.shift).toNat < z ∨ z + 9 < (r.first + r.shift).toNat := by
  have hall : (upperRuns.all fun r => decimalZeros.all fun z =>
      Nat.blt (r.last + r.shift).toNat z || Nat.blt (z + 9) (r.first + r.shift).toNat) = true := by
    decide +kernel
  intro r hr z hz
  have hbeside := List.all_eq_true.mp (List.all_eq_true.mp hall r hr) z hz
  rwa [Bool.or_eq_true, Nat.blt_eq, Nat.blt_eq] at hbeside

theorem upperExpansions_beside :
    ∀ e ∈ upperExpansions, ∀ n ∈ e.2, isDecimal (Char.ofNat n) = false := by
  decide +kernel

theorem isDecimal_shiftBy {c : Char} (h : shiftBy upperRuns c.toNat ≠ c.toNat) :
    isDecimal (Char.ofNat (shiftBy upperRuns c.toNat)) = false := by
  unfold shiftBy at h ⊢
  split at h
  · next r hr =>
    have hmem := List.mem_of_find?_eq_some hr
    have hrange := List.find?_some hr
    simp only [CaseRun.covers, Bool.and_eq_true, Nat.ble_eq] at hrange
    apply isDecimal_ofNat_eq_false (by decide)
    intro z hz
    have hbeside := upperRuns_beside r hmem z hz
    omega
  · exact absurd rfl h

theorem decimalCount_upperChar (c : Char) : decimalCount (upperChar c) ≤ decimalCount [c] := by
  unfold upperChar
  split
  · next hascii =>
    have hall : ∀ n < 0x80,
        decimalCount [(Char.ofNat n).toUpper] ≤ decimalCount [Char.ofNat n] := by decide +kernel
    have hc := hall c.toNat hascii
    rwa [Char.ofNat_toNat] at hc
  · cases hlookup : upperExpansions.lookup c.toNat with
    | some ns =>
        obtain ⟨before, after, heq, _⟩ := List.lookup_eq_some_iff.mp hlookup
        have hmem : (c.toNat, ns) ∈ upperExpansions := by rw [heq]; simp
        have hzero : decimalCount (ns.map Char.ofNat) = 0 := by
          rw [decimalCount, List.countP_eq_zero, List.forall_mem_map]
          intro n hn
          rw [upperExpansions_beside _ hmem n hn]
          decide
        dsimp only
        omega
    | none =>
        dsimp only
        by_cases hmoved : shiftBy upperRuns c.toNat = c.toNat
        · rw [hmoved, Char.ofNat_toNat]
        · have hzero : decimalCount [Char.ofNat (shiftBy upperRuns c.toNat)] = 0 := by
            rw [decimalCount, List.countP_singleton, isDecimal_shiftBy hmoved]
            rfl
          omega

theorem decimalCount_upper (cs : List Char) :
    decimalCount (upper (String.ofList cs)).toList ≤ decimalCount cs := by
  rw [upper, String.toList_ofList, String.toList_ofList]
  induction cs with
  | nil => simp
  | cons c cs ih =>
      have hc := decimalCount_upperChar c
      calc
        decimalCount (upperChar c ++ cs.flatMap upperChar)
          = decimalCount (upperChar c) + decimalCount (cs.flatMap upperChar) := List.countP_append
        _ ≤ decimalCount [c] + decimalCount cs := Nat.add_le_add hc ih
        _ = decimalCount ([c] ++ cs) := List.countP_append.symm

end Harvest.Text

namespace Harvest.Decimal

open Harvest.Text

theorem length_takeGrouped (cs : List Char) : (takeGrouped cs).1.length ≤ decimalCount cs := by
  fun_induction takeGrouped cs with
  | case1 c d r hboth ds rest heq ih =>
      rw [heq] at ih
      rw [Bool.and_eq_true] at hboth
      rw [decimalCount_cons_of_isDecimal hboth.1]
      have hmore := decimalCount_le_of_sublist (List.sublist_cons_self '_' (d :: r))
      exact Nat.succ_le_succ (le_trans ih hmore)
  | case2 c d r hboth hdecimal =>
      rw [decimalCount_cons_of_isDecimal hdecimal]
      simp
  | case4 c r hline hdecimal ds rest heq ih =>
      rw [heq] at ih
      rw [decimalCount_cons_of_isDecimal hdecimal]
      simpa using ih
  | _ => simp

theorem sublist_takeSign (cs : List Char) : (takeSign cs).2.Sublist cs := by
  unfold takeSign
  split
  · exact List.sublist_cons_self _ _
  · exact List.sublist_cons_self _ _
  · exact List.Sublist.refl _

theorem natAbs_readInt?_lt {s : String} {n : Int} (h : readInt? s = some n) :
    n.natAbs < 10 ^ decimalCount s.toList := by
  have hsigned := (sublist_takeSign _).trans (sublist_stripBy isBlank s.toList)
  have hlength := le_trans (length_takeGrouped _) (decimalCount_le_of_sublist hsigned)
  unfold readInt? at h
  split at h
  next negative cs hsign =>
    rw [show stripBy isBlank s.toList = trimChars s.toList from rfl, hsign] at hlength
    split at h
    · next d ds hds =>
      rw [hds] at hlength
      have hlt : readDecimal (d :: ds) < 10 ^ decimalCount s.toList :=
        lt_of_lt_of_le (readDecimal_lt (d :: ds)) (Nat.pow_le_pow_right (by decide) hlength)
      cases h
      split <;> omega
    · cases h

end Harvest.Decimal
