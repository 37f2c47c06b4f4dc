import Harvest.Proofs.Text.Utf8
import Mathlib.Data.List.Basic

/-!
# Bytes that are text

Bytes are read as a text only if they are the bytes of this text, so that there are no bytes of two
texts and none of a text that is written in another way.
-/

namespace Harvest.Text

/-! ## Bytes of a character -/

/-- The bytes of the character of a code point below a bound, by the length that the code point asks
for. -/
theorem charBytes_ofNat {n : Nat} (hvalid : n.isValidChar) : charBytes (Char.ofNat n) =
    if n ≤ 0x7F then [n]
    else if n ≤ 0x7FF then [0xC0 + n / 64, 0x80 + n % 64]
    else if n ≤ 0xFFFF then [0xE0 + n / 4096, 0x80 + n / 64 % 64, 0x80 + n % 64]
    else [0xF0 + n / 262144, 0x80 + n / 4096 % 64, 0x80 + n / 64 % 64, 0x80 + n % 64] := by
  have hn : (Char.ofNat n).toNat = n := by
    rw [Char.ofNat, dif_pos hvalid]
    rfl
  rw [charBytes_eq, hn]

theorem isTail_iff {b : Nat} : isTail b = true ↔ 0x80 ≤ b ∧ b ≤ 0xBF := by
  rw [isTail, Bool.and_eq_true, Nat.ble_eq, Nat.ble_eq]

/-- Behind a first byte that asks for it, the second one lies in a narrower range. -/
theorem isSecond_iff {first b : Nat} : isSecond first b = true ↔ (0x80 ≤ b ∧ b ≤ 0xBF) ∧
    (first = 0xE0 → 0xA0 ≤ b) ∧ (first = 0xED → b ≤ 0x9F) ∧ (first = 0xF0 → 0x90 ≤ b) ∧
    (first = 0xF4 → b ≤ 0x8F) := by
  rw [isSecond, Bool.and_eq_true, isTail_iff]
  refine and_congr_right fun _ => ?_
  split
  · rw [Nat.ble_eq]
    omega
  split
  · rw [Nat.ble_eq]
    omega
  split
  · rw [Nat.ble_eq]
    omega
  split
  · rw [Nat.ble_eq]
    omega
  · simp only [true_iff]
    omega

section
variable {b c d e : Nat}

theorem charBytes_one (hb : b < 0x80) : charBytes (Char.ofNat b) = [b] := by
  rw [charBytes_ofNat (Or.inl (by omega)), if_pos (by omega)]

theorem charBytes_two (hb : 0xC2 ≤ b ∧ b ≤ 0xDF) (hc : isTail c = true) :
    charBytes (Char.ofNat ((b - 0xC0) * 64 + tailBits c)) = [b, c] := by
  rw [isTail_iff] at hc
  unfold tailBits
  rw [charBytes_ofNat (Or.inl (by omega)), if_neg (by omega), if_pos (by omega)]
  simp only [List.cons.injEq, and_true]
  omega

theorem charBytes_three (hb : 0xE0 ≤ b ∧ b ≤ 0xEF) (hc : isSecond b c = true)
    (hd : isTail d = true) :
    charBytes (Char.ofNat (((b - 0xE0) * 64 + tailBits c) * 64 + tailBits d)) = [b, c, d] := by
  rw [isSecond_iff] at hc
  rw [isTail_iff] at hd
  unfold tailBits
  rw [charBytes_ofNat (by unfold Nat.isValidChar; omega), if_neg (by omega), if_neg (by omega),
    if_pos (by omega)]
  simp only [List.cons.injEq, and_true]
  omega

theorem charBytes_four (hb : 0xF0 ≤ b ∧ b ≤ 0xF4) (hc : isSecond b c = true)
    (hd : isTail d = true) (he : isTail e = true) :
    charBytes (Char.ofNat ((((b - 0xF0) * 64 + tailBits c) * 64 + tailBits d) * 64 + tailBits e)) =
      [b, c, d, e] := by
  rw [isSecond_iff] at hc
  rw [isTail_iff] at hd he
  unfold tailBits
  rw [charBytes_ofNat (by unfold Nat.isValidChar; omega), if_neg (by omega), if_neg (by omega),
    if_neg (by omega)]
  simp only [List.cons.injEq, and_true]
  omega

end

/-- Bytes that are read as a character are the bytes of this character. -/
theorem firstChar_eq_some {b k : Nat} {rest : List Nat} {c : Char}
    (h : firstChar b rest = (some c, k)) :
    ∃ tail more, rest = tail ++ more ∧ charBytes c = b :: tail ∧ k = tail.length + 1 := by
  -- the cases are those of the reader: how long the first byte says that the character is
  unfold firstChar at h
  split at h
  · next hb =>
    obtain ⟨hc, rfl⟩ := Prod.mk.inj h
    obtain rfl := Option.some.inj hc
    exact ⟨[], rest, rfl, charBytes_one hb, rfl⟩
  split at h
  · next hb =>
    split at h
    · next c₁ more =>
      split at h
      · next htail =>
        obtain ⟨hc, rfl⟩ := Prod.mk.inj h
        obtain rfl := Option.some.inj hc
        exact ⟨[c₁], more, rfl, charBytes_two hb htail, rfl⟩
      · cases h
    · cases h
  split at h
  · next hb =>
    split at h
    · next c₁ c₂ more =>
      split at h
      · cases h
      · next hsecond =>
        split at h
        · cases h
        · next htail =>
          obtain ⟨hc, rfl⟩ := Prod.mk.inj h
          obtain rfl := Option.some.inj hc
          exact ⟨[c₁, c₂], more, rfl, charBytes_three hb (by simpa using hsecond)
            (by simpa using htail), rfl⟩
    · cases h
    · cases h
  split at h
  · next hb =>
    split at h
    · next c₁ c₂ c₃ more =>
      split at h
      · cases h
      · next hsecond =>
        split at h
        · cases h
        · next htail =>
          split at h
          · cases h
          · next hlast =>
            obtain ⟨hc, rfl⟩ := Prod.mk.inj h
            obtain rfl := Option.some.inj hc
            exact ⟨[c₁, c₂, c₃], more, rfl, charBytes_four hb (by simpa using hsecond)
              (by simpa using htail) (by simpa using hlast), rfl⟩
    · cases h
    · cases h
    · cases h
  · cases h

/-! ## Bytes of a text -/

/-- Bytes that are read as characters are the bytes of these, one after the other. -/
theorem flatMap_of_charsOf {n : Nat} {bs : List Nat} {cs : List Char} (hn : bs.length ≤ n)
    (h : (charsOf n bs).mapM id = some cs) : bs = cs.flatMap charBytes := by
  induction n generalizing bs cs with
  | zero =>
      obtain rfl : bs = [] := List.length_eq_zero_iff.mp (by omega)
      obtain rfl : [] = cs := Option.some.inj h
      rfl
  | succ n ih =>
      cases bs with
      | nil =>
          obtain rfl : [] = cs := Option.some.inj h
          rfl
      | cons b rest =>
          rcases hfirst : firstChar b rest with ⟨c?, k⟩
          rw [charsOf, hfirst, List.mapM_cons] at h
          obtain ⟨c, hc, h⟩ := Option.bind_eq_some_iff.mp h
          obtain ⟨ds, hds, h⟩ := Option.bind_eq_some_iff.mp h
          obtain rfl : c :: ds = cs := Option.some.inj h
          obtain rfl : c? = some c := hc
          obtain ⟨tail, more, rfl, hbytes, rfl⟩ := firstChar_eq_some hfirst
          rw [Nat.add_sub_cancel, List.drop_left] at hds
          simp only [List.length_cons, List.length_append] at hn
          rw [List.flatMap_cons, hbytes, ← ih (by omega) hds, List.cons_append]

theorem byteValues_inj {a b : ByteArray} (h : byteValues a = byteValues b) : a = b := by
  have hlist : a.toList = b.toList :=
    List.map_injective_iff.mpr (fun _ _ => UInt8.toNat_inj.mp) h
  rw [ByteArray.toList, ByteArray.toList, toList_loop, toList_loop] at hlist
  simp only [List.reverse_nil, List.nil_append, List.drop_zero] at hlist
  exact ByteArray.ext (Array.toList_inj.mp hlist)

/-- Bytes are read as a text just if they are the bytes that it is written as. -/
theorem readUtf8?_eq_some_iff {bytes : ByteArray} {s : String} :
    readUtf8? bytes = some s ↔ bytes = s.toUTF8 := by
  constructor
  · intro h
    obtain ⟨cs, hcs, rfl⟩ := Option.map_eq_some_iff.mp h
    apply byteValues_inj
    rw [byteValues_toUTF8, String.toList_ofList]
    exact flatMap_of_charsOf (Nat.le_refl _) hcs
  · rintro rfl
    exact readUtf8?_toUTF8 s

/-- Bytes are no text just if no text is written as them. -/
theorem readUtf8?_eq_none_iff {bytes : ByteArray} :
    readUtf8? bytes = none ↔ ∀ s : String, bytes ≠ s.toUTF8 := by
  rw [Option.eq_none_iff_forall_ne_some]
  exact forall_congr' fun s => not_congr readUtf8?_eq_some_iff

end Harvest.Text
