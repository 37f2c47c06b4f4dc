import Harvest.Files.System
import Mathlib.Data.List.Basic

/-!
# Text through bytes

A text that is written as bytes is read back from them.  Its lines end as they did, if it has no
carriage returns.
-/

namespace Harvest

namespace Text

/-! ## Bytes of a character -/

/-- The values of the bytes that a character is written as. -/
def charBytes (c : Char) : List Nat := (String.utf8EncodeChar c).map UInt8.toNat

theorem charBytes_eq (c : Char) : charBytes c =
    if c.toNat ≤ 0x7F then [c.toNat]
    else if c.toNat ≤ 0x7FF then [0xC0 + c.toNat / 64, 0x80 + c.toNat % 64]
    else if c.toNat ≤ 0xFFFF then
      [0xE0 + c.toNat / 4096, 0x80 + c.toNat / 64 % 64, 0x80 + c.toNat % 64]
    else [0xF0 + c.toNat / 262144, 0x80 + c.toNat / 4096 % 64, 0x80 + c.toNat / 64 % 64,
      0x80 + c.toNat % 64] := by
  have hvalid : c.toNat < 0xD800 ∨ (0xDFFF < c.toNat ∧ c.toNat < 0x110000) := c.valid
  have hval : c.val.toNat = c.toNat := rfl
  unfold charBytes String.utf8EncodeChar
  dsimp only
  rw [hval]
  split
  · simp only [List.map_cons, List.map_nil, UInt8.toNat_ofNat', List.cons.injEq, and_true]
    omega
  split
  · simp only [List.map_cons, List.map_nil, UInt8.toNat_ofNat', List.cons.injEq, and_true]
    omega
  split
  · simp only [List.map_cons, List.map_nil, UInt8.toNat_ofNat', List.cons.injEq, and_true]
    omega
  · simp only [List.map_cons, List.map_nil, UInt8.toNat_ofNat', List.cons.injEq, and_true]
    omega

theorem isTail_mod (n : Nat) : isTail (0x80 + n % 64) = true := by
  simp [isTail]
  omega

/-- The first two of three bytes stand neither for a code that fewer bytes have, nor for a
surrogate. -/
theorem isSecond_of_three {c : Char} (hmin : 0x7FF < c.toNat) (hmax : c.toNat ≤ 0xFFFF) :
    isSecond (0xE0 + c.toNat / 4096) (0x80 + c.toNat / 64 % 64) = true := by
  have hvalid : c.toNat < 0xD800 ∨ (0xDFFF < c.toNat ∧ c.toNat < 0x110000) := c.valid
  rw [isSecond, isTail_mod, Bool.true_and]
  split
  · simp only [Nat.ble_eq]
    omega
  split
  · simp only [Nat.ble_eq]
    omega
  · rw [if_neg (by omega), if_neg (by omega)]

/-- The first two of four bytes stand neither for a code that fewer bytes have, nor for one behind
the last. -/
theorem isSecond_of_four {c : Char} (hmin : 0xFFFF < c.toNat) :
    isSecond (0xF0 + c.toNat / 262144) (0x80 + c.toNat / 4096 % 64) = true := by
  have hvalid : c.toNat < 0xD800 ∨ (0xDFFF < c.toNat ∧ c.toNat < 0x110000) := c.valid
  rw [isSecond, isTail_mod, Bool.true_and, if_neg (by omega), if_neg (by omega)]
  split
  · simp only [Nat.ble_eq]
    omega
  split
  · simp only [Nat.ble_eq]
    omega
  · rfl

/-- The bytes of a character are read as this character. -/
theorem firstChar_charBytes (c : Char) (rest : List Nat) : ∃ b bs, charBytes c = b :: bs ∧
    firstChar b (bs ++ rest) = (some c, bs.length + 1) := by
  have hvalid : c.toNat < 0xD800 ∨ (0xDFFF < c.toNat ∧ c.toNat < 0x110000) := c.valid
  rw [charBytes_eq]
  split
  · refine ⟨_, _, rfl, ?_⟩
    unfold firstChar
    rw [if_pos (by omega), Char.ofNat_toNat]
    rfl
  split
  · refine ⟨_, _, rfl, ?_⟩
    unfold firstChar
    rw [if_neg (by omega), if_pos (by omega)]
    simp only [List.cons_append, List.nil_append, isTail_mod, if_true]
    have hcode : (0xC0 + c.toNat / 64 - 0xC0) * 64 + tailBits (0x80 + c.toNat % 64) = c.toNat := by
      unfold tailBits
      omega
    rw [hcode, Char.ofNat_toNat]
    rfl
  split
  · refine ⟨_, _, rfl, ?_⟩
    have hsecond := isSecond_of_three (c := c) (by omega) (by omega)
    unfold firstChar
    rw [if_neg (by omega), if_neg (by omega), if_pos (by omega)]
    simp only [List.cons_append, List.nil_append, hsecond, isTail_mod,
      Bool.not_true, Bool.false_eq_true, if_false]
    have hcode : ((0xE0 + c.toNat / 4096 - 0xE0) * 64 + tailBits (0x80 + c.toNat / 64 % 64)) * 64 +
        tailBits (0x80 + c.toNat % 64) = c.toNat := by
      unfold tailBits
      omega
    rw [hcode, Char.ofNat_toNat]
    rfl
  · refine ⟨_, _, rfl, ?_⟩
    have hsecond := isSecond_of_four (c := c) (by omega)
    unfold firstChar
    rw [if_neg (by omega), if_neg (by omega), if_neg (by omega), if_pos (by omega)]
    simp only [List.cons_append, List.nil_append, hsecond, isTail_mod,
      Bool.not_true, Bool.false_eq_true, if_false]
    have hcode :
        (((0xF0 + c.toNat / 262144 - 0xF0) * 64 + tailBits (0x80 + c.toNat / 4096 % 64)) * 64 +
          tailBits (0x80 + c.toNat / 64 % 64)) * 64 + tailBits (0x80 + c.toNat % 64) =
            c.toNat := by
      unfold tailBits
      omega
    rw [hcode, Char.ofNat_toNat]
    rfl

/-! ## Bytes of a text -/

theorem charsOf_flatMap (cs : List Char) {n : Nat} (hn : (cs.flatMap charBytes).length ≤ n) :
    charsOf n (cs.flatMap charBytes) = cs.map some := by
  induction cs generalizing n with
  | nil => cases n <;> rfl
  | cons c cs ih =>
      obtain ⟨b, bs, hbytes, hfirst⟩ := firstChar_charBytes c (cs.flatMap charBytes)
      rw [List.flatMap_cons, hbytes] at hn ⊢
      simp only [List.cons_append, List.length_cons, List.length_append] at hn
      obtain ⟨n, rfl⟩ : ∃ m, n = m + 1 := ⟨n - 1, by omega⟩
      rw [List.cons_append, charsOf, hfirst]
      dsimp only
      rw [Nat.add_sub_cancel, List.drop_left, ih (by omega), List.map_cons]

theorem toList_loop (bs : ByteArray) (i : Nat) (r : List UInt8) :
    ByteArray.toList.loop bs i r = r.reverse ++ bs.data.toList.drop i := by
  fun_induction ByteArray.toList.loop bs i r with
  | case1 i r h ih =>
      have hi : i < bs.data.toList.length := by simpa using h
      rw [ih, List.drop_eq_getElem_cons hi]
      simp [ByteArray.get!, h]
  | case2 i r h => simpa using Nat.le_of_not_lt h

theorem byteValues_toUTF8 (s : String) : byteValues s.toUTF8 = s.toList.flatMap charBytes := by
  have hbytes : s.toUTF8 = s.toList.utf8Encode := by
    conv_lhs => rw [← s.ofList_toList]
    exact String.toByteArray_ofList
  rw [byteValues, hbytes, ByteArray.toList, toList_loop, List.utf8Encode,
    List.toList_data_toByteArray, List.reverse_nil, List.nil_append, List.drop_zero,
    List.map_flatMap]
  rfl

/-- A text is read back from its bytes. -/
theorem readUtf8?_toUTF8 (s : String) : readUtf8? s.toUTF8 = some s := by
  have hall : ∀ cs : List Char, (cs.map some).mapM id = some cs := by
    intro cs
    induction cs with
    | nil => rfl
    | cons c cs ih => simp [List.mapM_cons, ih]
  rw [readUtf8?, byteValues_toUTF8]
  rw [charsOf_flatMap _ (Nat.le_refl _), hall, Option.map_some, String.ofList_toList]

/-! ## Ends of lines -/

theorem oneLineEnd_of_not_mem {cs : List Char} (h : '\r' ∉ cs) : oneLineEnd cs = cs := by
  induction cs with
  | nil => rfl
  | cons c cs ih =>
      rw [List.mem_cons, not_or] at h
      unfold oneLineEnd
      split
      · rename_i heq
        exact (h.1 (List.cons.inj heq).1.symm).elim
      · rename_i heq
        exact (h.1 (List.cons.inj heq).1.symm).elim
      · rename_i heq
        obtain ⟨rfl, rfl⟩ := List.cons.inj heq
        rw [ih h.2]
      · rename_i heq
        cases heq

theorem unifyLines_of_not_mem {s : String} (h : '\r' ∉ s.toList) : unifyLines s = s := by
  rw [unifyLines, oneLineEnd_of_not_mem h, String.ofList_toList]

end Text

/-- A text without carriage returns is read back from the file that it was written to. -/
theorem FileSystem.readText_of_read {fs : FileSystem} {p : Path} {s : String}
    (h : fs.read p = .ok s.toUTF8) (hs : '\r' ∉ s.toList) : fs.readText p = .ok s := by
  rw [readText, h]
  simp only [Text.readUtf8?_toUTF8, Text.unifyLines_of_not_mem hs]

end Harvest
