import Harvest.Json.Printer
import Harvest.Json.Reader

/-!
# Strings read back

A JSON string that was written is read back, up to its closing quote, whether characters outside
ASCII are escaped or not.
-/

namespace Harvest.Json

/-! ## Hexadecimal digits -/

theorem hexValue?_digitChar : ∀ n < 16, hexValue? n.digitChar = some n := by decide

theorem hex_four {n : Nat} (h : n < 65536) :
    Text.hex 4 n = [(n / 4096).digitChar, (n / 256 % 16).digitChar, (n / 16 % 16).digitChar,
      (n % 16).digitChar] := by
  have hstep : ∀ m, 16 ≤ m → Nat.toDigits 16 m = Nat.toDigits 16 (m / 16) ++ [(m % 16).digitChar] :=
    fun m hm => Nat.toDigits_of_base_le (by decide) hm
  have hlast : ∀ m, m < 16 → Nat.toDigits 16 m = [m.digitChar] := fun m hm =>
    Nat.toDigits_of_lt_base hm
  have h₁ : n / 16 / 16 = n / 256 := by omega
  have h₂ : n / 256 / 16 = n / 4096 := by omega
  unfold Text.hex
  by_cases hn₁ : n < 16
  · have : n / 4096 = 0 ∧ n / 256 % 16 = 0 ∧ n / 16 % 16 = 0 ∧ n % 16 = n := by omega
    simp [hlast n hn₁, this, List.replicate]
  by_cases hn₂ : n < 256
  · have : n / 4096 = 0 ∧ n / 256 % 16 = 0 ∧ n / 16 % 16 = n / 16 := by omega
    simp [hstep n (by omega), hlast (n / 16) (by omega), this, List.replicate]
  by_cases hn₃ : n < 4096
  · have : n / 4096 = 0 ∧ n / 256 % 16 = n / 256 := by omega
    simp [hstep n (by omega), hstep (n / 16) (by omega), hlast (n / 256) (by omega), h₁, this]
  · simp [hstep n (by omega), hstep (n / 16) (by omega), hstep (n / 256) (by omega),
      hlast (n / 4096) (by omega), h₁, h₂]

/-- A unit of 16 bits is read back from its digits. -/
theorem exists_escapeUnit {n : Nat} (h : n < 65536) : ∃ a b c d,
    escapeUnit n = ['\\', 'u', a, b, c, d] ∧ hexUnit? a b c d = some n := by
  refine ⟨_, _, _, _, by rw [escapeUnit, hex_four h], ?_⟩
  rw [hexUnit?, hexValue?_digitChar _ (by omega), hexValue?_digitChar _ (by omega),
    hexValue?_digitChar _ (by omega), hexValue?_digitChar _ (by omega)]
  simp only [Option.pure_def, Option.bind_eq_bind, Option.bind_some, Option.some.injEq]
  omega

/-! ## Characters -/

/-- A character is no half of a pair of units. -/
theorem toNat_valid (c : Char) : c.toNat < 0xD800 ∨ (0xDFFF < c.toNat ∧ c.toNat < 0x110000) :=
  c.valid

/-- How a character is written in a string. -/
inductive Escaped (c : Char) : List Char → Prop
  | letter (d : Char) (hd : d ≠ 'u') (h : simpleEscape? d = some c) : Escaped c ['\\', d]
  | unit (h : c.toNat < 0x10000) : Escaped c (escapeUnit c.toNat)
  | pair (high low : Nat) (hhigh : 0xD800 ≤ high ∧ high < 0xDC00)
      (hlow : 0xDC00 ≤ low ∧ low < 0xE000)
      (h : Char.ofNat (0x10000 + (high - 0xD800) * 0x400 + (low - 0xDC00)) = c) :
      Escaped c (escapeUnit high ++ escapeUnit low)
  | itself (hquote : c ≠ '"') (hslash : c ≠ '\\') (h : ¬ c.toNat < 0x20) : Escaped c [c]

theorem escaped_escapeChar (asciiOnly : Bool) (c : Char) : Escaped c (escapeChar asciiOnly c) := by
  unfold escapeChar
  by_cases hquote : c = '"'
  · subst hquote
    exact .letter '"' (by decide) rfl
  by_cases hslash : c = '\\'
  · subst hslash
    exact .letter '\\' (by decide) rfl
  by_cases hn : c = '\n'
  · subst hn
    exact .letter 'n' (by decide) rfl
  by_cases hr : c = '\r'
  · subst hr
    exact .letter 'r' (by decide) rfl
  by_cases ht : c = '\t'
  · subst ht
    exact .letter 't' (by decide) rfl
  by_cases hb : c = '\x08'
  · subst hb
    exact .letter 'b' (by decide) rfl
  by_cases hf : c = '\x0c'
  · subst hf
    exact .letter 'f' (by decide) rfl
  simp only [hquote, hslash, hn, hr, ht, hb, hf, beq_iff_eq, or_self, Bool.or_eq_true, if_false]
  -- what is left has no short form: it is written by its code, or as itself
  split
  · exact .unit (by omega)
  split
  · exact .itself hquote hslash ‹_›
  split
  · exact .unit ‹_›
  · have hvalid := toNat_valid c
    refine .pair _ _ ⟨by omega, by omega⟩ ⟨by omega, by omega⟩ ?_
    have heq : 0x10000 + (0xD800 + (c.toNat - 0x10000) / 0x400 - 0xD800) * 0x400 +
        (0xDC00 + (c.toNat - 0x10000) % 0x400 - 0xDC00) = c.toNat := by omega
    rw [heq, Char.ofNat_toNat]

/-! ## Reading -/

theorem unitChar_toNat (c : Char) : unitChar c.toNat = c := by
  have hvalid := toNat_valid c
  rw [unitChar, if_neg (by omega), Char.ofNat_toNat]

/-- Where the escape of a unit follows, its digits are good. -/
def Units (cs : List Char) : Prop :=
  ∀ e f g h r, cs = '\\' :: 'u' :: e :: f :: g :: h :: r → (hexUnit? e f g h).isSome = true

theorem readString?_unit {a b c d : Char} {x : Char} {rest : List Char}
    (hx : hexUnit? a b c d = some x.toNat) (hrest : Units rest) :
    readString? ('\\' :: 'u' :: a :: b :: c :: d :: rest) =
      (readString? rest).map fun (s, r) => (x :: s, r) := by
  have hvalid := toNat_valid x
  by_cases hnext : ∃ e f g h r, rest = '\\' :: 'u' :: e :: f :: g :: h :: r
  · obtain ⟨e, f, g, h, r, rfl⟩ := hnext
    obtain ⟨low, hlow⟩ := Option.isSome_iff_exists.mp (hrest e f g h r rfl)
    rw [readString?, hx]
    simp only [hlow]
    rw [if_neg (by omega), unitChar_toNat]
  · rw [readString?, hx]
    · simp only [unitChar_toNat]
    · intro e f g h r hr
      exact hnext ⟨e, f, g, h, r, hr⟩

/-- A character is read back from the way it is written. -/
theorem readString?_escaped {x : Char} {cs rest : List Char} (h : Escaped x cs)
    (hrest : Units rest) :
    readString? (cs ++ rest) = (readString? rest).map fun (s, r) => (x :: s, r) := by
  cases h with
  | letter d hd hx =>
      rw [List.cons_append, List.cons_append, List.nil_append, readString?, hx]
      · intro a b c e f g h k r hr
        exact absurd hr hd
      · intro a b c e r hr
        exact absurd hr hd
  | unit hx =>
      obtain ⟨a, b, c, d, hcs, hn⟩ := exists_escapeUnit hx
      rw [hcs]
      exact readString?_unit hn hrest
  | pair high low hhigh hlow hx =>
      obtain ⟨a, b, c, d, hcs, hn⟩ := exists_escapeUnit (n := high) (by omega)
      obtain ⟨e, f, g, h, hcs', hn'⟩ := exists_escapeUnit (n := low) (by omega)
      rw [hcs, hcs']
      simp only [List.cons_append, List.nil_append]
      rw [readString?, hn]
      simp only [hn']
      rw [if_pos ⟨hhigh.1, hhigh.2, hlow.1, hlow.2⟩, hx]
  | itself hquote hslash hx =>
      rw [List.cons_append, List.nil_append, readString?]
      · rw [if_neg (by simp [hslash, hx])]
      · exact hquote
      · intro a b c d e f g h r hr
        exact absurd hr hslash
      · intro a b c d r hr
        exact absurd hr hslash
      · intro d r hr
        exact absurd hr hslash

theorem units_escaped {x : Char} {cs : List Char} (h : Escaped x cs) (rest : List Char) :
    Units (cs ++ rest) := by
  intro e f g k r hr
  cases h with
  | letter d hd hx =>
      simp only [List.cons_append, List.nil_append, List.cons.injEq] at hr
      exact absurd hr.2.1 hd
  | unit hx =>
      obtain ⟨a, b, c, d, hcs, hn⟩ := exists_escapeUnit hx
      rw [hcs] at hr
      simp only [List.cons_append, List.nil_append, List.cons.injEq] at hr
      obtain ⟨_, _, rfl, rfl, rfl, rfl, _⟩ := hr
      simp [hn]
  | pair high low hhigh hlow hx =>
      obtain ⟨a, b, c, d, hcs, hn⟩ := exists_escapeUnit (n := high) (by omega)
      rw [hcs] at hr
      simp only [List.cons_append, List.nil_append, List.cons.injEq] at hr
      obtain ⟨_, _, rfl, rfl, rfl, rfl, _⟩ := hr
      simp [hn]
  | itself hquote hslash hx => exact absurd (List.cons.inj hr).1 hslash

/-- What is written between quotes is read back. -/
theorem readString?_flatMap (asciiOnly : Bool) (cs rest : List Char) :
    readString? (cs.flatMap (escapeChar asciiOnly) ++ '"' :: rest) = some (cs, rest) ∧
      Units (cs.flatMap (escapeChar asciiOnly) ++ '"' :: rest) := by
  induction cs with
  | nil =>
      refine ⟨by rw [List.flatMap_nil, List.nil_append, readString?], ?_⟩
      intro e f g h r hr
      simp at hr
  | cons c cs ih =>
      have hc := escaped_escapeChar asciiOnly c
      rw [List.flatMap_cons, List.append_assoc]
      refine ⟨?_, units_escaped hc _⟩
      rw [readString?_escaped hc ih.2, ih.1]
      rfl

/-- A string that is written is read back after its opening quote. -/
theorem readString?_renderString (asciiOnly : Bool) (s : String) (rest : List Char) :
    ∃ cs, renderString asciiOnly s ++ rest = '"' :: cs ∧
      readString? cs = some (s.toList, rest) := by
  refine ⟨_, ?_, (readString?_flatMap asciiOnly s.toList rest).1⟩
  simp [renderString]

theorem renderString_append_inj {asciiOnly : Bool} {s t : String} {rest rest' : List Char}
    (h : renderString asciiOnly s ++ rest = renderString asciiOnly t ++ rest') :
    s = t ∧ rest = rest' := by
  obtain ⟨cs, hcs, hread⟩ := readString?_renderString asciiOnly s rest
  obtain ⟨cs', hcs', hread'⟩ := readString?_renderString asciiOnly t rest'
  rw [hcs, hcs', List.cons.injEq] at h
  rw [← h.2, hread, Option.some.injEq, Prod.mk.injEq] at hread'
  exact ⟨String.toList_inj.mp hread'.1, hread'.2⟩

end Harvest.Json
