import Harvest.Json.Reader

/-!
# Integers that are too long

A text is refused for the length of an integer only where one of its integers has more digits than
the limit.
-/

namespace Harvest.Json

theorem bind_eq_error {ε α β : Type} {x : Except ε α} {f : α → Except ε β} {e : ε}
    (h : x >>= f = .error e) : x = .error e ∨ ∃ a, f a = .error e := by
  cases x with
  | error e' =>
      obtain rfl := Except.error.inj h
      exact Or.inl rfl
  | ok a => exact Or.inr ⟨a, h⟩

variable {limit : Option Nat} {n bound : Nat} {cs : List Char}

/-! ## Numbers -/

theorem exceeds_of_readNumber {negative : Bool}
    (h : readNumber limit negative cs = .error (.longInteger n)) : exceeds limit n = true := by
  unfold readNumber at h
  split at h
  · cases h
  · dsimp only at h
    split at h
    · split at h
      · next hlong =>
        cases h
        exact hlong
      · cases h
    · cases h

theorem exceeds_of_readScalar (h : readScalar limit cs = .error (.longInteger n)) :
    exceeds limit n = true := by
  unfold readScalar at h
  split at h
  · cases h
  split at h
  · exact exceeds_of_readNumber h
  · exact exceeds_of_readNumber h

/-! ## Values

The recursion is on the bound, which is less for each part of a value than for the value. -/

mutual

theorem exceeds_of_readValue {bound : Nat} {cs : List Char}
    (h : readValue limit bound cs = .error (.longInteger n)) : exceeds limit n = true := by
  cases bound with
  | zero =>
      rw [readValue] at h
      cases h
  | succ bound =>
      rw [readValue.eq_def] at h
      dsimp only at h
      split at h
      · split at h <;> cases h
      · split at h
        · cases h
        · obtain h | ⟨_, h⟩ := bind_eq_error h
          · exact exceeds_of_readItems h
          · cases h
      · split at h
        · cases h
        · obtain h | ⟨_, h⟩ := bind_eq_error h
          · exact exceeds_of_readMembers h
          · cases h
      · exact exceeds_of_readScalar h

theorem exceeds_of_readItems {bound : Nat} {cs : List Char}
    (h : readItems limit bound cs = .error (.longInteger n)) : exceeds limit n = true := by
  cases bound with
  | zero =>
      rw [readItems] at h
      cases h
  | succ bound =>
      rw [readItems] at h
      obtain h | ⟨_, h⟩ := bind_eq_error h
      · exact exceeds_of_readValue h
      · dsimp only at h
        split at h
        · cases h
        · obtain h | ⟨_, h⟩ := bind_eq_error h
          · exact exceeds_of_readItems h
          · cases h
        · cases h

theorem exceeds_of_readMembers {bound : Nat} {cs : List Char}
    (h : readMembers limit bound cs = .error (.longInteger n)) : exceeds limit n = true := by
  cases bound with
  | zero =>
      rw [readMembers] at h
      cases h
  | succ bound =>
      rw [readMembers.eq_def] at h
      dsimp only at h
      split at h
      · split at h
        · cases h
        · split at h
          · obtain h | ⟨_, h⟩ := bind_eq_error h
            · exact exceeds_of_readValue h
            · split at h
              · cases h
              · obtain h | ⟨_, h⟩ := bind_eq_error h
                · exact exceeds_of_readMembers h
                · cases h
              · cases h
          · cases h
      · cases h

end

/-- An integer for which a text is refused has more digits than the limit. -/
theorem lt_of_read_longInteger {s : String} (h : read s = .error (.longInteger n)) :
    maxIntegerDigits < n := by
  unfold read readWithin at h
  dsimp only at h
  split at h
  · next hread =>
    cases h
    simpa [exceeds] using exceeds_of_readValue hread
  · split at h <;> cases h

end Harvest.Json
