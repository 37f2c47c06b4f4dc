import Harvest.Proofs.FileName

/-!
# Paths and their texts

The parts of a path that was read have no slashes in them and are neither empty nor single dots.
Such a path is read back from its text.
-/

namespace Harvest.Path

variable {p q : Path} {c : Char} {cs piece : List Char} {pieces : List (List Char)}

/-! ## Pieces between slashes -/

theorem splitSlashes_ne_nil (cs : List Char) : splitSlashes cs ≠ [] := by
  unfold splitSlashes
  split
  · exact List.cons_ne_nil _ _
  · exact List.cons_ne_nil _ _
  · split <;> exact List.cons_ne_nil _ _

theorem splitSlashes_cons (hc : c ≠ '/') :
    splitSlashes (c :: cs) = (splitSlashes cs).modifyHead (c :: ·) := by
  rw [splitSlashes]
  · cases h : splitSlashes cs with
    | nil => exact absurd h (splitSlashes_ne_nil cs)
    | cons piece pieces => rfl
  · exact hc

theorem splitSlashes_eq (cs : List Char) : splitSlashes cs = cs.splitOn '/' := by
  induction cs with
  | nil => rfl
  | cons c cs ih =>
      rw [List.splitOn, List.splitOnP_cons_eq_if_modifyHead, ← List.splitOn, ← ih]
      by_cases hc : c = '/'
      · subst hc
        rfl
      · rw [if_neg (by simpa using hc), splitSlashes_cons hc]

theorem splitSlashes_intercalate (hne : pieces ≠ []) (h : ∀ piece ∈ pieces, '/' ∉ piece) :
    splitSlashes (['/'].intercalate pieces) = pieces := by
  rw [splitSlashes_eq, List.splitOn_intercalate '/' h hne]

theorem not_mem_of_mem_splitSlashes (h : piece ∈ splitSlashes cs) : '/' ∉ piece := by
  induction cs generalizing piece with
  | nil =>
      obtain rfl := List.mem_singleton.mp h
      exact List.not_mem_nil
  | cons c cs ih =>
      by_cases hc : c = '/'
      · subst hc
        rcases List.mem_cons.mp h with rfl | h
        · exact List.not_mem_nil
        · exact ih h
      · rw [splitSlashes_cons hc] at h
        cases hsplit : splitSlashes cs with
        | nil => exact absurd hsplit (splitSlashes_ne_nil cs)
        | cons first rest =>
            rw [hsplit] at h ih
            rcases List.mem_cons.mp h with rfl | h
            · have hfirst := ih List.mem_cons_self
              simp [hfirst, Ne.symm hc]
            · exact ih (List.mem_cons_of_mem _ h)

/-! ## Proper paths -/

/-- Whether a text can be a part of a path that was read. -/
structure IsName (s : String) : Prop where
  part : isPart s.toList = true
  slash : '/' ∉ s.toList

theorem IsName.ne_nil {s : String} (h : IsName s) : s.toList ≠ [] := by
  intro hs
  have hpart := h.part
  rw [hs] at hpart
  cases hpart

/-- Whether a path has the parts of one that was read. -/
def Proper (p : Path) : Prop := ∀ part ∈ p.parts, IsName part

theorem proper_ofString (s : String) : (ofString s).Proper := by
  intro part hpart
  obtain ⟨piece, hpiece, rfl⟩ := List.mem_map.mp hpart
  obtain ⟨hpiece, hpart⟩ := List.mem_filter.mp hpiece
  constructor
  · rwa [String.toList_ofList]
  · rw [String.toList_ofList]
    exact not_mem_of_mem_splitSlashes hpiece

theorem Proper.join (hp : p.Proper) (hq : q.Proper) : (p.join q).Proper := by
  unfold Path.join
  split
  · exact hq
  · intro part hpart
    exact (List.mem_append.mp hpart).elim (hp part) (hq part)

/-! ## Reading a path back -/

theorem toList_toString (h : p.parts ≠ [] ∨ p.isAbsolute = true) : p.toString.toList =
    p.anchor.text.toList ++ ['/'].intercalate (p.parts.map String.toList) := by
  rw [toString]
  split
  · rename_i hanchor hparts
    rw [isAbsolute, hanchor, hparts] at h
    rcases h with h | h
    · exact absurd rfl h
    · cases h
  · rw [String.toList_append, String.toList_intercalate]
    rfl

theorem exists_cons_intercalate {part : String} {parts : List String} (h : IsName part) :
    ∃ c cs, c ≠ '/' ∧ ['/'].intercalate ((part :: parts).map String.toList) = c :: cs := by
  have hslash := h.slash
  cases hchars : part.toList with
  | nil => exact absurd hchars h.ne_nil
  | cons c cs =>
      rw [hchars, List.mem_cons, not_or] at hslash
      cases parts with
      | nil => exact ⟨c, cs, Ne.symm hslash.1, by simp [hchars]⟩
      | cons part' parts =>
          rw [List.map_cons, List.map_cons, List.intercalate_cons_cons, hchars]
          exact ⟨c, _, Ne.symm hslash.1, rfl⟩

theorem anchorOf_append (anchor : Anchor) (hc : c ≠ '/') :
    anchorOf (anchor.text.toList ++ c :: cs) = anchor := by
  cases anchor with
  | relative =>
      change anchorOf (c :: cs) = _
      simp [anchorOf, hc]
  | root =>
      change anchorOf ('/' :: c :: cs) = _
      simp [anchorOf, hc]
  | doubleRoot =>
      change anchorOf ('/' :: '/' :: c :: cs) = _
      simp [anchorOf, hc]

/-- Slashes in front leave empty pieces, which name nothing. -/
theorem filter_splitSlashes_append (anchor : Anchor) (cs : List Char) :
    (splitSlashes (anchor.text.toList ++ cs)).filter isPart = (splitSlashes cs).filter isPart := by
  cases anchor <;> rfl

theorem Proper.filter_isPart (h : p.Proper) :
    (p.parts.map String.toList).filter isPart = p.parts.map String.toList := by
  refine List.filter_eq_self.mpr fun piece hpiece => ?_
  obtain ⟨part, hpart, rfl⟩ := List.mem_map.mp hpiece
  exact (h part hpart).part

theorem Proper.slash (h : p.Proper) : ∀ piece ∈ p.parts.map String.toList, '/' ∉ piece := by
  intro piece hpiece
  obtain ⟨part, hpart, rfl⟩ := List.mem_map.mp hpiece
  exact (h part hpart).slash

theorem ofString_toString (hp : p.Proper) : ofString p.toString = p := by
  obtain ⟨anchor, parts⟩ := p
  cases parts with
  | nil => cases anchor <;> decide
  | cons part parts =>
      obtain ⟨c, cs, hc, hchars⟩ := @exists_cons_intercalate part parts (hp part List.mem_cons_self)
      have htext := @toList_toString ⟨anchor, part :: parts⟩ (Or.inl (List.cons_ne_nil _ _))
      have hanchor : anchorOf (toString ⟨anchor, part :: parts⟩).toList = anchor := by
        rw [htext, hchars, anchorOf_append anchor hc]
      have hparts : ((splitSlashes (toString ⟨anchor, part :: parts⟩).toList).filter isPart).map
          String.ofList = part :: parts := by
        rw [htext, filter_splitSlashes_append,
          splitSlashes_intercalate (by simp) hp.slash, hp.filter_isPart, List.map_map]
        simp
      rw [ofString, hanchor, hparts]

/-- Whether a text is how a proper absolute path is written. -/
def IsWritten (text : String) : Prop :=
  ∃ p : Path, p.Proper ∧ p.isAbsolute = true ∧ p.toString = text

end Harvest.Path
