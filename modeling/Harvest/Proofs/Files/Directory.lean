import Harvest.Proofs.Files.Write

/-!
# Directories

A directory that was made is there, and making it once more changes nothing.
-/

namespace Harvest.FileSystem

section
variable {fs fs' : FileSystem} {p : Path} {place q : Place}

theorem isDirectory_eq_true_iff : fs.isDirectory p = true ↔
    ∃ q, fs.locate p = .ok q ∧ fs.at? q = some .directory := by
  rw [← find_eq_ok_iff]
  unfold isDirectory
  split <;> simp_all

/-- A path leads where it has led when there are more directories than before. -/
theorem locate_put_directory (hfree : fs.at? place = none) (h : fs.locate p = .ok q) :
    (fs.put place .directory).locate p = .ok q := by
  have hdirs : ∀ r, fs.at? r = some .directory →
      (fs.put place .directory).at? r = some .directory := by
    intro r hr
    by_cases hsame : r = place
    · subst hsame
      rw [hfree] at hr
      cases hr
    · rwa [at?_put_of_ne hsame]
  exact locate_eq_ok_of_directories hdirs rfl h

theorem makeDirectory_eq_ok (h : fs.makeDirectory p = .ok fs') : fs'.isDirectory p = true := by
  unfold makeDirectory at h
  cases hlocate : fs.locate p with
  | error e => simp [hlocate] at h
  | ok place =>
      simp only [hlocate] at h
      cases hfree : fs.at? place with
      | some s => simp [hfree] at h
      | none =>
          simp only [hfree] at h
          split at h
          · obtain rfl := Except.ok.inj h
            have hne : place ≠ [] := by
              rintro rfl
              cases hfree
            exact isDirectory_eq_true_iff.mpr
              ⟨place, locate_put_directory hfree hlocate, at?_put_self hne⟩
          · cases h

theorem makeDirectory_of_isDirectory (h : fs.isDirectory p = true) :
    fs.makeDirectory p = .error (.trouble .taken p.toString) := by
  obtain ⟨q, hlocate, hq⟩ := isDirectory_eq_true_iff.mp h
  rw [makeDirectory, hlocate]
  simp only [hq]

theorem ensureDirectory_eq_ok (h : fs.ensureDirectory p = .ok fs') : fs'.isDirectory p = true := by
  unfold ensureDirectory at h
  split at h
  · rename_i fs₁ hmake
    obtain rfl := Except.ok.inj h
    exact makeDirectory_eq_ok hmake
  · split at h
    · rename_i hdir
      obtain rfl := Except.ok.inj h
      exact hdir
    · cases h

theorem ensureDirectory_of_isDirectory (h : fs.isDirectory p = true) :
    fs.ensureDirectory p = .ok fs := by
  rw [ensureDirectory, makeDirectory_of_isDirectory h]
  exact if_pos h

theorem ensureFrom_eq_ok {anchor : Anchor} {names : List String}
    (h : fs.ensureFrom anchor names = .ok fs') :
    fs'.isDirectory ⟨anchor, names.reverse⟩ = true := by
  cases names with
  | nil => exact ensureDirectory_eq_ok h
  | cons name above =>
      rw [ensureFrom] at h
      split at h
      · rename_i hmake
        obtain rfl := Except.ok.inj h
        exact makeDirectory_eq_ok hmake
      · split at h
        · exact ensureDirectory_eq_ok h
        · cases h
      · split at h
        · rename_i hdir
          obtain rfl := Except.ok.inj h
          exact hdir
        · cases h

/-- Where there is a directory, nothing is made. -/
theorem ensureDirectories_of_isDirectory (h : fs.isDirectory p = true) :
    fs.ensureDirectories p = .ok fs := by
  obtain ⟨anchor, parts⟩ := p
  rw [ensureDirectories]
  cases hparts : parts.reverse with
  | nil =>
      obtain rfl : parts = [] := by simpa using hparts
      exact ensureDirectory_of_isDirectory h
  | cons name above =>
      have hback : (name :: above).reverse = parts := by rw [← hparts, List.reverse_reverse]
      rw [ensureFrom, hback, makeDirectory_of_isDirectory h]
      exact if_pos h

/-- Directories that were made are there. -/
theorem isDirectory_of_ensureDirectories (h : fs.ensureDirectories p = .ok fs') :
    fs'.isDirectory p = true := by
  have hdir := ensureFrom_eq_ok h
  rwa [List.reverse_reverse] at hdir

end

end Harvest.FileSystem
