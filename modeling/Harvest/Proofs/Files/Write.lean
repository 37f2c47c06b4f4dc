import Harvest.Files.System
import Mathlib

/-!
# Writing files

A file that is written holds what was written, no other file changes, and no path leads to another
place than before.  Where writing fails, everything stays as it is.
-/

namespace Harvest.FileSystem

/-! ## Places -/

section
variable {fs : FileSystem} {place q : Place} {s : Stored}

theorem at?_put_self (h : place ≠ []) : (fs.put place s).at? place = some s := by
  simp [at?, put, h]

theorem lookup_filter_ne (entries : List (Place × Stored)) (h : q ≠ place) :
    (entries.filter fun e => e.1 != place).lookup q = entries.lookup q := by
  induction entries with
  | nil => rfl
  | cons e es ih =>
      obtain ⟨r, s⟩ := e
      by_cases hr : r = place
      · subst hr
        have hq : (q == r) = false := by simpa using h
        simp [List.lookup_cons, hq, ih]
      · simp [List.lookup_cons, hr, ih]

theorem at?_put_of_ne (h : q ≠ place) : (fs.put place s).at? q = fs.at? q := by
  have hq : (q == place) = false := by simpa using h
  simp [at?, put, List.lookup_cons, hq, lookup_filter_ne _ h]

theorem needDirectory_eq_ok_iff : fs.needDirectory q = .ok () ↔ fs.at? q = some .directory := by
  unfold needDirectory
  split <;> simp_all

end

/-! ## Paths -/

/-- Two file systems with the same directories, seen from the same one. -/
def SameDirectories (fs fs' : FileSystem) : Prop :=
  fs'.here = fs.here ∧ ∀ q, fs'.at? q = some .directory ↔ fs.at? q = some .directory

section
variable {fs fs' : FileSystem}

theorem SameDirectories.put {place : Place} (h : fs.at? place ≠ some .directory)
    (content : ByteArray) : SameDirectories fs (fs.put place (.file content)) := by
  refine ⟨rfl, fun q => ?_⟩
  by_cases hq : q = place
  · subst hq
    have hne : q ≠ [] := by
      rintro rfl
      exact h rfl
    simp [at?_put_self hne, h]
  · rw [at?_put_of_ne hq]

section
variable (hdirs : ∀ q, fs.at? q = some .directory → fs'.at? q = some .directory)
include hdirs

theorem walk_eq_ok_of_directories {q r : Place} {parts : List String}
    (hwalk : fs.walk q parts = .ok r) : fs'.walk q parts = .ok r := by
  induction parts generalizing q with
  | nil => exact hwalk
  | cons part parts ih =>
      rw [walk] at hwalk ⊢
      have hdir : fs.needDirectory q = .ok () := by
        cases hn : fs.needDirectory q with
        | error t => simp [hn] at hwalk
        | ok u => rfl
      have hdir' : fs'.needDirectory q = .ok () :=
        needDirectory_eq_ok_iff.mpr (hdirs q (needDirectory_eq_ok_iff.mp hdir))
      simp only [hdir, hdir'] at hwalk ⊢
      split at hwalk
      · cases hwalk
      · rename_i hshort
        rw [if_neg hshort]
        exact ih hwalk

/-- A path leads where it has led, where all directories are still there. -/
theorem locate_eq_ok_of_directories (hhere : fs'.here = fs.here) {p : Path} {q : Place}
    (hp : fs.locate p = .ok q) : fs'.locate p = .ok q := by
  rw [locate] at hp ⊢
  split at hp
  · cases hp
  · rename_i hzero
    rw [if_neg hzero, hhere]
    cases hwalk : fs.walk (if p.isAbsolute then [] else fs.here) p.parts with
    | error t => simp [hwalk, Except.mapError] at hp
    | ok r =>
        rw [walk_eq_ok_of_directories hdirs hwalk]
        simpa [hwalk, Except.mapError] using hp

end

theorem SameDirectories.locate_eq_ok (h : SameDirectories fs fs') {p : Path} {q : Place}
    (hp : fs.locate p = .ok q) : fs'.locate p = .ok q :=
  locate_eq_ok_of_directories (fun q => (h.2 q).mpr) h.1 hp

theorem SameDirectories.refl (fs : FileSystem) : SameDirectories fs fs := ⟨rfl, fun _ => Iff.rfl⟩

theorem SameDirectories.symm (h : SameDirectories fs fs') : SameDirectories fs' fs :=
  ⟨h.1.symm, fun q => (h.2 q).symm⟩

theorem SameDirectories.trans {fs'' : FileSystem} (h : SameDirectories fs fs')
    (h' : SameDirectories fs' fs'') : SameDirectories fs fs'' :=
  ⟨h'.1.trans h.1, fun q => (h'.2 q).trans (h.2 q)⟩

theorem SameDirectories.locate_eq_ok_iff (h : SameDirectories fs fs') {p : Path} {q : Place} :
    fs'.locate p = .ok q ↔ fs.locate p = .ok q :=
  ⟨h.symm.locate_eq_ok, h.locate_eq_ok⟩

end

/-- A path leads to a place of the same name. -/
theorem getLast?_of_walk {fs : FileSystem} {q r : Place} {parts : List String} {part : String}
    (hpart : part ≠ "..") (h : fs.walk q (parts ++ [part]) = .ok r) : r.getLast? = some part := by
  induction parts generalizing q with
  | nil =>
      rw [List.nil_append, walk] at h
      split at h
      · cases h
      · split at h
        · cases h
        · obtain rfl := Except.ok.inj h
          simp [Path.walk, hpart]
  | cons d parts ih =>
      rw [List.cons_append, walk] at h
      split at h
      · cases h
      · split at h
        · cases h
        · exact ih h

theorem getLast?_of_locate {fs : FileSystem} {anchor : Anchor} {parts : List String}
    {part : String} {q : Place} (hpart : part ≠ "..")
    (h : fs.locate ⟨anchor, parts ++ [part]⟩ = .ok q) : q.getLast? = some part := by
  rw [locate] at h
  split at h
  · cases h
  · cases hwalk : fs.walk (if (⟨anchor, parts ++ [part]⟩ : Path).isAbsolute then [] else fs.here)
        (parts ++ [part]) with
    | error t => simp [hwalk, Except.mapError] at h
    | ok r =>
        rw [hwalk] at h
        obtain rfl := Except.ok.inj h
        exact getLast?_of_walk hpart hwalk

/-- A name leads to what is below the working directory. -/
theorem locate_name {fs : FileSystem} {name : String}
    (hhere : fs.at? fs.here = some .directory) (hshort : name.utf8ByteSize ≤ maxNameBytes)
    (hzero : '\x00' ∉ name.toList) (hdots : name ≠ "..") :
    fs.locate ⟨.relative, [name]⟩ = .ok (fs.here ++ [name]) := by
  have hdir := needDirectory_eq_ok_iff.mpr hhere
  have hcontains : [name].any (·.contains '\x00') = false := by simpa using hzero
  have hwalk : fs.walk fs.here [name] = .ok (fs.here ++ [name]) := by
    rw [walk, hdir]
    simp [Nat.not_lt.mpr hshort, walk, Path.walk, hdots]
  have hrelative : (⟨.relative, [name]⟩ : Path).isAbsolute = false := rfl
  rw [locate, hcontains, hrelative]
  simp [hwalk, Except.mapError]

theorem find_eq_ok_iff {fs : FileSystem} {p : Path} {s : Stored} :
    fs.find p = .ok s ↔ ∃ q, fs.locate p = .ok q ∧ fs.at? q = some s := by
  unfold find
  cases hp : fs.locate p with
  | error e => simp
  | ok q => cases hq : fs.at? q <;> simp [hq]

theorem read_eq_ok_iff {fs : FileSystem} {p : Path} {content : ByteArray} :
    fs.read p = .ok content ↔ ∃ q, fs.locate p = .ok q ∧ fs.at? q = some (.file content) := by
  rw [← find_eq_ok_iff]
  unfold read
  split <;> simp_all

theorem readLossyText_eq_ok_iff {fs : FileSystem} {p : Path} {s : String} :
    fs.readLossyText p = .ok s ↔ ∃ q content, fs.locate p = .ok q ∧
      fs.at? q = some (.file content) ∧ Text.unifyLines (Text.readLossy content) = s := by
  have hread : fs.readLossyText p = .ok s ↔
      ∃ content, fs.read p = .ok content ∧ Text.unifyLines (Text.readLossy content) = s := by
    rw [readLossyText]
    cases fs.read p <;> simp [Except.map]
  simp only [hread, read_eq_ok_iff]
  constructor
  · rintro ⟨content, ⟨q, hq, hat⟩, htext⟩
    exact ⟨q, content, hq, hat, htext⟩
  · rintro ⟨q, content, hq, hat, htext⟩
    exact ⟨content, ⟨q, hq, hat⟩, htext⟩

/-- A path that leads nowhere is either broken or meets with trouble; which of them does not depend
on the files. -/
theorem isTrouble_of_locate {fs : FileSystem} {p : Path} {e : FileError}
    (h : fs.locate p = .error e) : e.isTrouble = !p.parts.any (·.contains '\x00') := by
  rw [locate] at h
  split at h
  · rename_i hzero
    obtain rfl := Except.error.inj h
    rw [hzero]
    rfl
  · rename_i hzero
    rw [Bool.eq_false_iff.mpr hzero]
    cases hwalk : fs.walk (if p.isAbsolute then [] else fs.here) p.parts with
    | ok q => simp [hwalk, Except.mapError] at h
    | error t =>
        rw [hwalk] at h
        obtain rfl := Except.error.inj h
        rfl

/-- Where the directories are the same, and what a path leads to, reading there comes to the same,
but that the trouble with a path that leads nowhere may be another one. -/
theorem SameDirectories.read_cases {fs fs' : FileSystem} (h : SameDirectories fs fs') {p : Path}
    (hat : ∀ q, fs.locate p = .ok q → fs'.at? q = fs.at? q) :
    fs'.read p = fs.read p ∨ ∃ e e', fs.read p = .error e ∧ fs'.read p = .error e' ∧
      e'.isTrouble = e.isTrouble := by
  cases hp : fs.locate p with
  | ok q =>
      refine Or.inl ?_
      rw [read, read, find, find, hp, h.locate_eq_ok hp]
      dsimp only
      rw [hat q hp]
  | error e =>
      cases hp' : fs'.locate p with
      | ok q =>
          rw [h.locate_eq_ok_iff, hp] at hp'
          cases hp'
      | error e' =>
          refine Or.inr ⟨e, e', ?_, ?_, ?_⟩
          · rw [read, find, hp]
          · rw [read, find, hp']
          · rw [isTrouble_of_locate hp, isTrouble_of_locate hp']

/-! ## Mishaps -/

/-- The file system before other mishaps. -/
def facing (fs : FileSystem) (mishaps : List (Option FileTrouble)) : FileSystem :=
  { fs with mishaps }

section
variable (fs : FileSystem) (mishaps : List (Option FileTrouble))

@[simp] theorem at?_facing : (fs.facing mishaps).at? = fs.at? := rfl

theorem walk_facing (q : Place) (parts : List String) :
    (fs.facing mishaps).walk q parts = fs.walk q parts := by
  induction parts generalizing q with
  | nil => rfl
  | cons part parts ih =>
      have hdir : (fs.facing mishaps).needDirectory q = fs.needDirectory q := rfl
      simp only [walk, hdir, ih]

@[simp] theorem locate_facing : (fs.facing mishaps).locate = fs.locate := by
  funext p
  have hhere : (fs.facing mishaps).here = fs.here := rfl
  simp only [locate, walk_facing, hhere]

@[simp] theorem read_facing : (fs.facing mishaps).read = fs.read := by
  funext p
  simp only [read, find, locate_facing, at?_facing]

end

/-! ## Writing -/

section
variable {fs fs' : FileSystem} {p : Path} {opening : Opening} {content : ByteArray}

theorem place_eq_ok (h : fs.place p opening content = .ok fs') :
    ∃ q, fs.locate p = .ok q ∧ fs.at? q ≠ some .directory ∧
      fs' = fs.put q (.file (written opening content (fs.at? q))) := by
  unfold place at h
  cases hp : fs.locate p with
  | error e => simp [hp] at h
  | ok q =>
      simp only [hp] at h
      split at h
      · cases h
      · rename_i hdir
        exact ⟨q, rfl, hdir, (Except.ok.inj h).symm⟩

/-- A mishap or a path that leads to no file leaves all files as they are; otherwise exactly the
file that the path leads to changes. -/
theorem write_cases {r : Except FileError Unit} (h : fs.write p opening content = (r, fs')) :
    (∃ e, r = .error e ∧ fs' = fs.facing fs.mishaps.tail) ∨
    (∃ q, r = .ok () ∧ fs.locate p = .ok q ∧ fs.at? q ≠ some .directory ∧
      fs' = (fs.facing fs.mishaps.tail).put q (.file (written opening content (fs.at? q)))) := by
  unfold write at h
  split at h
  · obtain ⟨rfl, rfl⟩ := Prod.mk.inj h
    exact Or.inl ⟨_, rfl, rfl⟩
  · dsimp only at h
    split at h
    · rename_i fs₁ hplace
      obtain ⟨rfl, rfl⟩ := Prod.mk.inj h
      obtain ⟨q, hp, hdir, rfl⟩ := place_eq_ok hplace
      have hlocate := congrFun (fs.locate_facing fs.mishaps.tail) p
      exact Or.inr ⟨q, rfl, hlocate.symm.trans hp, hdir, rfl⟩
    · obtain ⟨rfl, rfl⟩ := Prod.mk.inj h
      exact Or.inl ⟨_, rfl, rfl⟩

theorem SameDirectories.facing (mishaps : List (Option FileTrouble)) :
    SameDirectories fs (fs.facing mishaps) := ⟨rfl, fun _ => Iff.rfl⟩

theorem sameDirectories_write {r : Except FileError Unit}
    (h : fs.write p opening content = (r, fs')) : SameDirectories fs fs' := by
  obtain ⟨e, _, rfl⟩ | ⟨q, _, _, hdir, rfl⟩ := write_cases h
  · exact SameDirectories.facing _
  · exact SameDirectories.put hdir _

/-- Whether a path leads to a place with no directory. -/
def Writable (fs : FileSystem) (p : Path) : Prop :=
  ∃ q, fs.locate p = .ok q ∧ fs.at? q ≠ some .directory

theorem writable_facing (mishaps : List (Option FileTrouble)) :
    (fs.facing mishaps).Writable p ↔ fs.Writable p := by
  simp [Writable]

theorem Writable.of_sameDirectories (h : fs.Writable p) (hsame : SameDirectories fs fs') :
    fs'.Writable p := by
  obtain ⟨q, hp, hdir⟩ := h
  exact ⟨q, hsame.locate_eq_ok hp, mt (hsame.2 q).mp hdir⟩

theorem exists_place_iff : (∃ fs', fs.place p opening content = .ok fs') ↔ fs.Writable p := by
  constructor
  · rintro ⟨fs', h⟩
    obtain ⟨q, hp, hdir, _⟩ := place_eq_ok h
    exact ⟨q, hp, hdir⟩
  · rintro ⟨q, hp, hdir⟩
    rw [place, hp]
    dsimp only
    split
    · rename_i heq
      exact absurd heq hdir
    · exact ⟨_, rfl⟩

/-- A file is written just if its path leads to a place with no directory and no mishap is next. -/
theorem write_ok_iff : (fs.write p opening content).1 = .ok () ↔
    fs.Writable p ∧ fs.mishaps.head?.join = none := by
  have hplace := @exists_place_iff (fs.facing fs.mishaps.tail) p opening content
  rw [writable_facing] at hplace
  rw [← hplace, write]
  split
  · rename_i hmishaps
    simp [hmishaps]
  · rename_i hnext
    have hnone : fs.mishaps.head?.join = none := by
      rcases hmishaps : fs.mishaps with _ | ⟨_ | t, rest⟩
      · rfl
      · rfl
      · exact absurd hmishaps (hnext t rest)
    cases hput : (fs.facing fs.mishaps.tail).place p opening content with
    | ok fs₁ => simp_all [facing]
    | error e => simp_all [facing]

theorem mishaps_write {r : Except FileError Unit} (h : fs.write p opening content = (r, fs')) :
    fs'.mishaps = fs.mishaps.tail := by
  obtain ⟨e, _, rfl⟩ | ⟨q, _, _, _, rfl⟩ := write_cases h <;> rfl

/-- Without mishaps every such path can be written. -/
theorem Writable.exists_write (h : fs.Writable p) (hmishaps : fs.mishaps = [])
    (opening : Opening) (content : ByteArray) :
    ∃ fs', fs.write p opening content = (.ok (), fs') ∧ fs'.mishaps = [] := by
  rcases hwrite : fs.write p opening content with ⟨r, fs'⟩
  have hok : (fs.write p opening content).1 = .ok () := write_ok_iff.mpr ⟨h, by simp [hmishaps]⟩
  rw [hwrite] at hok
  obtain rfl : r = .ok () := hok
  refine ⟨fs', rfl, ?_⟩
  rw [mishaps_write hwrite, hmishaps]
  rfl

/-- What a path leads to after a file was written, if it led to a place before. -/
theorem read_of_locate {q : Place} (hp : fs.locate p = .ok q) :
    fs.read p = .ok content ↔ fs.at? q = some (.file content) := by
  rw [read_eq_ok_iff]
  constructor
  · rintro ⟨r, hr, hcontent⟩
    obtain rfl : q = r := Except.ok.inj (hp.symm.trans hr)
    exact hcontent
  · intro hcontent
    exact ⟨q, hp, hcontent⟩

theorem ne_nil_of_at? {q : Place} (h : fs.at? q ≠ some .directory) : q ≠ [] := by
  rintro rfl
  exact h rfl

/-- The file that is written can be read. -/
theorem read_written (h : fs.write p opening content = (.ok (), fs')) :
    ∃ q, fs.locate p = .ok q ∧ fs'.read p = .ok (written opening content (fs.at? q)) := by
  have hsame := sameDirectories_write h
  obtain ⟨e, he, _⟩ | ⟨q, _, hp, hdir, rfl⟩ := write_cases h
  · cases he
  · refine ⟨q, hp, (read_of_locate (hsame.locate_eq_ok hp)).mpr ?_⟩
    exact at?_put_self (ne_nil_of_at? hdir)

theorem read_written_fresh (h : fs.write p .fresh content = (.ok (), fs')) :
    fs'.read p = .ok content := by
  obtain ⟨q, _, hread⟩ := read_written h
  rw [hread]
  unfold written
  split <;> rfl

theorem read_written_behind {before : ByteArray} (hbefore : fs.read p = .ok before)
    (h : fs.write p .behind content = (.ok (), fs')) : fs'.read p = .ok (before ++ content) := by
  obtain ⟨q, hp, hread⟩ := read_written h
  rw [hread, (read_of_locate hp).mp hbefore]
  rfl

/-- A file at another place is still there. -/
theorem read_of_ne {p' : Path} {q : Place} {before : ByteArray} (hp : fs.locate p = .ok q)
    (hp' : fs.locate p' ≠ .ok q) {r : Except FileError Unit}
    (h : fs.write p' opening content = (r, fs')) (hbefore : fs.read p = .ok before) :
    fs'.read p = .ok before := by
  have hsame := sameDirectories_write h
  rw [read_of_locate hp] at hbefore
  rw [read_of_locate (hsame.locate_eq_ok hp)]
  obtain ⟨e, _, rfl⟩ | ⟨q', _, hq', _, rfl⟩ := write_cases h
  · exact hbefore
  · have hne : q ≠ q' := by
      rintro rfl
      exact hp' hq'
    rw [at?_put_of_ne hne]
    exact hbefore

theorem read_of_error {e : FileError} (h : fs.write p opening content = (.error e, fs')) :
    fs'.read = fs.read := by
  obtain ⟨_, _, rfl⟩ | ⟨q, hok, _⟩ := write_cases h
  · exact read_facing fs _
  · cases hok

end

end Harvest.FileSystem
