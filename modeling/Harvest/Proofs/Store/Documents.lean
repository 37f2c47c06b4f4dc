import Harvest.Store.Documents
import Harvest.Proofs.FileName
import Harvest.Proofs.Files.Write
import Harvest.Proofs.Work

/-!
# The files of results

Which saves give a result a file of its own, and which take the file of an earlier one.
-/

namespace Harvest.DocumentStore

/-! ## Paths of results -/

/-- The path of a result file, by the stem of its name. -/
def pathOf (directory : Path) (stem : List Char) : Path :=
  ⟨directory.anchor, directory.parts ++ [String.ofList stem ++ extension]⟩

theorem toList_file (stem : List Char) :
    (String.ofList stem ++ extension).toList = stem ++ '.' :: ['j', 's', 'o', 'n'] := by
  rw [String.toList_append, String.toList_ofList]
  rfl

theorem file_ne_dots (stem : List Char) : String.ofList stem ++ extension ≠ ".." := by
  intro heq
  have hchars := congrArg (fun s => s.toList.getLast?) heq
  rw [toList_file, List.getLast?_append] at hchars
  have hlast : some 'n' = some '.' := hchars
  revert hlast
  decide

theorem pathOf_injective (directory : Path) : Function.Injective (pathOf directory) := by
  intro stem stem' h
  have hfile : String.ofList stem ++ extension = String.ofList stem' ++ extension := by
    simpa [pathOf] using h
  have hchars := congrArg String.toList hfile
  rw [toList_file, toList_file] at hchars
  exact List.append_cancel_right hchars

theorem outputPath_eq (directory : Path) (name source : String) : ∃ stem, stem ≠ [] ∧
    FileName.outputPath directory name source extension = pathOf directory stem := by
  obtain ⟨stem, hne, hsafe, hbuild⟩ := FileName.exists_stem name source extension
  have hslash : '/' ∉ (String.ofList stem ++ extension).toList := by
    rw [toList_file]
    intro hmem
    rcases List.mem_append.mp hmem with hmem | hmem
    · have hslash := hsafe '/' hmem
      revert hslash
      decide
    · revert hmem
      decide
  have hpart : Path.isPart (String.ofList stem ++ extension).toList = true := by
    rw [toList_file]
    cases stem with
    | nil => exact absurd rfl hne
    | cons c cs => cases cs <;> simp [Path.isPart]
  refine ⟨stem, hne, ?_⟩
  rw [FileName.outputPath, hbuild, Path.ofString_part hslash hpart]
  rfl

theorem tagged_pathOf (directory : Path) {stem : List Char} (h : stem ≠ []) (source : String) :
    tagged (pathOf directory stem) source =
      pathOf directory (stem ++ '_' :: (FileName.tag source).toList) := by
  have hname : (pathOf directory stem).name = String.ofList stem ++ extension := by
    simp [pathOf, Path.name]
  have hlength : Path.stemLength? (stem ++ '.' :: ['j', 's', 'o', 'n']) = some stem.length :=
    Path.stemLength?_append h (by simp) (by decide)
  have hstem : (pathOf directory stem).stem = String.ofList stem := by
    rw [Path.stem, hname, toList_file, hlength]
    simp
  have hsuffix : (pathOf directory stem).suffix = extension := by
    rw [Path.suffix, hname, toList_file, hlength]
    simp
    rfl
  have htag : String.ofList stem ++ "_" ++ FileName.tag source =
      String.ofList (stem ++ '_' :: (FileName.tag source).toList) := by
    rw [← String.toList_inj]
    simp
  rw [tagged, hstem, hsuffix, htag]
  simp [pathOf, Path.withName]

/-- Different result files in a directory are at different places. -/
theorem eq_of_locate {fs : FileSystem} {directory : Path} {stem stem' : List Char} {q : Place}
    (h : fs.locate (pathOf directory stem) = .ok q)
    (h' : fs.locate (pathOf directory stem') = .ok q) :
    pathOf directory stem = pathOf directory stem' := by
  have hlast := FileSystem.getLast?_of_locate (file_ne_dots stem) h
  have hlast' := FileSystem.getLast?_of_locate (file_ne_dots stem') h'
  rw [pathOf, pathOf, Option.some.inj (hlast.symm.trans hlast')]

/-! ## Saving one result after the other -/

/-- A result to be saved. -/
structure Request where
  source : String
  result : Members
  name : Option String

/-- Saves results one after the other; gives those that could be saved, with their paths. -/
def saveAll (s : DocumentStore) : List Request → Work (List (Request × Path) × DocumentStore)
  | [] => return ([], s)
  | r :: rs => do
    let (p, s) ← s.save r.source r.result r.name
    let (made, s) ← s.saveAll rs
    return ((p.map (r, ·)).toList ++ made, s)

/-- The path of a result whose name no other result has. -/
def plainPath (s : DocumentStore) (r : Request) : Path :=
  FileName.outputPath s.directory (FileName.resultName r.source r.name) r.source extension

/-- The path of a result whose name another result has. -/
def taggedPath (s : DocumentStore) (r : Request) : Path := tagged (s.plainPath r) r.source

/-- The path of a result beside used ones. -/
def pathBeside (s : DocumentStore) (used : List Path) (r : Request) : Path :=
  if s.plainPath r ∈ used then s.taggedPath r else s.plainPath r

theorem pathFor_eq (s : DocumentStore) (r : Request) :
    s.pathFor r.source r.name = s.pathBeside s.usedPaths r := by
  rw [pathFor, pathBeside]
  by_cases hused : s.plainPath r ∈ s.usedPaths
  · rw [if_pos hused]
    exact if_pos (List.contains_iff_mem.mpr hused)
  · rw [if_neg hused]
    exact if_neg fun h => hused (List.contains_iff_mem.mp h)

theorem exists_plainPath (s : DocumentStore) (r : Request) :
    ∃ stem, s.plainPath r = pathOf s.directory stem ∧ s.taggedPath r =
      pathOf s.directory (stem ++ '_' :: (FileName.tag r.source).toList) := by
  obtain ⟨stem, hne, hpath⟩ :=
    outputPath_eq s.directory (FileName.resultName r.source r.name) r.source
  refine ⟨stem, hpath, ?_⟩
  rw [taggedPath, plainPath, hpath, tagged_pathOf s.directory hne]

theorem exists_pathBeside (s : DocumentStore) (used : List Path) (r : Request) :
    ∃ stem, s.pathBeside used r = pathOf s.directory stem := by
  obtain ⟨stem, hplain, htagged⟩ := s.exists_plainPath r
  unfold pathBeside
  split
  · exact ⟨_, htagged⟩
  · exact ⟨_, hplain⟩

/-- Two results have the same tagged path just if their plain paths and their tags are the same. -/
theorem taggedPath_inj {s : DocumentStore} {r r' : Request}
    (h : s.taggedPath r = s.taggedPath r') :
    s.plainPath r = s.plainPath r' ∧ FileName.tag r.source = FileName.tag r'.source := by
  obtain ⟨stem, hplain, htagged⟩ := s.exists_plainPath r
  obtain ⟨stem', hplain', htagged'⟩ := s.exists_plainPath r'
  rw [htagged, htagged'] at h
  have hlength : ('_' :: (FileName.tag r.source).toList).length =
      ('_' :: (FileName.tag r'.source).toList).length := by
    rw [List.length_cons, List.length_cons, FileName.length_tag, FileName.length_tag]
  obtain ⟨hstem, htag⟩ := List.append_inj' (pathOf_injective s.directory h) hlength
  rw [hplain, hplain', hstem]
  exact ⟨rfl, String.toList_inj.mp (List.cons_injective htag)⟩

theorem save_cases {s s' : DocumentStore} {r : Request} {p? : Option Path} {w w' : Workplace}
    (h : (s.save r.source r.result r.name).run w = ((p?, s'), w')) :
    (∃ e, p? = none ∧ s' = s ∧ w.files.writeText (s.pathBeside s.usedPaths r) .fresh
        (s.contentOf r.result) = (.error e, w'.files)) ∨
    (p? = some (s.pathBeside s.usedPaths r) ∧
      s' = { s with saved := s.saved ++
        [⟨r.source, s.pathBeside s.usedPaths r, (s.contentOf r.result).length⟩] } ∧
      w.files.writeText (s.pathBeside s.usedPaths r) .fresh (s.contentOf r.result) =
        (.ok (), w'.files)) := by
  rw [save, pathFor_eq, Work.run_bind, Work.run_writeText] at h
  rcases hwrite : w.files.writeText (s.pathBeside s.usedPaths r) .fresh (s.contentOf r.result)
    with ⟨r₁, fs⟩
  rw [hwrite] at h
  cases r₁ with
  | ok u =>
      obtain ⟨rfl, rfl, rfl⟩ := Work.outcome_inj h
      exact Or.inr ⟨rfl, rfl, rfl⟩
  | error e =>
      obtain ⟨rfl, rfl, rfl⟩ := Work.outcome_inj h
      exact Or.inl ⟨e, rfl, rfl, rfl⟩

/-! ## What saving keeps -/

/-- Whether a store and its files stand as saving some results in their order, with the paths given,
leaves them. -/
structure Keeps (s : DocumentStore) (fs : FileSystem) (made : List (Request × Path)) : Prop where
  used : s.usedPaths = made.map (·.2)
  chosen : ∀ earlier q later, made = earlier ++ q :: later →
    q.2 = s.pathBeside (earlier.map (·.2)) q.1
  file : ∀ p q, (made.filter (·.2 = p)).getLast? = some q →
    fs.read p = .ok (s.contentOf q.1.result).toUTF8

theorem split_concat {α : Type} {l front back : List α} {x y : α}
    (h : l ++ [x] = front ++ y :: back) :
    (front = l ∧ y = x ∧ back = []) ∨ ∃ back', l = front ++ y :: back' := by
  rcases List.eq_nil_or_concat back with rfl | ⟨back', z, rfl⟩
  · obtain ⟨hfront, hlast⟩ := List.append_inj' h rfl
    exact Or.inl ⟨hfront.symm, (List.singleton_inj.mp hlast).symm, rfl⟩
  · rw [List.concat_eq_append, ← List.cons_append, ← List.append_assoc] at h
    exact Or.inr ⟨back', (List.append_inj' h rfl).1⟩

section
variable {s s' : DocumentStore} {fs fs' : FileSystem} {w w' : Workplace}
  {made : List (Request × Path)}

theorem Keeps.exists_pathOf (h : s.Keeps fs made) {q : Request × Path} (hq : q ∈ made) :
    ∃ stem, q.2 = pathOf s.directory stem := by
  obtain ⟨earlier, later, hmade⟩ := List.append_of_mem hq
  rw [h.chosen earlier q later hmade]
  exact s.exists_pathBeside _ _

theorem Keeps.of_error (h : s.Keeps fs made) {p : Path} {content : String} {e : FileError}
    (hwrite : fs.writeText p .fresh content = (.error e, fs')) : s.Keeps fs' made := by
  refine ⟨h.used, h.chosen, fun p q hq => ?_⟩
  rw [FileSystem.read_of_error hwrite]
  exact h.file p q hq

theorem Keeps.of_ok (h : s.Keeps fs made) {r : Request}
    (hwrite : fs.writeText (s.pathBeside s.usedPaths r) .fresh (s.contentOf r.result) =
      (.ok (), fs')) :
    Keeps { s with saved := s.saved ++
        [⟨r.source, s.pathBeside s.usedPaths r, (s.contentOf r.result).length⟩] } fs'
      (made ++ [(r, s.pathBeside s.usedPaths r)]) := by
  refine ⟨?_, fun earlier q later hmade => ?_, fun p q hq => ?_⟩
  · rw [List.map_append, ← h.used]
    simp [usedPaths]
  · obtain ⟨rfl, rfl, rfl⟩ | ⟨later', hmade⟩ := split_concat hmade
    · rw [← h.used]
      rfl
    · exact h.chosen earlier q later' hmade
  · rw [List.filter_append] at hq
    by_cases hp : s.pathBeside s.usedPaths r = p
    · -- this save is the last one at the path
      subst hp
      obtain rfl : (r, s.pathBeside s.usedPaths r) = q := by simpa using hq
      exact FileSystem.read_written_fresh hwrite
    · have hlast : (made.filter (·.2 = p)).getLast? = some q := by simpa [hp] using hq
      have hread := h.file p q hlast
      obtain ⟨place, hplace, _⟩ := FileSystem.read_eq_ok_iff.mp hread
      refine FileSystem.read_of_ne hplace (fun hplace' => hp ?_) hwrite hread
      have hmem := List.mem_filter.mp (List.mem_of_getLast? hlast)
      obtain ⟨stem, hstem⟩ := h.exists_pathOf hmem.1
      obtain ⟨stem', hstem'⟩ := s.exists_pathBeside s.usedPaths r
      have hq : q.2 = p := by simpa using hmem.2
      rw [← hq, hstem] at hplace ⊢
      rw [hstem'] at hplace' ⊢
      exact eq_of_locate hplace' hplace

/-- Several saves are the first one and, from the store and the workplace then, the others. -/
theorem saveAll_cons {r : Request} {rs : List Request} {made : List (Request × Path)}
    (h : (s.saveAll (r :: rs)).run w = ((made, s'), w')) : ∃ p? s₁ w₁ rest,
      (s.save r.source r.result r.name).run w = ((p?, s₁), w₁) ∧
      (s₁.saveAll rs).run w₁ = ((rest, s'), w') ∧ made = (p?.map (r, ·)).toList ++ rest := by
  rcases hfirst : (s.save r.source r.result r.name).run w with ⟨⟨p?, s₁⟩, w₁⟩
  rcases hrest : (s₁.saveAll rs).run w₁ with ⟨⟨rest, s₂⟩, w₂⟩
  rw [saveAll, Work.run_bind, hfirst, Work.run_bind, hrest] at h
  obtain ⟨rfl, rfl, rfl⟩ := Work.outcome_inj h
  exact ⟨p?, s₁, w₁, rest, rfl, hrest, rfl⟩

theorem keeps_saveAll {rs : List Request} {made' : List (Request × Path)} (h : s.Keeps w.files made)
    (hsave : (s.saveAll rs).run w = ((made', s'), w')) :
    s'.Keeps w'.files (made ++ made') ∧ s'.directory = s.directory ∧ s'.indent = s.indent ∧
      (made'.map (·.1)).Sublist rs := by
  induction rs generalizing s w made made' with
  | nil =>
      obtain ⟨rfl, rfl, rfl⟩ := Work.outcome_inj hsave
      exact ⟨by simpa using h, rfl, rfl, List.Sublist.refl _⟩
  | cons r rs ih =>
      obtain ⟨p?, s₁, w₁, made₂, hfirst, hrest, rfl⟩ := saveAll_cons hsave
      obtain ⟨e, rfl, rfl, hwrite⟩ | ⟨rfl, rfl, hwrite⟩ := save_cases hfirst
      · obtain ⟨hkeeps, hdirectory, hindent, hsub⟩ := ih (h.of_error hwrite) hrest
        exact ⟨hkeeps, hdirectory, hindent, List.Sublist.cons r hsub⟩
      · obtain ⟨hkeeps, hdirectory, hindent, hsub⟩ := ih (h.of_ok hwrite) hrest
        refine ⟨?_, hdirectory, hindent, List.Sublist.cons_cons r hsub⟩
        rwa [List.append_assoc] at hkeeps

end

/-- Where no mishap comes and no directory is in the way, every save succeeds. -/
theorem map_fst_saveAll {s s' : DocumentStore} {rs : List Request} {w w' : Workplace}
    {made : List (Request × Path)} (hmishaps : w.files.mishaps = [])
    (hfree : ∀ r ∈ rs, w.files.Writable (s.plainPath r) ∧ w.files.Writable (s.taggedPath r))
    (hsave : (s.saveAll rs).run w = ((made, s'), w')) : made.map (·.1) = rs := by
  induction rs generalizing s w made with
  | nil =>
      obtain ⟨rfl, _, _⟩ := Work.outcome_inj hsave
      rfl
  | cons r rs ih =>
      obtain ⟨p?, s₁, w₁, made₂, hfirst, hrest, rfl⟩ := saveAll_cons hsave
      have hwritable : w.files.Writable (s.pathBeside s.usedPaths r) := by
        obtain ⟨hplain, htagged⟩ := hfree r List.mem_cons_self
        unfold pathBeside
        split
        · exact htagged
        · exact hplain
      obtain ⟨fs', hok, hnone⟩ :=
        hwritable.exists_write hmishaps .fresh (s.contentOf r.result).toUTF8
      obtain ⟨e, rfl, rfl, hwrite⟩ | ⟨rfl, rfl, hwrite⟩ := save_cases hfirst
      · rw [FileSystem.writeText, hok] at hwrite
        cases hwrite
      · have hsame := FileSystem.sameDirectories_write hwrite
        rw [FileSystem.writeText, hok] at hwrite
        obtain rfl := (Prod.mk.inj hwrite).2
        have hrs := ih hnone (fun r' hr' => ?_) hrest
        · simpa using hrs
        · obtain ⟨hplain, htagged⟩ := hfree r' (List.mem_cons_of_mem r hr')
          exact ⟨hplain.of_sameDirectories hsame, htagged.of_sameDirectories hsame⟩

/-! ## Collisions -/

/-- Whether a result takes the path of an earlier one: its name is used already, and the tagged name
too, for the same document, which found the name used before, or as the very name of a document. -/
def Collides (s : DocumentStore) (earlier : List (Request × Path)) (r : Request) : Prop :=
  s.plainPath r ∈ earlier.map (·.2) ∧ ∃ q ∈ earlier,
    (q.1.source = r.source ∧ s.plainPath q.1 = s.plainPath r ∧ q.2 ≠ s.plainPath q.1) ∨
      (q.2 = s.plainPath q.1 ∧ s.plainPath q.1 = s.taggedPath r)

theorem nodup_map_iff {α β : Type} {f : α → β} {l : List α} : (l.map f).Nodup ↔
    ∀ front x back, l = front ++ x :: back → f x ∉ front.map f := by
  constructor
  · rintro h front x back rfl hx
    rw [List.map_append, List.map_cons] at h
    exact (List.nodup_append.mp h).2.2 _ hx _ List.mem_cons_self rfl
  · intro h
    induction l using List.reverseRecOn with
    | nil => exact List.nodup_nil
    | append_singleton l x ih =>
        rw [List.map_append, List.nodup_append]
        refine ⟨ih fun front y back hl => h front y (back ++ [x]) (by simp [hl]), by simp, ?_⟩
        rintro a ha b hb rfl
        obtain rfl : a = f x := by simpa using hb
        exact h l x [] rfl ha

theorem mem_paths_iff {s : DocumentStore} {earlier : List (Request × Path)} {r : Request}
    (hchosen : ∀ q ∈ earlier, q.2 = s.plainPath q.1 ∨ q.2 = s.taggedPath q.1)
    (htag : ∀ q ∈ earlier, FileName.tag q.1.source = FileName.tag r.source →
      q.1.source = r.source) :
    s.pathBeside (earlier.map (·.2)) r ∈ earlier.map (·.2) ↔ s.Collides earlier r := by
  by_cases hused : s.plainPath r ∈ earlier.map (·.2)
  swap
  · rw [pathBeside, if_neg hused]
    exact iff_of_false hused fun h => hused h.1
  rw [pathBeside, if_pos hused]
  constructor
  · intro hmem
    obtain ⟨q, hq, hpath⟩ := List.mem_map.mp hmem
    refine ⟨hused, q, hq, ?_⟩
    by_cases hplain : q.2 = s.plainPath q.1
    · exact Or.inr ⟨hplain, hplain.symm.trans hpath⟩
    · have htagged := (hchosen q hq).resolve_left hplain
      obtain ⟨hsame, htags⟩ := taggedPath_inj (htagged.symm.trans hpath)
      exact Or.inl ⟨htag q hq htags, hsame, hplain⟩
  · rintro ⟨_, q, hq, ⟨hsource, hsame, hplain⟩ | ⟨hplain, htagged⟩⟩
    · have hpath := (hchosen q hq).resolve_left hplain
      rw [taggedPath, hsame, hsource] at hpath
      exact List.mem_map.mpr ⟨q, hq, hpath⟩
    · exact List.mem_map.mpr ⟨q, hq, hplain.trans htagged⟩

section
variable {s : DocumentStore} {fs : FileSystem} {made : List (Request × Path)}

theorem Keeps.plain_or_tagged (h : s.Keeps fs made) {q : Request × Path} (hq : q ∈ made) :
    q.2 = s.plainPath q.1 ∨ q.2 = s.taggedPath q.1 := by
  obtain ⟨earlier, later, hmade⟩ := List.append_of_mem hq
  rw [h.chosen earlier q later hmade]
  unfold pathBeside
  split
  · exact Or.inr rfl
  · exact Or.inl rfl

/-- Paths are used twice just if a save collides with earlier ones. -/
theorem Keeps.nodup_iff (h : s.Keeps fs made)
    (htag : ∀ q ∈ made, ∀ q' ∈ made, FileName.tag q.1.source = FileName.tag q'.1.source →
      q.1.source = q'.1.source) :
    (made.map (·.2)).Nodup ↔
      ∀ earlier q later, made = earlier ++ q :: later → ¬ s.Collides earlier q.1 := by
  rw [nodup_map_iff]
  refine forall_congr' fun earlier => forall_congr' fun q => forall_congr' fun later =>
    imp_congr_right fun hmade => not_congr ?_
  have hearlier : ∀ q' ∈ earlier, q' ∈ made := by
    intro q' hq'
    rw [hmade]
    exact List.mem_append_left _ hq'
  have hq : q ∈ made := by simp [hmade]
  rw [h.chosen earlier q later hmade]
  exact mem_paths_iff (fun q' hq' => h.plain_or_tagged (hearlier q' hq'))
    fun q' hq' => htag q' (hearlier q' hq') q hq

theorem Keeps.file_of_nodup (h : s.Keeps fs made) (hnodup : (made.map (·.2)).Nodup)
    {q : Request × Path} (hq : q ∈ made) :
    fs.read q.2 = .ok (s.contentOf q.1.result).toUTF8 := by
  have hmem : q ∈ made.filter (·.2 = q.2) := List.mem_filter.mpr ⟨hq, by simp⟩
  obtain ⟨q', hlast⟩ := Option.ne_none_iff_exists'.mp
    (mt List.getLast?_eq_none_iff.mp (List.ne_nil_of_mem hmem))
  obtain ⟨hq', hpath⟩ := List.mem_filter.mp (List.mem_of_getLast? hlast)
  obtain rfl : q' = q := List.inj_on_of_nodup_map hnodup hq' hq (of_decide_eq_true hpath)
  exact h.file _ q' hlast

end

/-- After whatever saves, the file at a path holds the result that was saved there last.  All paths
differ and every file holds the result of the save that returned its path, just if no save found
both its name and its tagged name used. -/
theorem saveAll_distinct_iff (directory : Path) (indent : Option Int) (rs : List Request)
    (w : Workplace)
    (htag : ∀ r ∈ rs, ∀ r' ∈ rs, FileName.tag r.source = FileName.tag r'.source →
      r.source = r'.source) :
    let s : DocumentStore := { directory, indent }
    let out := (s.saveAll rs).run w
    let made := out.1.1
    (∀ p q, (made.filter (·.2 = p)).getLast? = some q →
        out.2.files.read p = .ok (s.contentOf q.1.result).toUTF8) ∧
      (((made.map (·.2)).Nodup ∧
          ∀ q ∈ made, out.2.files.read q.2 = .ok (s.contentOf q.1.result).toUTF8) ↔
        ∀ earlier q later, made = earlier ++ q :: later → ¬ s.Collides earlier q.1) := by
  intro s out made
  rcases hout : out with ⟨⟨made₁, ⟨directory₁, indent₁, saved₁⟩⟩, w₁⟩
  obtain rfl : made = made₁ := congrArg (·.1.1) hout
  have hstart : s.Keeps w.files [] := ⟨rfl, by simp, by simp⟩
  obtain ⟨hkeeps, rfl, rfl, hsub⟩ := keeps_saveAll hstart hout
  rw [List.nil_append] at hkeeps
  have hmade : ∀ q ∈ made, q.1 ∈ rs := fun q hq => hsub.mem (List.mem_map_of_mem hq)
  have hiff := hkeeps.nodup_iff fun q hq q' hq' => htag q.1 (hmade q hq) q'.1 (hmade q' hq')
  refine ⟨hkeeps.file, ?_, ?_⟩
  · rintro ⟨hnodup, _⟩
    exact hiff.mp hnodup
  · intro hcollides
    have hnodup := hiff.mpr hcollides
    exact ⟨hnodup, fun q hq => hkeeps.file_of_nodup hnodup hq⟩

/-! ## A sample -/

/-- A place with a directory for results. -/
def resultsPlace : Workplace := { files := { here := [], entries := [(["out"], .directory)] } }

def resultsStore : DocumentStore := { directory := Path.ofString "out" }

/-- Three documents; the name of the second one is the tagged name of the third. -/
def crowded : List Request :=
  [⟨"a.html", [("v", .str "1")], some "x"⟩, ⟨"b.html", [("v", .str "2")], some "x_9c7c8220"⟩,
    ⟨"c.html", [("v", .str "3")], some "x"⟩]

theorem tags_crowded : ∀ r ∈ crowded, ∀ r' ∈ crowded,
    FileName.tag r.source = FileName.tag r'.source → r.source = r'.source := by
  decide +kernel

/-- A file in the directory for results. -/
def inResults (name : String) : Path := ⟨.relative, ["out", name]⟩

theorem writable_inResults {name : String} (hzero : '\x00' ∉ name.toList)
    (hsize : name.utf8ByteSize ≤ FileSystem.maxNameBytes) (hdots : name ≠ "..") :
    resultsPlace.files.Writable (inResults name) := by
  have hout : "out".toList.contains '\x00' = false := by decide
  have hparts : (["out", name].any fun part => part.contains '\x00') = false := by
    simp [String.contains_char_eq, hzero]
  have hwalk : resultsPlace.files.walk [] ["out", name] = .ok ["out", name] := by
    have hroot : resultsPlace.files.needDirectory [] = .ok () := rfl
    have hdirectory : resultsPlace.files.needDirectory ["out"] = .ok () := rfl
    have hshort : ¬ FileSystem.maxNameBytes < "out".utf8ByteSize := by decide
    have hstep : Path.walk [] "out" = ["out"] := rfl
    have hstep' : Path.walk ["out"] name = ["out", name] := by simp [Path.walk, hdots]
    simp only [FileSystem.walk, hroot, if_neg hshort, hstep, hdirectory,
      if_neg (Nat.not_lt.mpr hsize), hstep']
  refine ⟨["out", name], ?_, ?_⟩
  · rw [FileSystem.locate, if_neg (by simpa [inResults] using hparts)]
    exact congrArg (Except.mapError _) hwalk
  · have hfree : resultsPlace.files.at? ["out", name] = none := rfl
    simp [hfree]

/-- The names that the documents can be saved by. -/
def crowdedNames : List String :=
  ["x.json", "x_b244432e.json", "x_9c7c8220.json", "x_9c7c8220_73fea24b.json"]

theorem writable_crowded {r : Request} (hr : r ∈ crowded) :
    resultsPlace.files.Writable (resultsStore.plainPath r) ∧
      resultsPlace.files.Writable (resultsStore.taggedPath r) := by
  have hnames : ∀ name ∈ crowdedNames, '\x00' ∉ name.toList ∧
      name.utf8ByteSize ≤ FileSystem.maxNameBytes ∧ name ≠ ".." := by
    decide +kernel
  have hpaths : ∀ r ∈ crowded, resultsStore.plainPath r ∈ crowdedNames.map inResults ∧
      resultsStore.taggedPath r ∈ crowdedNames.map inResults := by
    decide +kernel
  have hwritable : ∀ p ∈ crowdedNames.map inResults, resultsPlace.files.Writable p := by
    intro p hp
    obtain ⟨name, hname, rfl⟩ := List.mem_map.mp hp
    obtain ⟨hzero, hsize, hdots⟩ := hnames name hname
    exact writable_inResults hzero hsize hdots
  obtain ⟨hplain, htagged⟩ := hpaths r hr
  exact ⟨hwritable _ hplain, hwritable _ htagged⟩

theorem run_crowded : ((resultsStore.saveAll crowded).run resultsPlace).1.1 =
    crowded.zip [inResults "x.json", inResults "x_9c7c8220.json", inResults "x_9c7c8220.json"] := by
  rcases hrun : (resultsStore.saveAll crowded).run resultsPlace with ⟨⟨made, ⟨_, _, _⟩⟩, w⟩
  have hstart : resultsStore.Keeps resultsPlace.files [] := ⟨rfl, by simp, by simp⟩
  obtain ⟨hkeeps, rfl, rfl, _⟩ := keeps_saveAll hstart hrun
  have hmap := map_fst_saveAll rfl (fun r hr => writable_crowded hr) hrun
  obtain ⟨⟨r₁, p₁⟩, _, rfl, rfl, hmap₁⟩ := List.map_eq_cons_iff.mp hmap
  obtain ⟨⟨r₂, p₂⟩, _, rfl, rfl, hmap₂⟩ := List.map_eq_cons_iff.mp hmap₁
  obtain ⟨⟨r₃, p₃⟩, _, rfl, rfl, hmap₃⟩ := List.map_eq_cons_iff.mp hmap₂
  obtain rfl := List.map_eq_nil_iff.mp hmap₃
  have hbeside : resultsStore.pathBeside [] crowded[0] = inResults "x.json" ∧
      resultsStore.pathBeside [inResults "x.json"] crowded[1] = inResults "x_9c7c8220.json" ∧
      resultsStore.pathBeside [inResults "x.json", inResults "x_9c7c8220.json"] crowded[2] =
        inResults "x_9c7c8220.json" := by
    decide +kernel
  obtain rfl : p₁ = inResults "x.json" := (hkeeps.chosen [] _ _ rfl).trans hbeside.1
  obtain rfl : p₂ = inResults "x_9c7c8220.json" := (hkeeps.chosen [_] _ _ rfl).trans hbeside.2.1
  obtain rfl : p₃ = inResults "x_9c7c8220.json" := (hkeeps.chosen [_, _] _ _ rfl).trans hbeside.2.2
  rfl

theorem saveAll_distinct_iff_crowded :
    (∀ r ∈ crowded, ∀ r' ∈ crowded, FileName.tag r.source = FileName.tag r'.source →
      r.source = r'.source) ∧
    let out := (resultsStore.saveAll crowded).run resultsPlace
    (∀ p q, (out.1.1.filter (·.2 = p)).getLast? = some q →
        out.2.files.read p = .ok (resultsStore.contentOf q.1.result).toUTF8) ∧
      (((out.1.1.map (·.2)).Nodup ∧ ∀ q ∈ out.1.1,
          out.2.files.read q.2 = .ok (resultsStore.contentOf q.1.result).toUTF8) ↔
        ∀ earlier q later, out.1.1 = earlier ++ q :: later →
          ¬ resultsStore.Collides earlier q.1) :=
  ⟨tags_crowded, saveAll_distinct_iff _ _ crowded resultsPlace tags_crowded⟩

/-- The result of the third document replaces that of the second. -/
theorem saveAll_overwrites :
    (∀ r ∈ crowded, ∀ r' ∈ crowded, FileName.tag r.source = FileName.tag r'.source →
      r.source = r'.source) ∧
    let out := (resultsStore.saveAll crowded).run resultsPlace
    out.1.1.map (·.2) =
        [inResults "x.json", inResults "x_9c7c8220.json", inResults "x_9c7c8220.json"] ∧
      out.2.files.read (inResults "x_9c7c8220.json") =
        .ok (resultsStore.contentOf [("v", .str "3")]).toUTF8 ∧
      out.2.files.read (inResults "x_9c7c8220.json") ≠
        .ok (resultsStore.contentOf [("v", .str "2")]).toUTF8 := by
  refine ⟨tags_crowded, ?_⟩
  intro out
  have hmade : out.1.1 = _ := run_crowded
  rcases hout : out with ⟨⟨made, ⟨_, _, _⟩⟩, w⟩
  have hstart : resultsStore.Keeps resultsPlace.files [] := ⟨rfl, by simp, by simp⟩
  obtain ⟨hkeeps, rfl, rfl, _⟩ := keeps_saveAll hstart hout
  obtain rfl : made = _ := (congrArg (·.1.1) hout).symm.trans hmade
  have hread : w.files.read (inResults "x_9c7c8220.json") =
      .ok (resultsStore.contentOf [("v", .str "3")]).toUTF8 :=
    hkeeps.file _ (crowded[2], inResults "x_9c7c8220.json") (by simp [crowded, inResults])
  refine ⟨rfl, hread, ?_⟩
  change w.files.read _ ≠ _
  rw [hread]
  intro heq
  have hcontent : resultsStore.contentOf [("v", .str "3")] =
      resultsStore.contentOf [("v", .str "2")] :=
    String.toByteArray_inj.mp (Except.ok.inj heq)
  revert hcontent
  decide +kernel

end Harvest.DocumentStore
