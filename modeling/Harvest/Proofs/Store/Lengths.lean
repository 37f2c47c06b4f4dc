import Harvest.Proofs.Store.Documents

/-!
# The lengths of result files' names

A name is cut before it is compared with the used ones.  The tag that tells it apart from them comes
behind the cut, and nothing cuts the name again.
-/

namespace Harvest.DocumentStore

/-- The name that a result goes by. -/
def Request.resultName (r : Request) : String := FileName.resultName r.source r.name

/-- The number of characters in the safe form of a result's name. -/
def Request.safeLength (r : Request) : Nat :=
  (FileName.sanitizeChars FileName.maxLength r.resultName.toList).length

/-- What comes behind the name of a result that another result has. -/
def Request.ending (r : Request) : String := "_" ++ FileName.tag r.source ++ extension

theorem length_name_pathOf (directory : Path) (stem : List Char) :
    (pathOf directory stem).name.length = stem.length + 5 := by
  have hname : (pathOf directory stem).name = String.ofList stem ++ extension := by
    simp [pathOf, Path.name]
  rw [hname, ← String.length_toList, toList_file, List.length_append]
  rfl

theorem length_ending (r : Request) : r.ending.length = 14 := by
  have htag : (FileName.tag r.source).length = 8 := FileName.length_tag r.source
  rw [Request.ending, String.length_append, String.length_append, htag]
  rfl

section
variable (s : DocumentStore) (used : List Path) (r : Request)

theorem plainPath_eq : s.plainPath r = ⟨s.directory.anchor,
    s.directory.parts ++ [FileName.build r.resultName r.source extension]⟩ := by
  have hall : extension.toList.all FileName.isSafe = true := rfl
  exact FileName.outputPath_child (by decide) (List.all_eq_true.mp hall) s.directory
    r.resultName r.source

theorem length_name_plainPath :
    (s.plainPath r).name.length = min (r.safeLength + 5) FileName.maxLength := by
  have hname : (s.plainPath r).name = FileName.build r.resultName r.source extension := by
    rw [plainPath_eq, Path.name, List.getLast?_concat]
    rfl
  rw [hname, FileName.length_build (by decide)]
  rfl

/-- The tag makes a name longer by nine characters, however long it is. -/
theorem length_name_taggedPath :
    (s.taggedPath r).name.length = (s.plainPath r).name.length + 9 := by
  obtain ⟨stem, hplain, htagged⟩ := s.exists_plainPath r
  rw [hplain, htagged, length_name_pathOf, length_name_pathOf, List.length_append, List.length_cons,
    FileName.length_tag]

theorem length_name_pathBeside : (s.pathBeside used r).name.length =
    min (r.safeLength + 5) FileName.maxLength + if s.plainPath r ∈ used then 9 else 0 := by
  unfold pathBeside
  by_cases hused : s.plainPath r ∈ used
  · rw [if_pos hused, if_pos hused, length_name_taggedPath, length_name_plainPath]
  · rw [if_neg hused, if_neg hused, Nat.add_zero, length_name_plainPath]

theorem length_name_pathBeside_le_iff :
    (s.pathBeside used r).name.length ≤ FileName.maxLength ↔
      (s.plainPath r ∈ used → FileName.Fits r.resultName r.ending) := by
  have hfits : FileName.Fits r.resultName r.ending ↔ r.safeLength + 14 ≤ FileName.maxLength := by
    rw [FileName.Fits, length_ending]
    rfl
  rw [length_name_pathBeside, hfits]
  by_cases hused : s.plainPath r ∈ used
  · have hmax : FileName.maxLength = 120 := rfl
    rw [if_pos hused, hmax]
    constructor
    · intro hle _
      omega
    · intro hroom
      have hroom := hroom hused
      omega
  · rw [if_neg hused, Nat.add_zero]
    exact iff_of_true (min_le_right _ _) fun h => absurd h hused

end

/-- After whatever saves, the file name of a result has the characters of its safe form and of the
extension, cut to the most there may be, and nine more where an earlier result has that name.  So it
is too long just if an earlier result has the name and the name leaves no room for a tag. -/
theorem saveAll_name_length (directory : Path) (indent : Option Int) (rs : List Request)
    (w : Workplace) :
    let s : DocumentStore := { directory, indent }
    let made := ((s.saveAll rs).run w).1.1
    ∀ earlier q later, made = earlier ++ q :: later →
      q.2.name.length = min (q.1.safeLength + 5) FileName.maxLength +
          (if s.plainPath q.1 ∈ earlier.map (·.2) then 9 else 0) ∧
        (q.2.name.length ≤ FileName.maxLength ↔
          (s.plainPath q.1 ∈ earlier.map (·.2) →
            FileName.Fits q.1.resultName q.1.ending)) := by
  intro s made earlier q later hsplit
  rcases hout : (s.saveAll rs).run w with ⟨⟨made₁, ⟨directory₁, indent₁, saved₁⟩⟩, w₁⟩
  obtain rfl : made = made₁ := congrArg (·.1.1) hout
  have hstart : s.Keeps w.files [] := ⟨rfl, by simp, by simp⟩
  obtain ⟨hkeeps, rfl, rfl, _⟩ := keeps_saveAll hstart hout
  rw [List.nil_append] at hkeeps
  rw [hkeeps.chosen earlier q later hsplit]
  exact ⟨length_name_pathBeside s _ q.1, length_name_pathBeside_le_iff s _ q.1⟩

/-! ## Two results of one long name -/

theorem utf8Size_of_isSafe {c : Char} (h : FileName.isSafe c = true) : c.utf8Size = 1 := by
  rw [Char.utf8Size_eq_one_iff, UInt32.le_iff_toNat_le]
  simp only [FileName.isSafe, Text.isAsciiAlphanumeric, Bool.or_eq_true, Bool.and_eq_true,
    Nat.ble_eq, beq_iff_eq] at h
  change c.toNat ≤ 127
  obtain ((((h | h) | h) | rfl) | rfl) | rfl := h
  · omega
  · omega
  · omega
  all_goals decide

theorem utf8Len_of_safe {cs : List Char} (h : ∀ c ∈ cs, FileName.isSafe c = true) :
    String.utf8Len cs = cs.length := by
  induction cs with
  | nil => rfl
  | cons c cs ih =>
      rw [String.utf8Len_cons, List.length_cons, utf8Size_of_isSafe (h c List.mem_cons_self),
        ih fun c hc => h c (List.mem_cons_of_mem _ hc)]

theorem writable_pathOf {stem : List Char} (hsafe : ∀ c ∈ stem, FileName.isSafe c = true)
    (hlength : stem.length + 5 ≤ FileSystem.maxNameBytes) :
    resultsPlace.files.Writable (pathOf resultsStore.directory stem) := by
  have hall : ∀ c ∈ stem ++ '.' :: ['j', 's', 'o', 'n'], FileName.isSafe c = true := by
    have hending : ('.' :: ['j', 's', 'o', 'n']).all FileName.isSafe = true := rfl
    intro c hc
    exact (List.mem_append.mp hc).elim (hsafe c) (List.all_eq_true.mp hending c)
  refine writable_inResults ?_ ?_ (file_ne_dots stem)
  · rw [toList_file]
    intro hzero
    exact absurd (hall _ hzero) (by decide)
  · rw [← String.ofList_toList (s := String.ofList stem ++ extension), toList_file,
      String.utf8ByteSize_ofList, utf8Len_of_safe hall, List.length_append]
    exact hlength

/-- Every result can be saved. -/
theorem writable_results (r : Request) : resultsPlace.files.Writable (resultsStore.plainPath r) ∧
    resultsPlace.files.Writable (resultsStore.taggedPath r) := by
  obtain ⟨stem, hne, hsafe, hbuild⟩ := FileName.exists_stem r.resultName r.source extension
  have hplain : resultsStore.plainPath r = pathOf resultsStore.directory stem := by
    rw [plainPath_eq, hbuild]
    rfl
  have hlength : stem.length + 5 ≤ FileName.maxLength := by
    rw [← length_name_pathOf resultsStore.directory, ← hplain, length_name_plainPath]
    exact min_le_right _ _
  have hmax : FileName.maxLength = 120 ∧ FileSystem.maxNameBytes = 255 := ⟨rfl, rfl⟩
  rw [taggedPath, hplain, tagged_pathOf _ hne]
  refine ⟨writable_pathOf hsafe (by omega), writable_pathOf ?_ ?_⟩
  · intro c hc
    rcases List.mem_append.mp hc with hc | hc
    · exact hsafe c hc
    · rcases List.mem_cons.mp hc with rfl | hc
      · rfl
      · exact FileName.isSafe_of_mem_tag hc
  · rw [List.length_append, List.length_cons, FileName.length_tag]
    omega

/-- A name that leaves just the room for the extension. -/
def longName : String := String.ofList (List.replicate 115 'x')

/-- A document whose result goes by the long name. -/
def namesake (source : String) : Request := ⟨source, [], some longName⟩

theorem resultName_namesake (source : String) : (namesake source).resultName = longName := by
  have hname : longName.isEmpty = false := by decide +kernel
  rw [Request.resultName, namesake, FileName.resultName_some, hname]
  rfl

theorem safeLength_namesake (source : String) : (namesake source).safeLength = 115 := by
  rw [Request.safeLength, resultName_namesake]
  decide +kernel

theorem plainPath_namesake (source source' : String) :
    resultsStore.plainPath (namesake source) = resultsStore.plainPath (namesake source') := by
  have hfits : FileName.Fits longName extension := by
    unfold FileName.Fits
    decide +kernel
  rw [plainPath_eq, plainPath_eq, resultName_namesake, resultName_namesake,
    FileName.build_of_fits hfits, FileName.build_of_fits hfits]

/-- Two documents whose results go by the long name. -/
def namesakes : List Request := [namesake "a.html", namesake "b.html"]

/-- The second result finds its name used. -/
theorem run_namesakes : ((resultsStore.saveAll namesakes).run resultsPlace).1.1 =
    [(namesake "a.html", resultsStore.plainPath (namesake "a.html")),
      (namesake "b.html", resultsStore.taggedPath (namesake "b.html"))] := by
  rcases hrun : (resultsStore.saveAll namesakes).run resultsPlace with ⟨⟨made, ⟨_, _, _⟩⟩, w⟩
  have hstart : resultsStore.Keeps resultsPlace.files [] := ⟨rfl, by simp, by simp⟩
  obtain ⟨hkeeps, rfl, rfl, _⟩ := keeps_saveAll hstart hrun
  have hmap := map_fst_saveAll rfl (fun r _ => writable_results r) hrun
  obtain ⟨⟨r₁, p₁⟩, _, rfl, rfl, hmap₁⟩ := List.map_eq_cons_iff.mp hmap
  obtain ⟨⟨r₂, p₂⟩, _, rfl, rfl, hmap₂⟩ := List.map_eq_cons_iff.mp hmap₁
  obtain rfl := List.map_eq_nil_iff.mp hmap₂
  have hfirst : p₁ = resultsStore.pathBeside [] (namesake "a.html") := hkeeps.chosen [] _ _ rfl
  rw [pathBeside, if_neg List.not_mem_nil] at hfirst
  have hsecond : p₂ = resultsStore.pathBeside [p₁] (namesake "b.html") :=
    hkeeps.chosen [_] _ _ rfl
  have hused : resultsStore.plainPath (namesake "b.html") ∈ [p₁] := by
    rw [List.mem_singleton, hfirst, plainPath_namesake]
  rw [pathBeside, if_pos hused] at hsecond
  rw [hfirst, hsecond]

theorem saveAll_name_length_namesakes :
    let made := ((resultsStore.saveAll namesakes).run resultsPlace).1.1
    let first := (namesake "a.html", resultsStore.plainPath (namesake "a.html"))
    let second := (namesake "b.html", resultsStore.taggedPath (namesake "b.html"))
    made = [first] ++ second :: [] ∧
      second.2.name.length = min (second.1.safeLength + 5) FileName.maxLength +
        (if resultsStore.plainPath second.1 ∈ [first].map (·.2) then 9 else 0) ∧
      (second.2.name.length ≤ FileName.maxLength ↔
        (resultsStore.plainPath second.1 ∈ [first].map (·.2) →
          FileName.Fits second.1.resultName second.1.ending)) := by
  intro made first second
  have hmade : made = [first] ++ second :: [] := by
    rw [List.singleton_append]
    exact run_namesakes
  have hstore : { directory := resultsStore.directory, indent := resultsStore.indent } =
      resultsStore := rfl
  have hlength := saveAll_name_length resultsStore.directory resultsStore.indent namesakes
    resultsPlace
  rw [hstore] at hlength
  exact ⟨hmade, hlength [first] second [] hmade⟩

/-- The file of the second result has a name of 129 characters. -/
theorem saveAll_name_too_long : ∃ q ∈ ((resultsStore.saveAll namesakes).run resultsPlace).1.1,
    ¬ q.2.name.length ≤ FileName.maxLength := by
  refine ⟨(namesake "b.html", resultsStore.taggedPath (namesake "b.html")), ?_, ?_⟩
  · rw [run_namesakes]
    exact List.mem_cons_of_mem _ List.mem_cons_self
  · rw [length_name_taggedPath, length_name_plainPath, safeLength_namesake]
    decide

end Harvest.DocumentStore
