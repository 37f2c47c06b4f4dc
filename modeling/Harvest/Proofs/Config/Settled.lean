import Harvest.Proofs.Config.Documents
import Harvest.Proofs.Files.Glob

/-!
# Documents that were found already

The documents of items are found once and for all: their paths are absolute and no patterns, so
looking for the documents of what was found finds the same again.
-/

namespace Harvest

variable {homes : Homes} {base p p' : Path} {fs : FileSystem} {here : Place}
  {text text' file : String} {source source' : SchemaSource} {i j r : Item}
  {items js found : List Item}

namespace Path

theorem join_of_isAbsolute (h : p.isAbsolute = true) : base.join p = p := if_pos h

theorem isAbsolute_join (h : base.isAbsolute = true) : (base.join p).isAbsolute = true := by
  unfold join
  split
  · assumption
  · exact h

theorem Proper.expandHome (hp : p.Proper) (h : p.expandHome homes = .ok p') : p'.Proper := by
  unfold Path.expandHome at h
  split at h
  · rename_i part parts hanchor hparts
    split at h
    · split at h
      · rename_i home hhome
        obtain rfl := Except.ok.inj h
        refine (proper_ofString home).join fun q hq => hp q ?_
        rw [hparts]
        exact List.mem_cons_of_mem part hq
      · cases h
    · obtain rfl := Except.ok.inj h
      exact hp
  · obtain rfl := Except.ok.inj h
    exact hp

theorem expandHome_of_isAbsolute (h : p.isAbsolute = true) : p.expandHome homes = .ok p := by
  unfold expandHome
  split
  · rename_i hanchor hparts
    rw [isAbsolute, hanchor] at h
    cases h
  · rfl

/-- A path with wildcards has a first part with one. -/
theorem exists_first_sign (h : ¬ p.IsPlain) : ∃ front part back, p.parts = front ++ part :: back ∧
    (∀ q ∈ front, Wildcard.hasSigns q = false) ∧ Wildcard.hasSigns part = true := by
  obtain ⟨part, hfind⟩ : ∃ part, p.parts.find? Wildcard.hasSigns = some part := by
    rw [← Option.isSome_iff_exists, List.find?_isSome]
    simpa [IsPlain] using h
  obtain ⟨hpart, front, back, hparts, hfront⟩ := List.find?_eq_some_iff_append.mp hfind
  exact ⟨front, part, back, hparts, fun q hq => by simpa using hfront q hq, hpart⟩

end Path

namespace Item

/-! ## Paths that were seen from a directory -/

theorem isWritten_resolvePath (habsolute : base.isAbsolute = true) (hbase : base.Proper)
    (h : resolvePath homes base text = .ok text') : Path.IsWritten text' := by
  unfold resolvePath at h
  split at h
  · rename_i q hq
    have hproper := (Path.proper_ofString text).expandHome hq
    exact ⟨_, hbase.join hproper, Path.isAbsolute_join habsolute, Except.ok.inj h⟩
  · cases h

theorem resolvePath_of_isWritten (h : Path.IsWritten text) :
    resolvePath homes base text = .ok text := by
  obtain ⟨q, hq, habsolute, rfl⟩ := h
  rw [resolvePath, Path.ofString_toString hq, Path.expandHome_of_isAbsolute habsolute]
  exact congrArg (Except.ok ·.toString) (Path.join_of_isAbsolute habsolute)

theorem resolveSchema_again (habsolute : base.isAbsolute = true) (hbase : base.Proper)
    (h : resolveSchema homes base source = .ok source') :
    resolveSchema homes base source' = .ok source' := by
  cases source with
  | inline members =>
      obtain rfl := Except.ok.inj h
      rfl
  | named name =>
      rw [resolveSchema] at h
      split at h
      · rename_i haddress
        obtain rfl := Except.ok.inj h
        rw [resolveSchema, if_pos haddress]
      · cases hpath : resolvePath homes base name with
        | error e =>
            rw [hpath] at h
            cases h
        | ok text =>
            rw [hpath] at h
            obtain rfl := Except.ok.inj h
            have hwritten := isWritten_resolvePath habsolute hbase hpath
            rw [resolveSchema, resolvePath_of_isWritten hwritten]
            exact ite_self _

theorem resolve_eq_self (hpath : Path.IsWritten i.path)
    (hschema : resolveSchema homes base i.schema = .ok i.schema) :
    resolve homes base i = .ok i := by
  rw [resolve, hschema, resolvePath_of_isWritten hpath]

/-! ## What was found -/

/-- An item stays itself or gives way to the files that fit its pattern. -/
theorem mem_expand_cases (hjs : expand fs r = .ok js) (hj : j ∈ js) :
    (r.isPattern = false ∧ j = r) ∨
      (r.isPattern = true ∧ ∃ file ∈ (Glob.ofString r.path).files fs, j = r.ofFile file) := by
  unfold expand at hjs
  split at hjs
  · rename_i hpattern
    obtain rfl := Except.ok.inj hjs
    exact Or.inl ⟨by simpa using hpattern, List.mem_singleton.mp hj⟩
  · rename_i hpattern
    dsimp only at hjs
    split at hjs
    · cases hjs
    · obtain rfl := Except.ok.inj hjs
      obtain ⟨file, hfile, rfl⟩ := List.mem_map.mp hj
      exact Or.inr ⟨by simpa using hpattern, file, hfile, rfl⟩

theorem isWritten_of_mem_files (hfs : fs.Named) (htext : Path.IsWritten text)
    (hpattern : Wildcard.hasSigns text = true) (hfile : file ∈ (Glob.ofString text).files fs) :
    Path.IsWritten file := by
  obtain ⟨⟨anchor, parts⟩, hq, habsolute, rfl⟩ := htext
  have hplain : ¬ Path.IsPlain ⟨anchor, parts⟩ := by
    intro hplain
    rw [hplain.hasSigns_toString] at hpattern
    cases hpattern
  obtain ⟨front, part, back, rfl, hfront, hpart⟩ := Path.exists_first_sign hplain
  refine Glob.isWritten_files hfs hq ?_ hfront hpart hfile
  rintro rfl
  cases habsolute

/-- What an item becomes stays as it is, seen from the directory once more. -/
theorem resolve_of_mem_expand (habsolute : base.isAbsolute = true) (hbase : base.Proper)
    (hfs : fs.Named) (hr : resolve homes base i = .ok r) (hjs : expand fs r = .ok js)
    (hj : j ∈ js) : resolve homes base j = .ok j := by
  obtain ⟨schema, path, hschema, hpath, rfl⟩ := resolve_eq_ok hr
  have hwritten := isWritten_resolvePath habsolute hbase hpath
  have hsame := resolveSchema_again habsolute hbase hschema
  obtain ⟨_, rfl⟩ | ⟨hpattern, file, hfile, rfl⟩ := mem_expand_cases hjs hj
  · exact resolve_eq_self hwritten hsame
  · exact resolve_eq_self (isWritten_of_mem_files hfs hwritten hpattern hfile) hsame

theorem nodup_dropSeen (seen : List (Place × String)) :
    ((dropSeen here seen items).map (identity here)).Nodup := by
  induction items generalizing seen with
  | nil => exact List.nodup_nil
  | cons i items ih =>
      rw [dropSeen]
      split
      · exact ih seen
      · rw [List.map_cons, List.nodup_cons]
        refine ⟨fun h => ?_, ih _⟩
        obtain ⟨j, hj, hsame⟩ := List.mem_map.mp h
        exact (mem_dropSeen_iff.mp hj).1 (hsame ▸ List.mem_cons_self)

/-- Seen from an absolute directory, the documents of items are found once and for all: if no file
that fits a pattern has a wildcard in its path, looking for the documents of what was found gives
the same again, and no two items of it name the same place with the same schema. -/
theorem documents_again (habsolute : base.isAbsolute = true) (hbase : base.Proper) (hfs : fs.Named)
    (hplain : ∀ i ∈ items, ∀ r, i.resolve homes base = .ok r → r.isPattern = true →
      ∀ file ∈ (Glob.ofString r.path).files fs, Wildcard.hasSigns file = false)
    (h : documents homes base fs items = .ok found) :
    documents homes base fs found = .ok found ∧ (found.map (identity fs.here)).Nodup := by
  obtain ⟨candidates, hcandidates, hwhole, rfl⟩ := documents_eq_ok_iff.mp h
  have hnodup : ((dropSeen fs.here [] candidates).map (identity fs.here)).Nodup :=
    nodup_dropSeen []
  refine ⟨documents_of_plain (fun j hj => ?_) hnodup, hnodup⟩
  have hmem := List.mem_of_find?_eq_some (mem_dropSeen_iff.mp hj).2
  obtain ⟨i, hi, r, hr, js, hjs, hj⟩ := (mem_candidates hcandidates).mp hmem
  refine ⟨resolve_of_mem_expand habsolute hbase hfs hr hjs hj, ?_, hwhole j hmem⟩
  obtain ⟨hpattern, rfl⟩ | ⟨hpattern, file, hfile, rfl⟩ := mem_expand_cases hjs hj
  · exact hpattern
  · exact hplain i hi r hr hpattern file hfile

/-! ### A page that is found twice -/

/-- A directory with one page. -/
def libraryFiles : FileSystem :=
  { here := []
    entries := [(["lib"], .directory), (["lib", "a.html"], .file "<p>1</p>".toUTF8)] }

/-- A pattern that the page fits, and the page itself. -/
def libraryItems : List Item :=
  [{ path := "*.html", schema := .named "schema" },
    { path := "a.html", schema := .named "/lib/schema" }]

def libraryPage : Item := { path := "/lib/a.html", schema := .named "/lib/schema" }

theorem files_library : (Glob.ofString "/lib/*.html").files libraryFiles = ["/lib/a.html"] := by
  have hglob : Glob.ofString "/lib/*.html" =
      ⟨"/lib", [.wild false (Wildcard.ofString "*.html")]⟩ := by
    cbv
  have hsearch : Glob.search libraryFiles [.wild false (Wildcard.ofString "*.html")] "/lib" =
      ["/lib/a.html"] := by
    cbv
  have hfile : libraryFiles.isFile (Path.ofString "/lib/a.html") = true := by cbv
  rw [hglob, Glob.files, hsearch]
  simp [hfile]

/-- The directory of the library. -/
def library : Path := Path.ofString "/lib"

/-- The items, seen from the directory. -/
def libraryResolved : List Item :=
  [{ path := "/lib/*.html", schema := .named "/lib/schema" }, libraryPage]

theorem resolveSchema_library {name : String} (hname : name = "schema" ∨ name = "/lib/schema") :
    resolveSchema { own := "/" } library (.named name) = .ok (.named "/lib/schema") := by
  have haddress : SchemaSource.isAddress name = false := by
    rcases hname with rfl | rfl <;> decide +kernel
  have hpath : resolvePath { own := "/" } library name = .ok "/lib/schema" := by
    rcases hname with rfl | rfl <;> decide +kernel
  rw [resolveSchema, if_neg (by simp [haddress]), hpath]
  rfl

theorem resolveAll_library :
    resolveAll { own := "/" } library libraryItems = .ok libraryResolved := by
  have hpattern : resolvePath { own := "/" } library "*.html" = .ok "/lib/*.html" := by
    decide +kernel
  have hpage : resolvePath { own := "/" } library "a.html" = .ok "/lib/a.html" := by
    decide +kernel
  have hschema := resolveSchema_library (Or.inl rfl)
  have hsame := resolveSchema_library (Or.inr rfl)
  simp [resolveAll, resolve, libraryItems, hpattern, hpage, hschema, hsame, libraryResolved,
    libraryPage]

theorem documents_library :
    documents { own := "/" } library libraryFiles libraryItems = .ok [libraryPage] := by
  have hexpand : expandAll libraryFiles libraryResolved = .ok [libraryPage, libraryPage] := by
    have hbase : (Path.ofString (Glob.ofString "/lib/*.html").base).isBroken = false := by cbv
    have hpattern : Wildcard.hasSigns "/lib/*.html" = true := by decide
    have hpage : Wildcard.hasSigns "/lib/a.html" = false := by decide
    simp [expandAll, expand, libraryResolved, libraryPage, isPattern, hpattern, hpage, hbase,
      files_library, ofFile]
  rw [documents_eq_ok_iff, candidates?, resolveAll_library]
  refine ⟨_, hexpand, ?_, ?_⟩
  · have hwhole : (Path.ofString libraryPage.path).isBroken = false := by cbv
    simp [hwhole]
  · have hsame : dropSeen libraryFiles.here [] [libraryPage, libraryPage] = [libraryPage] := by
      simp [dropSeen]
    exact hsame.symm

theorem hasSigns_library : ∀ i ∈ libraryItems, ∀ r, i.resolve { own := "/" } library = .ok r →
    r.isPattern = true → ∀ file ∈ (Glob.ofString r.path).files libraryFiles,
      Wildcard.hasSigns file = false := by
  intro i hi r hr hpattern file hfile
  have hmem := (mem_resolveAll resolveAll_library).mpr ⟨i, hi, hr⟩
  rcases List.mem_pair.mp hmem with rfl | rfl
  · rw [files_library, List.mem_singleton] at hfile
    rw [hfile]
    decide
  · have hpage : libraryPage.isPattern = false := by decide
    rw [hpage] at hpattern
    cases hpattern

theorem documents_again_library :
    library.isAbsolute = true ∧ library.Proper ∧ libraryFiles.Named ∧
      (∀ i ∈ libraryItems, ∀ r, i.resolve { own := "/" } library = .ok r → r.isPattern = true →
        ∀ file ∈ (Glob.ofString r.path).files libraryFiles, Wildcard.hasSigns file = false) ∧
      documents { own := "/" } library libraryFiles libraryItems = .ok [libraryPage] ∧
      documents { own := "/" } library libraryFiles [libraryPage] = .ok [libraryPage] ∧
      ([libraryPage].map (identity libraryFiles.here)).Nodup := by
  have habsolute : library.isAbsolute = true := by cbv
  have hproper : library.Proper := Path.proper_ofString "/lib"
  have hnamed : libraryFiles.Named := by
    have hnames : ∀ name ∈ ["lib", "a.html"],
        Path.isPart name.toList = true ∧ '/' ∉ name.toList := by
      decide
    intro e he name hname
    have hmem : name ∈ ["lib", "a.html"] := by
      rcases List.mem_pair.mp he with rfl | rfl
      · exact List.mem_append_left ["a.html"] hname
      · exact hname
    exact ⟨(hnames name hmem).1, (hnames name hmem).2⟩
  exact ⟨habsolute, hproper, hnamed, hasSigns_library, documents_library,
    documents_again habsolute hproper hnamed hasSigns_library documents_library⟩

end Item

end Harvest
