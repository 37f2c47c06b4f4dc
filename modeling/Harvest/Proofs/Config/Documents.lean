import Harvest.Config.Documents
import Harvest.Proofs.Batch.Schemas
import Harvest.Proofs.Files.Write
import Harvest.Proofs.Text.Utf8

/-!
# What becomes of the documents of a configuration

Paths are seen from the directory of the configuration, patterns give way to files, and of what says
the same only the first stays.  A document that an item names is therefore lost in two ways: its
path has become a pattern, because the directory has a wildcard in its name, or an item in front of
it looks the same and stands for nothing.
-/

namespace Harvest

/-! ## Paths -/

namespace FileSystem

variable {fs : FileSystem}

theorem foldl_of_walk {q r : Place} {parts : List String} (h : fs.walk q parts = .ok r) :
    parts.foldl Path.walk q = r := by
  induction parts generalizing q with
  | nil => exact Except.ok.inj h
  | cons part parts ih =>
      rw [walk] at h
      split at h
      · cases h
      · split at h
        · cases h
        · exact ih h

/-- A path that leads somewhere leads to the place that it names without its dots. -/
theorem resolveFrom_of_locate {p : Path} {q : Place} (h : fs.locate p = .ok q) :
    Path.resolveFrom fs.here p = q := by
  rw [locate] at h
  split at h
  · cases h
  · cases hwalk : fs.walk (if p.isAbsolute then [] else fs.here) p.parts with
    | error t => simp [hwalk, Except.mapError] at h
    | ok r =>
        rw [hwalk] at h
        obtain rfl := Except.ok.inj h
        exact foldl_of_walk hwalk

theorem isBroken_of_locate {p : Path} {q : Place} (h : fs.locate p = .ok q) :
    p.isBroken = false := by
  rw [locate] at h
  split at h
  · cases h
  · rename_i hzero
    simpa [Path.isBroken] using hzero

theorem locate_of_isFile {p : Path} (h : fs.isFile p = true) : ∃ q, fs.locate p = .ok q := by
  unfold isFile at h
  split at h
  · rename_i hfind
    obtain ⟨q, hq, _⟩ := find_eq_ok_iff.mp hfind
    exact ⟨q, hq⟩
  · cases h

end FileSystem

/-! ## Wildcards in paths -/

namespace Path

theorem mem_of_mem_splitSlashes {cs piece : List Char} {c : Char} (hpiece : piece ∈ splitSlashes cs)
    (hc : c ∈ piece) : c ∈ cs := by
  induction cs generalizing piece with
  | nil =>
      obtain rfl := List.mem_singleton.mp hpiece
      exact hc
  | cons d cs ih =>
      unfold splitSlashes at hpiece
      split at hpiece
      · cases ‹_ :: _ = []›
      · rename_i heq
        obtain ⟨rfl, rfl⟩ := List.cons.inj heq
        rcases List.mem_cons.mp hpiece with rfl | hpiece
        · cases hc
        · exact List.mem_cons_of_mem _ (ih hpiece hc)
      · rename_i heq
        obtain ⟨rfl, rfl⟩ := List.cons.inj heq
        split at hpiece
        · rename_i p ps hsplit
          rcases List.mem_cons.mp hpiece with rfl | hpiece
          · rcases List.mem_cons.mp hc with rfl | hc
            · exact List.mem_cons_self
            · exact List.mem_cons_of_mem _ (ih (by simp [hsplit]) hc)
          · exact List.mem_cons_of_mem _ (ih (by simp [hsplit, hpiece]) hc)
        · obtain rfl := List.mem_singleton.mp hpiece
          obtain rfl := List.mem_singleton.mp hc
          exact List.mem_cons_self

/-- Whether no part of the path has a wildcard. -/
def IsPlain (p : Path) : Prop := ∀ part ∈ p.parts, Wildcard.hasSigns part = false

theorem isPlain_ofString {s : String} (h : Wildcard.hasSigns s = false) : (ofString s).IsPlain := by
  intro part hpart
  obtain ⟨piece, hpiece, rfl⟩ := List.mem_map.mp hpart
  rw [Wildcard.hasSigns, List.any_eq_false] at h ⊢
  intro c hc
  rw [String.toList_ofList] at hc
  exact h c (mem_of_mem_splitSlashes (List.mem_of_mem_filter hpiece) hc)

theorem IsPlain.join {base p : Path} (hbase : base.IsPlain) (hp : p.IsPlain) :
    (base.join p).IsPlain := by
  rw [Path.join]
  split
  · exact hp
  · intro part hpart
    rcases List.mem_append.mp hpart with hpart | hpart
    · exact hbase part hpart
    · exact hp part hpart

theorem mem_intercalate {sep : List Char} {pieces : List (List Char)} {c : Char}
    (h : c ∈ sep.intercalate pieces) : c ∈ sep ∨ ∃ piece ∈ pieces, c ∈ piece := by
  induction pieces with
  | nil => exact absurd h (List.not_mem_nil)
  | cons piece pieces ih =>
      by_cases hnil : pieces = []
      · subst hnil
        exact Or.inr ⟨piece, by simp, by simpa using h⟩
      · rw [List.intercalate_cons_of_ne_nil hnil, List.mem_append, List.mem_append] at h
        rcases h with (h | h) | h
        · exact Or.inr ⟨piece, List.mem_cons_self, h⟩
        · exact Or.inl h
        · exact (ih h).imp_right fun ⟨q, hq, hc⟩ => ⟨q, List.mem_cons_of_mem _ hq, hc⟩

theorem IsPlain.hasSigns_toString {p : Path} (h : p.IsPlain) :
    Wildcard.hasSigns p.toString = false := by
  have hparts : Wildcard.hasSigns (p.anchor.text ++ String.intercalate "/" p.parts) = false := by
    rw [Wildcard.hasSigns, List.any_eq_false]
    intro c hc
    rw [String.toList_append, List.mem_append, String.toList_intercalate] at hc
    rcases hc with hc | hc
    · cases hanchor : p.anchor with
      | relative =>
          rw [hanchor] at hc
          exact absurd hc (List.not_mem_nil)
      | root =>
          rw [hanchor] at hc
          obtain rfl := List.mem_singleton.mp hc
          decide
      | doubleRoot =>
          rw [hanchor] at hc
          rcases List.mem_pair.mp hc with rfl | rfl <;> decide
    · obtain hc | ⟨piece, hpiece, hc⟩ := mem_intercalate hc
      · obtain rfl := List.mem_singleton.mp hc
        decide
      · obtain ⟨part, hpart, rfl⟩ := List.mem_map.mp hpiece
        have hplain := h part hpart
        rw [Wildcard.hasSigns, List.any_eq_false] at hplain
        exact hplain c hc
  rw [Path.toString]
  split
  · decide
  · exact hparts

end Path

/-- Whether no home has a wildcard in its path. -/
def Homes.IsPlain (homes : Homes) : Prop :=
  ∀ part home, homes.find? part = some home → Wildcard.hasSigns home = false

namespace Item

theorem isPlain_expandHome {homes : Homes} (hhomes : homes.IsPlain) {p p' : Path} (hp : p.IsPlain)
    (h : p.expandHome homes = .ok p') : p'.IsPlain := by
  unfold Path.expandHome at h
  split at h
  · rename_i part parts hanchor hparts
    split at h
    · split at h
      · rename_i home hfind
        obtain rfl := Except.ok.inj h
        refine (Path.isPlain_ofString (hhomes part home hfind)).join fun q hq => hp q ?_
        rw [hparts]
        exact List.mem_cons_of_mem _ hq
      · cases h
    · obtain rfl := Except.ok.inj h
      exact hp
  · obtain rfl := Except.ok.inj h
    exact hp

variable {homes : Homes} {base : Path} {fs : FileSystem} {here : Place}
  {i j k r : Item} {items resolved candidates : List Item}

theorem resolve_eq_ok (h : resolve homes base i = .ok r) :
    ∃ schema path, resolveSchema homes base i.schema = .ok schema ∧
      resolvePath homes base i.path = .ok path ∧ r = { i with path, schema } := by
  unfold resolve at h
  split at h
  · rename_i schema path hschema hpath
    exact ⟨schema, path, hschema, hpath, (Except.ok.inj h).symm⟩
  · cases h
  · cases h

/-- A path without wildcards is none afterwards, seen from a directory without wildcards. -/
theorem isPattern_resolve (hhomes : homes.IsPlain) (hbase : base.IsPlain) (hi : i.isPattern = false)
    (h : resolve homes base i = .ok r) : r.isPattern = false := by
  obtain ⟨schema, path, _, hpath, rfl⟩ := resolve_eq_ok h
  rw [resolvePath] at hpath
  split at hpath
  · rename_i p hp
    obtain rfl := Except.ok.inj hpath
    have hplain := isPlain_expandHome hhomes (Path.isPlain_ofString hi) hp
    exact (hbase.join hplain).hasSigns_toString
  · cases hpath

/-! ## The candidates -/

theorem resolveAll_cons_eq_ok_iff : resolveAll homes base (i :: items) = .ok resolved ↔
    ∃ r rs, resolve homes base i = .ok r ∧ resolveAll homes base items = .ok rs ∧
      resolved = r :: rs := by
  rw [resolveAll]
  cases resolve homes base i <;> cases resolveAll homes base items <;> simp [eq_comm]

theorem expandAll_cons_eq_ok_iff : expandAll fs (i :: items) = .ok candidates ↔
    ∃ js ks, expand fs i = .ok js ∧ expandAll fs items = .ok ks ∧ candidates = js ++ ks := by
  rw [expandAll]
  cases expand fs i <;> cases expandAll fs items <;> simp [eq_comm]

theorem mem_resolveAll (h : resolveAll homes base items = .ok resolved) :
    r ∈ resolved ↔ ∃ i ∈ items, resolve homes base i = .ok r := by
  induction items generalizing resolved with
  | nil =>
      obtain rfl := Except.ok.inj h
      simp
  | cons i items ih =>
      obtain ⟨r', rs, hr', hrs, rfl⟩ := resolveAll_cons_eq_ok_iff.mp h
      simp [ih hrs, hr', eq_comm]

theorem mem_expandAll (h : expandAll fs items = .ok candidates) :
    j ∈ candidates ↔ ∃ i ∈ items, ∃ js, expand fs i = .ok js ∧ j ∈ js := by
  induction items generalizing candidates with
  | nil =>
      obtain rfl := Except.ok.inj h
      simp
  | cons i items ih =>
      obtain ⟨js, ks, hjs, hks, rfl⟩ := expandAll_cons_eq_ok_iff.mp h
      simp [ih hks, hjs]

theorem exists_resolveAll_iff : (∃ resolved, resolveAll homes base items = .ok resolved) ↔
    ∀ i ∈ items, ∃ r, resolve homes base i = .ok r := by
  induction items with
  | nil => simp [resolveAll]
  | cons i items ih => simp [resolveAll_cons_eq_ok_iff, ← ih]

theorem exists_expandAll_iff : (∃ candidates, expandAll fs items = .ok candidates) ↔
    ∀ i ∈ items, ∃ js, expand fs i = .ok js := by
  induction items with
  | nil => simp [expandAll]
  | cons i items ih => simp [expandAll_cons_eq_ok_iff, ← ih]

/-- The items that the items of a configuration become before any is dropped. -/
def candidates? (homes : Homes) (base : Path) (fs : FileSystem) (items : List Item) :
    Except PathError (List Item) :=
  match resolveAll homes base items with
  | .ok resolved => expandAll fs resolved
  | .error e => .error e

theorem dedupe_eq_ok_iff {here : Place} {found : List Item} : dedupe here items = .ok found ↔
    (∀ i ∈ items, (Path.ofString i.path).isBroken = false) ∧ found = dropSeen here [] items := by
  rw [dedupe]
  by_cases hbroken : items.any (fun i => (Path.ofString i.path).isBroken) = true
  · obtain ⟨i, hi, hibroken⟩ := List.any_eq_true.mp hbroken
    rw [if_pos hbroken]
    simp only [reduceCtorEq, false_iff]
    rintro ⟨hwhole, _⟩
    rw [hwhole i hi] at hibroken
    cases hibroken
  · have hwhole := List.any_eq_false.mp (Bool.eq_false_iff.mpr hbroken)
    simp only [Bool.not_eq_true] at hwhole
    rw [if_neg hbroken, Except.ok.injEq, eq_comm]
    exact (and_iff_right hwhole).symm

theorem documents_eq_ok_iff {found : List Item} : documents homes base fs items = .ok found ↔
    ∃ candidates, candidates? homes base fs items = .ok candidates ∧
      (∀ j ∈ candidates, (Path.ofString j.path).isBroken = false) ∧
      found = dropSeen fs.here [] candidates := by
  rw [documents, candidates?]
  cases resolveAll homes base items with
  | error e => simp
  | ok resolved =>
      dsimp only
      cases expandAll fs resolved with
      | error e => simp
      | ok candidates =>
          simp only [Except.ok.injEq, exists_eq_left']
          exact dedupe_eq_ok_iff

theorem exists_candidates_iff :
    (∃ candidates, candidates? homes base fs items = .ok candidates) ↔
      ∀ i ∈ items, ∃ r, resolve homes base i = .ok r ∧ ∃ js, expand fs r = .ok js := by
  constructor
  · rintro ⟨candidates, h⟩ i hi
    unfold candidates? at h
    split at h
    · rename_i resolved hresolved
      obtain ⟨r, hr⟩ := exists_resolveAll_iff.mp ⟨resolved, hresolved⟩ i hi
      have hmem := (mem_resolveAll hresolved).mpr ⟨i, hi, hr⟩
      exact ⟨r, hr, exists_expandAll_iff.mp ⟨candidates, h⟩ r hmem⟩
    · cases h
  · intro h
    obtain ⟨resolved, hresolved⟩ := exists_resolveAll_iff.mpr fun i hi =>
      (h i hi).imp fun r hr => hr.1
    rw [candidates?, hresolved]
    refine exists_expandAll_iff.mpr fun r hr => ?_
    obtain ⟨i, hi, hir⟩ := (mem_resolveAll hresolved).mp hr
    obtain ⟨r', hr', hjs⟩ := h i hi
    obtain rfl := Except.ok.inj (hir.symm.trans hr')
    exact hjs

theorem mem_candidates (h : candidates? homes base fs items = .ok candidates) :
    j ∈ candidates ↔ ∃ i ∈ items, ∃ r, resolve homes base i = .ok r ∧
      ∃ js, expand fs r = .ok js ∧ j ∈ js := by
  unfold candidates? at h
  split at h
  · rename_i resolved hresolved
    rw [mem_expandAll h]
    simp only [mem_resolveAll hresolved]
    constructor
    · rintro ⟨r, ⟨i, hi, hr⟩, hjs⟩
      exact ⟨i, hi, r, hr, hjs⟩
    · rintro ⟨i, hi, r, hr, hjs⟩
      exact ⟨r, ⟨i, hi, hr⟩, hjs⟩
  · cases h

theorem expand_of_not_isPattern (hr : r.isPattern = false) : expand fs r = .ok [r] := by
  simp [expand, hr]

/-- The path in which a character zero would break the search for the documents of an item. -/
def searched (r : Item) : Path :=
  if r.isPattern then Path.ofString (Glob.ofString r.path).base else Path.ofString r.path

theorem isBroken_of_mem_expand (hr : r.searched.isBroken = false) {js : List Item}
    (h : expand fs r = .ok js) (hj : j ∈ js) : (Path.ofString j.path).isBroken = false := by
  unfold expand at h
  unfold searched at hr
  split at h
  · rename_i hpattern
    obtain rfl := Except.ok.inj h
    obtain rfl := List.mem_singleton.mp hj
    rwa [if_neg (by simpa using hpattern)] at hr
  · dsimp only at h
    split at h
    · cases h
    · -- a file that fits a pattern is there, so its path leads somewhere
      obtain rfl := Except.ok.inj h
      obtain ⟨p, hp, rfl⟩ := List.mem_map.mp hj
      have hfile := List.of_mem_filter (List.mem_mergeSort.mp hp)
      obtain ⟨q, hq⟩ := FileSystem.locate_of_isFile hfile
      exact FileSystem.isBroken_of_locate hq

theorem exists_expand (hr : r.searched.isBroken = false) : ∃ js, expand fs r = .ok js := by
  unfold expand
  unfold searched at hr
  split
  · exact ⟨_, rfl⟩
  · rename_i hpattern
    rw [if_pos (by simpa using hpattern)] at hr
    exact ⟨_, if_neg (by simp [hr])⟩

theorem isBroken_searched {js : List Item} (h : expand fs r = .ok js)
    (hjs : ∀ j ∈ js, (Path.ofString j.path).isBroken = false) : r.searched.isBroken = false := by
  unfold expand at h
  unfold searched
  split at h
  · rename_i hpattern
    obtain rfl := Except.ok.inj h
    rw [if_neg (by simpa using hpattern)]
    exact hjs r List.mem_cons_self
  · rename_i hpattern
    rw [if_pos (by simpa using hpattern)]
    dsimp only at h
    split at h
    · cases h
    · rename_i hwhole
      simpa using hwhole

/-- The documents of items are found just if every item has a path and a schema that can be seen
from the directory, and no character zero breaks the search. -/
theorem exists_documents_iff : (∃ found, documents homes base fs items = .ok found) ↔
    ∀ i ∈ items, ∃ r, resolve homes base i = .ok r ∧ r.searched.isBroken = false := by
  simp only [documents_eq_ok_iff]
  constructor
  · rintro ⟨_, candidates, hcandidates, hwhole, _⟩ i hi
    obtain ⟨r, hr, js, hjs⟩ := exists_candidates_iff.mp ⟨candidates, hcandidates⟩ i hi
    refine ⟨r, hr, isBroken_searched hjs fun j hj => hwhole j ?_⟩
    exact (mem_candidates hcandidates).mpr ⟨i, hi, r, hr, js, hjs, hj⟩
  · intro h
    have hall : ∀ i ∈ items, ∃ r, resolve homes base i = .ok r ∧ ∃ js, expand fs r = .ok js := by
      intro i hi
      obtain ⟨r, hr, hwhole⟩ := h i hi
      exact ⟨r, hr, exists_expand hwhole⟩
    obtain ⟨candidates, hcandidates⟩ := exists_candidates_iff.mpr hall
    refine ⟨_, candidates, hcandidates, fun j hj => ?_, rfl⟩
    obtain ⟨i, hi, r, hr, js, hjs, hmem⟩ := (mem_candidates hcandidates).mp hj
    obtain ⟨r', hr', hwhole⟩ := h i hi
    obtain rfl := Except.ok.inj (hr.symm.trans hr')
    exact isBroken_of_mem_expand hwhole hjs hmem

/-! ## The first of its kind -/

theorem mem_dropSeen_iff {seen : List (Place × String)} : j ∈ dropSeen here seen items ↔
    j.identity here ∉ seen ∧
      items.find? (fun k => k.identity here == j.identity here) = some j := by
  induction items generalizing seen with
  | nil => simp [dropSeen]
  | cons i items ih =>
      rw [dropSeen, List.find?_cons]
      by_cases hsame : i.identity here = j.identity here
      · by_cases hseen : j.identity here ∈ seen
        · simp [hsame, hseen, ih]
        · simp [hsame, hseen, ih, eq_comm]
      · have hne : j ≠ i := by
          rintro rfl
          exact hsame rfl
        have hfalse : (i.identity here == j.identity here) = false := by simpa using hsame
        rw [hfalse]
        by_cases hseen : i.identity here ∈ seen
        · simp [hseen, ih]
        · simp [hseen, ih, hne, Ne.symm hsame]

theorem dropSeen_of_nodup {here : Place} {items : List Item} {seen : List (Place × String)}
    (hnodup : (items.map (identity here)).Nodup) (hnew : ∀ i ∈ items, i.identity here ∉ seen) :
    dropSeen here seen items = items := by
  induction items generalizing seen with
  | nil => rfl
  | cons i items ih =>
      obtain ⟨hi, hnodup⟩ := List.nodup_cons.mp hnodup
      have hfirst : ¬ seen.contains (i.identity here) = true := by
        simpa using hnew i List.mem_cons_self
      rw [dropSeen, if_neg hfirst, ih hnodup fun j hj hmem => ?_]
      rcases List.mem_cons.mp hmem with heq | hmem
      · exact hi (heq ▸ List.mem_map_of_mem hj)
      · exact hnew j (List.mem_cons_of_mem i hj) hmem

/-- Items stay as they are if their paths are seen from here and no patterns, and no two say the
same. -/
theorem documents_of_plain {homes : Homes} {base : Path} {fs : FileSystem} {items : List Item}
    (hplain : ∀ i ∈ items, resolve homes base i = .ok i ∧ i.isPattern = false ∧
      (Path.ofString i.path).isBroken = false)
    (hnodup : (items.map (identity fs.here)).Nodup) :
    documents homes base fs items = .ok items := by
  have hresolved : resolveAll homes base items = .ok items ∧
      expandAll fs items = .ok items := by
    clear hnodup
    induction items with
    | nil => exact ⟨rfl, rfl⟩
    | cons i items ih =>
        obtain ⟨hi, hpattern, _⟩ := hplain i List.mem_cons_self
        obtain ⟨hresolved, hexpanded⟩ := ih fun j hj => hplain j (List.mem_cons_of_mem i hj)
        exact ⟨resolveAll_cons_eq_ok_iff.mpr ⟨i, items, hi, hresolved, rfl⟩,
          expandAll_cons_eq_ok_iff.mpr
            ⟨[i], items, expand_of_not_isPattern hpattern, hexpanded, rfl⟩⟩
  refine documents_eq_ok_iff.mpr ⟨items, ?_, fun i hi => (hplain i hi).2.2, ?_⟩
  · rw [candidates?, hresolved.1]
    exact hresolved.2
  · exact (dropSeen_of_nodup hnodup fun _ _ => List.not_mem_nil).symm

end Item

/-! ## Documents that are kept -/

/-- Whether two sources are the same: one name, or members that differ in nothing but their
order. -/
def SchemaSource.Same : SchemaSource → SchemaSource → Prop
  | .named a, .named b => a = b
  | .inline ms, .inline ns => (Json.map ms).sortKeys.Alike (Json.map ns).sortKeys
  | _, _ => False

theorem SchemaSource.Same.alike {s t : SchemaSource} (h : s.Same t) : s.Alike t := by
  cases s <;> cases t <;> first | exact h | exact h.elim

theorem SchemaSource.same_refl (s : SchemaSource) : s.Same s := by
  cases s with
  | named name => rfl
  | inline members => exact Json.canonical_eq_iff.mp rfl

namespace Item

variable {homes : Homes} {base : Path} {fs : FileSystem} {q : Place} {schema : SchemaSource}
  {i j k r : Item} {items candidates : List Item}

/-- Whether an item leads to a place and is read by a schema from a source. -/
def StandsFor (fs : FileSystem) (q : Place) (schema : SchemaSource) (j : Item) : Prop :=
  fs.locate (Path.ofString j.path) = .ok q ∧ j.schema.Same schema

/-- Whether an item looks like one that stands for a document and does not: its path names the place
but leads nowhere, or its schema is a name that reads like members, or members that read like a
name. -/
def Shadows (fs : FileSystem) (q : Place) (schema : SchemaSource) (k : Item) : Prop :=
  k.identity fs.here = (q, schema.key) ∧
    ((∃ e, fs.locate (Path.ofString k.path) = .error e) ∨ ¬ k.schema.Same schema)

theorem StandsFor.identity_eq (h : j.StandsFor fs q schema) :
    j.identity fs.here = (q, schema.key) := by
  rw [identity, FileSystem.resolveFrom_of_locate h.1, SchemaSource.key_eq_iff.mpr h.2.alike]

theorem standsFor_of_not_shadows (hk : k.identity fs.here = (q, schema.key))
    (h : ¬ k.Shadows fs q schema) : k.StandsFor fs q schema := by
  rw [Shadows, not_and, not_or, not_not] at h
  obtain ⟨hleads, hsame⟩ := h hk
  cases hlocate : fs.locate (Path.ofString k.path) with
  | error e => exact (hleads ⟨e, hlocate⟩).elim
  | ok p =>
      have hp := FileSystem.resolveFrom_of_locate hlocate
      have hq : Path.resolveFrom fs.here (Path.ofString k.path) = q := congrArg Prod.fst hk
      obtain rfl := hp.symm.trans hq
      exact ⟨hlocate, hsame⟩

/-- Of the candidates a document is kept just if one stands for it and nothing in front shadows
it. -/
theorem exists_dropSeen_iff :
    (∃ j ∈ dropSeen fs.here [] candidates, j.StandsFor fs q schema) ↔
      ∃ before j after, candidates = before ++ j :: after ∧ j.StandsFor fs q schema ∧
        ∀ k ∈ before, ¬ k.Shadows fs q schema := by
  constructor
  · rintro ⟨j, hj, hstands⟩
    obtain ⟨_, hfirst⟩ := mem_dropSeen_iff.mp hj
    obtain ⟨_, before, after, rfl, hbefore⟩ := List.find?_eq_some_iff_append.mp hfirst
    refine ⟨before, j, after, rfl, hstands, fun k hk hshadow => ?_⟩
    have hne := hbefore k hk
    rw [hstands.identity_eq, hshadow.1] at hne
    simp at hne
  · rintro ⟨before, j, after, rfl, hstands, hbefore⟩
    -- the first that looks like the document is there, and in front of or at the one that stands
    obtain ⟨k, hk⟩ : ∃ k, (before ++ j :: after).find?
        (fun k => k.identity fs.here == (q, schema.key)) = some k := by
      rw [← Option.isSome_iff_exists, List.find?_isSome]
      exact ⟨j, by simp, by simp [hstands.identity_eq]⟩
    have hidentity : k.identity fs.here = (q, schema.key) := by simpa using List.find?_some hk
    have hdropped : k ∈ dropSeen fs.here [] (before ++ j :: after) := by
      rw [mem_dropSeen_iff, hidentity]
      exact ⟨List.not_mem_nil, hk⟩
    refine ⟨k, hdropped, ?_⟩
    rw [List.find?_append, List.find?_cons, hstands.identity_eq, beq_self_eq_true] at hk
    cases hfind : before.find? (fun k => k.identity fs.here == (q, schema.key)) with
    | none =>
        rw [hfind] at hk
        obtain rfl := Option.some.inj hk
        exact hstands
    | some k' =>
        rw [hfind] at hk
        obtain rfl := Option.some.inj hk
        exact standsFor_of_not_shadows hidentity (hbefore k' (List.mem_of_find?_eq_some hfind))

end Item

namespace Config

variable {homes : Homes} {p : Path} {w : Workplace} {v : Json} {written : Config}

/-- What loading a configuration gives, once its file is read. -/
theorem run_load (hread : w.files.readJson p = .ok v) (hwritten : Config.ofJson v = .ok written) :
    ∃ events, (load homes p).run w =
      (match Item.documents homes p.parent w.files written.items with
        | .ok items => .ok { written with items }
        | .error e => .error (.document e), { w with journal := events }) := by
  rw [load, Work.run_bind, Work.run_files, hread]
  dsimp only
  rw [Work.run_bind, Work.run_note, hwritten]
  dsimp only
  rw [Work.run_bind, Work.run_note]
  cases hresolved : Item.resolveAll homes p.parent written.items with
  | error e =>
      have hdocuments : Item.documents homes p.parent w.files written.items = .error e := by
        rw [Item.documents, hresolved]
      rw [hdocuments]
      exact ⟨_, rfl⟩
  | ok resolved =>
      dsimp only
      rw [Work.run_bind]
      cases Item.documents homes p.parent w.files written.items <;> exact ⟨_, rfl⟩

/-- A configuration is loaded just if each of its items has a path and a schema that can be seen
from its directory and searched.  A document that an item names by a plain path is then among the
items just if one of the candidates stands for it and none in front shadows that; and the item
itself is a candidate if neither the directory of the configuration nor a home has a wildcard in its
name. -/
theorem load_keeps_iff (hread : w.files.readJson p = .ok v)
    (hwritten : Config.ofJson v = .ok written) :
    ((∃ c w₁, (load homes p).run w = (.ok c, w₁)) ↔
      ∀ i ∈ written.items, ∃ r, i.resolve homes p.parent = .ok r ∧ r.searched.isBroken = false) ∧
    ∀ c w₁, (load homes p).run w = (.ok c, w₁) →
      ∃ candidates, Item.candidates? homes p.parent w.files written.items = .ok candidates ∧
        ∀ i ∈ written.items, i.isPattern = false → ∀ r q,
          i.resolve homes p.parent = .ok r → w.files.locate (Path.ofString r.path) = .ok q →
          ((∃ j ∈ c.items, j.StandsFor w.files q r.schema) ↔
            ∃ before j after, candidates = before ++ j :: after ∧ j.StandsFor w.files q r.schema ∧
              ∀ k ∈ before, ¬ k.Shadows w.files q r.schema) ∧
          (homes.IsPlain → p.parent.IsPlain → r ∈ candidates ∧
            ((∀ k ∈ candidates, ¬ k.Shadows w.files q r.schema) →
              ∃ j ∈ c.items, j.StandsFor w.files q r.schema)) := by
  obtain ⟨events, hrun⟩ := @run_load homes p w v written hread hwritten
  rw [hrun, ← @Item.exists_documents_iff homes p.parent w.files]
  cases hdocuments : Item.documents homes p.parent w.files written.items with
  | error e =>
      refine ⟨⟨?_, ?_⟩, fun c w₁ hc => by cases (Prod.mk.inj hc).1⟩
      · rintro ⟨c, w₁, hc⟩
        cases (Prod.mk.inj hc).1
      · rintro ⟨found, hfound⟩
        cases hfound
  | ok found =>
      refine ⟨⟨fun _ => ⟨found, rfl⟩, fun _ => ⟨_, _, rfl⟩⟩, fun c w₁ hc => ?_⟩
      obtain rfl := Except.ok.inj (Prod.mk.inj hc).1
      obtain ⟨candidates, hcandidates, _, rfl⟩ := Item.documents_eq_ok_iff.mp hdocuments
      refine ⟨candidates, hcandidates, fun i hi hplain r q hr hq => ?_⟩
      refine ⟨Item.exists_dropSeen_iff, fun hhomes hbase => ?_⟩
      have hpattern := Item.isPattern_resolve hhomes hbase hplain hr
      have hmem : r ∈ candidates :=
        (Item.mem_candidates hcandidates).mpr
          ⟨i, hi, r, hr, [r], Item.expand_of_not_isPattern hpattern, List.mem_cons_self⟩
      refine ⟨hmem, fun hfree => ?_⟩
      obtain ⟨before, after, rfl⟩ := List.append_of_mem hmem
      refine Item.exists_dropSeen_iff.mpr
        ⟨before, r, after, rfl, ⟨hq, SchemaSource.same_refl _⟩, ?_⟩
      exact fun k hk => hfree k (List.mem_append_left _ hk)

/-! ### A page beside its configuration -/

/-- A configuration that names one page by a schema in a file. -/
def pageConfig : Config := { items := [{ path := "page", schema := .named "schema" }] }

/-- The text of the configuration. -/
def pageConfigText : String :=
  "\x7b\"items\": [\x7b\"path\": \"page\", \"schema\": \"schema\"\x7d]\x7d"

/-- A directory with the page and the configuration. -/
def pagePlace (dir : String) : Workplace :=
  { files :=
    { here := []
      entries := [([dir], .directory), ([dir, "page"], .file "<p>1</p>".toUTF8),
        ([dir, "config"], .file pageConfigText.toUTF8)] } }

def configIn (dir : String) : Path := Path.ofString (dir ++ "/config")

/-- What the text says. -/
def pageJson : Json :=
  .map [("items", .list [.map [("path", .str "page"), ("schema", .str "schema")]])]

theorem readJson_page {dir : String} (hdir : dir = "d" ∨ dir = "d[1]") :
    (pagePlace dir).files.readJson (configIn dir) = .ok pageJson := by
  have hread : (pagePlace dir).files.read (configIn dir) =
      .ok pageConfigText.toUTF8 := by
    rcases hdir with rfl | rfl <;> cbv
  rw [FileSystem.readJson, FileSystem.readText_of_read hread (by decide)]
  cbv

/-- The item of the page, seen from a directory. -/
def pageIn (dir : String) : Item := { path := dir ++ "/page", schema := .named (dir ++ "/schema") }

theorem resolve_page {dir : String} (hdir : dir = "d" ∨ dir = "d[1]") :
    Item.resolve { own := "/" } (configIn dir).parent
      { path := "page", schema := .named "schema" } = .ok (pageIn dir) := by
  have hpath : Item.resolvePath { own := "/" } (configIn dir).parent "page" =
      .ok (dir ++ "/page") := by
    rcases hdir with rfl | rfl <;> decide +kernel
  have hschema : Item.resolvePath { own := "/" } (configIn dir).parent "schema" =
      .ok (dir ++ "/schema") := by
    rcases hdir with rfl | rfl <;> decide +kernel
  have haddress : SchemaSource.isAddress "schema" = false := by decide +kernel
  rw [Item.resolve, Item.resolveSchema, if_neg (by simp [haddress]), hpath, hschema]
  rfl

theorem candidates_page {dir : String} {js : List Item} (hresolve : Item.resolve { own := "/" }
      (configIn dir).parent { path := "page", schema := .named "schema" } = .ok (pageIn dir))
    (h : Item.expand (pagePlace dir).files (pageIn dir) = .ok js) :
    Item.candidates? { own := "/" } (configIn dir).parent (pagePlace dir).files pageConfig.items =
      .ok js := by
  simp [Item.candidates?, Item.resolveAll, pageConfig, hresolve, Item.expandAll, h]

theorem load_keeps_iff_page : ∃ v c w₁,
    (pagePlace "d").files.readJson (configIn "d") = .ok v ∧
    Config.ofJson v = .ok pageConfig ∧
    (load { own := "/" } (configIn "d")).run (pagePlace "d") = (.ok c, w₁) ∧
    ∃ j ∈ c.items, j.StandsFor (pagePlace "d").files ["d", "page"] (.named "d/schema") := by
  have hread := @readJson_page "d" (Or.inl rfl)
  have hwritten : Config.ofJson pageJson = .ok pageConfig := by cbv
  have hresolve := @resolve_page "d" (Or.inl rfl)
  have hplain : Wildcard.hasSigns (pageIn "d").path = false := by decide
  obtain ⟨hloads, hkeeps⟩ := @load_keeps_iff { own := "/" } _ _ _ _ hread hwritten
  obtain ⟨c, w₁, hc⟩ := hloads.mpr fun i hi => by
    obtain rfl := List.mem_singleton.mp hi
    refine ⟨_, hresolve, ?_⟩
    rw [Item.searched, if_neg (by simp [Item.isPattern, hplain])]
    cbv
  obtain ⟨candidates, hcandidates, hall⟩ := hkeeps c w₁ hc
  have hlocate : (pagePlace "d").files.locate (Path.ofString "d/page") = .ok ["d", "page"] := by cbv
  obtain ⟨hiff, _⟩ := hall _ List.mem_cons_self (by decide) _ _ hresolve hlocate
  refine ⟨_, c, w₁, hread, hwritten, hc, hiff.mpr ⟨[], pageIn "d", [], ?_, ⟨hlocate, rfl⟩, by simp⟩⟩
  have hpage := candidates_page hresolve (Item.expand_of_not_isPattern hplain)
  exact Except.ok.inj (hcandidates.symm.trans hpage)

/-- In a directory whose name has brackets the page is lost, because its path has become a
pattern. -/
theorem load_loses_page : ∃ v w₁,
    (pagePlace "d[1]").files.readJson (configIn "d[1]") = .ok v ∧
    Config.ofJson v = .ok pageConfig ∧
    (∀ i ∈ pageConfig.items, i.isPattern = false ∧
      i.resolve { own := "/" } (configIn "d[1]").parent = .ok (pageIn "d[1]")) ∧
    (pagePlace "d[1]").files.isFile (Path.ofString (pageIn "d[1]").path) = true ∧
    (load { own := "/" } (configIn "d[1]")).run (pagePlace "d[1]") =
      (.ok { pageConfig with items := [] }, w₁) := by
  have hread := @readJson_page "d[1]" (Or.inr rfl)
  have hwritten : Config.ofJson pageJson = .ok pageConfig := by cbv
  have hresolve := @resolve_page "d[1]" (Or.inr rfl)
  have hglob : Glob.ofString "d[1]/page" =
      ⟨"", [.wild false (Wildcard.ofString "d[1]"), .named "page"]⟩ := by
    cbv
  have hsearch : Glob.search (pagePlace "d[1]").files
      [.wild false (Wildcard.ofString "d[1]"), .named "page"] "" = [] := by
    cbv
  have hexpand : Item.expand (pagePlace "d[1]").files (pageIn "d[1]") = .ok [] := by
    have hpattern : (pageIn "d[1]").isPattern = true := by decide
    have hpath : (pageIn "d[1]").path = "d[1]/page" := rfl
    have hwhole : (Path.ofString "").isBroken = false := by decide
    simp [Item.expand, hpattern, hpath, hglob, Glob.files, hsearch, hwhole]
  have hdocuments : Item.documents { own := "/" } (configIn "d[1]").parent
      (pagePlace "d[1]").files pageConfig.items = .ok [] := by
    rw [Item.documents_eq_ok_iff]
    exact ⟨[], candidates_page hresolve hexpand, by simp, rfl⟩
  obtain ⟨events, hrun⟩ := @run_load { own := "/" } _ _ _ _ hread hwritten
  rw [hdocuments] at hrun
  refine ⟨_, _, hread, hwritten, fun i hi => ?_, by cbv, hrun⟩
  obtain rfl := List.mem_singleton.mp hi
  exact ⟨by decide, hresolve⟩

end Config

end Harvest
