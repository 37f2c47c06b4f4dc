import Harvest.Batch.Run
import Harvest.Proofs.Json.Canonical
import Harvest.Proofs.Work
import Mathlib.Data.List.TakeWhile

/-!
# What a batch keeps

A batch keeps the schema of the first item of every key that it comes across, and reads all further
items of the key by it.  Beyond that, no run changes how documents are read.
-/

namespace Harvest

/-! ## Keys -/

namespace SchemaSource

/-- Whether a batch takes schema sources for the same: equal names, members that differ in nothing
but their order, or a name that is the canonical text of members. -/
def Alike : SchemaSource → SchemaSource → Prop
  | .named a, .named b => a = b
  | .inline ms, .inline ns => (Json.map ms).sortKeys.Alike (Json.map ns).sortKeys
  | .named a, .inline ns => a = (Json.map ns).canonical
  | .inline ms, .named b => (Json.map ms).canonical = b

theorem key_eq_iff {s t : SchemaSource} : s.key = t.key ↔ s.Alike t := by
  cases s with
  | named a => cases t <;> rfl
  | inline ms =>
      cases t with
      | named b => rfl
      | inline ns => exact Json.canonical_eq_iff

theorem alike_of_perm {ms ns : Members} (h : ms.Perm ns) (hkeys : ms.keys.Nodup) :
    (SchemaSource.inline ms).Alike (.inline ns) :=
  key_eq_iff.mp (congrArg (Json.render ⟨none, true⟩) (Json.sortKeys_of_perm h hkeys))

end SchemaSource

/-! ## Loading schemas -/

theorem Schema.describe_journal (w : Workplace) (events : List Event) (source : SchemaSource) :
    Schema.describe { w with journal := events } source = Schema.describe w source := by
  cases source <;> rfl

theorem Schema.ofSource_journal (w : Workplace) (events : List Event) (source : SchemaSource) :
    Schema.ofSource { w with journal := events } source = Schema.ofSource w source := by
  rw [Schema.ofSource, Schema.ofSource, Schema.describe_journal]

/-- Whether a batch goes on after it has loaded a schema, or failed to. -/
def Schema.isKept : Except LoadError Schema → Bool
  | .ok _ => true
  | .error e => e.isExpected

namespace Batch

theorem run_loadAll (sources : List (String × SchemaSource)) (w : Workplace) :
    (loadAll sources).run w = (sources.map fun s => (s.1, Schema.ofSource w s.2),
      { w with journal := w.journal ++ sources.flatMap fun s => Schema.loadEvents s.2 }) := by
  induction sources generalizing w with
  | nil =>
      rw [loadAll, Work.run_pure]
      simp
  | cons s rest ih =>
      obtain ⟨key, source⟩ := s
      have hload : (Schema.load source).run w = (Schema.ofSource w source,
          { w with journal := w.journal ++ Schema.loadEvents source }) := by
        rw [← Schema.ofSource_journal w (w.journal ++ Schema.loadEvents source)]
        rfl
      rw [loadAll, Work.run_bind, hload, Work.run_bind, ih, Work.run_pure]
      simp [Schema.ofSource_journal]

theorem run_keepSchemas (b : Batch) (loaded : List (String × Except LoadError Schema))
    (w : Workplace) : ∃ r events, (b.keepSchemas loaded).run w =
        ((r, { b with schemas := b.schemas ++ loaded.takeWhile (Schema.isKept ·.2) }),
          { w with journal := events }) ∧
      ((r = .ok () ∧ ∀ s ∈ loaded, Schema.isKept s.2 = true) ∨
        (r ≠ .ok () ∧ ∃ s ∈ loaded, Schema.isKept s.2 = false)) := by
  induction loaded generalizing b w with
  | nil =>
      refine ⟨.ok (), w.journal, ?_, Or.inl ⟨rfl, by simp⟩⟩
      rw [keepSchemas, Work.run_pure]
      simp
  | cons s rest ih =>
      obtain ⟨key, schema⟩ := s
      cases schema with
      | ok schema =>
          obtain ⟨r, events, hrun, hr⟩ :=
            ih { b with schemas := b.schemas ++ [(key, .ok schema)] } w
          refine ⟨r, events, ?_, ?_⟩
          · rw [keepSchemas, hrun]
            simp [Schema.isKept]
          · obtain ⟨hok, hkept⟩ | ⟨hok, s, hs, hlost⟩ := hr
            · exact Or.inl ⟨hok, by simpa [Schema.isKept] using hkept⟩
            · exact Or.inr ⟨hok, s, List.mem_cons_of_mem _ hs, hlost⟩
      | error e =>
          by_cases he : e.isExpected = true
          · have hnote : (Work.note (.schemaLost (shortKey key) e.message)).run w = ((),
                { w with journal := w.journal ++ [.schemaLost (shortKey key) e.message] }) := rfl
            obtain ⟨r, events, hrun, hr⟩ :=
              ih { b with schemas := b.schemas ++ [(key, .error e)] }
                { w with journal := w.journal ++ [.schemaLost (shortKey key) e.message] }
            refine ⟨r, events, ?_, ?_⟩
            · rw [keepSchemas]
              simp only [he, if_true]
              rw [Work.run_bind, hnote, hrun]
              simp [Schema.isKept, he]
            · obtain ⟨hok, hkept⟩ | ⟨hok, s, hs, hlost⟩ := hr
              · exact Or.inl ⟨hok, by simpa [Schema.isKept, he] using hkept⟩
              · exact Or.inr ⟨hok, s, List.mem_cons_of_mem _ hs, hlost⟩
          · -- the rest is not looked at
            refine ⟨.error (.schema e), w.journal, ?_,
              Or.inr ⟨by simp, _, List.mem_cons_self, by simpa [Schema.isKept] using he⟩⟩
            rw [keepSchemas]
            simp only [he, Bool.false_eq_true, if_false]
            rw [Work.run_pure]
            simp [Schema.isKept, he]

/-- The items of keys that are not known yet, of each key the first. -/
def firstItems : List String → List Item → List Item
  | _, [] => []
  | known, i :: is =>
    if known.contains i.schema.key then firstItems known is
    else i :: firstItems (i.schema.key :: known) is

theorem newSources_eq (known : List String) (items : List Item) :
    newSources known items = (firstItems known items).map fun i => (i.schema.key, i.schema) := by
  induction items generalizing known with
  | nil => rfl
  | cons i is ih =>
      simp only [newSources, firstItems]
      split
      · exact ih known
      · simp [ih]

theorem mem_firstItems {known : List String} {items : List Item} {i : Item}
    (h : i ∈ firstItems known items) : i ∈ items := by
  induction items generalizing known with
  | nil => simp [firstItems] at h
  | cons j is ih =>
      simp only [firstItems] at h
      split at h
      · exact List.mem_cons_of_mem _ (ih h)
      · rcases List.mem_cons.mp h with rfl | h
        · exact List.mem_cons_self
        · exact List.mem_cons_of_mem _ (ih h)

theorem key_mem_firstItems {items : List Item} {i : Item} (known : List String) (hi : i ∈ items) :
    i.schema.key ∈ known ∨ ∃ j ∈ firstItems known items, j.schema.key = i.schema.key := by
  induction items generalizing known with
  | nil => cases hi
  | cons k is ih =>
      rw [firstItems]
      split
      · rename_i hk
        rcases List.mem_cons.mp hi with rfl | hi
        · exact Or.inl (List.contains_iff_mem.mp hk)
        · exact ih known hi
      · rcases List.mem_cons.mp hi with rfl | hi
        · exact Or.inr ⟨i, List.mem_cons_self, rfl⟩
        · obtain hmem | ⟨j, hj, hkey⟩ := ih (k.schema.key :: known) hi
          · obtain heq | hmem := List.mem_cons.mp hmem
            · exact Or.inr ⟨k, List.mem_cons_self, heq.symm⟩
            · exact Or.inl hmem
          · exact Or.inr ⟨j, List.mem_cons_of_mem k hj, hkey⟩

theorem firstItems_of_known {known : List String} {items : List Item}
    (h : ∀ i ∈ items, i.schema.key ∈ known) : firstItems known items = [] := by
  induction items with
  | nil => rfl
  | cons i items ih =>
      rw [firstItems, if_pos (by simpa using h i List.mem_cons_self)]
      exact ih fun j hj => h j (List.mem_cons_of_mem i hj)

/-- The items whose schemas a run adds to those it knows, or the errors in their place: of every new
key the first item, up to one whose schema breaks off the run. -/
def newcomers (w : Workplace) (known items : List Item) : List Item :=
  (firstItems (known.map (·.schema.key)) items).takeWhile fun i =>
    Schema.isKept (Schema.ofSource w i.schema)

/-- The schemas of items by their keys, or the errors in their place. -/
def schemasOf (w : Workplace) (items : List Item) : List (String × Except LoadError Schema) :=
  items.map fun i => (i.schema.key, Schema.ofSource w i.schema)

/-- The item by whose schema another one is read: the first one of the key. -/
def leader? (known : List Item) (i : Item) : Option Item :=
  known.find? fun j => j.schema.key == i.schema.key

theorem alike_of_leader? {known : List Item} {i j : Item} (h : leader? known i = some j) :
    j.schema.Alike i.schema := by
  have hkey := List.find?_some h
  exact SchemaSource.key_eq_iff.mp (beq_iff_eq.mp hkey)

theorem lookup_schemasOf (w : Workplace) (known : List Item) (i : Item) :
    (schemasOf w known).lookup i.schema.key =
      (leader? known i).map fun j => Schema.ofSource w j.schema := by
  induction known with
  | nil => rfl
  | cons j js ih =>
      simp only [schemasOf, leader?, List.map_cons, List.lookup_cons, List.find?_cons] at ih ⊢
      rw [BEq.comm (a := i.schema.key)]
      cases j.schema.key == i.schema.key with
      | true => rfl
      | false => exact ih

/-- The schemas that a batch loads for items, or the errors in their place: of every key that it
does not know, that of the first item. -/
def newSchemas (b : Batch) (w : Workplace) (items : List Item) :
    List (String × Except LoadError Schema) :=
  schemasOf w (firstItems (b.schemas.map (·.1)) items)

/-- A batch adds the schemas that it loads to those it has, up to one that breaks off the run. -/
theorem run_loadSchemas_eq (b : Batch) (items : List Item) (w : Workplace) :
    ∃ r events, (b.loadSchemas items).run w =
        ((r, { b with schemas := b.schemas ++
            (b.newSchemas w items).takeWhile (Schema.isKept ·.2) }),
          { w with journal := events }) ∧
      ((r = .ok () ∧ ∀ s ∈ b.newSchemas w items, Schema.isKept s.2 = true) ∨
        (r ≠ .ok () ∧ ∃ s ∈ b.newSchemas w items, Schema.isKept s.2 = false)) := by
  have hloaded : ((newSources (b.schemas.map (·.1)) items).map fun s =>
      (s.1, Schema.ofSource w s.2)) = b.newSchemas w items := by
    rw [newSources_eq, List.map_map]
    rfl
  obtain ⟨r, events, hrun, hr⟩ := b.run_keepSchemas (b.newSchemas w items)
    { w with journal := w.journal ++
      (newSources (b.schemas.map (·.1)) items).flatMap fun s => Schema.loadEvents s.2 }
  refine ⟨r, events, ?_, hr⟩
  rw [loadSchemas, Work.run_bind, run_loadAll, hloaded, hrun]

section
variable {b : Batch} {w₀ w : Workplace} {known items : List Item}
  (hb : b.schemas = schemasOf w₀ known)
  (hw : ∀ i ∈ items, Schema.describe w i.schema = Schema.describe w₀ i.schema)
include hb hw

theorem newSchemas_eq :
    b.newSchemas w items = schemasOf w₀ (firstItems (known.map (·.schema.key)) items) := by
  have hkeys : b.schemas.map (·.1) = known.map (·.schema.key) := by
    simp [hb, schemasOf, Function.comp_def]
  rw [newSchemas, hkeys]
  refine List.map_congr_left fun i hi => ?_
  simp only [Schema.ofSource, hw i (mem_firstItems hi)]

/-- Where the schema sources are as they were when the batch loaded others, it adds the schemas of
the newcomers. -/
theorem schemas_newcomers : b.schemas ++ (b.newSchemas w items).takeWhile (Schema.isKept ·.2) =
    schemasOf w₀ (known ++ newcomers w₀ known items) := by
  rw [newSchemas_eq hb hw, hb]
  simp [schemasOf, newcomers, List.takeWhile_map, Function.comp_def]

end

end Batch

end Harvest
