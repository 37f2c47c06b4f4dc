import Harvest.Proofs.Batch.Schemas

/-!
# Running items

What running the items of a batch leaves as it is, and what it finds: at each position what the
document of the item there gives, in whichever order the items are run.
-/

namespace Harvest.Batch

/-! ## What a run leaves as it is -/

/-- How a batch reads documents. -/
def setup (b : Batch) : Defaults × Registry × List (String × Except LoadError Schema) :=
  (b.defaults, b.registry, b.schemas)

theorem setup_eq_iff {b b' : Batch} : b'.setup = b.setup ↔
    b'.defaults = b.defaults ∧ b'.registry = b.registry ∧ b'.schemas = b.schemas := by
  simp [setup]

theorem extractDocument_congr {b b' : Batch} (hd : b'.defaults = b.defaults)
    (hr : b'.registry = b.registry) : b'.extractDocument = b.extractDocument := by
  have hx : b'.extractor = b.extractor := by
    funext i
    rw [extractor, extractor, hd, hr]
  funext fs i schema
  rw [extractDocument, extractDocument, hx]

theorem schemaOf?_congr {b b' : Batch} (h : b'.schemas = b.schemas) :
    b'.schemaOf? = b.schemaOf? := by
  funext i
  rw [schemaOf?, schemaOf?, h]

@[simp] theorem setup_countFailed (b : Batch) : b.countFailed.setup = b.setup := rfl

@[simp] theorem setup_countSkipped (b : Batch) : b.countSkipped.setup = b.setup := rfl

@[simp] theorem setup_withdraw (b : Batch) (source : String) :
    (b.withdraw source).setup = b.setup := by
  unfold withdraw
  split <;> rfl

theorem setup_foldl_withdraw (b : Batch) (sources : List String) :
    (sources.foldl withdraw b).setup = b.setup := by
  induction sources generalizing b with
  | nil => rfl
  | cons s rest ih => rw [List.foldl_cons, ih, setup_withdraw]

@[simp] theorem setup_withdrawAll (b : Batch) (sources : List String) (w : Workplace) :
    ((b.withdrawAll sources).run w).1.setup = b.setup := setup_foldl_withdraw b sources

/-- The finding that saving a result gives, if it gives one, is that of the item. -/
theorem run_saveResult (b : Batch) (i : Item) (result : Members) (w : Workplace) :
    ((b.saveResult i result).run w).1.2.setup = b.setup ∧
      ∀ f, ((b.saveResult i result).run w).1.1 = some f →
        f.record = ⟨i.path, i.outputName, result⟩ := by
  rw [saveResult, Work.run_bind]
  obtain ⟨⟨r, store⟩, w'⟩ := (b.store.save i.path result (some i.outputName)).run w
  cases r with
  | error lost =>
      dsimp only
      rw [Work.run_bind, Work.run_pure]
      exact ⟨setup_withdrawAll { b with store } lost.sources w', by simp⟩
  | ok p =>
      cases p with
      | none => exact ⟨rfl, fun f hf => absurd hf (Option.some_ne_none f).symm⟩
      | some p =>
          refine ⟨rfl, fun f hf => ?_⟩
          obtain rfl := Option.some.inj hf
          rfl

/-! ## One item -/

/-- Whether a finding is what the document of an item gives alone, by a schema. -/
def Gives (b : Batch) (fs : FileSystem) (i : Item) (schema : Schema) (f : Finding) : Prop :=
  f.record.source = i.path ∧ f.record.name = i.outputName ∧
    b.extractDocument fs i schema = .ok f.record.result

theorem run_runItem (b : Batch) (i : Item) (schema : Schema) (w : Workplace) :
    ((b.runItem i schema).run w).1.2.setup = b.setup ∧
      ∀ f, ((b.runItem i schema).run w).1.1 = .ok (some f) → b.Gives w.files i schema f := by
  have hfiles : Work.files.run w = (w.files, w) := rfl
  rw [runItem, Work.run_bind, hfiles]
  dsimp only
  cases hread : b.extractDocument w.files i schema with
  | error e =>
      dsimp only
      split
      · exact ⟨rfl, fun f hf => absurd (Except.ok.inj hf) (Option.some_ne_none f).symm⟩
      · exact ⟨rfl, fun f hf => by cases hf⟩
  | ok result =>
      cases result with
      | nil => exact ⟨rfl, fun f hf => absurd (Except.ok.inj hf) (Option.some_ne_none f).symm⟩
      | cons m ms =>
          obtain ⟨hsetup, hfound⟩ := b.run_saveResult i (m :: ms) w
          refine ⟨hsetup, fun f hf => ?_⟩
          have hrecord := hfound f (Except.ok.inj hf)
          simp [Gives, hrecord, hread]

/-! ## Items in any order -/

/-- Whether the documents of items hold the same in two file systems. -/
def SameDocuments (items : List Item) (fs fs' : FileSystem) : Prop :=
  ∀ i ∈ items, fs.readLossyText (Path.ofString i.path) = fs'.readLossyText (Path.ofString i.path)

theorem Gives.congr {b b' : Batch} {fs fs' : FileSystem} {i : Item} {schema : Schema} {f : Finding}
    (h : b.Gives fs i schema f) (hd : b'.defaults = b.defaults) (hr : b'.registry = b.registry)
    (hfs : fs.readLossyText (Path.ofString i.path) = fs'.readLossyText (Path.ofString i.path)) :
    b'.Gives fs' i schema f := by
  obtain ⟨hsource, hname, hresult⟩ := h
  refine ⟨hsource, hname, ?_⟩
  rw [extractDocument_congr hd hr, extractDocument, ← hfs]
  exact hresult

/-- A position is skipped unless it has an item with a schema. -/
theorem runItems_skip {b : Batch} {items : List Item} {n : Nat}
    (h : ∀ i schema, items[n]? = some i → b.schemaOf? i ≠ some (.ok schema)) (order : List Nat) :
    b.runItems items (n :: order) = b.runItems items order := by
  rw [runItems]
  split
  · rename_i i schema heq
    obtain ⟨j, hj, hschema⟩ := Option.bind_eq_some_iff.mp heq
    obtain ⟨s, hs, hpair⟩ := Option.map_eq_some_iff.mp hschema
    obtain ⟨rfl, rfl⟩ := Prod.mk.inj hpair
    exact absurd hs (h j schema hj)
  · rfl

section
variable {b b₁ : Batch} {items : List Item} {n : Nat} {i : Item} {schema : Schema}
  {w w₁ : Workplace}

theorem bind_schemaOf? (hi : items[n]? = some i) (hschema : b.schemaOf? i = some (.ok schema)) :
    (items[n]?.bind fun i => (b.schemaOf? i).map (i, ·)) = some (i, .ok schema) := by
  simp [hi, hschema]

theorem run_runItems_error {e : BatchError} (hi : items[n]? = some i)
    (hschema : b.schemaOf? i = some (.ok schema))
    (hrun : (b.runItem i schema).run w = ((.error e, b₁), w₁)) (order : List Nat) :
    (b.runItems items (n :: order)).run w = ((.error e, b₁), w₁) := by
  simp only [runItems, bind_schemaOf? hi hschema]
  rw [Work.run_bind, hrun]
  rfl

theorem run_runItems_ok {made : Option Finding} (hi : items[n]? = some i)
    (hschema : b.schemaOf? i = some (.ok schema))
    (hrun : (b.runItem i schema).run w = ((.ok made, b₁), w₁)) (order : List Nat) :
    (b.runItems items (n :: order)).run w =
      ((((b₁.runItems items order).run w₁).1.1.map fun rest => (made.map (n, ·)).toList ++ rest,
        ((b₁.runItems items order).run w₁).1.2), ((b₁.runItems items order).run w₁).2) := by
  simp only [runItems, bind_schemaOf? hi hschema]
  rw [Work.run_bind, hrun]
  rfl

end

theorem setup_runItems (b : Batch) (items : List Item) (order : List Nat) (w : Workplace) :
    ((b.runItems items order).run w).1.2.setup = b.setup := by
  induction order generalizing b w with
  | nil => rfl
  | cons n order ih =>
      by_cases h : ∃ i schema, items[n]? = some i ∧ b.schemaOf? i = some (.ok schema)
      · obtain ⟨i, schema, hi, hschema⟩ := h
        obtain ⟨hsetup, _⟩ := b.run_runItem i schema w
        rcases hrun : (b.runItem i schema).run w with ⟨⟨r, b₁⟩, w₁⟩
        rw [hrun] at hsetup
        cases r with
        | error e =>
            rw [run_runItems_error hi hschema hrun]
            exact hsetup
        | ok made =>
            rw [run_runItems_ok hi hschema hrun]
            exact (ih b₁ w₁).trans hsetup
      · rw [runItems_skip fun i schema hi hschema => h ⟨i, schema, hi, hschema⟩]
        exact ih b w

/-- In whichever order items are run: what is found at a position is what the document of the item
there gives alone. -/
theorem gives_runItems {b : Batch} {items : List Item} {fs : FileSystem} {order : List Nat}
    {w : Workplace}
    (hdocs : ∀ k, SameDocuments items ((b.runItems items (order.take k)).run w).2.files fs)
    {found : List (Nat × Finding)} (hfound : ((b.runItems items order).run w).1.1 = .ok found)
    {n : Nat} {f : Finding} (hf : (n, f) ∈ found) :
    ∃ i schema, items[n]? = some i ∧ b.schemaOf? i = some (.ok schema) ∧ b.Gives fs i schema f := by
  induction order generalizing b w found with
  | nil =>
      obtain rfl := Except.ok.inj hfound
      simp at hf
  | cons m order ih =>
      by_cases h : ∃ i schema, items[m]? = some i ∧ b.schemaOf? i = some (.ok schema)
      · obtain ⟨i, schema, hi, hschema⟩ := h
        have hnow : SameDocuments items w.files fs := hdocs 0
        obtain ⟨hsetup, hgives⟩ := b.run_runItem i schema w
        rcases hrun : (b.runItem i schema).run w with ⟨⟨r, b₁⟩, w₁⟩
        rw [hrun] at hsetup hgives
        cases r with
        | error e =>
            rw [run_runItems_error hi hschema hrun] at hfound
            cases hfound
        | ok made =>
            rw [run_runItems_ok hi hschema hrun] at hfound
            cases hr : ((b₁.runItems items order).run w₁).1.1 with
            | error e => simp [hr, Except.map] at hfound
            | ok rest =>
                obtain rfl : (made.map (m, ·)).toList ++ rest = found := by
                  simpa [hr, Except.map] using hfound
                rcases List.mem_append.mp hf with hf | hf
                · obtain ⟨f', rfl, hpair⟩ := Option.map_eq_some_iff.mp (Option.mem_toList.mp hf)
                  obtain ⟨rfl, rfl⟩ := Prod.mk.inj hpair
                  have hgives := hgives f' rfl
                  exact ⟨i, schema, hi, hschema,
                    hgives.congr rfl rfl (hnow i (List.mem_of_getElem? hi))⟩
                · -- the documents are as they were also when the rest is run
                  have hrest : ∀ k, SameDocuments items
                      ((b₁.runItems items (order.take k)).run w₁).2.files fs := by
                    intro k
                    have hk := hdocs (k + 1)
                    rwa [List.take_succ_cons, run_runItems_ok hi hschema hrun] at hk
                  obtain ⟨j, schema', hj, hschema', hf⟩ := ih hrest hr hf
                  obtain ⟨hdefaults, hregistry, hschemas⟩ := setup_eq_iff.mp hsetup
                  rw [schemaOf?_congr hschemas] at hschema'
                  exact ⟨j, schema', hj, hschema', hf.congr hdefaults.symm hregistry.symm rfl⟩
      · have hskip := @runItems_skip b items m
          fun i schema hi hschema => h ⟨i, schema, hi, hschema⟩
        rw [hskip] at hfound
        refine ih (fun k => ?_) hfound hf
        have hk := hdocs (k + 1)
        rwa [List.take_succ_cons, hskip] at hk

/-! ## Findings in the order of the items -/

theorem mem_of_lookup {made : List (Nat × Finding)} {n : Nat} {f : Finding}
    (h : made.lookup n = some f) : (n, f) ∈ made := by
  obtain ⟨front, back, rfl, _⟩ := List.lookup_eq_some_iff.mp h
  simp

theorem mem_of_inItemOrder {items : List Item} {made : List (Nat × Finding)} {f : Finding}
    (h : f ∈ inItemOrder items made) : ∃ n, (n, f) ∈ made := by
  obtain ⟨n, _, hlookup⟩ := List.mem_filterMap.mp h
  exact ⟨n, mem_of_lookup hlookup⟩

/-- No finding is dropped whose document is taken for saved. -/
theorem kept_inItemOrder {b : Batch} {made : List (Nat × Finding)}
    (hsaved : ∀ p ∈ made, p.2.record.source ∈ b.saved) (items : List Item) :
    b.kept (inItemOrder items made) = inItemOrder items made := by
  apply List.filter_eq_self.mpr
  intro f hf
  obtain ⟨n, hmem⟩ := mem_of_inItemOrder hf
  exact List.contains_iff_mem.mpr (hsaved _ hmem)

/-! ## A run -/

/-- Whether the schema of an item could not be loaded. -/
def lacksSchema (b : Batch) (i : Item) : Bool :=
  match b.schemaOf? i with
  | some (.error _) => true
  | _ => false

/-- A batch that has counted the items whose schemas could not be loaded. -/
def counted (b : Batch) (items : List Item) : Batch :=
  { b with stats.failed := b.stats.failed + items.countP b.lacksSchema }

theorem counted_cons (b : Batch) (i : Item) (is : List Item) :
    b.counted (i :: is) = if b.lacksSchema i then b.countFailed.counted is else b.counted is := by
  split
  · rename_i hi
    have hcount : b.stats.failed + ((i :: is).countP b.lacksSchema : Int) =
        b.stats.failed + 1 + (is.countP b.lacksSchema : Int) := by
      rw [List.countP_cons_of_pos hi]
      omega
    rw [counted, hcount]
    rfl
  · rename_i hi
    rw [counted, List.countP_cons_of_neg hi, counted]

theorem run_failItems (b : Batch) (items : List Item) (w : Workplace) : ∃ (events : List Event),
    (b.failItems items).run w = (b.counted items, { w with journal := events }) := by
  induction items generalizing b w with
  | nil =>
      refine ⟨w.journal, ?_⟩
      rw [failItems, Work.run_pure]
      simp [counted]
  | cons i is ih =>
      rw [failItems, counted_cons, lacksSchema]
      cases hschema : b.schemaOf? i with
      | none => exact ih b w
      | some schema =>
          cases schema with
          | ok schema => exact ih b w
          | error e =>
              exact ih b.countFailed
                { w with journal := w.journal ++ [.documentLost i.path e.message] }

/-- Once the schemas are known, a run runs the items; it gives what is found in item order, as far
as the store still has it. -/
theorem run_runLoaded_eq (b : Batch) (items : List Item) (w : Workplace) :
    ∃ (events : List Event), ∀ order r b₂ w₂,
      ((b.counted items).runItems items order).run { w with journal := events } = ((r, b₂), w₂) →
      ∃ (b₃ : Batch) (events' : List Event), (b.runLoaded items order).run w =
          ((r.map fun made => b₂.kept (inItemOrder items made), b₃),
            { w₂ with journal := events' }) ∧
        b₃.setup = b₂.setup ∧
        ∀ made, r = .ok made → b₃ = { b₂ with findings := b₂.kept (inItemOrder items made) } := by
  obtain ⟨events, hfail⟩ := b.run_failItems items w
  refine ⟨events, fun order r b₂ w₂ hrun => ?_⟩
  rw [runLoaded, Work.run_bind, hfail, Work.run_bind, hrun]
  cases r with
  | error e => exact ⟨b₂, w₂.journal, rfl, rfl, nofun⟩
  | ok made =>
      refine ⟨_, _, rfl, rfl, fun made' hmade => ?_⟩
      obtain rfl := Except.ok.inj hmade
      rfl

theorem run_runLoaded (b : Batch) (items : List Item) (w : Workplace) :
    ∃ (b₁ : Batch) (events : List Event), b₁.setup = b.setup ∧ b₁.store = b.store ∧
      ∀ order r b₂ w₂,
        (b₁.runItems items order).run { w with journal := events } = ((r, b₂), w₂) →
        ∃ (b₃ : Batch) (events' : List Event), (b.runLoaded items order).run w =
            ((r.map fun made => b₂.kept (inItemOrder items made), b₃),
              { w₂ with journal := events' }) ∧
          b₃.setup = b.setup := by
  obtain ⟨events, hloaded⟩ := b.run_runLoaded_eq items w
  refine ⟨b.counted items, events, rfl, rfl, fun order r b₂ w₂ hrun => ?_⟩
  have hitems := (b.counted items).setup_runItems items order { w with journal := events }
  rw [hrun] at hitems
  obtain ⟨b₃, events', hrun', hsetup, _⟩ := hloaded order r b₂ w₂ hrun
  exact ⟨b₃, events', hrun', hsetup.trans hitems⟩

/-- A batch that has loaded schemas for items. -/
def loaded (b : Batch) (w : Workplace) (items : List Item) : Batch :=
  { b with
    stats.total := items.length
    schemas := b.schemas ++ (b.newSchemas w items).takeWhile (Schema.isKept ·.2) }

/-- A run loads the schemas that are new, of which one may break it off, and then runs the items. -/
theorem run_eq_runLoaded (b : Batch) {items : List Item} (hne : items ≠ []) (w : Workplace) :
    ∃ events, ((∀ order, (b.run items order).run w =
        ((b.loaded w items).runLoaded items order).run { w with journal := events }) ∧
        ∀ s ∈ b.newSchemas w items, Schema.isKept s.2 = true) ∨
      (∃ s ∈ b.newSchemas w items, Schema.isKept s.2 = false) ∧
        ∃ e, ∀ order, (b.run items order).run w =
          ((.error e, b.loaded w items), { w with journal := events }) := by
  have hnote : (Work.note (.started items.length)).run w =
      ((), { w with journal := w.journal ++ [.started items.length] }) := rfl
  obtain ⟨r, events, hload, hr⟩ := run_loadSchemas_eq { b with stats.total := items.length } items
    { w with journal := w.journal ++ [.started items.length] }
  have hnew : newSchemas { b with stats.total := items.length }
      { w with journal := w.journal ++ [.started items.length] } items = b.newSchemas w items := by
    simp only [newSchemas, schemasOf, Schema.ofSource_journal]
  rw [hnew] at hload hr
  refine ⟨events, ?_⟩
  cases r with
  | ok u =>
      refine Or.inl ⟨fun order => ?_, hr.elim (·.2) fun h => absurd rfl h.1⟩
      rw [run, if_neg (by simpa using hne), Work.run_bind, hnote, Work.run_bind, hload]
      rfl
  | error e =>
      refine Or.inr ⟨(hr.resolve_left (by simp)).2, e, fun order => ?_⟩
      rw [run, if_neg (by simpa using hne), Work.run_bind, hnote, Work.run_bind, hload]
      rfl

/-- A batch that has loaded the schemas of items, after those of others. -/
def ready (b : Batch) (w : Workplace) (known items : List Item) : Batch :=
  { b with
    stats.total := items.length
    schemas := schemasOf w (known ++ newcomers w known items) }

/-- The same run, where the schema sources are as they were when the batch loaded others. -/
theorem run_cases {b : Batch} {w₀ w : Workplace} {known items : List Item} (hne : items ≠ [])
    (hb : b.schemas = schemasOf w₀ known)
    (hw : ∀ i ∈ items, Schema.describe w i.schema = Schema.describe w₀ i.schema) :
    ∃ events, ((∀ order, (b.run items order).run w =
        ((b.ready w₀ known items).runLoaded items order).run { w with journal := events }) ∧
        newcomers w₀ known items = firstItems (known.map (·.schema.key)) items) ∨
      (∃ i ∈ items, Schema.isKept (Schema.ofSource w₀ i.schema) = false) ∧
        ∃ e, ∀ order, (b.run items order).run w =
          ((.error e, b.ready w₀ known items), { w with journal := events }) := by
  have hready : b.loaded w items = b.ready w₀ known items := by
    rw [loaded, schemas_newcomers hb hw]
    rfl
  have hcases := b.run_eq_runLoaded hne w
  rw [hready, newSchemas_eq hb hw] at hcases
  obtain ⟨events, ⟨hrun, hkept⟩ | ⟨⟨s, hs, hlost⟩, hrun⟩⟩ := hcases
  · refine ⟨events, Or.inl ⟨hrun, List.takeWhile_eq_self_iff.mpr fun i hi => ?_⟩⟩
    exact hkept _ (List.mem_map_of_mem hi)
  · obtain ⟨i, hi, rfl⟩ := List.mem_map.mp hs
    exact ⟨events, Or.inr ⟨⟨i, mem_firstItems hi, hlost⟩, hrun⟩⟩

end Harvest.Batch
