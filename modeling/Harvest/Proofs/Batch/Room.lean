import Harvest.Proofs.Batch.Items

/-!
# Batches with room

A batch that holds its records back writes nothing while it has room for them: its runs leave the
files as they are, and every item whose document gives something has a record.
-/

namespace Harvest.Batch

/-- Whether a batch holds records back and has room for some more of them. -/
def HasRoom (b : Batch) (n : Nat) : Prop :=
  ∃ s, b.store = .records s ∧ (s.buffer.length + n : Int) < s.capacity

theorem HasRoom.mono {b : Batch} {m n : Nat} (h : b.HasRoom n) (hmn : m ≤ n) : b.HasRoom m := by
  obtain ⟨s, hs, hroom⟩ := h
  exact ⟨s, hs, by omega⟩

theorem mem_saved_countSaved (b : Batch) (source : String) :
    source ∈ (b.countSaved source).saved ∧ b.saved ⊆ (b.countSaved source).saved := by
  unfold countSaved
  dsimp only
  split
  · rename_i h
    exact ⟨by simpa using h, List.Subset.refl _⟩
  · exact ⟨by simp, List.subset_append_left _ _⟩

theorem run_saveResult_room {b : Batch} {n : Nat} (h : b.HasRoom (n + 1)) (i : Item)
    (result : Members) (w : Workplace) : ∃ (f : Finding) (b₁ : Batch),
      (b.saveResult i result).run w = ((some f, b₁), w) ∧ f.record.source = i.path ∧
        b₁.HasRoom n ∧ i.path ∈ b₁.saved ∧ b.saved ⊆ b₁.saved := by
  obtain ⟨s, hs, hroom⟩ := h
  let s₁ := s.push (Record.ofResult i.path result (some i.outputName))
  have hlength : s₁.buffer.length = s.buffer.length + 1 := by
    simp [s₁, RecordStore.push]
  have hfull : s₁.isFull = false := by
    rw [RecordStore.isFull, hlength, decide_eq_false_iff_not]
    change ¬ s.capacity ≤ _
    omega
  have hsave : (b.store.save i.path result (some i.outputName)).run w =
      ((.ok (some s.path), .records s₁), w) := by
    rw [hs, Store.save, Work.run_bind, RecordStore.save]
    simp only [s₁] at hfull
    rw [if_neg (by simp [hfull])]
    rfl
  obtain ⟨hmem, hsub⟩ := mem_saved_countSaved { b with store := .records s₁ } i.path
  refine ⟨_, _, by rw [saveResult, Work.run_bind, hsave]; rfl, rfl, ⟨s₁, rfl, ?_⟩, hmem, hsub⟩
  rw [hlength]
  change _ < s.capacity
  omega

theorem run_runItem_room {b : Batch} {n : Nat} (h : b.HasRoom (n + 1)) (i : Item)
    (schema : Schema) (w : Workplace) :
    ∃ (r : Except BatchError (Option Finding)) (b₁ : Batch) (events : List Event),
      (b.runItem i schema).run w = ((r, b₁), { w with journal := events }) ∧
        b₁.HasRoom n ∧ b.saved ⊆ b₁.saved ∧
        ∀ m ms, b.extractDocument w.files i schema = .ok (m :: ms) →
          ∃ f, r = .ok (some f) ∧ f.record.source ∈ b₁.saved := by
  have hfiles : Work.files.run w = (w.files, w) := rfl
  have hless : b.HasRoom n := h.mono (Nat.le_succ n)
  rw [runItem, Work.run_bind, hfiles]
  dsimp only
  cases hread : b.extractDocument w.files i schema with
  | error e =>
      dsimp only
      split
      · exact ⟨_, b.countFailed, _, rfl, hless, List.Subset.refl _, by simp⟩
      · exact ⟨_, b, w.journal, rfl, hless, List.Subset.refl _, by simp⟩
  | ok result =>
      cases result with
      | nil => exact ⟨_, b.countSkipped, _, rfl, hless, List.Subset.refl _, by simp⟩
      | cons m ms =>
          obtain ⟨f, b₁, hsave, hsource, hroom, hmem, hsub⟩ := run_saveResult_room h i (m :: ms) w
          refine ⟨.ok (some f), b₁, w.journal, ?_, hroom, hsub, fun _ _ _ => ⟨f, rfl, ?_⟩⟩
          · dsimp only
            rw [Work.run_bind, hsave]
            rfl
          · rwa [hsource]

/-- Running items leaves the files as they are while there is room for all records, and finds
something at every position whose document gives something. -/
theorem run_runItems_room {b : Batch} {items : List Item} {order : List Nat}
    (h : b.HasRoom order.length) (w : Workplace) :
    ∃ (r : Except BatchError (List (Nat × Finding))) (b₁ : Batch) (events : List Event),
      (b.runItems items order).run w = ((r, b₁), { w with journal := events }) ∧
        b.saved ⊆ b₁.saved ∧
        ((∀ n ∈ order, ∃ i schema m ms, items[n]? = some i ∧
            b.schemaOf? i = some (.ok schema) ∧
            b.extractDocument w.files i schema = .ok (m :: ms)) →
          ∃ made, r = .ok made ∧ made.map (·.1) = order ∧
            ∀ p ∈ made, p.2.record.source ∈ b₁.saved) := by
  induction order generalizing b w with
  | nil => exact ⟨.ok [], b, w.journal, rfl, List.Subset.refl _, fun _ => ⟨[], rfl, rfl, by simp⟩⟩
  | cons n order ih =>
      by_cases hitem : ∃ i schema, items[n]? = some i ∧ b.schemaOf? i = some (.ok schema)
      · obtain ⟨i, schema, hi, hschema⟩ := hitem
        obtain ⟨r₁, b₁, events₁, hrun, hroom, hsub, hfound⟩ := run_runItem_room h i schema w
        obtain ⟨hsetup, _⟩ := b.run_runItem i schema w
        rw [hrun] at hsetup
        have hhead : (∃ j schema' m ms, items[n]? = some j ∧ b.schemaOf? j = some (.ok schema') ∧
            b.extractDocument w.files j schema' = .ok (m :: ms)) →
              ∃ f, r₁ = .ok (some f) ∧ f.record.source ∈ b₁.saved := by
          rintro ⟨j, schema', m, ms, hj, hschema', hread⟩
          obtain rfl : i = j := by simpa [hi] using hj
          obtain rfl : schema = schema' := by simpa [hschema] using hschema'
          exact hfound m ms hread
        cases r₁ with
        | error e =>
            refine ⟨.error e, b₁, events₁, run_runItems_error hi hschema hrun order, hsub,
              fun hgood => ?_⟩
            obtain ⟨f, hf, _⟩ := hhead (hgood n List.mem_cons_self)
            cases hf
        | ok found =>
            obtain ⟨r, b₂, events, hrest, hsub₂, hmade⟩ := ih hroom { w with journal := events₁ }
            refine ⟨r.map fun rest => (found.map (n, ·)).toList ++ rest, b₂, events, ?_,
              List.Subset.trans hsub hsub₂, fun hgood => ?_⟩
            · rw [run_runItems_ok hi hschema hrun, hrest]
            · obtain ⟨f, hf, hsaved⟩ := hhead (hgood n List.mem_cons_self)
              obtain rfl := Except.ok.inj hf
              -- the files are as they were, so what the others give is what they gave before
              have hgood' : ∀ k ∈ order, ∃ i schema m ms, items[k]? = some i ∧
                  b₁.schemaOf? i = some (.ok schema) ∧
                  b₁.extractDocument w.files i schema = .ok (m :: ms) := by
                obtain ⟨hdefaults, hregistry, hschemas⟩ := setup_eq_iff.mp hsetup
                rw [schemaOf?_congr hschemas, extractDocument_congr hdefaults hregistry]
                exact fun k hk => hgood k (List.mem_cons_of_mem n hk)
              obtain ⟨made, rfl, hmap, hall⟩ := hmade hgood'
              refine ⟨(n, f) :: made, rfl, by simp [hmap], fun p hp => ?_⟩
              rcases List.mem_cons.mp hp with rfl | hp
              · exact hsub₂ hsaved
              · exact hall p hp
      · rw [runItems_skip fun i schema hi hschema => hitem ⟨i, schema, hi, hschema⟩]
        obtain ⟨r, b₁, events, hrun, hsub, hmade⟩ := ih (h.mono (Nat.le_succ _)) w
        refine ⟨r, b₁, events, hrun, hsub, fun hgood => ?_⟩
        obtain ⟨i, schema, _, _, hi, hschema, _⟩ := hgood n List.mem_cons_self
        exact absurd ⟨i, schema, hi, hschema⟩ hitem

/-! ## Whole runs -/

section
variable {b : Batch} {w₀ w : Workplace} {known items : List Item}

theorem files_run_room {order : List Nat} (hb : b.schemas = schemasOf w₀ known)
    (hw : ∀ i ∈ items, Schema.describe w i.schema = Schema.describe w₀ i.schema)
    (h : b.HasRoom order.length) : ((b.run items order).run w).2.files = w.files := by
  by_cases hne : items = []
  · subst hne
    rfl
  obtain ⟨events, ⟨hrun, _⟩ | ⟨_, e, hrun⟩⟩ := run_cases hne hb hw
  · obtain ⟨b₁, events₁, _, hstore, hloaded⟩ :=
      (b.ready w₀ known items).run_runLoaded items { w with journal := events }
    have hroom : b₁.HasRoom order.length := by
      rw [HasRoom, hstore]
      exact h
    obtain ⟨r, b₂, events₂, hitems, _⟩ :=
      @run_runItems_room _ items _ hroom { w with journal := events₁ }
    obtain ⟨b₃, events₃, hrun', _⟩ := hloaded order _ _ _ hitems
    rw [hrun, hrun']
  · rw [hrun]

/-- Where there is room for all records, every schema is loaded and every document gives something,
there is a record for each item. -/
theorem exists_run_room (hne : items ≠ []) (hb : b.schemas = schemasOf w₀ known)
    (hw : ∀ i ∈ items, Schema.describe w i.schema = Schema.describe w₀ i.schema)
    (h : b.HasRoom items.length)
    (hkept : ∀ i ∈ items, Schema.isKept (Schema.ofSource w₀ i.schema) = true)
    (hgood : ∀ i ∈ items, ∃ j schema m ms, leader? (known ++ newcomers w₀ known items) i = some j ∧
      Schema.ofSource w₀ j.schema = .ok schema ∧
        b.extractDocument w.files i schema = .ok (m :: ms)) :
    ∃ found b₁ w₁, (b.run items (oneByOne items)).run w = ((.ok found, b₁), w₁) ∧
      found.length = items.length := by
  obtain ⟨events, ⟨hrun, _⟩ | ⟨⟨i, hi, hlost⟩, _⟩⟩ := run_cases hne hb hw
  swap
  · simp [hkept i hi] at hlost
  obtain ⟨b₁, events₁, hsetup, hstore, hloaded⟩ :=
    (b.ready w₀ known items).run_runLoaded items { w with journal := events }
  have hroom : b₁.HasRoom (oneByOne items).length := by
    rw [HasRoom, hstore, oneByOne, List.length_range]
    exact h
  obtain ⟨r, b₂, events₂, hitems, _, hmade⟩ :=
    @run_runItems_room _ items _ hroom { w with journal := events₁ }
  obtain ⟨hdefaults, hregistry, hschemas⟩ := setup_eq_iff.mp hsetup
  have hall : ∀ n ∈ oneByOne items, ∃ i schema m ms, items[n]? = some i ∧
      b₁.schemaOf? i = some (.ok schema) ∧ b₁.extractDocument w.files i schema = .ok (m :: ms) := by
    intro n hn
    have hlt : n < items.length := List.mem_range.mp hn
    obtain ⟨j, schema, m, ms, hj, hschema, hread⟩ := hgood items[n] (List.getElem_mem hlt)
    refine ⟨items[n], schema, m, ms, List.getElem?_eq_getElem hlt, ?_, ?_⟩
    · rw [schemaOf?_congr hschemas, schemaOf?, ready, lookup_schemasOf, hj,
        Option.map_some, hschema]
    · rw [extractDocument_congr hdefaults hregistry]
      exact hread
  obtain ⟨made, rfl, hpositions, hsaved⟩ := hmade hall
  obtain ⟨b₃, events₃, hrun', _⟩ := hloaded _ _ _ _ hitems
  refine ⟨b₂.kept (inItemOrder items made), b₃, _, (hrun _).trans hrun', ?_⟩
  -- each position has something, so that putting them in order loses nothing
  have hlookup : ∀ n ∈ List.range items.length, (made.lookup n).isSome = true := by
    intro n hn
    rw [← oneByOne, ← hpositions] at hn
    obtain ⟨p, hp, rfl⟩ := List.mem_map.mp hn
    exact List.lookup_isSome_iff.mpr ⟨p, hp, by simp⟩
  rw [kept_inItemOrder hsaved items, inItemOrder, List.filterMap_length_eq_length.mpr hlookup,
    List.length_range]

end

end Harvest.Batch
