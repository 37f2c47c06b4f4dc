import Harvest.Proofs.Batch.Isolation

/-!
# Flushes

What a run does to a store that holds records back, and to its file, is settled by the records that
it gives the store: they go whenever enough of them are there, so that the number of those that are
held back at the end is known beforehand, whichever writings fail.
-/

namespace Harvest

namespace RecordStore

/-- What taking a record does to a store and to the files. -/
inductive Step (s : RecordStore) (fs : FileSystem) (r : Record) : RecordStore → FileSystem → Prop
  | held (hroom : ((s.push r).buffer.length : Int) < s.capacity) : Step s fs r (s.push r) fs
  | written {fs' : FileSystem} (hfull : s.capacity ≤ (s.push r).buffer.length)
      (hwrite : fs.writeText s.path s.opening (Record.lines (s.push r).buffer) = (.ok (), fs')) :
      Step s fs r (s.push r).afterWrite fs'
  | lost {fs' : FileSystem} {e : FileError} (hfull : s.capacity ≤ (s.push r).buffer.length)
      (hwrite : fs.writeText s.path s.opening (Record.lines (s.push r).buffer) = (.error e, fs')) :
      Step s fs r (s.push r).afterLoss fs'

/-- What taking records one after the other does to a store and to the files. -/
inductive Steps : RecordStore → FileSystem → List Record → RecordStore → FileSystem → Prop
  | nil (s : RecordStore) (fs : FileSystem) : Steps s fs [] s fs
  | cons {s t u : RecordStore} {fs fs₁ fs₂ : FileSystem} {r : Record} {rs : List Record}
      (hstep : s.Step fs r t fs₁) (hrest : Steps t fs₁ rs u fs₂) : Steps s fs (r :: rs) u fs₂

section
variable {s t : RecordStore} {fs fs' : FileSystem} {r : Record} {rs : List Record}

theorem Step.path (h : s.Step fs r t fs') : t.path = s.path := by cases h <;> rfl

theorem Step.capacity (h : s.Step fs r t fs') : t.capacity = s.capacity := by cases h <;> rfl

theorem Steps.path (h : Steps s fs rs t fs') : t.path = s.path := by
  induction h with
  | nil => rfl
  | cons hstep _ ih => exact ih.trans hstep.path

/-! ## How many records are held back -/

theorem Step.length_buffer (h : s.Step fs r t fs') (hspace : (s.buffer.length : Int) < s.capacity) :
    (t.buffer.length : Int) = (s.buffer.length + 1) % s.capacity := by
  have hpush : (s.push r).buffer.length = s.buffer.length + 1 := by simp [push]
  cases h with
  | held hroom =>
      rw [hpush] at hroom ⊢
      push_cast at hroom ⊢
      rw [Int.emod_eq_of_lt (by omega) hroom]
  | written hfull _ =>
      rw [hpush] at hfull
      have hall : (s.buffer.length : Int) + 1 = s.capacity := by omega
      rw [hall, Int.emod_self]
      rfl
  | lost hfull _ =>
      rw [hpush] at hfull
      have hall : (s.buffer.length : Int) + 1 = s.capacity := by omega
      rw [hall, Int.emod_self]
      rfl

/-- As many records are held back as all records leave over when they are counted off by the
capacity. -/
theorem Steps.length_buffer (h : Steps s fs rs t fs')
    (hspace : (s.buffer.length : Int) < s.capacity) :
    (t.buffer.length : Int) = (s.buffer.length + rs.length) % s.capacity := by
  induction h with
  | nil s fs =>
      rw [List.length_nil, Nat.cast_zero, add_zero, Int.emod_eq_of_lt (by omega) hspace]
  | @cons s t u fs fs₁ fs₂ r rs hstep hrest ih =>
      have hlength := hstep.length_buffer hspace
      have hpos : 0 < s.capacity := by omega
      have hspace' : (t.buffer.length : Int) < t.capacity := by
        rw [hlength, hstep.capacity]
        exact Int.emod_lt_of_pos _ hpos
      rw [ih hspace', hstep.capacity, hlength, Int.emod_add_emod, List.length_cons]
      push_cast
      ring_nf

/-! ## Files that cannot be written -/

/-- Where the file cannot be written, nothing is, and no file changes. -/
theorem Step.blocked (h : s.Step fs r t fs') (hfile : ¬ fs.Writable s.path) :
    t.batches = s.batches ∧ ∃ mishaps, fs' = fs.facing mishaps := by
  cases h with
  | held => exact ⟨rfl, fs.mishaps, rfl⟩
  | written _ hwrite =>
      obtain ⟨e, he, _⟩ | ⟨q, _, hlocate, hdir, _⟩ := FileSystem.write_cases hwrite
      · cases he
      · exact (hfile ⟨q, hlocate, hdir⟩).elim
  | lost _ hwrite =>
      obtain ⟨_, _, rfl⟩ | ⟨q, _, hlocate, hdir, _⟩ := FileSystem.write_cases hwrite
      · exact ⟨rfl, _, rfl⟩
      · exact (hfile ⟨q, hlocate, hdir⟩).elim

theorem Steps.blocked (h : Steps s fs rs t fs') (hfile : ¬ fs.Writable s.path) :
    t.batches = s.batches ∧ ∃ mishaps, fs' = fs.facing mishaps := by
  induction h with
  | nil s fs => exact ⟨rfl, fs.mishaps, rfl⟩
  | cons hstep _ ih =>
      obtain ⟨hbatches, mishaps, rfl⟩ := hstep.blocked hfile
      rw [← FileSystem.writable_facing, ← hstep.path] at hfile
      obtain ⟨hbatches', mishaps', rfl⟩ := ih hfile
      exact ⟨hbatches'.trans hbatches, mishaps', rfl⟩

end

end RecordStore

theorem RecordStore.Steps.append {s t u : RecordStore} {fs fs₁ fs₂ : FileSystem}
    {rs rs' : List Record} (h : s.Steps fs rs t fs₁) (h' : t.Steps fs₁ rs' u fs₂) :
    s.Steps fs (rs ++ rs') u fs₂ := by
  induction h with
  | nil => exact h'
  | cons hstep _ ih => exact .cons hstep (ih h')

namespace Batch

section
variable {b b₁ : Batch} {s : RecordStore} {items : List Item} {order : List Nat} {w w₁ : Workplace}

/-! ## A run of items -/

theorem saveResult_step {i : Item} {result : Members} {found : Option Finding}
    (hs : b.store = .records s) (hrun : (b.saveResult i result).run w = ((found, b₁), w₁)) :
    ∃ t, b₁.store = .records t ∧ s.Step w.files (recordOf i result) t w₁.files := by
  obtain ⟨hroom, _, rfl, rfl⟩ | ⟨hfull, _, rfl, hwrite⟩ | ⟨e, hfull, _, rfl, hwrite⟩ :=
    saveResult_cases hs rfl hrun
  · exact ⟨_, rfl, .held hroom⟩
  · exact ⟨_, rfl, .written hfull hwrite⟩
  · refine ⟨_, ?_, .lost hfull hwrite⟩
    rw [foldl_withdraw]

theorem Turn.steps {n : Nat} {found : Option Finding} (h : b.Turn items n w found b₁ w₁)
    (hs : b.store = .records s) : ∃ t, b₁.store = .records t ∧
      s.Steps w.files (record? items (b.given? items w.files n) n).toList t w₁.files := by
  cases h with
  | passed hnone =>
      rw [given?_eq_none hnone, record?_none]
      exact ⟨s, hs, .nil s _⟩
  | failed _ hgiven events =>
      rw [hgiven, record?_none]
      exact ⟨s, hs, .nil s _⟩
  | empty hgiven events =>
      rw [hgiven, record?_nil]
      exact ⟨s, hs, .nil s _⟩
  | @saved i m ms _ _ _ hi hgiven hsave =>
      obtain ⟨t, ht, hstep⟩ := saveResult_step hs hsave
      rw [hgiven, record?_cons hi]
      exact ⟨t, ht, .cons hstep (.nil t _)⟩

/-- What a run of items does to the store is taking the records that the items give. -/
theorem runItems_steps {made : List (Nat × Finding)} (hs : b.store = .records s)
    (hnodup : order.Nodup) (hrun : (b.runItems items order).run w = ((.ok made, b₁), w₁)) :
    ∃ t, b₁.store = .records t ∧ s.Steps w.files
      (order.filterMap fun n => record? items (b.turnGiven? items order w n) n) t w₁.files := by
  induction order generalizing b w s made with
  | nil =>
      obtain ⟨_, rfl, rfl⟩ := Work.outcome_inj hrun
      exact ⟨s, hs, .nil s _⟩
  | cons n order ih =>
      obtain ⟨hn, hnodup⟩ := List.nodup_cons.mp hnodup
      obtain ⟨found, b₂, w₂, rest, hturn, hgoes, hitems, rfl⟩ := runItems_cons_ok hrun
      obtain ⟨t, ht, hsteps⟩ := hturn.steps hs
      obtain ⟨u, hu, hsteps'⟩ := ih ht hnodup hitems
      rw [hgoes.filterMap_turnGiven? hn fun k given => record? items given k]
      exact ⟨u, hu, hsteps.append hsteps'⟩

/-! ## A whole run -/

/-- What a run does to the store is taking the records that the items give. -/
theorem run_steps {found : List Finding} (hs : b.store = .records s)
    (horder : order.Perm (List.range items.length))
    (hrun : (b.run items order).run w = ((.ok found, b₁), w₁)) :
    ∃ t, b₁.store = .records t ∧ s.Steps w.files
      (order.filterMap fun n => record? items (b.runGiven? items order w n) n) t w₁.files := by
  by_cases hne : items = []
  · subst hne
    obtain rfl : order = [] := List.Perm.eq_nil horder
    obtain ⟨_, rfl, rfl⟩ := Work.outcome_inj hrun
    exact ⟨s, hs, .nil s _⟩
  obtain ⟨_, _, events, made, b₂, w₂, hitems, hfiles, _, rfl, hgiven⟩ := run_eq_runItems hne hrun
  have hstart : ((b.loaded w items).counted items).store = .records s := hs
  obtain ⟨t, ht, hsteps⟩ :=
    runItems_steps hstart (horder.nodup_iff.mpr List.nodup_range) hitems
  rw [← funext hgiven, ← hfiles] at hsteps
  exact ⟨t, ht, hsteps⟩

/-- The items of which each is the first of its key have different keys, none of them known. -/
theorem nodup_firstItems (known : List String) (items : List Item) :
    ((firstItems known items).map (·.schema.key)).Nodup ∧
      ∀ i ∈ firstItems known items, i.schema.key ∉ known := by
  induction items generalizing known with
  | nil => exact ⟨.nil, nofun⟩
  | cons i is ih =>
      rw [firstItems]
      split
      · exact ih known
      · rename_i hi
        obtain ⟨hnodup, hnew⟩ := ih (i.schema.key :: known)
        refine ⟨List.nodup_cons.mpr ⟨fun hmem => ?_, hnodup⟩, fun j hj => ?_⟩
        · obtain ⟨j, hj, hkey⟩ := List.mem_map.mp hmem
          exact hnew j hj (hkey ▸ List.mem_cons_self)
        · rcases List.mem_cons.mp hj with rfl | hj
          · simpa using hi
          · exact fun hmem => hnew j hj (List.mem_cons_of_mem _ hmem)

/-- A batch does not know a schema that breaks off its run. -/
theorem schemaOf?_loaded {i : Item} (hi : i ∈ firstItems (b.schemas.map (·.1)) items)
    (hlost : Schema.isKept (Schema.ofSource w i.schema) = false) :
    (b.loaded w items).schemaOf? i = none := by
  obtain ⟨hnodup, hnew⟩ := nodup_firstItems (b.schemas.map (·.1)) items
  rw [schemaOf?, loaded, List.lookup_eq_none_iff]
  intro p hp
  rcases List.mem_append.mp hp with hp | hp
  · have hne : i.schema.key ≠ p.1 := fun h => hnew i hi (h ▸ List.mem_map_of_mem hp)
    simpa using hne
  · obtain ⟨j, hj, rfl⟩ := List.mem_map.mp ((List.takeWhile_sublist _).subset hp)
    have hkept := List.mem_takeWhile_imp hp
    have hne : i.schema.key ≠ j.schema.key := by
      intro hkey
      obtain rfl := List.inj_on_of_nodup_map hnodup hi hj hkey
      rw [hlost] at hkept
      cases hkept
    simpa using hne

/-- Where each item gives something, the run is not broken off. -/
theorem exists_run_of_given (horder : order.Perm (List.range items.length))
    (hgiven : ∀ n < items.length, (b.runGiven? items order w n).isSome = true) :
    ∃ found b₁ w₁, (b.run items order).run w = ((.ok found, b₁), w₁) := by
  refine (exists_run_iff horder).mpr ⟨?_, fun n hn => ?_⟩
  · intro s hs
    obtain ⟨i, hi, rfl⟩ := List.mem_map.mp hs
    have hmem := mem_firstItems hi
    obtain ⟨events, ⟨_, hkept⟩ | ⟨_, e, hrun⟩⟩ := b.run_eq_runLoaded (List.ne_nil_of_mem hmem) w
    · exact hkept _ hs
    · by_contra hlost
      obtain ⟨n, hn, rfl⟩ := List.getElem_of_mem hmem
      have hsome := hgiven n hn
      have hnone := schemaOf?_loaded hi (Bool.eq_false_iff.mpr hlost)
      rw [runGiven?, hrun] at hsome
      simp [given?, List.getElem?_eq_getElem hn, hnone] at hsome
  · have hsome := hgiven n hn
    rw [runGiven?_eq_bind] at hsome
    cases hreading : b.runReading? items order w n with
    | none => rfl
    | some r =>
        cases r with
        | ok result => rfl
        | error e =>
            rw [hreading] at hsome
            cases hsome

/-! ## The end -/

/-- The end reports a loss just if it loses something; where the file cannot be written, that is all
that is held back. -/
theorem finish_reply {reply : Except LostRecords Unit} (hs : b.store = .records s)
    (hrun : b.finish.run w = ((reply, b₁), w₁)) :
    ∃ t, b₁.store = .records t ∧ t.buffer = [] ∧ (reply = .ok () ↔ t.failed = s.failed) ∧
      (s.buffer = [] → reply = .ok ()) ∧
      (¬ w.files.Writable s.path → t.batches = s.batches ∧ (reply = .ok () ↔ s.buffer = [])) := by
  rcases hend : s.finish.run w with ⟨⟨r, t⟩, w₂⟩
  rw [Batch.finish, Work.run_bind, run_finish_records hs hend] at hrun
  obtain ⟨hnil, rfl, rfl, _⟩ | ⟨hne, rfl, rfl, hwrite⟩ | ⟨e, hne, rfl, rfl, _⟩ :=
    RecordStore.finish_cases hend
  · obtain ⟨rfl, rfl, _⟩ := Work.outcome_inj hrun
    exact ⟨_, rfl, hnil, by simp, fun _ => rfl, fun _ => ⟨rfl, by simp [hnil]⟩⟩
  · obtain ⟨rfl, rfl, _⟩ := Work.outcome_inj hrun
    refine ⟨s.afterWrite, rfl, rfl, by simp [RecordStore.afterWrite], fun _ => rfl, fun hfile => ?_⟩
    obtain ⟨e, he, _⟩ | ⟨q, _, hlocate, hdir, _⟩ := FileSystem.write_cases hwrite
    · cases he
    · exact (hfile ⟨q, hlocate, hdir⟩).elim
  · obtain ⟨rfl, rfl, _⟩ := Work.outcome_inj hrun
    refine ⟨s.afterLoss, ?_, rfl, ?_, fun hnil => absurd hnil hne, fun _ => ⟨rfl, ?_⟩⟩
    · rw [foldl_withdraw]
    · simpa [RecordStore.afterLoss] using hne
    · simp [hne]

end

end Batch

end Harvest
