import Harvest.Proofs.Batch.Orders

/-!
# Batches that run more than once

A batch keeps its numbers from one run to the next, except that of all documents, which each run
sets to the number of its own items.  However many runs there were, successes, failures and skipped
documents count each item of each run once, if all the documents are distinct.
-/

namespace Harvest

/-- The records that a store holds back. -/
def Store.held : Store → List Record
  | documents _ => []
  | records s => s.buffer

namespace Batch

/-- How many documents were counted as a success, a failure or skipped. -/
def settled (b : Batch) : Int := b.stats.success + b.stats.failed + b.stats.skipped

/-- A batch that has settled a number of documents, which are among the given ones.  The records
that its store holds back are of distinct documents that are taken for saved. -/
structure Balanced (b : Batch) (paths : List String) (count : Nat) (total : Int) : Prop where
  settled : b.settled = count
  total : b.stats.total = total
  saved : ∀ p ∈ b.saved, p ∈ paths
  nodup : (b.store.held.map (·.source)).Nodup
  held : ∀ r ∈ b.store.held, r.source ∈ b.saved

/-- The path of the item at a position, if there is one. -/
def pathAt? (items : List Item) (n : Nat) : Option String := items[n]?.map (·.path)

theorem filterMap_pathAt? (items : List Item) :
    (List.range items.length).filterMap (pathAt? items) = items.map (·.path) := by
  induction items with
  | nil => rfl
  | cons i is ih =>
      rw [List.length_cons, List.range_succ_eq_map, List.map_cons, ← ih, filterMap_cons_eq,
        List.filterMap_map]
      rfl

/-! ## One turn -/

namespace Balanced

variable {b b₁ : Batch} {paths : List String} {count : Nat} {total : Int} {w w₁ : Workplace}
  {items : List Item} {order : List Nat}

theorem mono (h : b.Balanced paths count total) {paths' : List String}
    (hsub : ∀ p ∈ paths, p ∈ paths') : b.Balanced paths' count total :=
  { h with saved := fun p hp => hsub p (h.saved p hp) }

theorem countFailed (h : b.Balanced paths count total) :
    b.countFailed.Balanced paths (count + 1) total := by
  refine { h with settled := ?_ }
  have hsettled := h.settled
  simp only [Batch.settled, Batch.countFailed] at hsettled ⊢
  omega

theorem countSkipped (h : b.Balanced paths count total) :
    b.countSkipped.Balanced paths (count + 1) total := by
  refine { h with settled := ?_ }
  have hsettled := h.settled
  simp only [Batch.settled, Batch.countSkipped] at hsettled ⊢
  omega

/-- A document whose record is held back or written counts as a success. -/
theorem countSaved (h : b.Balanced paths count total) (store : Store) (p : String)
    (hnodup : (store.held.map (·.source)).Nodup)
    (hheld : ∀ r ∈ store.held, r.source ∈ b.saved ∨ r.source = p) :
    (Batch.countSaved { b with store } p).Balanced (paths ++ [p]) (count + 1) total := by
  refine ⟨?_, h.total, fun q hq => ?_, hnodup, fun r hr => mem_countSaved.mpr (hheld r hr)⟩
  · have hsettled := h.settled
    simp only [Batch.settled, Batch.countSaved] at hsettled ⊢
    omega
  · obtain hq | rfl := mem_countSaved.mp hq
    · exact List.mem_append_left _ (h.saved q hq)
    · simp

/-- Where a new record is lost with all that were held back, one more document counts as failed,
and those of the others no longer count as successes but as failed. -/
theorem withdraw (h : b.Balanced paths count total) (store : Store) (hnone : store.held = [])
    {p : String} (hp : p ∉ paths) :
    ((b.store.held.map (·.source) ++ [p]).foldl Batch.withdraw { b with store }).Balanced
      (paths ++ [p]) (count + 1) total := by
  rw [foldl_withdraw]
  refine ⟨?_, h.total, fun q hq => ?_, by simp [hnone], by simp [hnone]⟩
  · have hset : (b.store.held.map (·.source) ++ [p]).toFinset ∩ b.saved.toFinset =
        (b.store.held.map (·.source)).toFinset := by
      ext q
      simp only [Finset.mem_inter, List.mem_toFinset, List.mem_append, List.mem_singleton]
      constructor
      · rintro ⟨hq | rfl, hsaved⟩
        · exact hq
        · exact absurd (h.saved q hsaved) hp
      · intro hq
        obtain ⟨r, hr, rfl⟩ := List.mem_map.mp hq
        exact ⟨Or.inl hq, h.held r hr⟩
    have hsettled := h.settled
    simp only [Batch.settled, hset, List.toFinset_card_of_nodup h.nodup, List.length_append,
      List.length_map, List.length_singleton] at hsettled ⊢
    push_cast
    omega
  · exact List.mem_append_left _ (h.saved q (List.mem_filter.mp hq).1)

theorem saveResult (h : b.Balanced paths count total) {i : Item} {result : Members}
    {found : Option Finding} (hi : i.path ∉ paths)
    (hrun : (b.saveResult i result).run w = ((found, b₁), w₁)) :
    b₁.Balanced (paths ++ [i.path]) (count + 1) total := by
  cases hs : b.store with
  | documents s =>
      rcases hsave : (s.save i.path result (some i.outputName)).run w with ⟨⟨p?, t⟩, w'⟩
      rw [run_saveResult_documents hs hsave] at hrun
      obtain ⟨-, rfl, -⟩ := Work.outcome_inj hrun
      cases p? with
      | some p => exact h.countSaved (.documents t) i.path List.nodup_nil (List.forall_mem_nil _)
      | none =>
          have hstore : Balanced { b with store := .documents t } paths count total :=
            ⟨h.settled, h.total, h.saved, List.nodup_nil, List.forall_mem_nil _⟩
          exact hstore.countFailed.mono fun p hp => List.mem_append_left _ hp
  | records s =>
      have hheld : b.store.held = s.buffer := by rw [hs]; rfl
      have hpush : (s.push (recordOf i result)).buffer.map (·.source) =
          b.store.held.map (·.source) ++ [i.path] := by
        rw [hheld, RecordStore.push, List.map_append]
        rfl
      obtain ⟨_, -, rfl, -⟩ | ⟨_, -, rfl, -⟩ | ⟨e, _, -, rfl, -⟩ := saveResult_cases hs rfl hrun
      · refine h.countSaved _ _ ?_ fun r hr => ?_
        · change ((s.push (recordOf i result)).buffer.map (·.source)).Nodup
          rw [hpush, List.nodup_append_comm, List.singleton_append, List.nodup_cons]
          refine ⟨fun hp => ?_, h.nodup⟩
          obtain ⟨r, hr, hsource⟩ := List.mem_map.mp hp
          exact hi (hsource ▸ h.saved _ (h.held r hr))
        · obtain hr | hr := List.mem_append.mp hr
          · exact Or.inl (h.held r (hheld ▸ hr))
          · rw [List.mem_singleton.mp hr]
            exact Or.inr rfl
      · exact h.countSaved _ _ List.nodup_nil (List.forall_mem_nil _)
      · rw [hpush]
        exact h.withdraw _ rfl hi

/-- A turn settles the document of the item there, if the item has a schema. -/
theorem turn (h : b.Balanced paths count total) {n : Nat} {found : Option Finding}
    (hn : ∀ p ∈ pathAt? items n, p ∉ paths) (hturn : b.Turn items n w found b₁ w₁) :
    b₁.Balanced (paths ++ (pathAt? items n).toList)
      (count + if b.hasTurn items n then 1 else 0) total := by
  have hsub : ∀ p ∈ paths, p ∈ paths ++ (pathAt? items n).toList :=
    fun p hp => List.mem_append_left _ hp
  have hhas : b.given? items w.files n ≠ none → b.hasTurn items n = true := by
    intro hgiven
    by_contra hnone
    exact hgiven (given?_eq_none (Bool.not_eq_true _ ▸ hnone) w.files)
  cases hturn with
  | passed hnone =>
      rw [hnone]
      exact h.mono hsub
  | failed hturn hgiven events =>
      rw [hturn]
      exact h.countFailed.mono hsub
  | empty hgiven events =>
      rw [hhas (by simp [hgiven])]
      exact h.countSkipped.mono hsub
  | @saved i m ms _ _ _ hi hgiven hsave =>
      have hpath : pathAt? items n = some i.path := by rw [pathAt?, hi]; rfl
      rw [hhas (by simp [hgiven]), hpath]
      exact h.saveResult (hn i.path hpath) hsave

/-! ## All items -/

theorem runItems (h : b.Balanced paths count total) {found : List (Nat × Finding)}
    (hnodup : (paths ++ order.filterMap (pathAt? items)).Nodup)
    (hrun : (b.runItems items order).run w = ((.ok found, b₁), w₁)) :
    b₁.Balanced (paths ++ order.filterMap (pathAt? items))
      (count + order.countP (b.hasTurn items)) total := by
  -- the paths of the items whose turn has come grow with the turns
  induction order generalizing b w paths count found with
  | nil =>
      obtain ⟨-, rfl, -⟩ := Work.outcome_inj hrun
      simpa using h
  | cons n order ih =>
      obtain ⟨first, b₂, w₂, rest, hturn, _, hitems, rfl⟩ := runItems_cons_ok hrun
      rw [filterMap_cons_eq, ← List.append_assoc] at hnodup ⊢
      have hn : ∀ p ∈ pathAt? items n, p ∉ paths := by
        intro p hp hmem
        rw [List.append_assoc, List.nodup_append] at hnodup
        exact hnodup.2.2 p hmem p (List.mem_append_left _ (by simpa using hp)) rfl
      have hafter := ih (h.turn hn hturn) hnodup hitems
      have hhas : b₂.hasTurn = b.hasTurn := hasTurn_congr (setup_eq_iff.mp hturn.setup).2.2
      rw [hhas] at hafter
      rw [List.countP_cons, Nat.add_comm (order.countP _), ← Nat.add_assoc]
      exact hafter

/-- A run settles each of its items once. -/
theorem run (h : b.Balanced paths count total) {found : List Finding} (hne : items ≠ [])
    (horder : order.Perm (List.range items.length))
    (hnodup : (paths ++ items.map (·.path)).Nodup)
    (hrun : (b.run items order).run w = ((.ok found, b₁), w₁)) :
    b₁.Balanced (paths ++ items.map (·.path)) (count + items.length) items.length := by
  obtain ⟨_, hschemas, events, made, b₂, w₂, hitems, _, _, rfl, _⟩ := run_eq_runItems hne hrun
  have hpaths : (order.filterMap (pathAt? items)).Perm (items.map (·.path)) := by
    rw [← filterMap_pathAt?]
    exact horder.filterMap _
  have hcount := countP_isNone (fun _ => none) hschemas (fun _ _ => rfl) horder
  have hstart : ((b.loaded w items).counted items).Balanced paths
      (count + items.countP (b.loaded w items).lacksSchema) items.length := by
    refine { h with settled := ?_, total := rfl }
    have hsettled := h.settled
    simp only [Batch.settled, counted, loaded] at hsettled ⊢
    push_cast
    omega
  have hafter := hstart.runItems ((hpaths.append_left paths).nodup_iff.mpr hnodup) hitems
  have hlacks : ((b.loaded w items).counted items).lacksSchema = (b.loaded w items).lacksSchema :=
    rfl
  have hlength : items.countP (b.loaded w items).lacksSchema +
      order.countP (((b.loaded w items).counted items).hasTurn items) = items.length := by
    rw [← @List.length_range items.length, ← horder.length_eq]
    rw [hlacks] at hcount
    simpa using hcount
  rw [Nat.add_assoc, hlength] at hafter
  have hsaved := hafter.mono fun p hp => (hpaths.append_left paths).mem_iff.mp hp
  exact { hsaved with }

end Balanced

/-! ## Runs one after the other -/

/-- A batch that has run lists of items one after the other, each in some order and from whatever
files there were then; none of the runs was broken off. -/
inductive Reused : Batch → List (List Item) → Prop
  /-- A batch that has counted and stored nothing yet. -/
  | start {b : Batch} (hstats : b.stats = {}) (hsaved : b.saved = []) (hheld : b.store.held = []) :
      Reused b []
  | run {b b₁ : Batch} {runs : List (List Item)} {items : List Item} {order : List Nat}
      {w w₁ : Workplace} {found : List Finding} (h : Reused b runs) (hne : items ≠ [])
      (horder : order.Perm (List.range items.length))
      (hrun : (b.run items order).run w = ((.ok found, b₁), w₁)) : Reused b₁ (runs ++ [items])

theorem Reused.balanced {b : Batch} {runs : List (List Item)} (h : Reused b runs)
    (hdistinct : (runs.flatten.map (·.path)).Nodup) :
    b.Balanced (runs.flatten.map (·.path)) runs.flatten.length
      ((runs.getLast?.map List.length).getD 0) := by
  induction h with
  | start hstats hsaved hheld =>
      refine ⟨?_, ?_, by simp [hsaved], by simp [hheld], by simp [hheld]⟩
      · simp [settled, hstats]
      · simp [hstats]
  | @run b b₁ runs items order w w₁ found h hne horder hrun ih =>
      rw [List.flatten_concat, List.map_append] at hdistinct ⊢
      have hafter := (ih hdistinct.of_append_left).run hne horder hdistinct hrun
      rw [List.length_append]
      simpa using hafter

theorem Reused.ne_nil {b : Batch} {runs : List (List Item)} (h : Reused b runs) :
    ∀ items ∈ runs, items ≠ [] := by
  induction h with
  | start => nofun
  | run h hne _ _ ih => exact List.forall_mem_append.mpr ⟨ih, by simpa using hne⟩

/-- After runs of distinct documents, whichever writings failed: successes, failures and skipped
documents count each document of each run once, while the number of all documents is that of the
last run.  So the numbers add up just if there was no run before. -/
theorem reused_counts_iff {b : Batch} {runs : List (List Item)} {last : List Item}
    (h : Reused b (runs ++ [last])) (hdistinct : ((runs ++ [last]).flatten.map (·.path)).Nodup) :
    b.stats.total = last.length ∧
      b.stats.success + b.stats.failed + b.stats.skipped = (runs ++ [last]).flatten.length ∧
      (b.stats.success + b.stats.failed + b.stats.skipped = b.stats.total ↔ runs = []) := by
  have hbalanced := h.balanced hdistinct
  have htotal : b.stats.total = last.length := by simpa using hbalanced.total
  have hsettled : b.stats.success + b.stats.failed + b.stats.skipped =
      (runs ++ [last]).flatten.length := hbalanced.settled
  refine ⟨htotal, hsettled, ?_⟩
  rw [htotal, hsettled, List.flatten_concat, List.length_append]
  constructor
  · intro hsum
    have hnone : runs.flatten = [] := List.length_eq_zero_iff.mp (by omega)
    cases runs with
    | nil => rfl
    | cons items runs =>
        rw [List.flatten_cons, List.append_eq_nil_iff] at hnone
        exact absurd hnone.1 (h.ne_nil items (by simp))
  · rintro rfl
    simp

/-! ## Two runs -/

theorem newcomers_kindFirst : newcomers spoiltPlace [] [kindFirst] = [kindFirst] := by
  obtain ⟨schema, _, _, hschema, _⟩ := exists_schema_spoilt
  simp [newcomers, firstItems, hschema, Schema.isKept]

theorem exists_run_spoilt {b : Batch} {known : List Item} {i : Item}
    (hsetup : b.setup = (sampleBatch.defaults, sampleBatch.registry, schemasOf spoiltPlace known))
    (hroom : b.HasRoom 1) (hsource : i.schema = kindFirst.schema) (hscope : i.scope = none)
    (hread : spoiltPlace.files.readLossyText (Path.ofString i.path) = .ok "<p>1</p>")
    (hleader : leader? (known ++ newcomers spoiltPlace known [i]) i = some kindFirst) :
    ∃ found b₁ w₁, (b.run [i] [0]).run spoiltPlace = ((.ok found, b₁), w₁) := by
  obtain ⟨schema, m, ms, hschema, hgives⟩ := exists_schema_spoilt
  have hparts : b.defaults = sampleBatch.defaults ∧ b.registry = sampleBatch.registry ∧
      b.schemas = schemasOf spoiltPlace known := by simpa [setup] using hsetup
  obtain ⟨hdefaults, hregistry, hschemas⟩ := hparts
  have horder : oneByOne [i] = [0] := rfl
  obtain ⟨found, b₁, w₁, hrun, -⟩ := @exists_run_room b spoiltPlace spoiltPlace known [i] (by simp)
    hschemas (fun _ _ => rfl) hroom
    (fun j hj => by
      rw [List.mem_singleton.mp hj, hsource, hschema]
      rfl)
    (fun j hj => by
      obtain rfl := List.mem_singleton.mp hj
      refine ⟨kindFirst, schema, m, ms, hleader, hschema, ?_⟩
      rw [extractDocument_congr hdefaults hregistry]
      exact hgives j hread hscope)
  rw [horder] at hrun
  exact ⟨found, b₁, w₁, hrun⟩

/-- A page and then another one, each in a run of its own. -/
theorem exists_reused : ∃ b, Reused b [[kindFirst], [leafFirst]] := by
  obtain ⟨found₁, b₁, w₁, hfirst⟩ := @exists_run_spoilt sampleBatch [] kindFirst rfl
    ⟨_, rfl, by decide⟩ rfl rfl read_spoilt_page (by simp [newcomers_kindFirst, leader?])
  obtain ⟨s, _, hs, _, _, hcapacity, _⟩ :=
    @accounts_run {} .standard (Path.ofString "found") 100 [kindFirst] [0] _ _ _ _ (.refl _) hfirst
  obtain ⟨flushes, hfollows⟩ := hs.follows
  have hlength := hfollows.length_saved
  have hrecords := List.length_filterMap_le (fun n => record? [kindFirst]
    ((fresh {} .standard (Path.ofString "found") 100).runGiven? [kindFirst] [0] spoiltPlace n) n)
    [0]
  have hroom : b₁.HasRoom 1 := by
    refine ⟨s, hs.store, ?_⟩
    rw [hcapacity]
    rw [List.length_singleton] at hrecords
    omega
  have hsetup :=
    @setup_run sampleBatch spoiltPlace spoiltPlace [] [kindFirst] [0] rfl fun _ _ => rfl
  rw [hfirst, newcomers_kindFirst] at hsetup
  obtain ⟨found₂, b₂, w₂, hsecond⟩ := @exists_run_spoilt b₁ [kindFirst] leafFirst hsetup hroom
    rfl rfl read_spoilt_leaf (by simp [leader?, leafFirst])
  have hstart : Reused sampleBatch [] := .start rfl rfl rfl
  exact ⟨b₂, (hstart.run (by simp) (.refl _) hfirst).run (by simp) (.refl _) hsecond⟩

theorem nodup_paths_reused :
    ([[kindFirst], [leafFirst]].flatten.map (·.path)).Nodup := by decide

theorem reused_counts_twice : ∃ b, Reused b ([[kindFirst]] ++ [[leafFirst]]) ∧
    (([[kindFirst]] ++ [[leafFirst]]).flatten.map (·.path)).Nodup ∧ b.stats.total = 1 ∧
    b.stats.success + b.stats.failed + b.stats.skipped = 2 := by
  obtain ⟨b, h⟩ := exists_reused
  have htwice : Reused b ([[kindFirst]] ++ [[leafFirst]]) := h
  obtain ⟨htotal, hsettled, -⟩ := reused_counts_iff htwice nodup_paths_reused
  exact ⟨b, htwice, nodup_paths_reused, htotal, hsettled⟩

/-- The second run forgets the document of the first one, but not what became of it. -/
theorem reused_miscounts : ∃ b, Reused b [[kindFirst], [leafFirst]] ∧
    ([[kindFirst], [leafFirst]].flatten.map (·.path)).Nodup ∧
    b.stats.success + b.stats.failed + b.stats.skipped ≠ b.stats.total := by
  obtain ⟨b, h⟩ := exists_reused
  have hbalanced := h.balanced nodup_paths_reused
  have hsettled : b.stats.success + b.stats.failed + b.stats.skipped = 2 := hbalanced.settled
  have htotal : b.stats.total = 1 := hbalanced.total
  refine ⟨b, h, nodup_paths_reused, ?_⟩
  rw [hsettled, htotal]
  decide

end Batch

end Harvest
