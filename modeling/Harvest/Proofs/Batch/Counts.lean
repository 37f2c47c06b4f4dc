import Harvest.Proofs.Batch.Fresh

/-!
# The numbers of a batch

Every document counts as failed or skipped, or has its record in the file.  The number of successes
is the number of records in the file unless two records of one document are lost.
-/

namespace Harvest.Batch

/-- Where nothing was lost before the end, the number of successes is right just if no two of the
records that are lost at the end are of one document. -/
theorem Accounts.success_iff_nodup {b b₁ : Batch} {s t : RecordStore} {start : FileSystem}
    {made : List Record} {failures blanks : Nat} {total : Int} {w w₁ : Workplace}
    {reply : Except LostRecords Unit}
    (h : b.Accounts s start w.files made failures blanks total) (hfailed : s.failed = [])
    (hfinish : b.finish.run w = ((reply, b₁), w₁)) (ht : b₁.store = .records t) :
    b₁.stats.success = t.batches.flatten.length ↔ t.failed.Nodup := by
  have hsuccess := h.success (by simp [hfailed])
  obtain ⟨hbuffer, rfl, _⟩ | ⟨_, rfl, _⟩ | ⟨e, b₂, _, rfl, rfl, _⟩ := finish_cases h.store hfinish
  · obtain rfl := Store.records.inj (h.store.symm.trans ht)
    rw [hsuccess, hfailed, hbuffer]
    simp
  · obtain rfl := Store.records.inj ht
    have hflatten : s.afterWrite.batches.flatten = s.batches.flatten ++ s.buffer := by
      simp [RecordStore.afterWrite]
    have hnone : s.afterWrite.failed = [] := hfailed
    rw [hflatten, hnone, List.length_append]
    simp [hsuccess]
  · -- each document withdraws one success, while each of its records had counted as one
    rw [foldl_withdraw] at ht ⊢
    obtain rfl := Store.records.inj ht
    have hlost : s.afterLoss.failed = s.buffer.map (·.source) := by
      rw [RecordStore.afterLoss, hfailed, List.nil_append]
    have hheld : (s.buffer.map (·.source)).toFinset ∩ b.saved.toFinset =
        (s.buffer.map (·.source)).toFinset := by
      rw [Finset.inter_eq_left]
      intro p hp
      obtain ⟨r, hr, rfl⟩ := List.mem_map.mp (List.mem_toFinset.mp hp)
      exact List.mem_toFinset.mpr (h.held r hr)
    have hlength : (s.buffer.map (·.source)).length = s.buffer.length := List.length_map _
    have hcard : (s.buffer.map (·.source)).toFinset.card = s.buffer.length ↔
        (s.buffer.map (·.source)).Nodup := by
      rw [← hlength]
      exact Multiset.toFinset_card_eq_card_iff_nodup
    rw [hlost, ← hcard]
    change b.stats.success - _ = (s.batches.flatten.length : Int) ↔ _
    rw [hheld, hsuccess]
    omega

/-- After a run that is not broken off, and the end, whichever writings fail: each item has its
record in the file, or counts as failed or skipped.  So the numbers add up just if that of the
successes is the number of records in the file.  It is if no document whose record was lost has
another record; and where nothing was lost before the end, just if the records that are lost then
are of distinct documents. -/
theorem finish_counts {defaults : Defaults} {registry : Registry} {path : Path} {capacity : Int}
    {items : List Item} {order : List Nat} {w w₁ w₂ : Workplace} {b₁ b₂ : Batch}
    {found : List Finding} {reply : Except LostRecords Unit}
    (horder : order.Perm (List.range items.length))
    (hrun : ((fresh defaults registry path capacity).run items order).run w =
      ((.ok found, b₁), w₁))
    (hfinish : b₁.finish.run w₁ = ((reply, b₂), w₂)) :
    let given := (fresh defaults registry path capacity).runGiven? items order w
    let records := order.filterMap fun n => record? items (given n) n
    ∃ s₁ s, b₁.store = .records s₁ ∧ b₂.store = .records s ∧
      (s.batches ≠ [] →
        w₂.files.read path = .ok (Record.lines s.batches.flatten).toUTF8) ∧
      b₂.stats.total = items.length ∧
      s.batches.flatten.length + b₂.stats.failed + b₂.stats.skipped = b₂.stats.total ∧
      (b₂.stats.success + b₂.stats.failed + b₂.stats.skipped = b₂.stats.total ↔
        b₂.stats.success = s.batches.flatten.length) ∧
      ((∀ p ∈ s.failed, (records.map (·.source)).count p ≤ 1) →
        b₂.stats.success = s.batches.flatten.length) ∧
      (s₁.failed = [] →
        (b₂.stats.success = s.batches.flatten.length ↔ s.failed.Nodup)) := by
  intro given records
  obtain ⟨s₁, made, h₁, _, hpath, _⟩ := accounts_run horder hrun
  obtain ⟨s, h, hbuffer, hextends, _⟩ := h₁.finish hfinish
  obtain ⟨flushes, hfollows⟩ := h.follows
  have hsum := h.sum_eq hbuffer
  have hlength := length_records given horder
  have htotal := h.total
  have hall : s.batches.flatten.length + b₂.stats.failed + b₂.stats.skipped = b₂.stats.total := by
    rw [hsum, htotal, ← hlength]
    push_cast
    rfl
  refine ⟨s₁, s, h₁.store, h.store, ?_, htotal, hall, ?_, ?_, fun hnone => ?_⟩
  · rw [← hpath, ← hextends.path]
    exact hfollows.read
  · omega
  · intro hcount
    rw [h.success hcount, hbuffer]
    simp
  · exact h₁.success_iff_nodup hnone hfinish h.store

/-! ## A document with two records -/

theorem isKept_rootFirst :
    Schema.isKept (Schema.ofSource spoiltPlace rootFirst.schema) = true := by
  decide +kernel

theorem run_twice : ∃ found b₁ w₁ s r₁ r₂,
    (sampleBatch.run [kindFirst, rootFirst] [0, 1]).run spoiltPlace = ((.ok found, b₁), w₁) ∧
      w₁.files = spoiltPlace.files ∧ b₁.Accounts s spoiltPlace.files w₁.files [r₁, r₂] 0 0 2 ∧
      s.batches = [] ∧ s.failed = [] ∧ r₁.source = "page" ∧ r₂.source = "page" := by
  obtain ⟨found, b₁, w₁, m, ms, hrun, hfiles, hgiven⟩ :=
    @run_spoilt rootFirst read_spoilt_page rfl key_rootFirst isKept_rootFirst
  have hzero := hgiven 0 (by decide)
  have hone := hgiven 1 (by decide)
  obtain ⟨s, made, h, hwaits, _, hcapacity, _⟩ :=
    @accounts_run {} .standard (Path.ofString "found") 100 [kindFirst, rootFirst] [0, 1] _ _ _ _
      (.refl _) hrun
  have hrecords : [0, 1].filterMap (fun n => record? [kindFirst, rootFirst]
      (sampleBatch.runGiven? [kindFirst, rootFirst] [0, 1] spoiltPlace n) n) =
        [recordOf kindFirst (m :: ms), recordOf rootFirst (m :: ms)] := by
    simp [hzero, hone, record?]
  have hnone : [0, 1].countP (fun n =>
      (sampleBatch.runGiven? [kindFirst, rootFirst] [0, 1] spoiltPlace n).isNone) = 0 := by
    simp [hzero, hone]
  have hblank : [0, 1].countP (fun n => (sampleBatch.runGiven? [kindFirst, rootFirst] [0, 1]
      spoiltPlace n).any List.isEmpty) = 0 := by
    simp [hzero, hone]
  have hsame : fresh {} .standard (Path.ofString "found") 100 = sampleBatch := rfl
  rw [hsame, hrecords, hnone, hblank] at h
  rw [hsame, hrecords] at hwaits
  obtain ⟨hbatches, hfailed⟩ := hwaits (by rw [hcapacity]; simp)
  exact ⟨found, b₁, w₁, s, _, _, hrun, hfiles, h, hbatches, hfailed, rfl, rfl⟩

theorem finish_counts_sample : ∃ found b₁ w₁ reply b₂ w₂ s₁ s,
    [0, 1].Perm (List.range [kindFirst, rootFirst].length) ∧
    ((fresh {} .standard (Path.ofString "found") 100).run [kindFirst, rootFirst] [0, 1]).run
      spoiltPlace = ((.ok found, b₁), w₁) ∧
    b₁.finish.run w₁ = ((reply, b₂), w₂) ∧
    b₁.store = .records s₁ ∧ b₂.store = .records s ∧ s₁.failed = [] ∧
    s.batches.flatten.length + b₂.stats.failed + b₂.stats.skipped = b₂.stats.total ∧
    (b₂.stats.success = s.batches.flatten.length ↔ s.failed.Nodup) := by
  obtain ⟨found, b₁, w₁, t, r₁, r₂, hrun, _, h, _, hfailed, _⟩ := run_twice
  have horder : [0, 1].Perm (List.range [kindFirst, rootFirst].length) := .refl _
  have hrun' : ((fresh {} .standard (Path.ofString "found") 100).run [kindFirst, rootFirst]
      [0, 1]).run spoiltPlace = ((.ok found, b₁), w₁) := hrun
  rcases hfinish : b₁.finish.run w₁ with ⟨⟨reply, b₂⟩, w₂⟩
  obtain ⟨s₁, s, hs₁, hs, _, _, hall, _, _, hiff⟩ := finish_counts horder hrun' hfinish
  obtain rfl := Store.records.inj (h.store.symm.trans hs₁)
  exact ⟨found, b₁, w₁, reply, b₂, w₂, t, s, horder, hrun', hfinish, hs₁, hs, hfailed, hall,
    hiff hfailed⟩

/-- Two records of one page are lost together: one success stays, for no record. -/
theorem finish_miscounts : ∃ found b₁ w₁ reply b₂ w₂ s,
    (sampleBatch.run [kindFirst, rootFirst] [0, 1]).run spoiltPlace = ((.ok found, b₁), w₁) ∧
      b₁.finish.run w₁ = ((reply, b₂), w₂) ∧ b₂.store = .records s ∧ s.batches = [] ∧
      b₂.stats = { total := 2, success := 1, failed := 2, skipped := 0 } := by
  obtain ⟨found, b₁, w₁, s, r₁, r₂, hrun, hfiles, h, hbatches, hfailed, hsource₁, hsource₂⟩ :=
    run_twice
  obtain ⟨flushes, hfollows⟩ := h.follows
  have hbuffer := hfollows.buffer_eq hbatches hfailed
  have hsuccess := h.success (by simp [hfailed])
  rcases hfinish : b₁.finish.run w₁ with ⟨⟨reply, b₂⟩, w₂⟩
  obtain ⟨hnil, _⟩ | ⟨_, _, hwrite⟩ | ⟨e, b₃, _, rfl, rfl, _⟩ := finish_cases h.store hfinish
  · rw [hbuffer] at hnil
    cases hnil
  · rw [hfiles] at hwrite
    cases hwrite
  · refine ⟨found, b₁, w₁, reply, _, w₂, s.afterLoss, hrun, hfinish, ?_, hbatches, ?_⟩
    · rw [foldl_withdraw]
    · have hheld : "page" ∈ b₁.saved := by
        rw [← hsource₁]
        exact h.held r₁ (by simp [hbuffer])
      have hsources : s.buffer.map (·.source) = ["page", "page"] := by
        rw [hbuffer, List.map_cons, List.map_cons, hsource₁, hsource₂]
        rfl
      have hcard : ((s.buffer.map (·.source)).toFinset ∩ b₁.saved.toFinset).card = 1 := by
        have hset : ["page", "page"].toFinset = {"page"} := by simp
        rw [hsources, hset, Finset.singleton_inter_of_mem (List.mem_toFinset.mpr hheld)]
        rfl
      rw [foldl_withdraw]
      dsimp only
      rw [hcard, hsources, h.total, h.failed, h.skipped, hsuccess, hbatches, hfailed, hbuffer]
      rfl

end Harvest.Batch
