import Harvest.Proofs.Batch.Fresh

/-!
# The results of a batch

Where each document has one item, a batch reports just the records in the file.
-/

namespace Harvest.Batch

/-! ## Documents with one item each -/

section
variable {items : List Item} {given : Nat → Option Members}

/-- The records of what items give, in item order. -/
def extracted (items : List Item) (given : Nat → Option Members) : List Record :=
  (List.range items.length).filterMap fun n => record? items (given n) n

theorem source_of_record? {g : Option Members} {n : Nat} {r : Record}
    (h : record? items g n = some r) : (items.map (·.path))[n]? = some r.source := by
  obtain ⟨i, hi, hr⟩ := Option.bind_eq_some_iff.mp h
  obtain ⟨result, _, rfl⟩ := Option.map_eq_some_iff.mp hr
  rw [List.getElem?_map, hi]
  rfl

theorem sources_sublist (items : List Item) (given : Nat → Option Members) :
    ((extracted items given).map (·.source)).Sublist (items.map (·.path)) := by
  induction items generalizing given with
  | nil => exact .slnil
  | cons i is ih =>
      have hrest := ih fun n => given (n + 1)
      have hextracted : extracted (i :: is) given =
          (record? (i :: is) (given 0) 0).toList ++ extracted is fun n => given (n + 1) := by
        rw [extracted, List.length_cons, List.range_succ_eq_map, filterMap_cons_eq,
          List.filterMap_map]
        rfl
      rw [hextracted, List.map_append, List.map_cons]
      cases hfirst : record? (i :: is) (given 0) 0 with
      | none => exact hrest.cons i.path
      | some r =>
          have hsource : i.path = r.source := by simpa using source_of_record? hfirst
          rw [hsource]
          exact hrest.cons_cons r.source

/-- Where each document has one item, the findings that a batch keeps are the extracted records that
are in the file. -/
theorem map_kept {order : List Nat} {s : RecordStore} {made : List (Nat × Finding)} {b : Batch}
    (hpaths : (items.map (·.path)).Nodup) (hmade : Produced items given order s made)
    (hsaved : ∀ p, p ∈ b.saved ↔ p ∈ s.batches.flatten.map (·.source)) :
    (b.kept (inItemOrder items made)).map (·.record) =
      (extracted items given).filter (·.source ∈ s.batches.flatten.map (·.source)) := by
  rw [kept, inItemOrder, extracted, List.filter_filterMap, List.filter_filterMap,
    List.map_filterMap]
  refine List.filterMap_congr fun n _ => ?_
  cases hlookup : made.lookup n with
  | some f =>
      rw [hmade.record n f (mem_of_lookup hlookup)]
      have hsame : b.saved.contains f.record.source =
          decide (f.record.source ∈ s.batches.flatten.map (·.source)) := by
        rw [Bool.eq_iff_iff, List.contains_iff_mem, decide_eq_true_iff]
        exact hsaved f.record.source
      rw [Option.filter_some, Option.filter_some, hsame]
      split <;> rfl
  | none =>
      cases hrecord : record? items (given n) n with
      | none => rfl
      | some r =>
          have hlost : r.source ∉ s.batches.flatten.map (·.source) := by
            intro hwritten
            obtain ⟨q, hq, hsource⟩ := List.mem_map.mp hwritten
            obtain ⟨⟨k, f⟩, hf, rfl⟩ := List.mem_map.mp (hmade.kept q (List.mem_append_left _ hq))
            have hk := source_of_record? (hmade.record k f hf)
            have hn := source_of_record? hrecord
            have hlt : k < (items.map (·.path)).length := (List.getElem?_eq_some_iff.mp hk).1
            -- another item of the same document
            have heq : k = n := by
              refine (List.getElem?_inj hlt hpaths).mp ?_
              rw [hk, hn]
              exact congrArg some hsource
            rw [List.lookup_eq_none_iff] at hlookup
            have hne := hlookup (k, f) hf
            simp [heq] at hne
          rw [Option.filter_some, if_neg (by simpa using hlost)]
          rfl

end

namespace Accounts

variable {b : Batch} {s : RecordStore} {start fs : FileSystem} {made : List Record}
  {failures blanks : Nat} {total : Int}

section
variable (h : b.Accounts s start fs made failures blanks total) (hbuffer : s.buffer = [])
  (hnodup : (made.map (·.source)).Nodup)
include h hbuffer hnodup

theorem not_mem_failed {p : String} (hp : p ∈ s.batches.flatten.map (·.source)) :
    p ∉ s.failed := by
  have hparts := (h.perm_sources hbuffer).nodup_iff.mp hnodup
  exact fun hfailed => (List.nodup_append.mp hparts).2.2 p hp p hfailed rfl

theorem mem_saved_iff (p : String) :
    p ∈ b.saved ↔ p ∈ s.batches.flatten.map (·.source) := by
  constructor
  · intro hp
    obtain ⟨r, hr, hsource⟩ := h.saved p hp
    rw [hbuffer, List.append_nil] at hr
    exact List.mem_map.mpr ⟨r, hr, hsource⟩
  · intro hp
    obtain ⟨r, hr, rfl⟩ := List.mem_map.mp hp
    obtain hsaved | hfailed := h.written r hr
    · exact hsaved
    · exact absurd hfailed (h.not_mem_failed hbuffer hnodup hp)

theorem success_of_nodup : b.stats.success = s.batches.flatten.length := by
  have hsuccess := h.success fun p _ => List.nodup_iff_count_le_one.mp hnodup p
  rw [hsuccess, hbuffer]
  simp

theorem perm_lost : s.failed.Perm
    ((made.map (·.source)).filter (· ∉ s.batches.flatten.map (·.source))) := by
  have hperm := (h.perm_sources hbuffer).filter
    fun p => decide (p ∉ s.batches.flatten.map (·.source))
  have hwritten : (s.batches.flatten.map (·.source)).filter
      (· ∉ s.batches.flatten.map (·.source)) = [] := by
    rw [List.filter_eq_nil_iff]
    intro p hp
    simpa using hp
  have hfailed : s.failed.filter (· ∉ s.batches.flatten.map (·.source)) = s.failed := by
    rw [List.filter_eq_self]
    intro p hp
    have hnot : p ∉ s.batches.flatten.map (·.source) := fun hp' =>
      h.not_mem_failed hbuffer hnodup hp' hp
    simpa using hnot
  rw [List.filter_append, hwritten, hfailed, List.nil_append] at hperm
  exact hperm.symm

theorem perm_written : s.batches.flatten.Perm
    (made.filter (·.source ∈ s.batches.flatten.map (·.source))) := by
  obtain ⟨flushes, hfollows⟩ := h.follows
  have hperm := hfollows.perm
  rw [hbuffer, List.append_nil] at hperm
  have hparts := hperm.filter fun r => decide (r.source ∈ s.batches.flatten.map (·.source))
  have hwritten : s.batches.flatten.filter (·.source ∈ s.batches.flatten.map (·.source)) =
      s.batches.flatten := by
    rw [List.filter_eq_self]
    intro r hr
    exact decide_eq_true (List.mem_map_of_mem hr)
  have hlost : (RecordStore.lostOf flushes).filter
      (·.source ∈ s.batches.flatten.map (·.source)) = [] := by
    rw [List.filter_eq_nil_iff]
    intro r hr hmem
    refine h.not_mem_failed hbuffer hnodup (of_decide_eq_true hmem) ?_
    rw [hfollows.failed]
    exact List.mem_map_of_mem hr
  rw [List.filter_append, hwritten, hlost, List.append_nil] at hparts
  exact hparts.symm

end

end Accounts

/-- Whether the results of a batch are just the records that its store has written, in item order,
and all other items are counted: those whose records were lost, and those that gave none. -/
structure Reports (b : Batch) (s : RecordStore) (fs : FileSystem) (items : List Item)
    (given : Nat → Option Members) : Prop where
  findings : b.findings.map (·.record) =
    (extracted items given).filter (·.source ∈ s.batches.flatten.map (·.source))
  written : s.batches.flatten.Perm (b.findings.map (·.record))
  success : b.stats.success = b.findings.length
  lost : s.failed.Perm (((extracted items given).map (·.source)).filter
    (· ∉ s.batches.flatten.map (·.source)))
  failed : b.stats.failed =
    s.failed.length + (List.range items.length).countP fun n => (given n).isNone
  skipped : b.stats.skipped =
    (List.range items.length).countP fun n => (given n).any List.isEmpty
  total : b.stats.success + b.stats.failed + b.stats.skipped = items.length
  file : s.batches ≠ [] → fs.read s.path = .ok (Record.lines s.batches.flatten).toUTF8

/-- After a run that is not broken off, and the end: whichever writings fail, however many records
are written together, and in whichever order the items are done, a fresh batch reports just the
records that are in the file. -/
theorem finish_reports {defaults : Defaults} {registry : Registry} {path : Path} {capacity : Int}
    {items : List Item} {order : List Nat} {w w₁ w₂ : Workplace} {b₁ b₂ : Batch}
    {found : List Finding} {reply : Except LostRecords Unit}
    (hpaths : (items.map (·.path)).Nodup) (horder : order.Perm (List.range items.length))
    (hrun : ((fresh defaults registry path capacity).run items order).run w =
      ((.ok found, b₁), w₁))
    (hfinish : b₁.finish.run w₁ = ((reply, b₂), w₂)) :
    ∃ s, b₂.store = .records s ∧ s.path = path ∧ s.buffer = [] ∧
      b₂.Reports s w₂.files items
        ((fresh defaults registry path capacity).runGiven? items order w) := by
  obtain ⟨s, made, h, hbuffer, hpath, hmade, hfindings⟩ := accounts_finish horder hrun hfinish
  obtain ⟨flushes, hfollows⟩ := h.follows
  have hperm := horder.filterMap fun n => record? items
    ((fresh defaults registry path capacity).runGiven? items order w n) n
  have hnodup := (hperm.map (·.source)).nodup_iff.mpr ((sources_sublist items _).nodup hpaths)
  have hrecords := map_kept hpaths hmade (h.mem_saved_iff hbuffer hnodup)
  rw [← hfindings] at hrecords
  have hwritten : s.batches.flatten.Perm (b₂.findings.map (·.record)) := by
    rw [hrecords]
    exact (h.perm_written hbuffer hnodup).trans (hperm.filter _)
  have hlost := (h.perm_lost hbuffer hnodup).trans ((hperm.map _).filter _)
  have hsuccess := h.success_of_nodup hbuffer hnodup
  have hsum := h.sum_eq hbuffer
  have hlength := length_records
    ((fresh defaults registry path capacity).runGiven? items order w) horder
  refine ⟨s, h.store, hpath, hbuffer, hrecords, hwritten, ?_, hlost, ?_, ?_, ?_, hfollows.read⟩
  · rw [hsuccess, hwritten.length_eq, List.length_map]
  · rw [h.failed, horder.countP_eq]
    omega
  · rw [h.skipped, horder.countP_eq]
  · rw [hsuccess]
    omega

theorem finish_reports_sample : ∃ found b₁ w₁ reply b₂ w₂ s,
    ([kindFirst, leafFirst].map (·.path)).Nodup ∧
    [0, 1].Perm (List.range [kindFirst, leafFirst].length) ∧
    ((fresh {} .standard (Path.ofString "found") 100).run [kindFirst, leafFirst] [0, 1]).run
      spoiltPlace = ((.ok found, b₁), w₁) ∧
    b₁.finish.run w₁ = ((reply, b₂), w₂) ∧ b₂.store = .records s ∧ s.buffer = [] ∧
    b₂.Reports s w₂.files [kindFirst, leafFirst]
      ((fresh {} .standard (Path.ofString "found") 100).runGiven? [kindFirst, leafFirst] [0, 1]
        spoiltPlace) := by
  have hkept : Schema.isKept (Schema.ofSource spoiltPlace leafFirst.schema) = true := by
    obtain ⟨schema, _, _, hschema, _⟩ := exists_schema_spoilt
    change Schema.isKept (Schema.ofSource spoiltPlace kindFirst.schema) = true
    rw [hschema]
    rfl
  obtain ⟨found, b₁, w₁, _, _, hrun, _⟩ := @run_spoilt leafFirst read_spoilt_leaf rfl rfl hkept
  have hpaths : ([kindFirst, leafFirst].map (·.path)).Nodup := by decide
  have horder : [0, 1].Perm (List.range [kindFirst, leafFirst].length) := .refl _
  have hrun' : ((fresh {} .standard (Path.ofString "found") 100).run [kindFirst, leafFirst]
      [0, 1]).run spoiltPlace = ((.ok found, b₁), w₁) := hrun
  rcases hfinish : b₁.finish.run w₁ with ⟨⟨reply, b₂⟩, w₂⟩
  obtain ⟨s, hs, _, hbuffer, hreports⟩ := finish_reports hpaths horder hrun' hfinish
  exact ⟨found, b₁, w₁, reply, b₂, w₂, s, hpaths, horder, hrun', hfinish, hs, hbuffer, hreports⟩

end Harvest.Batch
