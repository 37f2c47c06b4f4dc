import Harvest.Proofs.Batch.Turns
import Harvest.Proofs.FileName

/-!
# The accounts of a batch

What a batch counts, and which documents it takes for saved, beside the records that its store has
written, lost or still holds back.
-/

namespace Harvest

/-! ## Records that a store was given -/

namespace RecordStore

open scoped List

theorem perm_flushes (flushes : List Flush) : (flushes.flatMap (·.batch)).Perm
    ((writtenOf flushes).flatten ++ lostOf flushes) := by
  induction flushes with
  | nil => exact .nil
  | cons f flushes ih =>
      obtain ⟨batch, outcome⟩ := f
      rw [List.flatMap_cons]
      cases outcome with
      | ok _ =>
          have hwritten : writtenOf (⟨batch, .ok ()⟩ :: flushes) = batch :: writtenOf flushes := rfl
          have hlost : lostOf (⟨batch, .ok ()⟩ :: flushes) = lostOf flushes := rfl
          rw [hwritten, hlost, List.flatten_cons, List.append_assoc]
          exact ih.append_left batch
      | error e =>
          have hwritten : writtenOf (⟨batch, .error e⟩ :: flushes) = writtenOf flushes := rfl
          have hlost : lostOf (⟨batch, .error e⟩ :: flushes) = batch ++ lostOf flushes := rfl
          rw [hwritten, hlost]
          calc batch ++ flushes.flatMap (·.batch)
              ~ batch ++ ((writtenOf flushes).flatten ++ lostOf flushes) := ih.append_left batch
            _ ~ (writtenOf flushes).flatten ++ lostOf flushes ++ batch := List.perm_append_comm
            _ = (writtenOf flushes).flatten ++ (lostOf flushes ++ batch) := List.append_assoc ..
            _ ~ (writtenOf flushes).flatten ++ (batch ++ lostOf flushes) :=
              List.perm_append_comm.append_left _

namespace Follows

variable {s : RecordStore} {start fs : FileSystem} {saved : List Record} {flushes : List Flush}

/-- Each record that was saved is written, lost or held back. -/
theorem perm (h : s.Follows start fs saved flushes) :
    saved.Perm (s.batches.flatten ++ lostOf flushes ++ s.buffer) := by
  rw [h.conserved, h.batches]
  exact (perm_flushes flushes).append_right s.buffer

theorem length_saved (h : s.Follows start fs saved flushes) :
    saved.length = s.batches.flatten.length + s.failed.length + s.buffer.length := by
  rw [h.perm.length_eq, h.failed, List.length_append, List.length_append, List.length_map]

theorem mem_saved (h : s.Follows start fs saved flushes) {r : Record} : r ∈ saved ↔
    r ∈ s.batches.flatten ∨ r ∈ lostOf flushes ∨ r ∈ s.buffer := by
  rw [h.perm.mem_iff, List.append_assoc, List.mem_append, List.mem_append]

/-- A store that has let no record go holds back all that it was given. -/
theorem buffer_eq (h : s.Follows start fs saved flushes) (hbatches : s.batches = [])
    (hfailed : s.failed = []) : s.buffer = saved := by
  have hlength := h.length_saved
  rw [hbatches, hfailed, h.conserved, List.length_append] at hlength
  simp only [List.flatten_nil, List.length_nil] at hlength
  have hnone : flushes.flatMap (·.batch) = [] := List.length_eq_zero_iff.mp (by omega)
  rw [h.conserved, hnone, List.nil_append]

end Follows

/-- Whether a store that was given fewer records than it writes together has let none of them go. -/
def Waits (s : RecordStore) (made : List Record) : Prop :=
  (made.length : Int) < s.capacity → s.batches = [] ∧ s.failed = []

/-- Whether a store is a later state of another one, where it has nothing but what that one had and
some more records. -/
structure Extends (s t : RecordStore) (records : List Record) : Prop where
  path : t.path = s.path
  capacity : t.capacity = s.capacity
  kept : ∀ r ∈ t.batches.flatten ++ t.buffer, r ∈ s.batches.flatten ++ s.buffer ∨ r ∈ records

theorem Extends.refl (s : RecordStore) : s.Extends s [] := ⟨rfl, rfl, fun _ hr => Or.inl hr⟩

theorem Extends.trans {s t u : RecordStore} {records records' : List Record}
    (h : s.Extends t records) (h' : t.Extends u records') :
    s.Extends u (records ++ records') := by
  refine ⟨h'.path.trans h.path, h'.capacity.trans h.capacity, fun r hr => ?_⟩
  obtain hr | hr := h'.kept r hr
  · exact (h.kept r hr).imp_right (List.mem_append_left _)
  · exact Or.inr (List.mem_append_right _ hr)

end RecordStore

namespace Batch

/-! ## Withdrawing -/

theorem card_inter_insert {p : String} {rest saved : List String} (h : p ∈ saved) :
    ((p :: rest).toFinset ∩ saved.toFinset).card =
      (rest.toFinset ∩ (saved.filter (· != p)).toFinset).card + 1 := by
  have hset : (p :: rest).toFinset ∩ saved.toFinset =
      insert p (rest.toFinset ∩ (saved.filter (· != p)).toFinset) := by
    ext q
    by_cases hq : q = p
    · subst hq
      simp [h]
    · simp [hq]
  rw [hset, Finset.card_insert_of_notMem]
  simp

/-- The store has lost records: their sources are no longer taken for saved, each counts as failed,
and each source that was taken for saved counts no longer as a success. -/
theorem foldl_withdraw (b : Batch) (sources : List String) : sources.foldl withdraw b =
    { b with
      saved := b.saved.filter (· ∉ sources)
      stats := { b.stats with
        success := b.stats.success - (sources.toFinset ∩ b.saved.toFinset).card
        failed := b.stats.failed + sources.length } } := by
  induction sources generalizing b with
  | nil => simp
  | cons p rest ih =>
      rw [List.foldl_cons, ih, withdraw]
      by_cases hp : p ∈ b.saved
      · have hsaved : (b.saved.filter (· != p)).filter (· ∉ rest) =
            b.saved.filter (· ∉ p :: rest) := by
          rw [List.filter_filter]
          refine List.filter_congr fun q _ => ?_
          by_cases hq : q = p <;> simp [hq]
        rw [if_pos (List.contains_iff_mem.mpr hp)]
        dsimp only
        rw [hsaved, card_inter_insert hp, List.length_cons]
        congr 2 <;> push_cast <;> ring
      · have hsaved : b.saved.filter (· ∉ rest) = b.saved.filter (· ∉ p :: rest) := by
          refine List.filter_congr fun q hq => ?_
          have hne : q ≠ p := fun h => hp (h ▸ hq)
          simp [hne]
        have hset : (p :: rest).toFinset ∩ b.saved.toFinset =
            rest.toFinset ∩ b.saved.toFinset := by
          rw [List.toFinset_cons, Finset.insert_inter_of_notMem (by simpa using hp)]
        rw [if_neg (by simpa using hp), hset, List.length_cons]
        dsimp only [countFailed]
        rw [hsaved]
        congr 2
        push_cast
        ring

theorem mem_countSaved {b : Batch} {source p : String} :
    p ∈ (b.countSaved source).saved ↔ p ∈ b.saved ∨ p = source := by
  unfold countSaved
  dsimp only
  by_cases h : source ∈ b.saved
  · rw [if_pos (List.contains_iff_mem.mpr h)]
    constructor
    · exact Or.inl
    · rintro (hp | rfl)
      · exact hp
      · exact h
  · rw [if_neg (by simpa using h)]
    simp

/-! ## Saving a result -/

/-- The record of what an item gives. -/
def recordOf (i : Item) (result : Members) : Record := ⟨i.path, i.outputName, result⟩

theorem ofResult_eq (i : Item) (result : Members) :
    Record.ofResult i.path result (some i.outputName) = recordOf i result := by
  rw [Record.ofResult, Item.outputName, FileName.resultName_resultName]
  rfl

section
variable {b b₁ : Batch} {s : RecordStore} {i : Item} {result : Members} {w w₁ : Workplace}
  {found : Option Finding}

theorem saveResult_cases {t : RecordStore} (hs : b.store = .records s)
    (ht : t = s.push (recordOf i result))
    (hrun : (b.saveResult i result).run w = ((found, b₁), w₁)) :
    ((t.buffer.length : Int) < s.capacity ∧ found = some ⟨recordOf i result, s.path.toString⟩ ∧
      b₁ = countSaved { b with store := .records t } i.path ∧ w₁ = w) ∨
    (s.capacity ≤ t.buffer.length ∧ found = some ⟨recordOf i result, s.path.toString⟩ ∧
      b₁ = countSaved { b with store := .records t.afterWrite } i.path ∧
      w.files.writeText s.path s.opening (Record.lines t.buffer) = (.ok (), w₁.files)) ∨
    (∃ e, s.capacity ≤ t.buffer.length ∧ found = none ∧
      b₁ = (t.buffer.map (·.source)).foldl withdraw { b with store := .records t.afterLoss } ∧
      w.files.writeText s.path s.opening (Record.lines t.buffer) = (.error e, w₁.files)) := by
  rw [← ofResult_eq] at ht
  rcases hsave : (s.save i.path result (some i.outputName)).run w with ⟨⟨r, s₁⟩, w₂⟩
  rw [saveResult, hs, Store.save, Work.run_bind, Work.run_bind, hsave] at hrun
  obtain ⟨hroom, rfl, rfl, rfl⟩ | ⟨hfull, rfl, rfl, hwrite⟩ | ⟨e, hfull, rfl, rfl, hwrite⟩ :=
    RecordStore.save_cases ht hsave
  · obtain ⟨rfl, rfl, rfl⟩ := Work.outcome_inj hrun
    exact Or.inl ⟨hroom, rfl, rfl, rfl⟩
  · obtain ⟨rfl, rfl, rfl⟩ := Work.outcome_inj hrun
    exact Or.inr (Or.inl ⟨hfull, rfl, rfl, hwrite⟩)
  · obtain ⟨rfl, rfl, rfl⟩ := Work.outcome_inj hrun
    exact Or.inr (Or.inr ⟨e, hfull, rfl, rfl, hwrite⟩)

end

/-! ## Accounts -/

/-- The accounts of a batch whose store was given some records to save.  Documents that give no
record are failures or blanks.  The number of successes is right only if no document whose record
was lost has another record: a loss withdraws one success for each document, and not for each
record. -/
structure Accounts (b : Batch) (s : RecordStore) (start fs : FileSystem) (made : List Record)
    (failures blanks : Nat) (total : Int) : Prop where
  store : b.store = .records s
  follows : ∃ flushes, s.Follows start fs made flushes
  failed : b.stats.failed = failures + s.failed.length
  skipped : b.stats.skipped = blanks
  total : b.stats.total = total
  held : ∀ r ∈ s.buffer, r.source ∈ b.saved
  saved : ∀ p ∈ b.saved, ∃ r ∈ s.batches.flatten ++ s.buffer, r.source = p
  written : ∀ r ∈ s.batches.flatten, r.source ∈ b.saved ∨ r.source ∈ s.failed
  success : (∀ p ∈ s.failed, (made.map (·.source)).count p ≤ 1) →
    b.stats.success = s.batches.flatten.length + s.buffer.length

namespace Accounts

variable {b : Batch} {s t : RecordStore} {start fs fs' : FileSystem} {made : List Record}
  {failures blanks : Nat} {total : Int}

theorem countFailed (h : b.Accounts s start fs made failures blanks total) :
    b.countFailed.Accounts s start fs made (failures + 1) blanks total := by
  refine { h with failed := ?_ }
  have hfailed := h.failed
  change b.stats.failed + 1 = _
  push_cast
  omega

theorem countSkipped (h : b.Accounts s start fs made failures blanks total) :
    b.countSkipped.Accounts s start fs made failures (blanks + 1) total := by
  refine { h with skipped := ?_ }
  change b.stats.skipped + 1 = _
  rw [h.skipped]
  rfl

/-- A record that is held back or written counts as a success. -/
theorem countSaved (h : b.Accounts s start fs made failures blanks total) {r : Record}
    (hfollows : ∃ flushes, t.Follows start fs' (made ++ [r]) flushes)
    (hfailed : t.failed = s.failed)
    (hkept : t.batches.flatten ++ t.buffer = s.batches.flatten ++ s.buffer ++ [r])
    (hbuffer : ∀ q ∈ t.buffer, q ∈ s.buffer ∨ q = r) :
    (Batch.countSaved { b with store := .records t } r.source).Accounts t start fs' (made ++ [r])
      failures blanks total := by
  refine ⟨rfl, hfollows, ?_, h.skipped, h.total, fun q hq => ?_, fun p hp => ?_, fun q hq => ?_,
    fun hcount => ?_⟩
  · rw [hfailed]
    exact h.failed
  · rw [mem_countSaved]
    obtain hq | rfl := hbuffer q hq
    · exact Or.inl (h.held q hq)
    · exact Or.inr rfl
  · rw [hkept]
    obtain hp | rfl := mem_countSaved.mp hp
    · obtain ⟨q, hq, hsource⟩ := h.saved p hp
      exact ⟨q, List.mem_append_left _ hq, hsource⟩
    · exact ⟨r, by simp, rfl⟩
  · rw [mem_countSaved, hfailed]
    have hmem : q ∈ s.batches.flatten ++ s.buffer ++ [r] := by
      rw [← hkept]
      exact List.mem_append_left _ hq
    simp only [List.mem_append, List.mem_singleton] at hmem
    obtain (hq | hq) | rfl := hmem
    · exact (h.written q hq).imp_left Or.inl
    · exact Or.inl (Or.inl (h.held q hq))
    · exact Or.inl (Or.inr rfl)
  · have hbefore : ∀ p ∈ s.failed, (made.map (·.source)).count p ≤ 1 := by
      intro p hp
      have hp' := hcount p (hfailed ▸ hp)
      rw [List.map_append, List.count_append] at hp'
      omega
    have hsuccess := h.success hbefore
    have hlength := congrArg List.length hkept
    simp only [List.length_append, List.length_singleton] at hlength
    change b.stats.success + 1 = _
    omega

/-- Of the sources of lost records, of which at most one is not counted yet, as many are taken for
saved as records were held back before. -/
theorem card_lost (h : b.Accounts s start fs made failures blanks total) {own : Option Record}
    (hbuffer : t.buffer = s.buffer ++ own.toList)
    (hcount : ∀ p ∈ t.buffer.map (·.source), ((made ++ own.toList).map (·.source)).count p ≤ 1) :
    ((t.buffer.map (·.source)).toFinset ∩ b.saved.toFinset).card = s.buffer.length := by
  obtain ⟨flushes, hfollows⟩ := h.follows
  have hnodup : (s.buffer.map (·.source)).Nodup := by
    rw [List.nodup_iff_count_le_one]
    intro p
    by_cases hp : p ∈ s.buffer.map (·.source)
    · have hlost : p ∈ t.buffer.map (·.source) := by
        rw [hbuffer, List.map_append]
        exact List.mem_append_left _ hp
      have hsub : (s.buffer.map (·.source)).Sublist ((made ++ own.toList).map (·.source)) := by
        apply List.Sublist.map
        rw [hfollows.conserved, List.append_assoc]
        exact (List.sublist_append_left _ _).trans (List.sublist_append_right _ _)
      exact (hsub.count_le p).trans (hcount p hlost)
    · rw [List.count_eq_zero_of_not_mem hp]
      exact Nat.zero_le 1
  have hset : (t.buffer.map (·.source)).toFinset ∩ b.saved.toFinset =
      (s.buffer.map (·.source)).toFinset := by
    ext p
    simp only [Finset.mem_inter, List.mem_toFinset]
    constructor
    · rintro ⟨hlost, hsaved⟩
      have hcount := hcount p hlost
      rw [hbuffer, List.map_append] at hlost
      obtain hheld | hown := List.mem_append.mp hlost
      · exact hheld
      · -- another record of the same document would be there
        obtain ⟨q, hq, rfl⟩ := h.saved p hsaved
        have hmade : q ∈ made := by
          rw [hfollows.mem_saved]
          exact (List.mem_append.mp hq).imp_right Or.inr
        have hone : 0 < (made.map (·.source)).count q.source :=
          List.count_pos_iff.mpr (List.mem_map_of_mem hmade)
        have htwo := List.count_pos_iff.mpr hown
        rw [List.map_append, List.count_append] at hcount
        omega
    · intro hheld
      obtain ⟨q, hq, rfl⟩ := List.mem_map.mp hheld
      refine ⟨?_, h.held q hq⟩
      rw [hbuffer]
      exact List.mem_map_of_mem (List.mem_append_left _ hq)
  rw [hset, List.toFinset_card_of_nodup hnodup, List.length_map]

/-- Where records are lost, of which at most one is not counted yet, each of them counts as failed;
and no other success is withdrawn, unless the document of a lost record has another one. -/
theorem withdraw (h : b.Accounts s start fs made failures blanks total) (own : Option Record)
    (hfollows : ∃ flushes, t.afterLoss.Follows start fs' (made ++ own.toList) flushes)
    (hbuffer : t.buffer = s.buffer ++ own.toList) (hbatches : t.batches = s.batches)
    (hfailed : t.failed = s.failed) :
    ((t.buffer.map (·.source)).foldl Batch.withdraw
      { b with store := .records t.afterLoss }).Accounts t.afterLoss start fs' (made ++ own.toList)
        failures blanks total := by
  rw [foldl_withdraw]
  refine ⟨rfl, hfollows, ?_, h.skipped, h.total, by simp [RecordStore.afterLoss], fun p hp => ?_,
    fun q hq => ?_, fun hcount => ?_⟩
  · have hstats := h.failed
    simp only [RecordStore.afterLoss, List.length_append, List.length_map, hfailed]
    push_cast
    omega
  · -- what is still taken for saved was not lost, so its record was written
    obtain ⟨hp, hlost⟩ := List.mem_filter.mp hp
    obtain ⟨q, hq, rfl⟩ := h.saved p hp
    refine ⟨q, ?_, rfl⟩
    rcases List.mem_append.mp hq with hq | hq
    · change q ∈ t.batches.flatten ++ []
      rw [hbatches]
      exact List.mem_append_left _ hq
    · have hmem : q.source ∈ t.buffer.map (·.source) := by
        rw [hbuffer]
        exact List.mem_map_of_mem (List.mem_append_left _ hq)
      exact absurd hmem (of_decide_eq_true hlost)
  · change q ∈ t.batches.flatten at hq
    rw [hbatches] at hq
    change q.source ∈ b.saved.filter _ ∨ q.source ∈ t.failed ++ _
    by_cases hlost : q.source ∈ t.buffer.map (·.source)
    · exact Or.inr (List.mem_append_right _ hlost)
    · rw [hfailed]
      obtain hsaved | hq := h.written q hq
      · exact Or.inl (List.mem_filter.mpr ⟨hsaved, by simpa using hlost⟩)
      · exact Or.inr (List.mem_append_left _ hq)
  · have hbefore : ∀ p ∈ s.failed, (made.map (·.source)).count p ≤ 1 := by
      intro p hp
      have hp' := hcount p (List.mem_append_left _ (hfailed.symm ▸ hp))
      rw [List.map_append, List.count_append] at hp'
      omega
    have hsuccess := h.success hbefore
    have hcard := h.card_lost hbuffer fun p hp => hcount p (List.mem_append_right _ hp)
    have hlength : t.afterLoss.batches.flatten.length = s.batches.flatten.length := by
      change t.batches.flatten.length = _
      rw [hbatches]
    change b.stats.success - _ = _
    rw [hcard, hsuccess, hlength]
    change _ = _ + (([] : List Record).length : Int)
    simp

end Accounts

/-! ## Steps -/

section
variable {b b₁ : Batch} {s : RecordStore} {start : FileSystem} {made : List Record}
  {failures blanks : Nat} {total : Int} {w w₁ : Workplace}

theorem Accounts.saveResult (h : b.Accounts s start w.files made failures blanks total) {i : Item}
    {result : Members} {found : Option Finding}
    (hrun : (b.saveResult i result).run w = ((found, b₁), w₁)) :
    ∃ t, b₁.Accounts t start w₁.files (made ++ [recordOf i result]) failures blanks total ∧
      (s.Waits made → t.Waits (made ++ [recordOf i result])) ∧
      s.Extends t (found.map (·.record)).toList := by
  obtain ⟨flushes, hfollows⟩ := h.follows
  have hpush := hfollows.push (recordOf i result)
  have hbuffer : (s.push (recordOf i result)).buffer = s.buffer ++ [recordOf i result] := rfl
  have hne : (s.push (recordOf i result)).buffer ≠ [] := by simp [hbuffer]
  have hmade : (s.push (recordOf i result)).buffer.length ≤
      (made ++ [recordOf i result]).length := by
    have hlength := hpush.length_saved
    omega
  obtain ⟨_, rfl, rfl, rfl⟩ | ⟨hfull, rfl, rfl, hwrite⟩ | ⟨e, hfull, rfl, rfl, hwrite⟩ :=
    saveResult_cases h.store rfl hrun
  · -- the record is held back
    have hkept : s.batches.flatten ++ (s.push (recordOf i result)).buffer =
        s.batches.flatten ++ s.buffer ++ [recordOf i result] := by
      rw [hbuffer, List.append_assoc]
    refine ⟨_, h.countSaved ⟨_, hpush⟩ rfl hkept ?_, ?_, rfl, rfl, ?_⟩
    · intro q hq
      simpa [hbuffer] using hq
    · intro hwaits hroom
      rw [List.length_append, List.length_singleton] at hroom
      change ((made.length + 1 : Nat) : Int) < s.capacity at hroom
      exact hwaits (by omega)
    · intro q hq
      change q ∈ s.batches.flatten ++ _ at hq
      rw [hkept] at hq
      exact List.mem_append.mp hq
  · -- it is written, with all that were held back
    have hkept : (s.push (recordOf i result)).afterWrite.batches.flatten ++ [] =
        s.batches.flatten ++ s.buffer ++ [recordOf i result] := by
      simp [RecordStore.afterWrite, RecordStore.push]
    refine ⟨_, h.countSaved ⟨_, hpush.afterWrite hne hwrite⟩ rfl hkept
      (by simp [RecordStore.afterWrite]), ?_, rfl, rfl, ?_⟩
    · intro _ hroom
      change _ < s.capacity at hroom
      omega
    · intro q hq
      change q ∈ _ ++ [] at hq
      rw [hkept] at hq
      exact List.mem_append.mp hq
  · -- it is lost, with all that were held back
    refine ⟨_, h.withdraw (some _) ⟨_, hpush.afterLoss hne hwrite⟩ rfl rfl rfl, ?_, rfl, rfl, ?_⟩
    · intro _ hroom
      change _ < s.capacity at hroom
      omega
    · intro q hq
      change q ∈ s.batches.flatten ++ [] at hq
      rw [List.append_nil] at hq
      exact Or.inl (List.mem_append_left _ hq)

/-- The record of what the item at a position gives, if that is anything. -/
def record? (items : List Item) (given : Option Members) (n : Nat) : Option Record :=
  items[n]?.bind fun i => (given.filter (!·.isEmpty)).map (recordOf i)

variable {items : List Item}

theorem record?_none (n : Nat) : record? items none n = none := by
  cases h : items[n]? <;> simp [record?, h]

theorem record?_nil (n : Nat) : record? items (some []) n = none := by
  cases h : items[n]? <;> simp [record?, h]

theorem record?_cons {n : Nat} {i : Item} (hi : items[n]? = some i) (m : String × Json)
    (ms : Members) : record? items (some (m :: ms)) n = some (recordOf i (m :: ms)) := by
  simp [record?, hi]

/-- One turn keeps the accounts: the item there is a failure or a blank, or the store is given its
record. -/
theorem Accounts.turn (h : b.Accounts s start w.files made failures blanks total) {n : Nat}
    {found : Option Finding} (hturn : b.Turn items n w found b₁ w₁) :
    let given := b.given? items w.files n
    ∃ t, b₁.Accounts t start w₁.files (made ++ (record? items given n).toList)
        (failures + if b.hasTurn items n && given.isNone then 1 else 0)
        (blanks + if given.any List.isEmpty then 1 else 0) total ∧
      (s.Waits made → t.Waits (made ++ (record? items given n).toList)) ∧
      s.Extends t (found.map (·.record)).toList ∧
      ∀ f, found = some f → record? items given n = some f.record := by
  cases hturn with
  | passed hnone =>
      have hgiven := given?_eq_none hnone w.files
      rw [hgiven]
      simp only [record?_none, hnone]
      refine ⟨s, ?_, ?_, .refl s, nofun⟩
      · simpa using h
      · simp
  | failed hturn hgiven events =>
      rw [hgiven]
      simp only [record?_none, hturn]
      refine ⟨s, ?_, ?_, .refl s, nofun⟩
      · simpa using h.countFailed
      · simp
  | empty hgiven events =>
      rw [hgiven]
      simp only [record?_nil]
      refine ⟨s, ?_, ?_, .refl s, nofun⟩
      · simpa using h.countSkipped
      · simp
  -- only here the store is given something
  | @saved i m ms _ _ _ hi hgiven hsave =>
      obtain ⟨t, ht, hwaits, hextends⟩ := h.saveResult hsave
      have hrecord := (b.run_saveResult i (m :: ms) w).2
      rw [hsave] at hrecord
      rw [hgiven]
      simp only [record?_cons hi]
      refine ⟨t, ?_, hwaits, hextends, fun f hf => ?_⟩
      · simpa using ht
      · rw [hrecord f hf]
        rfl

/-! ## All items -/

/-- However the items are ordered, running them keeps the accounts. -/
theorem Accounts.runItems {order : List Nat} {found : List (Nat × Finding)}
    (h : b.Accounts s start w.files made failures blanks total) (hnodup : order.Nodup)
    (hrun : (b.runItems items order).run w = ((.ok found, b₁), w₁)) :
    let given := b.turnGiven? items order w
    let records := order.filterMap fun n => record? items (given n) n
    ∃ t, b₁.Accounts t start w₁.files (made ++ records)
        (failures + order.countP fun n => b.hasTurn items n && (given n).isNone)
        (blanks + order.countP fun n => (given n).any List.isEmpty) total ∧
      (s.Waits made → t.Waits (made ++ records)) ∧
      s.Extends t (found.map (·.2.record)) ∧
      (found.map (·.1)).Sublist order ∧
      ∀ n f, (n, f) ∈ found → record? items (given n) n = some f.record := by
  -- the accounts after the first turn are those that the rest starts from
  induction order generalizing b w s made failures blanks found with
  | nil =>
      obtain ⟨hfound, rfl, rfl⟩ := Work.outcome_inj hrun
      obtain rfl := Except.ok.inj hfound
      refine ⟨s, ?_, ?_, .refl s, .slnil, nofun⟩
      · simpa using h
      · simp
  | cons n order ih =>
      obtain ⟨hn, hnodup⟩ := List.nodup_cons.mp hnodup
      obtain ⟨first, b₂, w₂, rest, hturn, hgoes, hitems, rfl⟩ := runItems_cons_ok hrun
      obtain ⟨t, ht, hwaits, hextends, hfirst⟩ := h.turn hturn
      obtain ⟨u, hu, hwaits', hextends', hsub, hrecords⟩ := ih ht hnodup hitems
      have hhas : b₂.hasTurn = b.hasTurn := hasTurn_congr (setup_eq_iff.mp hturn.setup).2.2
      rw [hhas] at hu
      have hmade := hgoes.filterMap_turnGiven? hn fun k given => record? items given k
      have hfailures := hgoes.countP_turnGiven? hn fun k given => b.hasTurn items k && given.isNone
      have hblanks := hgoes.countP_turnGiven? hn fun _ given => given.any List.isEmpty
      dsimp only
      rw [hmade, hfailures, hblanks, ← List.append_assoc, ← Nat.add_assoc, ← Nat.add_assoc]
      refine ⟨u, hu, fun h => hwaits' (hwaits h), ?_, ?_, fun k f hk => ?_⟩
      · have hall := hextends.trans hextends'
        cases first <;> exact hall
      · rw [List.map_append]
        cases first with
        | none => exact hsub.cons n
        | some f => exact hsub.cons_cons n
      · rcases List.mem_append.mp hk with hk | hk
        · obtain ⟨f', rfl, hpair⟩ := Option.map_eq_some_iff.mp (Option.mem_toList.mp hk)
          obtain ⟨rfl, rfl⟩ := Prod.mk.inj hpair
          rw [turnGiven?_head]
          exact hfirst f' rfl
        · have hk' : k ∈ order := hsub.subset (List.mem_map_of_mem hk)
          rw [hgoes.turnGiven?_of_mem hn hk']
          exact hrecords k f hk

/-! ## The end -/

theorem Accounts.afterWrite (h : b.Accounts s start w.files made failures blanks total)
    {fs : FileSystem} (hfollows : ∃ flushes, s.afterWrite.Follows start fs made flushes) :
    Accounts { b with store := .records s.afterWrite } s.afterWrite start fs made failures
      blanks total := by
  have hflatten : s.afterWrite.batches.flatten = s.batches.flatten ++ s.buffer := by
    simp [RecordStore.afterWrite]
  refine ⟨rfl, hfollows, h.failed, h.skipped, h.total, by simp [RecordStore.afterWrite],
    fun p hp => ?_, fun q hq => ?_, fun hcount => ?_⟩
  · change ∃ r ∈ s.afterWrite.batches.flatten ++ [], _
    rw [hflatten, List.append_nil]
    exact h.saved p hp
  · rw [hflatten] at hq
    obtain hq | hq := List.mem_append.mp hq
    · exact h.written q hq
    · exact Or.inl (h.held q hq)
  · have hsuccess := h.success hcount
    rw [hflatten, List.length_append]
    change b.stats.success = _ + ((0 : Nat) : Int)
    omega

theorem run_finish_records {w₂ : Workplace} {r : Except LostRecords Unit} {t : RecordStore}
    (hs : b.store = .records s) (hend : s.finish.run w = ((r, t), w₂)) :
    b.store.finish.run w = ((r, .records t), w₂) := by
  rw [hs, Store.finish, Work.run_bind, hend]
  rfl

theorem finish_cases {reply : Except LostRecords Unit} (hs : b.store = .records s)
    (hrun : b.finish.run w = ((reply, b₁), w₁)) :
    (s.buffer = [] ∧ b₁ = b ∧ w₁.files = w.files) ∨
    (s.buffer ≠ [] ∧ b₁ = { b with store := .records s.afterWrite } ∧
      w.files.writeText s.path s.opening (Record.lines s.buffer) = (.ok (), w₁.files)) ∨
    (∃ e b₂, s.buffer ≠ [] ∧
      b₂ = (s.buffer.map (·.source)).foldl withdraw { b with store := .records s.afterLoss } ∧
      b₁ = { b₂ with findings := b₂.kept b₂.findings } ∧
      w.files.writeText s.path s.opening (Record.lines s.buffer) = (.error e, w₁.files)) := by
  rcases hend : s.finish.run w with ⟨⟨r, t⟩, w₂⟩
  rw [Batch.finish, Work.run_bind, run_finish_records hs hend] at hrun
  obtain ⟨hbuffer, rfl, rfl, hfiles⟩ | ⟨hbuffer, rfl, rfl, hwrite⟩ |
      ⟨e, hbuffer, rfl, rfl, hwrite⟩ := RecordStore.finish_cases hend
  · obtain ⟨rfl, rfl, rfl⟩ := Work.outcome_inj hrun
    refine Or.inl ⟨hbuffer, ?_, hfiles⟩
    rw [← hs]
  · obtain ⟨rfl, rfl, rfl⟩ := Work.outcome_inj hrun
    exact Or.inr (Or.inl ⟨hbuffer, rfl, hwrite⟩)
  · obtain ⟨rfl, rfl, rfl⟩ := Work.outcome_inj hrun
    exact Or.inr (Or.inr ⟨e, _, hbuffer, rfl, rfl, hwrite⟩)

theorem kept_kept {b b' : Batch} (h : b'.saved ⊆ b.saved) (found : List Finding) :
    b'.kept (b.kept found) = b'.kept found := by
  rw [kept, kept, List.filter_filter]
  refine List.filter_congr fun f _ => ?_
  cases hf : b'.saved.contains f.record.source with
  | false => rfl
  | true =>
      have hmem := h (List.contains_iff_mem.mp hf)
      simpa using hmem

/-- The end keeps the accounts, and nothing is held back any more. -/
theorem Accounts.finish (h : b.Accounts s start w.files made failures blanks total)
    {reply : Except LostRecords Unit} (hrun : b.finish.run w = ((reply, b₁), w₁)) :
    ∃ t, b₁.Accounts t start w₁.files made failures blanks total ∧ t.buffer = [] ∧ s.Extends t [] ∧
      ∀ found, b.findings = b.kept found → b₁.findings = b₁.kept found := by
  obtain ⟨flushes, hfollows⟩ := h.follows
  obtain ⟨hbuffer, rfl, hfiles⟩ | ⟨hne, rfl, hwrite⟩ | ⟨e, b₂, hne, hb₂, rfl, hwrite⟩ :=
    finish_cases h.store hrun
  · rw [hfiles]
    exact ⟨s, h, hbuffer, .refl s, fun _ hkept => hkept⟩
  · refine ⟨_, h.afterWrite ⟨_, hfollows.afterWrite hne hwrite⟩, rfl, ⟨rfl, rfl, fun r hr => ?_⟩,
      fun _ hkept => hkept⟩
    exact Or.inl (by simpa [RecordStore.afterWrite] using hr)
  · have hlost := h.withdraw none ⟨_, by simpa using hfollows.afterLoss hne hwrite⟩
      (List.append_nil _).symm rfl rfl
    rw [← hb₂, Option.toList_none, List.append_nil] at hlost
    have hsaved : b₂.saved ⊆ b.saved ∧ b₂.findings = b.findings := by
      rw [hb₂, foldl_withdraw]
      exact ⟨List.filter_subset_self _, rfl⟩
    refine ⟨_, { hlost with }, rfl, ⟨rfl, rfl, fun r hr => ?_⟩, fun found hkept => ?_⟩
    · change r ∈ s.batches.flatten ++ [] at hr
      rw [List.append_nil] at hr
      exact Or.inl (List.mem_append_left _ hr)
    · change b₂.kept b₂.findings = b₂.kept found
      rw [hsaved.2, hkept]
      exact kept_kept hsaved.1 found

end

end Batch

end Harvest
