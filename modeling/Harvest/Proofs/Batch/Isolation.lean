import Harvest.Proofs.Batch.Fresh
import Harvest.Proofs.Store.Accepts

/-!
# What breaks off a run

A run comes to its end just if no schema and no document gives an error that they are not known to
give.  It then counts each item once, and has the results of all documents that give one.
-/

namespace Harvest.Batch

/-! ## Surprises -/

/-- Whether reading a document comes to an error that documents are not known to give. -/
def isSurprise : Option (Except DocumentError Members) → Bool
  | some (.error e) => !e.isExpected
  | _ => false

section
variable {b : Batch} {items : List Item} {n : Nat} {w : Workplace}

theorem isOk_runItem (i : Item) (schema : Schema) :
    ((b.runItem i schema).run w).1.1.isOk =
      !isSurprise (some (b.extractDocument w.files i schema)) := by
  rw [runItem, Work.run_bind, Work.run_files]
  dsimp only
  cases b.extractDocument w.files i schema with
  | error e =>
      dsimp only [isSurprise]
      rw [Bool.not_not]
      split
      · rename_i he
        rw [he]
        rfl
      · rename_i he
        rw [Bool.eq_false_iff.mpr he]
        rfl
  | ok result => cases result <;> rfl

/-- A turn breaks off a run just if it comes to a surprise. -/
theorem isOk_runItems_single : ((b.runItems items [n]).run w).1.1.isOk =
    !isSurprise (b.reading? items w.files n) := by
  cases hturn : b.hasTurn items n with
  | true =>
      obtain ⟨i, schema, hi, hschema⟩ := hasTurn_eq_true_iff.mp hturn
      rw [reading?_eq hi hschema, ← isOk_runItem]
      rcases hrun : (b.runItem i schema).run w with ⟨⟨r, b₁⟩, w₁⟩
      cases r with
      | error e =>
          rw [run_runItems_error hi hschema hrun]
          rfl
      | ok found =>
          rw [run_runItems_ok hi hschema hrun]
          rfl
  | false =>
      rw [runItems_passed hturn, reading?_eq_none hturn]
      rfl

/-- A run of items comes to its end just if no turn comes to a surprise. -/
theorem isOk_runItems {order : List Nat} (hnodup : order.Nodup) :
    ((b.runItems items order).run w).1.1.isOk = true ↔
      ∀ n ∈ order, isSurprise (b.turnReading? items order w n) = false := by
  induction order generalizing b w with
  | nil => exact ⟨fun _ => nofun, fun _ => rfl⟩
  | cons n order ih =>
      obtain ⟨hn, hnodup⟩ := List.nodup_cons.mp hnodup
      have hsingle := @isOk_runItems_single b items n w
      obtain ⟨e, herror⟩ | ⟨found, b₁, w₁, _, hgoes⟩ := b.runItems_turn items n w
      · -- the run breaks off here, whatever stands behind
        rw [herror] at hsingle
        rw [herror order]
        constructor
        · intro h
          cases h
        · intro h
          have hhead := h n List.mem_cons_self
          rw [turnReading?_head] at hhead
          rw [hhead] at hsingle
          cases hsingle
      · rw [hgoes] at hsingle
        change true = !isSurprise (b.reading? items w.files n) at hsingle
        have hhead : isSurprise (b.reading? items w.files n) = false := by
          simpa using hsingle.symm
        rw [hgoes.isOk, ih hnodup, List.forall_mem_cons, turnReading?_head]
        -- the other turns find the batch and the workplace that this one leaves
        constructor
        · intro h
          refine ⟨hhead, fun k hk => ?_⟩
          rw [hgoes.turnReading?_of_mem hn hk]
          exact h k hk
        · rintro ⟨_, h⟩ k hk
          rw [← hgoes.turnReading?_of_mem hn hk]
          exact h k hk

end

/-! ## What a run of items adds -/

/-- What running the items at some positions adds to a batch whose store accepts their results: each
of them counts once, and each that gives a record is found and is in the store. -/
structure Adds (b b₁ : Batch) (items : List Item) (order : List Nat) (given : Nat → Option Members)
    (made : List (Nat × Finding)) : Prop where
  success : b₁.stats.success = b.stats.success + made.length
  failed : b₁.stats.failed = b.stats.failed +
    order.countP fun n => b.hasTurn items n && (given n).isNone
  skipped : b₁.stats.skipped = b.stats.skipped + order.countP fun n => (given n).any List.isEmpty
  records : made.map (fun p => (p.1, p.2.record)) =
    order.filterMap fun n => (record? items (given n) n).map (n, ·)
  saved : ∀ p ∈ made, p.2.record.source ∈ b₁.saved
  stored : ∀ p ∈ made, b₁.store.Has p.2.record p.2.path
  keepsSaved : b.saved ⊆ b₁.saved
  keepsStored : ∀ r path, b.store.Has r path → b₁.store.Has r path

namespace Adds

variable {b b₁ b₂ : Batch} {items : List Item} {order order' : List Nat}
  {given given' : Nat → Option Members} {made made' : List (Nat × Finding)}

theorem nil (b : Batch) (items : List Item) (given : Nat → Option Members) :
    b.Adds b items [] given [] :=
  ⟨by simp, by simp, by simp, rfl, nofun, nofun, List.Subset.refl _, fun _ _ h => h⟩

theorem congr (h : b.Adds b₁ items order given made) (hgiven : ∀ n ∈ order, given n = given' n) :
    b.Adds b₁ items order given' made := by
  have hcount : ∀ p : Nat → Option Members → Bool,
      order.countP (fun n => p n (given n)) = order.countP fun n => p n (given' n) := by
    intro p
    refine List.countP_congr fun n hn => ?_
    rw [hgiven n hn]
  have hrecords : (order.filterMap fun n => (record? items (given n) n).map (n, ·)) =
      order.filterMap fun n => (record? items (given' n) n).map (n, ·) := by
    refine List.filterMap_congr fun n hn => ?_
    rw [hgiven n hn]
  refine { h with failed := ?_, skipped := ?_, records := h.records.trans hrecords }
  · rw [h.failed, hcount fun n given => b.hasTurn items n && given.isNone]
  · rw [h.skipped, hcount fun _ given => given.any List.isEmpty]

theorem trans (h : b.Adds b₁ items order given made) (hhas : b₁.hasTurn = b.hasTurn)
    (h' : b₁.Adds b₂ items order' given made') :
    b.Adds b₂ items (order ++ order') given (made ++ made') := by
  refine ⟨?_, ?_, ?_, ?_, ?_, ?_, List.Subset.trans h.keepsSaved h'.keepsSaved,
    fun r path hr => h'.keepsStored r path (h.keepsStored r path hr)⟩
  · rw [h'.success, h.success, List.length_append]
    push_cast
    ring
  · rw [h'.failed, h.failed, hhas, List.countP_append]
    push_cast
    ring
  · rw [h'.skipped, h.skipped, List.countP_append]
    push_cast
    ring
  · rw [List.map_append, List.filterMap_append, h.records, h'.records]
  · intro p hp
    obtain hp | hp := List.mem_append.mp hp
    · exact h'.keepsSaved (h.saved p hp)
    · exact h'.saved p hp
  · intro p hp
    obtain hp | hp := List.mem_append.mp hp
    · exact h'.keepsStored _ _ (h.stored p hp)
    · exact h'.stored p hp

end Adds

section
variable {b b₁ : Batch} {items : List Item} {w w₁ : Workplace}

/-- A store that accepts a result has it. -/
theorem run_saveResult_accepts (h : b.store.Accepts items w.files) {i : Item} (hi : i ∈ items)
    (result : Members) : ∃ (path : String) (store : Store) (w₁ : Workplace),
      (b.saveResult i result).run w = ((some ⟨recordOf i result, path⟩,
        Batch.countSaved { b with store } i.path), w₁) ∧
      store.Accepts items w₁.files ∧ store.Has (recordOf i result) path ∧
      ∀ r path, b.store.Has r path → store.Has r path := by
  obtain ⟨p, store, w₁, hsave, haccepts, hhas, hkeeps⟩ := h.takes hi result
  rw [ofResult_eq] at hhas
  refine ⟨p.toString, store, w₁, ?_, haccepts, hhas, hkeeps⟩
  rw [saveResult, Work.run_bind, hsave]
  rfl

theorem Turn.adds {n : Nat} {found : Option Finding} (h : b.Turn items n w found b₁ w₁)
    (haccepts : b.store.Accepts items w.files) {given : Nat → Option Members}
    (hgiven : given n = b.given? items w.files n) :
    b.Adds b₁ items [n] given (found.map (n, ·)).toList ∧ b₁.store.Accepts items w₁.files := by
  cases h with
  | passed hnone =>
      rw [given?_eq_none hnone] at hgiven
      refine ⟨⟨by simp, ?_, ?_, ?_, nofun, nofun, List.Subset.refl _, fun _ _ h => h⟩, haccepts⟩
      · simp [hnone]
      · simp [hgiven]
      · simp [hgiven, record?_none]
  | failed hturn hnone events =>
      rw [hnone] at hgiven
      refine ⟨⟨?_, ?_, ?_, ?_, nofun, nofun, List.Subset.refl _, fun _ _ h => h⟩, haccepts⟩
      · simp [countFailed]
      · simp [hturn, hgiven, countFailed]
      · simp [hgiven, countFailed]
      · simp [hgiven, record?_none]
  | empty hempty events =>
      rw [hempty] at hgiven
      refine ⟨⟨?_, ?_, ?_, ?_, nofun, nofun, List.Subset.refl _, fun _ _ h => h⟩, haccepts⟩
      · simp [countSkipped]
      · simp [hgiven, countSkipped]
      · simp [hgiven, countSkipped]
      · simp [hgiven, record?_nil]
  | @saved i m ms _ _ _ hi hsome hsave =>
      rw [hsome] at hgiven
      obtain ⟨path, store, w₂, hrun, haccepts, hhas, hkeeps⟩ :=
        run_saveResult_accepts haccepts (List.mem_of_getElem? hi) (m :: ms)
      rw [hsave] at hrun
      obtain ⟨rfl, rfl, rfl⟩ := Work.outcome_inj hrun
      refine ⟨⟨?_, ?_, ?_, ?_, ?_, ?_, ?_, hkeeps⟩, haccepts⟩
      · simp [countSaved]
      · simp [hgiven, countSaved]
      · simp [hgiven, countSaved]
      · simp [hgiven, record?_cons hi]
      · rintro p hp
        obtain rfl := List.mem_singleton.mp hp
        exact mem_countSaved.mpr (Or.inr rfl)
      · rintro p hp
        obtain rfl := List.mem_singleton.mp hp
        exact hhas
      · intro p hp
        exact mem_countSaved.mpr (Or.inl hp)

/-- Where the store accepts all results, running the items at distinct positions adds what they give
when their turns come. -/
theorem adds_runItems {order : List Nat} {made : List (Nat × Finding)} (hnodup : order.Nodup)
    (haccepts : b.store.Accepts items w.files)
    (hrun : (b.runItems items order).run w = ((.ok made, b₁), w₁)) :
    b.Adds b₁ items order (b.turnGiven? items order w) made := by
  induction order generalizing b w made with
  | nil =>
      obtain ⟨hmade, rfl, rfl⟩ := Work.outcome_inj hrun
      obtain rfl := Except.ok.inj hmade
      exact .nil b items _
  | cons n order ih =>
      obtain ⟨hn, hnodup⟩ := List.nodup_cons.mp hnodup
      obtain ⟨first, b₂, w₂, rest, hturn, hgoes, hitems, rfl⟩ := runItems_cons_ok hrun
      obtain ⟨hfirst, haccepts⟩ :=
        @Turn.adds _ _ _ _ _ _ _ hturn haccepts (b.turnGiven? items (n :: order) w)
          (turnGiven?_head order)
      have htail : b₂.Adds b₁ items order (b.turnGiven? items (n :: order) w) rest := by
        refine (ih hnodup haccepts hitems).congr fun k hk => ?_
        exact (hgoes.turnGiven?_of_mem hn hk).symm
      exact hfirst.trans (hasTurn_congr (setup_eq_iff.mp hturn.setup).2.2) htail

end

/-! ## Findings in the order of the items -/

theorem lookup_map_snd {α β : Type} (f : α → β) (l : List (Nat × α)) (n : Nat) :
    (l.map fun p => (p.1, f p.2)).lookup n = (l.lookup n).map f := by
  induction l with
  | nil => rfl
  | cons p l ih =>
      rw [List.map_cons, List.lookup_cons, List.lookup_cons, ih]
      cases n == p.1 <;> rfl

theorem lookup_filterMap {α : Type} (given : Nat → Option α) (order : List Nat) (n : Nat) :
    (order.filterMap fun k => (given k).map (k, ·)).lookup n =
      if n ∈ order then given n else none := by
  induction order with
  | nil => rfl
  | cons k order ih =>
      rw [filterMap_cons_eq]
      by_cases hk : n = k
      · subst hk
        cases hgiven : given n with
        | none => simp [ih, hgiven]
        | some r => simp
      · cases hgiven : given k with
        | none => simp [ih, hk]
        | some r =>
            have hne : (n == k) = false := by simpa using hk
            simp [List.lookup_cons, hne, hk, ih]

namespace Adds

variable {b b₁ : Batch} {items : List Item} {order : List Nat} {given : Nat → Option Members}
  {made : List (Nat × Finding)}

/-- No finding is lost, and they stand in the order of the items. -/
theorem findings (h : b.Adds b₁ items order given made)
    (horder : order.Perm (List.range items.length)) :
    (b₁.kept (inItemOrder items made)).map (·.record) =
      (List.range items.length).filterMap fun n => record? items (given n) n := by
  rw [kept_inItemOrder h.saved items, inItemOrder, List.map_filterMap]
  refine List.filterMap_congr fun n hn => ?_
  rw [← lookup_map_snd, h.records, lookup_filterMap, if_pos (horder.mem_iff.mpr hn)]

theorem length_made (h : b.Adds b₁ items order given made) :
    made.length = (order.filterMap fun n => record? items (given n) n).length := by
  have hlength := congrArg List.length h.records
  rw [List.length_map, List.length_filterMap_eq_countP] at hlength
  rw [hlength, List.length_filterMap_eq_countP]
  simp only [Option.isSome_map]

end Adds

/-! ## A whole run -/

section
variable {b : Batch} {items : List Item} {order : List Nat} {w : Workplace}

theorem isOk_run (hne : items ≠ []) (hnodup : order.Nodup)
    (hkept : ∀ s ∈ b.newSchemas w items, Schema.isKept s.2 = true) :
    ((b.run items order).run w).1.1.isOk = true ↔
      ∀ n ∈ order, isSurprise (b.runReading? items order w n) = false := by
  obtain ⟨events, hreading, hloaded⟩ := run_of_kept hne hkept
  rcases hitems : (((b.loaded w items).counted items).runItems items order).run
    { w with journal := events } with ⟨⟨r, b₂⟩, w₂⟩
  obtain ⟨b₃, events', hrun, _⟩ := hloaded order r b₂ w₂ hitems
  have hok : ((b.run items order).run w).1.1.isOk =
      ((((b.loaded w items).counted items).runItems items order).run
        { w with journal := events }).1.1.isOk := by
    rw [hrun, hitems]
    cases r <;> rfl
  rw [hok, isOk_runItems hnodup]
  simp only [hreading]

theorem exists_of_isOk {r : Except BatchError (List Finding)} (h : r.isOk = true) :
    ∃ found, r = .ok found := by
  cases r with
  | error e => cases h
  | ok found => exact ⟨found, rfl⟩

/-- A run comes to its end just if it keeps each schema that it loads, or the error in its place,
and no turn comes to a surprise. -/
theorem exists_run_iff (horder : order.Perm (List.range items.length)) :
    (∃ found b₁ w₁, (b.run items order).run w = ((.ok found, b₁), w₁)) ↔
      (∀ s ∈ b.newSchemas w items, Schema.isKept s.2 = true) ∧
        ∀ n < items.length, isSurprise (b.runReading? items order w n) = false := by
  by_cases hne : items = []
  · subst hne
    constructor
    · intro _
      exact ⟨nofun, nofun⟩
    · intro _
      exact ⟨[], b, _, rfl⟩
  have hnodup : order.Nodup := horder.nodup_iff.mpr List.nodup_range
  have hmem : ∀ n, n ∈ order ↔ n < items.length := fun n => horder.mem_iff.trans List.mem_range
  constructor
  · rintro ⟨found, b₁, w₁, hrun⟩
    obtain ⟨hkept, _⟩ := run_eq_runItems hne hrun
    have hiff := isOk_run hne hnodup hkept
    rw [hrun] at hiff
    exact ⟨hkept, fun n hn => hiff.mp rfl n ((hmem n).mpr hn)⟩
  · rintro ⟨hkept, hreading⟩
    have hok := (isOk_run hne hnodup hkept).mpr fun n hn => hreading n ((hmem n).mp hn)
    rcases hrun : (b.run items order).run w with ⟨⟨r, b₁⟩, w₁⟩
    rw [hrun] at hok
    obtain ⟨found, rfl⟩ := exists_of_isOk hok
    exact ⟨found, b₁, w₁, rfl⟩

/-- Where no result was written over a document before its turn, reading it comes to what it comes
to at the start. -/
theorem runReading?_eq {n : Nat} {i : Item} (hi : items[n]? = some i)
    (hsame : SameDocuments [i] ((b.run items (order.takeWhile (· != n))).run w).2.files w.files) :
    b.runReading? items order w n = (b.loaded w items).reading? items w.files n := by
  have hread := hsame i (List.mem_singleton_self i)
  have hsetup := b.setup_run_loaded items (order.takeWhile (· != n)) w
  rw [runReading?, reading?_congr hsetup, reading?, reading?, hi, Option.bind_some,
    Option.bind_some]
  split
  · rw [extractDocument, extractDocument, hread]
  · rfl

/-- A run that comes to its end, in a batch whose store accepts all results, counts each item once
and has a record for each one that gives something. -/
theorem run_counts {found : List Finding} {b₁ : Batch} {w₁ : Workplace}
    (horder : order.Perm (List.range items.length)) (haccepts : b.store.Accepts items w.files)
    (hrun : (b.run items order).run w = ((.ok found, b₁), w₁)) :
    let given := b.runGiven? items order w
    let places := List.range items.length
    found.map (·.record) = places.filterMap (fun n => record? items (given n) n) ∧
      (∀ f ∈ found, b₁.store.Has f.record f.path) ∧
      b₁.stats.success = b.stats.success + found.length ∧
      b₁.stats.failed = b.stats.failed + places.countP (fun n => (given n).isNone) ∧
      b₁.stats.skipped = b.stats.skipped + places.countP fun n => (given n).any List.isEmpty := by
  intro given places
  by_cases hne : items = []
  · subst hne
    obtain ⟨hfound, rfl, rfl⟩ := Work.outcome_inj hrun
    obtain rfl := Except.ok.inj hfound
    exact ⟨rfl, nofun, by simp, by simp [places], by simp [places]⟩
  have hnodup : order.Nodup := horder.nodup_iff.mpr List.nodup_range
  obtain ⟨_, hschemas, events, made, b₂, w₂, hitems, _, rfl, rfl, hgiven⟩ :=
    run_eq_runItems hne hrun
  have haccepts : ((b.loaded w items).counted items).store.Accepts items
      ({ w with journal := events } : Workplace).files := haccepts
  have hadds := adds_runItems hnodup haccepts hitems
  rw [← funext hgiven] at hadds
  -- items without a schema have failed before the first turn
  have hfailures := countP_isNone given hschemas
    (fun n hn => (hgiven n).trans (turnGiven?_of_hasTurn hn)) horder
  have hfound := hadds.findings horder
  have hlength : (b₂.kept (inItemOrder items made)).length = made.length := by
    rw [hadds.length_made, ← List.length_map, hfound]
    exact (horder.symm.filterMap _).length_eq
  refine ⟨hfound, fun f hf => ?_, ?_, ?_, ?_⟩
  · obtain ⟨n, hmem⟩ := mem_of_inItemOrder (List.mem_filter.mp hf).1
    exact hadds.stored _ hmem
  · rw [hlength]
    exact hadds.success
  · rw [← horder.countP_eq, ← hfailures]
    refine hadds.failed.trans ?_
    push_cast
    rw [← add_assoc]
    rfl
  · rw [← horder.countP_eq]
    exact hadds.skipped

/-- A run comes to its end just if it keeps each schema that it loads, or the error in its place,
and reading no document comes to an error that documents are not known to give.  If the store
accepts all results, such a run counts each item once, as a success, as failed or as skipped, and
finds and stores a record for each item whose document gives something when its turn comes: this is
what the document gives alone, unless a result was written over it before. -/
theorem run_isolates (horder : order.Perm (List.range items.length))
    (haccepts : b.store.Accepts items w.files) :
    let reading := b.runReading? items order w
    let given := fun n => (reading n).bind Except.toOption
    let places := List.range items.length
    ((∃ found b₁ w₁, (b.run items order).run w = ((.ok found, b₁), w₁)) ↔
        (∀ s ∈ b.newSchemas w items, Schema.isKept s.2 = true) ∧
          ∀ n < items.length, isSurprise (reading n) = false) ∧
      (∀ n i, items[n]? = some i →
        SameDocuments [i] ((b.run items (order.takeWhile (· != n))).run w).2.files w.files →
        reading n = (b.loaded w items).reading? items w.files n) ∧
      ∀ found b₁ w₁, (b.run items order).run w = ((.ok found, b₁), w₁) →
        found.map (·.record) = places.filterMap (fun n => record? items (given n) n) ∧
        (∀ f ∈ found, b₁.store.Has f.record f.path) ∧
        b₁.stats.success = b.stats.success + found.length ∧
        b₁.stats.failed = b.stats.failed + places.countP (fun n => (given n).isNone) ∧
        b₁.stats.skipped = b.stats.skipped + places.countP (fun n => (given n).any List.isEmpty) ∧
        found.length + places.countP (fun n => (given n).isNone) +
          places.countP (fun n => (given n).any List.isEmpty) = items.length := by
  intro reading given places
  have hgiven : b.runGiven? items order w = given := funext (b.runGiven?_eq_bind items order w)
  refine ⟨exists_run_iff horder, fun n i hi hsame => runReading?_eq hi hsame, ?_⟩
  intro found b₁ w₁ hrun
  have hcounts := run_counts horder haccepts hrun
  rw [hgiven] at hcounts
  obtain ⟨hfound, hstored, hsuccess, hfailed, hskipped⟩ := hcounts
  refine ⟨hfound, hstored, hsuccess, hfailed, hskipped, ?_⟩
  have hlength := congrArg List.length hfound
  rw [List.length_map] at hlength
  rw [hlength]
  exact length_records given (.refl _)

end

/-! ## A sample -/

/-- A place with a page and a file that is no text. -/
def mixedPlace : Workplace :=
  { files :=
    { here := []
      entries := [(["page"], .file "<p>1</p>".toUTF8), (["broken"], .file ⟨#[0xff]⟩)] } }

/-- The page, with the schema in a file. -/
def schemaFrom (name : String) : Item := { path := "page", schema := .named name }

theorem read_mixed_page :
    mixedPlace.files.readLossyText (Path.ofString "page") = .ok "<p>1</p>" := by
  cbv

theorem key_kindFirst :
    kindFirst.schema.key = "\x7b\"kind\": \"'page'\", \"root\": \"name()\"\x7d" := by
  cbv

theorem exists_result_mixed : ∃ schema m ms,
    Schema.ofSource mixedPlace kindFirst.schema = .ok schema ∧
      sampleBatch.extractDocument mixedPlace.files kindFirst schema = .ok (m :: ms) := by
  obtain ⟨schema, m, ms, hschema, hgives, _⟩ :=
    @exists_result mixedPlace kindFirst "kind" ["root"] read_mixed_page rfl (by decide +kernel)
  exact ⟨schema, m, ms, hschema, hgives⟩

/-- There is no file of that name. -/
theorem ofSource_absent : ∃ e, Schema.ofSource mixedPlace (.named "absent") = .error e ∧
    e.isExpected = true := by
  have hread : mixedPlace.files.read (Path.ofString "absent") =
      .error (.trouble .missing "absent") := by
    cbv
  have haddress : SchemaSource.isAddress "absent" = false := by cbv
  refine ⟨.file (Path.ofString "absent").toString .absent, ?_, rfl⟩
  rw [Schema.ofSource, Schema.describe, haddress, if_neg (by simp), Schema.readFile,
    FileSystem.readJson, FileSystem.readText, hread]
  rfl

/-- The file of that name is no text. -/
theorem ofSource_broken : ∃ e, Schema.ofSource mixedPlace (.named "broken") = .error e ∧
    e.isExpected = false := by
  have hread : mixedPlace.files.read (Path.ofString "broken") = .ok ⟨#[0xff]⟩ := by cbv
  have hbytes : Text.readUtf8? ⟨#[0xff]⟩ = none := by cbv
  have haddress : SchemaSource.isAddress "broken" = false := by cbv
  refine ⟨.file (Path.ofString "broken").toString .undecodable, ?_, rfl⟩
  rw [Schema.ofSource, Schema.describe, haddress, if_neg (by simp), Schema.readFile,
    FileSystem.readJson, FileSystem.readText, hread]
  dsimp only
  rw [hbytes]

theorem accepts_sample (items : List Item) :
    sampleBatch.store.Accepts items mixedPlace.files := by
  have hlocate : mixedPlace.files.locate (Path.ofString "found") = .ok ["found"] := by cbv
  have hfree : mixedPlace.files.at? ["found"] = none := rfl
  refine ⟨rfl, fun p hp => ?_⟩
  obtain rfl : p = Path.ofString "found" := hp
  refine ⟨["found"], hlocate, ?_⟩
  simp [hfree]

theorem firstItems_mixed {name : String} (h : name ≠ kindFirst.schema.key) :
    firstItems [] [kindFirst, schemaFrom name] = [kindFirst, schemaFrom name] := by
  have hkey : (schemaFrom name).schema.key = name := rfl
  simp [firstItems, hkey, h]

theorem ne_key_kindFirst {name : String} (h : '\x7b' ∉ name.toList) :
    name ≠ kindFirst.schema.key := by
  rintro rfl
  rw [key_kindFirst] at h
  exact h (by decide)

theorem isKept_mixed {i : Item} (hi : i ∈ [kindFirst, schemaFrom "absent"]) :
    Schema.isKept (Schema.ofSource mixedPlace i.schema) = true := by
  rcases List.mem_pair.mp hi with rfl | rfl
  · obtain ⟨schema, _, _, hschema, _⟩ := exists_result_mixed
    rw [hschema]
    rfl
  · obtain ⟨e, habsent, hexpected⟩ := ofSource_absent
    rw [schemaFrom, habsent]
    exact hexpected

theorem schemaOf?_mixed {i : Item} (hi : i ∈ [kindFirst, schemaFrom "absent"]) :
    (sampleBatch.loaded mixedPlace [kindFirst, schemaFrom "absent"]).schemaOf? i =
      some (Schema.ofSource mixedPlace i.schema) := by
  have hkey := @ne_key_kindFirst "absent" (by decide)
  have hnew : newcomers mixedPlace [] [kindFirst, schemaFrom "absent"] =
      [kindFirst, schemaFrom "absent"] := by
    rw [newcomers, List.map_nil, firstItems_mixed hkey, List.takeWhile_eq_self_iff]
    exact fun j hj => isKept_mixed hj
  have hloaded := @schemas_newcomers sampleBatch mixedPlace mixedPlace []
    [kindFirst, schemaFrom "absent"] rfl fun _ _ => rfl
  rw [schemaOf?, loaded, hloaded, hnew, List.nil_append, lookup_schemasOf]
  have hleader : leader? [kindFirst, schemaFrom "absent"] i = some i := by
    rcases List.mem_pair.mp hi with rfl | rfl
    · simp [leader?]
    · have hname : (schemaFrom "absent").schema.key = "absent" := rfl
      simp [leader?, hname, hkey.symm]
  rw [hleader, Option.map_some]

/-- The page gives something by the first schema, and nothing by the one that is not there. -/
theorem reading_mixed : ∃ m ms,
    sampleBatch.runReading? [kindFirst, schemaFrom "absent"] [1, 0] mixedPlace 0 =
      some (.ok (m :: ms)) ∧
    sampleBatch.runReading? [kindFirst, schemaFrom "absent"] [1, 0] mixedPlace 1 = none := by
  obtain ⟨schema, m, ms, hschema, hgives⟩ := exists_result_mixed
  obtain ⟨e, habsent, _⟩ := ofSource_absent
  have hroom : sampleBatch.HasRoom 2 := ⟨_, rfl, by decide⟩
  have hsame : ∀ n i, SameDocuments [i] ((sampleBatch.run [kindFirst, schemaFrom "absent"]
      ([1, 0].takeWhile (· != n))).run mixedPlace).2.files mixedPlace.files := by
    intro n i j _
    have hpart := hroom.mono (List.takeWhile_sublist (l := [1, 0]) (· != n)).length_le
    rw [@files_run_room sampleBatch mixedPlace mixedPlace [] [kindFirst, schemaFrom "absent"] _ rfl
      (fun _ _ => rfl) hpart]
  refine ⟨m, ms, ?_, ?_⟩
  · have hkind := @schemaOf?_mixed kindFirst (by simp)
    rw [hschema] at hkind
    rw [@runReading?_eq _ _ _ _ 0 kindFirst rfl (hsame 0 _), reading?_eq rfl hkind]
    exact congrArg some hgives
  · have hnone := @schemaOf?_mixed (schemaFrom "absent") (by simp)
    rw [schemaFrom, habsent] at hnone
    rw [@runReading?_eq _ _ _ _ 1 (schemaFrom "absent") rfl (hsame 1 _)]
    simp [reading?, schemaFrom, hnone]

theorem run_isolates_sample : ∃ found b₁ w₁ f,
    [1, 0].Perm (List.range [kindFirst, schemaFrom "absent"].length) ∧
    sampleBatch.store.Accepts [kindFirst, schemaFrom "absent"] mixedPlace.files ∧
    (sampleBatch.run [kindFirst, schemaFrom "absent"] [1, 0]).run mixedPlace =
      ((.ok found, b₁), w₁) ∧
    found = [f] ∧ f.record.source = "page" ∧ b₁.store.Has f.record f.path ∧
    b₁.stats.success = 1 ∧ b₁.stats.failed = 1 ∧ b₁.stats.skipped = 0 := by
  obtain ⟨m, ms, hfirst, hsecond⟩ := reading_mixed
  have horder : [1, 0].Perm (List.range [kindFirst, schemaFrom "absent"].length) := by decide
  have haccepts := accepts_sample [kindFirst, schemaFrom "absent"]
  obtain ⟨hiff, _, hcounts⟩ := run_isolates horder haccepts
  have hkept : ∀ s ∈ sampleBatch.newSchemas mixedPlace [kindFirst, schemaFrom "absent"],
      Schema.isKept s.2 = true := by
    intro s hs
    obtain ⟨i, hi, rfl⟩ := List.mem_map.mp hs
    exact isKept_mixed (mem_firstItems hi)
  have hcalm : ∀ n < 2, isSurprise (sampleBatch.runReading? [kindFirst, schemaFrom "absent"] [1, 0]
      mixedPlace n) = false := by
    intro n hn
    interval_cases n
    · rw [hfirst]
      rfl
    · rw [hsecond]
      rfl
  obtain ⟨found, b₁, w₁, hrun⟩ := hiff.mpr ⟨hkept, hcalm⟩
  obtain ⟨hfound, hstored, hsuccess, hfailed, hskipped, _⟩ := hcounts found b₁ w₁ hrun
  have hplaces : List.range [kindFirst, schemaFrom "absent"].length = [0, 1] := rfl
  rw [hplaces] at hfound hfailed hskipped
  simp only [List.filterMap_cons, List.countP_cons, hfirst, hsecond] at hfound hfailed hskipped
  obtain ⟨f, rest, rfl, hf, hnil⟩ := List.map_eq_cons_iff.mp hfound
  obtain rfl := List.map_eq_nil_iff.mp hnil
  refine ⟨[f], b₁, w₁, f, horder, haccepts, hrun, rfl, ?_, hstored f List.mem_cons_self, hsuccess,
    hfailed, hskipped⟩
  rw [hf]
  rfl

/-- A schema file that is no text breaks off the run, so that another page is not read. -/
theorem run_breaks_off :
    sampleBatch.store.Accepts [kindFirst, schemaFrom "broken"] mixedPlace.files ∧
    (∃ e b₁ w₁, (sampleBatch.run [kindFirst, schemaFrom "broken"] [0, 1]).run mixedPlace =
      ((.error e, b₁), w₁) ∧ b₁.stats = { total := 2, success := 0, failed := 0, skipped := 0 }) ∧
    ∃ found b₁ w₁, (sampleBatch.run [kindFirst] [0]).run mixedPlace = ((.ok found, b₁), w₁) ∧
      found.length = 1 := by
  refine ⟨accepts_sample _, ?_, ?_⟩
  · obtain ⟨e, hload, hlost⟩ := ofSource_broken
    have hbroken : ("broken", Schema.ofSource mixedPlace (.named "broken")) ∈
        sampleBatch.newSchemas mixedPlace [kindFirst, schemaFrom "broken"] := by
      change _ ∈ schemasOf mixedPlace (firstItems [] [kindFirst, schemaFrom "broken"])
      rw [firstItems_mixed (ne_key_kindFirst (by decide))]
      exact List.mem_cons_of_mem _ List.mem_cons_self
    have hne : [kindFirst, schemaFrom "broken"] ≠ [] := by simp
    obtain ⟨events, ⟨_, hkept⟩ | ⟨_, e, hrun⟩⟩ := sampleBatch.run_eq_runLoaded hne mixedPlace
    · have hkept := hkept _ hbroken
      rw [hload, Schema.isKept, hlost] at hkept
      cases hkept
    · exact ⟨e, _, _, hrun _, rfl⟩
  · obtain ⟨schema, m, ms, hschema, hgives⟩ := exists_result_mixed
    have hkept : ∀ i ∈ [kindFirst], Schema.isKept (Schema.ofSource mixedPlace i.schema) = true := by
      intro i hi
      obtain rfl := List.mem_singleton.mp hi
      rw [hschema]
      rfl
    obtain ⟨found, b₁, w₁, hrun, hlength⟩ := @exists_run_room sampleBatch mixedPlace mixedPlace []
      [kindFirst] (by simp) rfl (fun _ _ => rfl) ⟨_, rfl, by decide⟩ hkept fun i hi => by
        obtain rfl := List.mem_singleton.mp hi
        refine ⟨kindFirst, schema, m, ms, ?_, hschema, hgives⟩
        simp [newcomers, firstItems, leader?, hschema, Schema.isKept]
    have horder : oneByOne [kindFirst] = [0] := rfl
    rw [horder] at hrun
    exact ⟨found, b₁, w₁, hrun, hlength⟩

end Harvest.Batch
