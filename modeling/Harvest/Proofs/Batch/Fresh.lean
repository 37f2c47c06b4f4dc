import Harvest.Proofs.Batch.Accounts
import Harvest.Proofs.Batch.Alone

/-!
# Fresh batches

A batch that has done nothing yet keeps the accounts through a run and to the end.
-/

namespace Harvest.Batch

/-! ## A whole run -/

/-- A batch that has done nothing yet and writes records together to a file. -/
def fresh (defaults : Defaults) (registry : Registry) (path : Path) (capacity : Int) : Batch :=
  { defaults, registry, store := .records { path, capacity } }

/-- What the item at a position gives when its turn comes in a run. -/
def runGiven? (b : Batch) (items : List Item) (order : List Nat) (w : Workplace) (n : Nat) :
    Option Members :=
  let out := (b.run items (order.takeWhile (· != n))).run w
  out.1.2.given? items out.2.files n

/-- What reading the item at a position comes to when its turn comes in a run. -/
def runReading? (b : Batch) (items : List Item) (order : List Nat) (w : Workplace) (n : Nat) :
    Option (Except DocumentError Members) :=
  let out := (b.run items (order.takeWhile (· != n))).run w
  out.1.2.reading? items out.2.files n

theorem runGiven?_eq_bind (b : Batch) (items : List Item) (order : List Nat) (w : Workplace)
    (n : Nat) :
    b.runGiven? items order w n = (b.runReading? items order w n).bind Except.toOption :=
  given?_eq_bind ..

theorem reading?_congr {b b' : Batch} (h : b'.setup = b.setup) : b'.reading? = b.reading? := by
  obtain ⟨hdefaults, hregistry, hschemas⟩ := setup_eq_iff.mp h
  funext items fs n
  rw [reading?, reading?, schemaOf?_congr hschemas, extractDocument_congr hdefaults hregistry]

/-- Whether findings by position are made of what items give, and the records that a store has are
among them. -/
structure Produced (items : List Item) (given : Nat → Option Members) (order : List Nat)
    (s : RecordStore) (made : List (Nat × Finding)) : Prop where
  positions : (made.map (·.1)).Sublist order
  record : ∀ n f, (n, f) ∈ made → record? items (given n) n = some f.record
  kept : ∀ r ∈ s.batches.flatten ++ s.buffer, r ∈ made.map (·.2.record)

theorem countP_positions (p : Item → Bool) (items : List Item) :
    items.countP p = (List.range items.length).countP fun n => items[n]?.any p := by
  induction items with
  | nil => rfl
  | cons i is ih =>
      rw [List.length_cons, List.range_succ_eq_map, List.countP_cons, List.countP_cons,
        List.countP_map, ih]
      rfl

theorem countP_not_add {p q : Nat → Bool} (h : ∀ n, p n = false → q n = true) (order : List Nat) :
    order.countP (fun n => !p n) + order.countP (fun n => p n && q n) = order.countP q := by
  induction order with
  | nil => rfl
  | cons n order ih =>
      rw [List.countP_cons, List.countP_cons, List.countP_cons]
      cases hp : p n with
      | true => simp; omega
      | false => simp [h n hp]; omega

section
variable {b : Batch} {items : List Item} {order : List Nat}

/-- An item gives nothing if it has no schema, and otherwise if its turn gives nothing. -/
theorem countP_isNone (given : Nat → Option Members)
    (hschemas : ∀ i ∈ items, (b.schemaOf? i).isSome = true)
    (hgiven : ∀ n, b.hasTurn items n = false → given n = none)
    (horder : order.Perm (List.range items.length)) :
    items.countP b.lacksSchema + order.countP (fun n => b.hasTurn items n && (given n).isNone) =
      order.countP fun n => (given n).isNone := by
  have hlacks : items.countP b.lacksSchema = order.countP fun n => !b.hasTurn items n := by
    rw [countP_positions, ← horder.countP_eq]
    refine List.countP_congr fun n hn => ?_
    have hlt : n < items.length := List.mem_range.mp (horder.mem_iff.mp hn)
    have hschema := hschemas items[n] (List.getElem_mem hlt)
    rw [hasTurn, List.getElem?_eq_getElem hlt, Option.any_some, Option.any_some, lacksSchema,
      isReadable]
    cases hs : b.schemaOf? items[n] with
    | none => simp [hs] at hschema
    | some schema => cases schema <;> simp
  rw [hlacks]
  apply countP_not_add
  intro n hturn
  rw [hgiven n hturn]
  rfl

theorem turnGiven?_of_hasTurn {w : Workplace} {n : Nat} (h : b.hasTurn items n = false) :
    b.turnGiven? items order w n = none := by
  have hsetup := b.setup_runItems items (order.takeWhile (· != n)) w
  rw [turnGiven?]
  apply given?_eq_none
  rw [hasTurn_congr (setup_eq_iff.mp hsetup).2.2]
  exact h

/-- Where no schema breaks off the run, each item has one, or an error in its place. -/
theorem isSome_schemaOf?_loaded {w : Workplace} {i : Item}
    (hkept : ∀ s ∈ b.newSchemas w items, Schema.isKept s.2 = true) (hi : i ∈ items) :
    ((b.loaded w items).schemaOf? i).isSome = true := by
  have hall : (b.newSchemas w items).takeWhile (Schema.isKept ·.2) = b.newSchemas w items :=
    List.takeWhile_eq_self_iff.mpr hkept
  rw [schemaOf?, loaded, hall, List.lookup_isSome_iff]
  obtain hknown | ⟨j, hj, hkey⟩ := key_mem_firstItems (b.schemas.map (·.1)) hi
  · obtain ⟨s, hs, hkey⟩ := List.mem_map.mp hknown
    exact ⟨s, List.mem_append_left _ hs, by simp [hkey]⟩
  · refine ⟨_, List.mem_append_right _ (List.mem_map_of_mem hj), ?_⟩
    simp [hkey]

/-- Where no schema breaks off the run, it comes to what running the items comes to. -/
theorem run_of_kept (hne : items ≠ []) {w : Workplace}
    (hkept : ∀ s ∈ b.newSchemas w items, Schema.isKept s.2 = true) :
    let start := (b.loaded w items).counted items
    ∃ events : List Event, (∀ order n, b.runReading? items order w n =
        start.turnReading? items order { w with journal := events } n) ∧
      ∀ order r b₂ w₂,
        (start.runItems items order).run { w with journal := events } = ((r, b₂), w₂) →
        ∃ (b₃ : Batch) (events' : List Event), (b.run items order).run w =
            ((r.map fun made => b₂.kept (inItemOrder items made), b₃),
              { w₂ with journal := events' }) ∧
          b₃.setup = b₂.setup ∧
          ∀ made, r = .ok made → b₃ = { b₂ with findings := b₂.kept (inItemOrder items made) } := by
  intro start
  obtain ⟨events, ⟨hcases, _⟩ | ⟨⟨s, hs, hlost⟩, _⟩⟩ := b.run_eq_runLoaded hne w
  swap
  · rw [hkept s hs] at hlost
    cases hlost
  obtain ⟨events₁, hloaded⟩ :=
    (b.loaded w items).run_runLoaded_eq items { w with journal := events }
  refine ⟨events₁, fun order n => ?_, fun order r b₂ w₂ hitems => ?_⟩
  · -- a run of the positions before this one starts from the same batch
    rcases hpart : (start.runItems items (order.takeWhile (· != n))).run
      { w with journal := events₁ } with ⟨⟨r, b'⟩, w'⟩
    obtain ⟨b₄, events₄, hrun₄, hsetup, _⟩ := hloaded _ r b' w' hpart
    rw [runReading?, hcases, hrun₄, turnReading?, hpart]
    dsimp only
    rw [reading?_congr hsetup]
  · rw [hcases]
    exact hloaded order r b₂ w₂ hitems

/-- A run that is not broken off knows a schema, or an error in its place, for each item, and is a
run of the items from there. -/
theorem run_eq_runItems {b₁ : Batch} {w w₁ : Workplace} {found : List Finding} (hne : items ≠ [])
    (hrun : (b.run items order).run w = ((.ok found, b₁), w₁)) :
    let start := (b.loaded w items).counted items
    (∀ s ∈ b.newSchemas w items, Schema.isKept s.2 = true) ∧
      (∀ i ∈ items, (start.schemaOf? i).isSome = true) ∧ ∃ events made b₂ w₂,
      (start.runItems items order).run { w with journal := events } = ((.ok made, b₂), w₂) ∧
      w₁.files = w₂.files ∧ found = b₂.kept (inItemOrder items made) ∧
      b₁ = { b₂ with findings := b₂.kept (inItemOrder items made) } ∧
      ∀ n, b.runGiven? items order w n =
        start.turnGiven? items order { w with journal := events } n := by
  intro start
  have hkept : ∀ s ∈ b.newSchemas w items, Schema.isKept s.2 = true := by
    obtain ⟨events, ⟨_, hkept⟩ | ⟨_, e, hcases⟩⟩ := b.run_eq_runLoaded hne w
    · exact hkept
    · rw [hcases] at hrun
      cases hrun
  refine ⟨hkept, fun i hi => isSome_schemaOf?_loaded hkept hi, ?_⟩
  obtain ⟨events, hreading, hloaded⟩ := run_of_kept hne hkept
  rcases hitems : (start.runItems items order).run { w with journal := events } with
    ⟨⟨r, b₂⟩, w₂⟩
  obtain ⟨b₃, events₂, hrun₂, _, hfindings⟩ := hloaded order r b₂ w₂ hitems
  rw [hrun₂] at hrun
  cases r with
  | error e => cases hrun
  | ok made =>
  obtain ⟨hfound, rfl, rfl⟩ := Work.outcome_inj hrun
  obtain rfl := Except.ok.inj hfound
  refine ⟨events, made, b₂, w₂, hitems, rfl, rfl, hfindings made rfl, fun n => ?_⟩
  rw [runGiven?_eq_bind, hreading, turnGiven?_eq_bind]

end

section
variable {defaults : Defaults} {registry : Registry} {path : Path} {capacity : Int}
  {items : List Item} {order : List Nat} {w w₁ w₂ : Workplace} {b₁ b₂ : Batch}
  {found : List Finding} {reply : Except LostRecords Unit}

theorem accounts_counted (fs : FileSystem) :
    let b := (fresh defaults registry path capacity).loaded w items
    (b.counted items).Accounts { path, capacity } fs fs [] (items.countP b.lacksSchema) 0
      items.length := by
  refine ⟨rfl, ⟨[], RecordStore.follows_start path capacity fs⟩, ?_, rfl, rfl, nofun, nofun, nofun,
    fun _ => rfl⟩
  change (0 : Int) + _ = _ + ((0 : Nat) : Int)
  omega

/-- A fresh batch keeps the accounts through a run that is not broken off. -/
theorem accounts_run (horder : order.Perm (List.range items.length))
    (hrun : ((fresh defaults registry path capacity).run items order).run w =
      ((.ok found, b₁), w₁)) :
    let given := (fresh defaults registry path capacity).runGiven? items order w
    let records := order.filterMap fun n => record? items (given n) n
    ∃ s made, b₁.Accounts s w.files w₁.files records (order.countP fun n => (given n).isNone)
        (order.countP fun n => (given n).any List.isEmpty) items.length ∧
      s.Waits records ∧ s.path = path ∧ s.capacity = capacity ∧
      Produced items given order s made ∧ b₁.findings = b₁.kept (inItemOrder items made) := by
  intro given records
  by_cases hne : items = []
  · subst hne
    obtain rfl : order = [] := List.Perm.eq_nil horder
    obtain ⟨_, rfl, rfl⟩ := Work.outcome_inj hrun
    refine ⟨{ path, capacity }, [], ?_, fun _ => ⟨rfl, rfl⟩, rfl, rfl, ⟨.slnil, nofun, nofun⟩, rfl⟩
    exact @accounts_counted defaults registry path capacity [] w w.files
  obtain ⟨_, hschemas, events, made, b₂, w₂, hitems, hfiles, _, rfl, hgiven⟩ :=
    run_eq_runItems hne hrun
  have hnodup : order.Nodup := horder.nodup_iff.mpr List.nodup_range
  have hstart := @accounts_counted defaults registry path capacity items w
    ({ w with journal := events } : Workplace).files
  obtain ⟨s, hs, hwaits, hextends, hsub, hrecord⟩ := hstart.runItems hnodup hitems
  have hfailures := countP_isNone given hschemas
    (fun n hn => (hgiven n).trans (turnGiven?_of_hasTurn hn)) horder
  rw [← funext hgiven] at hs hwaits hrecord
  rw [List.nil_append, Nat.zero_add, ← hfiles] at hs
  refine ⟨s, made, ?_, hwaits fun _ => ⟨rfl, rfl⟩, hextends.path, hextends.capacity,
    ⟨hsub, hrecord, fun r hr => ?_⟩, rfl⟩
  · rw [← hfailures]
    exact { hs with }
  · simpa using hextends.kept r hr

/-- A fresh batch keeps the accounts to the end. -/
theorem accounts_finish (horder : order.Perm (List.range items.length))
    (hrun : ((fresh defaults registry path capacity).run items order).run w =
      ((.ok found, b₁), w₁))
    (hfinish : b₁.finish.run w₁ = ((reply, b₂), w₂)) :
    let given := (fresh defaults registry path capacity).runGiven? items order w
    ∃ s made, b₂.Accounts s w.files w₂.files (order.filterMap fun n => record? items (given n) n)
        (order.countP fun n => (given n).isNone) (order.countP fun n => (given n).any List.isEmpty)
        items.length ∧
      s.buffer = [] ∧ s.path = path ∧
      Produced items given order s made ∧ b₂.findings = b₂.kept (inItemOrder items made) := by
  intro given
  obtain ⟨s, made, hs, _, hpath, _, hmade, hfindings⟩ := accounts_run horder hrun
  obtain ⟨t, ht, hbuffer, hextends, hfound⟩ := hs.finish hfinish
  refine ⟨t, made, ht, hbuffer, hextends.path.trans hpath, ⟨hmade.positions, hmade.record, ?_⟩,
    hfound _ hfindings⟩
  intro r hr
  obtain hr | hr := hextends.kept r hr
  · exact hmade.kept r hr
  · cases hr

theorem length_record? {n : Nat} (hn : n < items.length) (given : Option Members) :
    (record? items given n).toList.length + (if given.isNone then 1 else 0) +
      (if given.any List.isEmpty then 1 else 0) = 1 := by
  cases given with
  | none =>
      rw [record?_none]
      rfl
  | some result =>
      cases result with
      | nil =>
          rw [record?_nil]
          rfl
      | cons m ms =>
          rw [record?_cons (List.getElem?_eq_getElem hn)]
          rfl

/-- Each position gives a record, an empty result or nothing. -/
theorem length_records (given : Nat → Option Members)
    (horder : order.Perm (List.range items.length)) :
    (order.filterMap fun n => record? items (given n) n).length +
        order.countP (fun n => (given n).isNone) +
        order.countP (fun n => (given n).any List.isEmpty) = items.length := by
  have hlt : ∀ n ∈ order, n < items.length := fun n hn => List.mem_range.mp (horder.mem_iff.mp hn)
  have hlength : order.length = items.length := horder.length_eq.trans List.length_range
  rw [← hlength]
  clear horder hlength
  induction order with
  | nil => rfl
  | cons n order ih =>
      have hfirst := length_record? (hlt n List.mem_cons_self) (given n)
      have hrest := ih fun k hk => hlt k (List.mem_cons_of_mem n hk)
      rw [List.countP_cons, List.countP_cons, filterMap_cons_eq, List.length_append,
        List.length_cons]
      omega

end

namespace Accounts

variable {b : Batch} {s : RecordStore} {start fs : FileSystem} {made : List Record}
  {failures blanks : Nat} {total : Int}

theorem perm_sources (h : b.Accounts s start fs made failures blanks total)
    (hbuffer : s.buffer = []) :
    (made.map (·.source)).Perm (s.batches.flatten.map (·.source) ++ s.failed) := by
  obtain ⟨flushes, hfollows⟩ := h.follows
  have hperm := hfollows.perm
  rw [hbuffer, List.append_nil] at hperm
  rw [hfollows.failed, ← List.map_append]
  exact hperm.map _

/-- At the end, each record counts once: those in the file, those that were lost, and the documents
that gave none. -/
theorem sum_eq (h : b.Accounts s start fs made failures blanks total) (hbuffer : s.buffer = []) :
    s.batches.flatten.length + b.stats.failed + b.stats.skipped =
      (made.length + failures + blanks : Int) := by
  obtain ⟨flushes, hfollows⟩ := h.follows
  have hlength := hfollows.length_saved
  rw [hbuffer, List.length_nil] at hlength
  rw [h.failed, h.skipped]
  omega

end Accounts

/-- While there is room for the records of the items before it, an item gives what it gives at the
start. -/
theorem runGiven?_of_room {b : Batch} {items : List Item} {order : List Nat} {w : Workplace}
    {n : Nat} (hb : b.schemas = []) (hroom : b.HasRoom (order.takeWhile (· != n)).length) :
    b.runGiven? items order w n = (b.ready w [] items).given? items w.files n := by
  have hfiles := @files_run_room b w w [] items _ hb (fun _ _ => rfl) hroom
  have hsetup := @setup_run b w w [] items (order.takeWhile (· != n)) hb fun _ _ => rfl
  rw [runGiven?_eq_bind, runReading?, hfiles, @reading?_congr (b.ready w [] items) _ hsetup,
    ← given?_eq_bind]

theorem runGiven?_room {b : Batch} {items : List Item} {order : List Nat} {w : Workplace}
    (hb : b.schemas = []) (hroom : b.HasRoom order.length) (n : Nat) :
    b.runGiven? items order w n = (b.ready w [] items).given? items w.files n :=
  runGiven?_of_room hb (hroom.mono (List.takeWhile_sublist _).length_le)

/-! ## A sample -/

/-- A place with two pages, where the next file that is opened cannot be written. -/
def spoiltPlace : Workplace :=
  { files :=
    { here := []
      entries := [(["page"], .file "<p>1</p>".toUTF8), (["leaf"], .file "<p>1</p>".toUTF8)]
      mishaps := [some .isDirectory] } }

/-- Another page, with the schema of the first one. -/
def leafFirst : Item := { kindFirst with path := "leaf" }

theorem read_spoilt_page :
    spoiltPlace.files.readLossyText (Path.ofString "page") = .ok "<p>1</p>" := by
  cbv

theorem read_spoilt_leaf :
    spoiltPlace.files.readLossyText (Path.ofString "leaf") = .ok "<p>1</p>" := by
  cbv

theorem exists_schema_spoilt : ∃ schema m ms,
    Schema.ofSource spoiltPlace kindFirst.schema = .ok schema ∧
      ∀ i : Item, spoiltPlace.files.readLossyText (Path.ofString i.path) = .ok "<p>1</p>" →
        i.scope = none →
        sampleBatch.extractDocument spoiltPlace.files i schema = .ok (m :: ms) := by
  obtain ⟨schema, m, ms, hschema, hgives, _⟩ :=
    @exists_result spoiltPlace kindFirst "kind" ["root"] read_spoilt_page rfl (by decide +kernel)
  refine ⟨schema, m, ms, hschema, fun i hread hscope => ?_⟩
  have hpage : spoiltPlace.files.readLossyText (Path.ofString kindFirst.path) = .ok "<p>1</p>" :=
    read_spoilt_page
  have hextractor : sampleBatch.extractor i = sampleBatch.extractor kindFirst := by
    rw [extractor, extractor, hscope]
    rfl
  rw [← hgives, extractDocument, extractDocument, hread, hpage, hextractor]

section
variable {i : Item}
  (hread : spoiltPlace.files.readLossyText (Path.ofString i.path) = .ok "<p>1</p>")
  (hscope : i.scope = none) (hkey : i.schema.key = kindFirst.schema.key)
  (hkept : Schema.isKept (Schema.ofSource spoiltPlace i.schema) = true)
include hkey

theorem leader?_spoilt {j : Item} (hj : j ∈ [kindFirst, i]) :
    leader? ([] ++ newcomers spoiltPlace [] [kindFirst, i]) j = some kindFirst := by
  obtain ⟨schema, _, _, hschema, _⟩ := exists_schema_spoilt
  have hnew : newcomers spoiltPlace [] [kindFirst, i] = [kindFirst] := by
    simp [newcomers, firstItems, hkey, hschema, Schema.isKept]
  have hj' : j.schema.key = kindFirst.schema.key := by
    rcases List.mem_pair.mp hj with rfl | rfl
    · rfl
    · exact hkey
  simp [hnew, leader?, hj']

include hread hscope hkept

/-- Two items of which each gives something are run without writing. -/
theorem run_spoilt : ∃ found b₁ w₁ m ms,
    (sampleBatch.run [kindFirst, i] [0, 1]).run spoiltPlace = ((.ok found, b₁), w₁) ∧
      w₁.files = spoiltPlace.files ∧
      ∀ n < 2, sampleBatch.runGiven? [kindFirst, i] [0, 1] spoiltPlace n = some (m :: ms) := by
  obtain ⟨schema, m, ms, hschema, hgives⟩ := exists_schema_spoilt
  have hgives : ∀ j ∈ [kindFirst, i],
      sampleBatch.extractDocument spoiltPlace.files j schema = .ok (m :: ms) := by
    intro j hj
    rcases List.mem_pair.mp hj with rfl | rfl
    · exact hgives kindFirst read_spoilt_page rfl
    · exact hgives j hread hscope
  have hroom : sampleBatch.HasRoom 2 := ⟨_, rfl, by decide⟩
  have horder : oneByOne [kindFirst, i] = [0, 1] := rfl
  obtain ⟨found, b₁, w₁, hrun, _⟩ := @exists_run_room sampleBatch spoiltPlace spoiltPlace []
    [kindFirst, i] (by simp) rfl (fun _ _ => rfl) hroom
    (fun j hj => by
      rcases List.mem_pair.mp hj with rfl | rfl
      · rw [hschema]
        rfl
      · exact hkept)
    (fun j hj => ⟨kindFirst, schema, m, ms, leader?_spoilt hkey hj, hschema, hgives j hj⟩)
  have hfiles := @files_run_room sampleBatch spoiltPlace spoiltPlace [] [kindFirst, i] [0, 1] rfl
    (fun _ _ => rfl) hroom
  rw [horder] at hrun
  rw [hrun] at hfiles
  refine ⟨found, b₁, w₁, m, ms, hrun, hfiles, fun n hn => ?_⟩
  have hlt : n < [kindFirst, i].length := hn
  have hschemaOf : (sampleBatch.ready spoiltPlace [] [kindFirst, i]).schemaOf? [kindFirst, i][n] =
      some (.ok schema) := by
    rw [schemaOf?, ready, lookup_schemasOf, leader?_spoilt hkey (List.getElem_mem hlt),
      Option.map_some, hschema]
  rw [runGiven?_room rfl hroom, given?_eq (List.getElem?_eq_getElem hlt) hschemaOf]
  exact congrArg Except.toOption (hgives _ (List.getElem_mem hlt))

end

end Harvest.Batch
