import Harvest.Proofs.Batch.Isolation

/-!
# The order in which documents are done

Where each result has a file of its own, and no document is the file of another result, a run comes
to the same in whichever order the documents are done.
-/

namespace Harvest

/-! ## Files of results -/

namespace DocumentStore

/-- The file of the result of an item, if no other result has the name. -/
def itemPath (s : DocumentStore) (i : Item) : Path :=
  FileName.outputPath s.directory (FileName.resultName i.path (some i.outputName)) i.path extension

/-- The place of the file of a result, if it can be written. -/
def target? (s : DocumentStore) (fs : FileSystem) (i : Item) : Option Place :=
  (fs.locate (s.itemPath i)).toOption.filter fun q => !(fs.at? q).any Stored.isDirectory

section
variable {s : DocumentStore} {fs fs' : FileSystem} {i : Item} {q : Place}

theorem target?_eq_some_iff : s.target? fs i = some q ↔
    fs.locate (s.itemPath i) = .ok q ∧ fs.at? q ≠ some .directory := by
  have hdirectory : ∀ q, (fs.at? q).any Stored.isDirectory = true ↔ fs.at? q = some .directory := by
    intro q
    cases fs.at? q with
    | none => simp
    | some stored => cases stored <;> simp [Stored.isDirectory]
  unfold target?
  cases fs.locate (s.itemPath i) with
  | error e => simp [Except.toOption]
  | ok r =>
      rw [Except.toOption, Option.filter_eq_some_iff, Bool.not_eq_true', ← Bool.not_eq_true,
        hdirectory]
      constructor
      · rintro ⟨hr, hfree⟩
        obtain rfl := Option.some.inj hr
        exact ⟨rfl, hfree⟩
      · rintro ⟨hr, hfree⟩
        obtain rfl := Except.ok.inj hr
        exact ⟨rfl, hfree⟩

theorem target?_congr (h : fs.SameDirectories fs') : s.target? fs' = s.target? fs := by
  funext i
  ext q
  rw [target?_eq_some_iff, target?_eq_some_iff, h.locate_eq_ok_iff, ne_eq, ne_eq, h.2 q]

theorem exists_itemPath (s : DocumentStore) (i : Item) :
    ∃ stem, s.itemPath i = pathOf s.directory stem := by
  obtain ⟨stem, _, h⟩ := outputPath_eq s.directory (FileName.resultName i.path (some i.outputName))
    i.path
  exact ⟨stem, h⟩

/-- Different files of results are at different places. -/
theorem itemPath_eq_of_target? {j : Item} (hi : s.target? fs i = some q)
    (hj : s.target? fs j = some q) : s.itemPath i = s.itemPath j := by
  obtain ⟨stem, hstem⟩ := s.exists_itemPath i
  obtain ⟨stem', hstem'⟩ := s.exists_itemPath j
  have hi := (target?_eq_some_iff.mp hi).1
  have hj := (target?_eq_some_iff.mp hj).1
  rw [hstem] at hi ⊢
  rw [hstem'] at hj ⊢
  exact eq_of_locate hi hj

/-- Where no mishap comes and the name is not used, a result is written to its file, if this can be
written. -/
theorem save_item {s' : DocumentStore} {result : Members} {p? : Option Path} {w w' : Workplace}
    (hmishaps : w.files.mishaps = []) (hused : s.itemPath i ∉ s.usedPaths)
    (h : (s.save i.path result (some i.outputName)).run w = ((p?, s'), w')) :
    w'.files.mishaps = [] ∧
    ((s.target? w.files i = none ∧ p? = none ∧ s' = s ∧ w'.files.at? = w.files.at? ∧
        w'.files.here = w.files.here) ∨
      ∃ q, s.target? w.files i = some q ∧ p? = some (s.itemPath i) ∧
        s' = { s with saved := s.saved ++
          [⟨i.path, s.itemPath i, (s.contentOf result).length⟩] } ∧
        w'.files = (w.files.facing []).put q (.file (s.contentOf result).toUTF8)) := by
  have hpath : s.pathBeside s.usedPaths ⟨i.path, result, some i.outputName⟩ = s.itemPath i :=
    if_neg hused
  have hcases := save_cases (r := ⟨i.path, result, some i.outputName⟩) h
  rw [hpath] at hcases
  have htail : w.files.mishaps.tail = [] := by
    rw [hmishaps]
    rfl
  -- without mishaps a write fails just where the place cannot be written
  obtain ⟨e, rfl, hs', hwrite⟩ | ⟨rfl, hs', hwrite⟩ := hcases
  · obtain ⟨_, _, hfiles⟩ | ⟨_, hok, _⟩ := FileSystem.write_cases hwrite
    swap
    · cases hok
    rw [htail] at hfiles
    rw [hfiles]
    refine ⟨rfl, Or.inl ⟨?_, rfl, hs', rfl, rfl⟩⟩
    rw [Option.eq_none_iff_forall_ne_some]
    intro q hq
    obtain ⟨fs, hfs, _⟩ := FileSystem.Writable.exists_write ⟨q, target?_eq_some_iff.mp hq⟩ hmishaps
      .fresh (s.contentOf result).toUTF8
    rw [FileSystem.writeText, hfs] at hwrite
    cases hwrite
  · obtain ⟨_, herror, _⟩ | ⟨q, _, hlocate, hfree, hfiles⟩ := FileSystem.write_cases hwrite
    · cases herror
    rw [htail] at hfiles
    have hwritten : FileSystem.written .fresh (s.contentOf result).toUTF8 (w.files.at? q) =
        (s.contentOf result).toUTF8 := by
      unfold FileSystem.written
      split <;> rfl
    rw [hwritten] at hfiles
    rw [hfiles]
    exact ⟨rfl, Or.inr ⟨q, target?_eq_some_iff.mpr ⟨hlocate, hfree⟩, rfl, hs', rfl⟩⟩

end

/-- Whether the results of items have files of their own in a store, none of which is the document
of another item. -/
structure Apart (s : DocumentStore) (items : List Item) (fs : FileSystem) : Prop where
  nodup : (items.map s.itemPath).Nodup
  unused : ∀ i ∈ items, s.itemPath i ∉ s.usedPaths
  document : ∀ (n k : Nat) (i j : Item) (q : Place), items[n]? = some i → items[k]? = some j →
    fs.locate (Path.ofString i.path) = .ok q → fs.locate (s.itemPath j) = .ok q → n = k

/-- Whether the file of an item is that of no item at some positions, and its document neither. -/
structure Free (s : DocumentStore) (items : List Item) (fs : FileSystem) (done : List Nat)
    (i : Item) : Prop where
  unused : s.itemPath i ∉ s.usedPaths
  path : ∀ n ∈ done, ∀ j, items[n]? = some j → s.itemPath j ≠ s.itemPath i
  document : ∀ n ∈ done, ∀ (j : Item) (q : Place), items[n]? = some j →
    fs.locate (Path.ofString i.path) = .ok q → fs.locate (s.itemPath j) ≠ .ok q

theorem Free.start {s : DocumentStore} {items : List Item} {fs : FileSystem} {i : Item}
    (h : s.itemPath i ∉ s.usedPaths) : s.Free items fs [] i :=
  ⟨h, by simp, by simp⟩

theorem Apart.free {s : DocumentStore} {items : List Item} {fs : FileSystem} (h : s.Apart items fs)
    {n : Nat} {done : List Nat} (hn : n ∉ done) {i : Item} (hi : items[n]? = some i) :
    s.Free items fs done i := by
  refine ⟨h.unused i (List.mem_of_getElem? hi), fun k hk j hj hpath => ?_,
    fun k hk j q hj hq hq' => ?_⟩
  · have hlt : k < (items.map s.itemPath).length := by
      rw [List.length_map]
      exact (List.getElem?_eq_some_iff.mp hj).1
    have hsame : (items.map s.itemPath)[k]? = (items.map s.itemPath)[n]? := by
      rw [List.getElem?_map, List.getElem?_map, hi, hj, Option.map_some, Option.map_some, hpath]
    obtain rfl := (List.getElem?_inj hlt h.nodup).mp hsame
    exact hn hk
  · obtain rfl := h.document n k i j q hi hj hq hq'
    exact hn hk

end DocumentStore

namespace Batch

/-! ## What a turn comes to, by the files at the start -/

/-- What is found at a position, and the place of its file; nothing, if the document gives nothing
or its result cannot be written. -/
def settled? (b : Batch) (s : DocumentStore) (items : List Item) (fs : FileSystem) (n : Nat) :
    Option (Place × Finding) :=
  items[n]?.bind fun i => (record? items (b.given? items fs n) n).bind fun r =>
    (s.target? fs i).map fun q => (q, ⟨r, (s.itemPath i).toString⟩)

/-- How a batch and its files stand when the turns of some positions have come, beside the batch and
the files at the start. -/
structure Stands (b : Batch) (s : DocumentStore) (items : List Item) (fs : FileSystem)
    (done : List Nat) (made : List (Nat × Finding)) (b' : Batch) (fs' : FileSystem) : Prop where
  setup : b'.setup = b.setup
  store : ∃ saved, b'.store = .documents { s with saved } ∧ ∀ p ∈ saved.map (·.path),
    p ∈ s.usedPaths ∨ ∃ n ∈ done, ∃ i, items[n]? = some i ∧ p = s.itemPath i
  mishaps : fs'.mishaps = []
  directories : fs.SameDirectories fs'
  written : ∀ n ∈ done, ∀ q f, b.settled? s items fs n = some (q, f) →
    fs'.at? q = some (.file (s.contentOf f.record.result).toUTF8)
  others : ∀ q, (∀ n ∈ done, ∀ f, b.settled? s items fs n ≠ some (q, f)) → fs'.at? q = fs.at? q
  found : made = done.filterMap fun n => (b.settled? s items fs n).map fun p => (n, p.2)
  saved : ∀ p ∈ made, p.2.record.source ∈ b'.saved
  total : b'.stats.total = b.stats.total
  success : b'.stats.success = b.stats.success +
    done.countP fun n => (b.settled? s items fs n).isSome
  failed : b'.stats.failed = b.stats.failed + done.countP fun n =>
    b.hasTurn items n && (b.settled? s items fs n).isNone && !(b.given? items fs n).any List.isEmpty
  skipped : b'.stats.skipped = b.stats.skipped +
    done.countP fun n => (b.given? items fs n).any List.isEmpty

section
variable {b b' : Batch} {s : DocumentStore} {items : List Item} {fs fs' : FileSystem} {n : Nat}
  {i : Item}

theorem settled?_eq_some_iff {q : Place} {f : Finding} :
    b.settled? s items fs n = some (q, f) ↔ ∃ i m ms, items[n]? = some i ∧
      b.given? items fs n = some (m :: ms) ∧ s.target? fs i = some q ∧
      f = ⟨recordOf i (m :: ms), (s.itemPath i).toString⟩ := by
  unfold settled?
  cases hi : items[n]? with
  | none => simp
  | some i =>
      cases hgiven : b.given? items fs n with
      | none => simp [record?_none]
      | some result =>
          cases result with
          | nil => simp [record?_nil]
          | cons m ms =>
              rw [record?_cons hi]
              cases htarget : s.target? fs i with
              | none => simp [htarget]
              | some r => simp [htarget, eq_comm]

theorem settled?_eq_none (h : ∀ m ms, b.given? items fs n ≠ some (m :: ms)) :
    b.settled? s items fs n = none := by
  rw [Option.eq_none_iff_forall_ne_some]
  rintro ⟨q, f⟩ hsettled
  obtain ⟨i, m, ms, _, hgiven, _⟩ := settled?_eq_some_iff.mp hsettled
  exact h m ms hgiven

/-- A document gives the same, and a surprise in the same cases, where reading it comes to the same
but for the trouble with it. -/
theorem reading?_of_read (hread : ∀ i, items[n]? = some i →
      fs'.read (Path.ofString i.path) = fs.read (Path.ofString i.path) ∨
      ∃ e e', fs.read (Path.ofString i.path) = .error e ∧
        fs'.read (Path.ofString i.path) = .error e' ∧ e'.isTrouble = e.isTrouble) :
    b.given? items fs' n = b.given? items fs n ∧
      isSurprise (b.reading? items fs' n) = isSurprise (b.reading? items fs n) := by
  rw [given?_eq_bind, given?_eq_bind]
  cases hturn : b.hasTurn items n with
  | false => simp [reading?_eq_none hturn]
  | true =>
      obtain ⟨i, schema, hi, hschema⟩ := hasTurn_eq_true_iff.mp hturn
      rw [reading?_eq hi hschema, reading?_eq hi hschema, extractDocument, extractDocument,
        FileSystem.readLossyText, FileSystem.readLossyText]
      obtain hsame | ⟨e, e', he, he', htrouble⟩ := hread i hi
      · rw [hsame]
        exact ⟨rfl, rfl⟩
      · rw [he, he']
        refine ⟨rfl, ?_⟩
        change (!e'.isTrouble) = !e.isTrouble
        rw [htrouble]

/-- What saving a result comes to in a store with a file for each document. -/
theorem run_saveResult_documents {t t₁ : DocumentStore} {result : Members} {p? : Option Path}
    {w w₁ : Workplace} (hstore : b.store = .documents t)
    (hfile : (t.save i.path result (some i.outputName)).run w = ((p?, t₁), w₁)) :
    (b.saveResult i result).run w =
      ((p?.map fun p => ⟨recordOf i result, p.toString⟩,
        if p?.isSome then countSaved { b with store := .documents t₁ } i.path
        else countFailed { b with store := .documents t₁ }), w₁) := by
  rw [saveResult, hstore, Store.save, Work.run_bind, Work.run_bind, hfile]
  cases p? <;> rfl

end

namespace Stands

variable {b b' : Batch} {s : DocumentStore} {items : List Item} {fs fs' : FileSystem}
  {done : List Nat} {made : List (Nat × Finding)} {n : Nat}

theorem start (hs : b.store = .documents s) (hmishaps : fs.mishaps = []) :
    b.Stands s items fs [] [] b fs := by
  refine ⟨rfl, ⟨s.saved, hs, fun p hp => Or.inl hp⟩, hmishaps, .refl fs, nofun, fun _ _ => rfl, rfl,
    nofun, rfl, ?_, ?_, ?_⟩ <;> simp

/-- The document of an item whose turn has not come yet is as it was at the start. -/
theorem reading (h : b.Stands s items fs done made b' fs')
    (hfree : ∀ i, items[n]? = some i → s.Free items fs done i) :
    b'.given? items fs' n = b.given? items fs n ∧
      isSurprise (b'.reading? items fs' n) = isSurprise (b.reading? items fs n) := by
  rw [given?_eq_bind, reading?_congr h.setup, ← given?_eq_bind]
  refine reading?_of_read fun i hi => h.directories.read_cases fun q hq => h.others q ?_
  intro k hk f hsettled
  obtain ⟨j, m, ms, hj, _, htarget, _⟩ := settled?_eq_some_iff.mp hsettled
  have hplace := (DocumentStore.target?_eq_some_iff.mp htarget).1
  exact (hfree i hi).document k hk j q hj hq hplace

/-- A turn that settles nothing leaves the files as they are, and counts as failed or as skipped, if
it counts at all. -/
theorem unsettled (h : b.Stands s items fs done made b' fs') {b₁ : Batch} {fs₁ : FileSystem}
    (hnone : b.settled? s items fs n = none) (hsetup : b₁.setup = b'.setup)
    (hstore : b₁.store = b'.store) (hsaved : b₁.saved = b'.saved)
    (hstats : b₁.stats = { b'.stats with
      failed := b'.stats.failed +
        if b.hasTurn items n && !(b.given? items fs n).any List.isEmpty then 1 else 0
      skipped := b'.stats.skipped + if (b.given? items fs n).any List.isEmpty then 1 else 0 })
    (hat : fs₁.at? = fs'.at?) (hhere : fs₁.here = fs'.here) (hmishaps : fs₁.mishaps = []) :
    b.Stands s items fs (done ++ [n]) made b₁ fs₁ := by
  obtain ⟨saved, hsaves, hpaths⟩ := h.store
  have hsame : fs'.SameDirectories fs₁ := ⟨hhere, fun q => by rw [hat]⟩
  refine ⟨hsetup.trans h.setup, ⟨saved, hstore.trans hsaves, fun p hp => ?_⟩, hmishaps,
    h.directories.trans hsame, fun k hk q f hf => ?_, fun q hq => ?_, ?_, ?_, ?_, ?_, ?_, ?_⟩
  · obtain hp | ⟨k, hk, i, hi⟩ := hpaths p hp
    · exact Or.inl hp
    · exact Or.inr ⟨k, List.mem_append_left _ hk, i, hi⟩
  · rw [hat]
    obtain hk | hk := List.mem_append.mp hk
    · exact h.written k hk q f hf
    · obtain rfl := List.mem_singleton.mp hk
      rw [hnone] at hf
      cases hf
  · rw [hat]
    exact h.others q fun k hk => hq k (List.mem_append_left _ hk)
  · rw [List.filterMap_append, ← h.found]
    simp [hnone]
  · rw [hsaved]
    exact h.saved
  · rw [hstats]
    exact h.total
  · rw [hstats, List.countP_append]
    simp [h.success, hnone]
  · rw [hstats, List.countP_append, List.countP_singleton, hnone]
    simp [h.failed, add_assoc]
  · rw [hstats, List.countP_append, List.countP_singleton]
    simp [h.skipped, add_assoc]

/-- A turn that settles a finding writes its file, which no other turn writes. -/
theorem settle (h : b.Stands s items fs done made b' fs') {i : Item}
    (hfree : s.Free items fs done i) {q : Place} {f : Finding} {b₁ : Batch}
    {saved : List SavedDocument} {size : Nat} (hi : items[n]? = some i)
    (hsettled : b.settled? s items fs n = some (q, f))
    (hsaves : b'.store = .documents { s with saved })
    (hb₁ : b₁ = countSaved
      { b' with
        store := .documents { s with saved := saved ++ [⟨i.path, s.itemPath i, size⟩] } } i.path) :
    b.Stands s items fs (done ++ [n]) (made ++ [(n, f)]) b₁
      ((fs'.facing []).put q (.file (s.contentOf f.record.result).toUTF8)) := by
  -- the place is written by no other turn, as the items have files of their own
  obtain ⟨j, m, ms, hj, hgiven, htarget, rfl⟩ := settled?_eq_some_iff.mp hsettled
  obtain rfl : i = j := Option.some.inj (hi.symm.trans hj)
  have hplace : fs'.at? q ≠ some .directory := by
    rw [ne_eq, h.directories.2 q]
    exact (DocumentStore.target?_eq_some_iff.mp htarget).2
  have hput : fs'.SameDirectories
      ((fs'.facing []).put q (.file (s.contentOf (recordOf i (m :: ms)).result).toUTF8)) :=
    (FileSystem.SameDirectories.facing []).trans (.put hplace _)
  obtain ⟨saved', hsaves', hpaths⟩ := h.store
  obtain rfl : saved = saved' := by
    rw [hsaves] at hsaves'
    exact congrArg DocumentStore.saved (Store.documents.inj hsaves')
  -- another turn that settles something writes another file
  have hother : ∀ k ∈ done, ∀ f, b.settled? s items fs k ≠ some (q, f) := by
    intro k hk f hf
    obtain ⟨j, _, _, hj, _, hq, _⟩ := settled?_eq_some_iff.mp hf
    exact hfree.path k hk j hj (DocumentStore.itemPath_eq_of_target? hq htarget)
  have hstore : b₁.store =
      .documents { s with saved := saved ++ [⟨i.path, s.itemPath i, size⟩] } := by
    rw [hb₁]
    rfl
  have hsetup : b₁.setup = b'.setup := by
    rw [hb₁]
    rfl
  have hstats : b₁.stats = { b'.stats with success := b'.stats.success + 1 } := by
    rw [hb₁]
    rfl
  refine ⟨hsetup.trans h.setup, ⟨_, hstore, fun p hp => ?_⟩, rfl, h.directories.trans hput,
    fun k hk r f hf => ?_, fun r hr => ?_, ?_, fun p hp => ?_, ?_, ?_, ?_, ?_⟩
  · rw [List.map_append, List.mem_append, List.map_singleton, List.mem_singleton] at hp
    obtain hp | hp := hp
    · obtain hp | ⟨k, hk, j, hj⟩ := hpaths p hp
      · exact Or.inl hp
      · exact Or.inr ⟨k, List.mem_append_left _ hk, j, hj⟩
    · dsimp only at hp
      exact Or.inr ⟨n, by simp, i, hi, hp⟩
  · obtain hk | hk := List.mem_append.mp hk
    · have hne : r ≠ q := by
        rintro rfl
        exact hother k hk f hf
      rw [FileSystem.at?_put_of_ne hne]
      exact h.written k hk r f hf
    · obtain rfl := List.mem_singleton.mp hk
      rw [hsettled] at hf
      obtain ⟨rfl, rfl⟩ := Prod.mk.inj (Option.some.inj hf)
      exact FileSystem.at?_put_self (FileSystem.ne_nil_of_at? hplace)
  · have hne : r ≠ q := by
      rintro rfl
      exact hr n (by simp) _ hsettled
    rw [FileSystem.at?_put_of_ne hne]
    exact h.others r fun k hk => hr k (List.mem_append_left _ hk)
  · rw [List.filterMap_append, ← h.found]
    simp [hsettled]
  · rw [hb₁, mem_countSaved]
    obtain hp | hp := List.mem_append.mp hp
    · exact Or.inl (h.saved p hp)
    · obtain rfl := List.mem_singleton.mp hp
      exact Or.inr rfl
  · rw [hstats]
    exact h.total
  · rw [hstats, List.countP_append, List.countP_singleton, hsettled]
    simp [h.success, add_assoc]
  · rw [hstats, List.countP_append, List.countP_singleton, hsettled]
    simp [h.failed]
  · rw [hstats, List.countP_append, List.countP_singleton, hgiven]
    simp [h.skipped]

theorem itemPath_unused (h : b.Stands s items fs done made b' fs') {i : Item}
    (hunused : s.itemPath i ∉ s.usedPaths)
    (hpath : ∀ n ∈ done, ∀ j, items[n]? = some j → s.itemPath j ≠ s.itemPath i)
    {saved : List SavedDocument} (hsaves : b'.store = .documents { s with saved }) :
    s.itemPath i ∉ saved.map (·.path) := by
  obtain ⟨saved', hsaves', hpaths⟩ := h.store
  obtain rfl : saved = saved' := by
    rw [hsaves] at hsaves'
    exact congrArg DocumentStore.saved (Store.documents.inj hsaves')
  intro hmem
  obtain hold | ⟨k, hk, j, hj, hsame⟩ := hpaths _ hmem
  · exact hunused hold
  · exact hpath k hk j hj hsame.symm

/-- A document that gives something is settled, if its file can be written, and has failed
otherwise. -/
theorem saveResult {w w₁ : Workplace} (h : b.Stands s items fs done made b' w.files)
    {i : Item} (hfree : s.Free items fs done i) {m : String × Json} {ms : Members}
    {found : Option Finding} {b₁ : Batch} (hi : items[n]? = some i)
    (hturn : b.hasTurn items n = true) (hgiven : b.given? items fs n = some (m :: ms))
    (hsave : (b'.saveResult i (m :: ms)).run w = ((found, b₁), w₁)) :
    b.Stands s items fs (done ++ [n]) (made ++ (found.map (n, ·)).toList) b₁ w₁.files := by
  obtain ⟨saved, hsaves, _⟩ := h.store
  have hunused := h.itemPath_unused hfree.unused hfree.path hsaves
  rcases hfile : (DocumentStore.save { s with saved } i.path (m :: ms) (some i.outputName)).run w
    with ⟨⟨p?, s₁⟩, w₂⟩
  rw [run_saveResult_documents hsaves hfile] at hsave
  obtain ⟨hmishaps, hcases⟩ := DocumentStore.save_item h.mishaps hunused hfile
  have htarget : DocumentStore.target? { s with saved } w.files i = s.target? fs i :=
    congrFun (DocumentStore.target?_congr h.directories) i
  rw [htarget] at hcases
  obtain ⟨hnone, rfl, hs₁, hat, hhere⟩ | ⟨q, hq, rfl, hs₁, hfiles⟩ := hcases
  · obtain ⟨rfl, rfl, rfl⟩ := Work.outcome_inj hsave
    have hsettled : b.settled? s items fs n = none := by
      rw [Option.eq_none_iff_forall_ne_some]
      rintro ⟨q, f⟩ hf
      obtain ⟨j, _, _, hj, _, hq, _⟩ := settled?_eq_some_iff.mp hf
      obtain rfl : i = j := Option.some.inj (hi.symm.trans hj)
      rw [hnone] at hq
      cases hq
    have hsame : { b' with store := .documents s₁ } = b' := by rw [hs₁, ← hsaves]
    have hstands := h.unsettled hsettled b'.setup_countFailed rfl rfl
      (by simp [hturn, hgiven, countFailed]) hat hhere hmishaps
    rw [hsame]
    simpa using hstands
  · obtain ⟨rfl, rfl, rfl⟩ := Work.outcome_inj hsave
    have hsettled := settled?_eq_some_iff.mpr ⟨i, m, ms, hi, hgiven, hq, rfl⟩
    rw [hs₁, hfiles]
    exact h.settle hfree hi hsettled hsaves rfl

/-- A turn breaks off the run if its document was a surprise at the start; otherwise it does what
the files at the start say. -/
theorem turn {w : Workplace} (h : b.Stands s items fs done made b' w.files)
    (hfree : ∀ i, items[n]? = some i → s.Free items fs done i) :
    (isSurprise (b.reading? items fs n) = true ∧
      ∃ e, ∀ order, ((b'.runItems items (n :: order)).run w).1.1 = .error e) ∨
    (isSurprise (b.reading? items fs n) = false ∧
      ∃ (found : Option Finding) (b₁ : Batch) (w₁ : Workplace),
      b.Stands s items fs (done ++ [n]) (made ++ (found.map (n, ·)).toList) b₁ w₁.files ∧
      b'.GoesOn items n w found b₁ w₁) := by
  have hok := @isOk_runItems_single b' items n w
  obtain ⟨hgives, hsurprise⟩ := h.reading hfree
  rw [hsurprise] at hok
  obtain ⟨e, herror⟩ | ⟨found, b₁, w₁, hturn, hgoes⟩ := b'.runItems_turn items n w
  · rw [herror] at hok
    have hok : false = !isSurprise (b.reading? items fs n) := hok
    exact Or.inl ⟨by simpa using hok.symm, e, herror⟩
  rw [hgoes] at hok
  have hok : true = !isSurprise (b.reading? items fs n) := hok
  refine Or.inr ⟨by simpa using hok.symm, found, b₁, w₁, ?_, hgoes⟩
  -- the document gives what it gave at the start, so each kind of turn is what the start says
  have hhas := hasTurn_congr (setup_eq_iff.mp h.setup).2.2
  cases hturn with
  | passed hnone =>
      rw [hhas] at hnone
      have hgiven := given?_eq_none hnone fs
      have hsettled : b.settled? s items fs n = none := settled?_eq_none (by simp [hgiven])
      have hstands := h.unsettled hsettled rfl rfl rfl (by simp [hnone, hgiven]) rfl rfl h.mishaps
      simpa using hstands
  | failed hturn hgiven events =>
      rw [hhas] at hturn
      rw [hgives] at hgiven
      have hsettled : b.settled? s items fs n = none := settled?_eq_none (by simp [hgiven])
      have hstands := h.unsettled hsettled b'.setup_countFailed rfl rfl
        (by simp [hturn, hgiven, countFailed]) rfl rfl h.mishaps
      simpa using hstands
  | empty hgiven events =>
      rw [hgives] at hgiven
      have hsettled : b.settled? s items fs n = none := settled?_eq_none (by simp [hgiven])
      have hstands := h.unsettled hsettled b'.setup_countSkipped rfl rfl
        (by simp [hgiven, countSkipped]) rfl rfl h.mishaps
      simpa using hstands
  | saved hi hgiven hsave =>
      rw [hgives] at hgiven
      have hturn : b.hasTurn items n = true := by
        rw [← Bool.not_eq_false]
        intro hnone
        rw [given?_eq_none hnone] at hgiven
        cases hgiven
      exact h.saveResult (hfree _ hi) hi hturn hgiven hsave

/-- A run of items is broken off if the document of one was a surprise at the start; otherwise it
does what the files at the start say. -/
theorem runItems {order : List Nat} {w : Workplace}
    (h : b.Stands s items fs done made b' w.files) (hapart : s.Apart items fs)
    (hnodup : (done ++ order).Nodup) :
    ((∃ n ∈ order, isSurprise (b.reading? items fs n) = true) ∧
      ((b'.runItems items order).run w).1.1.isOk = false) ∨
    ((∀ n ∈ order, isSurprise (b.reading? items fs n) = false) ∧ ∃ rest b₁ w₁,
      (b'.runItems items order).run w = ((.ok rest, b₁), w₁) ∧
      b.Stands s items fs (done ++ order) (made ++ rest) b₁ w₁.files) := by
  induction order generalizing b' w done made with
  | nil => exact Or.inr ⟨nofun, [], b', w, rfl, by simpa using h⟩
  | cons n order ih =>
      have hn : n ∉ done := by
        intro hmem
        exact (List.nodup_append.mp hnodup).2.2 n hmem n List.mem_cons_self rfl
      rw [List.append_cons] at hnodup
      obtain ⟨hsurprise, e, herror⟩ | ⟨hcalm, found, b₁, w₁, hstands, hgoes⟩ :=
        h.turn fun i hi => hapart.free hn hi
      · refine Or.inl ⟨⟨n, List.mem_cons_self, hsurprise⟩, ?_⟩
        rw [herror]
        rfl
      · obtain ⟨⟨k, hk, hsurprise⟩, hlost⟩ | ⟨hrest, rest, b₂, w₂, hitems, hend⟩ :=
          ih hstands hnodup
        · refine Or.inl ⟨⟨k, List.mem_cons_of_mem n hk, hsurprise⟩, ?_⟩
          rw [hgoes.isOk]
          exact hlost
        · refine Or.inr ⟨List.forall_mem_cons.mpr ⟨hcalm, hrest⟩,
            (found.map (n, ·)).toList ++ rest, b₂, w₂, ?_, ?_⟩
          · rw [hgoes, hitems]
            rfl
          · rwa [List.append_cons, ← List.append_assoc]

theorem lookup (h : b.Stands s items fs done made b' fs') (n : Nat) :
    made.lookup n = if n ∈ done then (b.settled? s items fs n).map (·.2) else none := by
  have hsettled := lookup_filterMap (fun n => (b.settled? s items fs n).map (·.2)) done n
  simp only [Option.map_map] at hsettled
  rw [← hsettled, h.found]
  rfl

end Stands

/-! ## Runs -/

section
variable {i : Item} (hi : i.schema = kindFirst.schema)
include hi

end

end Batch

end Harvest
