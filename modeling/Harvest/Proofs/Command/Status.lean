import Harvest.Command.Run
import Harvest.Proofs.Batch.Flushes
import Harvest.Proofs.Config.Documents
import Harvest.Proofs.Files.Directory
import Harvest.Proofs.Json.Lines

/-!
# The status of a batch command

A command that stores records ends with a status of failure if its last flush loses some.  Records
that are lost before, while the batch runs, leave no trace in the status.
-/

namespace Harvest

open Batch (fresh oneByOne record?)

theorem Work.ensureDirectories_of_isDirectory {p : Path} {w : Workplace}
    (h : w.files.isDirectory p = true) :
    (Work.ensureDirectories p).run w = ((.ok () : Except FileError Unit), w) := by
  rw [Work.ensureDirectories, Work.run_bind, Work.run_files,
    FileSystem.ensureDirectories_of_isDirectory h]
  rfl

/-- Directories that were made need not be made again. -/
theorem Work.ensureDirectories_again {p : Path} {w w₁ : Workplace}
    (h : (Work.ensureDirectories p).run w = ((.ok () : Except FileError Unit), w₁)) :
    (Work.ensureDirectories p).run w₁ = ((.ok () : Except FileError Unit), w₁) := by
  rw [Work.ensureDirectories, Work.run_bind, Work.run_files] at h
  cases hmade : w.files.ensureDirectories p with
  | error e =>
      rw [hmade] at h
      cases (Prod.mk.inj h).1
  | ok fs =>
      rw [hmade] at h
      obtain ⟨_, rfl⟩ := Prod.mk.inj h
      exact Work.ensureDirectories_of_isDirectory
        (FileSystem.isDirectory_of_ensureDirectories hmade)

/-- Where each item gives something, there are as many records as items. -/
theorem length_records_of_given {items : List Item} {order : List Nat}
    {given : Nat → Option Members} (horder : order.Perm (List.range items.length))
    (hgiven : ∀ n < items.length, ∃ m ms, given n = some (m :: ms)) :
    (order.filterMap fun n => record? items (given n) n).length = items.length := by
  have hsum := Batch.length_records given horder
  have hmember : ∀ n ∈ order, ∃ m ms, given n = some (m :: ms) := fun n hn =>
    hgiven n (List.mem_range.mp (horder.mem_iff.mp hn))
  have hnone : order.countP (fun n => (given n).isNone) = 0 := by
    rw [List.countP_eq_zero]
    intro n hn
    obtain ⟨m, ms, h⟩ := hmember n hn
    simp [h]
  have hblank : order.countP (fun n => (given n).any List.isEmpty) = 0 := by
    rw [List.countP_eq_zero]
    intro n hn
    obtain ⟨m, ms, h⟩ := hmember n hn
    simp [h]
  rw [hnone, hblank] at hsum
  exact hsum

namespace BatchRequest

/-- The file of the records that a command stores. -/
def recordPath (r : BatchRequest) : Path :=
  (Path.ofString r.directory).join (Path.ofString RecordStore.fileName)

theorem status_run (r : BatchRequest) (homes : Homes) (order : List Item → List Nat)
    (w : Workplace) : ((r.run homes order).run w).1.status =
      if ((r.attempt homes order).run w).1.isOk then 0 else 1 := by
  rw [run, Work.run_bind]
  cases ((r.attempt homes order).run w).1 <;> rfl

section
variable {r : BatchRequest} {homes : Homes} {order : List Item → List Nat} {c : Config}
  {w w₁ w₂ : Workplace}
  (hdirectory : (Work.ensureDirectories (Path.ofString r.directory)).run w₁ = (.ok (), w₂))
include hdirectory

theorem run_attempt (hdry : r.dryRun = false)
    (hload : (Config.load homes (Path.ofString r.config)).run w = (.ok c, w₁)) :
    (r.attempt homes order).run w = (r.runConfig order c).run w₂ := by
  rw [attempt, Work.run_bind, hload]
  dsimp only
  rw [Work.run_bind, hdirectory]
  simp [hdry]

variable (hstrategy : c.strategy = "json_lines")
include hstrategy

theorem run_create : (Store.create c.strategy (Path.ofString r.directory)
    { indent := c.defaults.indent }).run w₂ =
      (.ok (.records { path := r.recordPath, capacity := 100 }), w₂) := by
  have hnamed : (Store.named (Path.ofString r.directory) { indent := c.defaults.indent }).lookup
      c.strategy = some (.records { path := r.recordPath, capacity := 100 }) := by
    rw [hstrategy]
    rfl
  rw [Store.create, hnamed]
  dsimp only
  rw [Work.run_bind, Work.ensureDirectories_again hdirectory]
  rfl

variable {found : List Finding} {b₁ b₂ : Batch} {w₃ w₄ : Workplace}

theorem isOk_runConfig_of_error {e : BatchError}
    (hrun : ((fresh c.defaults .standard r.recordPath 100).run c.items (order c.items)).run w₂ =
      ((.error e, b₁), w₃)) : ((r.runConfig order c).run w₂).1.isOk = false := by
  have hstart : (Batch.run { defaults := c.defaults
                             store := .records { path := r.recordPath, capacity := 100 } } c.items
      (order c.items)).run w₂ = ((.error e, b₁), w₃) := hrun
  rw [runConfig, Work.run_bind, run_create hdirectory hstrategy]
  dsimp only
  rw [Work.run_bind, hstart]
  rfl

/-- A command whose run comes to its end goes well just if the end does. -/
theorem isOk_runConfig_of_ok {reply : Except LostRecords Unit}
    (hrun : ((fresh c.defaults .standard r.recordPath 100).run c.items (order c.items)).run w₂ =
      ((.ok found, b₁), w₃)) (hfinish : b₁.finish.run w₃ = ((reply, b₂), w₄)) :
    ((r.runConfig order c).run w₂).1.isOk = reply.isOk := by
  have hstart : (Batch.run { defaults := c.defaults
                             store := .records { path := r.recordPath, capacity := 100 } } c.items
      (order c.items)).run w₂ = ((.ok found, b₁), w₃) := hrun
  rw [runConfig, Work.run_bind, run_create hdirectory hstrategy]
  dsimp only
  rw [Work.run_bind, hstart]
  dsimp only
  rw [Work.run_bind, hfinish]
  cases reply <;> rfl

/-! ## Losses and the status -/

variable (hdry : r.dryRun = false)
  (hload : (Config.load homes (Path.ofString r.config)).run w = (.ok c, w₁))
include hdry hload

theorem status_of_error {e : BatchError}
    (hrun : ((fresh c.defaults .standard r.recordPath 100).run c.items (order c.items)).run w₂ =
      ((.error e, b₁), w₃)) : ((r.run homes order).run w).1.status = 1 := by
  rw [status_run, run_attempt hdirectory hdry hload,
    isOk_runConfig_of_error hdirectory hstrategy hrun]
  rfl

/-- The command fails just if its last flush loses something; and this is known beforehand, where
the file cannot be written. -/
theorem status_of_ok (horder : (order c.items).Perm (List.range c.items.length))
    (hrun : ((fresh c.defaults .standard r.recordPath 100).run c.items (order c.items)).run w₂ =
      ((.ok found, b₁), w₃)) :
    let given := (fresh c.defaults .standard r.recordPath 100).runGiven? c.items (order c.items) w₂
    let records := (order c.items).filterMap fun n => record? c.items (given n) n
    let status := ((r.run homes order).run w).1.status
    ∃ s₁ reply b₂ w₄ s, b₁.store = .records s₁ ∧ b₁.finish.run w₃ = ((reply, b₂), w₄) ∧
      b₂.store = .records s ∧ (∃ flushes, s.Follows w₂.files w₄.files records flushes) ∧
      s.buffer = [] ∧ s₁.buffer.length = records.length % 100 ∧
      status = (if s.failed = s₁.failed then 0 else 1) ∧ (100 ∣ records.length → status = 0) ∧
      (¬ w₂.files.Writable r.recordPath → s.batches = [] ∧
        status = if 100 ∣ records.length then 0 else 1) := by
  intro given records status
  have hs : (fresh c.defaults .standard r.recordPath 100).store =
    .records { path := r.recordPath, capacity := 100 } := rfl
  obtain ⟨s₁, hs₁, hsteps⟩ := Batch.run_steps hs horder hrun
  rcases hfinish : b₁.finish.run w₃ with ⟨⟨reply, b₂⟩, w₄⟩
  obtain ⟨s, hs₂, hbuffer, hreply, hnothing, hblocked⟩ := Batch.finish_reply hs₁ hfinish
  -- full buffers were written on the way, so what is held back is what is left of them
  have hlength : s₁.buffer.length = records.length % 100 := by
    have hlength := hsteps.length_buffer (by simp)
    simp only [List.length_nil, Nat.cast_zero, zero_add] at hlength
    exact_mod_cast hlength
  have hstatus : status = if reply = .ok () then 0 else 1 := by
    change ((r.run homes order).run w).1.status = _
    rw [status_run, run_attempt hdirectory hdry hload,
      isOk_runConfig_of_ok hdirectory hstrategy hrun hfinish]
    cases reply <;> rfl
  obtain ⟨t, _, haccounts, _⟩ := Batch.accounts_finish horder hrun hfinish
  obtain rfl := Store.records.inj (haccounts.store.symm.trans hs₂)
  have hdvd : s₁.buffer = [] ↔ 100 ∣ records.length := by
    rw [← List.length_eq_zero_iff, hlength, Nat.dvd_iff_mod_eq_zero]
  refine ⟨s₁, reply, b₂, w₄, t, hs₁, rfl, hs₂, haccounts.follows, hbuffer, hlength, ?_,
    fun hall => ?_, fun hfile => ?_⟩
  · simp only [hstatus, hreply]
  · rw [hstatus, if_pos (hnothing (hdvd.mpr hall))]
  · obtain ⟨hbatches, mishaps, hfiles⟩ := hsteps.blocked hfile
    have hfile₃ : ¬ w₃.files.Writable s₁.path := by
      rw [hfiles, FileSystem.writable_facing, hsteps.path]
      exact hfile
    obtain ⟨hbatches₂, hempty⟩ := hblocked hfile₃
    refine ⟨hbatches₂.trans hbatches, ?_⟩
    simp only [hstatus, hempty, hdvd]

end

/-- In whichever order the documents are done, a command that stores records fails where its run is
broken off.  Where the run comes to its end, the records that are left over when all of them are
counted off by a hundred are still held back, and the command fails just if these are lost; so it
goes well if none is left over, whatever was lost before.  Where the file cannot be written at all,
and each document gives a record, the command fails just if their number is no multiple of a
hundred. -/
theorem run_status_iff {r : BatchRequest} {homes : Homes} {order : List Item → List Nat}
    {c : Config} {w w₁ w₂ : Workplace} (horder : (order c.items).Perm (List.range c.items.length))
    (hdirectory : (Work.ensureDirectories (Path.ofString r.directory)).run w₁ = (.ok (), w₂))
    (hstrategy : c.strategy = "json_lines") (hdry : r.dryRun = false)
    (hload : (Config.load homes (Path.ofString r.config)).run w = (.ok c, w₁)) :
    let start := fresh c.defaults .standard r.recordPath 100
    let given := start.runGiven? c.items (order c.items) w₂
    let records := (order c.items).filterMap fun n => record? c.items (given n) n
    let status := ((r.run homes order).run w).1.status
    ((∀ found b₁ w₃, (start.run c.items (order c.items)).run w₂ ≠ ((.ok found, b₁), w₃)) →
      status = 1) ∧
    (∀ found b₁ w₃, (start.run c.items (order c.items)).run w₂ = ((.ok found, b₁), w₃) →
      ∃ s₁ reply b₂ w₄ s, b₁.store = .records s₁ ∧ b₁.finish.run w₃ = ((reply, b₂), w₄) ∧
        b₂.store = .records s ∧ (∃ flushes, s.Follows w₂.files w₄.files records flushes) ∧
        s.buffer = [] ∧ s₁.buffer.length = records.length % 100 ∧
        (status = 1 ↔ s.failed ≠ s₁.failed) ∧ (100 ∣ records.length → status = 0)) ∧
    ((∀ n < c.items.length, ∃ m ms, given n = some (m :: ms)) →
      ¬ w₂.files.Writable r.recordPath → (status = 1 ↔ ¬ 100 ∣ c.items.length)) := by
  intro start given records status
  refine ⟨fun hnone => ?_, fun found b₁ w₃ hrun => ?_, fun hgiven hfile => ?_⟩
  · rcases hrun : (start.run c.items (order c.items)).run w₂ with ⟨⟨reply, b₁⟩, w₃⟩
    cases reply with
    | ok found => exact (hnone found b₁ w₃ hrun).elim
    | error e => exact status_of_error hdirectory hstrategy hdry hload hrun
  · obtain ⟨s₁, reply, b₂, w₄, s, hs₁, hfinish, hs, hfollows, hbuffer, hlength, hstatus, hall, _⟩ :=
      status_of_ok hdirectory hstrategy hdry hload horder hrun
    refine ⟨s₁, reply, b₂, w₄, s, hs₁, hfinish, hs, hfollows, hbuffer, hlength, ?_, hall⟩
    change ((r.run homes order).run w).1.status = 1 ↔ _
    rw [hstatus]
    split <;> simp_all
  · have hsome : ∀ n < c.items.length, (given n).isSome = true := by
      intro n hn
      obtain ⟨m, ms, h⟩ := hgiven n hn
      rw [h]
      rfl
    obtain ⟨found, b₁, w₃, hrun⟩ := Batch.exists_run_of_given horder hsome
    obtain ⟨s₁, reply, b₂, w₄, s, _, _, _, _, _, _, _, _, hblocked⟩ :=
      status_of_ok hdirectory hstrategy hdry hload horder hrun
    have hlength := length_records_of_given horder hgiven
    change ((r.run homes order).run w).1.status = 1 ↔ _
    rw [(hblocked hfile).2, hlength]
    split <;> simp_all

/-! ## Pages beside a file of records that cannot be written -/

def pageName (n : Nat) : String := String.ofList (List.replicate (n + 1) 'p')

/-- The item of a page; all pages have the same schema. -/
def pageItem (n : Nat) : Item := { Batch.kindFirst with path := pageName n }

/-- A configuration that names some pages. -/
def pagesConfig (count : Nat) : Config :=
  { strategy := "json_lines", items := (List.range count).map pageItem }

def pageItemJson (n : Nat) : Json :=
  .map [("path", .str (pageName n)),
    ("schema", .map [("kind", .str "'page'"), ("root", .str "name()")])]

/-- What the file of the configuration says. -/
def pagesJson (count : Nat) : Json :=
  .map [("persistenceStrategy", .str "json_lines"),
    ("items", .list ((List.range count).map pageItemJson))]

/-- A place with the configuration and its pages, and a directory in place of the file of
records. -/
def pagesPlace (count : Nat) : Workplace :=
  { files :=
    { here := []
      entries := (["config"], .file (Json.render { indent := none } (pagesJson count)).toUTF8) ::
        (["out"], .directory) :: (["out", "results.jsonl"], .directory) ::
        (List.range count).map fun n => ([pageName n], .file "<p>1</p>".toUTF8) } }

def pagesRequest : BatchRequest := { config := "config", directory := "out" }

/-! ### The names of the pages -/

theorem toList_pageName (n : Nat) : (pageName n).toList = List.replicate (n + 1) 'p' :=
  String.toList_ofList

theorem pageName_inj {m n : Nat} (h : pageName m = pageName n) : m = n := by
  have hlength := congrArg (fun s => s.toList.length) h
  simpa [toList_pageName] using hlength

theorem pageName_ne {n : Nat} {s : String} (h : s.toList.head? ≠ some 'p') : pageName n ≠ s := by
  rintro rfl
  rw [toList_pageName, List.replicate_succ] at h
  exact h rfl

theorem ofString_pageName (n : Nat) : Path.ofString (pageName n) = ⟨.relative, [pageName n]⟩ := by
  apply Path.ofString_part
  · simp [toList_pageName]
  · cases n <;> simp [toList_pageName, Path.isPart, List.replicate_succ]

theorem utf8ByteSize_pageName (n : Nat) : (pageName n).utf8ByteSize = n + 1 := by
  rw [pageName, String.utf8ByteSize_ofList]
  induction n + 1 with
  | zero => rfl
  | succ n ih =>
      rw [List.replicate_succ, String.utf8Len_cons, ih]
      rfl

theorem locate_pageName {count n : Nat} (hn : n < 255) :
    (pagesPlace count).files.locate (Path.ofString (pageName n)) = .ok [pageName n] := by
  rw [ofString_pageName]
  apply FileSystem.locate_name
  · rfl
  · rw [utf8ByteSize_pageName, FileSystem.maxNameBytes]
    omega
  · simp [toList_pageName]
  · exact pageName_ne (by decide)

theorem lookup_map_const {α β γ : Type} [BEq β] [LawfulBEq β] (f : α → β) (c : γ)
    {l : List α} {a : α} (h : a ∈ l) : (l.map fun a => (f a, c)).lookup (f a) = some c := by
  induction l with
  | nil => cases h
  | cons b l ih =>
      rw [List.map_cons, List.lookup_cons]
      cases hb : f a == f b with
      | true => rfl
      | false =>
          have hne : a ≠ b := by
            rintro rfl
            simp at hb
          exact ih (List.mem_of_ne_of_mem hne h)

theorem read_page {count n : Nat} (hn : n < count) (hcount : count ≤ 100) :
    (pagesPlace count).files.readLossyText (Path.ofString (pageName n)) = .ok "<p>1</p>" := by
  have hplace := @locate_pageName count n (by omega)
  have hat : (pagesPlace count).files.at? [pageName n] = some (.file "<p>1</p>".toUTF8) := by
    have hconfig : ([pageName n] == ["config"]) = false := by
      simpa using @pageName_ne n "config" (by decide)
    have hout : ([pageName n] == ["out"]) = false := by
      simpa using @pageName_ne n "out" (by decide)
    have hrecords : ([pageName n] == ["out", "results.jsonl"]) = false := by simp
    have hlookup := lookup_map_const (fun n => [pageName n]) (Stored.file "<p>1</p>".toUTF8)
      (List.mem_range.mpr hn)
    rw [FileSystem.at?, if_neg (List.cons_ne_nil _ _)]
    simp only [pagesPlace, List.lookup_cons, hconfig, hout, hrecords]
    exact hlookup
  rw [FileSystem.readLossyText, (FileSystem.read_of_locate hplace).mpr hat]
  exact congrArg Except.ok (by cbv)

theorem perm_oneByOne_pages (count : Nat) : (oneByOne (pagesConfig count).items).Perm
    (List.range (pagesConfig count).items.length) := .refl _

/-! ### What the configuration says -/

theorem all_of_forall₂ {α : Type} {form : Json → Checked α} {vs : List Json} {xs : List α}
    (h : List.Forall₂ (fun v x => form v = .ok x) vs xs) (k : Nat) :
    Checked.all ((vs.zipIdx k).map fun (v, n) => (form v).under (.item n)) = .ok xs := by
  induction h generalizing k with
  | nil => rfl
  | cons hv _ ih =>
      rw [List.zipIdx_cons, List.map_cons, Checked.all, ih]
      simp [hv, Checked.under, Checked.zip, Except.mapError, Except.map]

theorem ofJson_pageItem (n : Nat) : Item.ofJson (pageItemJson n) = .ok (pageItem n) := by
  rfl

theorem ofJson_pagesJson (count : Nat) :
    Config.ofJson (pagesJson count) = .ok (pagesConfig count) := by
  have hitems : Form.listOf Item.ofJson (.list ((List.range count).map pageItemJson)) =
      .ok ((List.range count).map pageItem) := by
    apply all_of_forall₂
    rw [List.forall₂_map_left_iff, List.forall₂_map_right_iff, List.forall₂_same]
    exact fun n _ => ofJson_pageItem n
  rw [pagesJson]
  generalize (List.range count).map pageItemJson = vs at hitems ⊢
  have hmember : Form.member ["items"] (Form.listOf Item.ofJson) []
      [("persistenceStrategy", .str "json_lines"), ("items", .list vs)] =
      .ok ((List.range count).map pageItem) := by
    change (Form.listOf Item.ofJson (.list vs)).under _ = _
    rw [hitems]
    rfl
  rw [Config.ofJson, Config.ofMembers]
  dsimp only
  rw [hmember]
  rfl

theorem portable_pagesJson (count : Nat) :
    (pagesJson count).Portable (some Json.maxIntegerDigits) := by
  have hitems : ∀ l : List Nat,
      Json.PortableItems (some Json.maxIntegerDigits) (l.map pageItemJson) := by
    intro l
    induction l with
    | nil => simp [Json.PortableItems]
    | cons n l ih =>
        exact ⟨by simp [pageItemJson, Json.Portable, Json.PortableMembers], ih⟩
  simp [pagesJson, Json.Portable, Json.PortableMembers, hitems]

theorem readJson_pages (count : Nat) :
    (pagesPlace count).files.readJson (Path.ofString "config") = .ok (pagesJson count) := by
  have hplace : (pagesPlace count).files.locate (Path.ofString "config") = .ok ["config"] := by cbv
  have hread : (pagesPlace count).files.read (Path.ofString "config") =
      .ok (Json.render { indent := none } (pagesJson count)).toUTF8 :=
    (FileSystem.read_of_locate hplace).mpr rfl
  rw [FileSystem.readJson, FileSystem.readText_of_read hread (Json.return_notMem_render _ _)]
  dsimp only
  rw [Json.read, Json.readWithin_render (portable_pagesJson count)]
  rfl

theorem resolve_pageItem (n : Nat) :
    Item.resolve { own := "/" } (Path.ofString "config").parent (pageItem n) =
      .ok (pageItem n) := by
  have hparent : (Path.ofString "config").parent = ⟨.relative, []⟩ := by cbv
  have hhome : Path.expandHome { own := "/" } (Path.ofString (pageName n)) =
      .ok ⟨.relative, [pageName n]⟩ := by
    rw [ofString_pageName, Path.expandHome]
    simp [toList_pageName, List.replicate_succ]
  have hpath : Item.resolvePath { own := "/" } (Path.ofString "config").parent (pageName n) =
      .ok (pageName n) := by
    rw [Item.resolvePath, hhome, hparent]
    simp [Path.join, Path.isAbsolute, Path.toString, Anchor.text]
  have hname : (pageItem n).path = pageName n := rfl
  have hschema : (pageItem n).schema =
      .inline [("kind", .str "'page'"), ("root", .str "name()")] := rfl
  rw [Item.resolve, hschema, hname, hpath]
  rfl

theorem isPattern_pageItem (n : Nat) : (pageItem n).isPattern = false := by
  have hname : (pageItem n).path = pageName n := rfl
  rw [Item.isPattern, hname, Wildcard.hasSigns, toList_pageName]
  simp [Wildcard.isSign]

theorem identity_pageItem (here : Place) (n : Nat) :
    (pageItem n).identity here = (here ++ [pageName n], Batch.kindFirst.schema.key) := by
  have hname : (pageItem n).path = pageName n := rfl
  have hdots := @pageName_ne n ".." (by decide)
  rw [Item.identity, hname, ofString_pageName]
  simp [Path.resolveFrom, Path.isAbsolute, Path.walk, hdots, pageItem]

theorem load_pages (count : Nat) : ∃ events,
    (Config.load { own := "/" } (Path.ofString "config")).run (pagesPlace count) =
      (.ok (pagesConfig count), { pagesPlace count with journal := events }) := by
  obtain ⟨events, hrun⟩ :=
    @Config.run_load { own := "/" } _ _ _ _ (readJson_pages count) (ofJson_pagesJson count)
  have hdocuments : Item.documents { own := "/" } (Path.ofString "config").parent
      (pagesPlace count).files (pagesConfig count).items = .ok (pagesConfig count).items := by
    refine Item.documents_of_plain (fun i hi => ?_) ?_
    · obtain ⟨n, _, rfl⟩ := List.mem_map.mp hi
      have hname : (pageItem n).path = pageName n := rfl
      refine ⟨resolve_pageItem n, isPattern_pageItem n, ?_⟩
      rw [hname, ofString_pageName]
      simp [Path.isBroken, toList_pageName]
    · rw [pagesConfig, List.map_map]
      refine List.Nodup.map (fun m n h => ?_) List.nodup_range
      simp only [Function.comp_apply, identity_pageItem] at h
      exact pageName_inj (by simpa using congrArg Prod.fst h)
  rw [hdocuments] at hrun
  exact ⟨events, hrun⟩

/-! ### What the pages give -/

theorem leader?_pages {count n : Nat} (w : Workplace) (hn : n < count) :
    Batch.leader? ([] ++ Batch.newcomers w [] (pagesConfig count).items) (pageItem n) =
      some (pageItem 0) := by
  obtain ⟨count, rfl⟩ : ∃ k, count = k + 1 := ⟨count - 1, by omega⟩
  have hkey : ∀ k, (pageItem k).schema.key = Batch.kindFirst.schema.key := fun _ => rfl
  have hfirst : Batch.firstItems [] (pagesConfig (count + 1)).items = [pageItem 0] := by
    rw [pagesConfig, List.range_succ_eq_map, List.map_cons, Batch.firstItems, if_neg (by simp),
      Batch.firstItems_of_known]
    intro i hi
    obtain ⟨k, _, rfl⟩ := List.mem_map.mp hi
    exact List.mem_singleton.mpr rfl
  obtain ⟨schema, _, _, hschema, _⟩ := Batch.exists_result_kindFirst
  have hsource : Schema.ofSource w (pageItem 0).schema = .ok schema := hschema
  have hnew : Batch.newcomers w [] (pagesConfig (count + 1)).items = [pageItem 0] := by
    rw [Batch.newcomers, List.map_nil, hfirst]
    simp [hsource, Schema.isKept]
  rw [hnew, Batch.leader?]
  simp [hkey]

theorem length_takeWhile_range {count n : Nat} (hn : n < count) :
    ((List.range count).takeWhile (· != n)).length < count := by
  have hsplit := congrArg List.length
    (List.takeWhile_append_dropWhile (p := (· != n)) (l := List.range count))
  have hne : (List.range count).dropWhile (· != n) ≠ [] := by
    rw [Ne, List.dropWhile_eq_nil_iff]
    intro hall
    simpa using hall n (List.mem_range.mpr hn)
  have hpos := List.length_pos_iff.mpr hne
  rw [List.length_append, List.length_range] at hsplit
  omega

/-- Each page gives a result when its turn comes. -/
theorem given_pages {count n : Nat} (hn : n < count) (hcount : count ≤ 100) (events : List Event) :
    ∃ m ms, (fresh {} .standard pagesRequest.recordPath 100).runGiven? (pagesConfig count).items
      (oneByOne (pagesConfig count).items) { pagesPlace count with journal := events } n =
        some (m :: ms) := by
  obtain ⟨schema, m, ms, hschema, hgives, _⟩ := Batch.exists_result_kindFirst
  have hlength : (pagesConfig count).items.length = count := by simp [pagesConfig]
  have hitem : (pagesConfig count).items[n]? = some (pageItem n) := by simp [pagesConfig, hn]
  have hroom : (fresh {} .standard pagesRequest.recordPath 100).HasRoom
      ((oneByOne (pagesConfig count).items).takeWhile (· != n)).length := by
    have hshort := length_takeWhile_range hn
    refine ⟨_, rfl, ?_⟩
    rw [oneByOne, hlength]
    change ((0 : Nat) + _ : Int) < 100
    omega
  have hknown : ((fresh {} .standard pagesRequest.recordPath 100).ready
      { pagesPlace count with journal := events } [] (pagesConfig count).items).schemaOf?
        (pageItem n) = some (.ok schema) := by
    rw [Batch.schemaOf?, Batch.ready, Batch.lookup_schemasOf, leader?_pages _ hn, Option.map_some]
    exact congrArg some hschema
  have hsame : (fresh {} .standard pagesRequest.recordPath 100).extractDocument
      (pagesPlace count).files (pageItem n) schema =
        Batch.sampleBatch.extractDocument Batch.samplePlace.files Batch.kindFirst schema := by
    have hpath : (pageItem n).path = pageName n := rfl
    have hread : Batch.samplePlace.files.readLossyText (Path.ofString Batch.kindFirst.path) =
        .ok "<p>1</p>" := Batch.read_page
    rw [Batch.extractDocument, Batch.extractDocument, hpath, read_page hn hcount, hread]
    rfl
  refine ⟨m, ms, ?_⟩
  rw [Batch.runGiven?_of_room rfl hroom, Batch.given?_eq hitem hknown]
  exact congrArg Except.toOption (hsame.trans hgives)

/-! ### The end -/

theorem not_writable_pages (count : Nat) :
    ¬ (pagesPlace count).files.Writable pagesRequest.recordPath := by
  have hplace : (pagesPlace count).files.locate pagesRequest.recordPath =
      .ok ["out", "results.jsonl"] := by
    cbv
  rintro ⟨q, hq, hdir⟩
  obtain rfl := Except.ok.inj (hplace.symm.trans hq)
  exact hdir rfl

theorem ensureDirectories_pages (count : Nat) (events : List Event) :
    (Work.ensureDirectories (Path.ofString pagesRequest.directory)).run
      { pagesPlace count with journal := events } =
        (.ok (), { pagesPlace count with journal := events }) := by
  have hplace : (pagesPlace count).files.locate (Path.ofString "out") = .ok ["out"] := by cbv
  exact Work.ensureDirectories_of_isDirectory
    (FileSystem.isDirectory_eq_true_iff.mpr ⟨_, hplace, rfl⟩)

theorem run_status_iff_page : ∃ c w₁ w₂,
    pagesRequest.dryRun = false ∧
    (Config.load { own := "/" } (Path.ofString pagesRequest.config)).run (pagesPlace 1) =
      (.ok c, w₁) ∧
    c.strategy = "json_lines" ∧
    (Work.ensureDirectories (Path.ofString pagesRequest.directory)).run w₁ = (.ok (), w₂) ∧
    (oneByOne c.items).Perm (List.range c.items.length) ∧ c.items.length = 1 ∧
    ¬ w₂.files.Writable pagesRequest.recordPath ∧
    ((pagesRequest.run { own := "/" } oneByOne).run (pagesPlace 1)).1.status = 1 := by
  obtain ⟨events, hload⟩ := load_pages 1
  have hlength : (pagesConfig 1).items.length = 1 := by simp [pagesConfig]
  have hdirectory := ensureDirectories_pages 1 events
  have horder := perm_oneByOne_pages 1
  obtain ⟨_, _, hiff⟩ := run_status_iff horder hdirectory rfl rfl hload
  refine ⟨_, _, _, rfl, hload, rfl, hdirectory, horder, hlength, not_writable_pages 1, ?_⟩
  refine (hiff (fun n hn => ?_) (not_writable_pages 1)).mpr (by rw [hlength]; decide)
  rw [hlength] at hn
  exact given_pages hn (by decide) events

/-- A hundred pages give records, all of which are lost, and the command ends well. -/
theorem run_hides_losses : ∃ w₁ found b₁ w₂ s,
    (Config.load { own := "/" } (Path.ofString pagesRequest.config)).run (pagesPlace 100) =
      (.ok (pagesConfig 100), w₁) ∧
    (Work.ensureDirectories (Path.ofString pagesRequest.directory)).run w₁ = (.ok (), w₁) ∧
    ¬ w₁.files.Writable pagesRequest.recordPath ∧
    ((fresh {} .standard pagesRequest.recordPath 100).run (pagesConfig 100).items
      (oneByOne (pagesConfig 100).items)).run w₁ = ((.ok found, b₁), w₂) ∧
    b₁.store = .records s ∧ s.batches = [] ∧ s.buffer = [] ∧ s.failed.length = 100 ∧
    ((pagesRequest.run { own := "/" } oneByOne).run (pagesPlace 100)).1.status = 0 := by
  obtain ⟨events, hload⟩ := load_pages 100
  have hlength : (pagesConfig 100).items.length = 100 := by simp [pagesConfig]
  have hdirectory := ensureDirectories_pages 100 events
  have hgiven : ∀ n < (pagesConfig 100).items.length, ∃ m ms,
      (fresh {} .standard pagesRequest.recordPath 100).runGiven? (pagesConfig 100).items
        (oneByOne (pagesConfig 100).items) { pagesPlace 100 with journal := events } n =
          some (m :: ms) := by
    intro n hn
    rw [hlength] at hn
    exact given_pages hn (Nat.le_refl 100) events
  have horder := perm_oneByOne_pages 100
  obtain ⟨found, b₁, w₂, hrun⟩ := Batch.exists_run_of_given horder fun n hn => by
    obtain ⟨m, ms, h⟩ := hgiven n hn
    exact Option.isSome_iff_exists.mpr ⟨_, h⟩
  have hrecords := length_records_of_given horder hgiven
  rw [hlength] at hrecords
  obtain ⟨s, hs, hsteps⟩ := Batch.run_steps rfl horder hrun
  obtain ⟨hbatches, _⟩ := hsteps.blocked (not_writable_pages 100)
  obtain ⟨s₁, _, _, _, _, hs₁, _, _, _, _, hbuffer, _, hstatus, _⟩ :=
    status_of_ok hdirectory rfl rfl hload horder hrun
  obtain rfl := Store.records.inj (hs₁.symm.trans hs)
  obtain ⟨t, _, haccounts, _⟩ := Batch.accounts_run horder hrun
  obtain rfl := Store.records.inj (haccounts.store.symm.trans hs)
  obtain ⟨flushes, hfollows⟩ := haccounts.follows
  have hempty : t.buffer = [] := by
    rw [← List.length_eq_zero_iff]
    exact hbuffer.trans (congrArg (· % 100) hrecords)
  have hlost : t.failed.length = 100 := by
    have hsum := hfollows.length_saved
    rw [hempty, hbatches] at hsum
    simpa using (hrecords.symm.trans hsum).symm
  refine ⟨_, found, b₁, w₂, t, hload, hdirectory, not_writable_pages 100, hrun, hs,
    hbatches, hempty, hlost, hstatus (Dvd.intro 1 hrecords.symm)⟩

end BatchRequest

end Harvest
