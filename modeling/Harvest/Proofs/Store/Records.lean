import Harvest.Store.Records
import Harvest.Proofs.Files.Write
import Harvest.Proofs.Work

/-!
# The fate of records

Every record that is saved is written, lost or still held back, and the file holds just what was
written.
-/

namespace Harvest

theorem filterMap_cons_eq {α β : Type} (f : α → Option β) (a : α) (l : List α) :
    (a :: l).filterMap f = (f a).toList ++ l.filterMap f := by
  rw [List.filterMap_cons]
  cases f a <;> rfl

namespace Record

@[simp] theorem lines_append (rs rs' : List Record) :
    lines (rs ++ rs') = lines rs ++ lines rs' := by
  simp [lines]

end Record

namespace RecordStore

/-! ## What a call does -/

/-- The store when the records that were held back are in the file. -/
def afterWrite (s : RecordStore) : RecordStore :=
  { s with buffer := [], batches := s.batches ++ [s.buffer] }

/-- The store when the records that were held back are lost. -/
def afterLoss (s : RecordStore) : RecordStore :=
  { s with buffer := [], failed := s.failed ++ s.buffer.map (·.source) }

section
variable {s s' : RecordStore} {w w' : Workplace}

theorem flush_cases {r : Except LostRecords Unit} (h : s.flush.run w = ((r, s'), w')) :
    (s.buffer = [] ∧ r = .ok () ∧ s' = s ∧ w' = w) ∨
    (s.buffer ≠ [] ∧ r = .ok () ∧ s' = s.afterWrite ∧
      w.files.writeText s.path s.opening (Record.lines s.buffer) = (.ok (), w'.files)) ∨
    (∃ e, s.buffer ≠ [] ∧ r = .error ⟨s.path, e, s.buffer.map (·.source)⟩ ∧ s' = s.afterLoss ∧
      w.files.writeText s.path s.opening (Record.lines s.buffer) = (.error e, w'.files)) := by
  rw [flush] at h
  by_cases hbuffer : s.buffer = []
  · rw [if_pos (by simp [hbuffer])] at h
    obtain ⟨rfl, rfl, rfl⟩ := Work.outcome_inj h
    exact Or.inl ⟨hbuffer, rfl, rfl, rfl⟩
  · rw [if_neg (by simpa using hbuffer), Work.run_bind, Work.run_writeText] at h
    rcases hwrite : w.files.writeText s.path s.opening (Record.lines s.buffer) with ⟨r₁, fs⟩
    rw [hwrite] at h
    cases r₁ with
    | ok u =>
        obtain ⟨rfl, rfl, rfl⟩ := Work.outcome_inj h
        exact Or.inr (Or.inl ⟨hbuffer, rfl, rfl, rfl⟩)
    | error e =>
        obtain ⟨rfl, rfl, rfl⟩ := Work.outcome_inj h
        exact Or.inr (Or.inr ⟨e, hbuffer, rfl, rfl, rfl⟩)

/-- A record that is saved is held back, or goes with all that were held back before it. -/
theorem save_cases {source : String} {result : Members} {name : Option String}
    {r : Except LostRecords Path} {t : RecordStore}
    (ht : t = s.push (Record.ofResult source result name))
    (h : (s.save source result name).run w = ((r, s'), w')) :
    ((t.buffer.length : Int) < s.capacity ∧ r = .ok s.path ∧ s' = t ∧ w' = w) ∨
    (s.capacity ≤ t.buffer.length ∧ r = .ok s.path ∧ s' = t.afterWrite ∧
      w.files.writeText s.path s.opening (Record.lines t.buffer) = (.ok (), w'.files)) ∨
    (∃ e, s.capacity ≤ t.buffer.length ∧ r = .error ⟨s.path, e, t.buffer.map (·.source)⟩ ∧
      s' = t.afterLoss ∧
      w.files.writeText s.path s.opening (Record.lines t.buffer) = (.error e, w'.files)) := by
  rw [save, ← ht] at h
  have hcapacity : t.capacity = s.capacity := by rw [ht]; rfl
  have hpath : t.path = s.path := by rw [ht]; rfl
  have hopening : t.opening = s.opening := by rw [ht]; rfl
  have hne : t.buffer ≠ [] := by simp [ht, push]
  by_cases hfull : t.isFull = true
  · have hlength : s.capacity ≤ t.buffer.length := by
      rw [isFull, hcapacity] at hfull
      exact of_decide_eq_true hfull
    rcases hflush : t.flush.run w with ⟨⟨r₁, s₁⟩, w₁⟩
    rw [if_pos hfull, Work.run_bind, hflush] at h
    obtain ⟨rfl, rfl, rfl⟩ := Work.outcome_inj h
    rw [← hpath, ← hopening]
    obtain ⟨hempty, _⟩ | ⟨_, rfl, rfl, hwrite⟩ | ⟨e, _, rfl, rfl, hwrite⟩ := flush_cases hflush
    · exact absurd hempty hne
    · exact Or.inr (Or.inl ⟨hlength, rfl, rfl, hwrite⟩)
    · exact Or.inr (Or.inr ⟨e, hlength, rfl, rfl, hwrite⟩)
  · rw [if_neg hfull] at h
    obtain ⟨rfl, rfl, rfl⟩ := Work.outcome_inj h
    rw [isFull, hcapacity] at hfull
    have hlength := of_decide_eq_false (Bool.eq_false_iff.mpr hfull)
    exact Or.inl ⟨by omega, by rw [hpath], rfl, rfl⟩

theorem finish_cases {r : Except LostRecords Unit} (h : s.finish.run w = ((r, s'), w')) :
    (s.buffer = [] ∧ r = .ok () ∧ s' = s ∧ w'.files = w.files) ∨
    (s.buffer ≠ [] ∧ r = .ok () ∧ s' = s.afterWrite ∧
      w.files.writeText s.path s.opening (Record.lines s.buffer) = (.ok (), w'.files)) ∨
    (∃ e, s.buffer ≠ [] ∧ r = .error ⟨s.path, e, s.buffer.map (·.source)⟩ ∧ s' = s.afterLoss ∧
      w.files.writeText s.path s.opening (Record.lines s.buffer) = (.error e, w'.files)) := by
  rcases hflush : s.flush.run { w with journal := w.journal ++ [.lastFlush] } with ⟨⟨r₁, s₁⟩, w₁⟩
  rw [finish, Work.run_bind, Work.run_note, Work.run_bind, hflush] at h
  have hcases := flush_cases hflush
  cases r₁ with
  | ok u =>
      obtain ⟨rfl, rfl, rfl⟩ := Work.outcome_inj h
      obtain ⟨hempty, _, rfl, rfl⟩ | ⟨hne, _, rfl, hwrite⟩ | ⟨e, _, he, _⟩ := hcases
      · exact Or.inl ⟨hempty, rfl, rfl, rfl⟩
      · exact Or.inr (Or.inl ⟨hne, rfl, rfl, hwrite⟩)
      · cases he
  | error lost =>
      obtain ⟨rfl, rfl, rfl⟩ := Work.outcome_inj h
      obtain ⟨_, he, _⟩ | ⟨_, he, _⟩ | ⟨e, hne, he, rfl, hwrite⟩ := hcases
      · cases he
      · cases he
      · exact Or.inr (Or.inr ⟨e, hne, he, rfl, hwrite⟩)

end

/-! ## Flushes -/

/-- Records that left the store together, and what came of writing them. -/
structure Flush where
  batch : List Record
  outcome : Except FileError Unit

def Flush.written (f : Flush) : Bool := f.outcome.isOk

@[simp] theorem Flush.written_ok (batch : List Record) (u : Unit) :
    (⟨batch, .ok u⟩ : Flush).written = true := rfl

@[simp] theorem Flush.written_error (batch : List Record) (e : FileError) :
    (⟨batch, .error e⟩ : Flush).written = false := rfl

/-- The error that reports a flush whose records are lost. -/
def Flush.loss? (path : Path) (f : Flush) : Option LostRecords :=
  match f.outcome with
  | .ok () => none
  | .error e => some ⟨path, e, f.batch.map (·.source)⟩

/-- The batches that were written. -/
def writtenOf (flushes : List Flush) : List (List Record) :=
  (flushes.filter (·.written)).map (·.batch)

/-- The records that were lost. -/
def lostOf (flushes : List Flush) : List Record :=
  (flushes.filter fun f => !f.written).flatMap (·.batch)

/-- How the file is opened after some flushes: the first batch that is written replaces what the
file held before. -/
def openingAfter (flushes : List Flush) : FileSystem.Opening :=
  if (writtenOf flushes).isEmpty then .fresh else .behind

/-- Flushes one after the other: the outcome of each is what came of writing its batch to the file,
and nothing else is done to the files. -/
inductive Tried (path : Path) (start : FileSystem) : List Flush → FileSystem → Prop
  | nil : Tried path start [] start
  | snoc {flushes : List Flush} {fs fs' : FileSystem} {f : Flush}
      (hbefore : Tried path start flushes fs) (hbatch : f.batch ≠ [])
      (hwrite : fs.writeText path (openingAfter flushes) (Record.lines f.batch) =
        (f.outcome, fs')) : Tried path start (flushes ++ [f]) fs'

theorem writtenOf_append_ok (flushes : List Flush) (batch : List Record) :
    writtenOf (flushes ++ [⟨batch, .ok ()⟩]) = writtenOf flushes ++ [batch] := by
  rw [writtenOf, List.filter_append, List.map_append]
  rfl

theorem writtenOf_append_error (flushes : List Flush) (batch : List Record) (e : FileError) :
    writtenOf (flushes ++ [⟨batch, .error e⟩]) = writtenOf flushes := by
  rw [writtenOf, List.filter_append, List.map_append]
  exact List.append_nil _

theorem lostOf_append_ok (flushes : List Flush) (batch : List Record) :
    lostOf (flushes ++ [⟨batch, .ok ()⟩]) = lostOf flushes := by
  rw [lostOf, List.filter_append, List.flatMap_append]
  exact List.append_nil _

theorem lostOf_append_error (flushes : List Flush) (batch : List Record) (e : FileError) :
    lostOf (flushes ++ [⟨batch, .error e⟩]) = lostOf flushes ++ batch := by
  rw [lostOf, List.filter_append, List.flatMap_append]
  exact congrArg _ (List.append_nil batch)

theorem writtenOf_eq_nil_iff {flushes : List Flush} :
    writtenOf flushes = [] ↔ ¬ ∃ f ∈ flushes, f.written = true := by
  simp [writtenOf]

theorem flatMap_loss? (path : Path) (flushes : List Flush) :
    (flushes.filterMap (·.loss? path)).flatMap (·.sources) = (lostOf flushes).map (·.source) := by
  induction flushes with
  | nil => rfl
  | cons f flushes ih =>
      obtain ⟨batch, outcome⟩ := f
      rw [filterMap_cons_eq, List.flatMap_append, ih]
      cases outcome with
      | ok _ => rfl
      | error e => simp [Flush.loss?, lostOf]

theorem flatten_writtenOf {flushes : List Flush} (h : ∀ f ∈ flushes, f.written = true) :
    (writtenOf flushes).flatten = flushes.flatMap (·.batch) := by
  rw [writtenOf, List.filter_eq_self.mpr h, List.flatMap_def]

theorem filterMap_loss?_eq_nil {flushes : List Flush} (path : Path)
    (h : ∀ f ∈ flushes, f.written = true) : flushes.filterMap (·.loss? path) = [] := by
  rw [List.filterMap_eq_nil_iff]
  intro f hf
  have hwritten := h f hf
  obtain ⟨batch, outcome⟩ := f
  cases outcome with
  | ok _ => rfl
  | error e => cases hwritten

namespace Tried

variable {path : Path} {start fs : FileSystem} {flushes : List Flush}

theorem sameDirectories (h : Tried path start flushes fs) :
    FileSystem.SameDirectories start fs := by
  induction h with
  | nil => exact .refl start
  | snoc _ _ hwrite ih => exact ih.trans (FileSystem.sameDirectories_write hwrite)

/-- Each flush opens one file. -/
theorem mishaps (h : Tried path start flushes fs) :
    fs.mishaps = start.mishaps.drop flushes.length := by
  induction h with
  | nil => rfl
  | snoc _ _ hwrite ih =>
      rw [FileSystem.mishaps_write hwrite, ih, List.tail_drop, List.length_append]
      rfl

/-- Which flushes succeed is settled by the place that the path leads to, and by the mishaps. -/
theorem written_iff (h : Tried path start flushes fs) {n : Nat} {f : Flush}
    (hf : flushes[n]? = some f) :
    f.written = true ↔ start.Writable path ∧ start.mishaps[n]?.join = none := by
  induction h with
  | nil => cases hf
  | @snoc flushes fs fs' g hbefore _ hwrite ih =>
      by_cases hn : n < flushes.length
      · rw [List.getElem?_append_left hn] at hf
        exact ih hf
      · obtain ⟨hlt, hlast⟩ := List.getElem?_eq_some_iff.mp hf
        have hlength : n = flushes.length := by
          rw [List.length_append, List.length_singleton] at hlt
          omega
        subst hlength
        obtain rfl : g = f := by simpa using hlast
        have hok : g.written = true ↔ g.outcome = .ok () := by
          obtain ⟨batch, outcome⟩ := g
          cases outcome <;> simp
        have houtcome : (fs.writeText path _ _).1 = g.outcome := congrArg Prod.fst hwrite
        have hwritable : fs.Writable path ↔ start.Writable path :=
          ⟨fun hp => hp.of_sameDirectories hbefore.sameDirectories.symm,
            fun hp => hp.of_sameDirectories hbefore.sameDirectories⟩
        rw [hok, ← houtcome, FileSystem.writeText, FileSystem.write_ok_iff, hwritable,
          hbefore.mishaps, List.head?_drop]

theorem all_written (h : Tried path start flushes fs) (hwritable : start.Writable path)
    (hmishaps : ∀ mishap ∈ start.mishaps, mishap = none) : ∀ f ∈ flushes, f.written = true := by
  intro f hf
  obtain ⟨n, hn⟩ := List.getElem?_of_mem hf
  refine (h.written_iff hn).mpr ⟨hwritable, ?_⟩
  cases hmishap : start.mishaps[n]? with
  | none => rfl
  | some mishap =>
      rw [hmishaps mishap (List.mem_of_getElem? hmishap)]
      rfl

/-- Once a flush has succeeded, the file holds just what was written. -/
theorem read (h : Tried path start flushes fs) (hwritten : ∃ f ∈ flushes, f.written = true) :
    fs.read path = .ok (Record.lines (writtenOf flushes).flatten).toUTF8 := by
  induction h with
  | nil =>
      obtain ⟨f, hf, _⟩ := hwritten
      cases hf
  | @snoc flushes fs fs' f hbefore _ hwrite ih =>
      obtain ⟨batch, outcome⟩ := f
      cases outcome with
      | ok _ =>
          rw [writtenOf_append_ok, List.flatten_append, Record.lines_append]
          by_cases hbefore : writtenOf flushes = []
          · -- the first batch replaces what the file held before
            rw [openingAfter, if_pos (by simpa using hbefore)] at hwrite
            rw [hbefore, FileSystem.read_written_fresh hwrite]
            simp [Record.lines]
          · rw [openingAfter, if_neg (by simpa using hbefore)] at hwrite
            have hread := ih (not_not.mp (mt writtenOf_eq_nil_iff.mpr hbefore))
            rw [FileSystem.read_written_behind hread hwrite]
            simp [String.toByteArray_append]
      | error e =>
          rw [writtenOf_append_error, FileSystem.read_of_error hwrite]
          apply ih
          obtain ⟨f, hf, hok⟩ := hwritten
          obtain hf | hf := List.mem_append.mp hf
          · exact ⟨f, hf, hok⟩
          · obtain rfl := List.mem_singleton.mp hf
            cases hok

end Tried

/-- Whether the state of a store, and the files, follow from the records that were saved and from
the files at the start, by the flushes that there were. -/
structure Follows (s : RecordStore) (start fs : FileSystem) (saved : List Record)
    (flushes : List Flush) : Prop where
  conserved : saved = flushes.flatMap (·.batch) ++ s.buffer
  batches : s.batches = writtenOf flushes
  failed : s.failed = (lostOf flushes).map (·.source)
  tried : Tried s.path start flushes fs
  file : (∃ f ∈ flushes, f.written = true) →
    fs.read s.path = .ok (Record.lines s.batches.flatten).toUTF8

namespace Follows

variable {s : RecordStore} {start fs fs' : FileSystem} {saved : List Record}
  {flushes : List Flush}

/-- What the file holds follows from the flushes. -/
theorem of_tried (hconserved : saved = flushes.flatMap (·.batch) ++ s.buffer)
    (hbatches : s.batches = writtenOf flushes)
    (hfailed : s.failed = (lostOf flushes).map (·.source))
    (htried : Tried s.path start flushes fs) : s.Follows start fs saved flushes := by
  refine ⟨hconserved, hbatches, hfailed, htried, fun hwritten => ?_⟩
  rw [hbatches]
  exact htried.read hwritten

theorem push (h : s.Follows start fs saved flushes) (r : Record) :
    (s.push r).Follows start fs (saved ++ [r]) flushes := by
  refine ⟨?_, h.batches, h.failed, h.tried, h.file⟩
  rw [h.conserved, RecordStore.push, List.append_assoc]

theorem tried_snoc (h : s.Follows start fs saved flushes) (hbuffer : s.buffer ≠ [])
    {outcome : Except FileError Unit}
    (hwrite : fs.writeText s.path s.opening (Record.lines s.buffer) = (outcome, fs')) :
    Tried s.path start (flushes ++ [⟨s.buffer, outcome⟩]) fs' := by
  have hopening : s.opening = openingAfter flushes := by rw [opening, h.batches, openingAfter]
  rw [hopening] at hwrite
  exact h.tried.snoc hbuffer hwrite

theorem afterWrite (h : s.Follows start fs saved flushes) (hbuffer : s.buffer ≠ [])
    (hwrite : fs.writeText s.path s.opening (Record.lines s.buffer) = (.ok (), fs')) :
    s.afterWrite.Follows start fs' saved (flushes ++ [⟨s.buffer, .ok ()⟩]) := by
  refine .of_tried ?_ ?_ ?_ (h.tried_snoc hbuffer hwrite)
  · simp [h.conserved, RecordStore.afterWrite]
  · rw [RecordStore.afterWrite, writtenOf_append_ok, h.batches]
  · rw [RecordStore.afterWrite, lostOf_append_ok, h.failed]

theorem afterLoss (h : s.Follows start fs saved flushes) (hbuffer : s.buffer ≠ []) {e : FileError}
    (hwrite : fs.writeText s.path s.opening (Record.lines s.buffer) = (.error e, fs')) :
    s.afterLoss.Follows start fs' saved (flushes ++ [⟨s.buffer, .error e⟩]) := by
  refine .of_tried ?_ ?_ ?_ (h.tried_snoc hbuffer hwrite)
  · simp [h.conserved, RecordStore.afterLoss]
  · rw [RecordStore.afterLoss, writtenOf_append_error, h.batches]
  · rw [RecordStore.afterLoss, lostOf_append_error, List.map_append, h.failed]

/-- Where the store has written a batch, the file holds just those that it has written. -/
theorem read (h : s.Follows start fs saved flushes) (hbatches : s.batches ≠ []) :
    fs.read s.path = .ok (Record.lines s.batches.flatten).toUTF8 := by
  rw [h.batches, Ne, writtenOf_eq_nil_iff, not_not] at hbatches
  exact h.file hbatches

/-- Where no flush has failed and nothing is held back, the file holds all records. -/
theorem read_of_written (h : s.Follows start fs saved flushes)
    (hwritten : ∀ f ∈ flushes, f.written = true) (hbuffer : s.buffer = []) (hsaved : saved ≠ []) :
    fs.read s.path = .ok (Record.lines saved).toUTF8 := by
  have hconserved := h.conserved
  rw [hbuffer, List.append_nil] at hconserved
  have hflatten : s.batches.flatten = saved := by
    rw [h.batches, flatten_writtenOf hwritten, hconserved]
  have hbatches : s.batches ≠ [] := by
    intro hnil
    rw [hnil] at hflatten
    exact hsaved hflatten.symm
  rw [h.read hbatches, hflatten]

end Follows

/-! ## Calls -/

/-- What a store is asked for. -/
inductive Call
  | save (source : String) (result : Members) (name : Option String)
  | finish

/-- The record that a call adds. -/
def Call.record? : Call → Option Record
  | save source result name => some (Record.ofResult source result name)
  | finish => none

def answer (s : RecordStore) : Call → Work (Except LostRecords Unit × RecordStore)
  | .save source result name => do
    let (r, s) ← s.save source result name
    return (r.map fun _ => (), s)
  | .finish => s.finish

/-- Answers calls one after the other, also when some of them fail. -/
def serve (s : RecordStore) : List Call → Work (List (Except LostRecords Unit) × RecordStore)
  | [] => return ([], s)
  | c :: cs => do
    let (r, s) ← s.answer c
    let (rs, s) ← s.serve cs
    return (r :: rs, s)

/-- The error of an answer. -/
def raised? : Except LostRecords Unit → Option LostRecords
  | .ok _ => none
  | .error lost => some lost

theorem forall_ok_of_raised {replies : List (Except LostRecords Unit)}
    (h : replies.filterMap raised? = []) : ∀ reply ∈ replies, reply = .ok () := by
  intro reply hreply
  have hraised := List.filterMap_eq_nil_iff.mp h reply hreply
  cases reply with
  | ok _ => rfl
  | error lost => cases hraised

/-- Whether fewer records are held back than are written together. -/
def HasSpace (s : RecordStore) : Prop := (s.buffer.length : Int) < max 1 s.capacity

section
variable {s s' : RecordStore} {start : FileSystem} {w w' : Workplace} {saved : List Record}
  {flushes : List Flush}

/-- One call keeps account of all records, and its answer reports just the flush that failed. -/
theorem answer_follows {c : Call} {r : Except LostRecords Unit}
    (h : s.Follows start w.files saved flushes) (hspace : s.HasSpace)
    (hanswer : (s.answer c).run w = ((r, s'), w')) :
    (∃ own, s'.Follows start w'.files (saved ++ c.record?.toList) (flushes ++ own) ∧
        own.filterMap (·.loss? s.path) = (raised? r).toList) ∧
      s'.path = s.path ∧ s'.capacity = s.capacity ∧ s'.HasSpace ∧
      (c = .finish → s'.buffer = []) := by
  have hempty : (0 : Int) < max 1 s.capacity := by omega
  have hnone : s.Follows start w.files saved (flushes ++ []) := by rwa [List.append_nil]
  cases c with
  | save source result name =>
      rcases hsave : (s.save source result name).run w with ⟨⟨r₁, s₁⟩, w₁⟩
      rw [answer, Work.run_bind, hsave] at hanswer
      obtain ⟨rfl, rfl, rfl⟩ := Work.outcome_inj hanswer
      have hpush := h.push (Record.ofResult source result name)
      have hbuffer : (s.push (Record.ofResult source result name)).buffer ≠ [] := by
        simp [RecordStore.push]
      obtain ⟨hroom, rfl, rfl, rfl⟩ | ⟨_, rfl, rfl, hwrite⟩ | ⟨e, _, rfl, rfl, hwrite⟩ :=
        save_cases rfl hsave
      · refine ⟨⟨[], hnone.push _, rfl⟩, rfl, rfl, ?_, nofun⟩
        exact lt_of_lt_of_le hroom (le_max_right _ _)
      · exact ⟨⟨_, hpush.afterWrite hbuffer hwrite, rfl⟩, rfl, rfl, hempty, nofun⟩
      · exact ⟨⟨_, hpush.afterLoss hbuffer hwrite, rfl⟩, rfl, rfl, hempty, nofun⟩
  | finish =>
      rw [Call.record?, Option.toList_none, List.append_nil]
      obtain ⟨hnil, rfl, rfl, hfiles⟩ | ⟨hbuffer, rfl, rfl, hwrite⟩ |
        ⟨e, hbuffer, rfl, rfl, hwrite⟩ := finish_cases hanswer
      · rw [hfiles]
        exact ⟨⟨[], hnone, rfl⟩, rfl, rfl, hspace, fun _ => hnil⟩
      · exact ⟨⟨_, h.afterWrite hbuffer hwrite, rfl⟩, rfl, rfl, hempty, fun _ => rfl⟩
      · exact ⟨⟨_, h.afterLoss hbuffer hwrite, rfl⟩, rfl, rfl, hempty, fun _ => rfl⟩

/-- Any calls keep account of all records. -/
theorem serve_follows {calls : List Call} {replies : List (Except LostRecords Unit)}
    (h : s.Follows start w.files saved flushes) (hspace : s.HasSpace)
    (hserve : (s.serve calls).run w = ((replies, s'), w')) :
    (∃ own, s'.Follows start w'.files (saved ++ calls.filterMap Call.record?) (flushes ++ own) ∧
        own.filterMap (·.loss? s.path) = replies.filterMap raised?) ∧
      s'.path = s.path ∧ s'.capacity = s.capacity ∧ s'.HasSpace ∧
      (calls.getLast? = some .finish → s'.buffer = []) := by
  induction calls generalizing s w saved flushes replies with
  | nil =>
      obtain ⟨rfl, rfl, rfl⟩ := Work.outcome_inj hserve
      exact ⟨⟨[], by simpa using h, rfl⟩, rfl, rfl, hspace, by simp⟩
  | cons c calls ih =>
      rcases hanswer : (s.answer c).run w with ⟨⟨r₁, s₁⟩, w₁⟩
      rcases hrest : (s₁.serve calls).run w₁ with ⟨⟨rs, s₂⟩, w₂⟩
      rw [serve, Work.run_bind, hanswer, Work.run_bind, hrest] at hserve
      obtain ⟨rfl, rfl, rfl⟩ := Work.outcome_inj hserve
      obtain ⟨⟨own₁, h₁, hlosses₁⟩, hpath, hcapacity, hspace₁, hfinish⟩ :=
        answer_follows h hspace hanswer
      obtain ⟨⟨own₂, h₂, hlosses₂⟩, hpath₂, hcapacity₂, hspace₂, hfinish₂⟩ := ih h₁ hspace₁ hrest
      rw [hpath] at hlosses₂
      rw [List.append_assoc, List.append_assoc, ← filterMap_cons_eq] at h₂
      refine ⟨⟨own₁ ++ own₂, h₂, ?_⟩, hpath₂.trans hpath, hcapacity₂.trans hcapacity, hspace₂,
        fun hlast => ?_⟩
      · rw [List.filterMap_append, hlosses₁, hlosses₂, filterMap_cons_eq]
      · cases calls with
        | nil =>
            obtain ⟨_, rfl, _⟩ := Work.outcome_inj hrest
            exact hfinish (by simpa using hlast)
        | cons c' calls => exact hfinish₂ (by simpa using hlast)

theorem follows_start (path : Path) (capacity : Int) (fs : FileSystem) :
    ({ path, capacity } : RecordStore).Follows fs fs [] [] :=
  ⟨rfl, rfl, rfl, .nil, fun ⟨_, hf, _⟩ => nomatch hf⟩

end

/-- After whatever calls, and whichever writings fail: each record that was saved is in one batch
that was written, or lost, or held back, in the order of the calls; the errors are those of the
flushes that failed, and their sources those of the lost records; fewer records are held back than
are written together; and once a flush has succeeded, the file holds just the lines of the batches
that were written.  A flush succeeds just if the path leads to a place for a file and no mishap
meets it.  So without mishaps no call fails, and at the end the file holds the lines of all records,
whatever the capacity. -/
theorem serve_conserves (path : Path) (capacity : Int) (calls : List Call) (w : Workplace) :
    let out := (serve { path, capacity } calls).run w
    let saved := calls.filterMap Call.record?
    (∃ flushes, out.1.2.Follows w.files out.2.files saved flushes ∧
        out.1.1.filterMap raised? = flushes.filterMap (·.loss? path) ∧
        ∀ (n : Nat) (f : Flush), flushes[n]? = some f →
          (f.written = true ↔ w.files.Writable path ∧ w.files.mishaps[n]?.join = none)) ∧
      out.1.2.path = path ∧
      (out.1.1.filterMap raised?).flatMap (·.sources) = out.1.2.failed ∧
      (out.1.2.buffer.length : Int) < max 1 capacity ∧
      (calls.getLast? = some .finish → out.1.2.buffer = []) ∧
      (w.files.Writable path → (∀ mishap ∈ w.files.mishaps, mishap = none) →
        (∀ reply ∈ out.1.1, reply = .ok ()) ∧
          (calls.getLast? = some .finish → saved ≠ [] →
            out.2.files.read path = .ok (Record.lines saved).toUTF8)) := by
  intro out saved
  rcases hout : out with ⟨⟨replies, s⟩, w'⟩
  have hspace : ({ path, capacity } : RecordStore).HasSpace := by
    change (0 : Int) < max 1 capacity
    omega
  obtain ⟨⟨flushes, h, hlosses⟩, hpath, hcapacity, hspace', hfinish⟩ :=
    serve_follows (follows_start path capacity w.files) hspace hout
  rw [List.nil_append, List.nil_append] at h
  rw [HasSpace, hcapacity] at hspace'
  have hpath : s.path = path := hpath
  have htried := h.tried
  rw [hpath] at htried
  refine ⟨⟨flushes, h, hlosses.symm, fun n f hf => htried.written_iff hf⟩, hpath, ?_, hspace',
    hfinish, fun hwritable hmishaps => ?_⟩
  · dsimp only
    rw [← hlosses, flatMap_loss?, h.failed]
  · have hwritten := htried.all_written hwritable hmishaps
    refine ⟨forall_ok_of_raised ?_, fun hlast hsaved => ?_⟩
    · rw [← hlosses]
      exact filterMap_loss?_eq_nil path hwritten
    · rw [← hpath]
      exact h.read_of_written hwritten (hfinish hlast) hsaved

end RecordStore

end Harvest
