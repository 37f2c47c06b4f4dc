import Harvest.Config
import Harvest.Proofs.Store.Documents
import Harvest.Proofs.Store.Records
import Harvest.Store.Basic

/-!
# Stores that accept results

Where nothing befalls the files that are opened, and each path that a store may write leads to a
place for a file, the store takes every result and keeps those that it has.
-/

namespace Harvest.Store

/-- Whether a path is one that a store may write for items, whatever it has written before. -/
def MayWrite (items : List Item) (p : Path) : Store → Prop
  | .records s => p = s.path
  | .documents s => ∃ i ∈ items, ∃ saved,
      p = DocumentStore.pathFor { s with saved } i.path (some i.outputName)

/-- Whether all writing that the results of items need succeeds. -/
structure Accepts (store : Store) (items : List Item) (fs : FileSystem) : Prop where
  mishaps : fs.mishaps = []
  writable : ∀ p, store.MayWrite items p → fs.Writable p

/-- Whether a store has a record, at a path. -/
def Has (r : Record) (path : String) : Store → Prop
  | .records s => r ∈ s.batches.flatten ++ s.buffer ∧ path = s.path.toString
  | .documents s => ∃ p, ⟨r.source, p, (s.contentOf r.result).length⟩ ∈ s.saved ∧ path = p.toString

section
variable {store : Store} {items : List Item} {i : Item} {w : Workplace}

/-- A path that may be written is written, and all of them can still be. -/
theorem Accepts.exists_write {fs : FileSystem} (h : store.Accepts items fs) {p : Path}
    (hp : store.MayWrite items p) (opening : FileSystem.Opening) (content : String) :
    ∃ fs', fs.writeText p opening content = (.ok (), fs') ∧ store.Accepts items fs' := by
  obtain ⟨fs', hwrite, hnone⟩ := (h.writable p hp).exists_write h.mishaps opening content.toUTF8
  refine ⟨fs', hwrite, hnone, fun q hq => ?_⟩
  exact (h.writable q hq).of_sameDirectories (FileSystem.sameDirectories_write hwrite)

/-- What saving a result comes to in a store that accepts it. -/
def Takes (store : Store) (items : List Item) (i : Item) (result : Members)
    (w : Workplace) : Prop :=
  ∃ (p : Path) (store₁ : Store) (w₁ : Workplace),
    (store.save i.path result (some i.outputName)).run w = ((.ok (some p), store₁), w₁) ∧
      store₁.Accepts items w₁.files ∧
      store₁.Has (Record.ofResult i.path result (some i.outputName)) p.toString ∧
      ∀ r path, store.Has r path → store₁.Has r path

theorem takes_documents {s : DocumentStore} (h : (Store.documents s).Accepts items w.files)
    (hi : i ∈ items) (result : Members) : (Store.documents s).Takes items i result w := by
  let r : DocumentStore.Request := ⟨i.path, result, some i.outputName⟩
  have hmay : (Store.documents s).MayWrite items (s.pathBeside s.usedPaths r) :=
    ⟨i, hi, s.saved, (s.pathFor_eq r).symm⟩
  obtain ⟨fs, hwrite, haccepts⟩ := h.exists_write hmay .fresh (s.contentOf result)
  rcases hsave : (s.save i.path result (some i.outputName)).run w with ⟨⟨p?, s₁⟩, w₁⟩
  have hrun : ((Store.documents s).save i.path result (some i.outputName)).run w =
      ((.ok p?, .documents s₁), w₁) := by
    rw [Store.save, Work.run_bind, hsave]
    rfl
  obtain ⟨e, _, _, herror⟩ | ⟨rfl, rfl, hwritten⟩ :=
    @DocumentStore.save_cases s s₁ r p? w w₁ hsave
  · rw [hwrite] at herror
    cases herror
  · rw [hwrite] at hwritten
    obtain rfl : fs = w₁.files := congrArg Prod.snd hwritten
    refine ⟨_, _, w₁, hrun, ⟨haccepts.mishaps, haccepts.writable⟩, ?_, ?_⟩
    · exact ⟨_, List.mem_append_right _ List.mem_cons_self, rfl⟩
    · rintro r' path ⟨q, hq, hpath⟩
      exact ⟨q, List.mem_append_left _ hq, hpath⟩

theorem takes_records {s : RecordStore} (h : (Store.records s).Accepts items w.files)
    (result : Members) : (Store.records s).Takes items i result w := by
  let r := Record.ofResult i.path result (some i.outputName)
  obtain ⟨fs, hwrite, haccepts⟩ := h.exists_write rfl s.opening (Record.lines (s.push r).buffer)
  rcases hsave : (s.save i.path result (some i.outputName)).run w with ⟨⟨r₁, s₁⟩, w₁⟩
  have hrun : ((Store.records s).save i.path result (some i.outputName)).run w =
      ((r₁.map some, .records s₁), w₁) := by
    rw [Store.save, Work.run_bind, hsave]
    rfl
  have hpush : (s.push r).buffer = s.buffer ++ [r] := rfl
  -- held back, or written at once; it cannot be lost, as the file can be written
  obtain ⟨_, rfl, rfl, rfl⟩ | ⟨_, rfl, rfl, hwritten⟩ | ⟨e, _, _, _, herror⟩ :=
    RecordStore.save_cases rfl hsave
  · have hlast : r ∈ (s.push r).buffer := by
      rw [hpush]
      exact List.mem_append_right _ List.mem_cons_self
    refine ⟨_, _, w₁, hrun, ⟨h.mishaps, h.writable⟩, ⟨List.mem_append_right _ hlast, rfl⟩, ?_⟩
    rintro r' path ⟨hr', hpath⟩
    refine ⟨?_, hpath⟩
    rw [hpush, ← List.append_assoc]
    exact List.mem_append_left _ hr'
  · rw [hwrite] at hwritten
    obtain rfl : fs = w₁.files := congrArg Prod.snd hwritten
    have hall : (s.push r).afterWrite.batches.flatten ++ (s.push r).afterWrite.buffer =
        s.batches.flatten ++ s.buffer ++ [r] := by
      simp [RecordStore.afterWrite, RecordStore.push]
    refine ⟨_, _, w₁, hrun, ⟨haccepts.mishaps, haccepts.writable⟩, ⟨?_, rfl⟩, ?_⟩
    · rw [hall]
      exact List.mem_append_right _ List.mem_cons_self
    · rintro r' path ⟨hr', hpath⟩
      refine ⟨?_, hpath⟩
      rw [hall]
      exact List.mem_append_left _ hr'
  · rw [hwrite] at herror
    cases herror

theorem Accepts.takes (h : store.Accepts items w.files) (hi : i ∈ items) (result : Members) :
    store.Takes items i result w := by
  cases store with
  | documents s => exact takes_documents h hi result
  | records s => exact takes_records h result

end

end Harvest.Store
