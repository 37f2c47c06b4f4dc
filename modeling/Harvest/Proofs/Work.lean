import Harvest.Workplace

/-!
# Work

What steps of work do to a workplace.
-/

namespace Harvest.Work

theorem outcome_inj {α σ : Type} {a a' : α} {s s' : σ} {w w' : Workplace}
    (h : ((a, s), w) = ((a', s'), w')) : a = a' ∧ s = s' ∧ w = w' := by
  obtain ⟨hleft, hplace⟩ := Prod.mk.inj h
  obtain ⟨hmade, hstate⟩ := Prod.mk.inj hleft
  exact ⟨hmade, hstate, hplace⟩

theorem run_pure {α : Type} (a : α) (w : Workplace) : (pure a : Work α).run w = (a, w) := rfl

theorem run_bind {α β : Type} (work : Work α) (next : α → Work β) (w : Workplace) :
    (work >>= next).run w = (next (work.run w).1).run (work.run w).2 := rfl

theorem run_note (e : Event) (w : Workplace) :
    (note e).run w = ((), { w with journal := w.journal ++ [e] }) := rfl

theorem run_files (w : Workplace) : files.run w = (w.files, w) := rfl

theorem run_writeText (p : Path) (opening : FileSystem.Opening) (s : String) (w : Workplace) :
    (writeText p opening s).run w =
      ((w.files.writeText p opening s).1, { w with files := (w.files.writeText p opening s).2 }) :=
  rfl

end Harvest.Work
