import Harvest.XPath.Eval
import Mathlib.Data.List.Sort

/-!
# Document order

Document order is a strict order of nodes.  Nodes that are put in order stand in it, each of them
once.
-/

namespace Harvest.XPath

namespace Node

theorem le_iff {a b : Node} : a.le b = true ↔ a.key.1 < b.key.1 ∨ (a.key.1 = b.key.1 ∧
    (a.key.2.1 < b.key.2.1 ∨ (a.key.2.1 = b.key.2.1 ∧ a.key.2.2 ≤ b.key.2.2))) := by
  simp [le]

theorem key_injective {a b : Node} (h : a.key = b.key) : a = b := by
  cases a <;> cases b <;> simp_all [key]

theorem le_total (a b : Node) : (a.le b || b.le a) = true := by
  rw [Bool.or_eq_true, le_iff, le_iff]
  omega

theorem le_trans (a b c : Node) (h₁ : a.le b = true) (h₂ : b.le c = true) : a.le c = true := by
  rw [le_iff] at *
  omega

theorem le_antisymm {a b : Node} (h₁ : a.le b = true) (h₂ : b.le a = true) : a = b := by
  rw [le_iff] at h₁ h₂
  apply key_injective
  refine Prod.ext ?_ (Prod.ext ?_ ?_) <;> omega

/-- A node stands in front of another one in document order. -/
def Before (a b : Node) : Prop := a.le b = true ∧ a ≠ b

instance : Std.Antisymm Before := ⟨fun _ _ h₁ h₂ => le_antisymm h₁.1 h₂.1⟩

instance : Std.Irrefl Before := ⟨fun _ h => h.2 rfl⟩

/-- Two lists in document order with the same nodes are the same. -/
theorem eq_of_pairwise {ns ms : List Node} (hn : ns.Pairwise Before) (hm : ms.Pairwise Before)
    (h : ∀ n, n ∈ ns ↔ n ∈ ms) : ns = ms := by
  have hnodup : ns.Nodup := hn.imp fun hab => hab.2
  have hnodup' : ms.Nodup := hm.imp fun hab => hab.2
  exact ((List.perm_ext_iff_of_nodup hnodup hnodup').mpr h).eq_of_pairwise' hn hm

/-! ## Putting nodes in order -/

theorem mem_dropRepeated {n : Node} {ns : List Node} : n ∈ dropRepeated ns ↔ n ∈ ns := by
  induction ns using dropRepeated.induct with
  | case1 a r ih => simp [dropRepeated, ih]
  | case2 a b r h ih => simp [dropRepeated, ih, h]
  | case3 r h => rw [dropRepeated]; exact h

theorem pairwise_dropRepeated {ns : List Node} (h : ns.Pairwise fun a b => a.le b = true) :
    (dropRepeated ns).Pairwise Before := by
  induction ns using dropRepeated.induct with
  | case1 a r ih =>
      rw [dropRepeated, if_pos rfl]
      exact ih (List.pairwise_cons.mp h).2
  | case2 a b r hab ih =>
      rw [dropRepeated, if_neg hab, List.pairwise_cons]
      obtain ⟨ha, hr⟩ := List.pairwise_cons.mp h
      refine ⟨fun c hc => ?_, ih hr⟩
      have hac : a.le c = true := ha c (mem_dropRepeated.mp hc)
      refine ⟨hac, ?_⟩
      rintro rfl
      -- a node that comes again later is also the next one
      rcases List.mem_cons.mp (mem_dropRepeated.mp hc) with hb | hb
      · exact hab hb
      · exact hab (le_antisymm (ha b List.mem_cons_self) ((List.pairwise_cons.mp hr).1 a hb))
  | case3 r hr =>
      match r, hr with
      | [], _ => rw [dropRepeated] <;> simp
      | [a], _ => rw [dropRepeated] <;> simp
      | a :: b :: r, hr => exact (hr a b r rfl).elim

/-- Nodes in document order stand in front of those that follow. -/
theorem pairwise_inOrder (ns : List Node) : (inOrder ns).Pairwise Before :=
  pairwise_dropRepeated (List.pairwise_mergeSort le_trans le_total ns)

@[simp] theorem mem_inOrder {n : Node} {ns : List Node} : n ∈ inOrder ns ↔ n ∈ ns := by
  rw [inOrder, mem_dropRepeated]
  exact (List.mergeSort_perm ns le).mem_iff

end Node

end Harvest.XPath
