import Harvest.Proofs.Detach
import Harvest.Proofs.Markup.Outline
import Harvest.Proofs.XPath.Eval

/-!
# What a selector finds

What the matches of a selector aim at stands in document order, whatever the selector is.
-/

namespace Harvest

open Markup (Document Outline Content Label Attribute Entry Target Language)
open XPath (Node)

/-! ## The nodes of an outline -/

namespace XPath.Node

/-- The nodes of an outline that can be removed, in document order. -/
def all (o : Outline) : List Node :=
  (List.range o.entries.size).flatMap fun i =>
    .entry i :: (List.range (attributesOf o i).length).map (.attr i)

/-- What the match of a node aims at. -/
def target? (o : Outline) (n : Node) : Option Target := (Match.ofNode? o n).bind Match.target?

theorem pairwise_all (o : Outline) : (all o).Pairwise Before := by
  refine List.pairwise_flatMap.mpr ⟨fun i _ => ?_, ?_⟩
  · refine List.pairwise_cons.mpr ⟨?_, ?_⟩
    · intro n hn
      obtain ⟨k, _, rfl⟩ := List.mem_map.mp hn
      exact ⟨le_iff.mpr (by simp [key]), by simp⟩
    · refine List.pairwise_map.mpr (List.pairwise_lt_range.imp fun {k l} hkl => ?_)
      exact ⟨le_iff.mpr (by simp [key]; omega), by simp; omega⟩
  · refine List.pairwise_lt_range.imp fun {i j} hij n hn m hm => ?_
    have hn' : n.key.1 = i + 1 := by
      rcases List.mem_cons.mp hn with rfl | hn
      · rfl
      · obtain ⟨k, _, rfl⟩ := List.mem_map.mp hn
        rfl
    have hm' : m.key.1 = j + 1 := by
      rcases List.mem_cons.mp hm with rfl | hm
      · rfl
      · obtain ⟨k, _, rfl⟩ := List.mem_map.mp hm
        rfl
    refine ⟨le_iff.mpr (Or.inl (by omega)), ?_⟩
    rintro rfl
    omega

theorem lt_size_of_item? {o : Outline} {i : Nat} {x : Markup.Item} (h : o.item? i = some x) :
    i < o.entries.size := by
  rw [Outline.item?_eq_some] at h
  have := (List.getElem?_eq_some_iff.mp h).1
  simpa using this

/-- A node that can be removed is one of those of the outline. -/
theorem mem_all_of_target? {o : Outline} {n : Node} {t : Target} (h : n.target? o = some t) :
    n ∈ all o := by
  obtain ⟨m, hm, ht⟩ := Option.bind_eq_some_iff.mp h
  simp only [all, List.mem_flatMap, List.mem_range]
  cases n with
  | document => simp [Match.ofNode?] at hm
  | entry i =>
      refine ⟨i, ?_, List.mem_cons_self⟩
      cases hx : o.item? i with
      | none => simp [Match.ofNode?, hx] at hm
      | some x => exact lt_size_of_item? hx
  | space i k =>
      obtain ⟨p, _, rfl⟩ := Option.map_eq_some_iff.mp hm
      simp [Match.target?] at ht
  | attr i k =>
      simp only [Match.ofNode?] at hm
      split at hm
      · rename_i id l a hx ha
        refine ⟨i, lt_size_of_item? hx, List.mem_cons_of_mem _ (List.mem_map.mpr ⟨k, ?_, rfl⟩)⟩
        exact List.mem_range.mpr (List.getElem?_eq_some_iff.mp ha).1
      · simp at hm

/-- The list over the places of a list is the list itself. -/
theorem flatMap_range {α β : Type} (xs : List α) (f : α → List β) (g : Nat → List β)
    (h : ∀ i x, xs[i]? = some x → g i = f x) : (List.range xs.length).flatMap g = xs.flatMap f := by
  induction xs generalizing g with
  | nil => rfl
  | cons x xs ih =>
      rw [List.length_cons, List.range_succ_eq_map, List.flatMap_cons, List.flatMap_cons,
        List.flatMap_map, h 0 x rfl]
      rw [ih (fun i => g (i + 1)) fun i y hy => h (i + 1) y (by simpa using hy)]

theorem target?_entry {o : Outline} {i : Nat} {x : Markup.Item} (h : o.item? i = some x) :
    (entry i).target? o = x.target? := by
  simp only [target?, Match.ofNode?, h]
  cases x with
  | node id l => rfl
  | text s place => cases place <;> rfl

theorem target?_attr {o : Outline} {i k id : Nat} {l : Label} {a : Attribute}
    (h : o.item? i = some (.node id l)) (ha : l.attributes[k]? = some a) :
    (attr i k).target? o = some (.attr id a.name.expanded) := by
  have hk : (attr i k).attribute? o = some a := by
    simpa [attribute?, attributesOf, Outline.label?, h] using ha
  simp [target?, Match.ofNode?, h, hk, Match.target?]

/-- What can be removed of an entry. -/
theorem targets_of_item? {o : Outline} {i : Nat} {x : Markup.Item} (h : o.item? i = some x) :
    (entry i :: (List.range (attributesOf o i).length).map (attr i)).filterMap (target? o) =
      x.targets := by
  cases x with
  | text s place =>
      have hnone : attributesOf o i = [] := by simp [attributesOf, Outline.label?, h]
      cases place <;> simp [hnone, target?_entry h, Markup.Item.target?, Markup.Item.targets]
  | node id l =>
      have hattrs : attributesOf o i = l.attributes := by
        simp [attributesOf, Outline.label?, h]
      rw [List.filterMap_cons, target?_entry h, hattrs, List.filterMap_map]
      simp only [Markup.Item.target?, Markup.Item.targets, Label.targets, List.cons.injEq, true_and]
      rw [← List.flatMap_pure_eq_map, ← flatMap_range l.attributes _ fun k =>
        ((attr i k).target? o).toList]
      · rw [List.filterMap_eq_flatMap_toList]
        rfl
      · intro k a hk
        rw [target?_attr h hk]
        rfl

/-- All that can be removed from a document is removed with the nodes of its outline, in order. -/
theorem filterMap_target?_all (o : Outline) :
    (all o).filterMap (target? o) =
      (o.entries.toList.map Entry.item).flatMap Markup.Item.targets := by
  have hlen : o.entries.size = (o.entries.toList.map Entry.item).length := by simp
  rw [all, List.filterMap_flatMap, hlen]
  exact flatMap_range _ _ _ fun i x hx => targets_of_item? (Outline.item?_eq_some.mpr hx)

/-- What nodes in document order aim at stands in document order. -/
theorem sublist_targets {d : Document} {ns : List Node} (h : ns.Pairwise Before) :
    (ns.filterMap (target? (.ofDocument d))).Sublist (d.trees.flatMap Content.targets) := by
  let o := Outline.ofDocument d
  let ms := ns.filter fun n => (n.target? o).isSome
  have hms : ms.Pairwise Before := h.filter _
  have hsub : ms ⊆ all o := by
    intro n hn
    obtain ⟨t, ht⟩ := Option.isSome_iff_exists.mp (List.mem_filter.mp hn).2
    exact mem_all_of_target? ht
  have hnodup : ms.Nodup := hms.imp fun hab => hab.2
  have hall : ms.Sublist (all o) := List.sublist_of_subperm_of_pairwise
    (List.subperm_of_subset hnodup hsub) hms (pairwise_all o)
  have hfilter : ns.filterMap (target? o) = ms.filterMap (target? o) := by
    simp only [ms, List.filterMap_filter]
    refine List.filterMap_congr fun n _ => ?_
    cases n.target? o <;> rfl
  rw [← Outline.flatMap_targets_ofDocument, ← filterMap_target?_all]
  change (ns.filterMap (target? o)).Sublist ((all o).filterMap (target? o))
  rw [hfilter]
  exact hall.filterMap _

end XPath.Node

/-! ## The matches of a selector -/

namespace Match

theorem targets_ofValue {d : Document} {v : XPath.Value} (h : v.Ordered) :
    (targets (ofValue (.ofDocument d) v)).Sublist (d.trees.flatMap Content.targets) := by
  cases v with
  | nodes ns =>
      have hs := XPath.Node.sublist_targets (d := d) h
      rwa [targets, ofValue, List.filterMap_filterMap]
  | boolean b => exact List.nil_sublist _
  | number x => exact List.nil_sublist _
  | text s => exact List.nil_sublist _

/-- What the matches of a selector aim at stands in document order, and the document keeps the trees
that it had. -/
theorem targets_of_select {d d₁ : Document} {language : Language} {context : Nat} {query : XPath}
    {found : List Match} (h : d.select language context query = .ok (found, d₁)) :
    d.trees <+: d₁.trees ∧ (targets found).Sublist (d₁.trees.flatMap Content.targets) := by
  unfold Document.select at h
  split at h
  · dsimp only at h
    split at h
    · rename_i hrun
      simp only [Except.ok.injEq, Prod.mk.injEq] at h
      obtain ⟨rfl, rfl⟩ := h
      obtain ⟨hv, hs⟩ := (XPath.gives_eval _ _).of_ok hrun
      have ho := hs.outline rfl
      rw [ho]
      exact ⟨hs.trees, targets_ofValue hv⟩
    · simp at h
  · simp at h
  · simp only [Except.ok.injEq, Prod.mk.injEq] at h
    obtain ⟨rfl, rfl⟩ := h
    exact ⟨List.prefix_rfl, List.nil_sublist _⟩

end Match

end Harvest
