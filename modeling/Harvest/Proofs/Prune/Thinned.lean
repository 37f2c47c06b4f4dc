import Harvest.Proofs.Prune.Elements

/-!
# Thinning

Where nodes of a kind are taken out of a document one after the other, every node is still there,
also one that stood in what was taken out, and has lost nothing but nodes of the kind.
-/

namespace Harvest

open Markup (Document Content Label idsOf nodesOf takeFrom? topsOf)

namespace Markup.Content

variable {p : Label → Bool}

/-- Two contents that are the same without the nodes of a kind, the second one with no node that the
first one has not. -/
structure Thinned (p : Label → Bool) (c c' : Content) : Prop where
  erase : c'.erase p = c.erase p
  nodes : c'.nodes ⊆ c.nodes

theorem Thinned.refl (p : Label → Bool) (c : Content) : c.Thinned p c := ⟨rfl, fun _ h => h⟩

theorem Thinned.trans {c c' c'' : Content} (h : c.Thinned p c') (h' : c'.Thinned p c'') :
    c.Thinned p c'' := ⟨h'.erase.trans h.erase, fun _ hn => h.nodes (h'.nodes hn)⟩

theorem erase_eq_self {c : Content} (h : ∀ n ∈ c.nodes, p n.2 = false) : c.erase p = c := by
  induction c with
  | text s => rfl
  | node before id l inner rest ih₁ ih₂ =>
      simp only [nodes, List.mem_cons, List.mem_append] at h
      have hl : p l = false := h (id, l) (Or.inl rfl)
      rw [erase, hl, ih₁ fun n hn => h n (Or.inr (Or.inl hn)),
        ih₂ fun n hn => h n (Or.inr (Or.inr hn))]
      rfl

/-- Taking out a node of a kind takes out nothing but nodes of the kind. -/
theorem erase_of_take? {j : Nat} {c taken left : Content}
    (hj : ∀ l, (j, l) ∈ c.nodes → p l = true) (h : c.take? j = some (taken, left)) :
    left.erase p = c.erase p := by
  induction c generalizing taken left with
  | text s => cases h
  | node before id l inner rest ih₁ ih₂ =>
      simp only [nodes, List.mem_cons, List.mem_append] at hj
      rcases take?_node h with ⟨rfl, _, rfl⟩ | ⟨inner', htake, rfl⟩ | ⟨rest', htake, rfl⟩
      · rw [erase_prepend, erase, if_pos (hj l (Or.inl rfl))]
      · rw [erase, erase, ih₁ (fun k hk => hj k (Or.inr (Or.inl hk))) htake]
      · rw [erase, erase, ih₂ (fun k hk => hj k (Or.inr (Or.inr hk))) htake]

theorem thinned_of_take? {j : Nat} {c taken left : Content}
    (hj : ∀ l, (j, l) ∈ c.nodes → p l = true) (h : c.take? j = some (taken, left)) :
    c.Thinned p left :=
  ⟨erase_of_take? hj h, fun _ hn => (nodes_of_take? h).mem_iff.mp (List.mem_append_right _ hn)⟩

@[simp] theorem find?_prepend (i : Nat) (s : String) (c : Content) :
    (c.prepend s).find? i = c.find? i := by
  cases c <;> rfl

/-- Where a node is found in a content that starts with a node. -/
theorem find?_node_iff {i id : Nat} {before : String} {l : Label} {inner rest : Content}
    {x : Label × Content} : (node before id l inner rest).find? i = some x ↔
      (id = i ∧ (l, inner) = x) ∨ (id ≠ i ∧ inner.find? i = some x) ∨
        (id ≠ i ∧ i ∉ inner.ids ∧ rest.find? i = some x) := by
  rw [find?]
  by_cases hid : id = i
  · simp [hid]
  · simp [hid, Option.or_eq_some_iff, find?_eq_none]

/-- A node is still there when another one is taken out, or stands in what was taken out. -/
theorem find?_of_take? {i j : Nat} {c taken left inner : Content} {l : Label}
    (hj : ∀ l, (j, l) ∈ c.nodes → p l = true) (h : c.take? j = some (taken, left))
    (hi : c.find? i = some (l, inner)) : taken.find? i = some (l, inner) ∨
      ∃ inner', left.find? i = some (l, inner') ∧ inner.Thinned p inner' := by
  induction c generalizing taken left with
  | text s => cases h
  | node before id k inside rest ih₁ ih₂ =>
      simp only [nodes, List.mem_cons, List.mem_append] at hj
      have hj₁ := fun k hk => hj k (Or.inr (Or.inl hk))
      have hj₂ := fun k hk => hj k (Or.inr (Or.inr hk))
      have hi := find?_node_iff.mp hi
      rcases take?_node h with ⟨rfl, rfl, rfl⟩ | ⟨inside', htake, rfl⟩ | ⟨rest', htake, rfl⟩
      · rcases hi with ⟨rfl, heq⟩ | ⟨hid, hi⟩ | ⟨_, _, hi⟩
        · exact Or.inl (find?_node_iff.mpr (Or.inl ⟨rfl, heq⟩))
        · exact Or.inl (find?_node_iff.mpr (Or.inr (Or.inl ⟨hid, hi⟩)))
        · refine Or.inr ⟨inner, ?_, .refl p inner⟩
          rw [find?_prepend, hi]
      · rcases hi with ⟨rfl, heq⟩ | ⟨hid, hi⟩ | ⟨hid, hnot, hi⟩
        · obtain ⟨rfl, rfl⟩ := Prod.mk.inj heq
          refine Or.inr ⟨inside', find?_node_iff.mpr (Or.inl ⟨rfl, rfl⟩), ?_⟩
          exact thinned_of_take? hj₁ htake
        · rcases ih₁ hj₁ htake hi with hi | ⟨inner', hi, hthin⟩
          · exact Or.inl hi
          · exact Or.inr ⟨inner', find?_node_iff.mpr (Or.inr (Or.inl ⟨hid, hi⟩)), hthin⟩
        · have hnot' : i ∉ inside'.ids := fun hmem =>
            hnot ((ids_of_take? htake).mem_iff.mp (List.mem_append_right _ hmem))
          refine Or.inr ⟨inner, ?_, .refl p inner⟩
          exact find?_node_iff.mpr (Or.inr (Or.inr ⟨hid, hnot', hi⟩))
      · rcases hi with ⟨rfl, heq⟩ | ⟨hid, hi⟩ | ⟨hid, hnot, hi⟩
        · obtain ⟨rfl, rfl⟩ := Prod.mk.inj heq
          exact Or.inr ⟨inside, find?_node_iff.mpr (Or.inl ⟨rfl, rfl⟩), .refl p inside⟩
        · refine Or.inr ⟨inner, ?_, .refl p inner⟩
          exact find?_node_iff.mpr (Or.inr (Or.inl ⟨hid, hi⟩))
        · rcases ih₂ hj₂ htake hi with hi | ⟨inner', hi, hthin⟩
          · exact Or.inl hi
          · refine Or.inr ⟨inner', ?_, hthin⟩
            exact find?_node_iff.mpr (Or.inr (Or.inr ⟨hid, hnot, hi⟩))

/-- The same for a node that is taken out only from inside another one. -/
theorem find?_of_takeInside? {i j : Nat} {c taken left inner : Content} {l : Label}
    (hn : c.ids.Nodup) (hj : ∀ l, (j, l) ∈ c.nodes → p l = true)
    (h : c.takeInside? j = some (taken, left)) (hi : c.find? i = some (l, inner)) :
    taken.find? i = some (l, inner) ∨
      ∃ inner', left.find? i = some (l, inner') ∧ inner.Thinned p inner' := by
  have htop : j ∉ c.topIds := by
    intro htop
    rw [takeInside?_top hn htop] at h
    cases h
  rw [takeInside?_eq_take? htop] at h
  exact find?_of_take? hj h hi

theorem ids_subset_of_nodes {c c' : Content} (h : c'.nodes ⊆ c.nodes) : c'.ids ⊆ c.ids := by
  rw [ids_eq_map_nodes, ids_eq_map_nodes]
  exact List.map_subset _ h

/-- What is inside a node that is found are nodes of the content. -/
theorem nodes_of_find? {c inner : Content} {i : Nat} {l : Label} (h : c.find? i = some (l, inner)) :
    inner.nodes ⊆ c.nodes := by
  induction c with
  | text s => cases h
  | node before id k inside rest ih₁ ih₂ =>
      intro n hn
      rw [nodes, List.mem_cons, List.mem_append]
      rcases find?_node_iff.mp h with ⟨_, heq⟩ | ⟨_, h⟩ | ⟨_, _, h⟩
      · obtain ⟨_, rfl⟩ := Prod.mk.inj heq
        exact Or.inr (Or.inl hn)
      · exact Or.inr (Or.inl (ih₁ h hn))
      · exact Or.inr (Or.inr (ih₂ h hn))

/-- What is inside a node that is found is no outermost node. -/
theorem notMem_topIds_of_find? {c inner : Content} (hn : c.ids.Nodup) {i j : Nat} {l : Label}
    (h : c.find? i = some (l, inner)) (hj : j ∈ inner.ids) : j ∉ c.topIds := by
  induction c with
  | text s => cases h
  | node before id k inside rest _ ih =>
      rw [ids_node, List.nodup_cons, List.mem_append, not_or, List.nodup_append] at hn
      obtain ⟨⟨hid₁, hid₂⟩, _, hn₂, hdisj⟩ := hn
      have hinside : j ∈ inside.ids → j ∉ id :: rest.topIds := by
        intro hj htop
        rcases List.mem_cons.mp htop with rfl | htop
        · exact hid₁ hj
        · exact hdisj j hj j (topIds_subset_ids rest htop) rfl
      rcases find?_node_iff.mp h with ⟨_, heq⟩ | ⟨_, hi⟩ | ⟨_, _, hi⟩
      · obtain ⟨_, rfl⟩ := Prod.mk.inj heq
        exact hinside hj
      · exact hinside (ids_subset_of_nodes (nodes_of_find? hi) hj)
      · have hrest := ids_subset_of_nodes (nodes_of_find? hi) hj
        intro htop
        rcases List.mem_cons.mp htop with rfl | htop
        · exact hid₂ hrest
        · exact ih hn₂ hi htop

end Markup.Content

/-! ## Several trees -/

namespace Markup

variable {p : Label → Bool} {trees left : List Content} {c taken inner : Content} {i j : Nat}
  {l : Label}

/-- Where no two nodes share an identity, no node stands in two trees. -/
theorem tree_unique {e : Content} (hn : (idsOf trees).Nodup) (hc : c ∈ trees) (he : e ∈ trees)
    (hic : i ∈ c.ids) (hie : i ∈ e.ids) : c = e := by
  induction trees with
  | nil => cases hc
  | cons t ts ih =>
      rw [idsOf_cons, List.nodup_append] at hn
      obtain ⟨_, hts, hdisj⟩ := hn
      rcases List.mem_cons.mp hc with rfl | hct <;> rcases List.mem_cons.mp he with rfl | het
      · rfl
      · exact absurd rfl (hdisj i hic i (mem_idsOf.mpr ⟨e, het, hie⟩))
      · exact absurd rfl (hdisj i hie i (mem_idsOf.mpr ⟨c, hct, hic⟩))
      · exact ih hts hct het

theorem findSome?_of_mem (hn : (idsOf trees).Nodup) (hc : c ∈ trees) {x : Label × Content}
    (h : c.find? i = some x) : trees.findSome? (·.find? i) = some x := by
  cases hf : trees.findSome? (·.find? i) with
  | none =>
      have hnone := List.findSome?_eq_none_iff.mp hf c hc
      rw [h] at hnone
      cases hnone
  | some y =>
      obtain ⟨e, he, hy⟩ := List.exists_of_findSome?_eq_some hf
      obtain rfl := tree_unique hn hc he (Content.mem_ids_of_find? h) (Content.mem_ids_of_find? hy)
      rw [← hy, h]

/-- When a node of a kind is taken out of trees, every node is still in one of them, or in what was
taken out, and has lost nothing but nodes of the kind. -/
theorem exists_find?_of_takeFrom? (hn : (idsOf trees).Nodup)
    (hj : ∀ l, (j, l) ∈ nodesOf trees → p l = true)
    (h : takeFrom? j trees = some (taken, left)) (hc : c ∈ trees)
    (hi : c.find? i = some (l, inner)) : ∃ c' ∈ left ++ [taken], ∃ inner',
      c'.find? i = some (l, inner') ∧ inner.Thinned p inner' := by
  induction trees generalizing left with
  | nil => cases hc
  | cons e es ih =>
      have hne := nodup_of_mem hn List.mem_cons_self
      rw [idsOf_cons, List.nodup_append] at hn
      have hj₁ : ∀ l, (j, l) ∈ e.nodes → p l = true := fun k hk => hj k (List.mem_append_left _ hk)
      have hj₂ : ∀ l, (j, l) ∈ nodesOf es → p l = true := fun k hk =>
        hj k (List.mem_append_right _ hk)
      rcases takeFrom?_cons h with ⟨e', htake, rfl⟩ | ⟨_, es', htake, rfl⟩
      · rcases List.mem_cons.mp hc with rfl | hc
        · rcases Content.find?_of_takeInside? hne hj₁ htake hi with hi | ⟨inner', hi, hthin⟩
          · exact ⟨taken, by simp, inner, hi, .refl p inner⟩
          · exact ⟨e', by simp, inner', hi, hthin⟩
        · exact ⟨c, by simp [hc], inner, hi, .refl p inner⟩
      · rcases List.mem_cons.mp hc with rfl | hc
        · exact ⟨c, by simp, inner, hi, .refl p inner⟩
        · obtain ⟨c', hc', hfind⟩ := ih hn.2.1 hj₂ htake hc
          exact ⟨c', List.mem_cons_of_mem e hc', hfind⟩

end Markup

/-! ## Documents -/

namespace Markup.Document

variable {p : Label → Bool} {d d' d'' : Document} {i j : Nat} {l : Label} {inner : Content}

/-- Every node of a document is one of another document, where it is the same without the nodes of
a kind, and has no further nodes inside. -/
structure Thinned (p : Label → Bool) (d d' : Document) : Prop where
  nodes : (nodesOf d'.trees).Perm (nodesOf d.trees)
  find? : ∀ {i l inner}, d.find? i = some (l, inner) →
    ∃ inner', d'.find? i = some (l, inner') ∧ inner.Thinned p inner'

theorem Thinned.refl (p : Label → Bool) (d : Document) : d.Thinned p d :=
  ⟨.refl _, fun {_ _ inner} h => ⟨inner, h, .refl p inner⟩⟩

theorem Thinned.trans (h : d.Thinned p d') (h' : d'.Thinned p d'') : d.Thinned p d'' := by
  refine ⟨h'.nodes.trans h.nodes, fun {i l inner} hi => ?_⟩
  obtain ⟨inner₁, hi₁, hthin₁⟩ := h.find? hi
  obtain ⟨inner₂, hi₂, hthin₂⟩ := h'.find? hi₁
  exact ⟨inner₂, hi₂, hthin₁.trans hthin₂⟩

/-- Detaching a node of a kind. -/
theorem thinned_of_detach? (hj : ∀ l, (j, l) ∈ nodesOf d.trees → p l = true)
    (h : d.detach? j = some d') : d.Thinned p d' := by
  obtain ⟨taken, left, htake, htrees⟩ := Match.takeFrom?_of_detach?_some h
  refine ⟨by rw [htrees]; exact nodes_of_takeFrom? htake, fun {i l inner} hi => ?_⟩
  obtain ⟨c, hc, hfind⟩ := List.exists_of_findSome?_eq_some hi
  obtain ⟨c', hc', inner', hfind', hthin⟩ :=
    exists_find?_of_takeFrom? d.distinct hj htake hc hfind
  rw [← htrees] at hc'
  exact ⟨inner', findSome?_of_mem d'.distinct hc' hfind', hthin⟩

/-- What is inside a node of a document are nodes of the document that are not outermost. -/
theorem inner_of_find? (h : d.find? i = some (l, inner)) :
    inner.nodes ⊆ nodesOf d.trees ∧ ∀ j ∈ inner.ids, j ∉ topsOf d.trees := by
  obtain ⟨c, hc, hfind⟩ := List.exists_of_findSome?_eq_some h
  refine ⟨fun n hn => List.mem_flatMap.mpr ⟨c, hc, Content.nodes_of_find? hfind hn⟩, ?_⟩
  intro j hj htop
  obtain ⟨e, he, hje⟩ := List.mem_flatMap.mp htop
  have hjc := Content.ids_subset_of_nodes (Content.nodes_of_find? hfind) hj
  obtain rfl := tree_unique d.distinct hc he hjc (Content.topIds_subset_ids e hje)
  exact Content.notMem_topIds_of_find? (nodup_of_mem d.distinct hc) hfind hj hje

end Markup.Document

namespace Match

variable {p : Label → Bool}

/-- Detaching a node of a kind leaves it outermost. -/
theorem detach_thinned {d : Document} {j : Nat} (hj : j ∈ idsOf d.trees)
    (h : ∀ l, (j, l) ∈ nodesOf d.trees → p l = true) :
    d.Thinned p (detach d (.node j)).1 ∧ topsOf d.trees ⊆ topsOf (detach d (.node j)).1.trees ∧
      j ∈ topsOf (detach d (.node j)).1.trees := by
  cases hd : d.detach? j with
  | none =>
      have htop : j ∈ topsOf d.trees := by
        by_contra htop
        obtain ⟨d', hd'⟩ := detach?_isSome hj htop
        rw [hd] at hd'
        cases hd'
      simp only [detach, hd]
      exact ⟨.refl p d, fun _ h => h, htop⟩
  | some d' =>
      obtain ⟨taken, left, htake, htrees⟩ := takeFrom?_of_detach?_some hd
      have htops : topsOf d'.trees = topsOf d.trees ++ [j] := by
        rw [htrees, Markup.topsOf_of_takeFrom? htake]
      simp only [detach, hd]
      exact ⟨Document.thinned_of_detach? h hd, by simp [htops], by simp [htops]⟩

/-- Detaching nodes of a kind one after the other leaves each of them outermost, and takes nothing
else out of any node. -/
theorem detachAll_thinned {d : Document} {ms : List Match}
    (h : ∀ m ∈ ms, ∃ j, m = .node j ∧ j ∈ idsOf d.trees ∧
      ∀ l, (j, l) ∈ nodesOf d.trees → p l = true) :
    d.Thinned p (detachAll d ms).1 ∧ topsOf d.trees ⊆ topsOf (detachAll d ms).1.trees ∧
      ∀ j, .node j ∈ ms → j ∈ topsOf (detachAll d ms).1.trees := by
  induction ms generalizing d with
  | nil => exact ⟨.refl p d, fun _ h => h, fun _ h => by cases h⟩
  | cons m ms ih =>
      obtain ⟨j, rfl, hj, hl⟩ := h m List.mem_cons_self
      obtain ⟨hthin, htops, hjtop⟩ := detach_thinned hj hl
      have hrest : ∀ m ∈ ms, ∃ k, m = .node k ∧ k ∈ idsOf (detach d (.node j)).1.trees ∧
          ∀ l, (k, l) ∈ nodesOf (detach d (.node j)).1.trees → p l = true := by
        intro m hm
        obtain ⟨k, rfl, hk, hl⟩ := h m (List.mem_cons_of_mem _ hm)
        rw [Markup.idsOf_eq_map_nodesOf] at hk ⊢
        exact ⟨k, rfl, (hthin.nodes.map Prod.fst).mem_iff.mpr hk,
          fun l hkl => hl l (hthin.nodes.mem_iff.mp hkl)⟩
      obtain ⟨hthin', htops', hall⟩ := ih hrest
      refine ⟨hthin.trans hthin', fun k hk => htops' (htops hk), fun k hk => ?_⟩
      rcases List.mem_cons.mp hk with heq | hk
      · obtain rfl : k = j := by simpa using heq
        exact htops' hjtop
      · exact hall k hk

end Match

end Harvest
