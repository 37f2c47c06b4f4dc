import Harvest.Proofs.Markup.Removal
import Mathlib.Data.List.Basic

/-!
# Outlines and targets

The entries of an outline stand for what can be removed from a document, in the same order.  Every
entry either stands outside of all nodes or inside the element that it names as what it stands in.
-/

namespace Harvest.Markup

/-- What of an item can be removed from a document; a text outside of all nodes cannot. -/
def Item.targets : Item → List Target
  | .node id l => .node id :: l.targets id
  | .text _ (some place) => [.text place]
  | .text _ none => []

/-- What an item itself is as a target. -/
def Item.target? : Item → Option Target
  | .node id _ => some (.node id)
  | .text _ (some place) => some (.text place)
  | .text _ none => none

/-- The item of a text, if it is one. -/
def textItems (s : String) (place : Option TextPlace) : List Item :=
  if s.isEmpty then [] else [.text s place]

/-- The targets of the leading text of a content, where it has a place. -/
def leadingTargets (place : Option TextPlace) (s : String) : List Target :=
  match place with
  | some place => Content.textTargets place s
  | none => []

namespace Content

/-- The items of a content in document order, where its leading text may have a place. -/
def items (place : Option TextPlace) : Content → List Item
  | text s => textItems s place
  | node before id l inner rest =>
    textItems before place ++ .node id l ::
      (inner.items (some (.inside id)) ++ rest.items (some (.behind id)))

end Content

/-! ## Entries and items -/

theorem map_item_textEntry (s : String) (place : Option TextPlace) (parent : Option Nat)
    (start : Nat) : (textEntry s place parent start).map Entry.item = textItems s place := by
  unfold textEntry textItems
  split <;> rfl

theorem Content.map_item_entries (c : Content) (parent : Option Nat) (place : Option TextPlace)
    (start : Nat) : (c.entries parent place start).map Entry.item = c.items place := by
  induction c generalizing parent place start with
  | text s => exact map_item_textEntry s place parent start
  | node before id l inner rest ih₁ ih₂ =>
      simp [Content.entries, Content.items, map_item_textEntry, ih₁, ih₂]

theorem mem_textItems {s v : String} {t place : Option TextPlace}
    (h : .text s t ∈ textItems v place) : s = v ∧ t = place ∧ v ≠ "" := by
  unfold textItems at h
  split at h
  · simp at h
  · rename_i hv
    obtain ⟨rfl, rfl⟩ : s = v ∧ t = place := by simpa using h
    exact ⟨rfl, rfl, by simpa using hv⟩

/-- Every text has a place but the leading one. -/
theorem Content.exists_place {c : Content} {place t : Option TextPlace} {s : String}
    (h : .text s t ∈ c.items place) (hp : place = none → c.leading = "") :
    ∃ p, t = some p := by
  induction c generalizing place with
  | text v =>
      obtain ⟨rfl, rfl, hs⟩ := mem_textItems h
      exact Option.ne_none_iff_exists'.mp fun ht => hs (hp ht)
  | node before id l inner rest ih₁ ih₂ =>
      simp only [Content.items, List.mem_append, List.mem_cons, reduceCtorEq, false_or] at h
      rcases h with h | h | h
      · obtain ⟨rfl, rfl, hs⟩ := mem_textItems h
        exact Option.ne_none_iff_exists'.mp fun ht => hs (hp ht)
      · exact ih₁ h (by simp)
      · exact ih₂ h (by simp)

theorem flatMap_targets_textItems (s : String) (place : Option TextPlace) :
    (textItems s place).flatMap Item.targets = leadingTargets place s := by
  unfold textItems leadingTargets Content.textTargets
  cases place <;> split <;> simp [Item.targets]

theorem Content.flatMap_targets_items (c : Content) (place : Option TextPlace) :
    (c.items place).flatMap Item.targets = leadingTargets place c.leading ++ c.targets := by
  induction c generalizing place with
  | text s => simp [Content.items, flatMap_targets_textItems, Content.targets]
  | node before id l inner rest ih₁ ih₂ =>
      simp [Content.items, flatMap_targets_textItems, Content.targets, ih₁, ih₂, Item.targets,
        leadingTargets]

namespace Outline

theorem map_item_addTree (o : Outline) (c : Content) :
    (o.addTree c).entries.toList.map Entry.item =
      o.entries.toList.map Entry.item ++ c.items none := by
  simp [addTree, Content.map_item_entries]

theorem map_item_foldl_addTree (o : Outline) (trees : List Content) :
    (trees.foldl addTree o).entries.toList.map Entry.item =
      o.entries.toList.map Entry.item ++ trees.flatMap (Content.items none) := by
  induction trees generalizing o with
  | nil => simp
  | cons c cs ih => simp [ih, map_item_addTree]

/-- The items of an outline are those of the trees one behind the other. -/
theorem map_item_ofDocument (d : Document) :
    (ofDocument d).entries.toList.map Entry.item = d.trees.flatMap (Content.items none) := by
  rw [ofDocument, map_item_foldl_addTree]
  simp

/-- What can be removed from the trees of a document stands in the order of its outline. -/
theorem flatMap_targets_ofDocument (d : Document) :
    ((ofDocument d).entries.toList.map Entry.item).flatMap Item.targets =
      d.trees.flatMap Content.targets := by
  rw [map_item_ofDocument, List.flatMap_assoc]
  congr 1
  funext c
  rw [Content.flatMap_targets_items]
  rfl

theorem item?_eq_some {o : Outline} {i : Nat} {x : Item} :
    o.item? i = some x ↔ (o.entries.toList.map Entry.item)[i]? = some x := by
  simp [item?]

end Outline

/-! ## Places of nodes -/

/-- The identity of an item that is a node. -/
def Item.id? : Item → Option Nat
  | .node id _ => some id
  | .text _ _ => none

theorem Content.filterMap_id?_items (c : Content) (place : Option TextPlace) :
    (c.items place).filterMap Item.id? = c.ids := by
  have htext : ∀ (s : String) (place : Option TextPlace),
      (textItems s place).filterMap Item.id? = [] := by
    intro s place
    unfold textItems
    split <;> rfl
  induction c generalizing place with
  | text s => exact htext s place
  | node before id l inner rest ih₁ ih₂ => simp [Content.items, htext, ih₁, ih₂, Item.id?]

theorem Content.mem_ids_of_items {c : Content} {place : Option TextPlace} {id : Nat} {l : Label}
    (h : .node id l ∈ c.items place) : id ∈ c.ids := by
  rw [← c.filterMap_id?_items place]
  exact List.mem_filterMap.mpr ⟨_, h, rfl⟩

/-- No two items are the same node where no identity comes twice. -/
theorem index_unique {xs : List Item} (hn : (xs.filterMap Item.id?).Nodup) {i j id : Nat}
    {l l' : Label} (hi : xs[i]? = some (.node id l)) (hj : xs[j]? = some (.node id l')) :
    i = j := by
  rw [List.Nodup, List.pairwise_filterMap, List.pairwise_iff_getElem] at hn
  obtain ⟨hi', hi⟩ := List.getElem?_eq_some_iff.mp hi
  obtain ⟨hj', hj⟩ := List.getElem?_eq_some_iff.mp hj
  rcases Nat.lt_trichotomy i j with h | h | h
  · exact absurd rfl (hn i j hi' hj' h id (by rw [hi]; rfl) id (by rw [hj]; rfl))
  · exact h
  · exact absurd rfl (hn j i hj' hi' h id (by rw [hj]; rfl) id (by rw [hi]; rfl))

/-- A node is an item of a content with one label only. -/
theorem Content.label_unique {c : Content} (hn : c.ids.Nodup) {place : Option TextPlace} {id : Nat}
    {l l' : Label} (hl : .node id l ∈ c.items place) (hl' : .node id l' ∈ c.items place) :
    l = l' := by
  obtain ⟨i, hi⟩ := List.getElem?_of_mem hl
  obtain ⟨j, hj⟩ := List.getElem?_of_mem hl'
  have hij : i = j := index_unique (by rw [filterMap_id?_items]; exact hn) hi hj
  subst hij
  simpa using hi.symm.trans hj

/-- No two places in the outline of a document have the same node. -/
theorem Outline.place_unique {d : Document} {i j id : Nat} {l l' : Label}
    (hi : (ofDocument d).item? i = some (.node id l))
    (hj : (ofDocument d).item? j = some (.node id l')) : i = j := by
  rw [item?_eq_some, map_item_ofDocument] at hi hj
  refine index_unique ?_ hi hj
  have hids : (d.trees.flatMap (Content.items none)).filterMap Item.id? = idsOf d.trees := by
    rw [List.filterMap_flatMap, idsOf]
    congr 1
    funext c
    exact c.filterMap_id?_items none
  rw [hids]
  exact d.distinct

end Harvest.Markup
