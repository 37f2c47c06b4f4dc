import Harvest.Markup.Outline

/-!
# Removing one thing after the other

What a match aims at in a document is a node, the attributes of a name, or the text at a place.
Removing such things one by one, in document order, leaves what a single walk through the content
leaves.  The walk carries the text that comes to stand in front: the text behind a removed node is
joined to it, whether it was to be removed or not.
-/

namespace Harvest.Markup

/-- What can be removed from a document: a node, the attributes of a name that an element has, or
the text at a place. -/
inductive Target
  | node (id : Nat)
  | attr (owner : Nat) (name : String)
  | text (place : TextPlace)
deriving DecidableEq, Repr

namespace Target

/-- The node by which a target is found. -/
def owner : Target → Nat
  | node id => id
  | attr id _ => id
  | text (.inside id) => id
  | text (.behind id) => id

@[simp, grind =] theorem owner_node (id : Nat) : (node id).owner = id := rfl

@[simp, grind =] theorem owner_attr (id : Nat) (name : String) : (attr id name).owner = id := rfl

@[simp, grind =] theorem owner_inside (id : Nat) : (text (.inside id)).owner = id := rfl

@[simp, grind =] theorem owner_behind (id : Nat) : (text (.behind id)).owner = id := rfl

end Target

/-- The label without the attributes that are chosen. -/
def Label.without (chosen : Target → Bool) (id : Nat) : Label → Label
  | .element n as ds => .element n (as.filter fun a => !chosen (.attr id a.name.expanded)) ds
  | l => l

/-- The targets that the attributes of a label are. -/
def Label.targets (id : Nat) (l : Label) : List Target :=
  l.attributes.map fun a => .attr id a.name.expanded

namespace Content

/-- The content without a target, which may be any of its nodes. -/
def remove (c : Content) : Target → Content
  | .node i => ((c.take? i).map Prod.snd).getD c
  | .attr i name => c.relabel i (·.dropAttribute name)
  | .text (.inside i) => c.clearText i
  | .text (.behind i) => c.clearTail i

/-- The content without a target, where a node is removed only from inside another one. -/
def removeInside (c : Content) : Target → Content
  | .node i => ((c.takeInside? i).map Prod.snd).getD c
  | t => c.remove t

/-- The target that a text is; an empty text is none. -/
def textTargets (place : TextPlace) (s : String) : List Target :=
  if s.isEmpty then [] else [.text place]

/-- All targets of the content in document order, its leading text excepted. -/
def targets : Content → List Target
  | text _ => []
  | node _ id l inner rest =>
    .node id :: (l.targets id ++ ((textTargets (.inside id) inner.leading ++ inner.targets) ++
      (textTargets (.behind id) rest.leading ++ rest.targets)))

/-- A text, or no text where it is chosen. -/
def keptText (chosen : Target → Bool) (place : TextPlace) (s : String) : String :=
  if chosen (.text place) then "" else s

/-- The content without what is chosen, with a text in front of it.  The text behind a removed node
joins that text even if it is chosen itself. -/
def cut (chosen : Target → Bool) (front : String) : Content → Content
  | text _ => text front
  | node _ id l inner rest =>
    if chosen (.node id) then rest.cut chosen (front ++ rest.leading)
    else node front id (l.without chosen id)
      (inner.cut chosen (keptText chosen (.inside id) inner.leading))
      (rest.cut chosen (keptText chosen (.behind id) rest.leading))

/-- The content without what is chosen, where the outermost nodes stay. -/
def cutInside (chosen : Target → Bool) (front : String) : Content → Content
  | text _ => text front
  | node _ id l inner rest =>
    node front id (l.without chosen id)
      (inner.cut chosen (keptText chosen (.inside id) inner.leading))
      (rest.cutInside chosen (keptText chosen (.behind id) rest.leading))

/-! ## Leading texts -/

@[simp] theorem leading_text (s : String) : (text s).leading = s := rfl

@[simp] theorem leading_node (before : String) (id : Nat) (l : Label) (inner rest : Content) :
    (node before id l inner rest).leading = before := rfl

@[simp] theorem leading_setLeading (s : String) (c : Content) : (c.setLeading s).leading = s := by
  cases c <;> rfl

@[simp] theorem setLeading_setLeading (s t : String) (c : Content) :
    (c.setLeading s).setLeading t = c.setLeading t := by
  cases c <;> rfl

@[simp] theorem setLeading_leading (c : Content) : c.setLeading c.leading = c := by
  cases c <;> rfl

@[simp] theorem leading_cutInside (chosen : Target → Bool) (front : String) (c : Content) :
    (c.cutInside chosen front).leading = front := by
  cases c <;> rfl

/-! ## Targets -/

theorem owner_mem_ids {c : Content} {t : Target} (h : t ∈ c.targets) : t.owner ∈ c.ids := by
  induction c with
  | text s => simp [targets] at h
  | node before id l inner rest ih₁ ih₂ =>
      simp only [targets, Label.targets, textTargets, List.mem_cons, List.mem_append,
        List.mem_map] at h
      rw [ids_node, List.mem_cons, List.mem_append]
      rcases h with rfl | ⟨a, _, rfl⟩ | (h | h) | (h | h)
      · exact Or.inl rfl
      · exact Or.inl rfl
      · exact Or.inl (by split at h <;> simp_all)
      · exact Or.inr (Or.inl (ih₁ h))
      · exact Or.inl (by split at h <;> simp_all)
      · exact Or.inr (Or.inr (ih₂ h))

theorem without_congr {f g : Target → Bool} {id : Nat} (h : ∀ t : Target, t.owner = id → f t = g t)
    (l : Label) : l.without f id = l.without g id := by
  cases l with
  | element n as ds =>
      have hf : ∀ a : Attribute, f (.attr id a.name.expanded) = g (.attr id a.name.expanded) :=
        fun a => h _ rfl
      simp [Label.without, hf]
  | comment value => rfl
  | instruction target value => rfl
  | entity name value => rfl

theorem cut_congr {f g : Target → Bool} {c : Content} (front : String)
    (h : ∀ t : Target, t.owner ∈ c.ids → f t = g t) : c.cut f front = c.cut g front := by
  induction c generalizing front with
  | text s => rfl
  | node before id l inner rest ih₁ ih₂ =>
      have hid : ∀ t : Target, t.owner = id → f t = g t := fun t ht => h t (by simp [ht])
      have hinner : ∀ t : Target, t.owner ∈ inner.ids → f t = g t := fun t ht => h t (by simp [ht])
      have hrest : ∀ t : Target, t.owner ∈ rest.ids → f t = g t := fun t ht => h t (by simp [ht])
      simp only [cut, keptText, hid (.node id) rfl, hid (.text (.inside id)) rfl,
        hid (.text (.behind id)) rfl, without_congr hid, ih₁ _ hinner, ih₂ _ hrest]

theorem cutInside_congr {f g : Target → Bool} {c : Content} (front : String)
    (h : ∀ t : Target, t.owner ∈ c.ids → f t = g t) :
    c.cutInside f front = c.cutInside g front := by
  induction c generalizing front with
  | text s => rfl
  | node before id l inner rest _ ih =>
      have hid : ∀ t : Target, t.owner = id → f t = g t := fun t ht => h t (by simp [ht])
      have hinner : ∀ t : Target, t.owner ∈ inner.ids → f t = g t := fun t ht => h t (by simp [ht])
      have hrest : ∀ t : Target, t.owner ∈ rest.ids → f t = g t := fun t ht => h t (by simp [ht])
      simp only [cutInside, keptText, hid (.text (.inside id)) rfl, hid (.text (.behind id)) rfl,
        without_congr hid, cut_congr _ hinner, ih _ hrest]

/-! ## What a removal reaches -/

theorem take?_eq_none {i : Nat} {c : Content} (h : i ∉ c.ids) : c.take? i = none := by
  induction c with
  | text s => rfl
  | node before id l inner rest ih₁ ih₂ =>
      simp only [ids_node, List.mem_cons, List.mem_append, not_or] at h
      simp [take?, Ne.symm h.1, ih₁ h.2.1, ih₂ h.2.2]

theorem takeInside?_eq_none {i : Nat} {c : Content} (h : i ∉ c.ids) : c.takeInside? i = none := by
  induction c with
  | text s => rfl
  | node before id l inner rest _ ih =>
      simp only [ids_node, List.mem_cons, List.mem_append, not_or] at h
      simp [takeInside?, take?_eq_none h.2.1, ih h.2.2]

theorem relabel_eq_self {i : Nat} {f : Label → Label} {c : Content} (h : i ∉ c.ids) :
    c.relabel i f = c := by
  induction c with
  | text s => rfl
  | node before id l inner rest ih₁ ih₂ =>
      simp only [ids_node, List.mem_cons, List.mem_append, not_or] at h
      simp [relabel, Ne.symm h.1, ih₁ h.2.1, ih₂ h.2.2]

theorem clearText_eq_self {i : Nat} {c : Content} (h : i ∉ c.ids) : c.clearText i = c := by
  induction c with
  | text s => rfl
  | node before id l inner rest ih₁ ih₂ =>
      simp only [ids_node, List.mem_cons, List.mem_append, not_or] at h
      simp [clearText, Ne.symm h.1, ih₁ h.2.1, ih₂ h.2.2]

theorem clearTail_eq_self {i : Nat} {c : Content} (h : i ∉ c.ids) : c.clearTail i = c := by
  induction c with
  | text s => rfl
  | node before id l inner rest ih₁ ih₂ =>
      simp only [ids_node, List.mem_cons, List.mem_append, not_or] at h
      simp [clearTail, Ne.symm h.1, ih₁ h.2.1, ih₂ h.2.2]

/-- A target whose node is not in the content is no target of it. -/
theorem remove_eq_self {c : Content} {t : Target} (h : t.owner ∉ c.ids) : c.remove t = c := by
  cases t with
  | node i =>
      have hi : c.take? i = none := take?_eq_none h
      simp [remove, hi]
  | attr i name => exact relabel_eq_self h
  | text place =>
      cases place with
      | inside i => exact clearText_eq_self h
      | behind i => exact clearTail_eq_self h

theorem removeInside_eq_self {c : Content} {t : Target} (h : t.owner ∉ c.ids) :
    c.removeInside t = c := by
  cases t with
  | node i =>
      have hi : c.takeInside? i = none := takeInside?_eq_none h
      simp [removeInside, hi]
  | attr i name => exact remove_eq_self h
  | text place => exact remove_eq_self h

theorem ids_remove_subset (c : Content) (t : Target) : (c.remove t).ids ⊆ c.ids := by
  cases t with
  | node i =>
      cases ht : c.take? i with
      | none => simp [remove, ht]
      | some p =>
          have hp := ids_of_take? ht
          simp only [remove, ht, Option.map_some, Option.getD_some]
          exact fun j hj => hp.subset (List.mem_append_right _ hj)
  | attr i name => simp [remove]
  | text place => cases place <;> simp [remove]

theorem ids_removeInside_subset (c : Content) (t : Target) : (c.removeInside t).ids ⊆ c.ids := by
  cases t with
  | node i =>
      cases ht : c.takeInside? i with
      | none => simp [removeInside, ht]
      | some p =>
          have hp := ids_of_takeInside? ht
          simp only [removeInside, ht, Option.map_some, Option.getD_some]
          exact fun j hj => hp.subset (List.mem_append_right _ hj)
  | attr i name => exact ids_remove_subset c (.attr i name)
  | text place => exact ids_remove_subset c (.text place)

theorem ids_foldl_remove_subset (c : Content) (ts : List Target) :
    (ts.foldl remove c).ids ⊆ c.ids := by
  induction ts generalizing c with
  | nil => exact List.Subset.refl _
  | cons t ts ih => exact List.Subset.trans (ih (c.remove t)) (ids_remove_subset c t)

/-- A removal inside the first node stays there. -/
theorem remove_node_inner {before : String} {id : Nat} {l : Label} {inner rest : Content}
    {t : Target} (hid : t.owner ≠ id) (hrest : t.owner ∉ rest.ids) :
    (node before id l inner rest).remove t = node before id l (inner.remove t) rest := by
  cases t with
  | node i =>
      have hi : id ≠ i := hid.symm
      have hr : rest.take? i = none := take?_eq_none hrest
      cases ht : inner.take? i <;> simp [remove, take?, hi, hr, ht]
  | attr i name =>
      have hi : id ≠ i := hid.symm
      have hr : i ∉ rest.ids := hrest
      simp [remove, relabel, hi, relabel_eq_self hr]
  | text place =>
      cases place with
      | inside i =>
          have hi : id ≠ i := hid.symm
          have hr : i ∉ rest.ids := hrest
          simp [remove, clearText, hi, clearText_eq_self hr]
      | behind i =>
          have hi : id ≠ i := hid.symm
          have hr : i ∉ rest.ids := hrest
          simp [remove, clearTail, hi, clearTail_eq_self hr]

/-- A removal behind the first node stays there. -/
theorem remove_node_rest {before : String} {id : Nat} {l : Label} {inner rest : Content}
    {t : Target} (hid : t.owner ≠ id) (hinner : t.owner ∉ inner.ids) :
    (node before id l inner rest).remove t = node before id l inner (rest.remove t) := by
  cases t with
  | node i =>
      have hi : id ≠ i := hid.symm
      have hr : inner.take? i = none := take?_eq_none hinner
      cases ht : rest.take? i <;> simp [remove, take?, hi, hr, ht]
  | attr i name =>
      have hi : id ≠ i := hid.symm
      have hr : i ∉ inner.ids := hinner
      simp [remove, relabel, hi, relabel_eq_self hr]
  | text place =>
      cases place with
      | inside i =>
          have hi : id ≠ i := hid.symm
          have hr : i ∉ inner.ids := hinner
          simp [remove, clearText, hi, clearText_eq_self hr]
      | behind i =>
          have hi : id ≠ i := hid.symm
          have hr : i ∉ inner.ids := hinner
          simp [remove, clearTail, hi, clearTail_eq_self hr]

theorem foldl_remove_eq_self {c : Content} {ts : List Target}
    (h : ∀ t ∈ ts, t.owner ∉ c.ids) : ts.foldl remove c = c := by
  induction ts with
  | nil => rfl
  | cons t ts ih =>
      rw [List.foldl_cons, remove_eq_self (h t List.mem_cons_self)]
      exact ih fun u hu => h u (List.mem_cons_of_mem t hu)

theorem foldl_remove_inner {before : String} {id : Nat} {l : Label} {inner rest : Content}
    {ts : List Target} (h : ∀ t ∈ ts, t.owner ≠ id ∧ t.owner ∉ rest.ids) :
    ts.foldl remove (node before id l inner rest) =
      node before id l (ts.foldl remove inner) rest := by
  induction ts generalizing inner with
  | nil => rfl
  | cons t ts ih =>
      obtain ⟨hid, hrest⟩ := h t List.mem_cons_self
      rw [List.foldl_cons, List.foldl_cons, remove_node_inner hid hrest]
      exact ih fun u hu => h u (List.mem_cons_of_mem t hu)

theorem foldl_remove_rest {before : String} {id : Nat} {l : Label} {inner rest : Content}
    {ts : List Target} (h : ∀ t ∈ ts, t.owner ≠ id ∧ t.owner ∉ inner.ids) :
    ts.foldl remove (node before id l inner rest) =
      node before id l inner (ts.foldl remove rest) := by
  induction ts generalizing rest with
  | nil => rfl
  | cons t ts ih =>
      obtain ⟨hid, hinner⟩ := h t List.mem_cons_self
      rw [List.foldl_cons, List.foldl_cons, remove_node_rest hid hinner]
      exact ih fun u hu => h u (List.mem_cons_of_mem t hu)

end Content

end Harvest.Markup
