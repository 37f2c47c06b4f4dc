import Harvest.Proofs.Markup.Moved
import Harvest.Proofs.Select

/-!
# Nodes and values behind a gap

What a selector sees of a node is the same in an outline that has further trees in a gap: the
axes lead to the same nodes, the tests pass the same ones, and every function gives the same.
-/

namespace Harvest.XPath

open Markup (Outline Gap Label Attribute)

namespace Node

/-- The node in an outline with a gap. -/
def move (g : Gap) : Node → Node
  | document => document
  | entry i => entry (g.place i)
  | space i k => space (g.place i) k
  | attr i k => attr (g.place i) k

/-- The node belongs to an entry that is there. -/
def Within (size : Nat) (n : Node) : Prop := ∀ i, n.owner? = some i → i < size

variable {g : Gap}

theorem move_injective (g : Gap) : Function.Injective (move g) := by
  intro a b h
  cases a <;> cases b <;> simp_all [move]

@[simp] theorem move_inj {a b : Node} : a.move g = b.move g ↔ a = b := (move_injective g).eq_iff

@[simp] theorem owner?_move (n : Node) : (n.move g).owner? = n.owner?.map g.place := by
  cases n <;> rfl

theorem Within.mono {size size' : Nat} {n : Node} (h : n.Within size) (hle : size ≤ size') :
    n.Within size' := fun i hi => Nat.lt_of_lt_of_le (h i hi) hle

/-! ## Order -/

theorem le_move (a b : Node) : (a.move g).le (b.move g) = a.le b := by
  have hplace : ∀ {i j}, g.place i < g.place j ↔ i < j := Gap.place_lt_iff
  have hsame : ∀ {i j}, g.place i = g.place j ↔ i = j := Gap.place_inj
  rw [Bool.eq_iff_iff, le_iff, le_iff]
  cases a <;> cases b <;> simp [move, key, hplace, hsame]

theorem dropRepeated_move (ns : List Node) :
    dropRepeated (ns.map (move g)) = (dropRepeated ns).map (move g) := by
  induction ns using dropRepeated.induct with
  | case1 a r ih => simpa [dropRepeated] using ih
  | case2 a b r hab ih =>
      have hne : a.move g ≠ b.move g := fun h => hab (move_inj.mp h)
      simpa [dropRepeated, hab, hne] using ih
  | case3 r hr =>
      rcases r with _ | ⟨a, _ | ⟨b, r⟩⟩
      · simp [dropRepeated]
      · simp [dropRepeated]
      · exact (hr a b r rfl).elim

theorem map_entry_place (places : List Nat) :
    (places.map g.place).map entry = (places.map entry).map (move g) := by
  rw [List.map_map, List.map_map]
  rfl

theorem inOrder_move (ns : List Node) : inOrder (ns.map (move g)) = (inOrder ns).map (move g) := by
  have hsort : (ns.mergeSort le).map (move g) = (ns.map (move g)).mergeSort le :=
    List.map_mergeSort fun a _ b _ => (le_move a b).symm
  rw [inOrder, ← hsort, dropRepeated_move, inOrder]

section
variable {o o' : Outline} (h : o.Beside g o')

include h

/-! ## Parts and names -/

theorem spacesOf_place (i : Nat) : spacesOf o' (g.place i) = spacesOf o i := by
  rw [spacesOf, spacesOf, h.label?_place, h.declarations_place]

theorem attributesOf_place (i : Nat) : attributesOf o' (g.place i) = attributesOf o i := by
  rw [attributesOf, attributesOf, h.label?_place]

theorem attribute?_move (n : Node) : (n.move g).attribute? o' = n.attribute? o := by
  cases n with
  | attr i k => rw [move, attribute?, attribute?, attributesOf_place h]
  | _ => rfl

theorem space?_move (n : Node) : (n.move g).space? o' = n.space? o := by
  cases n with
  | space i k => rw [move, space?, space?, spacesOf_place h]
  | _ => rfl

theorem string_move (n : Node) : (n.move g).string o' = n.string o := by
  cases n with
  | document => rw [move, Node.string, Node.string, h.range_main, h.textOf_place]
  | entry i => rw [move, Node.string, Node.string, h.string_place]
  | space i k => rw [move, Node.string, Node.string, spacesOf_place h]
  | attr i k => rw [move, Node.string, Node.string, attributesOf_place h]

theorem localName_move (n : Node) : (n.move g).localName o' = n.localName o := by
  cases n with
  | document => rfl
  | entry i =>
      rw [move, localName, localName, h.label?_place]
  | space i k =>
      have hspace := space?_move h (space i k)
      rw [move] at hspace ⊢
      rw [localName, localName, hspace]
  | attr i k =>
      have hattr := attribute?_move h (attr i k)
      rw [move] at hattr ⊢
      rw [localName, localName, hattr]

theorem writtenName_move (n : Node) : (n.move g).writtenName o' = n.writtenName o := by
  have hlocal := localName_move h n
  cases n with
  | document => rfl
  | entry i =>
      rw [move] at hlocal ⊢
      rw [writtenName, writtenName, h.label?_place, hlocal]
  | space i k => exact hlocal
  | attr i k =>
      have hattr := attribute?_move h (attr i k)
      rw [move] at hattr ⊢
      rw [writtenName, writtenName, hattr]

theorem nameSpace_move (n : Node) : (n.move g).nameSpace o' = n.nameSpace o := by
  cases n with
  | document => rfl
  | entry i => rw [move, nameSpace, nameSpace, h.label?_place]
  | space i k => rfl
  | attr i k =>
      have hattr := attribute?_move h (attr i k)
      rw [move] at hattr ⊢
      rw [nameSpace, nameSpace, hattr]

/-! ## Axes -/

theorem above_place {i : Nat} (hi : i < o.entries.size) :
    above o' (g.place i) = (above o i).map (move g) := by
  have hdocument : documentAbove o' (g.place i) = (documentAbove o i).map (move g) := by
    rw [documentAbove, documentAbove, apply_ite (List.map (move g))]
    exact if_congr (h.treeOf_eq_main hi) rfl rfl
  rw [above, above, h.ancestors_place]
  cases o.ancestors i with
  | nil => rfl
  | cons p ps =>
      rw [List.map_append, ← map_entry_place, ← hdocument]
      rfl

theorem directlyAbove_place (i : Nat) :
    directlyAbove o' (g.place i) = (directlyAbove o i).move g := by
  rw [directlyAbove, directlyAbove, h.parent?_place]
  cases o.parent? i <;> rfl

theorem fromDocument_move (axis : Axis) :
    fromDocument o' axis = (fromDocument o axis).map (move g) := by
  cases axis
  case child =>
    have hchildren := h.childrenIn_place none (Outline.range o.main.1 o.main.2)
    rw [Option.map_none] at hchildren
    rw [fromDocument, fromDocument, h.range_main, hchildren, map_entry_place]
  case descendant => rw [fromDocument, fromDocument, h.range_main, map_entry_place]
  case descendantOrSelf =>
    rw [fromDocument, fromDocument, h.range_main, map_entry_place, List.map_cons]
    rfl
  all_goals rfl

theorem fromEntry_place {i : Nat} (hi : i < o.entries.size) (axis : Axis) :
    fromEntry o' (g.place i) axis = (fromEntry o i axis).map (move g) := by
  cases axis
  case ancestor => exact above_place h hi
  case ancestorOrSelf => exact congrArg (entry (g.place i) :: ·) (above_place h hi)
  case attributes =>
    rw [fromEntry, fromEntry, attributesOf_place h, List.map_map]
    rfl
  case child => rw [fromEntry, fromEntry, h.children_place, map_entry_place]
  case descendant => rw [fromEntry, fromEntry, h.inside_place, map_entry_place]
  case descendantOrSelf =>
    rw [fromEntry, fromEntry, h.inside_place, map_entry_place, List.map_cons]
    rfl
  case following => rw [fromEntry, fromEntry, h.following_place hi, map_entry_place]
  case followingSibling => rw [fromEntry, fromEntry, h.nextSiblings_place hi, map_entry_place]
  case namespaces =>
    rw [fromEntry, fromEntry, spacesOf_place h, List.map_map]
    rfl
  case parent => exact congrArg ([·]) (directlyAbove_place h i)
  case preceding => rw [fromEntry, fromEntry, h.preceding_place hi, map_entry_place]
  case precedingSibling => rw [fromEntry, fromEntry, h.previousSiblings_place hi, map_entry_place]
  case self => rfl

theorem fromPart_place {i : Nat} (hi : i < o.entries.size) (n : Node) (axis : Axis) :
    fromPart o' (g.place i) (n.move g) axis = (fromPart o i n axis).map (move g) := by
  cases axis
  case ancestor => exact congrArg (entry (g.place i) :: ·) (above_place h hi)
  case ancestorOrSelf => exact congrArg (n.move g :: entry (g.place i) :: ·) (above_place h hi)
  case following => rw [fromPart, fromPart, h.following_place hi, map_entry_place]
  case preceding => rw [fromPart, fromPart, h.preceding_place hi, map_entry_place]
  all_goals rfl

theorem along_move (axis : Axis) {n : Node} (hn : n.Within o.entries.size) :
    along o' axis (n.move g) = (along o axis n).map (move g) := by
  cases n with
  | document => exact fromDocument_move h axis
  | entry i => exact fromEntry_place h (hn i rfl) axis
  | space i k => exact fromPart_place h (hn i rfl) (space i k) axis
  | attr i k => exact fromPart_place h (hn i rfl) (attr i k) axis

/-! ## Tests -/

theorem isKnown_place (i : Nat) : isKnown o' (g.place i) = isKnown o i := by
  rw [isKnown, isKnown, h.item?_place]
  cases o.item? i with
  | none => rfl
  | some x =>
      cases x with
      | text s place => rfl
      | node id l => cases l <;> rfl

theorem principalName?_move (axis : Axis) (n : Node) :
    principalName? o' axis (n.move g) = principalName? o axis n := by
  have hattr := attribute?_move h n
  have hspace := space?_move h n
  cases axis
  case attributes => rw [principalName?, principalName?, hattr]
  case namespaces => rw [principalName?, principalName?, hspace]
  all_goals
    cases n with
    | entry i => simp only [move, principalName?, h.label?_place]
    | _ => rfl

theorem passes_move (axis : Axis) (test : NodeTest) (space : Option String) (n : Node) :
    (n.move g).passes o' axis test space = n.passes o axis test space := by
  cases test
  case any q => rw [passes, passes, principalName?_move h]
  case name q base => rw [passes, passes, principalName?_move h]
  case text =>
    cases n with
    | entry i =>
        simp only [move, passes, h.item?_place]
        cases o.item? i with
        | none => rfl
        | some x => cases x <;> rfl
    | _ => rfl
  all_goals
    cases n with
    | entry i => simp only [move, passes, isKnown_place h, h.label?_place]
    | _ => rfl

end

/-! ## Nodes that are there -/

section
variable {o : Outline} {axis : Axis} {i : Nat} {n m : Node}

theorem lt_size_of_label? {l : Label} (hl : o.label? i = some l) : i < o.entries.size := by
  rw [Outline.label?] at hl
  split at hl
  · rename_i hitem
    exact lt_size_of_item? hitem
  · cases hl

theorem lt_size_of_mem_attributesOf {a : Attribute} (ha : a ∈ attributesOf o i) :
    i < o.entries.size := by
  rw [attributesOf] at ha
  cases hl : o.label? i with
  | none =>
      rw [hl] at ha
      cases ha
  | some l => exact lt_size_of_label? hl

theorem lt_size_of_isKnown (hi : isKnown o i = true) : i < o.entries.size := by
  rw [isKnown] at hi
  split at hi
  · cases hi
  · rename_i hitem
    exact lt_size_of_item? hitem
  · cases hi

theorem lt_size_of_principalName? {name : Markup.QName}
    (hi : principalName? o axis (entry i) = some name) : i < o.entries.size := by
  cases axis
  case attributes => cases hi
  case namespaces => cases hi
  all_goals
    rw [principalName?] at hi
    · split at hi
      · rename_i hl
        exact lt_size_of_label? hl
      · cases hi
    all_goals simp

/-- An entry that passes a test is there. -/
theorem lt_size_of_passes {test : NodeTest} {space : Option String}
    (hi : (entry i).passes o axis test space = true) : i < o.entries.size := by
  cases test with
  | node => exact lt_size_of_isKnown hi
  | text =>
      rw [passes] at hi
      split at hi
      · rename_i hitem
        exact lt_size_of_item? hitem
      · cases hi
  | comment | instruction =>
      rw [passes] at hi
      split at hi
      · rename_i hl
        exact lt_size_of_label? hl
      · cases hi
  | any | name =>
      rw [passes] at hi
      split at hi
      · rename_i hname
        exact lt_size_of_principalName? hname
      · cases hi

theorem eq_of_mem_above (hm : m ∈ above o i) : (∃ j, m = entry j) ∨ m = document := by
  have hdocument : m ∈ documentAbove o i → m = document := by
    rw [documentAbove]
    split <;> simp
  rw [above] at hm
  split at hm
  · exact Or.inr (List.mem_singleton.mp hm)
  · rcases List.mem_append.mp hm with hm | hm
    · obtain ⟨j, _, rfl⟩ := List.mem_map.mp hm
      exact Or.inl ⟨j, rfl⟩
    · exact Or.inr (hdocument hm)

/-- An axis leads to entries, to the document and to parts of the entry that it starts from. -/
theorem owner?_of_along (hm : m ∈ along o axis n) :
    (∃ j, m = entry j) ∨ m = document ∨ m.owner? = n.owner? := by
  have habove : ∀ i, m ∈ above o i → (∃ j, m = entry j) ∨ m = document := fun i => eq_of_mem_above
  cases n with
  | document => cases axis <;> simp [along, fromDocument] at hm <;> grind [owner?]
  | entry i => cases axis <;> simp [along, fromEntry, directlyAbove] at hm <;> grind [owner?]
  | space i k => cases axis <;> simp [along, fromPart] at hm <;> grind [owner?]
  | attr i k => cases axis <;> simp [along, fromPart] at hm <;> grind [owner?]

theorem within_of_along {test : NodeTest} {space : Option String} (hn : n.Within o.entries.size)
    (hm : m ∈ along o axis n) (hp : m.passes o axis test space = true) :
    m.Within o.entries.size := by
  rcases owner?_of_along hm with ⟨j, rfl⟩ | rfl | howner
  · intro i hi
    obtain rfl : j = i := Option.some.inj hi
    exact lt_size_of_passes hp
  · intro i hi
    cases hi
  · intro i hi
    exact hn i (howner ▸ hi)

end

end Node

end Harvest.XPath
