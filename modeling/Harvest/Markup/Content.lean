/-!
# Content

What stands inside an element or at the top of a document: text, and nodes with text between them.
A node has an identity, by which it is found wherever it stands.  The text behind a node belongs to
the content around it, so that a node can be taken out and its surroundings stay.
-/

namespace Harvest.Markup

/-- A name with the namespace it lies in and the qualifier it was written with. -/
structure QName where
  space : Option String := none
  qualifier : Option String := none
  base : String
deriving DecidableEq, Repr, Inhabited

namespace QName

def plain (base : String) : QName := ⟨none, none, base⟩

/-- The name with its namespace in braces in front. -/
def expanded (n : QName) : String :=
  match n.space with
  | some s => "\x7b" ++ s ++ "\x7d" ++ n.base
  | none => n.base

def written (n : QName) : String :=
  match n.space, n.qualifier with
  | some _, some q => q ++ ":" ++ n.base
  | _, _ => n.base

end QName

structure Attribute where
  name : QName
  value : String
deriving DecidableEq, Repr, Inhabited

inductive Label
  /-- An element with the namespaces that are declared on it: qualifiers and addresses. -/
  | element (name : QName) (attributes : List Attribute)
      (declarations : List (Option String × String))
  | comment (value : String)
  | instruction (target value : String)
  /-- A reference to an entity, with the text that the entity stands for. -/
  | entity (name value : String)
deriving DecidableEq, Repr, Inhabited

namespace Label

def isElement : Label → Bool
  | element .. => true
  | _ => false

/-- The attributes; only an element has some. -/
def attributes : Label → List Attribute
  | element _ as _ => as
  | _ => []

/-- The label without the attributes of a name. -/
def dropAttribute (name : String) : Label → Label
  | element n as ds => element n (as.filter fun a => a.name.expanded != name) ds
  | l => l

/-- Whether an attribute of a name is there. -/
def hasAttribute (name : String) (l : Label) : Bool :=
  l.attributes.any fun a => a.name.expanded == name

end Label

/-- A sequence of texts and nodes: a text, then a node, and so on up to a last text.  A text that is
empty is no text. -/
inductive Content
  | text (s : String)
  | node (before : String) (id : Nat) (label : Label) (inner rest : Content)
deriving DecidableEq, Repr, Inhabited

namespace Content

def empty : Content := .text ""

/-- The text in front of the first node. -/
def leading : Content → String
  | text s => s
  | node before _ _ _ _ => before

/-- The content with another text in front of the first node. -/
def setLeading (s : String) : Content → Content
  | text _ => text s
  | node _ id l inner rest => node s id l inner rest

/-- The content with a text put in front. -/
def prepend (s : String) (c : Content) : Content := c.setLeading (s ++ c.leading)

def single (id : Nat) (l : Label) (inner : Content) : Content := node "" id l inner empty

/-- The identities of all nodes, each in front of those inside it. -/
def ids : Content → List Nat
  | text _ => []
  | node _ id _ inner rest => id :: (inner.ids ++ rest.ids)

/-- All nodes with their labels, each in front of those inside it. -/
def nodes : Content → List (Nat × Label)
  | text _ => []
  | node _ id l inner rest => (id, l) :: (inner.nodes ++ rest.nodes)

/-- The nodes that are not inside another one. -/
def topIds : Content → List Nat
  | text _ => []
  | node _ id _ _ rest => id :: rest.topIds

/-- The label and the content of a node. -/
def find? (i : Nat) : Content → Option (Label × Content)
  | text _ => none
  | node _ id l inner rest =>
    if id = i then some (l, inner) else (inner.find? i).or (rest.find? i)

/-- Takes a node out: the node alone, and what stays.  The text behind the node stays. -/
def take? (i : Nat) : Content → Option (Content × Content)
  | text _ => none
  | node before id l inner rest =>
    if id = i then some (single id l inner, rest.prepend before)
    else match inner.take? i with
      | some (taken, inner) => some (taken, node before id l inner rest)
      | none => (rest.take? i).map fun (taken, rest) => (taken, node before id l inner rest)

/-- Takes out a node that stands inside another one. -/
def takeInside? (i : Nat) : Content → Option (Content × Content)
  | text _ => none
  | node before id l inner rest =>
    match inner.take? i with
    | some (taken, inner) => some (taken, node before id l inner rest)
    | none => (rest.takeInside? i).map fun (taken, rest) => (taken, node before id l inner rest)

def relabel (i : Nat) (f : Label → Label) : Content → Content
  | text s => text s
  | node before id l inner rest =>
    node before id (if id = i then f l else l) (inner.relabel i f) (rest.relabel i f)

/-- Removes the text in front of the first node inside a node. -/
def clearText (i : Nat) : Content → Content
  | text s => text s
  | node before id l inner rest =>
    let inner := inner.clearText i
    node before id l (if id = i then inner.setLeading "" else inner) (rest.clearText i)

def clearTail (i : Nat) : Content → Content
  | text s => text s
  | node before id l inner rest =>
    let rest := rest.clearTail i
    node before id l (inner.clearTail i) (if id = i then rest.setLeading "" else rest)

def tailOf? (i : Nat) : Content → Option String
  | text _ => none
  | node _ id _ inner rest =>
    if id = i then some rest.leading else (inner.tailOf? i).or (rest.tailOf? i)

/-- Numbers the nodes from `n` on, each in front of those inside it, and gives the next number. -/
def number (n : Nat) : Content → Content × Nat
  | text s => (text s, n)
  | node before _ l inner rest =>
    let (inner, m) := inner.number (n + 1)
    let (rest, k) := rest.number m
    (node before n l inner rest, k)

/-- The text of the content: all its texts and those that entities stand for, without comments and
instructions. -/
def string : Content → String
  | text s => s
  | node before _ l inner rest =>
    before ++ (match l with
      | .element .. => inner.string
      | .entity _ value => value
      | _ => "") ++ rest.string

/-! ## Identities -/

@[simp] theorem ids_text (s : String) : (text s).ids = [] := rfl

@[simp] theorem ids_node (before : String) (id : Nat) (l : Label) (inner rest : Content) :
    (node before id l inner rest).ids = id :: (inner.ids ++ rest.ids) := rfl

@[simp] theorem ids_setLeading (s : String) (c : Content) : (c.setLeading s).ids = c.ids := by
  cases c <;> rfl

@[simp] theorem ids_relabel (i : Nat) (f : Label → Label) (c : Content) :
    (c.relabel i f).ids = c.ids := by
  induction c with
  | text s => rfl
  | node before id l inner rest ih₁ ih₂ => simp [relabel, ih₁, ih₂]

@[simp] theorem ids_clearText (i : Nat) (c : Content) : (c.clearText i).ids = c.ids := by
  induction c with
  | text s => rfl
  | node before id l inner rest ih₁ ih₂ =>
    by_cases h : id = i <;> simp [clearText, h, ih₁, ih₂]

@[simp] theorem ids_clearTail (i : Nat) (c : Content) : (c.clearTail i).ids = c.ids := by
  induction c with
  | text s => rfl
  | node before id l inner rest ih₁ ih₂ =>
    by_cases h : id = i <;> simp [clearTail, h, ih₁, ih₂]

@[simp] theorem nodes_setLeading (s : String) (c : Content) : (c.setLeading s).nodes = c.nodes := by
  cases c <;> rfl

@[simp] theorem nodes_prepend (s : String) (c : Content) : (c.prepend s).nodes = c.nodes := by
  simp [prepend]

theorem ids_eq_map_nodes (c : Content) : c.ids = c.nodes.map Prod.fst := by
  induction c with
  | text s => rfl
  | node before id l inner rest ih₁ ih₂ => simp [nodes, ih₁, ih₂]

/-- How a node is taken out of a content that starts with a node: this one itself, or one inside it,
or one behind it. -/
theorem take?_node {j id : Nat} {before : String} {l : Label} {inner rest taken left : Content}
    (h : (node before id l inner rest).take? j = some (taken, left)) :
    (id = j ∧ taken = single id l inner ∧ left = rest.prepend before) ∨
    (∃ inner', inner.take? j = some (taken, inner') ∧ left = node before id l inner' rest) ∨
    (∃ rest', rest.take? j = some (taken, rest') ∧ left = node before id l inner rest') := by
  rw [take?] at h
  split at h
  · rename_i hid
    obtain ⟨rfl, rfl⟩ := Prod.mk.inj (Option.some.inj h)
    exact Or.inl ⟨hid, rfl, rfl⟩
  · split at h
    · rename_i t inner' htake
      obtain ⟨rfl, rfl⟩ := Prod.mk.inj (Option.some.inj h)
      exact Or.inr (Or.inl ⟨inner', htake, rfl⟩)
    · obtain ⟨⟨t, rest'⟩, htake, heq⟩ := Option.map_eq_some_iff.mp h
      obtain ⟨rfl, rfl⟩ := Prod.mk.inj heq
      exact Or.inr (Or.inr ⟨rest', htake, rfl⟩)

/-- How a node inside another one is taken out of a content that starts with a node: from inside
this one, or from behind it. -/
theorem takeInside?_node {j id : Nat} {before : String} {l : Label}
    {inner rest taken left : Content}
    (h : (node before id l inner rest).takeInside? j = some (taken, left)) :
    (∃ inner', inner.take? j = some (taken, inner') ∧ left = node before id l inner' rest) ∨
    (∃ rest', rest.takeInside? j = some (taken, rest') ∧ left = node before id l inner rest') := by
  rw [takeInside?] at h
  split at h
  · rename_i t inner' htake
    obtain ⟨rfl, rfl⟩ := Prod.mk.inj (Option.some.inj h)
    exact Or.inl ⟨inner', htake, rfl⟩
  · obtain ⟨⟨t, rest'⟩, htake, heq⟩ := Option.map_eq_some_iff.mp h
    obtain ⟨rfl, rfl⟩ := Prod.mk.inj heq
    exact Or.inr ⟨rest', htake, rfl⟩

section
variable {before : String} {id : Nat} {l : Label} {inner inner' rest rest' taken : Content}

theorem perm_nodes_inner (h : (taken.nodes ++ inner'.nodes).Perm inner.nodes) :
    (taken.nodes ++ (node before id l inner' rest).nodes).Perm
      (node before id l inner rest).nodes := by
  simp only [nodes]
  refine List.perm_middle.trans (List.Perm.cons _ ?_)
  rw [← List.append_assoc]
  exact h.append_right _

theorem perm_nodes_rest (h : (taken.nodes ++ rest'.nodes).Perm rest.nodes) :
    (taken.nodes ++ (node before id l inner rest').nodes).Perm
      (node before id l inner rest).nodes := by
  simp only [nodes]
  refine List.perm_middle.trans (List.Perm.cons _ ?_)
  refine (List.perm_append_comm_assoc _ _ _).trans ?_
  exact h.append_left _

end

/-- A node that is taken out and what stays have the nodes that were there before. -/
theorem nodes_of_take? {i : Nat} {c taken left : Content} (h : c.take? i = some (taken, left)) :
    List.Perm (taken.nodes ++ left.nodes) c.nodes := by
  induction c generalizing taken left with
  | text s => cases h
  | node before id l inner rest ih₁ ih₂ =>
    rcases take?_node h with ⟨_, rfl, rfl⟩ | ⟨inner', htake, rfl⟩ | ⟨rest', htake, rfl⟩
    · simp [single, nodes, empty]
    · exact perm_nodes_inner (ih₁ htake)
    · exact perm_nodes_rest (ih₂ htake)

/-- The same for a node inside another one. -/
theorem nodes_of_takeInside? {i : Nat} {c taken left : Content}
    (h : c.takeInside? i = some (taken, left)) :
    List.Perm (taken.nodes ++ left.nodes) c.nodes := by
  induction c generalizing taken left with
  | text s => cases h
  | node before id l inner rest ih₁ ih₂ =>
    rcases takeInside?_node h with ⟨inner', htake, rfl⟩ | ⟨rest', htake, rfl⟩
    · exact perm_nodes_inner (nodes_of_take? htake)
    · exact perm_nodes_rest (ih₂ htake)

theorem ids_of_take? {i : Nat} {c taken left : Content} (h : c.take? i = some (taken, left)) :
    List.Perm (taken.ids ++ left.ids) c.ids := by
  simpa [ids_eq_map_nodes] using (nodes_of_take? h).map Prod.fst

theorem ids_of_takeInside? {i : Nat} {c taken left : Content}
    (h : c.takeInside? i = some (taken, left)) : List.Perm (taken.ids ++ left.ids) c.ids := by
  simpa [ids_eq_map_nodes] using (nodes_of_takeInside? h).map Prod.fst

/-- Numbering gives the numbers from the first one up to the next one, in order. -/
theorem ids_number (n : Nat) (c : Content) :
    n ≤ (c.number n).2 ∧ (c.number n).1.ids = List.range' n ((c.number n).2 - n) := by
  induction c generalizing n with
  | text s => simp [number]
  | node before id l inner rest ih₁ ih₂ =>
    simp only [number, ids_node]
    obtain ⟨h₁, e₁⟩ := ih₁ (n + 1)
    obtain ⟨h₂, e₂⟩ := ih₂ (inner.number (n + 1)).2
    refine ⟨by omega, ?_⟩
    rw [e₁, e₂]
    have : (rest.number (inner.number (n + 1)).2).2 - n
        = ((inner.number (n + 1)).2 - (n + 1)
            + ((rest.number (inner.number (n + 1)).2).2 - (inner.number (n + 1)).2)) + 1 := by
      omega
    rw [this, List.range'_succ, ← List.range'_append_1]
    congr 3
    omega

theorem nodup_number (n : Nat) (c : Content) : (c.number n).1.ids.Nodup := by
  rw [(ids_number n c).2]
  exact List.nodup_range'

theorem lt_of_mem_number {n i : Nat} {c : Content} (h : i ∈ (c.number n).1.ids) :
    n ≤ i ∧ i < (c.number n).2 := by
  obtain ⟨h₁, e⟩ := ids_number n c
  rw [e, List.mem_range'_1] at h
  omega

end Content

end Harvest.Markup
