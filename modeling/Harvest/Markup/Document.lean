import Harvest.Markup.Shape

/-!
# Documents

A document and the nodes that were taken out of it, which stay usable.  No two nodes share an
identity, so that whatever is done to a node by its identity is done to that node alone.  Nothing
stands inside a node that is no element, and the document has one root and no text around it.
-/

namespace Harvest.Markup

def idsOf (trees : List Content) : List Nat := trees.flatMap Content.ids

/-- The nodes in several trees, with their labels. -/
def nodesOf (trees : List Content) : List (Nat × Label) := trees.flatMap Content.nodes

/-- Takes out a node that stands inside another one, from the first tree that has it. -/
def takeFrom? (i : Nat) : List Content → Option (Content × List Content)
  | [] => none
  | c :: cs =>
    match c.takeInside? i with
    | some (taken, c) => some (taken, c :: cs)
    | none => (takeFrom? i cs).map fun (taken, cs) => (taken, c :: cs)

@[simp] theorem idsOf_nil : idsOf [] = [] := rfl

@[simp] theorem idsOf_cons (c : Content) (cs : List Content) :
    idsOf (c :: cs) = c.ids ++ idsOf cs := rfl

@[simp] theorem idsOf_append (cs ds : List Content) : idsOf (cs ++ ds) = idsOf cs ++ idsOf ds := by
  simp [idsOf]

theorem idsOf_map {f : Content → Content} (h : ∀ c, (f c).ids = c.ids) (cs : List Content) :
    idsOf (cs.map f) = idsOf cs := by
  induction cs with
  | nil => rfl
  | cons c cs ih => simp [h, ih]

theorem idsOf_eq_map_nodesOf (cs : List Content) : idsOf cs = (nodesOf cs).map Prod.fst := by
  induction cs with
  | nil => rfl
  | cons c cs ih => simp [nodesOf, Content.ids_eq_map_nodes, ih]

/-- How a node is taken out of several trees: from inside a node of the first one, or, where there
is none such, from the others. -/
theorem takeFrom?_cons {i : Nat} {c taken : Content} {cs left : List Content}
    (h : takeFrom? i (c :: cs) = some (taken, left)) :
    (∃ c', c.takeInside? i = some (taken, c') ∧ left = c' :: cs) ∨
    (c.takeInside? i = none ∧ ∃ cs', takeFrom? i cs = some (taken, cs') ∧ left = c :: cs') := by
  rw [takeFrom?] at h
  split at h
  · rename_i t c' htake
    obtain ⟨rfl, rfl⟩ := Prod.mk.inj (Option.some.inj h)
    exact Or.inl ⟨c', htake, rfl⟩
  · rename_i hnone
    obtain ⟨⟨t, cs'⟩, htake, heq⟩ := Option.map_eq_some_iff.mp h
    obtain ⟨rfl, rfl⟩ := Prod.mk.inj heq
    exact Or.inr ⟨hnone, cs', htake, rfl⟩

/-- A node that is taken out and the trees that stay have the nodes that were there before. -/
theorem nodes_of_takeFrom? {i : Nat} {trees left : List Content} {taken : Content}
    (h : takeFrom? i trees = some (taken, left)) :
    List.Perm (nodesOf (left ++ [taken])) (nodesOf trees) := by
  induction trees generalizing taken left with
  | nil => cases h
  | cons c cs ih =>
      rcases takeFrom?_cons h with ⟨c', htake, rfl⟩ | ⟨_, cs', htake, rfl⟩
      · have hperm := Content.nodes_of_takeInside? htake
        simp only [nodesOf, List.cons_append, List.flatMap_cons, List.flatMap_append,
          List.flatMap_nil, List.append_nil]
        rw [← List.append_assoc]
        refine List.perm_append_comm.trans ?_
        rw [← List.append_assoc]
        exact hperm.append_right _
      · exact (ih htake).append_left _

theorem ids_of_takeFrom? {i : Nat} {trees left : List Content} {taken : Content}
    (h : takeFrom? i trees = some (taken, left)) :
    List.Perm (idsOf (left ++ [taken])) (idsOf trees) := by
  simpa [idsOf_eq_map_nodesOf] using (nodes_of_takeFrom? h).map Prod.fst

/-- Taking out a node keeps what holds of every tree and of what is taken out of it. -/
theorem forall_of_takeFrom? {P : Content → Prop} {i : Nat} {trees left : List Content}
    {taken : Content} (hP : ∀ c ∈ trees, P c)
    (ht : ∀ {c t r : Content}, P c → c.takeInside? i = some (t, r) → P t ∧ P r)
    (h : takeFrom? i trees = some (taken, left)) : ∀ c ∈ left ++ [taken], P c := by
  induction trees generalizing taken left with
  | nil => cases h
  | cons c cs ih =>
    have hc : P c := hP c List.mem_cons_self
    have hcs : ∀ d ∈ cs, P d := fun d hd => hP d (List.mem_cons_of_mem c hd)
    rcases takeFrom?_cons h with ⟨c', htake, rfl⟩ | ⟨_, cs', htake, rfl⟩
    · obtain ⟨h₁, h₂⟩ := ht hc htake
      simpa [or_imp, forall_and] using ⟨h₂, hcs, h₁⟩
    · intro d hd
      rcases List.mem_cons.mp hd with rfl | hd
      · exact hc
      · exact ih hcs htake d hd

/-- The first tree stays the first one, and at most loses a node that stands inside another one. -/
theorem head?_of_takeFrom? {i : Nat} {trees left : List Content} {taken : Content}
    (h : takeFrom? i trees = some (taken, left)) {c : Content} (hc : c ∈ (left ++ [taken]).head?) :
    ∃ d ∈ trees.head?, c = d ∨ ∃ t, d.takeInside? i = some (t, c) := by
  cases trees with
  | nil => cases h
  | cons d ds =>
    rcases takeFrom?_cons h with ⟨d', htake, rfl⟩ | ⟨_, ds', _, rfl⟩
    · simp only [List.cons_append, List.head?_cons, Option.mem_def, Option.some.injEq] at hc
      exact ⟨d, rfl, Or.inr ⟨_, hc ▸ htake⟩⟩
    · simp only [List.cons_append, List.head?_cons, Option.mem_def, Option.some.injEq] at hc
      exact ⟨d, rfl, Or.inl hc.symm⟩

/-- A change of content that keeps its nodes and its shape. -/
structure Keeps (f : Content → Content) : Prop where
  ids : ∀ c, (f c).ids = c.ids
  proper : ∀ {c : Content}, c.Proper → (f c).Proper
  whole : ∀ {c : Content}, c.Whole → (f c).Whole

/-- A document with the nodes that were taken out of it. -/
structure Document where
  /-- The document itself, then the trees of the nodes that were taken out. -/
  trees : List Content
  /-- A number above all identities. -/
  fresh : Nat
  distinct : (idsOf trees).Nodup
  below : ∀ i ∈ idsOf trees, i < fresh
  proper : ∀ c ∈ trees, c.Proper
  whole : ∀ c ∈ trees.head?, c.Whole

namespace Document

/-- A document of a content, whose nodes are numbered in document order. -/
def ofContent (c : Content) (hp : c.Proper) (hw : c.Whole) : Document where
  trees := [(c.number 0).1]
  fresh := (c.number 0).2
  distinct := by simpa using Content.nodup_number 0 c
  below := fun i h => by
    simp only [idsOf_cons, idsOf_nil, List.append_nil] at h
    exact (Content.lt_of_mem_number h).2
  proper := by simpa using hp.number
  whole := by simpa using hw.number 0

def main (d : Document) : Content := d.trees.headD Content.empty

def find? (d : Document) (i : Nat) : Option (Label × Content) :=
  d.trees.findSome? (·.find? i)

/-- The first of the nodes that are not inside another one and is an element. -/
def rootOf? : Content → Option Nat
  | .text _ => none
  | .node _ id l _ rest => if l.isElement then some id else rootOf? rest

def root? (d : Document) : Option Nat := rootOf? d.main

/-- The document with every tree changed in a way that keeps all nodes. -/
def mapTrees (d : Document) (f : Content → Content) (h : Keeps f) : Document where
  trees := d.trees.map f
  fresh := d.fresh
  distinct := by rw [idsOf_map h.ids]; exact d.distinct
  below := by rw [idsOf_map h.ids]; exact d.below
  proper := by
    simp only [List.mem_map, forall_exists_index, and_imp, forall_apply_eq_imp_iff₂]
    exact fun c hc => h.proper (d.proper c hc)
  whole := by
    simp only [List.head?_map, Option.mem_def, Option.map_eq_some_iff, forall_exists_index,
      and_imp, forall_apply_eq_imp_iff₂]
    exact fun c hc => h.whole (d.whole c hc)

/-- The document with the label of a node changed to one of the same kind. -/
def relabel (d : Document) (i : Nat) (f : Label → Label)
    (hf : ∀ l, (f l).isElement = l.isElement) : Document :=
  d.mapTrees (·.relabel i f) ⟨Content.ids_relabel i f, .relabel hf, .relabel hf⟩

/-- The document with an attribute of a node removed. -/
def dropAttribute (d : Document) (i : Nat) (name : String) : Document :=
  d.relabel i (·.dropAttribute name) fun l => by cases l <;> rfl

/-- The document without the text in front of the first node inside a node. -/
def clearText (d : Document) (i : Nat) : Document :=
  d.mapTrees (·.clearText i) ⟨Content.ids_clearText i, .clearText, (·.clearText i)⟩

/-- The document without the text behind a node. -/
def clearTail (d : Document) (i : Nat) : Document :=
  d.mapTrees (·.clearTail i) ⟨Content.ids_clearTail i, .clearTail, (·.clearTail i)⟩

def tailOf (d : Document) (i : Nat) : String := (d.trees.findSome? (·.tailOf? i)).getD ""

/-- The document with a node taken out that stood inside another one; nothing if it did not. -/
def detach? (d : Document) (i : Nat) : Option Document :=
  match h : takeFrom? i d.trees with
  | none => none
  | some (taken, left) => some
    { trees := left ++ [taken]
      fresh := d.fresh
      distinct := (ids_of_takeFrom? h).nodup_iff.mpr d.distinct
      below := fun j hj => d.below j ((ids_of_takeFrom? h).mem_iff.mp hj)
      proper := forall_of_takeFrom? d.proper Content.Proper.takeInside? h
      whole := fun c hc => by
        obtain ⟨e, he, rfl | ⟨t, ht⟩⟩ := head?_of_takeFrom? h hc
        · exact d.whole _ he
        · exact (d.whole e he).takeInside? ht }

def addTree (d : Document) (c : Content) (hp : c.Proper) (hw : c.Whole) : Document where
  trees := d.trees ++ [(c.number d.fresh).1]
  fresh := (c.number d.fresh).2
  distinct := by
    simp only [idsOf_append, idsOf_cons, idsOf_nil, List.append_nil]
    refine List.nodup_append.mpr ⟨d.distinct, Content.nodup_number _ _, ?_⟩
    intro a ha b hb
    have h₁ := d.below a ha
    have h₂ := (Content.lt_of_mem_number hb).1
    omega
  below := fun i h => by
    simp only [idsOf_append, idsOf_cons, idsOf_nil, List.append_nil, List.mem_append] at h
    have h₀ := (Content.ids_number d.fresh c).1
    rcases h with h | h
    · have := d.below i h
      omega
    · exact (Content.lt_of_mem_number h).2
  proper := by
    intro e he
    rcases List.mem_append.mp he with he | he
    · exact d.proper e he
    · simp only [List.mem_singleton] at he
      exact he ▸ hp.number
  whole := by
    intro e he
    cases htrees : d.trees with
    | nil =>
      simp only [htrees, List.nil_append, List.head?_cons, Option.mem_def,
        Option.some.injEq] at he
      exact he ▸ hw.number d.fresh
    | cons t ts =>
      refine d.whole e ?_
      simpa [htrees] using he

end Document

end Harvest.Markup
