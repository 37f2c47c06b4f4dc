import Harvest.XPath.Reader
import Harvest.Proofs.Select

/-!
# Tests of single nodes

Selectors that take from all below the document, or below its root, what passes a test of a node
alone: elements of a name, attributes of a name, or texts.  Evaluating them is a matter of two
steps, which add nothing to the document.
-/

namespace Harvest

open Markup (Document Outline Content Label Attribute Target QName)

namespace XPath

/-- A name in a test, whose qualifier has a namespace. -/
structure NameTest where
  qualifier : Option String := none
  base : String
  known : ∀ q ∈ qualifier, (qualifiers.lookup q).isSome = true := by simp
deriving DecidableEq

/-- A test of a node alone. -/
inductive LocalTest
  | element (name : NameTest)
  | attr (name : NameTest)
  | text
deriving DecidableEq

namespace NameTest

/-- The test of a name as it is written, if its qualifier has a namespace. -/
def ofName? (qualifier : Option String) (base : String) : Option NameTest :=
  if h : ∀ q ∈ qualifier, (qualifiers.lookup q).isSome = true then some ⟨qualifier, base, h⟩
  else none

theorem of_ofName? {qualifier : Option String} {base : String} {n : NameTest}
    (h : ofName? qualifier base = some n) : n.qualifier = qualifier ∧ n.base = base := by
  unfold ofName? at h
  split at h
  · obtain rfl := Option.some.inj h
    exact ⟨rfl, rfl⟩
  · simp at h

/-- The namespace that the name lies in. -/
def space (n : NameTest) : Option String := n.qualifier.bind fun q => qualifiers.lookup q

/-- Whether an element has the name. -/
def fits (n : NameTest) (name : QName) : Bool := name.base == n.base && name.space == n.space

/-- Whether an attribute has the name; one that is written without a qualifier also fits a name
without one. -/
def fitsAttribute (n : NameTest) (name : QName) : Bool :=
  name.base == n.base && (name.space == n.space || (n.space.isNone && name.qualifier.isNone))

end NameTest

namespace LocalTest

/-- The axis that leads to what may pass the test. -/
def axis : LocalTest → Axis
  | attr _ => .attributes
  | _ => .child

/-- The test in a selector. -/
def nodeTest : LocalTest → NodeTest
  | element n => .name n.qualifier n.base
  | attr n => .name n.qualifier n.base
  | text => .text

/-- The selector of all that passes the test below a start. -/
def path (start : XPath) (t : LocalTest) : XPath := .step (deep start) t.axis t.nodeTest []

/-- The namespace of the name in the test. -/
def space : LocalTest → Option String
  | element n => n.space
  | attr n => n.space
  | text => none

/-- Whether an element of a name passes the test. -/
def takesElement (name : QName) : LocalTest → Bool
  | element n => n.fits name
  | _ => false

/-- Whether an attribute of a name passes the test. -/
def takesAttribute (name : QName) : LocalTest → Bool
  | attr n => n.fitsAttribute name
  | _ => false

/-- Whether texts pass the test. -/
def takesText : LocalTest → Bool
  | text => true
  | _ => false

end LocalTest

/-- Whether a node passes one of the tests. -/
def takesLabel (ts : List LocalTest) : Label → Bool
  | .element name _ _ => ts.any (·.takesElement name)
  | _ => false

end XPath

namespace Markup

open XPath (LocalTest takesLabel)

/-- What of an item passes one of the tests. -/
def Item.taken (ts : List LocalTest) : Item → List Target
  | .node id l => (if takesLabel ts l then [.node id] else []) ++
      (l.attributes.filter fun a => ts.any (·.takesAttribute a.name)).map fun a =>
        .attr id a.name.expanded
  | .text _ (some place) => if ts.any (·.takesText) then [.text place] else []
  | .text _ none => []

/-- What of a content passes one of the tests. -/
def Content.taken (ts : List LocalTest) (c : Content) : List Target :=
  (c.items none).flatMap (Item.taken ts)

end Markup

namespace XPath

/-- A selector of all that passes one of some tests, below the document or, where the context is the
root, below the context. -/
inductive LocalUnion (d : Document) (context : Nat) : XPath → List LocalTest → Prop
  | everywhere (t : LocalTest) : LocalUnion d context (t.path .root) [t]
  | inRoot (t : LocalTest) (h : d.root? = some context) : LocalUnion d context (t.path .context) [t]
  | union {a b : XPath} {ts us : List LocalTest} (ha : LocalUnion d context a ts)
      (hb : LocalUnion d context b us) : LocalUnion d context (.binary .union a b) (ts ++ us)

/-- The test of a path from the document on, if it is one. -/
def localTest? : XPath → Option LocalTest
  | .step (.step .root .descendantOrSelf .node []) .child (.name q base) [] =>
    (NameTest.ofName? q base).map .element
  | .step (.step .root .descendantOrSelf .node []) .attributes (.name q base) [] =>
    (NameTest.ofName? q base).map .attr
  | .step (.step .root .descendantOrSelf .node []) .child .text [] => some .text
  | _ => none

/-- The tests of a union of paths from the document on, if it is one. -/
def localTests? : XPath → Option (List LocalTest)
  | .binary .union a b => do return (← localTests? a) ++ (← localTests? b)
  | e => (localTest? e).map fun t => [t]

theorem path_of_localTest? {query : XPath} {t : LocalTest} (h : localTest? query = some t) :
    query = t.path .root := by
  unfold localTest? at h
  split at h
  · obtain ⟨n, hn, rfl⟩ := Option.map_eq_some_iff.mp h
    obtain ⟨rfl, rfl⟩ := NameTest.of_ofName? hn
    rfl
  · obtain ⟨n, hn, rfl⟩ := Option.map_eq_some_iff.mp h
    obtain ⟨rfl, rfl⟩ := NameTest.of_ofName? hn
    rfl
  · obtain rfl := Option.some.inj h
    rfl
  · simp at h

/-- What is recognized as a union of tests is one, wherever it is evaluated. -/
theorem localUnion_of_localTests? {d : Document} {context : Nat} :
    ∀ {query : XPath} {ts : List LocalTest}, localTests? query = some ts →
      LocalUnion d context query ts := by
  intro query ts h
  unfold localTests? at h
  split at h
  · rename_i a b
    simp only [Option.bind_eq_bind, Option.bind_eq_some_iff, Option.pure_def,
      Option.some.injEq] at h
    obtain ⟨as, ha, bs, hb, rfl⟩ := h
    exact .union (localUnion_of_localTests? ha) (localUnion_of_localTests? hb)
  · obtain ⟨t, ht, rfl⟩ := Option.map_eq_some_iff.mp h
    rw [path_of_localTest? ht]
    exact .everywhere t

/-! ## Evaluation -/

section
variable {s : Scene} {focus : Focus}

theorem run_resolve (n : NameTest) : (resolve n.qualifier).run s = .ok (n.space, s) := by
  obtain ⟨qualifier, base, known⟩ := n
  cases qualifier with
  | none => rfl
  | some q =>
      obtain ⟨a, ha⟩ := Option.isSome_iff_exists.mp (known q rfl)
      simp only [resolve, NameTest.space, ha, orUnfit, Option.bind_some]
      rfl

theorem run_fromEach {step : Node → Eval (List Node)} {f : Node → List Node}
    (h : ∀ n, (step n).run s = .ok (f n, s)) (ns : List Node) :
    (fromEach step ns).run s = .ok (ns.flatMap f, s) := by
  induction ns with
  | nil => rfl
  | cons n ns ih =>
      rw [fromEach, Eval.run_bind_of_ok (h n), Eval.run_bind_of_ok ih]
      rfl

/-- The nodes to which a step without predicates leads. -/
def stepNodes (o : Outline) (axis : Axis) (test : NodeTest) (space : Option String)
    (ns : List Node) : List Node :=
  Node.inOrder (ns.flatMap fun n => (Node.along o axis n).filter (Node.passes o axis test space))

theorem run_step {input : XPath} {axis : Axis} {test : NodeTest} {ns : List Node}
    {space : Option String} (hin : (eval input focus).run s = .ok (.nodes ns, s))
    (hq : (resolve test.qualifier?).run s = .ok (space, s)) :
    (eval (.step input axis test []) focus).run s =
      .ok (.nodes (stepNodes s.outline axis test space ns), s) := by
  have hns : (nodesOf (.nodes ns)).run s = .ok (ns, s) := rfl
  unfold eval
  rw [Eval.run_bind_of_ok hin, Eval.run_bind_of_ok hns, Eval.run_bind_of_ok hq,
    Eval.run_bind_of_ok (run_fromEach (fun n => rfl) ns)]
  rfl

theorem run_path {start : XPath} {n : Node} (t : LocalTest)
    (h : (eval start focus).run s = .ok (.nodes [n], s)) :
    (eval (t.path start) focus).run s = .ok (.nodes (stepNodes s.outline t.axis t.nodeTest t.space
      (stepNodes s.outline .descendantOrSelf .node none [n])), s) := by
  refine run_step (run_step h rfl) ?_
  cases t with
  | element name => exact run_resolve name
  | attr name => exact run_resolve name
  | text => rfl

end

theorem mem_stepNodes {o : Outline} {axis : Axis} {test : NodeTest} {space : Option String}
    {ns : List Node} {n : Node} : n ∈ stepNodes o axis test space ns ↔
      ∃ m ∈ ns, n ∈ Node.along o axis m ∧ n.passes o axis test space = true := by
  simp [stepNodes, List.mem_flatMap]

end XPath

end Harvest
