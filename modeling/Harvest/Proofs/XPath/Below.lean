import Harvest.Proofs.Markup.Within
import Harvest.Proofs.Prune.Elements

/-!
# Elements below a node

The selector of all elements of a name below a node finds just these, wherever the node stands, also
in a tree that was taken out of the document.  It is written as two slashes behind a point, and the
name behind them.
-/

namespace Harvest

open Markup (Document Outline Content Label Entry Language TextPlace)
open Markup.Outline (row)

/-! ## As it is written -/

/-- A text is a name without colons. -/
def Markup.IsName (s : String) : Prop := Markup.takeName? s.toList = some (s.toList, [])

instance (s : String) : Decidable (Markup.IsName s) := inferInstanceAs (Decidable (_ = _))

namespace XPath

open Markup (takeName? skipSpace isSpace isNameStart)

theorem readOperands_nil (n level : Nat) (e : XPath) :
    readOperands (n + 1) level e [] = some (e, []) := by
  have hnone : takeOperator? (operatorsAt level) [] = none := by
    rcases level with _ | _ | _ | _ | _ | _ | level <;> rfl
  rw [readOperands, hnone]

theorem readLevel_of_next {n level : Nat} {cs : List Char} {e : XPath} (hl : level < 6)
    (h : readLevel (n + 1) (level + 1) cs = some (e, [])) :
    readLevel (n + 2) level cs = some (e, []) := by
  rw [readLevel, if_pos hl, h]
  exact readOperands_nil n level e

/-- An operand without operators around it is read at the weakest level. -/
theorem readLevel_of_readUnion {n : Nat} {cs : List Char} {e : XPath}
    (hcs : takeMinus cs = (0, cs)) (h : readUnion n cs = some (e, [])) :
    readLevel (n + 7) 0 cs = some (e, []) := by
  have hlast : readLevel (n + 1) 6 cs = some (e, []) := by
    rw [readLevel, if_neg (by decide), hcs]
    simp [h, negateTimes]
  apply readLevel_of_next (by decide)
  apply readLevel_of_next (by decide)
  apply readLevel_of_next (by decide)
  apply readLevel_of_next (by decide)
  apply readLevel_of_next (by decide)
  exact readLevel_of_next (by decide) hlast

theorem ne_of_isNameStart {c : Char} (h : isNameStart c = true) :
    isSpace c = false ∧ c ≠ '*' ∧ c ≠ '@' ∧ c ≠ '.' := by
  refine ⟨?_, ?_, ?_, ?_⟩
  · by_contra hs
    simp only [isSpace, Bool.not_eq_false, Bool.or_eq_true, beq_iff_eq] at hs
    rcases hs with ((rfl | rfl) | rfl) | rfl <;> revert h <;> decide
  all_goals
    rintro rfl
    revert h
    decide


theorem skipSpace_cons {c : Char} {cs : List Char} (h : isSpace c = false) :
    skipSpace (c :: cs) = c :: cs := by
  simp [skipSpace, h]

/-- A name alone is a test of the elements of that name, also where it is that of an axis. -/
theorem takeAxisTest?_name {cs : List Char} (h : takeName? cs = some (cs, [])) :
    takeAxisTest? cs = some ((.child, .name none (String.ofList cs)), []) := by
  cases cs with
  | nil => cases h
  | cons c r =>
      have hc : isNameStart c = true := by
        by_contra hne
        simp [takeName?, hne] at h
      obtain ⟨_, hstar, hat, _⟩ := ne_of_isNameStart hc
      unfold takeAxisTest?
      split
      · rename_i heq
        exact absurd (List.cons.inj heq).1 hstar
      · rename_i heq
        exact absurd (List.cons.inj heq).1 hat
      · simp only [h, Option.bind_eq_bind, Option.bind_some]
        cases Axis.named.lookup (String.ofList (c :: r)) <;> rfl

theorem readStep_name {n : Nat} {cs : List Char} {input : XPath}
    (h : takeName? cs = some (cs, [])) :
    readStep (n + 2) input cs =
      some (.step input .child (.name none (String.ofList cs)) [], []) := by
  cases cs with
  | nil => cases h
  | cons c r =>
      have hc : isNameStart c = true := by
        by_contra hne
        simp [takeName?, hne] at h
      obtain ⟨hspace, _, _, hdot⟩ := ne_of_isNameStart hc
      rw [readStep, skipSpace_cons hspace]
      split
      · rename_i heq
        exact absurd (List.cons.inj heq).1 hdot
      · rename_i heq
        exact absurd (List.cons.inj heq).1 hdot
      · rw [takeAxisTest?_name h]
        rfl

/-- The selector of all elements of a name below the context. -/
theorem readUnion_below {n : Nat} {cs : List Char} (h : takeName? cs = some (cs, [])) :
    readUnion (n + 7) ('.' :: '/' :: '/' :: cs) =
      some (.step (deep .context) .child (.name none (String.ofList cs)) [], []) := by
  cases cs with
  | nil => cases h
  | cons c r =>
      have hc : isNameStart c = true := by
        by_contra hne
        simp [takeName?, hne] at h
      have hspace := (ne_of_isNameStart hc).1
      have hsteps : readSteps (n + 4) .context ('/' :: '/' :: c :: r) =
          some (.step (deep .context) .child (.name none (String.ofList (c :: r))) [], []) := by
        rw [readSteps, skipSpace_cons hspace, readStep_name h]
        rfl
      have hpath : readRelative (n + 5) .context ('.' :: '/' :: '/' :: c :: r) =
          some (.step (deep .context) .child (.name none (String.ofList (c :: r))) [], []) :=
        hsteps
      have hoperand : readOperand (n + 6) ('.' :: '/' :: '/' :: c :: r) =
          some (.step (deep .context) .child (.name none (String.ofList (c :: r))) [], []) :=
        hpath
      rw [readUnion, hoperand]
      rfl

theorem toList_below (name : String) :
    (".//" ++ name).toList = '.' :: '/' :: '/' :: name.toList := by
  rw [String.toList_append]
  rfl

theorem readExpression?_below {name : String} (h : Markup.IsName name) :
    readExpression? ('.' :: '/' :: '/' :: name.toList) =
      some ((LocalTest.element { base := name }).path .context) := by
  have hlen : 16 * (('.' :: '/' :: '/' :: name.toList).length + 2) =
      16 * name.toList.length + 66 + 7 + 7 := by
    simp only [List.length_cons]
    omega
  have hminus : takeMinus ('.' :: '/' :: '/' :: name.toList) =
      (0, '.' :: '/' :: '/' :: name.toList) := by
    rw [takeMinus]
    rfl
  have hunion := readUnion_below (n := 16 * name.toList.length + 66) h
  have hlevel := readLevel_of_readUnion hminus hunion
  rw [String.ofList_toList] at hlevel
  rw [readExpression?, hlen, hlevel]
  rfl

theorem read?_of_readExpression? {s : String} {e : XPath} (h : readExpression? s.toList = some e) :
    read? s = some e := by
  unfold read?
  dsimp only
  generalize readExpression? s.toList = found at h ⊢
  subst h
  rfl

/-- The text of the selector of all elements of a name below the context. -/
theorem read?_below {name : String} (h : Markup.IsName name) :
    read? (".//" ++ name) = some ((LocalTest.element { base := name }).path .context) := by
  apply read?_of_readExpression?
  rw [toList_below]
  exact readExpression?_below h

end XPath

/-! ## The path from a node on -/

namespace Markup

/-- The identity and the label of an item that is a node. -/
def Item.node? : Item → Option (Nat × Label)
  | .node id l => some (id, l)
  | .text _ _ => none

theorem Content.filterMap_node?_items (c : Content) (place : Option TextPlace) :
    (c.items place).filterMap Item.node? = c.nodes := by
  have htext : ∀ (s : String) (place : Option TextPlace),
      (textItems s place).filterMap Item.node? = [] := by
    intro s place
    unfold textItems
    split <;> rfl
  induction c generalizing place with
  | text s => exact htext s place
  | node before id l inner rest ih₁ ih₂ =>
      simp [Content.items, Content.nodes, htext, ih₁, ih₂, Item.node?]

/-- The nodes inside a node are those of its row. -/
theorem nodes_eq_filterMap_row (i : Nat) (inner : Content) (r : Nat) :
    inner.nodes = (row i inner r).filterMap fun p => p.1.item.node? := by
  rw [← inner.filterMap_node?_items (some (.inside i)),
    ← inner.map_item_entries (some r) (some (.inside i)) (r + 1), List.filterMap_map,
    ← List.zipIdx_map_fst (r + 1) (inner.entries _ _ _), List.filterMap_map]
  rfl

end Markup

namespace XPath

section
variable {d : Document} {i r : Nat} {l : Label} {inner : Content}

theorem mem_inside (h : Outline.Holds d i l inner r) {q : Nat} :
    q ∈ (Outline.ofDocument d).inside r ↔ ∃ e, (e, q) ∈ row i inner r := by
  rw [Outline.inside, mem_range, h.stop]
  constructor
  · rintro ⟨hlt, hle⟩
    exact h.exists_mem q hlt hle
  · rintro ⟨e, he⟩
    obtain ⟨hle, hq, hstop, _⟩ := Content.nested_entries h.proper he
    rw [row, List.length_zipIdx]
    exact ⟨hle, by omega⟩

theorem stop_of_mem_row (h : Outline.Holds d i l inner r) {e : Entry} {q : Nat}
    (he : (e, q) ∈ row i inner r) : (Outline.ofDocument d).stop q = e.stop := by
  simp [Outline.stop, h.getElem? he]

/-- What stands directly in the node or in something inside it is inside it. -/
theorem exists_of_child (h : Outline.Holds d i l inner r) {p q : Nat}
    (hp : p = r ∨ ∃ e, (e, p) ∈ row i inner r)
    (hq : q ∈ (Outline.ofDocument d).children p) : ∃ e, (e, q) ∈ row i inner r := by
  have hq := List.mem_of_mem_filter hq
  rcases hp with rfl | ⟨e, he⟩
  · exact (mem_inside h).mp hq
  · rw [Outline.inside, mem_range, stop_of_mem_row h he] at hq
    obtain ⟨hle, _, hstop, _⟩ := Content.nested_entries h.proper he
    refine h.exists_mem q (by omega) ?_
    rw [row, List.length_zipIdx]
    omega

/-- What is inside the node stands directly in the node or in an element inside it. -/
theorem exists_parent (h : Outline.Holds d i l inner r) {e : Entry} {q : Nat}
    (he : (e, q) ∈ row i inner r) : ∃ p, q ∈ (Outline.ofDocument d).children p ∧
      (p = r ∨ ∃ f id k, (f, p) ∈ row i inner r ∧ f.item = .node id k ∧ k.isElement = true) := by
  obtain ⟨hle, hlt, hstop, hparent⟩ := Content.nested_entries h.proper he
  have hentry := h.getElem? he
  have hup : (Outline.ofDocument d).parent? q = e.parent := by
    rw [Outline.parent?, hentry, Option.bind_some]
  rcases hparent with hparent | ⟨f, p, id, k, hf, hparent, hpq, hend, hitem, hk⟩
  · refine ⟨r, List.mem_filter.mpr ⟨(mem_inside h).mpr ⟨e, he⟩, ?_⟩, Or.inl rfl⟩
    rw [hup, hparent]
    exact beq_self_eq_true _
  · refine ⟨p, List.mem_filter.mpr ⟨?_, ?_⟩, Or.inr ⟨f, id, k, hf, hitem, hk⟩⟩
    · rw [Outline.inside, mem_range, stop_of_mem_row h hf]
      exact ⟨hpq, by omega⟩
    · rw [hup, hparent]
      exact beq_self_eq_true _

/-- The descent from a node on leads to the node, and to what is inside it. -/
theorem mem_descent (h : Outline.Holds d i l inner r) (hl : l.isElement = true) {n : Node} :
    n ∈ stepNodes (.ofDocument d) .descendantOrSelf .node none [.entry r] ↔ n = .entry r ∨
      ∃ e q, n = .entry q ∧ (e, q) ∈ row i inner r ∧ Node.isKnown (.ofDocument d) q = true := by
  rw [mem_stepNodes]
  constructor
  · rintro ⟨m, hm, halong, hpass⟩
    obtain rfl := List.mem_singleton.mp hm
    rcases List.mem_cons.mp halong with rfl | halong
    · exact Or.inl rfl
    · obtain ⟨q, hq, rfl⟩ := List.mem_map.mp halong
      obtain ⟨e, he⟩ := (mem_inside h).mp hq
      exact Or.inr ⟨e, q, rfl, he, hpass⟩
  · rintro (rfl | ⟨e, q, rfl, he, hknown⟩)
    · exact ⟨_, List.mem_singleton_self _, List.mem_cons_self, isKnown_of_element h.item hl⟩
    · refine ⟨_, List.mem_singleton_self _, List.mem_cons_of_mem _ ?_, hknown⟩
      exact List.mem_map_of_mem ((mem_inside h).mpr ⟨e, he⟩)

/-- Whether an entry is an element of a name. -/
def isNamed (name : NameTest) (e : Entry) : Bool := e.item.node?.any fun n => named [name] n.2

theorem isNamed_iff {name : NameTest} {e : Entry} : isNamed name e = true ↔
    ∃ id nm as ds, e.item = .node id (.element nm as ds) ∧ name.fits nm = true := by
  unfold isNamed
  cases e.item with
  | node id k => cases k <;> simp [Markup.Item.node?, named]
  | text s place => simp [Markup.Item.node?]

/-- The elements of a name inside a node, by their places. -/
def elementsIn (name : NameTest) (row : List (Entry × Nat)) : List Node :=
  (row.filter fun p => isNamed name p.1).map fun p => .entry p.2

theorem mem_elementsIn {name : NameTest} {row : List (Entry × Nat)} {n : Node} :
    n ∈ elementsIn name row ↔ ∃ e q, n = .entry q ∧ (e, q) ∈ row ∧ isNamed name e = true := by
  simp only [elementsIn, List.mem_map, List.mem_filter, Prod.exists]
  constructor
  · rintro ⟨e, q, ⟨he, hname⟩, rfl⟩
    exact ⟨e, q, rfl, he, hname⟩
  · rintro ⟨e, q, rfl, he, hname⟩
    exact ⟨e, q, ⟨he, hname⟩, rfl⟩

theorem pairwise_elementsIn (name : NameTest) (i : Nat) (inner : Content) (r : Nat) :
    (elementsIn name (row i inner r)).Pairwise Node.Before := by
  have hplaces : (row i inner r).Pairwise fun p q => p.2 < q.2 := by
    rw [← List.pairwise_map (f := Prod.snd), row, List.zipIdx_map_snd]
    exact List.pairwise_lt_range' 1
  refine List.pairwise_map.mpr ((hplaces.filter _).imp fun {p q} hpq => ⟨?_, ?_⟩)
  · exact Node.le_iff.mpr (Or.inl (Nat.add_lt_add_right hpq 1))
  · intro heq
    exact Nat.ne_of_lt hpq (Node.entry.inj heq)

/-- The path of the elements of a name leads to those inside the node. -/
theorem stepNodes_elementsIn (h : Outline.Holds d i l inner r) (hl : l.isElement = true)
    (name : NameTest) :
    stepNodes (.ofDocument d) .child (.name name.qualifier name.base) name.space
        (stepNodes (.ofDocument d) .descendantOrSelf .node none [.entry r]) =
      elementsIn name (row i inner r) := by
  apply Node.eq_of_pairwise (Node.pairwise_inOrder _) (pairwise_elementsIn name i inner r)
  intro n
  rw [mem_elementsIn]
  change n ∈ stepNodes _ _ _ _ _ ↔ _
  rw [mem_stepNodes]
  constructor
  · rintro ⟨m, hm, halong, hpass⟩
    obtain ⟨p, rfl, hp⟩ : ∃ p, m = .entry p ∧ (p = r ∨ ∃ e, (e, p) ∈ row i inner r) := by
      rcases (mem_descent h hl).mp hm with rfl | ⟨e, q, rfl, he, _⟩
      · exact ⟨r, rfl, Or.inl rfl⟩
      · exact ⟨q, rfl, Or.inr ⟨e, he⟩⟩
    obtain ⟨q, hq, rfl⟩ := List.mem_map.mp halong
    obtain ⟨e, he⟩ := exists_of_child h hp hq
    have hitem := (passes_element_iff (Outline.item?_of_getElem? (h.getElem? he)) name).mp hpass
    exact ⟨e, q, rfl, he, isNamed_iff.mpr hitem⟩
  · rintro ⟨e, q, rfl, he, hname⟩
    obtain ⟨p, hq, hp⟩ := exists_parent h he
    have hitem := Outline.item?_of_getElem? (h.getElem? he)
    refine ⟨.entry p, (mem_descent h hl).mpr ?_, List.mem_map_of_mem hq,
      (passes_element_iff hitem name).mpr (isNamed_iff.mp hname)⟩
    rcases hp with rfl | ⟨f, id, k, hf, hfitem, hk⟩
    · exact Or.inl rfl
    · have hknown := Outline.item?_of_getElem? (h.getElem? hf)
      rw [hfitem] at hknown
      exact Or.inr ⟨f, p, rfl, hf, isKnown_of_element hknown hk⟩

end

end XPath

/-! ## What is found -/

/-- The selector of the elements of a name below an element finds these, in document order, and
nothing else. -/
theorem Match.select_below (language : Language) {d : Document} {i : Nat} {l : Label}
    {inner : Content} (h : d.find? i = some (l, inner)) (hl : l.isElement = true)
    (name : XPath.NameTest) :
    d.select language i ((XPath.LocalTest.element name).path .context) =
      .ok ((inner.nodes.filter fun n => XPath.named [name] n.2).map fun n => .node n.1, d) := by
  obtain ⟨r, hr⟩ := Document.exists_holds h
  have hfocus : XPath.focusAt d i = ⟨.entry r, none⟩ := by
    simp [XPath.focusAt, Outline.find?_of_item? hr.item]
  have hrun := @XPath.run_path (.ofDocument d language) (XPath.focusAt d i) .context (.entry r)
    (.element name) (by rw [hfocus]; rfl)
  rw [select_of_run ⟨l, inner, h, hl⟩ hrun]
  change Except.ok (ofValue (.ofDocument d) (.nodes (XPath.stepNodes (.ofDocument d) .child
    (.name name.qualifier name.base) name.space (XPath.stepNodes (.ofDocument d) _ _ _ _))), d) = _
  rw [XPath.stepNodes_elementsIn hr hl, ofValue, Markup.nodes_eq_filterMap_row i inner r]
  congr 2
  rw [XPath.elementsIn, List.filterMap_map, List.filterMap_filter, List.filter_filterMap,
    List.map_filterMap]
  refine List.filterMap_congr fun p hp => ?_
  have hitem := Outline.item?_of_getElem? (hr.getElem? hp)
  cases hnode : p.1.item with
  | text s place => simp [XPath.isNamed, hnode, Markup.Item.node?]
  | node j k =>
      rw [hnode] at hitem
      cases hname : XPath.named [name] k <;>
        simp [XPath.isNamed, hnode, Markup.Item.node?, ofNode?, hitem, hname]

end Harvest
