import Harvest.Proofs.Markup.Nesting
import Harvest.Proofs.XPath.Local

/-!
# Reaching all below

From the document or from its root on, a descent reaches every element, so that a union of tests of
single nodes finds all that passes one of them inside the root.
-/

namespace Harvest

open Markup (Document Outline Content Label Attribute Entry Target Language)
open Markup.Outline (mainRow)

namespace XPath

/-! ## Reaching all below -/

/-- Nodes of the document itself among which are all its elements. -/
structure Covers (d : Document) (ns : List Node) : Prop where
  sound : ∀ n ∈ ns, n = .document ∨ ∃ e i, n = .entry i ∧ (e, i) ∈ mainRow d
  elements : ∀ {e : Entry} {i id : Nat} {l : Label}, (e, i) ∈ mainRow d → e.item = .node id l →
    l.isElement = true → .entry i ∈ ns

theorem isKnown_of_element {o : Outline} {i id : Nat} {l : Label}
    (h : o.item? i = some (.node id l)) (hl : l.isElement = true) : Node.isKnown o i = true := by
  rw [Node.isKnown, h]
  cases l with
  | element name as ds => rfl
  | comment value => rfl
  | instruction target value => rfl
  | entity name value => simp [Label.isElement] at hl

theorem item?_of_entry {d : Document} {e : Entry} {i id : Nat} {l : Label}
    (he : (e, i) ∈ mainRow d) (hitem : e.item = .node id l) :
    (Outline.ofDocument d).item? i = some (.node id l) := by
  rw [Outline.item?_of_mem he, hitem]

theorem mem_range {start stop i : Nat} : i ∈ Outline.range start stop ↔ start ≤ i ∧ i < stop := by
  simp only [Outline.range, List.mem_range'_1]
  omega

/-- From the document on, a descent reaches all of it. -/
theorem covers_document (d : Document) :
    Covers d (stepNodes (.ofDocument d) .descendantOrSelf .node none [.document]) := by
  have hmain := (Outline.main_ofDocument d).1
  constructor
  · intro n hn
    obtain ⟨m, hm, halong, _⟩ := mem_stepNodes.mp hn
    obtain rfl := List.mem_singleton.mp hm
    rcases List.mem_cons.mp halong with rfl | halong
    · exact Or.inl rfl
    · obtain ⟨i, hi, rfl⟩ := List.mem_map.mp halong
      rw [hmain, mem_range] at hi
      obtain ⟨e, he⟩ := Outline.mem_mainRow_of_lt hi.2
      exact Or.inr ⟨e, i, rfl, he⟩
  · intro e i id l he hitem hl
    refine mem_stepNodes.mpr ⟨_, List.mem_singleton_self _, ?_,
      isKnown_of_element (item?_of_entry he hitem) hl⟩
    refine List.mem_cons_of_mem _ (List.mem_map_of_mem ?_)
    rw [hmain, mem_range]
    exact ⟨Nat.zero_le i, (Outline.getElem?_of_mem_mainRow he).1⟩

/-- From the root on, a descent reaches every element. -/
theorem covers_root {d : Document} {root : Nat} (h : d.root? = some root) {g : Entry} {r : Nat}
    {k : Label} (hg : (g, r) ∈ mainRow d) (hroot : g.item = .node root k) :
    Covers d (stepNodes (.ofDocument d) .descendantOrSelf .node none [.entry r]) := by
  constructor
  · intro n hn
    obtain ⟨m, hm, halong, _⟩ := mem_stepNodes.mp hn
    obtain rfl := List.mem_singleton.mp hm
    rcases List.mem_cons.mp halong with rfl | halong
    · exact Or.inr ⟨g, r, rfl, hg⟩
    · obtain ⟨i, hi, rfl⟩ := List.mem_map.mp halong
      rw [Outline.inside, mem_range, Outline.stop_of_mem hg] at hi
      have hstop := (Content.nested_entries d.proper_main hg).2.2.1
      obtain ⟨e, he⟩ := Outline.mem_mainRow_of_lt (d := d) (i := i)
        (by simp only [mainRow, List.length_zipIdx]; omega)
      exact Or.inr ⟨e, i, rfl, he⟩
  · intro e i id l he hitem hl
    refine mem_stepNodes.mpr ⟨_, List.mem_singleton_self _, ?_,
      isKnown_of_element (item?_of_entry he hitem) hl⟩
    have hend := (Content.nested_entries d.proper_main he).2.1
    rcases Outline.within_root h hg hroot he hitem hl with rfl | ⟨hri, hstop⟩
    · exact List.mem_cons_self
    · refine List.mem_cons_of_mem _ (List.mem_map_of_mem ?_)
      rw [Outline.inside, mem_range, Outline.stop_of_mem hg]
      exact ⟨hri, by omega⟩

/-! ## What passes a test -/

theorem mem_taken {d : Document} {ts : List LocalTest} {t : Target} :
    t ∈ d.main.taken ts ↔ ∃ e i, (e, i) ∈ mainRow d ∧ t ∈ e.item.taken ts := by
  rw [Content.taken, List.mem_flatMap]
  constructor
  · rintro ⟨x, hx, ht⟩
    obtain ⟨e, i, he, rfl⟩ := Outline.exists_mem_mainRow hx
    exact ⟨e, i, he, ht⟩
  · rintro ⟨e, i, he, ht⟩
    exact ⟨e.item, Outline.item_mem_of_mem_mainRow he, ht⟩

section
variable {d : Document} {ns : List Node} {t : LocalTest} {n m : Node}

/-- What stands directly in what a descent reaches stands in the document itself. -/
theorem child_of_covers (hns : Covers d ns) (hm : m ∈ ns)
    (hn : n ∈ Node.along (.ofDocument d) .child m) :
    ∃ e i, n = .entry i ∧ (e, i) ∈ mainRow d := by
  rcases hns.sound m hm with rfl | ⟨e, i, rfl, he⟩
  · obtain ⟨j, hj, rfl⟩ := List.mem_map.mp hn
    have hj := List.mem_of_mem_filter hj
    rw [(Outline.main_ofDocument d).1, mem_range] at hj
    obtain ⟨e, he⟩ := Outline.mem_mainRow_of_lt hj.2
    exact ⟨e, j, rfl, he⟩
  · obtain ⟨j, hj, rfl⟩ := List.mem_map.mp hn
    have hj := List.mem_of_mem_filter hj
    rw [Outline.inside, mem_range, Outline.stop_of_mem he] at hj
    have hstop := (Content.nested_entries d.proper_main he).2.2.1
    have hlt : j < (mainRow d).length := by simp only [mainRow, List.length_zipIdx]; omega
    obtain ⟨f, hf⟩ := Outline.mem_mainRow_of_lt hlt
    exact ⟨f, j, rfl, hf⟩

/-- What stands inside a node stands directly in what a descent reaches. -/
theorem exists_child_of_covers (hns : Covers d ns) {e : Entry} {i : Nat}
    (he : (e, i) ∈ mainRow d) (hparent : e.parent ≠ none) :
    ∃ m ∈ ns, .entry i ∈ Node.along (.ofDocument d) .child m := by
  obtain ⟨_, hend, _, hnone | ⟨f, p, id, l, hf, hp, hpi, hstop, hitem, hl⟩⟩ :=
    Content.nested_entries d.proper_main he
  · exact absurd hnone hparent
  · refine ⟨.entry p, hns.elements hf hitem hl, List.mem_map_of_mem ?_⟩
    refine List.mem_filter.mpr ⟨?_, ?_⟩
    · rw [Outline.inside, mem_range, Outline.stop_of_mem hf]
      exact ⟨hpi, by omega⟩
    · rw [Outline.parent?_of_mem he, hp]
      exact beq_self_eq_true _

/-- The elements of a name pass its test. -/
theorem passes_element_iff {o : Outline} {i : Nat} {x : Markup.Item} (h : o.item? i = some x)
    (name : NameTest) :
    Node.passes o .child (.name name.qualifier name.base) name.space (.entry i) = true ↔
      ∃ id n as ds, x = .node id (.element n as ds) ∧ name.fits n = true := by
  have hspaces : (Axis.child == .namespaces) = false := rfl
  have hattrs : (Axis.child == .attributes) = false := rfl
  simp only [Node.passes, Node.principalName?, Outline.label?, h]
  cases x with
  | node id l => cases l <;> simp [NameTest.fits, hspaces, hattrs]
  | text s place => simp

theorem passes_text {e : Entry} {i : Nat} (he : (e, i) ∈ mainRow d) :
    Node.passes (.ofDocument d) .child .text none (.entry i) = match e.item with
      | .text .. => true
      | _ => false := by
  simp only [Node.passes, Outline.item?_of_mem he]
  cases e.item <;> rfl

theorem attribute?_attr {e : Entry} {i k id : Nat} {l : Label} (he : (e, i) ∈ mainRow d)
    (hitem : e.item = .node id l) :
    Node.attribute? (.ofDocument d) (.attr i k) = l.attributes[k]? := by
  simp [Node.attribute?, Node.attributesOf, Outline.label?, Outline.item?_of_mem he, hitem]

theorem passes_attr {e : Entry} {i k id : Nat} {l : Label} {a : Attribute}
    (he : (e, i) ∈ mainRow d) (hitem : e.item = .node id l) (ha : l.attributes[k]? = some a)
    (name : NameTest) : Node.passes (.ofDocument d) .attributes
      (.name name.qualifier name.base) name.space (.attr i k) = name.fitsAttribute a.name := by
  have hspaces : (Axis.attributes == .namespaces) = false := rfl
  simp [Node.passes, Node.principalName?, attribute?_attr he hitem, ha, NameTest.fitsAttribute,
    hspaces]

theorem mem_attributes {e : Entry} {i : Nat} (he : (e, i) ∈ mainRow d)
    (hn : n ∈ Node.along (.ofDocument d) .attributes (.entry i)) :
    ∃ id l k a, e.item = .node id l ∧ n = .attr i k ∧ l.attributes[k]? = some a := by
  obtain ⟨k, hk, rfl⟩ := List.mem_map.mp hn
  have hk := List.mem_range.mp hk
  cases hitem : e.item with
  | text s place =>
      simp [Node.attributesOf, Outline.label?, Outline.item?_of_mem he, hitem] at hk
  | node id l =>
      have hlen : k < l.attributes.length := by
        simpa [Node.attributesOf, Outline.label?, Outline.item?_of_mem he, hitem] using hk
      exact ⟨id, l, k, l.attributes[k], rfl, rfl, List.getElem?_eq_getElem hlen⟩

theorem mem_taken_element {x : Markup.Item} {name : NameTest} {g : Target} :
    g ∈ x.taken [.element name] ↔
      ∃ id n as ds, x = .node id (.element n as ds) ∧ name.fits n = true ∧ g = .node id := by
  cases x with
  | text s place => cases place <;> simp [Markup.Item.taken, LocalTest.takesText]
  | node id l =>
      cases l with
      | element n as ds =>
          simp [Markup.Item.taken, takesLabel, LocalTest.takesElement, LocalTest.takesAttribute]
      | _ => simp [Markup.Item.taken, takesLabel, Label.attributes]

theorem mem_taken_attr {x : Markup.Item} {name : NameTest} {g : Target} :
    g ∈ x.taken [.attr name] ↔
      ∃ id l a, x = .node id l ∧ a ∈ l.attributes ∧ name.fitsAttribute a.name = true ∧
        g = .attr id a.name.expanded := by
  cases x with
  | text s place => cases place <;> simp [Markup.Item.taken, LocalTest.takesText]
  | node id l =>
      have hlabel : takesLabel [.attr name] l = false := by
        cases l <;> simp [takesLabel, LocalTest.takesElement]
      simp only [Markup.Item.taken, hlabel, Bool.false_eq_true, if_false, List.nil_append,
        List.mem_map, List.mem_filter, List.any_cons, List.any_nil, Bool.or_false,
        LocalTest.takesAttribute]
      constructor
      · rintro ⟨a, ⟨ha, hfits⟩, rfl⟩
        exact ⟨id, l, a, rfl, ha, hfits, rfl⟩
      · rintro ⟨_, _, a, heq, ha, hfits, rfl⟩
        obtain ⟨rfl, rfl⟩ := Markup.Item.node.inj heq
        exact ⟨a, ⟨ha, hfits⟩, rfl⟩

theorem mem_taken_text {x : Markup.Item} {g : Target} :
    g ∈ x.taken [.text] ↔ ∃ s place, x = .text s (some place) ∧ g = .text place := by
  cases x with
  | text s place => cases place <;> simp [Markup.Item.taken, LocalTest.takesText]
  | node id l =>
      have hlabel : takesLabel [.text] l = false := by
        cases l <;> simp [takesLabel, LocalTest.takesElement]
      simp [Markup.Item.taken, hlabel, LocalTest.takesAttribute]

/-- What a path finds passes its test. -/
theorem taken_of_path (hns : Covers d ns)
    (hn : n ∈ stepNodes (.ofDocument d) t.axis t.nodeTest t.space ns) {g : Target}
    (hg : n.target? (.ofDocument d) = some g) : g ∈ d.main.taken [t] := by
  obtain ⟨m, hm, halong, hpass⟩ := mem_stepNodes.mp hn
  rw [mem_taken]
  cases t with
  | element name =>
      obtain ⟨e, i, rfl, he⟩ := child_of_covers hns hm halong
      refine ⟨e, i, he, mem_taken_element.mpr ?_⟩
      change Node.passes _ .child (.name name.qualifier name.base) name.space _ = true at hpass
      obtain ⟨id, n, as, ds, hitem, hfits⟩ :=
        (passes_element_iff (Outline.item?_of_mem he) name).mp hpass
      rw [Node.target?_entry (Outline.item?_of_mem he), hitem] at hg
      exact ⟨id, n, as, ds, hitem, hfits, (Option.some.inj hg).symm⟩
  | attr name =>
      rcases hns.sound m hm with rfl | ⟨e, i, rfl, he⟩
      · simp [LocalTest.axis, Node.along, Node.fromDocument] at halong
      · obtain ⟨id, l, k, a, hitem, rfl, ha⟩ := mem_attributes he halong
        refine ⟨e, i, he, mem_taken_attr.mpr ⟨id, l, a, hitem, List.mem_of_getElem? ha, ?_, ?_⟩⟩
        · exact (passes_attr he hitem ha name).symm.trans hpass
        · rw [Node.target?_attr (by rw [Outline.item?_of_mem he, hitem]) ha] at hg
          exact (Option.some.inj hg).symm
  | text =>
      obtain ⟨e, i, rfl, he⟩ := child_of_covers hns hm halong
      refine ⟨e, i, he, mem_taken_text.mpr ?_⟩
      change Node.passes _ .child .text none _ = true at hpass
      rw [passes_text he] at hpass
      rw [Node.target?_entry (Outline.item?_of_mem he)] at hg
      split at hpass
      · rename_i s place hitem
        rw [hitem] at hg
        cases place with
        | none => simp [Markup.Item.target?] at hg
        | some place => exact ⟨s, place, hitem, (Option.some.inj hg).symm⟩
      · simp at hpass

/-- What is taken of an item that stands in no node are attributes or an outermost node. -/
theorem parent_ne_none_of_taken {ts : List LocalTest} {e : Entry} {i : Nat}
    (he : (e, i) ∈ mainRow d) {g : Target} (hg : g ∈ e.item.taken ts)
    (hinner : d.main.isInner g = true) (hattr : ∀ id a, g ≠ .attr id a) : e.parent ≠ none := by
  intro hnone
  -- outermost nodes are no target of a removal from inside, and there is no text around the root
  have hout := Content.outermost_of_parent d.proper_main he hnone
  cases hitem : e.item with
  | node id l =>
      rw [hitem] at hg hout
      have htop : id ∈ d.main.topIds := hout.1
      rcases List.mem_append.mp hg with hg | hg
      · split at hg
        · obtain rfl := List.mem_singleton.mp hg
          simp [Content.isInner, htop] at hinner
        · simp at hg
      · obtain ⟨a, _, rfl⟩ := List.mem_map.mp hg
        exact hattr id _ rfl
  | text s place =>
      rw [hitem] at hout
      exact hout d.whole_main.no_text

/-- What passes a test and stands inside a node is found by its path. -/
theorem path_of_taken (hns : Covers d ns) {g : Target} (hg : g ∈ d.main.taken [t])
    (hinner : d.main.isInner g = true) :
    ∃ n ∈ stepNodes (.ofDocument d) t.axis t.nodeTest t.space ns,
      n.target? (.ofDocument d) = some g := by
  obtain ⟨e, i, he, hg⟩ := mem_taken.mp hg
  have hitem? := Outline.item?_of_mem he
  have htarget := Node.target?_entry hitem?
  -- elements and texts are found as children, so what stands in no node would be missed
  have hparent := parent_ne_none_of_taken he hg hinner
  cases t with
  | element name =>
      obtain ⟨id, n, as, ds, hitem, hfits, rfl⟩ := mem_taken_element.mp hg
      have hpass := (passes_element_iff hitem? name).mpr ⟨id, n, as, ds, hitem, hfits⟩
      rw [hitem] at htarget
      obtain ⟨m, hm, halong⟩ := exists_child_of_covers hns he (hparent (by simp))
      exact ⟨_, mem_stepNodes.mpr ⟨m, hm, halong, hpass⟩, htarget⟩
  | attr name =>
      obtain ⟨id, l, a, hitem, ha, hfits, rfl⟩ := mem_taken_attr.mp hg
      rw [hitem] at hitem?
      obtain ⟨k, hk⟩ := List.getElem?_of_mem ha
      have hl : l.isElement = true := by
        cases l with
        | element n as ds => rfl
        | _ => cases ha
      have hlen : k < (Node.attributesOf (.ofDocument d) i).length := by
        have hlt := (List.getElem?_eq_some_iff.mp hk).1
        simpa [Node.attributesOf, Outline.label?, hitem?] using hlt
      refine ⟨.attr i k, mem_stepNodes.mpr ⟨_, hns.elements he hitem hl, ?_, ?_⟩, ?_⟩
      · exact List.mem_map_of_mem (List.mem_range.mpr hlen)
      · exact (passes_attr he hitem hk name).trans hfits
      · exact Node.target?_attr hitem? hk
  | text =>
      obtain ⟨s, place, hitem, rfl⟩ := mem_taken_text.mp hg
      have hpass := passes_text he
      rw [hitem] at hpass htarget
      obtain ⟨m, hm, halong⟩ := exists_child_of_covers hns he (hparent (by simp))
      exact ⟨_, mem_stepNodes.mpr ⟨m, hm, halong, hpass⟩, htarget⟩

end

/-! ## Unions -/

theorem mem_taken_append {ts us : List LocalTest} {x : Markup.Item} {g : Target} :
    g ∈ x.taken (ts ++ us) ↔ g ∈ x.taken ts ∨ g ∈ x.taken us := by
  cases x with
  | text s place => cases place <;> simp [Markup.Item.taken, or_and_right]
  | node id l =>
      have hlabel : takesLabel (ts ++ us) l = (takesLabel ts l || takesLabel us l) := by
        cases l <;> simp [takesLabel]
      simp only [Markup.Item.taken, hlabel, List.any_append, Bool.or_eq_true, List.mem_append,
        List.mem_map, List.mem_filter, List.mem_ite_nil_right, List.mem_singleton]
      grind

theorem mem_content_taken_append {ts us : List LocalTest} {c : Content} {g : Target} :
    g ∈ c.taken (ts ++ us) ↔ g ∈ c.taken ts ∨ g ∈ c.taken us := by
  simp only [Content.taken, List.mem_flatMap, mem_taken_append]
  constructor
  · rintro ⟨x, hx, hg | hg⟩
    · exact Or.inl ⟨x, hx, hg⟩
    · exact Or.inr ⟨x, hx, hg⟩
  · rintro (⟨x, hx, hg⟩ | ⟨x, hx, hg⟩)
    · exact ⟨x, hx, Or.inl hg⟩
    · exact ⟨x, hx, Or.inr hg⟩

/-- The focus of a selector at a node of a document. -/
def focusAt (d : Document) (context : Nat) : Focus :=
  ⟨(((Outline.ofDocument d).find? context).map .entry).getD .document, none⟩

/-- A union of tests of single nodes finds what passes one of the tests: nothing else, and all that
stands inside a node. -/
theorem run_localUnion (language : Language) {d : Document} {context : Nat} {query : XPath}
    {ts : List LocalTest} (h : LocalUnion d context query ts) :
    ∃ ns, (eval query (focusAt d context)).run (.ofDocument d language) =
        .ok (.nodes ns, .ofDocument d language) ∧
      (∀ n ∈ ns, ∀ g, n.target? (.ofDocument d) = some g → g ∈ d.main.taken ts) ∧
      (∀ g ∈ d.main.taken ts, d.main.isInner g = true →
        ∃ n ∈ ns, n.target? (.ofDocument d) = some g) := by
  induction h with
  | everywhere t =>
      have hns := covers_document d
      exact ⟨_, run_path t rfl, fun n hn g hg => taken_of_path hns hn hg,
        fun g hg hinner => path_of_taken hns hg hinner⟩
  | inRoot t hroot =>
      obtain ⟨e, r, l, hfind, he, hitem, _⟩ := Outline.find?_root hroot
      have hns := covers_root hroot he hitem
      have hfocus : (focusAt d context).node = .entry r := by simp [focusAt, hfind]
      refine ⟨_, run_path t (n := .entry r) ?_, fun n hn g hg => taken_of_path hns hn hg,
        fun g hg hinner => path_of_taken hns hg hinner⟩
      rw [← hfocus]
      rfl
  | union ha hb iha ihb =>
      -- both parts leave the scene as it is, so the second one starts where the first one did
      obtain ⟨ns, hrun, hsound, hcomplete⟩ := iha
      obtain ⟨ms, hrun', hsound', hcomplete'⟩ := ihb
      refine ⟨Node.inOrder (ns ++ ms), ?_, ?_, ?_⟩
      · unfold eval
        rw [Eval.run_bind_of_ok hrun]
        have hns : (nodesOf (.nodes ns)).run (.ofDocument d language) =
          .ok (ns, .ofDocument d language) := rfl
        have hms : (nodesOf (.nodes ms)).run (.ofDocument d language) =
          .ok (ms, .ofDocument d language) := rfl
        dsimp only
        rw [Eval.run_bind_of_ok hns, Eval.run_bind_of_ok hrun', Eval.run_bind_of_ok hms]
        rfl
      · intro n hn g hg
        rw [Node.mem_inOrder, List.mem_append] at hn
        rw [mem_content_taken_append]
        exact hn.imp (fun hn => hsound n hn g hg) (fun hn => hsound' n hn g hg)
      · intro g hg hinner
        rcases mem_content_taken_append.mp hg with hg | hg
        · obtain ⟨n, hn, ht⟩ := hcomplete g hg hinner
          exact ⟨n, by simp [hn], ht⟩
        · obtain ⟨n, hn, ht⟩ := hcomplete' g hg hinner
          exact ⟨n, by simp [hn], ht⟩

end XPath

/-! ## What is found -/

theorem Match.targets_nodes (o : Markup.Outline) (ns : List XPath.Node) :
    targets (ofValue o (.nodes ns)) = ns.filterMap (XPath.Node.target? o) := by
  rw [targets, ofValue, List.filterMap_filterMap]
  rfl

/-- What a selector finds at an element, where evaluating it adds nothing to the document. -/
theorem Match.select_of_run {language : Language} {d : Document} {context : Nat} {query : XPath}
    {ns : List XPath.Node} (h : d.HasElement context)
    (hrun : (XPath.eval query (XPath.focusAt d context)).run (.ofDocument d language) =
      .ok (.nodes ns, .ofDocument d language)) :
    d.select language context query = .ok (ofValue (.ofDocument d) (.nodes ns), d) := by
  obtain ⟨l, inner, hfind, hl⟩ := h
  cases l with
  | element n as ds =>
      unfold Document.select
      rw [hfind]
      dsimp only
      split
      · rename_i v scene heq
        have hsame := heq.symm.trans hrun
        obtain ⟨rfl, rfl⟩ := Prod.mk.inj (Except.ok.inj hsame)
        rfl
      · rename_i e heq
        have hsame := heq.symm.trans hrun
        simp at hsame
  | comment value => simp [Label.isElement] at hl
  | instruction target value => simp [Label.isElement] at hl
  | entity name value => simp [Label.isElement] at hl

/-- A union of tests of single nodes finds what passes one of them. -/
theorem Match.select_localUnion (language : Language) {d : Document} {context : Nat}
    {query : XPath} {ts : List XPath.LocalTest} (h : d.HasElement context)
    (hq : XPath.LocalUnion d context query ts) :
    ∃ found, d.select language context query = .ok (found, d) ∧
      (∀ g ∈ targets found, g ∈ d.main.taken ts) ∧
      (∀ g ∈ d.main.taken ts, d.main.isInner g = true → g ∈ targets found) := by
  obtain ⟨ns, hrun, hsound, hcomplete⟩ := XPath.run_localUnion language hq
  refine ⟨_, select_of_run h hrun, ?_, ?_⟩
  · intro g hg
    rw [targets_nodes, List.mem_filterMap] at hg
    obtain ⟨n, hn, ht⟩ := hg
    exact hsound n hn g ht
  · intro g hg hinner
    obtain ⟨n, hn, ht⟩ := hcomplete g hg hinner
    rw [targets_nodes, List.mem_filterMap]
    exact ⟨n, hn, ht⟩

end Harvest
