import Harvest.Proofs.Prune.Local

/-!
# Pruning elements by name

Pruning the elements of some names erases them from the document, and counts each of them, also
those inside others.  In which order names are pruned does not matter.
-/

namespace Harvest

open Markup (Document Content Label Target TextPlace idsOf takeFrom?)
open XPath (LocalTest LocalUnion NameTest takesLabel)

/-- Whether a node is an element of one of some names. -/
def XPath.named (names : List NameTest) : Label → Bool
  | .element name _ _ => names.any (·.fits name)
  | _ => false

namespace Markup.Content

open XPath (named)

variable {names : List NameTest}

theorem takesLabel_elements (names : List NameTest) :
    takesLabel (names.map .element) = named names := by
  funext l
  cases l <;> simp [takesLabel, named, LocalTest.takesElement, Function.comp_def]

theorem named_append (as bs : List NameTest) :
    named (as ++ bs) = fun l => named as l || named bs l := by
  funext l
  cases l <;> simp [named]

/-- Tests of elements take the elements of the names, and nothing else. -/
theorem taken_elements (x : Item) : x.taken (names.map .element) = match x with
    | .node id l => if named names l then [.node id] else []
    | .text _ _ => [] := by
  cases x with
  | node id l =>
      have hattr : (l.attributes.filter fun a =>
          (names.map LocalTest.element).any (·.takesAttribute a.name)) = [] := by
        simp [List.filter_eq_nil_iff, LocalTest.takesAttribute]
      simp only [Item.taken, hattr, takesLabel_elements, List.map_nil, List.append_nil]
  | text s place => cases place <;> simp [Item.taken, LocalTest.takesText]

theorem mem_taken_elements {c : Content} {g : Target} (h : g ∈ c.taken (names.map .element)) :
    ∃ id l, g = .node id ∧ .node id l ∈ c.items none ∧ named names l = true := by
  obtain ⟨x, hx, hg⟩ := List.mem_flatMap.mp h
  rw [taken_elements] at hg
  cases x with
  | node id l =>
      simp only [List.mem_ite_nil_right, List.mem_singleton] at hg
      exact ⟨id, l, hg.2, hx, hg.1⟩
  | text s place => simp at hg

/-- Tests of elements take nodes in document order. -/
theorem taken_elements_sublist (c : Content) :
    (c.taken (names.map .element)).Sublist (c.ids.map .node) := by
  suffices h : ∀ place, ((c.items place).flatMap (Item.taken (names.map .element))).Sublist
      (c.ids.map .node) from h none
  have htext : ∀ s place, (textItems s place).flatMap (Item.taken (names.map .element)) = [] := by
    intro s place
    unfold textItems
    split <;> simp [taken_elements]
  induction c with
  | text s => simp [items, htext]
  | node before id l inner rest ih₁ ih₂ =>
      intro place
      simp only [items, List.flatMap_append, List.flatMap_cons, htext, List.nil_append, ids_node,
        List.map_cons, List.map_append, taken_elements]
      have hboth := (ih₁ (some (.inside id))).append (ih₂ (some (.behind id)))
      split
      · exact hboth.cons_cons _
      · exact hboth.cons _

/-- As many elements are taken as there are. -/
theorem length_taken_elements (c : Content) :
    (c.taken (names.map .element)).length = c.count (named names) := by
  suffices h : ∀ place, ((c.items place).flatMap (Item.taken (names.map .element))).length =
      c.count (named names) from h none
  have htext : ∀ s place, (textItems s place).flatMap (Item.taken (names.map .element)) = [] := by
    intro s place
    unfold textItems
    split <;> simp [taken_elements]
  induction c with
  | text s => simp [items, htext, count]
  | node before id l inner rest ih₁ ih₂ =>
      intro place
      simp only [items, List.flatMap_append, List.flatMap_cons, htext, List.nil_append,
        List.length_append, ih₁, ih₂, count, taken_elements]
      split <;> simp

/-! ## Outermost nodes -/

theorem exists_label_of_top {p : Label → Bool} {c : Content} (hp : c.Spares p)
    {place : Option TextPlace} {id : Nat} (h : id ∈ c.topIds) :
    ∃ l, .node id l ∈ c.items place ∧ p l = false := by
  induction c generalizing place with
  | text s => simp [topIds] at h
  | node before j k inner rest _ ih =>
      obtain ⟨hk, hrest⟩ := hp
      rcases List.mem_cons.mp h with rfl | h
      · exact ⟨k, by simp [items], hk⟩
      · obtain ⟨l, hmem, hl⟩ := @ih hrest (some (.behind j)) h
        exact ⟨l, by simp [items, hmem], hl⟩

/-- Where no outermost node is of a kind, all nodes of the kind stand inside others. -/
theorem isInner_of_spares {p : Label → Bool} {c : Content} (hn : c.ids.Nodup) (hp : c.Spares p)
    {id : Nat} {l : Label} (h : .node id l ∈ c.items none) (hl : p l = true) :
    c.isInner (.node id) = true := by
  have hnot : id ∉ c.topIds := by
    intro htop
    obtain ⟨k, hk, hpk⟩ := exists_label_of_top hp htop
    rw [label_unique hn h hk, hpk] at hl
    exact Bool.noConfusion hl
  simpa [isInner] using hnot

theorem spares_of_no_elements {p : Label → Bool} (hp : ∀ l, p l = true → l.isElement = true)
    {c : Content} (h : c.outerElements = 0) : c.Spares p := by
  induction c with
  | text s => trivial
  | node before id l inner rest _ ih =>
      rw [outerElements] at h
      refine ⟨?_, ih (by omega)⟩
      by_contra hl
      have hel := hp l (by simpa using hl)
      rw [if_pos hel] at h
      omega

/-- Where the root is not of a kind of elements, no outermost node is. -/
theorem spares_of_root {p : Label → Bool} (hp : ∀ l, p l = true → l.isElement = true)
    {c : Content} (hone : c.outerElements ≤ 1) {root : Nat}
    (hroot : Document.rootOf? c = some root) {place : Option TextPlace}
    (hl : ∀ l, .node root l ∈ c.items place → p l = false) : c.Spares p := by
  induction c generalizing place with
  | text s => trivial
  | node before id l inner rest _ ih =>
      rw [Document.rootOf?] at hroot
      rw [outerElements] at hone
      split at hroot
      · rename_i hel
        obtain rfl : id = root := by simpa using hroot
        refine ⟨hl l (by simp [items]), spares_of_no_elements hp ?_⟩
        rw [if_pos hel] at hone
        omega
      · rename_i hel
        rw [if_neg hel, Nat.zero_add] at hone
        refine ⟨?_, @ih hone hroot (some (.behind id)) fun k hk => hl k ?_⟩
        · by_contra hpl
          exact hel (hp l (by simpa using hpl))
        · simp [items, hk]

end Markup.Content

/-! ## Counting -/

namespace Markup

/-- The outermost nodes of several trees. -/
def topsOf (trees : List Content) : List Nat := trees.flatMap Content.topIds

theorem Content.topIds_of_take? {i : Nat} {c taken left : Content}
    (h : c.take? i = some (taken, left)) : taken.topIds = [i] := by
  induction c generalizing taken left with
  | text s => cases h
  | node before id l inner rest ih₁ ih₂ =>
      rcases take?_node h with ⟨hid, rfl, _⟩ | ⟨_, htake, _⟩ | ⟨_, htake, _⟩
      · simp [single, topIds, empty, hid]
      · exact ih₁ htake
      · exact ih₂ htake

theorem Content.topIds_taken_of_takeInside? {i : Nat} {c taken left : Content}
    (h : c.takeInside? i = some (taken, left)) : taken.topIds = [i] := by
  induction c generalizing taken left with
  | text s => cases h
  | node before id l inner rest _ ih =>
      rcases takeInside?_node h with ⟨_, htake, _⟩ | ⟨_, htake, _⟩
      · exact topIds_of_take? htake
      · exact ih htake

/-- A node that is taken out becomes an outermost one; all others stay what they are. -/
theorem topsOf_of_takeFrom? {i : Nat} {trees left : List Content} {taken : Content}
    (h : takeFrom? i trees = some (taken, left)) :
    topsOf (left ++ [taken]) = topsOf trees ++ [i] := by
  induction trees generalizing taken left with
  | nil => cases h
  | cons c cs ih =>
      rcases takeFrom?_cons h with ⟨c', htake, rfl⟩ | ⟨_, cs', htake, rfl⟩
      · simp [topsOf, Content.topIds_takeInside? htake, Content.topIds_taken_of_takeInside? htake]
      · have hcs := ih htake
        simp only [topsOf, List.cons_append, List.flatMap_cons, List.append_assoc] at hcs ⊢
        rw [hcs]

end Markup

namespace Match

/-- A node that stands inside another one can be detached. -/
theorem detach?_isSome {d : Document} {i : Nat} (hi : i ∈ idsOf d.trees)
    (htop : i ∉ Markup.topsOf d.trees) : ∃ d', d.detach? i = some d' := by
  cases hd : d.detach? i with
  | some d' => exact ⟨d', rfl⟩
  | none =>
      obtain ⟨c, hc, hic⟩ := Markup.mem_idsOf.mp hi
      have hnone := Markup.takeFrom?_eq_none (takeFrom?_of_detach?_none hd) c hc
      have hct : i ∉ c.topIds := fun h => htop (List.mem_flatMap.mpr ⟨c, hc, h⟩)
      have hsome := Content.take?_isSome hic
      rw [← Content.takeInside?_eq_take? hct, hnone] at hsome
      simp at hsome

/-- Detaching nodes that stand inside others, each of them once, counts each of them. -/
theorem count_detachAll {d : Document} {ms : List Match} (hn : (targets ms).Nodup)
    (h : ∀ g ∈ targets ms, ∃ i, g = .node i ∧ i ∈ idsOf d.trees ∧ i ∉ Markup.topsOf d.trees) :
    (detachAll d ms).2 = (targets ms).length := by
  induction ms generalizing d with
  | nil => rfl
  | cons m ms ih =>
      cases ht : m.target? with
      | none =>
          have hms : targets (m :: ms) = targets ms := by simp [targets, ht]
          rw [hms] at hn h ⊢
          have hm : m.detach d = (d, false) := by
            cases m <;> simp_all [target?, detach]
          simp [detachAll, hm, ih hn h]
      | some g =>
          have hms : targets (m :: ms) = g :: targets ms := by simp [targets, ht]
          rw [hms] at hn h ⊢
          obtain ⟨hg, hn'⟩ := List.nodup_cons.mp hn
          obtain ⟨i, rfl, hi, htop⟩ := h g List.mem_cons_self
          obtain rfl : m = .node i := by cases m <;> simp_all [target?]
          obtain ⟨d', hd⟩ := detach?_isSome hi htop
          obtain ⟨taken, left, htake, htrees⟩ := takeFrom?_of_detach?_some hd
          have hrest : ∀ g ∈ targets ms, ∃ j, g = .node j ∧ j ∈ idsOf d'.trees ∧
              j ∉ Markup.topsOf d'.trees := by
            intro g' hg'
            obtain ⟨j, rfl, hj, hjtop⟩ := h g' (List.mem_cons_of_mem _ hg')
            have hij : j ≠ i := fun e => hg (e ▸ hg')
            refine ⟨j, rfl, ?_, ?_⟩
            · rw [htrees]
              exact (Markup.ids_of_takeFrom? htake).mem_iff.mpr hj
            · rw [htrees, Markup.topsOf_of_takeFrom? htake]
              simp [hjtop, hij]
          simp [detachAll, detach, hd, ih hn' hrest]

end Match

namespace Markup

/-- Whether a target is a node. -/
def Target.isNode : Target → Bool
  | .node _ => true
  | _ => false

theorem Content.filter_isNode_targets (c : Content) :
    c.targets.filter Target.isNode = c.ids.map .node := by
  have htext : ∀ place s, (textTargets place s).filter Target.isNode = [] := by
    intro place s
    unfold textTargets
    split <;> rfl
  have hattr : ∀ id (l : Label), (l.targets id).filter Target.isNode = [] := by
    intro id l
    simp [Label.targets, List.filter_eq_nil_iff, Target.isNode]
  induction c with
  | text s => rfl
  | node before id l inner rest ih₁ ih₂ =>
      simp only [targets, List.filter_cons, List.filter_append, hattr, htext, ih₁, ih₂,
        Target.isNode]
      simp

/-- Nodes that stand in document order come once each. -/
theorem nodup_of_nodes {trees : List Content} (hn : (idsOf trees).Nodup) {gs : List Target}
    (hsub : gs.Sublist (trees.flatMap Content.targets)) (h : ∀ g ∈ gs, g.isNode = true) :
    gs.Nodup := by
  have hall : (trees.flatMap Content.targets).filter Target.isNode = (idsOf trees).map .node := by
    rw [List.filter_flatMap, idsOf, List.map_flatMap]
    congr 1
    funext c
    exact c.filter_isNode_targets
  have hnodes := hsub.filter Target.isNode
  rw [List.filter_eq_self.mpr h, hall] at hnodes
  exact (hn.map (fun i j hij => by simpa using hij)).sublist hnodes

theorem Document.mem_idsOf_main {d : Document} {i : Nat} (h : i ∈ d.main.ids) :
    i ∈ idsOf d.trees ∧ (i ∉ d.main.topIds → i ∉ topsOf d.trees) := by
  have hn := d.distinct
  unfold Document.main at h ⊢
  cases htrees : d.trees with
  | nil => simp [htrees, Content.empty] at h
  | cons c cs =>
      rw [htrees] at h hn
      rw [idsOf_cons, List.nodup_append] at hn
      refine ⟨List.mem_append_left _ h, fun htop => ?_⟩
      rw [topsOf, List.flatMap_cons, List.mem_append, not_or]
      refine ⟨htop, fun hcs => ?_⟩
      obtain ⟨e, he, hie⟩ := List.mem_flatMap.mp hcs
      exact hn.2.2 i h i (mem_idsOf.mpr ⟨e, he, Content.topIds_subset_ids e hie⟩) rfl

end Markup

/-! ## The root -/

namespace Markup.Document

variable {d : Document} {root : Nat}

theorem mem_nodes_of_items {c : Content} {place : Option TextPlace} {id : Nat} {l : Label}
    (h : .node id l ∈ c.items place) : (id, l) ∈ c.nodes := by
  have htext : ∀ s place, .node id l ∉ textItems s place := by
    intro s place
    unfold textItems
    split <;> simp
  induction c generalizing place with
  | text s => exact absurd h (htext s place)
  | node before j k inner rest ih₁ ih₂ =>
      simp only [Content.items, List.mem_append, List.mem_cons, htext, false_or] at h
      rw [Content.nodes, List.mem_cons, List.mem_append]
      rcases h with h | h | h
      · exact Or.inl (by simpa using h)
      · exact Or.inr (Or.inl (ih₁ h))
      · exact Or.inr (Or.inr (ih₂ h))

theorem mem_nodesOf_main {i : Nat} {l : Label} (h : (i, l) ∈ d.main.nodes) :
    (i, l) ∈ nodesOf d.trees := by
  unfold main at h
  cases htrees : d.trees with
  | nil => simp [htrees, Content.empty, Content.nodes] at h
  | cons c cs =>
      rw [htrees] at h
      exact List.mem_append_left _ h

/-- The root is an element. -/
theorem hasElement_root (h : d.root? = some root) : d.HasElement root := by
  obtain ⟨l, hl, hmem⟩ := exists_of_rootOf? h none
  rw [hasElement_iff]
  exact List.mem_map.mpr ⟨(root, l), mem_nodesOf_main (mem_nodes_of_items hmem),
    by simp [kindOf, hl]⟩

/-- Where the root has none of some names, no outermost node is an element of these names. -/
theorem spares_of_root {names : List NameTest} (h : d.root? = some root)
    (hname : ∀ l inner, d.find? root = some (l, inner) → XPath.named names l = false) :
    d.main.Spares (XPath.named names) := by
  obtain ⟨l, inner, hfind, _⟩ := hasElement_root h
  refine Content.spares_of_root (fun k hk => ?_) d.whole_main.one_element h
    (fun k (hk : .node root k ∈ d.main.items none) => ?_)
  · cases k <;> simp_all [XPath.named, Label.isElement]
  · have hn : ((nodesOf d.trees).map Prod.fst).Nodup := by
      rw [← idsOf_eq_map_nodesOf]
      exact d.distinct
    obtain ⟨c, hc, hf⟩ := List.exists_of_findSome?_eq_some hfind
    have hl : (root, l) ∈ nodesOf d.trees :=
      List.mem_flatMap.mpr ⟨c, hc, Content.mem_nodes_of_find? hf⟩
    have hkl := List.inj_on_of_nodup_map hn (mem_nodesOf_main (mem_nodes_of_items hk)) hl rfl
    obtain rfl : k = l := by simpa using hkl
    exact hname k inner hfind

end Markup.Document

/-! ## Pruning -/

namespace Extractor

variable {x : Extractor} {context : Nat} {selector : Selector} {d : Document}
  {names : List NameTest}

/-- Pruning elements by name erases them and counts them. -/
theorem run_prune_elements (h : d.HasElement context)
    (hq : LocalUnion d context selector.query (names.map .element))
    (hp : d.main.Spares (XPath.named names)) :
    ∃ d', (x.prune context selector).run d = (.ok (d.main.count (XPath.named names)), d') ∧
      d'.main = d.main.erase (XPath.named names) ∧ d'.HasElement context ∧ d'.root? = d.root? := by
  obtain ⟨found, hrun, hmain, hsub, hsound, hcomplete⟩ := run_prune_local (x := x) h hq
  have hlabels := Content.labelled_taken d.nodup_main (names.map .element)
  rw [Content.takesLabel_elements] at hlabels
  have hnodes : ∀ g ∈ d.main.taken (names.map .element), ∃ i, g = .node i ∧
      i ∈ idsOf d.trees ∧ i ∉ Markup.topsOf d.trees ∧ d.main.isInner g = true := by
    intro g hg
    obtain ⟨i, l, rfl, hl, hname⟩ := Content.mem_taken_elements hg
    obtain ⟨hi, htop⟩ := Document.mem_idsOf_main (Content.mem_ids_of_items hl)
    have hinner := Content.isInner_of_spares d.nodup_main hp hl hname
    exact ⟨i, rfl, hi, htop (by simpa [Content.isInner] using hinner), hinner⟩
  -- each of them is found once and stands inside a node, so that each one counts
  have hcount : (Match.detachAll d found).2 = d.main.count (XPath.named names) := by
    have hn : (Match.targets found).Nodup := by
      refine Markup.nodup_of_nodes d.distinct hsub fun g hg => ?_
      obtain ⟨i, rfl, _⟩ := hnodes g (hsound g hg)
      rfl
    have hn' : (d.main.taken (names.map .element)).Nodup :=
      (d.nodup_main.map (fun i j hij => by simpa using hij)).sublist
        (Content.taken_elements_sublist d.main)
    rw [Match.count_detachAll hn, ← Content.length_taken_elements]
    · refine ((List.perm_ext_iff_of_nodup hn hn').mpr fun g => ⟨hsound g, fun hg => ?_⟩).length_eq
      obtain ⟨_, _, _, _, hinner⟩ := hnodes g hg
      exact hcomplete g hg hinner
    · intro g hg
      obtain ⟨i, hi, hids, htop, _⟩ := hnodes g (hsound g hg)
      exact ⟨i, hi, hids, htop⟩
  -- attributes and texts are not aimed at
  have herase : (Match.detachAll d found).1.main = d.main.erase (XPath.named names) := by
    have hother : ∀ g, Content.chosenIn (d.main.taken (names.map .element)) g = true →
        ∃ i, g = .node i := by
      intro g hg
      obtain ⟨i, rfl, _⟩ := hnodes g (by simpa [Content.chosenIn] using hg)
      exact ⟨i, rfl⟩
    rw [hmain, Content.cutInside_eq_cut hlabels hp, Content.cut_eq_erase hlabels]
    · rw [← d.leading_main, Content.setLeading_leading]
    · intro id name
      by_contra hne
      obtain ⟨i, hi⟩ := hother _ (by simpa using hne)
      simp at hi
    · intro place
      by_contra hne
      obtain ⟨i, hi⟩ := hother _ (by simpa using hne)
      simp at hi
  refine ⟨_, hrun.trans (by rw [hcount]), herase, h.detachAll found, ?_⟩
  rw [Document.root?, Document.root?, herase, Content.rootOf?_erase hp]

/-- Pruning elements of some names from the root and then those of others, the other way round, or
all of them at once leaves the same content: the document without all these elements, with the text
around them joined.  Every time the elements that are there are counted. -/
theorem prune_elements_confluent {root : Nat} {as bs : List NameTest}
    {forAs forBs forBoth : Selector} (hroot : d.root? = some root)
    (hname : ∀ l inner, d.find? root = some (l, inner) → XPath.named (as ++ bs) l = false)
    (has : LocalUnion d root forAs.query (as.map .element))
    (hbs : LocalUnion d root forBs.query (bs.map .element))
    (hboth : LocalUnion d root forBoth.query ((as ++ bs).map .element)) :
    ∃ dA dAB dB dBA dU,
      (x.prune root forAs).run d = (.ok (d.main.count (XPath.named as)), dA) ∧
      (x.prune root forBs).run dA = (.ok (dA.main.count (XPath.named bs)), dAB) ∧
      (x.prune root forBs).run d = (.ok (d.main.count (XPath.named bs)), dB) ∧
      (x.prune root forAs).run dB = (.ok (dB.main.count (XPath.named as)), dBA) ∧
      (x.prune root forBoth).run d = (.ok (d.main.count (XPath.named (as ++ bs))), dU) ∧
      dAB.main = d.main.erase (XPath.named (as ++ bs)) ∧
      dBA.main = d.main.erase (XPath.named (as ++ bs)) ∧
      dU.main = d.main.erase (XPath.named (as ++ bs)) := by
  have hel := Document.hasElement_root hroot
  have hspares := Document.spares_of_root hroot hname
  have hor := Content.named_append as bs
  have hsparesA : d.main.Spares (XPath.named as) :=
    hspares.mono fun l hl => by rw [hor]; simp [hl]
  have hsparesB : d.main.Spares (XPath.named bs) :=
    hspares.mono fun l hl => by rw [hor]; simp [hl]
  obtain ⟨dA, hrunA, hmainA, helA, hrootA⟩ := run_prune_elements (x := x) hel has hsparesA
  obtain ⟨dB, hrunB, hmainB, helB, hrootB⟩ := run_prune_elements (x := x) hel hbs hsparesB
  obtain ⟨dU, hrunU, hmainU, _⟩ := run_prune_elements (x := x) hel hboth hspares
  have hsparesAB : dA.main.Spares (XPath.named bs) := by
    rw [hmainA]
    exact Content.spares_erase hsparesA hsparesB
  have hsparesBA : dB.main.Spares (XPath.named as) := by
    rw [hmainB]
    exact Content.spares_erase hsparesB hsparesA
  obtain ⟨dAB, hrunAB, hmainAB, _⟩ :=
    run_prune_elements (x := x) helA (hbs.of_root hrootA) hsparesAB
  obtain ⟨dBA, hrunBA, hmainBA, _⟩ :=
    run_prune_elements (x := x) helB (has.of_root hrootB) hsparesBA
  refine ⟨dA, dAB, dB, dBA, dU, hrunA, hrunAB, hrunB, hrunBA, hrunU, ?_, ?_, hmainU⟩
  · rw [hmainAB, hmainA, Content.erase_erase, hor]
  · rw [hmainBA, hmainB, Content.erase_erase, hor]
    congr 1
    funext l
    exact Bool.or_comm _ _

theorem prune_elements_confluent_sample : ∃ forB forI forBoth : Selector,
    forB.text = "//b" ∧ forI.text = "//i" ∧ forBoth.text = "//b|//i" ∧ sample.root? = some 0 ∧
    (∀ l inner, sample.find? 0 = some (l, inner) →
      XPath.named [{ base := "b" }, { base := "i" }] l = false) ∧
    LocalUnion sample 0 forB.query [.element { base := "b" }] ∧
    LocalUnion sample 0 forI.query [.element { base := "i" }] ∧
    LocalUnion sample 0 forBoth.query [.element { base := "b" }, .element { base := "i" }] ∧
    ∃ dB dBI dI dIB dU,
      (({} : Extractor).prune 0 forB).run sample = (.ok 1, dB) ∧
      (({} : Extractor).prune 0 forI).run dB = (.ok (dB.main.count (XPath.named [{ base := "i" }])),
        dBI) ∧
      (({} : Extractor).prune 0 forI).run sample = (.ok 1, dI) ∧
      (({} : Extractor).prune 0 forB).run dI = (.ok (dI.main.count (XPath.named [{ base := "b" }])),
        dIB) ∧
      (({} : Extractor).prune 0 forBoth).run sample = (.ok 2, dU) ∧
      dBI.main = .single 0 (.element (.plain "p") [] []) (.text "SU") ∧
      dIB.main = .single 0 (.element (.plain "p") [] []) (.text "SU") ∧
      dU.main = .single 0 (.element (.plain "p") [] []) (.text "SU") := by
  have hreadB : (XPath.read? "//b").bind XPath.localTests? =
      some [.element { base := "b" }] := by decide +kernel
  have hreadI : (XPath.read? "//i").bind XPath.localTests? =
      some [.element { base := "i" }] := by decide +kernel
  have hreadBoth : (XPath.read? "//b|//i").bind XPath.localTests? =
      some [.element { base := "b" }, .element { base := "i" }] := by decide +kernel
  obtain ⟨forB, hB, hqB⟩ := exists_selector hreadB
  obtain ⟨forI, hI, hqI⟩ := exists_selector hreadI
  obtain ⟨forBoth, hBoth, hqBoth⟩ := exists_selector hreadBoth
  have hroot : sample.root? = some 0 := by decide
  have hname : ∀ l inner, sample.find? 0 = some (l, inner) →
      XPath.named ([{ base := "b" }] ++ [{ base := "i" }]) l = false := by
    intro l inner h
    obtain ⟨rfl, _⟩ := Prod.mk.inj (Option.some.inj h)
    decide
  have herase : sample.main.erase (XPath.named ([{ base := "b" }] ++ [{ base := "i" }])) =
      .single 0 (.element (.plain "p") [] []) (.text "SU") := by decide
  have hall := prune_elements_confluent (x := {}) hroot hname
    (XPath.localUnion_of_localTests? hqB) (XPath.localUnion_of_localTests? hqI)
    (XPath.localUnion_of_localTests? hqBoth)
  rw [herase] at hall
  exact ⟨forB, forI, forBoth, hB, hI, hBoth, hroot, hname, XPath.localUnion_of_localTests? hqB,
    XPath.localUnion_of_localTests? hqI, XPath.localUnion_of_localTests? hqBoth, hall⟩

end Extractor

end Harvest
