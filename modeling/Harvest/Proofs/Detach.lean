import Harvest.Match
import Harvest.Proofs.Markup.Cut
import Mathlib.Data.List.Nodup

/-!
# Detaching matches

Detaching matches one after the other changes every tree of a document by the removal of what they
aim at, and puts the nodes that are taken out behind the trees.  Where the matches stand in document
order, every tree is cut once.
-/

namespace Harvest

open Markup (Document Content Label Attribute TextPlace Target idsOf takeFrom?)

/-! ## Finding nodes -/

namespace Markup.Content

theorem find?_eq_none {i : Nat} {c : Content} : c.find? i = none ↔ i ∉ c.ids := by
  induction c with
  | text s => simp [find?]
  | node before id l inner rest ih₁ ih₂ =>
      by_cases h : id = i
      · simp [find?, h]
      · simp [find?, h, Ne.symm h, ih₁, ih₂]

theorem mem_ids_of_find? {i : Nat} {c : Content} {p : Label × Content} (h : c.find? i = some p) :
    i ∈ c.ids := by
  by_contra hi
  simp [find?_eq_none.mpr hi] at h

/-- Changing the label of a node to the label that it has changes nothing. -/
theorem relabel_of_find? {i : Nat} {f : Label → Label} {c inner : Content} {l : Label}
    (hn : c.ids.Nodup) (h : c.find? i = some (l, inner)) (hl : f l = l) : c.relabel i f = c := by
  induction c with
  | text s => rfl
  | node before id l' inner' rest ih₁ ih₂ =>
      rw [ids_node, List.nodup_cons, List.mem_append, not_or, List.nodup_append] at hn
      obtain ⟨⟨hid₁, hid₂⟩, hn₁, hn₂, hdisj⟩ := hn
      rw [find?] at h
      by_cases hi : id = i
      · subst hi
        rw [if_pos rfl, Option.some.injEq, Prod.mk.injEq] at h
        obtain ⟨rfl, _⟩ := h
        simp [relabel, hl, relabel_eq_self hid₁, relabel_eq_self hid₂]
      · rw [if_neg hi, Option.or_eq_some_iff] at h
        rcases h with h | ⟨hnone, h⟩
        · have hr : i ∉ rest.ids := fun hr => hdisj i (mem_ids_of_find? h) i hr rfl
          simp [relabel, hi, ih₁ hn₁ h, relabel_eq_self hr]
        · simp [relabel, hi, relabel_eq_self (find?_eq_none.mp hnone), ih₂ hn₂ h]

/-- A node can be taken out if it stands inside another one. -/
theorem take?_isSome {i : Nat} {c : Content} (h : i ∈ c.ids) : (c.take? i).isSome := by
  induction c with
  | text s => simp at h
  | node before id l inner rest ih₁ ih₂ =>
      by_cases hi : id = i
      · simp [take?, hi]
      · simp only [ids_node, List.mem_cons, Ne.symm hi, List.mem_append, false_or] at h
        cases hin : inner.take? i with
        | some p => simp [take?, hi, hin]
        | none =>
            rcases h with h | h
            · simp [hin] at ih₁
              exact absurd h ih₁
            · simpa [take?, hi, hin] using ih₂ h

end Markup.Content

namespace Markup

theorem mem_idsOf {i : Nat} {trees : List Content} : i ∈ idsOf trees ↔ ∃ c ∈ trees, i ∈ c.ids :=
  List.mem_flatMap

theorem nodup_of_mem {trees : List Content} (hn : (idsOf trees).Nodup) {c : Content}
    (hc : c ∈ trees) : c.ids.Nodup :=
  (List.nodup_flatMap.mp hn).1 c hc

/-- A node is taken out of the tree that it stands in, and no other tree changes. -/
theorem takeFrom?_left {i : Nat} {trees left : List Content} {taken : Content}
    (hn : (idsOf trees).Nodup) (h : takeFrom? i trees = some (taken, left)) :
    left = trees.map (·.removeInside (.node i)) := by
  induction trees generalizing left with
  | nil => cases h
  | cons c cs ih =>
      rw [idsOf_cons, List.nodup_append] at hn
      obtain ⟨_, hcs, hdisj⟩ := hn
      rcases takeFrom?_cons h with ⟨c', htake, rfl⟩ | ⟨hnone, cs', htake, rfl⟩
      · have hi : i ∈ c.ids := by
          by_contra hi
          simp [Content.takeInside?_eq_none hi] at htake
        have hrest : cs.map (·.removeInside (.node i)) = cs := by
          conv_rhs => rw [← List.map_id cs]
          refine List.map_congr_left fun d hd => Content.removeInside_eq_self fun hid => ?_
          exact hdisj i hi i (mem_idsOf.mpr ⟨d, hd, hid⟩) rfl
        have hc : c.removeInside (.node i) = c' := by simp [Content.removeInside, htake]
        rw [List.map_cons, hc, hrest]
      · simp [ih hcs htake, Content.removeInside, hnone]

theorem takeFrom?_eq_none {i : Nat} {trees : List Content} (h : takeFrom? i trees = none) :
    ∀ c ∈ trees, c.takeInside? i = none := by
  induction trees with
  | nil => simp
  | cons c cs ih =>
      simp only [takeFrom?] at h
      split at h
      · exact absurd h (by simp)
      · rename_i heq
        simp only [Option.map_eq_none_iff] at h
        simpa [heq] using ih h

end Markup

namespace Match

/-- What a match aims at. -/
def target? : Match → Option Target
  | node id => some (.node id)
  | attr owner name _ => some (.attr owner name)
  | text place _ => some (.text place)
  | _ => none

/-! ## One match -/

theorem takeFrom?_of_detach?_some {d d' : Document} {i : Nat} (h : d.detach? i = some d') :
    ∃ taken left, takeFrom? i d.trees = some (taken, left) ∧ d'.trees = left ++ [taken] := by
  simp only [Document.detach?] at h
  split at h
  · exact absurd h (by simp)
  · rename_i taken left ht
    simp only [Option.some.injEq] at h
    exact ⟨taken, left, ht, by rw [← h]⟩

theorem takeFrom?_of_detach?_none {d : Document} {i : Nat} (h : d.detach? i = none) :
    takeFrom? i d.trees = none := by
  simp only [Document.detach?] at h
  split at h
  · assumption
  · exact absurd h (by simp)

theorem find?_document_eq_none {d : Document} {i : Nat} (h : d.find? i = none) :
    ∀ c ∈ d.trees, i ∉ c.ids := by
  intro c hc
  have hall : ∀ c ∈ d.trees, c.find? i = none := by
    simpa [Document.find?, List.findSome?_eq_none_iff] using h
  exact Content.find?_eq_none.mp (hall c hc)

theorem dropAttribute_eq_self {name : String} {l : Label} (h : l.hasAttribute name = false) :
    l.dropAttribute name = l := by
  cases l with
  | element n as ds =>
      have hall : ∀ a ∈ as, (a.name.expanded != name) = true := by
        simpa [Label.hasAttribute, Label.attributes] using h
      rw [Label.dropAttribute, List.filter_eq_self.mpr hall]
  | comment value => rfl
  | instruction target value => rfl
  | entity name value => rfl

theorem map_removeInside_eq_self {trees : List Content} {t : Target}
    (h : ∀ c ∈ trees, t.owner ∉ c.ids) : trees.map (·.removeInside t) = trees := by
  conv_rhs => rw [← List.map_id trees]
  exact List.map_congr_left fun c hc => Content.removeInside_eq_self (h c hc)

/-- A node that is not found, or that has no attribute of a name, loses none. -/
theorem map_relabel_eq_self {d : Document} {i : Nat} {name : String} {l : Label} {inner : Content}
    (hf : d.find? i = some (l, inner)) (hl : l.hasAttribute name = false) :
    d.trees.map (·.removeInside (.attr i name)) = d.trees := by
  obtain ⟨front, c, back, htrees, hc, hfront⟩ := List.findSome?_eq_some_iff.mp hf
  conv_rhs => rw [← List.map_id d.trees]
  refine List.map_congr_left fun e he => ?_
  have hn := d.distinct
  cases hfe : e.find? i with
  | none => exact Content.removeInside_eq_self (Content.find?_eq_none.mp hfe)
  | some p =>
      -- no other tree has the node
      have hec : e = c := by
        by_contra hne
        have hi₁ := Content.mem_ids_of_find? hfe
        have hi₂ := Content.mem_ids_of_find? hc
        have hmem : e ∈ front ∨ e ∈ back := by
          rw [htrees] at he
          simpa [hne] using he
        rw [htrees, Markup.idsOf_append, Markup.idsOf_cons] at hn
        rcases hmem with hm | hm
        · simp [hfront e hm] at hfe
        · exact (List.nodup_append.mp (List.nodup_append.mp hn).2.1).2.2 i hi₂ i
            (Markup.mem_idsOf.mpr ⟨e, hm, hi₁⟩) rfl
      subst hec
      exact Content.relabel_of_find? (Markup.nodup_of_mem hn he) hc (dropAttribute_eq_self hl)

/-- Detaching a match removes what it aims at from every tree; a node that is taken out comes
behind them. -/
theorem trees_detach (d : Document) (m : Match) :
    ∃ taken, (m.detach d).1.trees =
      (match m.target? with
        | some t => d.trees.map (·.removeInside t)
        | none => d.trees) ++ taken := by
  cases m with
  | node id =>
      simp only [detach, target?]
      cases hd : d.detach? id with
      | none =>
          refine ⟨[], ?_⟩
          have hnone := Markup.takeFrom?_eq_none (takeFrom?_of_detach?_none hd)
          rw [List.append_nil]
          conv_lhs => rw [← List.map_id d.trees]
          exact List.map_congr_left fun c hc => by simp [Content.removeInside, hnone c hc]
      | some d' =>
          -- no other tree has the node
          obtain ⟨taken, left, ht, htrees⟩ := takeFrom?_of_detach?_some hd
          exact ⟨[taken], by rw [htrees, Markup.takeFrom?_left d.distinct ht]⟩
  | attr owner name value =>
      simp only [detach, target?]
      refine ⟨[], ?_⟩
      rw [List.append_nil]
      -- where there is no such attribute, dropping it changes nothing
      split
      · rename_i label inner hf
        cases hl : label.hasAttribute name with
        | true => rfl
        | false => exact (map_relabel_eq_self hf hl).symm
      · rename_i hf
        exact (map_removeInside_eq_self (find?_document_eq_none hf)).symm
  | text place value =>
      refine ⟨[], ?_⟩
      rw [List.append_nil]
      cases place with
      | inside id =>
          simp only [detach, target?]
          split
          · rfl
          · rename_i hf
            exact (map_removeInside_eq_self (find?_document_eq_none hf)).symm
      | behind id => rfl
  | string value => exact ⟨[], by simp [detach, target?]⟩
  | boolean b => exact ⟨[], by simp [detach, target?]⟩
  | number x => exact ⟨[], by simp [detach, target?]⟩
  | space qualifier address => exact ⟨[], by simp [detach, target?]⟩

/-! ## Many matches -/

/-- What matches aim at, in their order. -/
def targets (ms : List Match) : List Target := ms.filterMap target?

/-- Detaching matches removes from every tree what they aim at, one after the other. -/
theorem trees_detachAll (d : Document) (ms : List Match) :
    ∃ taken, (detachAll d ms).1.trees =
      d.trees.map (fun c => (targets ms).foldl Content.removeInside c) ++ taken := by
  induction ms generalizing d with
  | nil => exact ⟨[], by simp [detachAll, targets]⟩
  | cons m ms ih =>
      obtain ⟨taken₁, h₁⟩ := trees_detach d m
      obtain ⟨taken₂, h₂⟩ := ih (m.detach d).1
      refine ⟨taken₁.map (fun c => (targets ms).foldl Content.removeInside c) ++ taken₂, ?_⟩
      simp only [detachAll]
      rw [h₂, h₁]
      cases ht : m.target? with
      | none => simp [targets, ht]
      | some t => simp [targets, ht, Function.comp_def]

end Match

/-! ## Elements that stay -/

namespace Markup

/-- The nodes of a content, and whether they are elements. -/
def kindOf (n : Nat × Label) : Nat × Bool := (n.1, n.2.isElement)

theorem Content.mem_nodes_of_find? {i : Nat} {c inner : Content} {l : Label}
    (h : c.find? i = some (l, inner)) : (i, l) ∈ c.nodes := by
  induction c with
  | text s => simp [find?] at h
  | node before id k within rest ih₁ ih₂ =>
      rw [find?] at h
      split at h
      · simp_all [nodes]
      · rcases Option.or_eq_some_iff.mp h with h | ⟨_, h⟩
        · simp [nodes, ih₁ h]
        · simp [nodes, ih₂ h]

/-- A node of the document is an element. -/
def Document.HasElement (d : Document) (i : Nat) : Prop :=
  ∃ l inner, d.find? i = some (l, inner) ∧ l.isElement = true

theorem Document.hasElement_iff {d : Document} {i : Nat} :
    d.HasElement i ↔ (i, true) ∈ (nodesOf d.trees).map kindOf := by
  have hmem : ∀ {l : Label} {inner : Content}, d.find? i = some (l, inner) →
      (i, l) ∈ nodesOf d.trees := by
    intro l inner h
    obtain ⟨c, hc, hf⟩ := List.exists_of_findSome?_eq_some h
    exact List.mem_flatMap.mpr ⟨c, hc, Content.mem_nodes_of_find? hf⟩
  constructor
  · rintro ⟨l, inner, hf, hl⟩
    exact List.mem_map.mpr ⟨(i, l), hmem hf, by simp [kindOf, hl]⟩
  · intro h
    obtain ⟨⟨j, l⟩, hl, heq⟩ := List.mem_map.mp h
    obtain ⟨rfl, hel⟩ : j = i ∧ l.isElement = true := by simpa [kindOf] using heq
    obtain ⟨c, hc, hlc⟩ := List.mem_flatMap.mp hl
    have hids : j ∈ c.ids := by
      rw [Content.ids_eq_map_nodes]
      exact List.mem_map_of_mem hlc
    cases hf : d.find? j with
    | none => exact absurd hids (Match.find?_document_eq_none hf c hc)
    | some p =>
        obtain ⟨k, inner⟩ := p
        have hn : ((nodesOf d.trees).map Prod.fst).Nodup := by
          rw [← idsOf_eq_map_nodesOf]
          exact d.distinct
        have hlk := List.inj_on_of_nodup_map hn hl (hmem hf) rfl
        obtain rfl : l = k := by simpa using hlk
        exact ⟨l, inner, hf, hel⟩

theorem kinds_map {f : Content → Content} (h : ∀ c, (f c).nodes.map kindOf = c.nodes.map kindOf)
    (cs : List Content) : (nodesOf (cs.map f)).map kindOf = (nodesOf cs).map kindOf := by
  induction cs with
  | nil => rfl
  | cons c cs ih =>
      simp only [nodesOf, List.map_cons, List.flatMap_cons, List.map_append, h] at *
      rw [ih]

theorem kinds_relabel (i : Nat) {f : Label → Label} (hf : ∀ l, (f l).isElement = l.isElement)
    (c : Content) : (c.relabel i f).nodes.map kindOf = c.nodes.map kindOf := by
  induction c with
  | text s => rfl
  | node before id l inner rest ih₁ ih₂ =>
      by_cases h : id = i <;> simp [Content.relabel, Content.nodes, kindOf, h, hf, ih₁, ih₂]

theorem nodes_clearText (i : Nat) (c : Content) : (c.clearText i).nodes = c.nodes := by
  induction c with
  | text s => rfl
  | node before id l inner rest ih₁ ih₂ =>
      by_cases h : id = i <;> simp [Content.clearText, Content.nodes, h, ih₁, ih₂]

theorem nodes_clearTail (i : Nat) (c : Content) : (c.clearTail i).nodes = c.nodes := by
  induction c with
  | text s => rfl
  | node before id l inner rest ih₁ ih₂ =>
      by_cases h : id = i <;> simp [Content.clearTail, Content.nodes, h, ih₁, ih₂]

/-- Whatever is detached, all nodes stay usable and what they are. -/
theorem kinds_detach (d : Document) (m : Match) :
    List.Perm ((nodesOf (m.detach d).1.trees).map kindOf) ((nodesOf d.trees).map kindOf) := by
  cases m with
  | node id =>
      simp only [Match.detach]
      cases hd : d.detach? id with
      | none => exact List.Perm.refl _
      | some d' =>
          obtain ⟨taken, left, ht, htrees⟩ := Match.takeFrom?_of_detach?_some hd
          rw [htrees]
          exact (nodes_of_takeFrom? ht).map kindOf
  | attr owner name value =>
      simp only [Match.detach]
      split
      · split
        · exact List.Perm.of_eq (kinds_map (kinds_relabel owner fun l => by cases l <;> rfl) _)
        · exact List.Perm.refl _
      · exact List.Perm.refl _
  | text place value =>
      cases place with
      | inside id =>
          simp only [Match.detach]
          split
          · exact List.Perm.of_eq (kinds_map (fun c => by rw [nodes_clearText]) _)
          · exact List.Perm.refl _
      | behind id => exact List.Perm.of_eq (kinds_map (fun c => by rw [nodes_clearTail]) _)
  | string value => exact List.Perm.refl _
  | boolean b => exact List.Perm.refl _
  | number x => exact List.Perm.refl _
  | space qualifier address => exact List.Perm.refl _

theorem kinds_detachAll (d : Document) (ms : List Match) :
    List.Perm ((nodesOf (Match.detachAll d ms).1.trees).map kindOf)
      ((nodesOf d.trees).map kindOf) := by
  induction ms generalizing d with
  | nil => exact List.Perm.refl _
  | cons m ms ih => exact (ih (m.detach d).1).trans (kinds_detach d m)

/-- An element stays one when something is detached. -/
theorem Document.HasElement.detachAll {d : Document} {i : Nat} (h : d.HasElement i)
    (ms : List Match) : (Match.detachAll d ms).1.HasElement i := by
  rw [hasElement_iff] at *
  exact (kinds_detachAll d ms).mem_iff.mpr h

/-- The targets of a tree among those of all trees are those whose node stands in it. -/
theorem filter_targets {trees : List Content} (hn : (idsOf trees).Nodup) {c : Content}
    (hc : c ∈ trees) :
    (trees.flatMap Content.targets).filter (fun t => decide (t.owner ∈ c.ids)) = c.targets := by
  obtain ⟨front, back, rfl⟩ := List.append_of_mem hc
  rw [idsOf_append, idsOf_cons, List.nodup_append, List.nodup_append] at hn
  obtain ⟨_, ⟨_, _, hback⟩, hfront⟩ := hn
  have hout : ∀ {es : List Content}, (∀ i ∈ c.ids, i ∉ idsOf es) →
      (es.flatMap Content.targets).filter (fun t => decide (t.owner ∈ c.ids)) = [] := by
    intro es hes
    rw [List.filter_eq_nil_iff]
    intro t ht
    obtain ⟨e, he, hte⟩ := List.mem_flatMap.mp ht
    have hne : t.owner ∉ c.ids := fun h =>
      hes _ h (mem_idsOf.mpr ⟨e, he, Content.owner_mem_ids hte⟩)
    simpa using hne
  have hown : c.targets.filter (fun t => decide (t.owner ∈ c.ids)) = c.targets := by
    rw [List.filter_eq_self]
    exact fun t ht => by simpa using Content.owner_mem_ids ht
  rw [List.flatMap_append, List.flatMap_cons, List.filter_append, List.filter_append,
    hout fun i hi hf => hfront i hf i (by simp [hi]) rfl, hown,
    hout fun i hi hb => hback i hi i hb rfl]
  simp

theorem foldl_removeInside_filter (c : Content) (ts : List Target) :
    ts.foldl Content.removeInside c =
      (ts.filter fun t => decide (t.owner ∈ c.ids)).foldl Content.removeInside c := by
  suffices h : ∀ e : Content, e.ids ⊆ c.ids → ts.foldl Content.removeInside e =
      (ts.filter fun t => decide (t.owner ∈ c.ids)).foldl Content.removeInside e from
    h c (List.Subset.refl _)
  induction ts with
  | nil => exact fun e _ => rfl
  | cons t ts ih =>
      intro e he
      by_cases ht : t.owner ∈ c.ids
      · rw [List.filter_cons_of_pos (by simpa using ht)]
        exact ih _ (List.Subset.trans (Content.ids_removeInside_subset e t) he)
      · rw [List.filter_cons_of_neg (by simpa using ht), List.foldl_cons,
          Content.removeInside_eq_self fun h => ht (he h)]
        exact ih e he

/-- Where targets stand in document order, removing them cuts every tree once. -/
theorem foldl_removeInside_of_mem {trees : List Content} (hn : (idsOf trees).Nodup)
    {ts : List Target} (hts : ts.Sublist (trees.flatMap Content.targets)) {c : Content}
    (hc : c ∈ trees) :
    ts.foldl Content.removeInside c = c.cutInside (Content.chosenIn ts) c.leading := by
  have hsub : (ts.filter fun t => decide (t.owner ∈ c.ids)).Sublist c.targets := by
    rw [← filter_targets hn hc]
    exact hts.filter _
  rw [foldl_removeInside_filter, Content.foldl_removeInside (nodup_of_mem hn hc) hsub]
  exact Content.cutInside_congr _ fun t ht => by simp [Content.chosenIn, ht]

end Markup

/-- Detaching matches that stand in document order cuts every tree once. -/
theorem Match.trees_detachAll_of_sublist {d : Document} {ms : List Match}
    (h : (Match.targets ms).Sublist (d.trees.flatMap Content.targets)) :
    ∃ taken, (Match.detachAll d ms).1.trees =
      d.trees.map (fun c => c.cutInside (Content.chosenIn (Match.targets ms)) c.leading) ++
        taken := by
  obtain ⟨taken, ht⟩ := Match.trees_detachAll d ms
  refine ⟨taken, ht.trans ?_⟩
  congr 1
  exact List.map_congr_left fun c hc => Markup.foldl_removeInside_of_mem d.distinct h hc

end Harvest
