import Harvest.Proofs.Markup.Erase
import Harvest.Proofs.Prune

/-!
# Pruning by tests of single nodes

A selector that tests every node alone finds the same nodes again after pruning, as far as they are
still there.  Pruning leaves none of them inside the root and finds nothing when it is repeated,
with one exception: where texts are selected along with the elements in front of them, these texts
have moved away from their place before their turn comes.
-/

namespace Harvest

open Markup (Document Content Label Target TextPlace Language Attribute)
open XPath (LocalTest LocalUnion takesLabel)

/-! ## What the tests take of a content -/

namespace Markup.Content

variable {ts : List LocalTest} {c : Content}

/-- A node is taken if its label is. -/
theorem labelled_taken (hn : c.ids.Nodup) (ts : List LocalTest) :
    Labelled (chosenIn (c.taken ts)) (takesLabel ts) none c := by
  intro id l hl
  rw [Bool.eq_iff_iff, chosenIn, decide_eq_true_iff, taken, List.mem_flatMap]
  constructor
  · rintro ⟨x, hx, hid⟩
    cases x with
    | text s place => cases place <;> simp [Item.taken] at hid
    | node j k =>
        rcases List.mem_append.mp hid with hid | hid
        · split at hid
          · rename_i hk
            obtain rfl : id = j := by simpa using hid
            rw [label_unique hn hl hx]
            exact hk
          · simp at hid
        · simp at hid
  · intro htake
    exact ⟨_, hl, by simp [Item.taken, htake]⟩

theorem attr_taken {id : Nat} {l : Label} (hl : .node id l ∈ c.items none) {a : Attribute}
    (ha : a ∈ l.attributes) (htake : ts.any (·.takesAttribute a.name) = true) :
    chosenIn (c.taken ts) (.attr id a.name.expanded) = true := by
  rw [chosenIn, decide_eq_true_iff, taken, List.mem_flatMap]
  refine ⟨_, hl, List.mem_append_right _ (List.mem_map.mpr ⟨a, ?_, rfl⟩)⟩
  exact List.mem_filter.mpr ⟨ha, htake⟩

theorem text_taken (htake : ts.any (·.takesText) = true) {s : String} {place : TextPlace}
    (hs : .text s (some place) ∈ c.items none) : chosenIn (c.taken ts) (.text place) = true := by
  rw [chosenIn, decide_eq_true_iff, taken, List.mem_flatMap]
  exact ⟨_, hs, by simp [Item.taken, htake]⟩

theorem takesLabel_without (f : Target → Bool) (id : Nat) (l : Label) :
    takesLabel ts (l.without f id) = takesLabel ts l := by
  cases l <;> rfl

/-- The attributes that a cut leaves pass no test if it chooses all that do. -/
theorem attributes_without {f : Target → Bool} {id : Nat} {l : Label}
    (h : ∀ a ∈ l.attributes, ts.any (·.takesAttribute a.name) = true →
      f (.attr id a.name.expanded) = true) :
    (l.without f id).attributes.filter (fun a => ts.any (·.takesAttribute a.name)) = [] := by
  rw [List.filter_eq_nil_iff]
  intro a ha htake
  cases l with
  | element n as ds =>
      obtain ⟨ha, hf⟩ := List.mem_filter.mp ha
      simp [h a ha htake] at hf
  | comment value => simp [Label.without, Label.attributes] at ha
  | instruction target value => simp [Label.without, Label.attributes] at ha
  | entity name value => simp [Label.without, Label.attributes] at ha

/-- A cut chooses all attributes that pass a test. -/
def ChoosesAttributes (f : Target → Bool) (ts : List LocalTest) (place : Option TextPlace)
    (c : Content) : Prop :=
  ∀ id l, .node id l ∈ c.items place → ∀ a ∈ l.attributes,
    ts.any (·.takesAttribute a.name) = true → f (.attr id a.name.expanded) = true

theorem choosesAttributes_node {f : Target → Bool} {place : Option TextPlace} {before : String}
    {id : Nat} {l : Label} {inner rest : Content}
    (h : ChoosesAttributes f ts place (node before id l inner rest)) :
    (∀ a ∈ l.attributes, ts.any (·.takesAttribute a.name) = true →
        f (.attr id a.name.expanded) = true) ∧
      ChoosesAttributes f ts (some (.inside id)) inner ∧
      ChoosesAttributes f ts (some (.behind id)) rest := by
  refine ⟨h id l (by simp [items]), fun j k hj => h j k ?_, fun j k hj => h j k ?_⟩
  · simp [items, hj]
  · simp [items, hj]

/-- A cut leaves no node and no attribute that passes a test. -/
theorem taken_cut {f : Target → Bool} {place : Option TextPlace}
    (hf : Labelled f (takesLabel ts) place c) (hattr : ChoosesAttributes f ts place c)
    {front : String} {place' : Option TextPlace} {id : Nat} {l : Label}
    (h : .node id l ∈ (c.cut f front).items place') : (Item.node id l).taken ts = [] := by
  induction c generalizing place place' front with
  | text s =>
      simp only [cut, items, textItems] at h
      split at h <;> simp at h
  | node before j k inner rest ih₁ ih₂ =>
      obtain ⟨hj, hinner, hrest⟩ := labelled_node hf
      obtain ⟨ha, ha₁, ha₂⟩ := choosesAttributes_node hattr
      simp only [cut, hj] at h
      split at h
      · exact ih₂ hrest ha₂ h
      · rename_i hk
        simp only [items, List.mem_append, List.mem_cons] at h
        rcases h with h | h | h | h
        · unfold textItems at h
          split at h <;> simp at h
        · obtain ⟨rfl, rfl⟩ : id = j ∧ l = k.without f j := by simpa using h
          simp [Item.taken, takesLabel_without, hk, attributes_without ha]
        · exact ih₁ hinner ha₁ h
        · exact ih₂ hrest ha₂ h

/-- Inside the outermost nodes a cut leaves no node and no attribute that passes a test. -/
theorem taken_cutInside {f : Target → Bool} {place : Option TextPlace}
    (hf : Labelled f (takesLabel ts) place c) (hattr : ChoosesAttributes f ts place c)
    {front : String} {place' : Option TextPlace} {id : Nat} {l : Label}
    (h : .node id l ∈ (c.cutInside f front).items place') {g : Target}
    (hg : g ∈ (Item.node id l).taken ts) : g = .node id ∧ id ∈ c.topIds := by
  induction c generalizing place place' front with
  | text s =>
      simp only [cutInside, items, textItems] at h
      split at h <;> simp at h
  | node before j k inner rest _ ih =>
      obtain ⟨_, hinner, hrest⟩ := labelled_node hf
      obtain ⟨ha, ha₁, ha₂⟩ := choosesAttributes_node hattr
      simp only [cutInside, items, List.mem_append, List.mem_cons] at h
      rcases h with h | h | h | h
      · unfold textItems at h
        split at h <;> simp at h
      · obtain ⟨rfl, rfl⟩ : id = j ∧ l = k.without f j := by simpa using h
        simp only [Item.taken, attributes_without ha, List.map_nil, List.append_nil] at hg
        split at hg
        · exact ⟨by simpa using hg, List.mem_cons_self⟩
        · simp at hg
      · rw [taken_cut hinner ha₁ h] at hg
        simp at hg
      · obtain ⟨hid, htop⟩ := ih hrest ha₂ h
        exact ⟨hid, List.mem_cons_of_mem _ htop⟩

end Markup.Content

/-! ## Pruning once -/

theorem Markup.Document.leading_main (d : Document) : d.main.leading = "" := by
  have h := d.whole_main.no_text
  cases hc : d.main with
  | text s => simpa [hc, Content.outerText] using h
  | node before id l inner rest =>
      rw [hc] at h
      exact (Content.outerText_node.mp h).1

namespace Extractor

variable {x : Extractor} {context : Nat} {selector : Selector} {d : Document}
  {ts : List LocalTest}

/-- Pruning by tests of single nodes cuts out of the document what passes one of the tests. -/
theorem run_prune_local (h : d.HasElement context) (hq : LocalUnion d context selector.query ts) :
    ∃ found, (x.prune context selector).run d =
        (.ok (Match.detachAll d found).2, (Match.detachAll d found).1) ∧
      (Match.detachAll d found).1.main =
        d.main.cutInside (Content.chosenIn (d.main.taken ts)) "" ∧
      (Match.targets found).Sublist (d.trees.flatMap Content.targets) ∧
      (∀ g ∈ Match.targets found, g ∈ d.main.taken ts) ∧
      (∀ g ∈ d.main.taken ts, d.main.isInner g = true → g ∈ Match.targets found) := by
  obtain ⟨found, hselect, hsound, hcomplete⟩ := Match.select_localUnion x.language h hq
  refine ⟨found, run_prune hselect, ?_, (Match.targets_of_select hselect).2, hsound, hcomplete⟩
  have hmain : ∃ c, d.trees[0]? = some c ∧ d.main = c := by
    unfold Document.main
    cases htrees : d.trees with
    | nil =>
        obtain ⟨l, inner, hfind, _⟩ := h
        simp [Document.find?, htrees] at hfind
    | cons c cs => exact ⟨c, rfl, rfl⟩
  obtain ⟨c, hc, hdc⟩ := hmain
  have hcut := getElem?_trees_detachAll hselect hc
  have hnew : (Match.detachAll d found).1.main =
      c.cutInside (Match.aimedAt found) c.leading := by
    rw [Document.main, List.headD_eq_head?_getD, List.head?_eq_getElem?, hcut]
    rfl
  rw [hnew, ← hdc, d.leading_main]
  refine Content.cutInside_congr_inner "" d.nodup_main fun g _ hinner => ?_
  rw [Match.aimedAt, Content.chosenIn, Content.chosenIn, decide_eq_decide]
  exact ⟨hsound g, fun hg => hcomplete g hg hinner⟩

end Extractor

/-! ## What is left -/

namespace Markup.Content

variable {ts : List LocalTest} {c : Content}

/-- What passes a test after a cut, apart from outermost nodes, are the texts behind nodes that were
taken out. -/
theorem taken_left_iff (hn : c.ids.Nodup) (ts : List LocalTest) :
    let left := c.cutInside (chosenIn (c.taken ts)) ""
    (∀ g ∈ left.taken ts, left.isInner g = false) ↔
      (ts.any (·.takesText) = true → c.tailsInside (takesLabel ts) = "") := by
  intro left
  have hlabels := labelled_taken hn ts
  have hattr : ChoosesAttributes (chosenIn (c.taken ts)) ts none c :=
    fun id l hl a ha htake => attr_taken hl ha htake
  have htext : ts.any (·.takesText) = true → left.allText = c.tailsInside (takesLabel ts) := by
    intro htake
    rw [allText_cutInside hlabels fun s t hs => text_taken htake hs]
    simp
  constructor
  · intro hall htake
    rw [← htext htake, @allText_eq_empty left none]
    intro s t hs
    obtain ⟨place, rfl⟩ := exists_place hs fun _ => leading_cutInside ..
    have hg : .text place ∈ left.taken ts :=
      List.mem_flatMap.mpr ⟨_, hs, by simp [Item.taken, htake]⟩
    simpa [isInner] using hall _ hg
  · intro hnone g hg
    obtain ⟨y, hy, hg⟩ := List.mem_flatMap.mp hg
    cases y with
    | node id l =>
        obtain ⟨rfl, htop⟩ := taken_cutInside hlabels hattr hy hg
        simpa [isInner, left] using htop
    | text s place =>
        have htake : ts.any (·.takesText) = true := by
          cases place <;> simp_all [Item.taken]
        have hempty := hnone htake
        rw [← htext htake] at hempty
        exact absurd hy (allText_eq_empty.mp hempty s place)

end Markup.Content

/-! ## Pruning again -/

namespace Match

theorem takeFrom?_eq_none_of {i : Nat} {trees : List Content}
    (h : ∀ c ∈ trees, c.takeInside? i = none) : Markup.takeFrom? i trees = none := by
  induction trees with
  | nil => rfl
  | cons c cs ih =>
      have hcs := ih fun e he => h e (List.mem_cons_of_mem c he)
      simp [Markup.takeFrom?, h c List.mem_cons_self, hcs]

/-- An outermost node stays where it is. -/
theorem detach?_outermost {d : Document} {i : Nat} (h : i ∈ d.main.topIds) :
    d.detach? i = none := by
  have hnone : ∀ c ∈ d.trees, c.takeInside? i = none := by
    intro c hc
    have hn := d.distinct
    unfold Document.main at h
    cases htrees : d.trees with
    | nil => simp [htrees] at hc
    | cons e es =>
        rw [htrees] at h hc hn
        rw [Markup.idsOf_cons, List.nodup_append] at hn
        rcases List.mem_cons.mp hc with rfl | hc
        · exact Content.takeInside?_top hn.1 h
        · refine Content.takeInside?_eq_none fun hi => ?_
          exact hn.2.2 i (Content.topIds_subset_ids e h) i (Markup.mem_idsOf.mpr ⟨c, hc, hi⟩) rfl
  cases hd : d.detach? i with
  | none => rfl
  | some d' =>
      obtain ⟨taken, left, ht, _⟩ := takeFrom?_of_detach?_some hd
      rw [takeFrom?_eq_none_of hnone] at ht
      simp at ht

/-- Matches that aim at outermost nodes only, or at nothing, leave the document as it is. -/
theorem detachAll_outermost {d : Document} {ms : List Match}
    (h : ∀ g ∈ targets ms, ∃ i ∈ d.main.topIds, g = .node i) : detachAll d ms = (d, 0) := by
  induction ms with
  | nil => rfl
  | cons m ms ih =>
      have hrest : ∀ g ∈ targets ms, ∃ i ∈ d.main.topIds, g = .node i := fun g hg =>
        h g (by simp only [targets, List.filterMap_cons] at hg ⊢; split <;> simp [hg])
      have hm : m.detach d = (d, false) := by
        cases m with
        | node id =>
            obtain ⟨i, hi, heq⟩ := h (.node id) (by simp [targets, target?])
            obtain rfl : id = i := by simpa using heq
            simp [detach, detach?_outermost hi]
        | attr owner name value =>
            obtain ⟨i, _, heq⟩ := h (.attr owner name) (by simp [targets, target?])
            simp at heq
        | text place value =>
            obtain ⟨i, _, heq⟩ := h (.text place) (by simp [targets, target?])
            simp at heq
        | string value => rfl
        | boolean b => rfl
        | number y => rfl
        | space qualifier address => rfl
      simp [detachAll, hm, ih hrest]

end Match

namespace XPath.LocalUnion

/-- A selector that reaches all below a document does so in every document with the same root. -/
theorem of_root {d d' : Document} {context : Nat} {query : XPath} {ts : List LocalTest}
    (h : LocalUnion d context query ts) (hr : d'.root? = d.root?) :
    LocalUnion d' context query ts := by
  induction h with
  | everywhere t => exact .everywhere t
  | inRoot t hroot => exact .inRoot t (hr.trans hroot)
  | union _ _ iha ihb => exact .union iha ihb

end XPath.LocalUnion

namespace Extractor

variable {x : Extractor} {context : Nat} {selector : Selector} {d : Document}
  {ts : List LocalTest}

/-- Pruning by tests of single nodes leaves nothing inside the root that passes a test, and finds
nothing when it is repeated, unless texts are selected and some stand behind selected elements: just
then a part of these texts is left, and pruning again changes the document. -/
theorem prune_local_iff (h : d.HasElement context) (hq : LocalUnion d context selector.query ts) :
    ∃ n d', (x.prune context selector).run d = (.ok n, d') ∧
      ((∀ g ∈ d'.main.taken ts, d'.main.isInner g = false) ↔
        (ts.any (·.takesText) = true → d.main.tailsInside (takesLabel ts) = "")) ∧
      ((x.prune context selector).run d' = (.ok 0, d') ↔
        (ts.any (·.takesText) = true → d.main.tailsInside (takesLabel ts) = "")) := by
  obtain ⟨found, hrun, hmain, _⟩ := run_prune_local (x := x) h hq
  let d' := (Match.detachAll d found).1
  have hleft := Content.taken_left_iff d.nodup_main ts
  dsimp only at hleft
  rw [← hmain] at hleft
  refine ⟨_, d', hrun, hleft, ?_⟩
  have h' : d'.HasElement context := h.detachAll found
  have hroot : d'.root? = d.root? := by
    rw [Document.root?, Document.root?, hmain, Content.rootOf?_cutInside]
  obtain ⟨again, hrun', hmain', _, hsound', _⟩ := run_prune_local (x := x) h' (hq.of_root hroot)
  rw [hrun', ← hleft]
  constructor
  · intro heq
    -- what is left is what pruning again leaves, and there is no text behind removed nodes any more
    have hsame : (Match.detachAll d' again).1 = d' := (Prod.mk.inj heq).2
    have hleft' := Content.taken_left_iff d'.nodup_main ts
    dsimp only at hleft'
    rw [← hmain', hsame] at hleft'
    refine hleft'.mpr fun _ => ?_
    have hlabels := Content.labelled_taken d.nodup_main ts
    have htails := Content.tailsInside_cutInside hlabels
      (fun id l => Content.takesLabel_without _ id l) ""
    rw [← hmain] at htails
    exact htails
  · intro hnone
    have houter : ∀ g ∈ Match.targets again, ∃ i ∈ d'.main.topIds, g = .node i := by
      intro g hg
      have hg := hnone g (hsound' g hg)
      cases g with
      | node i => exact ⟨i, by simpa [Content.isInner] using hg, rfl⟩
      | attr owner name => simp [Content.isInner] at hg
      | text place => simp [Content.isInner] at hg
    rw [Match.detachAll_outermost houter]

theorem prune_local_iff_sample : ∃ s : Selector, s.text = "//b|//text()" ∧
    sample.HasElement 0 ∧
    LocalUnion sample 0 s.query [.element { base := "b" }, .text] ∧
    ∃ n d', (({} : Extractor).prune 0 s).run sample = (.ok n, d') ∧
      ((∀ g ∈ d'.main.taken [.element { base := "b" }, .text], d'.main.isInner g = false) ↔
        ([LocalTest.element { base := "b" }, .text].any (·.takesText) = true →
          sample.main.tailsInside (takesLabel [.element { base := "b" }, .text]) = "")) ∧
      ((({} : Extractor).prune 0 s).run d' = (.ok 0, d') ↔
        ([LocalTest.element { base := "b" }, .text].any (·.takesText) = true →
          sample.main.tailsInside (takesLabel [.element { base := "b" }, .text]) = "")) := by
  have hread : (XPath.read? "//b|//text()").bind XPath.localTests? =
      some [.element { base := "b" }, .text] := by decide +kernel
  obtain ⟨s, hs, hq⟩ := exists_selector hread
  have hunion : LocalUnion sample 0 s.query [.element { base := "b" }, .text] :=
    XPath.localUnion_of_localTests? hq
  exact ⟨s, hs, hasElement_sample, hunion, prune_local_iff hasElement_sample hunion⟩

/-- The text behind an element that is selected with it is left, and goes the next time. -/
theorem prune_local_leaves_tail : ∃ (s : Selector) (n : Nat) (d' : Document),
    s.text = "//b|//text()" ∧
    LocalUnion sample 0 s.query [.element { base := "b" }, .text] ∧
    (({} : Extractor).prune 0 s).run sample = (.ok n, d') ∧ d'.main.allText = "U" ∧
    (({} : Extractor).prune 0 s).run d' ≠ (.ok 0, d') := by
  have hread : (XPath.read? "//b|//text()").bind XPath.localTests? =
      some [.element { base := "b" }, .text] := by decide +kernel
  obtain ⟨s, hs, hq⟩ := exists_selector hread
  obtain ⟨found, hrun, hmain, _⟩ := run_prune_local (x := {}) hasElement_sample
    (XPath.localUnion_of_localTests? hq)
  obtain ⟨again, hrun', hmain', _⟩ := run_prune_local (x := {}) (hasElement_sample.detachAll found)
    (XPath.localUnion_of_localTests? hq)
  have htext : (Match.detachAll sample found).1.main.allText = "U" := by
    rw [hmain]
    decide
  have htext' : (Match.detachAll (Match.detachAll sample found).1 again).1.main.allText = "" := by
    rw [hmain', hmain]
    decide
  refine ⟨s, _, _, hs, XPath.localUnion_of_localTests? hq, hrun, htext, fun h => ?_⟩
  rw [hrun', Prod.mk.injEq] at h
  rw [h.2, htext] at htext'
  exact absurd htext' (by decide)

end Extractor

end Harvest
