import Harvest.Proofs.Markup.Outline

/-!
# Nesting

Every entry of an outline that stands in a node stands in an element, and ends where that one ends
or before.  What stands in no node is an outermost node or the text around these.
-/

namespace Harvest.Markup

/-- An entry at a place stands directly in an element of a row of entries with their places. -/
def StandsIn (row : List (Entry × Nat)) (e : Entry) (i : Nat) : Prop :=
  ∃ f p id l, (f, p) ∈ row ∧ e.parent = some p ∧ p < i ∧ e.stop ≤ f.stop ∧
    f.item = .node id l ∧ l.isElement = true

theorem StandsIn.mono {row row' : List (Entry × Nat)} {e : Entry} {i : Nat}
    (h : StandsIn row e i) (hsub : row ⊆ row') : StandsIn row' e i := by
  obtain ⟨f, p, id, l, hf, h⟩ := h
  exact ⟨f, p, id, l, hsub hf, h⟩

theorem mem_zipIdx_textEntry {s : String} {place : Option TextPlace} {parent : Option Nat}
    {start k : Nat} {e : Entry} {i : Nat} (h : (e, i) ∈ (textEntry s place parent start).zipIdx k) :
    i = k ∧ e = ⟨.text s place, parent, start + 1⟩ ∧ s ≠ "" := by
  unfold textEntry at h
  split at h
  · simp at h
  · rename_i hs
    simp only [List.zipIdx_singleton, List.mem_singleton, Prod.mk.injEq] at h
    exact ⟨h.2, h.1, by simpa using hs⟩

namespace Content

/-- The entries of a node with what stands in front of it, in it and behind it, with their
places. -/
theorem mem_zipIdx_entries_node (parent : Option Nat) (place : Option TextPlace) (start : Nat)
    (before : String) (id : Nat) (l : Label) (inner rest : Content) (e : Entry) (i : Nat) :
    let here := start + (textEntry before place parent start).length
    let within := inner.entries (some here) (some (.inside id)) (here + 1)
    let stop := here + 1 + within.length
    (e, i) ∈ ((node before id l inner rest).entries parent place start).zipIdx start ↔
      (e, i) ∈ (textEntry before place parent start).zipIdx start ∨
      (e = ⟨.node id l, parent, stop⟩ ∧ i = here) ∨
      (e, i) ∈ within.zipIdx (here + 1) ∨
      (e, i) ∈ (rest.entries parent (some (.behind id)) stop).zipIdx stop := by
  intro here within stop
  simp only [entries, List.zipIdx_append, List.zipIdx_cons, List.mem_append, List.mem_cons,
    Prod.mk.injEq]
  rfl

theorem length_entries_node (parent : Option Nat) (place : Option TextPlace) (start : Nat)
    (before : String) (id : Nat) (l : Label) (inner rest : Content) :
    let here := start + (textEntry before place parent start).length
    let within := inner.entries (some here) (some (.inside id)) (here + 1)
    let stop := here + 1 + within.length
    start + ((node before id l inner rest).entries parent place start).length =
      stop + (rest.entries parent (some (.behind id)) stop).length := by
  intro here within stop
  simp only [entries, List.length_append, List.length_cons]
  simp only [stop, within, here]
  omega

/-- An entry ends behind its place, and stands where the content stands or in an element. -/
theorem nested_entries {c : Content} (hp : c.Proper) {parent : Option Nat}
    {place : Option TextPlace} {start : Nat} {e : Entry} {i : Nat}
    (h : (e, i) ∈ (c.entries parent place start).zipIdx start) :
    start ≤ i ∧ i < e.stop ∧ e.stop ≤ start + (c.entries parent place start).length ∧
      (e.parent = parent ∨ StandsIn ((c.entries parent place start).zipIdx start) e i) := by
  induction c generalizing parent place start with
  | text s =>
      simp only [entries] at h ⊢
      obtain ⟨rfl, rfl, hs⟩ := mem_zipIdx_textEntry h
      exact ⟨Nat.le_refl _, by simp, by simp [textEntry, hs], Or.inl rfl⟩
  | node before id l inner rest ih₁ ih₂ =>
      obtain ⟨hl, hp₁, hp₂⟩ := hp
      have hlen := length_entries_node parent place start before id l inner rest
      have hmem := mem_zipIdx_entries_node parent place start before id l inner rest
      dsimp only at hlen hmem
      generalize hrow : (node before id l inner rest).entries parent place start = row at *
      generalize hhere : start + (textEntry before place parent start).length = here at *
      generalize hin : inner.entries (some here) (some (.inside id)) (here + 1) = within at *
      generalize hre : rest.entries parent (some (.behind id)) (here + 1 + within.length) = behind
        at *
      rcases (hmem e i).mp h with hf | ⟨rfl, rfl⟩ | hi | hr
      · obtain ⟨rfl, rfl, hs⟩ := mem_zipIdx_textEntry hf
        refine ⟨Nat.le_refl _, by simp, ?_, Or.inl rfl⟩
        simp only [textEntry] at hhere
        dsimp only
        omega
      · exact ⟨by omega, by dsimp only; omega, by dsimp only; omega, Or.inl rfl⟩
      · obtain ⟨h₁, h₂, h₃, h₄⟩ := ih₁ hp₁ (hin ▸ hi)
        rw [hin] at h₃ h₄
        refine ⟨by omega, h₂, by omega, Or.inr ?_⟩
        rcases h₄ with h₄ | h₄
        · -- what stands inside the node directly stands in an element, as nothing else has content
          have hl' : l.isElement = true := by
            by_contra hne
            rw [hl (by simpa using hne)] at hin
            simp [← hin, empty, entries, textEntry] at hi
          exact ⟨_, here, id, l, (hmem _ _).mpr (Or.inr (Or.inl ⟨rfl, rfl⟩)), h₄, by omega, h₃, rfl,
            hl'⟩
        · exact h₄.mono fun p hp => (hmem p.1 p.2).mpr (Or.inr (Or.inr (Or.inl hp)))
      · obtain ⟨h₁, h₂, h₃, h₄⟩ := ih₂ hp₂ (hre ▸ hr)
        rw [hre] at h₃ h₄
        refine ⟨by omega, h₂, by omega, h₄.imp_right fun h₄ => ?_⟩
        exact h₄.mono fun p hp => (hmem p.1 p.2).mpr (Or.inr (Or.inr (Or.inr hp)))

/-- What stands in no node: an outermost node, which is the root if it is an element, or a text. -/
def Outermost (c : Content) : Item → Prop
  | .node id l => id ∈ c.topIds ∧ (l.isElement = true → 0 < c.outerElements ∧
      (c.outerElements ≤ 1 → Document.rootOf? c = some id))
  | .text _ _ => c.outerText ≠ ""

theorem Outermost.node {before : String} {id : Nat} {l : Label} {inner rest : Content} {x : Item}
    (h : rest.Outermost x) : (node before id l inner rest).Outermost x := by
  cases x with
  | text s place =>
      intro hout
      exact h (outerText_node.mp hout).2
  | node j k =>
      obtain ⟨htop, hroot⟩ := h
      refine ⟨List.mem_cons_of_mem id htop, fun hk => ?_⟩
      obtain ⟨hpos, hroot⟩ := hroot hk
      simp only [outerElements]
      refine ⟨by omega, fun hone => ?_⟩
      cases hl : l.isElement with
      | true => simp only [hl, if_true] at hone; omega
      | false =>
          simp only [hl, Bool.false_eq_true, if_false] at hone
          simpa [Document.rootOf?, hl] using hroot (by omega)

theorem outermost_of_parent {c : Content} (hp : c.Proper) {place : Option TextPlace} {start : Nat}
    {e : Entry} {i : Nat} (h : (e, i) ∈ (c.entries none place start).zipIdx start)
    (he : e.parent = none) : c.Outermost e.item := by
  induction c generalizing place start with
  | text s =>
      simp only [entries] at h
      obtain ⟨rfl, rfl, hs⟩ := mem_zipIdx_textEntry h
      exact hs
  | node before id l inner rest _ ih =>
      obtain ⟨_, hp₁, hp₂⟩ := hp
      rcases (mem_zipIdx_entries_node none place start before id l inner rest e i).mp h with
        hf | ⟨rfl, _⟩ | hi | hr
      · obtain ⟨_, rfl, hs⟩ := mem_zipIdx_textEntry hf
        intro hout
        exact hs (outerText_node.mp hout).1
      · refine ⟨List.mem_cons_self, fun hl => ⟨?_, fun _ => ?_⟩⟩
        · simp only [outerElements, hl, if_true]
          omega
        · simp [Document.rootOf?, hl]
      · obtain ⟨_, _, _, hsome | ⟨_, _, _, _, _, hsome, _⟩⟩ := nested_entries hp₁ hi
        · exact absurd (he.symm.trans hsome) (by simp)
        · exact absurd (he.symm.trans hsome) (by simp)
      · exact (ih hp₂ hr).node

end Content

/-! ## The document itself -/

namespace Outline

theorem prefix_foldl_addTree (o : Outline) (trees : List Content) :
    o.entries.toList <+: (trees.foldl addTree o).entries.toList ∧
      o.trees <+: (trees.foldl addTree o).trees := by
  induction trees generalizing o with
  | nil => exact ⟨List.prefix_rfl, List.prefix_rfl⟩
  | cons c cs ih =>
      obtain ⟨h₁, h₂⟩ := ih (o.addTree c)
      refine ⟨List.IsPrefix.trans ?_ h₁, List.IsPrefix.trans ?_ h₂⟩
      · simp [addTree]
      · exact List.prefix_append _ _

/-- The entries of the document itself, with their places. -/
def mainRow (d : Document) : List (Entry × Nat) := (d.main.entries none none 0).zipIdx 0

/-- The outline of a document starts with the document itself. -/
theorem main_ofDocument (d : Document) :
    (ofDocument d).main = (0, (mainRow d).length) ∧
      d.main.entries none none 0 <+: (ofDocument d).entries.toList := by
  cases htrees : d.trees with
  | nil => simp [ofDocument, mainRow, Document.main, htrees, main, Content.empty, Content.entries,
      textEntry]
  | cons c cs =>
      obtain ⟨h₁, ⟨behind, h₂⟩⟩ := prefix_foldl_addTree (addTree {} c) cs
      have ho : ofDocument d = cs.foldl addTree (addTree {} c) := by simp [ofDocument, htrees]
      have hc : d.main = c := by simp [Document.main, htrees]
      rw [ho, hc, mainRow, hc]
      refine ⟨?_, by simpa [addTree] using h₁⟩
      rw [main, ← h₂]
      simp [addTree]

theorem getElem?_of_mem_mainRow {d : Document} {e : Entry} {i : Nat} (h : (e, i) ∈ mainRow d) :
    i < (mainRow d).length ∧ (ofDocument d).entries[i]? = some e := by
  have hi := List.mk_mem_zipIdx_iff_getElem?.mp h
  obtain ⟨behind, hb⟩ := (main_ofDocument d).2
  have hlt := (List.getElem?_eq_some_iff.mp hi).1
  refine ⟨by simpa [mainRow] using hlt, ?_⟩
  rw [← Array.getElem?_toList, ← hb, List.getElem?_append_left hlt, hi]

theorem mem_mainRow_of_lt {d : Document} {i : Nat} (h : i < (mainRow d).length) :
    ∃ e, (e, i) ∈ mainRow d := by
  have hlt : i < (d.main.entries none none 0).length := by simpa [mainRow] using h
  exact ⟨_, List.mk_mem_zipIdx_iff_getElem?.mpr (List.getElem?_eq_getElem hlt)⟩

section
variable {d : Document} {e : Entry} {i : Nat}

theorem item?_of_mem (h : (e, i) ∈ mainRow d) : (ofDocument d).item? i = some e.item := by
  simp [item?, (getElem?_of_mem_mainRow h).2]

theorem parent?_of_mem (h : (e, i) ∈ mainRow d) : (ofDocument d).parent? i = e.parent := by
  simp [parent?, (getElem?_of_mem_mainRow h).2]

theorem stop_of_mem (h : (e, i) ∈ mainRow d) : (ofDocument d).stop i = e.stop := by
  simp [stop, (getElem?_of_mem_mainRow h).2]

end

/-- The items of the document itself are those of its row. -/
theorem exists_mem_mainRow {d : Document} {x : Item} (h : x ∈ d.main.items none) :
    ∃ e i, (e, i) ∈ mainRow d ∧ e.item = x := by
  rw [← d.main.map_item_entries none none 0] at h
  obtain ⟨e, he, rfl⟩ := List.mem_map.mp h
  obtain ⟨i, hi⟩ := List.getElem?_of_mem he
  exact ⟨e, i, List.mk_mem_zipIdx_iff_getElem?.mpr hi, rfl⟩

theorem item_mem_of_mem_mainRow {d : Document} {e : Entry} {i : Nat} (h : (e, i) ∈ mainRow d) :
    e.item ∈ d.main.items none := by
  rw [← d.main.map_item_entries none none 0]
  exact List.mem_map_of_mem (List.mem_of_getElem? (List.mk_mem_zipIdx_iff_getElem?.mp h))

end Outline

namespace Document

theorem proper_main (d : Document) : d.main.Proper := by
  unfold main
  cases h : d.trees with
  | nil => trivial
  | cons c cs => exact d.proper c (by simp [h])

theorem whole_main (d : Document) : d.main.Whole := by
  unfold main
  cases h : d.trees with
  | nil => exact ⟨rfl, Nat.zero_le _⟩
  | cons c cs => exact d.whole c (by simp [h])

theorem nodup_main (d : Document) : d.main.ids.Nodup := by
  unfold main
  cases h : d.trees with
  | nil => exact List.nodup_nil
  | cons c cs =>
      have hn := d.distinct
      rw [h, idsOf_cons] at hn
      exact (List.nodup_append.mp hn).1

theorem exists_of_rootOf? {c : Content} {root : Nat} (h : rootOf? c = some root)
    (place : Option TextPlace) : ∃ l, l.isElement = true ∧ Item.node root l ∈ c.items place := by
  induction c generalizing place with
  | text s => simp [rootOf?] at h
  | node before id l inner rest _ ih =>
      rw [rootOf?] at h
      split at h
      · rename_i hl
        obtain rfl : id = root := by simpa using h
        exact ⟨l, hl, by simp [Content.items]⟩
      · obtain ⟨k, hk, hmem⟩ := ih h (some (.behind id))
        exact ⟨k, hk, by simp [Content.items, hmem]⟩

end Document

/-! ## The root -/

namespace Outline

variable {d : Document} {root : Nat}

/-- The place of a node in an outline is the one where it stands. -/
theorem find?_of_item? {i r : Nat} {l : Label}
    (hr : (ofDocument d).item? r = some (.node i l)) : (ofDocument d).find? i = some r := by
  cases hf : (ofDocument d).find? i with
  | none =>
      unfold find? at hf
      have hlt : r < (ofDocument d).entries.size := by
        obtain ⟨e, he, _⟩ := Option.map_eq_some_iff.mp hr
        exact (Array.getElem?_eq_some_iff.mp he).1
      have hall := List.find?_eq_none.mp hf r (by simpa [range] using hlt)
      simp [hr] at hall
  | some j =>
      unfold find? at hf
      have hj := List.find?_some hf
      split at hj
      · rename_i id k hk
        obtain rfl : id = i := by simpa using hj
        rw [place_unique hk hr]
      · simp at hj

/-- The place of the root is that of an element in the document itself. -/
theorem find?_root (h : d.root? = some root) :
    ∃ e r l, (ofDocument d).find? root = some r ∧ (e, r) ∈ mainRow d ∧ e.item = .node root l ∧
      l.isElement = true := by
  obtain ⟨l, hl, hmem⟩ := Document.exists_of_rootOf? h none
  obtain ⟨e, r, he, hitem⟩ := exists_mem_mainRow hmem
  exact ⟨e, r, l, find?_of_item? (by rw [item?_of_mem he, hitem]), he, hitem, hl⟩

/-- Every element of the document itself is its root or stands inside its root. -/
theorem within_root (h : d.root? = some root) {g : Entry} {r : Nat} {k : Label}
    (hg : (g, r) ∈ mainRow d) (hroot : g.item = .node root k) {e : Entry} {i id : Nat} {l : Label}
    (he : (e, i) ∈ mainRow d) (hitem : e.item = .node id l) (hl : l.isElement = true) :
    i = r ∨ (r < i ∧ e.stop ≤ g.stop) := by
  induction i using Nat.strongRecOn generalizing e id l with
  | ind i ih =>
      obtain ⟨_, _, _, hparent | ⟨f, p, id', l', hf, _, hpi, hstop, hitem', hl'⟩⟩ :=
        Content.nested_entries d.proper_main he
      · have hout := Content.outermost_of_parent d.proper_main he hparent
        rw [hitem] at hout
        have hid := (hout.2 hl).2 d.whole_main.one_element
        obtain rfl : id = root := Option.some.inj (hid.symm.trans h)
        have hi : (ofDocument d).item? i = some (.node id l) := by rw [item?_of_mem he, hitem]
        have hr : (ofDocument d).item? r = some (.node id k) := by rw [item?_of_mem hg, hroot]
        exact Or.inl (place_unique hi hr)
      · obtain ⟨_, hfstop, _⟩ := Content.nested_entries d.proper_main hf
        rcases ih p hpi hf hitem' hl' with rfl | ⟨hrp, hfg⟩
        · have hfg : f = g := by
            have h₁ := (getElem?_of_mem_mainRow hf).2
            have h₂ := (getElem?_of_mem_mainRow hg).2
            exact Option.some.inj (h₁.symm.trans h₂)
          exact Or.inr ⟨hpi, by rw [← hfg]; exact hstop⟩
        · exact Or.inr ⟨by omega, by omega⟩

end Outline

end Harvest.Markup
