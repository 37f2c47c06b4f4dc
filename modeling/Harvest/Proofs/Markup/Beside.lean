import Harvest.Proofs.Markup.Renaming

/-!
# Documents with trees between

Two documents start with the same trees, and in one of them some more trees come next.  Whatever is
behind these stands at later places and has later identities there, and is the same otherwise.
-/

namespace Harvest.Markup

/-! ## Rows of entries -/

theorem map_item_rowOf (start : Nat) (cs : List Content) :
    (rowOf start cs).map Entry.item = cs.flatMap (Content.items none) := by
  induction cs generalizing start with
  | nil => rfl
  | cons c cs ih => simp [rowOf, ih, Content.map_item_entries]

/-- An entry of a row ends behind its place and stands in one that the row has in front. -/
theorem nested_rowOf {cs : List Content} (hp : ∀ c ∈ cs, c.Proper) {start i : Nat} {e : Entry}
    (h : (rowOf start cs)[i]? = some e) : start + i < e.stop ∧ e.stop ≤ start + extent cs ∧
      ∀ p, e.parent = some p → start ≤ p ∧ p < start + i := by
  induction cs generalizing start i with
  | nil => simp [rowOf] at h
  | cons c cs ih =>
      have hlen := c.length_entries none none start
      rw [extent_cons]
      rw [rowOf] at h
      rcases Nat.lt_or_ge i (c.items none).length with hi | hi
      · rw [List.getElem?_append_left (by omega)] at h
        have hmem : (e, start + i) ∈ (c.entries none none start).zipIdx start := by
          rw [List.mk_mem_zipIdx_iff_le_and_getElem?_sub]
          exact ⟨by omega, by rw [Nat.add_sub_cancel_left]; exact h⟩
        obtain ⟨_, h₁, h₂, h₃⟩ := Content.nested_entries (hp c List.mem_cons_self) hmem
        refine ⟨h₁, by omega, fun p hep => ?_⟩
        rcases h₃ with h₃ | ⟨f, q, _, _, hf, heq, hlt, _⟩
        · rw [h₃] at hep
          cases hep
        · obtain rfl : q = p := Option.some.inj (heq.symm.trans hep)
          exact ⟨(Content.nested_entries (hp c List.mem_cons_self) hf).1, hlt⟩
      · rw [List.getElem?_append_right (by omega), hlen] at h
        obtain ⟨h₁, h₂, h₃⟩ := ih (fun d hd => hp d (List.mem_cons_of_mem c hd)) h
        refine ⟨by omega, by omega, fun p hep => ?_⟩
        obtain ⟨h₄, h₅⟩ := h₃ p hep
        exact ⟨by omega, by omega⟩

theorem Content.rename_items_eq_self {f : Nat → Nat} {c : Content} (h : ∀ i ∈ c.ids, f i = i)
    {x : Item} (hx : x ∈ c.items none) : x.rename f = x := by
  have hmap := c.items_rename (f := f) none
  rw [rename_eq_self h, Option.map_none] at hmap
  have hself : (c.items none).map (Item.rename f) = (c.items none).map id := by
    rw [← hmap, List.map_id]
  exact List.map_inj_left.mp hself x hx

/-- Whether a place is one of a tree. -/
def isWithin (i : Nat) (span : Nat × Nat) : Bool := Nat.ble span.1 i && Nat.blt i span.2

theorem find?_spansOf_eq_none {start i : Nat} {cs : List Content}
    (h : i < start ∨ start + extent cs ≤ i) : (spansOf start cs).find? (isWithin i) = none := by
  induction cs generalizing start with
  | nil => rfl
  | cons c cs ih =>
      rw [extent_cons] at h
      rw [spansOf, List.find?_cons_of_neg, ih (by omega)]
      simp only [isWithin, Bool.and_eq_true, Nat.ble_eq, Nat.blt_eq]
      omega

theorem find?_spansOf {start i : Nat} {cs : List Content} (h₁ : start ≤ i)
    (h₂ : i < start + extent cs) : ∃ a b, (spansOf start cs).find? (isWithin i) = some (a, b) ∧
      start ≤ a ∧ i < b ∧ b ≤ start + extent cs := by
  induction cs generalizing start with
  | nil => simp [extent] at h₂; omega
  | cons c cs ih =>
      rw [extent_cons] at h₂ ⊢
      rcases Nat.lt_or_ge i (start + (c.items none).length) with hi | hi
      · refine ⟨start, start + (c.items none).length, ?_, Nat.le_refl _, hi, by omega⟩
        rw [spansOf, List.find?_cons_of_pos]
        simp only [isWithin, Bool.and_eq_true, Nat.ble_eq, Nat.blt_eq]
        exact ⟨h₁, hi⟩
      · obtain ⟨a, b, hfind, ha, hb, hle⟩ := ih hi (by omega)
        refine ⟨a, b, ?_, by omega, hb, by omega⟩
        rw [spansOf, List.find?_cons_of_neg, hfind]
        simp only [isWithin, Bool.and_eq_true, Nat.ble_eq, Nat.blt_eq]
        omega

namespace Outline

theorem treeOf_eq (o : Outline) (i : Nat) : o.treeOf i = (o.trees.find? (isWithin i)).getD (0, 0) :=
  rfl

theorem foldl_addTree (o : Outline) (cs : List Content) :
    cs.foldl addTree o = ⟨o.entries ++ (rowOf o.entries.size cs).toArray,
      o.trees ++ spansOf o.entries.size cs⟩ := by
  induction cs generalizing o with
  | nil => simp [rowOf, spansOf]
  | cons c cs ih =>
      rw [List.foldl_cons, ih, addTree, rowOf, spansOf]
      simp [Content.length_entries]

theorem ofDocument_eq (d : Document) :
    ofDocument d = ⟨(rowOf 0 d.trees).toArray, spansOf 0 d.trees⟩ := by
  rw [ofDocument, foldl_addTree]
  simp

theorem size_ofDocument (d : Document) : (ofDocument d).entries.size = extent d.trees := by
  rw [ofDocument_eq, List.size_toArray, length_rowOf]

end Outline

/-! ## The gap -/

/-- What two documents start with, the trees that come next in one of them only, and how far the
identities behind these are moved. -/
structure Gap where
  front : List Content
  between : List Content
  /-- A number above all identities in front. -/
  fresh : Nat
  count : Nat
  front_ne : front ≠ []
  front_lt : ∀ i ∈ idsOf front, i < fresh
  mem_between : ∀ i ∈ idsOf between, fresh ≤ i ∧ i < fresh + count

namespace Gap

variable (g : Gap)

/-- The number of entries in front of the gap. -/
def base : Nat := extent g.front

def width : Nat := extent g.between

/-- The place of an entry in the document with the gap. -/
def place (i : Nat) : Nat := shift g.base g.width i

/-- The identity of a node in the document with the gap. -/
def id (i : Nat) : Nat := shift g.fresh g.count i

/-- A place that belongs to an entry, which it is moved with. -/
def edge (i x : Nat) : Nat := if i < g.base then x else x + g.width

/-- A range of places lies on the side of the gap on which an entry is. -/
def SameSide (i a b : Nat) : Prop := (i < g.base → b ≤ g.base) ∧ (g.base ≤ i → g.base ≤ a)

/-- An entry in the document with the gap. -/
def entry (i : Nat) (e : Entry) : Entry :=
  ⟨e.item.rename g.id, e.parent.map g.place, g.edge i e.stop⟩

variable {g} {i j : Nat}

theorem place_of_lt (h : i < g.base) : g.place i = i := shift_of_lt h

theorem place_of_le (h : g.base ≤ i) : g.place i = i + g.width := shift_of_le h

theorem edge_of_lt (h : i < g.base) (x : Nat) : g.edge i x = x := if_pos h

theorem edge_of_le (h : g.base ≤ i) (x : Nat) : g.edge i x = x + g.width :=
  if_neg (Nat.not_lt.mpr h)

@[simp] theorem edge_self (i : Nat) : g.edge i i = g.place i := rfl

theorem place_injective (g : Gap) : Function.Injective g.place := shift_injective _ _

theorem id_injective (g : Gap) : Function.Injective g.id := shift_injective _ _

@[simp] theorem place_inj : g.place i = g.place j ↔ i = j := shift_inj

@[simp] theorem place_lt_iff : g.place i < g.place j ↔ i < j := shift_lt_iff

theorem id_of_front (g : Gap) (h : i ∈ idsOf g.front) : g.id i = i := shift_of_lt (g.front_lt i h)

/-- No node between has an identity that a node is moved to. -/
theorem notMem_between (g : Gap) (i : Nat) : g.id i ∉ idsOf g.between := by
  intro h
  have := g.mem_between _ h
  unfold id shift at this
  split at this <;> omega

end Gap

/-- An outline of which another one has further trees in a gap. -/
structure Outline.Beside (g : Gap) (o o' : Outline) : Prop where
  size : o'.entries.size = o.entries.size + g.width
  base_le : g.base ≤ o.entries.size
  entry : ∀ i, o'.entries[g.place i]? = (o.entries[i]?).map (g.entry i)
  /-- No node in the gap has an identity that a node is moved to. -/
  hidden : ∀ i j l, g.base ≤ i → i < g.base + g.width → o'.item? i ≠ some (.node (g.id j) l)
  /-- Nothing in front of the gap ends behind where the gap starts. -/
  stop : ∀ i (e : Entry), o.entries[i]? = some e → i < e.stop ∧ (i < g.base → e.stop ≤ g.base)
  parent : ∀ i (e : Entry) p, o.entries[i]? = some e → e.parent = some p →
    p < i ∧ (g.base ≤ i → g.base ≤ p)
  tree : ∀ i < o.entries.size, ∃ a b, o.treeOf i = (a, b) ∧
    o'.treeOf (g.place i) = (g.edge i a, g.edge i b) ∧ i < b ∧ g.SameSide i a b
  main : o'.main = o.main
  main_le : o.main.2 ≤ g.base

/-- A document of which another one has further trees in a gap. -/
structure Document.Beside (g : Gap) (d d' : Document) : Prop where
  trees : ∃ behind, d.trees = g.front ++ behind ∧
    d'.trees = g.front ++ (g.between ++ behind.map (·.rename g.id)) ∧
      ∀ i ∈ idsOf behind, g.fresh ≤ i
  fresh_le : g.fresh ≤ d.fresh
  fresh_eq : d'.fresh = d.fresh + g.count

/-! ## The outlines of two such documents -/

section
variable {g : Gap} {d : Document} {cs : List Content}

theorem Gap.rename_front (g : Gap) {x : Item} (hx : x ∈ g.front.flatMap (Content.items none)) :
    x.rename g.id = x := by
  obtain ⟨c, hc, hx⟩ := List.mem_flatMap.mp hx
  exact Content.rename_items_eq_self
    (fun i hi => g.id_of_front (List.mem_flatMap.mpr ⟨c, hc, hi⟩)) hx

theorem Gap.entry_of_front (hp : ∀ c ∈ g.front, c.Proper) {i : Nat} {e : Entry} (hi : i < g.base)
    (h : (rowOf 0 g.front)[i]? = some e) : g.entry i e = e := by
  obtain ⟨item, parent, stop⟩ := e
  have hitem : item ∈ g.front.flatMap (Content.items none) := by
    rw [← map_item_rowOf 0]
    exact List.mem_map.mpr ⟨_, List.mem_of_getElem? h, rfl⟩
  have hparent : parent.map g.place = parent := by
    cases parent with
    | none => rfl
    | some p =>
        have hp := (nested_rowOf hp h).2.2 p rfl
        rw [Option.map_some, place_of_lt (by omega)]
  rw [Gap.entry, g.rename_front hitem, hparent, edge_of_lt hi]

theorem Gap.entry_of_behind (hp : ∀ c ∈ cs, c.Proper) {i : Nat} {e : Entry}
    (h : (rowOf g.base cs)[i]? = some e) : g.entry (g.base + i) e = e.later g.id g.width := by
  obtain ⟨item, parent, stop⟩ := e
  have hparent : parent.map g.place = parent.map (· + g.width) := by
    cases parent with
    | none => rfl
    | some p =>
        have hp := (nested_rowOf hp h).2.2 p rfl
        rw [Option.map_some, place_of_le hp.1, Option.map_some]
  rw [Gap.entry, Entry.later, hparent, edge_of_le (Nat.le_add_right _ _)]

theorem entries_front (h : d.trees = g.front ++ cs) {i : Nat} (hi : i < g.base) :
    (Outline.ofDocument d).entries[i]? = (rowOf 0 g.front)[i]? := by
  rw [Outline.ofDocument_eq, h, rowOf_append, List.getElem?_toArray, List.getElem?_append_left]
  rwa [length_rowOf]

theorem entries_behind (h : d.trees = g.front ++ cs) (i : Nat) :
    (Outline.ofDocument d).entries[g.base + i]? = (rowOf g.base cs)[i]? := by
  have hlen : (rowOf 0 g.front).length = g.base := length_rowOf
  rw [Outline.ofDocument_eq, h, rowOf_append, List.getElem?_toArray, Nat.zero_add,
    List.getElem?_append_right (by omega), hlen, Nat.add_sub_cancel_left]
  rfl

theorem size_outline (h : d.trees = g.front ++ cs) :
    (Outline.ofDocument d).entries.size = g.base + extent cs := by
  rw [Outline.size_ofDocument, h, extent_append]
  rfl

theorem treeOf_front (h : d.trees = g.front ++ cs) {i : Nat} (hi : i < g.base) :
    (Outline.ofDocument d).treeOf i = ((spansOf 0 g.front).find? (isWithin i)).getD (0, 0) := by
  obtain ⟨a, b, hfind, _⟩ := find?_spansOf (Nat.zero_le i) (by rw [Nat.zero_add]; exact hi)
  rw [Outline.treeOf_eq, Outline.ofDocument_eq, h, spansOf_append, List.find?_append, hfind]
  rfl

theorem treeOf_behind (h : d.trees = g.front ++ cs) {i : Nat} (hi : g.base ≤ i) :
    (Outline.ofDocument d).treeOf i = ((spansOf g.base cs).find? (isWithin i)).getD (0, 0) := by
  have hfront : (spansOf 0 g.front).find? (isWithin i) = none :=
    find?_spansOf_eq_none (Or.inr (by rw [Nat.zero_add]; exact hi))
  rw [Outline.treeOf_eq, Outline.ofDocument_eq, h, spansOf_append, List.find?_append, hfront,
    Option.none_or, Nat.zero_add]
  rfl

theorem main_outline (h : d.trees = g.front ++ cs) :
    (Outline.ofDocument d).main = (spansOf 0 g.front).headD (0, 0) := by
  rw [Outline.ofDocument_eq, h]
  cases hf : g.front with
  | nil => exact absurd hf g.front_ne
  | cons c cs => rfl

theorem Gap.notMem_row (g : Gap) (i j : Nat) (l : Label) :
    ((rowOf g.base g.between)[i]?).map Entry.item ≠ some (.node (g.id j) l) := by
  rw [← List.getElem?_map, map_item_rowOf]
  intro h
  obtain ⟨c, hc, hl⟩ := List.mem_flatMap.mp (List.mem_of_getElem? h)
  apply g.notMem_between j
  exact List.mem_flatMap.mpr ⟨c, hc, c.mem_ids_of_items hl⟩

theorem isWithin_add (i k : Nat) :
    isWithin (i + k) ∘ (fun p => (p.1 + k, p.2 + k)) = isWithin i := by
  funext p
  rw [Bool.eq_iff_iff]
  simp only [isWithin, Function.comp, Bool.and_eq_true, Nat.ble_eq, Nat.blt_eq]
  omega

end

namespace Document.Beside

section
variable {g : Gap} {d d' : Document} {behind : List Content} {i : Nat}
  (htrees : d.trees = g.front ++ behind)
  (htrees' : d'.trees = g.front ++ (g.between ++ behind.map (·.rename g.id)))

include htrees htrees'

theorem entry_place (hp : ∀ c ∈ d.trees, c.Proper) (i : Nat) :
    (Outline.ofDocument d').entries[g.place i]? =
      ((Outline.ofDocument d).entries[i]?).map (g.entry i) := by
  rw [htrees] at hp
  rcases Nat.lt_or_ge i g.base with hi | hi
  · rw [Gap.place_of_lt hi, entries_front htrees hi, entries_front htrees' hi]
    cases he : (rowOf 0 g.front)[i]? with
    | none => rfl
    | some e =>
        have hfront : ∀ c ∈ g.front, c.Proper := fun c hc => hp c (List.mem_append_left _ hc)
        rw [Option.map_some, Gap.entry_of_front hfront hi he]
  · obtain ⟨j, rfl⟩ := Nat.exists_eq_add_of_le hi
    have hwidth : (rowOf g.base g.between).length = g.width := length_rowOf
    rw [Gap.place_of_le hi, Nat.add_assoc, entries_behind htrees, entries_behind htrees',
      rowOf_append, List.getElem?_append_right (by omega), hwidth, Nat.add_sub_cancel]
    change (rowOf (g.base + g.width) _)[j]? = _
    rw [rowOf_later, List.getElem?_map]
    cases he : (rowOf g.base behind)[j]? with
    | none => rfl
    | some e =>
        have hbehind : ∀ c ∈ behind, c.Proper := fun c hc => hp c (List.mem_append_right _ hc)
        rw [Option.map_some, Option.map_some, Gap.entry_of_behind hbehind he]

theorem treeOf_place (hi : i < (Outline.ofDocument d).entries.size) :
    ∃ a b, (Outline.ofDocument d).treeOf i = (a, b) ∧
      (Outline.ofDocument d').treeOf (g.place i) = (g.edge i a, g.edge i b) ∧ i < b ∧
      g.SameSide i a b := by
  rw [size_outline htrees] at hi
  rcases Nat.lt_or_ge i g.base with hlt | hle
  · obtain ⟨a, b, hfind, _, hb, hle⟩ := find?_spansOf (Nat.zero_le i)
      (show i < 0 + extent g.front by rw [Nat.zero_add]; exact hlt)
    rw [Nat.zero_add] at hle
    refine ⟨a, b, ?_, ?_, hb, fun _ => hle, fun h => absurd h (by omega)⟩
    · rw [treeOf_front htrees hlt, hfind]
      rfl
    · rw [Gap.place_of_lt hlt, treeOf_front htrees' hlt, hfind, Gap.edge_of_lt hlt,
        Gap.edge_of_lt hlt]
      rfl
  · obtain ⟨a, b, hfind, ha, hb, _⟩ := find?_spansOf hle hi
    refine ⟨a, b, ?_, ?_, hb, fun h => absurd h (by omega), fun _ => ha⟩
    · rw [treeOf_behind htrees hle, hfind]
      rfl
    · have hbetween : (spansOf g.base g.between).find? (isWithin (i + g.width)) = none := by
        refine find?_spansOf_eq_none (Or.inr ?_)
        simp only [Gap.width]
        omega
      rw [Gap.place_of_le hle, treeOf_behind htrees' (by omega), spansOf_append, List.find?_append,
        hbetween, Option.none_or, Gap.edge_of_le hle, Gap.edge_of_le hle]
      change ((spansOf (g.base + g.width) _).find? _).getD _ = _
      rw [spansOf_later, List.find?_map, isWithin_add, hfind]
      rfl

end

variable {g : Gap} {d d' : Document}

/-- The outlines of two documents with a gap between them. -/
theorem outline (h : d.Beside g d') : (Outline.ofDocument d).Beside g (Outline.ofDocument d') := by
  obtain ⟨behind, htrees, htrees', _⟩ := h.trees
  have hp := d.proper
  have hfront : ∀ c ∈ g.front, c.Proper := by
    intro c hc
    exact hp c (by rw [htrees]; exact List.mem_append_left _ hc)
  have hbehind : ∀ c ∈ behind, c.Proper := by
    intro c hc
    exact hp c (by rw [htrees]; exact List.mem_append_right _ hc)
  have hsize := size_outline htrees
  constructor
  case size =>
    rw [hsize, size_outline htrees', extent_append, extent_rename]
    simp only [Gap.width]
    omega
  case base_le => omega
  case entry => exact entry_place htrees htrees' hp
  case hidden =>
    intro i j l hi hlt
    have hwidth : (rowOf g.base g.between).length = g.width := length_rowOf
    obtain ⟨k, rfl⟩ := Nat.exists_eq_add_of_le hi
    rw [Outline.item?, entries_behind htrees', rowOf_append, List.getElem?_append_left (by omega)]
    exact g.notMem_row k j l
  -- an entry stands in front of the gap or behind it, in a row of trees of its own
  case stop =>
    intro i e he
    rcases Nat.lt_or_ge i g.base with hi | hi
    · rw [entries_front htrees hi] at he
      obtain ⟨h₁, h₂, _⟩ := nested_rowOf hfront he
      rw [Nat.zero_add] at h₁ h₂
      exact ⟨h₁, fun _ => h₂⟩
    · obtain ⟨j, rfl⟩ := Nat.exists_eq_add_of_le hi
      rw [entries_behind htrees] at he
      exact ⟨(nested_rowOf hbehind he).1, fun h => absurd h (by omega)⟩
  case parent =>
    intro i e p he hep
    rcases Nat.lt_or_ge i g.base with hi | hi
    · rw [entries_front htrees hi] at he
      have hp := (nested_rowOf hfront he).2.2 p hep
      exact ⟨by omega, fun h => absurd h (by omega)⟩
    · obtain ⟨j, rfl⟩ := Nat.exists_eq_add_of_le hi
      rw [entries_behind htrees] at he
      have hp := (nested_rowOf hbehind he).2.2 p hep
      exact ⟨hp.2, fun _ => hp.1⟩
  case tree => exact fun i hi => treeOf_place htrees htrees' hi
  case main => rw [main_outline htrees, main_outline htrees']
  case main_le =>
    rw [main_outline htrees]
    cases hf : g.front with
    | nil => exact absurd hf g.front_ne
    | cons c cs =>
        simp only [spansOf, List.headD_cons, Nat.zero_add, Gap.base, hf, extent_cons]
        omega

/-- A node is found in both documents, with the same text inside, or in none of them. -/
theorem find?_cases (h : d.Beside g d') (i : Nat) :
    (d.find? i = none ∧ d'.find? (g.id i) = none) ∨ ∃ l c, d.find? i = some (l, c) ∧
      d'.find? (g.id i) = some (l, c.rename g.id) := by
  obtain ⟨behind, htrees, htrees', _⟩ := h.trees
  have hrename := Content.findSome?_rename g.id_injective i
  have hfront : g.front.map (·.rename g.id) = g.front := by
    refine (List.map_congr_left fun c hc => ?_).trans (List.map_id _)
    exact Content.rename_eq_self fun i hi => g.id_of_front (List.mem_flatMap.mpr ⟨c, hc, hi⟩)
  have hbetween : g.between.findSome? (·.find? (g.id i)) = none := by
    rw [List.findSome?_eq_none_iff]
    intro c hc
    rw [Content.find?_eq_none]
    exact fun hi => g.notMem_between i (List.mem_flatMap.mpr ⟨c, hc, hi⟩)
  have hfind : d'.find? (g.id i) = (d.find? i).map fun p => (p.1, p.2.rename g.id) := by
    rw [Document.find?, Document.find?, htrees, htrees', List.findSome?_append,
      List.findSome?_append, List.findSome?_append, hbetween, Option.none_or, ← hfront, hrename,
      hrename, hfront, Option.map_or]
  cases hd : d.find? i with
  | none => exact Or.inl ⟨rfl, by rw [hfind, hd]; rfl⟩
  | some p => exact Or.inr ⟨p.1, p.2, rfl, by rw [hfind, hd]; rfl⟩

/-- The same tree comes behind both documents. -/
theorem addTree (h : d.Beside g d') (c : Content) (hp : c.Proper) (hw : c.Whole) :
    (d.addTree c hp hw).Beside g (d'.addTree c hp hw) := by
  obtain ⟨behind, htrees, htrees', hbehind⟩ := h.trees
  have hnumber := Content.number_add (k := g.count) h.fresh_le c
  have hle := (Content.ids_number d.fresh c).1
  have hfresh := h.fresh_le
  constructor
  case trees =>
    refine ⟨behind ++ [(c.number d.fresh).1], ?_, ?_, ?_⟩
    · change d.trees ++ [_] = _
      rw [htrees, List.append_assoc]
    · change d'.trees ++ [(c.number d'.fresh).1] = _
      rw [htrees', h.fresh_eq, hnumber, List.append_assoc, List.append_assoc, List.map_append]
      rfl
    · intro i hi
      rw [idsOf_append, List.mem_append] at hi
      rcases hi with hi | hi
      · exact hbehind i hi
      · have := Content.lt_of_mem_number (by simpa using hi)
        omega
  case fresh_le => exact Nat.le_trans hfresh hle
  case fresh_eq =>
    change (c.number d'.fresh).2 = _
    rw [h.fresh_eq, hnumber]
    rfl

end Document.Beside

end Harvest.Markup
