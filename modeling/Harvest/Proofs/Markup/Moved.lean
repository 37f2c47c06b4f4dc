import Harvest.Proofs.Markup.Beside

/-!
# Places behind a gap

What an outline says about an entry, an outline with further trees in a gap says about the entry at
its place there: what it stands in, what stands inside it and beside it, and its text.
-/

namespace Harvest.Markup

namespace Gap

variable {g : Gap} {i j a b : Nat}

theorem SameSide.map_range (h : g.SameSide i a b) :
    Outline.range (g.edge i a) (g.edge i b) = (Outline.range a b).map g.place := by
  rcases Nat.lt_or_ge i g.base with hi | hi
  · rw [edge_of_lt hi, edge_of_lt hi]
    refine ((List.map_congr_left fun x hx => ?_).trans (List.map_id _)).symm
    have hb := h.1 hi
    rw [Outline.range, List.mem_range'_1] at hx
    exact place_of_lt (by omega)
  · rw [edge_of_le hi, edge_of_le hi]
    have hmap : (Outline.range a b).map g.place = (Outline.range a b).map (g.width + ·) := by
      refine List.map_congr_left fun x hx => ?_
      have ha := h.2 hi
      rw [Outline.range, List.mem_range'_1] at hx
      rw [place_of_le (by omega), Nat.add_comm]
    rw [hmap, Outline.range, Outline.range, List.map_add_range',
      Nat.add_sub_add_right, Nat.add_comm]

theorem edge_congr (h : i < g.base ↔ j < g.base) (x : Nat) : g.edge i x = g.edge j x := by
  simp [edge, h]

theorem edge_succ (i x : Nat) : g.edge i (x + 1) = g.edge i x + 1 := by
  unfold edge
  split <;> omega

theorem edge_le_edge (i : Nat) : g.edge i a ≤ g.edge i b ↔ a ≤ b := by
  unfold edge
  split <;> omega

end Gap

namespace Outline

/-- The identity of an entry that is a node. -/
def id? (o : Outline) (i : Nat) : Option Nat := (o.item? i).bind Item.id?

theorem find?_eq (o : Outline) (c : Nat) :
    o.find? c = (range 0 o.entries.size).find? fun i => o.id? i == some c := by
  rw [find?]
  congr 1
  funext i
  rw [id?]
  cases o.item? i with
  | none => rfl
  | some x => cases x <;> rfl

theorem lt_size_of_mem_children {o : Outline} {i j : Nat} (h : j ∈ o.children i) :
    j < o.entries.size := by
  have hp := (List.mem_filter.mp h).2
  obtain ⟨e, he, _⟩ := Option.bind_eq_some_iff.mp (beq_iff_eq.mp hp)
  exact (Array.getElem?_eq_some_iff.mp he).1

end Outline

namespace Outline.Beside

variable {g : Gap} {o o' : Outline} (h : o.Beside g o')

include h

/-! ## Entries -/

theorem item?_place (i : Nat) : o'.item? (g.place i) = (o.item? i).map (Item.rename g.id) := by
  rw [item?, item?, h.entry, Option.map_map, Option.map_map]
  rfl

theorem label?_place (i : Nat) : o'.label? (g.place i) = o.label? i := by
  rw [label?, label?, h.item?_place]
  cases o.item? i with
  | none => rfl
  | some x => cases x <;> rfl

theorem parent?_place (i : Nat) : o'.parent? (g.place i) = (o.parent? i).map g.place := by
  rw [parent?, parent?, h.entry]
  cases o.entries[i]? <;> rfl

theorem stop_place (i : Nat) : o'.stop (g.place i) = g.edge i (o.stop i) := by
  rw [Outline.stop, Outline.stop, h.entry]
  cases o.entries[i]? <;> rfl

theorem le_stop (i : Nat) : i ≤ o.stop i := by
  rw [Outline.stop]
  cases he : o.entries[i]? with
  | none => exact Nat.le_refl i
  | some e => exact Nat.le_of_lt (h.stop i e he).1

theorem stop_le {i : Nat} (hi : i < g.base) : o.stop i ≤ g.base := by
  rw [Outline.stop]
  cases he : o.entries[i]? with
  | none => exact Nat.le_of_lt hi
  | some e => exact (h.stop i e he).2 hi

theorem parent?_side {i p : Nat} (hp : o.parent? i = some p) :
    p < i ∧ (i < g.base ↔ p < g.base) := by
  obtain ⟨e, he, hep⟩ := Option.bind_eq_some_iff.mp hp
  obtain ⟨hlt, hle⟩ := h.parent i e p he hep
  exact ⟨hlt, by omega⟩

/-! ## What stands inside and around -/

theorem inside_place (i : Nat) : o'.inside (g.place i) = (o.inside i).map g.place := by
  rw [inside, inside, h.stop_place, ← Gap.edge_self, ← Gap.edge_succ]
  exact Gap.SameSide.map_range ⟨h.stop_le, fun hi => by omega⟩

theorem childrenIn_place (parent : Option Nat) (places : List Nat) :
    o'.childrenIn (parent.map g.place) (places.map g.place) =
      (o.childrenIn parent places).map g.place := by
  rw [childrenIn, childrenIn, List.filter_map]
  congr 2
  funext j
  rw [Function.comp, h.parent?_place, Bool.eq_iff_iff, beq_iff_eq, beq_iff_eq]
  exact (Option.map_injective g.place_injective).eq_iff

theorem children_place (i : Nat) : o'.children (g.place i) = (o.children i).map g.place := by
  rw [children, children, h.inside_place, ← h.childrenIn_place, Option.map_some]

theorem ancestors_place (i : Nat) : o'.ancestors (g.place i) = (o.ancestors i).map g.place := by
  induction i using Nat.strongRecOn with
  | ind i ih =>
      rw [ancestors, ancestors, h.parent?_place]
      cases hp : o.parent? i with
      | none => rfl
      | some p =>
          have hlt := (h.parent?_side hp).1
          simp only [Option.map_some, Gap.place_lt_iff, hlt, dif_pos, List.map_cons, ih p hlt]

theorem mem_main_lt {i : Nat} (hi : i ∈ range o.main.1 o.main.2) : i < g.base := by
  have hle := h.main_le
  rw [range, List.mem_range'_1] at hi
  omega

theorem range_main : range o'.main.1 o'.main.2 = (range o.main.1 o.main.2).map g.place := by
  rw [h.main]
  exact ((List.map_congr_left fun i hi => Gap.place_of_lt (h.mem_main_lt hi)).trans
    (List.map_id _)).symm

section
variable {i : Nat} (hi : i < o.entries.size)

include hi

theorem treeOf_eq_main : o'.treeOf (g.place i) = o'.main ↔ o.treeOf i = o.main := by
  obtain ⟨a, b, htree, htree', hb, hside⟩ := h.tree i hi
  rw [htree, htree', h.main]
  rcases Nat.lt_or_ge i g.base with hlt | hle
  · rw [Gap.edge_of_lt hlt, Gap.edge_of_lt hlt]
  · -- what is behind the gap belongs to no tree that is in front of it
    have hmain := h.main_le
    rw [Gap.edge_of_le hle, Gap.edge_of_le hle]
    constructor
    · intro heq
      have := congrArg Prod.snd heq
      dsimp only at this
      omega
    · intro heq
      have := congrArg Prod.snd heq
      dsimp only at this
      omega

theorem scope_place : ∃ a b, o.scope i = (a, b) ∧
    o'.scope (g.place i) = (g.edge i a, g.edge i b) ∧ g.SameSide i a b := by
  rw [scope, scope, h.parent?_place]
  cases hp : o.parent? i with
  | none =>
      obtain ⟨a, b, htree, htree', _, hside⟩ := h.tree i hi
      exact ⟨a, b, htree, htree', hside⟩
  | some p =>
      obtain ⟨hlt, hside⟩ := h.parent?_side hp
      refine ⟨p + 1, o.stop p, rfl, ?_, fun hi => h.stop_le (hside.mp hi), fun hi => by omega⟩
      change (g.place p + 1, o'.stop (g.place p)) = _
      rw [h.stop_place, Gap.edge_congr hside, Gap.edge_congr hside, Gap.edge_succ, Gap.edge_self]

theorem nextSiblings_place : o'.nextSiblings (g.place i) = (o.nextSiblings i).map g.place := by
  obtain ⟨a, b, hscope, hscope', hside⟩ := h.scope_place hi
  have hle := h.le_stop i
  rw [nextSiblings, nextSiblings, hscope, hscope', h.parent?_place, h.stop_place,
    ← h.childrenIn_place, ← Gap.SameSide.map_range ⟨hside.1, fun hi => by omega⟩]

theorem previousSiblings_place :
    o'.previousSiblings (g.place i) = (o.previousSiblings i).map g.place := by
  obtain ⟨a, b, hscope, hscope', hside⟩ := h.scope_place hi
  rw [previousSiblings, previousSiblings, hscope, hscope', h.parent?_place, List.map_reverse,
    ← h.childrenIn_place, ← Gap.SameSide.map_range ⟨fun hi => by omega, hside.2⟩, Gap.edge_self]

theorem following_place : o'.following (g.place i) = (o.following i).map g.place := by
  obtain ⟨a, b, htree, htree', _, hside⟩ := h.tree i hi
  have hle := h.le_stop i
  rw [following, following, htree, htree', h.stop_place]
  exact Gap.SameSide.map_range ⟨hside.1, fun hi => by omega⟩

theorem preceding_place : o'.preceding (g.place i) = (o.preceding i).map g.place := by
  obtain ⟨a, b, htree, htree', _, hside⟩ := h.tree i hi
  rw [preceding, preceding, htree, htree', List.map_reverse, ← Gap.edge_self,
    Gap.SameSide.map_range ⟨fun hi => by omega, hside.2⟩, List.filter_map]
  congr 2
  refine List.filter_congr fun j hj => ?_
  rw [range, List.mem_range'_1] at hj
  have hjside : j < g.base ↔ i < g.base := by
    have := hside.2
    omega
  rw [Function.comp, h.stop_place, Gap.edge_congr hjside, Bool.eq_iff_iff, Nat.ble_eq, Nat.ble_eq]
  exact Gap.edge_le_edge i

end

/-! ## Texts and declarations -/

theorem ownText_place (i : Nat) : o'.ownText (g.place i) = o.ownText i := by
  rw [ownText, ownText, h.item?_place]
  cases o.item? i with
  | none => rfl
  | some x =>
      cases x with
      | text s place => rfl
      | node id l => cases l <;> rfl

theorem textOf_place (places : List Nat) : o'.textOf (places.map g.place) = o.textOf places := by
  rw [textOf, textOf, List.foldl_map]
  congr 1
  funext s i
  rw [h.ownText_place]

theorem string_place (i : Nat) : o'.string (g.place i) = o.string i := by
  rw [Outline.string, Outline.string, h.label?_place, h.inside_place, h.textOf_place,
    h.ownText_place]

theorem declarations_place (i : Nat) : o'.declarations (g.place i) = o.declarations i := by
  rw [declarations, declarations, h.ancestors_place, ← List.map_cons, List.foldl_map]
  congr 1
  funext found j
  rw [h.label?_place]

/-! ## Places of nodes -/

theorem range_size : ∃ between, range 0 o'.entries.size =
    range 0 g.base ++ (between ++ (range g.base o.entries.size).map g.place) ∧
    ∀ i ∈ between, g.base ≤ i ∧ i < g.base + g.width := by
  have hle := h.base_le
  refine ⟨List.range' g.base g.width, ?_, fun i hi => List.mem_range'_1.mp hi⟩
  have hbehind : (range g.base o.entries.size).map g.place =
      List.range' (g.base + g.width) (o.entries.size - g.base) := by
    have hmap := Gap.SameSide.map_range (g := g) (i := g.base) (a := g.base) (b := o.entries.size)
      ⟨fun hi => absurd hi (Nat.lt_irrefl _), fun _ => Nat.le_refl _⟩
    rw [← hmap, Gap.edge_of_le (Nat.le_refl _), Gap.edge_of_le (Nat.le_refl _), range,
      Nat.add_sub_add_right]
  rw [hbehind, List.range'_append_1, range, range, Nat.sub_zero, Nat.sub_zero, h.size]
  have hfront := List.range'_append_1 (s := 0) (m := g.base)
    (n := g.width + (o.entries.size - g.base))
  rw [Nat.zero_add] at hfront
  rw [hfront]
  congr 1
  omega

theorem id?_place (i : Nat) : o'.id? (g.place i) = (o.id? i).map g.id := by
  rw [id?, id?, h.item?_place]
  cases o.item? i with
  | none => rfl
  | some x => cases x <;> rfl

theorem find?_place (c : Nat) : o'.find? (g.id c) = (o.find? c).map g.place := by
  obtain ⟨between, hrange, hbetween⟩ := h.range_size
  have hle := h.base_le
  have hmoved : (fun i => o'.id? i == some (g.id c)) ∘ g.place = fun i => o.id? i == some c := by
    funext i
    rw [Function.comp, h.id?_place, ← Option.map_some, Bool.eq_iff_iff, beq_iff_eq, beq_iff_eq]
    exact (Option.map_injective g.id_injective).eq_iff
  have hnone : between.find? (fun i => o'.id? i == some (g.id c)) = none := by
    refine List.find?_eq_none.mpr fun i hi hid => ?_
    obtain ⟨x, hx, hid⟩ := Option.bind_eq_some_iff.mp (beq_iff_eq.mp hid)
    cases x with
    | text s place => cases hid
    | node j l =>
        obtain rfl : j = g.id c := Option.some.inj hid
        exact h.hidden i c l (hbetween i hi).1 (hbetween i hi).2 hx
  have hfront : range 0 g.base = (range 0 g.base).map g.place := by
    refine ((List.map_congr_left fun i hi => ?_).trans (List.map_id _)).symm
    rw [range, List.mem_range'_1] at hi
    exact Gap.place_of_lt (by omega)
  have hsplit : range 0 o.entries.size = range 0 g.base ++ range g.base o.entries.size := by
    have hsum := List.range'_append_1 (s := 0) (m := g.base) (n := o.entries.size - g.base)
    rw [Nat.zero_add, Nat.add_sub_cancel' hle] at hsum
    exact hsum.symm
  rw [find?_eq, find?_eq, hrange, hsplit, List.find?_append, List.find?_append,
    List.find?_append, hnone,
    Option.none_or, hfront, List.find?_map, List.find?_map, hmoved, ← hfront, Option.map_or]

end Outline.Beside

end Harvest.Markup
