import Harvest.Proofs.Markup.Beside

/-!
# Inside a node

The entries of an outline that stand inside a node follow the entry of the node, wherever it stands:
in the document itself or in a tree that was taken out of it.
-/

namespace Harvest.Markup

/-- The row of entries of a tree, from a place on, has a node at another place, and then the entries
of what is inside the node. -/
def HasNode (start : Nat) (row : List Entry) (i : Nat) (l : Label) (inner : Content) (r : Nat) :
    Prop :=
  let within := inner.entries (some r) (some (.inside i)) (r + 1)
  ∃ front parent behind, row = front ++ ⟨.node i l, parent, r + 1 + within.length⟩ ::
    (within ++ behind) ∧ r = start + front.length

theorem HasNode.append {start i r : Nat} {row : List Entry} {l : Label} {inner : Content}
    (h : HasNode start row i l inner r) (first : Nat) (front behind : List Entry)
    (hstart : start = first + front.length) :
    HasNode first (front ++ row ++ behind) i l inner r := by
  obtain ⟨f, parent, b, rfl, rfl⟩ := h
  refine ⟨front ++ f, parent, b ++ behind, by simp, ?_⟩
  rw [List.length_append]
  omega

/-- A node that is found in a content has its place in the row of the content. -/
theorem Content.exists_hasNode {c inner : Content} {i : Nat} {l : Label}
    (h : c.find? i = some (l, inner)) (parent : Option Nat) (place : Option TextPlace)
    (start : Nat) : ∃ r, HasNode start (c.entries parent place start) i l inner r := by
  induction c generalizing parent place start with
  | text s => simp [find?] at h
  | node before id k inside rest ih₁ ih₂ =>
      rw [find?] at h
      rw [entries]
      generalize hfront : textEntry before place parent start = front
      generalize hwithin : inside.entries (some (start + front.length)) (some (.inside id))
        (start + front.length + 1) = within
      split at h
      · rename_i hid
        obtain ⟨rfl, rfl⟩ := Prod.mk.inj (Option.some.inj h)
        subst hid
        refine ⟨start + front.length, front, parent,
          rest.entries parent (some (.behind id))
            (start + front.length + 1 + within.length), ?_, rfl⟩
        rw [hwithin]
      · rcases Option.or_eq_some_iff.mp h with h | ⟨_, h⟩
        · obtain ⟨r, hr⟩ := ih₁ h (some (start + front.length)) (some (.inside id))
            (start + front.length + 1)
          rw [hwithin] at hr
          refine ⟨r, ?_⟩
          have hall := hr.append start (front ++ [⟨.node id k, parent, start + front.length + 1 +
            within.length⟩]) (rest.entries parent (some (.behind id))
            (start + front.length + 1 + within.length)) (by simp; omega)
          simpa using hall
        · obtain ⟨r, hr⟩ := ih₂ h parent (some (.behind id))
            (start + front.length + 1 + within.length)
          refine ⟨r, ?_⟩
          have hall := hr.append start (front ++ ⟨.node id k, parent, start + front.length + 1 +
            within.length⟩ :: within) [] (by simp; omega)
          simpa using hall

theorem exists_hasNode_rowOf {cs : List Content} {c inner : Content} {i : Nat} {l : Label}
    (hc : c ∈ cs) (h : c.find? i = some (l, inner)) (start : Nat) :
    ∃ r, HasNode start (rowOf start cs) i l inner r := by
  induction cs generalizing start with
  | nil => cases hc
  | cons d ds ih =>
      rw [rowOf]
      rcases List.mem_cons.mp hc with rfl | hc
      · obtain ⟨r, hr⟩ := Content.exists_hasNode h none none start
        exact ⟨r, hr.append start [] _ (by simp)⟩
      · obtain ⟨r, hr⟩ := ih hc (start + (d.items none).length)
        refine ⟨r, ?_⟩
        have hall := hr.append start (d.entries none none start) []
          (by rw [Content.length_entries])
        simpa using hall

namespace Outline

theorem item?_of_getElem? {o : Outline} {i : Nat} {e : Entry} (h : o.entries[i]? = some e) :
    o.item? i = some e.item := by
  simp [item?, h]

/-- The entries inside a node of a document, with their places, where the node itself stands at a
place. -/
def row (i : Nat) (inner : Content) (r : Nat) : List (Entry × Nat) :=
  (inner.entries (some r) (some (.inside i)) (r + 1)).zipIdx (r + 1)

/-- A node of a document stands at a place of the outline, and what is inside it behind that. -/
structure Holds (d : Document) (i : Nat) (l : Label) (inner : Content) (r : Nat) : Prop where
  proper : inner.Proper
  item : (ofDocument d).item? r = some (.node i l)
  stop : (ofDocument d).stop r = r + 1 + (row i inner r).length
  getElem? : ∀ {e : Entry} {q : Nat}, (e, q) ∈ row i inner r →
    (ofDocument d).entries[q]? = some e
  exists_mem : ∀ q, r < q → q < r + 1 + (row i inner r).length → ∃ e, (e, q) ∈ row i inner r

end Outline

theorem Content.Proper.of_find? {c inner : Content} (hp : c.Proper) {i : Nat} {l : Label}
    (h : c.find? i = some (l, inner)) : inner.Proper := by
  induction c with
  | text s => simp [Content.find?] at h
  | node before id k inside rest ih₁ ih₂ =>
      obtain ⟨_, hp₁, hp₂⟩ := hp
      rw [Content.find?] at h
      split at h
      · obtain ⟨_, rfl⟩ := Prod.mk.inj (Option.some.inj h)
        exact hp₁
      · rcases Option.or_eq_some_iff.mp h with h | ⟨_, h⟩
        · exact ih₁ hp₁ h
        · exact ih₂ hp₂ h

namespace Document

variable {d : Document} {i : Nat} {l : Label} {inner : Content}

theorem exists_tree_of_find? (h : d.find? i = some (l, inner)) :
    ∃ c ∈ d.trees, c.find? i = some (l, inner) := List.exists_of_findSome?_eq_some h

/-- Every node of a document has its place in the outline. -/
theorem exists_holds (h : d.find? i = some (l, inner)) : ∃ r, Outline.Holds d i l inner r := by
  obtain ⟨c, hc, hfind⟩ := exists_tree_of_find? h
  obtain ⟨r, front, parent, behind, hrow, hr⟩ := exists_hasNode_rowOf hc hfind 0
  rw [Nat.zero_add] at hr
  have hentries : ∀ q : Nat, (Outline.ofDocument d).entries[q]? = (rowOf 0 d.trees)[q]? := by
    intro q
    rw [Outline.ofDocument_eq, List.getElem?_toArray]
  have hat : (Outline.ofDocument d).entries[r]? = some ⟨.node i l, parent,
      r + 1 + (inner.entries (some r) (some (.inside i)) (r + 1)).length⟩ := by
    rw [hentries, hrow, hr, List.getElem?_append_right (Nat.le_refl _), Nat.sub_self,
      List.getElem?_cons_zero]
  refine ⟨r, (d.proper c hc).of_find? hfind, Outline.item?_of_getElem? hat, ?_, ?_, ?_⟩
  · simp [Outline.stop, hat, Outline.row]
  · intro e q he
    obtain ⟨hle, hq⟩ := List.mk_mem_zipIdx_iff_le_and_getElem?_sub.mp he
    obtain ⟨k, rfl⟩ := Nat.exists_eq_add_of_le hle
    have hk : r + 1 + k - (r + 1) = k := by omega
    rw [hk] at hq
    have hlt := (List.getElem?_eq_some_iff.mp hq).1
    rw [hentries, hrow, List.getElem?_append_right (by omega),
      show r + 1 + k - front.length = k + 1 by omega, List.getElem?_cons_succ,
      List.getElem?_append_left hlt, hq]
  · intro q hq hlt
    obtain ⟨k, rfl⟩ := Nat.exists_eq_add_of_le hq
    rw [Outline.row, List.length_zipIdx] at hlt
    have hk : k < (inner.entries (some r) (some (.inside i)) (r + 1)).length := by omega
    obtain ⟨e, he⟩ : ∃ e, (inner.entries (some r) (some (.inside i)) (r + 1))[k]? = some e :=
      ⟨_, List.getElem?_eq_getElem hk⟩
    refine ⟨e, List.mk_mem_zipIdx_iff_le_and_getElem?_sub.mpr ⟨by omega, ?_⟩⟩
    rw [show r.succ + k - (r + 1) = k by omega, he]

end Document

end Harvest.Markup
