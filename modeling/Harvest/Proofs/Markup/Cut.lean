import Harvest.Proofs.Markup.Removal

/-!
# All removals at once

Removing targets one by one, in document order, leaves what one cut leaves.  A list of targets in
document order falls into parts, one for the first node and others for what stands inside it and
behind it; each part leaves the others alone.
-/

namespace Harvest.Markup

namespace Content

/-! ## All removals at once -/

/-- Which targets are in a list. -/
def chosenIn (ts : List Target) (t : Target) : Bool := decide (t ∈ ts)

theorem without_nil (id : Nat) (l : Label) : l.without (chosenIn []) id = l := by
  have hnone : ∀ t, chosenIn [] t = false := fun t => by simp [chosenIn]
  cases l with
  | element n as ds =>
      have hall : ∀ a ∈ as, (!chosenIn [] (.attr id a.name.expanded)) = true := by simp [hnone]
      rw [Label.without, List.filter_eq_self.mpr hall]
  | comment value => rfl
  | instruction target value => rfl
  | entity name value => rfl

theorem foldl_remove_attributes {id : Nat} {front : String} {l : Label} {inner rest : Content}
    (hinner : id ∉ inner.ids) (hrest : id ∉ rest.ids) {ts : List Target}
    (h : ts.Sublist (l.targets id)) :
    ts.foldl remove (node front id l inner rest) =
      node front id (l.without (chosenIn ts) id) inner rest := by
  have hattr : ∀ t ∈ ts, ∃ name, t = .attr id name := by
    intro t ht
    obtain ⟨a, _, rfl⟩ := List.mem_map.mp (h.subset ht)
    exact ⟨_, rfl⟩
  clear h
  induction ts generalizing l with
  | nil => rw [without_nil]; rfl
  | cons t ts ih =>
      obtain ⟨name, rfl⟩ := hattr t List.mem_cons_self
      have hstep : (node front id l inner rest).remove (.attr id name) =
          node front id (l.dropAttribute name) inner rest := by
        simp [remove, relabel, relabel_eq_self hinner, relabel_eq_self hrest]
      rw [List.foldl_cons, hstep, ih fun u hu => hattr u (List.mem_cons_of_mem _ hu)]
      congr 1
      cases l with
      | element n as ds =>
          simp only [Label.dropAttribute, Label.without, List.filter_filter]
          congr 1
          apply List.filter_congr
          intro a _
          by_cases hname : a.name.expanded = name <;> simp [chosenIn, hname]
      | comment value => rfl
      | instruction target value => rfl
      | entity name value => rfl

theorem sublist_singleton {ts : List Target} {t : Target} (h : ts.Sublist [t]) :
    ts = [] ∨ ts = [t] := by
  rcases List.sublist_cons_iff.mp h with h | ⟨r, rfl, h⟩
  · exact Or.inl (List.sublist_nil.mp h)
  · exact Or.inr (by simpa using h)

theorem foldl_remove_inside {id : Nat} {front : String} {l : Label} {inner rest : Content}
    (hinner : id ∉ inner.ids) (hrest : id ∉ rest.ids) {ts : List Target}
    (h : ts.Sublist (textTargets (.inside id) inner.leading)) :
    ts.foldl remove (node front id l inner rest) =
      node front id l
        (inner.setLeading (keptText (chosenIn ts) (.inside id) inner.leading)) rest := by
  unfold textTargets at h
  split at h
  · simp [List.sublist_nil.mp h, keptText, chosenIn]
  · rcases sublist_singleton h with rfl | rfl
    · simp [keptText, chosenIn]
    · simp [keptText, chosenIn, remove, clearText, clearText_eq_self hinner,
        clearText_eq_self hrest]

theorem foldl_remove_behind {id : Nat} {front : String} {l : Label} {inner rest : Content}
    (hinner : id ∉ inner.ids) (hrest : id ∉ rest.ids) {ts : List Target}
    (h : ts.Sublist (textTargets (.behind id) rest.leading)) :
    ts.foldl remove (node front id l inner rest) =
      node front id l inner
        (rest.setLeading (keptText (chosenIn ts) (.behind id) rest.leading)) := by
  unfold textTargets at h
  split at h
  · simp [List.sublist_nil.mp h, keptText, chosenIn]
  · rcases sublist_singleton h with rfl | rfl
    · simp [keptText, chosenIn]
    · simp [keptText, chosenIn, remove, clearTail, clearTail_eq_self hinner,
        clearTail_eq_self hrest]

theorem mem_textTargets {place : TextPlace} {s : String} {t : Target} :
    t ∈ textTargets place s ↔ s ≠ "" ∧ t = .text place := by
  unfold textTargets
  split <;> simp_all

theorem mem_labelTargets {id : Nat} {l : Label} {t : Target} :
    t ∈ l.targets id ↔ ∃ a ∈ l.attributes, t = .attr id a.name.expanded := by
  simp [Label.targets, eq_comm]

/-- The parts of a list of targets behind a node, in document order: attributes of the node, the
text in front inside it, targets inside it, the text behind it and targets behind it. -/
structure Parts (id : Nat) (l : Label) (inner rest : Content) (as ps qs rs vs : List Target) :
    Prop where
  attributes : as.Sublist (l.targets id)
  front : ps.Sublist (textTargets (.inside id) inner.leading)
  inside : qs.Sublist inner.targets
  back : rs.Sublist (textTargets (.behind id) rest.leading)
  behind : vs.Sublist rest.targets

theorem exists_parts {id : Nat} {l : Label} {inner rest : Content} {ts : List Target}
    (h : ts.Sublist (l.targets id ++ ((textTargets (.inside id) inner.leading ++ inner.targets) ++
      (textTargets (.behind id) rest.leading ++ rest.targets)))) :
    ∃ as ps qs rs vs, Parts id l inner rest as ps qs rs vs ∧
      ts = as ++ ((ps ++ qs) ++ (rs ++ vs)) := by
  obtain ⟨as, us, rfl, has, h⟩ := List.sublist_append_iff.mp h
  obtain ⟨us, ws, rfl, h, hws⟩ := List.sublist_append_iff.mp h
  obtain ⟨ps, qs, rfl, hps, hqs⟩ := List.sublist_append_iff.mp h
  obtain ⟨rs, vs, rfl, hrs, hvs⟩ := List.sublist_append_iff.mp hws
  exact ⟨as, ps, qs, rs, vs, ⟨has, hps, hqs, hrs, hvs⟩, rfl⟩

namespace Parts

variable {id : Nat} {l : Label} {inner rest : Content} {as ps qs rs vs : List Target} {t : Target}

theorem eq_attr (h : Parts id l inner rest as ps qs rs vs) (ht : t ∈ as) :
    ∃ name, t = .attr id name := by
  obtain ⟨a, _, rfl⟩ := mem_labelTargets.mp (h.attributes.subset ht)
  exact ⟨_, rfl⟩

theorem eq_front (h : Parts id l inner rest as ps qs rs vs) (ht : t ∈ ps) :
    t = .text (.inside id) := (mem_textTargets.mp (h.front.subset ht)).2

theorem owner_inside (h : Parts id l inner rest as ps qs rs vs) (ht : t ∈ qs) :
    t.owner ∈ inner.ids := owner_mem_ids (h.inside.subset ht)

theorem eq_back (h : Parts id l inner rest as ps qs rs vs) (ht : t ∈ rs) :
    t = .text (.behind id) := (mem_textTargets.mp (h.back.subset ht)).2

theorem owner_behind (h : Parts id l inner rest as ps qs rs vs) (ht : t ∈ vs) :
    t.owner ∈ rest.ids := owner_mem_ids (h.behind.subset ht)

/-- Whether a target is in the whole list is decided by the part for its node and its kind. -/
theorem mem_iff {front : String} (h : Parts id l inner rest as ps qs rs vs)
    (hn : (node front id l inner rest).ids.Nodup) {ts : List Target}
    (hts : ts = as ++ ((ps ++ qs) ++ (rs ++ vs))) :
    .node id ∉ ts ∧ (∀ name, .attr id name ∈ ts ↔ .attr id name ∈ as) ∧
      (.text (.inside id) ∈ ts ↔ .text (.inside id) ∈ ps) ∧
      (.text (.behind id) ∈ ts ↔ .text (.behind id) ∈ rs) ∧
      (∀ t : Target, t.owner ∈ inner.ids → (t ∈ ts ↔ t ∈ qs)) ∧
      (∀ t : Target, t.owner ∈ rest.ids → (t ∈ ts ↔ t ∈ vs)) := by
  rw [ids_node, List.nodup_cons, List.mem_append, not_or, List.nodup_append] at hn
  obtain ⟨⟨hid₁, hid₂⟩, _, _, hdisj⟩ := hn
  have has := @h.eq_attr
  have hps := @h.eq_front
  have hqs := @h.owner_inside
  have hrs := @h.eq_back
  have hvs := @h.owner_behind
  have hmem : ∀ t, t ∈ ts ↔ t ∈ as ∨ t ∈ ps ∨ t ∈ qs ∨ t ∈ rs ∨ t ∈ vs := fun t => by
    simp only [hts, List.mem_append, or_assoc]
  clear hts
  refine ⟨?_, ?_, ?_, ?_, ?_, ?_⟩ <;> grind

/-- A cut that keeps the first node cuts part by part. -/
theorem cut_eq {front : String} (h : Parts id l inner rest as ps qs rs vs)
    (hn : (node front id l inner rest).ids.Nodup) {ts : List Target}
    (hts : ts = as ++ ((ps ++ qs) ++ (rs ++ vs))) :
    (node front id l inner rest).cut (chosenIn ts) front =
      node front id (l.without (chosenIn as) id)
        (inner.cut (chosenIn qs) (keptText (chosenIn ps) (.inside id) inner.leading))
        (rest.cut (chosenIn vs) (keptText (chosenIn rs) (.behind id) rest.leading)) := by
  obtain ⟨hnode, hattr, hinside, hbehind, hinner, hrest⟩ := h.mem_iff hn hts
  have hkept : chosenIn ts (.node id) = false := by simp [chosenIn, hnode]
  have hl : l.without (chosenIn ts) id = l.without (chosenIn as) id := by
    cases l <;> simp [Label.without, chosenIn, hattr]
  have hfront : keptText (chosenIn ts) (.inside id) inner.leading =
      keptText (chosenIn ps) (.inside id) inner.leading := by
    simp [keptText, chosenIn, hinside]
  have hback : keptText (chosenIn ts) (.behind id) rest.leading =
      keptText (chosenIn rs) (.behind id) rest.leading := by
    simp [keptText, chosenIn, hbehind]
  have hinner' (s : String) : inner.cut (chosenIn ts) s = inner.cut (chosenIn qs) s :=
    cut_congr s fun t ht => by simp [chosenIn, hinner t ht]
  have hrest' (s : String) : rest.cut (chosenIn ts) s = rest.cut (chosenIn vs) s :=
    cut_congr s fun t ht => by simp [chosenIn, hrest t ht]
  simp only [cut, hkept, Bool.false_eq_true, if_false, hl, hfront, hback, hinner', hrest']

/-- Where the first node stays, its parts are changed one after the other. -/
theorem foldl_remove_eq {front : String} (h : Parts id l inner rest as ps qs rs vs)
    (hn : (node front id l inner rest).ids.Nodup)
    (hinner : ∀ s, qs.foldl remove (inner.setLeading s) = inner.cut (chosenIn qs) s)
    (hrest : ∀ s, vs.foldl remove (rest.setLeading s) = rest.cut (chosenIn vs) s) :
    (as ++ ((ps ++ qs) ++ (rs ++ vs))).foldl remove (node front id l inner rest) =
      node front id (l.without (chosenIn as) id)
        (inner.cut (chosenIn qs) (keptText (chosenIn ps) (.inside id) inner.leading))
        (rest.cut (chosenIn vs) (keptText (chosenIn rs) (.behind id) rest.leading)) := by
  rw [ids_node, List.nodup_cons, List.mem_append, not_or, List.nodup_append] at hn
  obtain ⟨⟨hid₁, hid₂⟩, _, _, hdisj⟩ := hn
  let l' := l.without (chosenIn as) id
  let s₁ := keptText (chosenIn ps) (.inside id) inner.leading
  let s₂ := keptText (chosenIn rs) (.behind id) rest.leading
  -- inside the node stay none but its own nodes, so the parts behind do not reach there
  have hids : (inner.cut (chosenIn qs) s₁).ids ⊆ inner.ids := by
    rw [← hinner, ← ids_setLeading s₁ inner]
    exact ids_foldl_remove_subset _ _
  have hid₁' : id ∉ (inner.cut (chosenIn qs) s₁).ids := fun hmem => hid₁ (hids hmem)
  have hqs : ∀ t ∈ qs, t.owner ≠ id ∧ t.owner ∉ rest.ids := by
    intro t ht
    have howner := h.owner_inside ht
    exact ⟨fun heq => hid₁ (heq ▸ howner), fun hr => hdisj _ howner _ hr rfl⟩
  have hvs : ∀ t ∈ vs, t.owner ≠ id ∧ t.owner ∉ (inner.cut (chosenIn qs) s₁).ids := by
    intro t ht
    have howner := h.owner_behind ht
    exact ⟨fun heq => hid₂ (heq ▸ howner), fun hi => hdisj _ (hids hi) _ howner rfl⟩
  calc
    (as ++ ((ps ++ qs) ++ (rs ++ vs))).foldl remove (node front id l inner rest)
      = vs.foldl remove (rs.foldl remove (qs.foldl remove (ps.foldl remove
          (as.foldl remove (node front id l inner rest))))) := by
        simp only [List.foldl_append]
    _ = vs.foldl remove (rs.foldl remove (qs.foldl remove (ps.foldl remove
          (node front id l' inner rest)))) := by
        rw [foldl_remove_attributes hid₁ hid₂ h.attributes]
    _ = vs.foldl remove (rs.foldl remove (qs.foldl remove
          (node front id l' (inner.setLeading s₁) rest))) := by
        rw [foldl_remove_inside hid₁ hid₂ h.front]
    _ = vs.foldl remove (rs.foldl remove
          (node front id l' (inner.cut (chosenIn qs) s₁) rest)) := by
        rw [foldl_remove_inner hqs, hinner]
    _ = vs.foldl remove
          (node front id l' (inner.cut (chosenIn qs) s₁) (rest.setLeading s₂)) := by
        rw [foldl_remove_behind hid₁' hid₂ h.back]
    _ = node front id l' (inner.cut (chosenIn qs) s₁) (rest.cut (chosenIn vs) s₂) := by
        rw [foldl_remove_rest hvs, hrest]

end Parts

/-- Where the first node is removed first, all that is removed afterwards stands behind it. -/
theorem foldl_remove_chosen {front : String} {id : Nat} {l : Label} {inner rest : Content}
    (hn : (node front id l inner rest).ids.Nodup) {ts : List Target}
    (hts : ts.Sublist (node front id l inner rest).targets)
    (ih : ∀ {us : List Target}, us.Sublist rest.targets → ∀ front,
      us.foldl remove (rest.setLeading front) = rest.cut (chosenIn us) front)
    {us : List Target} (hus : ts = .node id :: us) :
    ts.foldl remove (node front id l inner rest) =
      rest.cut (chosenIn ts) (front ++ rest.leading) := by
  subst hus
  rw [ids_node, List.nodup_cons, List.mem_append, not_or, List.nodup_append] at hn
  obtain ⟨⟨hid₁, hid₂⟩, hn₁, hn₂, hdisj⟩ := hn
  obtain ⟨as, ps, qs, rs, vs, h, rfl⟩ := exists_parts (List.cons_sublist_cons.mp hts)
  -- what belongs to the first node or stands inside it is gone with it
  have hgone : ∀ t ∈ as ++ ((ps ++ qs) ++ rs), t.owner ∉ rest.ids := by
    intro t ht
    simp only [List.mem_append] at ht
    rcases ht with ht | (ht | ht) | ht
    · obtain ⟨_, rfl⟩ := h.eq_attr ht
      exact hid₂
    · obtain rfl := h.eq_front ht
      exact hid₂
    · exact fun hr => hdisj _ (h.owner_inside ht) _ hr rfl
    · obtain rfl := h.eq_back ht
      exact hid₂
  have hfirst : (node front id l inner rest).remove (.node id) =
      rest.setLeading (front ++ rest.leading) := by
    simp [remove, take?, prepend]
  have hsplit : as ++ ((ps ++ qs) ++ (rs ++ vs)) = (as ++ ((ps ++ qs) ++ rs)) ++ vs := by simp
  have hskip : (as ++ ((ps ++ qs) ++ rs)).foldl remove
      (rest.setLeading (front ++ rest.leading)) = rest.setLeading (front ++ rest.leading) := by
    apply foldl_remove_eq_self
    rw [ids_setLeading]
    exact hgone
  rw [List.foldl_cons, hfirst, hsplit, List.foldl_append, hskip, ih h.behind]
  apply cut_congr
  intro t ht
  have hne : t ≠ .node id := fun heq => hid₂ (by simpa [heq] using ht)
  have hvs' : t ∈ (as ++ ((ps ++ qs) ++ rs)) ++ vs ↔ t ∈ vs :=
    List.mem_append.trans (or_iff_right fun hmem => hgone t hmem ht)
  simp only [chosenIn, List.mem_cons, hvs', hne, false_or]

/-- Removing targets one by one, in document order, comes to one cut.  The induction is on the
content; a list of targets in document order falls into the part of the first node, of what stands
inside it and of what stands behind it, and each part leaves the others alone. -/
theorem foldl_remove {c : Content} (hn : c.ids.Nodup) {ts : List Target}
    (hts : ts.Sublist c.targets) (front : String) :
    ts.foldl remove (c.setLeading front) = c.cut (chosenIn ts) front := by
  induction c generalizing ts front with
  | text s =>
      rw [targets, List.sublist_nil] at hts
      subst hts
      rfl
  | node before id l inner rest ih₁ ih₂ =>
      have hn' := hn
      rw [ids_node, List.nodup_cons, List.nodup_append] at hn'
      obtain ⟨_, hn₁, hn₂, _⟩ := hn'
      have hfront : (node front id l inner rest).ids.Nodup := hn
      change ts.Sublist (node front id l inner rest).targets at hts
      change ts.foldl remove (node front id l inner rest) =
        (node front id l inner rest).cut (chosenIn ts) front
      rcases List.sublist_cons_iff.mp hts with hts | ⟨us, rfl, hus⟩
      · obtain ⟨as, ps, qs, rs, vs, h, rfl⟩ := exists_parts hts
        rw [h.cut_eq hfront rfl]
        exact h.foldl_remove_eq hfront (ih₁ hn₁ h.inside) (ih₂ hn₂ h.behind)
      · refine (foldl_remove_chosen hfront hts (ih₂ hn₂) rfl).trans ?_
        simp [cut, chosenIn]

/-! ## The outermost nodes stay -/

/-- A target that is no node, or a node inside another one. -/
def isInner (c : Content) : Target → Bool
  | .node i => !c.topIds.contains i
  | _ => true

theorem topIds_subset_ids (c : Content) : c.topIds ⊆ c.ids := by
  induction c with
  | text s => simp [topIds]
  | node before id l inner rest _ ih =>
      intro i hi
      rcases List.mem_cons.mp hi with rfl | hi
      · simp
      · simp [ih hi]

theorem takeInside?_eq_take? {i : Nat} {c : Content} (h : i ∉ c.topIds) :
    c.takeInside? i = c.take? i := by
  induction c with
  | text s => rfl
  | node before id l inner rest _ ih =>
      rw [topIds, List.mem_cons, not_or] at h
      simp only [takeInside?, take?, Ne.symm h.1, if_false, ih h.2]

theorem takeInside?_top {i : Nat} {c : Content} (hn : c.ids.Nodup) (h : i ∈ c.topIds) :
    c.takeInside? i = none := by
  induction c with
  | text s => rfl
  | node before id l inner rest _ ih =>
      rw [ids_node, List.nodup_cons, List.mem_append, not_or, List.nodup_append] at hn
      obtain ⟨⟨hid₁, hid₂⟩, _, hn₂, hdisj⟩ := hn
      rcases List.mem_cons.mp h with rfl | h
      · simp [takeInside?, take?_eq_none hid₁, takeInside?_eq_none hid₂]
      · have hi : i ∉ inner.ids := fun hi => hdisj i hi i (topIds_subset_ids rest h) rfl
        simp [takeInside?, take?_eq_none hi, ih hn₂ h]

theorem removeInside_of_isInner {c : Content} {t : Target} (h : c.isInner t = true) :
    c.removeInside t = c.remove t := by
  cases t with
  | node i =>
      have hi : i ∉ c.topIds := by simpa [isInner] using h
      simp only [removeInside, remove, takeInside?_eq_take? hi]
  | attr i name => rfl
  | text place => rfl

theorem removeInside_of_not_isInner {c : Content} (hn : c.ids.Nodup) {t : Target}
    (h : c.isInner t = false) : c.removeInside t = c := by
  cases t with
  | node i =>
      have hi : i ∈ c.topIds := by simpa [isInner] using h
      simp [removeInside, takeInside?_top hn hi]
  | attr i name => simp [isInner] at h
  | text place => simp [isInner] at h

@[simp] theorem topIds_setLeading (s : String) (c : Content) :
    (c.setLeading s).topIds = c.topIds := by
  cases c <;> rfl

theorem topIds_takeInside? {i : Nat} {c taken left : Content}
    (h : c.takeInside? i = some (taken, left)) : left.topIds = c.topIds := by
  induction c generalizing taken left with
  | text s => cases h
  | node before id l inner rest _ ih =>
      rcases takeInside?_node h with ⟨inner', _, rfl⟩ | ⟨rest', htake, rfl⟩
      · rfl
      · simp [topIds, ih htake]

/-- Every removal keeps the outermost nodes. -/
@[simp] theorem topIds_removeInside (c : Content) (t : Target) :
    (c.removeInside t).topIds = c.topIds := by
  cases t with
  | node i =>
      cases ht : c.takeInside? i with
      | none => simp [removeInside, ht]
      | some p => simpa [removeInside, ht] using topIds_takeInside? ht
  | attr i name =>
      simp only [removeInside, remove]
      induction c with
      | text s => rfl
      | node before id l inner rest _ ih => simp [relabel, topIds, ih]
  | text place =>
      cases place with
      | inside i =>
          simp only [removeInside, remove]
          induction c with
          | text s => rfl
          | node before id l inner rest _ ih => simp [clearText, topIds, ih]
      | behind i =>
          simp only [removeInside, remove]
          induction c with
          | text s => rfl
          | node before id l inner rest _ ih =>
              by_cases hi : id = i <;> simp [clearTail, topIds, hi, ih]

theorem nodup_ids_removeInside {c : Content} (hn : c.ids.Nodup) (t : Target) :
    (c.removeInside t).ids.Nodup := by
  cases t with
  | node i =>
      cases ht : c.takeInside? i with
      | none => simpa [removeInside, ht] using hn
      | some p =>
          have hp := (ids_of_takeInside? ht).nodup_iff.mpr hn
          simpa [removeInside, ht] using (List.nodup_append.mp hp).2.1
  | attr i name => simpa [removeInside, remove] using hn
  | text place => cases place <;> simpa [removeInside, remove] using hn

theorem foldl_removeInside_eq {c : Content} (hn : c.ids.Nodup) (ts : List Target) :
    ts.foldl removeInside c = (ts.filter c.isInner).foldl remove c := by
  induction ts generalizing c with
  | nil => rfl
  | cons t ts ih =>
      have htop : (c.removeInside t).isInner = c.isInner := by
        funext u
        cases u <;> simp [isInner]
      rw [List.foldl_cons, ih (nodup_ids_removeInside hn t), htop]
      cases ht : c.isInner t with
      | true => rw [List.filter_cons_of_pos ht, List.foldl_cons, removeInside_of_isInner ht]
      | false =>
          rw [List.filter_cons_of_neg (by simp [ht]), removeInside_of_not_isInner hn ht]

/-- A cut that removes no outermost node is a cut inside the outermost nodes. -/
theorem cut_eq_cutInside {chosen : Target → Bool} {c : Content} (front : String)
    (h : ∀ i ∈ c.topIds, chosen (.node i) = false) :
    c.cut chosen front = c.cutInside chosen front := by
  induction c generalizing front with
  | text s => rfl
  | node before id l inner rest _ ih =>
      have hid : chosen (.node id) = false := h id List.mem_cons_self
      simp [cut, cutInside, hid, ih _ fun i hi => h i (List.mem_cons_of_mem id hi)]

/-- A cut inside the outermost nodes does not ask for these. -/
theorem cutInside_congr_inner {f g : Target → Bool} {c : Content} (front : String)
    (hn : c.ids.Nodup) (h : ∀ t : Target, t.owner ∈ c.ids → c.isInner t = true → f t = g t) :
    c.cutInside f front = c.cutInside g front := by
  induction c generalizing front with
  | text s => rfl
  | node before id l inner rest _ ih =>
      rw [ids_node, List.nodup_cons, List.mem_append, not_or, List.nodup_append] at hn
      obtain ⟨⟨hid₁, hid₂⟩, _, hn₂, hdisj⟩ := hn
      have hattr : ∀ name, f (.attr id name) = g (.attr id name) := fun name => h _ (by simp) rfl
      have htext : ∀ place, (Target.text place).owner = id → f (.text place) = g (.text place) :=
        fun place hp => h _ (by simp [hp]) rfl
      have hl : l.without f id = l.without g id := by
        cases l <;> simp [Label.without, hattr]
      -- identities are distinct, so what is inside this node is no outermost one, here or behind it
      have hinner : ∀ t : Target, t.owner ∈ inner.ids → f t = g t := by
        intro t ht
        refine h t (by simp [ht]) ?_
        cases t with
        | node i =>
            have h₁ : i ≠ id := fun e => hid₁ (e ▸ ht)
            have h₂ : i ∉ rest.topIds := fun hr => hdisj i ht i (topIds_subset_ids rest hr) rfl
            simp [isInner, topIds, h₁, h₂]
        | attr i name => rfl
        | text place => rfl
      have hrest : ∀ t : Target, t.owner ∈ rest.ids → rest.isInner t = true → f t = g t := by
        intro t ht hi
        refine h t (by simp [ht]) ?_
        cases t with
        | node i =>
            have h₁ : i ≠ id := fun e => hid₂ (e ▸ ht)
            simpa [isInner, topIds, h₁] using hi
        | attr i name => rfl
        | text place => rfl
      simp only [cutInside, keptText, htext (.inside id) rfl, htext (.behind id) rfl, hl,
        cut_congr _ hinner, ih _ hn₂ hrest]

theorem foldl_removeInside {c : Content} (hn : c.ids.Nodup) {ts : List Target}
    (hts : ts.Sublist c.targets) :
    ts.foldl removeInside c = c.cutInside (chosenIn ts) c.leading := by
  have hsub : (ts.filter c.isInner).Sublist c.targets := List.filter_sublist.trans hts
  have hcut := foldl_remove hn hsub c.leading
  rw [setLeading_leading] at hcut
  rw [foldl_removeInside_eq hn, hcut, cut_eq_cutInside]
  · apply cutInside_congr_inner _ hn
    intro t _ ht
    simp [chosenIn, ht]
  · intro i hi
    simp [chosenIn, isInner, hi]

end Content

end Harvest.Markup
