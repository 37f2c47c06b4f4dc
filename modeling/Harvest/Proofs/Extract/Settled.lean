import Harvest.Proofs.Extract.Beside

/-!
# Extractions that settle

An extraction that takes nothing away reads what is in a document and at most adds trees of new
nodes behind it.  So it has the same outcome after other such extractions, and several of them one
after the other come to what each of them comes to alone.
-/

namespace Harvest

open Markup (Document Gap idsOf)

/-! ## Documents that grow -/

namespace Markup.Document

/-- Nothing of a document changes, and trees of new nodes come behind it. -/
structure Grows (d d₁ : Document) : Prop where
  trees : ∃ added, d₁.trees = d.trees ++ added ∧ ∀ i ∈ idsOf added, d.fresh ≤ i
  fresh_le : d.fresh ≤ d₁.fresh

variable {d d₁ d₂ : Document}

theorem Grows.refl (d : Document) : d.Grows d := ⟨⟨[], by simp⟩, Nat.le_refl _⟩

theorem Grows.trans (h : d.Grows d₁) (h' : d₁.Grows d₂) : d.Grows d₂ := by
  obtain ⟨added, htrees, hadded⟩ := h.trees
  obtain ⟨added', htrees', hadded'⟩ := h'.trees
  have hle := h.fresh_le
  refine ⟨⟨added ++ added', by rw [htrees', htrees, List.append_assoc], fun i hi => ?_⟩,
    Nat.le_trans hle h'.fresh_le⟩
  rw [idsOf_append, List.mem_append] at hi
  rcases hi with hi | hi
  · exact hadded i hi
  · exact Nat.le_trans hle (hadded' i hi)

theorem Grows.main (h : d.Grows d₁) (hd : d.trees ≠ []) : d₁.main = d.main := by
  obtain ⟨added, htrees, _⟩ := h.trees
  rw [Document.main, Document.main, htrees]
  cases hd' : d.trees with
  | nil => exact absurd hd' hd
  | cons c cs => rfl

/-- What came to a document is a gap between the document and all that comes later. -/
theorem Grows.exists_gap (h : d.Grows d₁) (hd : d.trees ≠ []) :
    ∃ g : Gap, g.front = d.trees ∧ g.fresh = d.fresh ∧ d.Beside g d₁ := by
  obtain ⟨added, htrees, hadded⟩ := h.trees
  have hle := h.fresh_le
  let g : Gap :=
    { front := d.trees
      between := added
      fresh := d.fresh
      count := d₁.fresh - d.fresh
      front_ne := hd
      front_lt := d.below
      mem_between := fun i hi => by
        have hmem : i ∈ idsOf d₁.trees := by
          rw [htrees, idsOf_append]
          exact List.mem_append_right _ hi
        have := d₁.below i hmem
        exact ⟨hadded i hi, by omega⟩ }
  refine ⟨g, rfl, rfl, ⟨[], ?_, ?_, by simp⟩, Nat.le_refl _, ?_⟩
  · simp [g]
  · simp [g, htrees]
  · simp only [g]
    omega

theorem Beside.grows {g : Gap} {d₁' : Document} (h : d₁.Beside g d₁') (hfront : g.front = d.trees)
    (hfresh : g.fresh = d.fresh) : d.Grows d₁ := by
  obtain ⟨behind, htrees, _, hbehind⟩ := h.trees
  exact ⟨⟨behind, hfront ▸ htrees, hfresh ▸ hbehind⟩, hfresh ▸ h.fresh_le⟩

theorem id_of_mem {g : Gap} (hg : d.fresh ≤ g.fresh) {i : Nat}
    (hi : i ∈ idsOf d.trees) : g.id i = i :=
  shift_of_lt (Nat.lt_of_lt_of_le (d.below i hi) hg)

theorem ne_nil_of_mem {i : Nat} (hi : i ∈ idsOf d.trees) : d.trees ≠ [] := by
  intro h
  rw [h] at hi
  cases hi

end Markup.Document

/-! ## Settled extractions -/

namespace Extraction

variable {α β : Type} {m : Extraction α} {f : α → Extraction β} {d d₁ : Document}

/-- An extraction has the same outcome on a document to which something came, and nothing changes
but that more comes to it. -/
def Settled (m : Extraction α) (d : Document) : Prop :=
  ∀ d₁, d.Grows d₁ → (m.run d₁).1 = (m.run d).1 ∧ d₁.Grows (m.run d₁).2

namespace Settled

theorem grows (h : m.Settled d) : d.Grows (m.run d).2 := (h d (.refl d)).2

theorem pure (a : α) : (pure a : Extraction α).Settled d := fun d₁ _ => ⟨rfl, .refl d₁⟩

theorem bind (hm : m.Settled d) (hf : ∀ a, (f a).Settled d) : (m >>= f).Settled d := by
  have hrun : ∀ d₁, d.Grows d₁ → d₁.Grows ((m >>= f).run d₁).2 ∧
      ((m >>= f).run d₁).1 = match (m.run d).1 with
        | .ok a => ((f a).run d).1
        | .error e => .error e := by
    intro d₁ hd
    obtain ⟨hout, hgrows⟩ := hm d₁ hd
    rw [run_bind]
    rcases hr : m.run d₁ with ⟨e | a, d₂⟩
    · rw [hr] at hout hgrows
      rw [← hout]
      exact ⟨hgrows, rfl⟩
    · rw [hr] at hout hgrows
      rw [← hout]
      obtain ⟨hout', hgrows'⟩ := hf a d₂ (hd.trans hgrows)
      exact ⟨hgrows.trans hgrows', hout'⟩
  intro d₁ hd
  exact ⟨(hrun d₁ hd).2.trans (hrun d (.refl d)).2.symm, (hrun d₁ hd).1⟩

/-- Two settled extractions one after the other: both of them read the first document. -/
theorem bind_eq_ok (hm : m.Settled d) (hf : ∀ a, (f a).Settled d) {b : β} :
    ((m >>= f).run d).1 = .ok b ↔ ∃ a, (m.run d).1 = .ok a ∧ ((f a).run d).1 = .ok b := by
  rw [run_bind]
  have hgrows := hm.grows
  rcases hr : m.run d with ⟨e | a, d₁⟩
  · simp
  · rw [hr] at hgrows
    simp [(hf a d₁ hgrows).1]

/-- The results of two extractions, put together. -/
theorem both {n : Extraction β} {γ : Type} (hm : m.Settled d) (hn : n.Settled d) (put : α → β → γ) :
    (do let a ← m; let b ← n; return put a b : Extraction γ).Settled d :=
  hm.bind fun _ => hn.bind fun _ => .pure _

theorem both_eq_ok {n : Extraction β} {γ : Type} (hm : m.Settled d) (hn : n.Settled d)
    (put : α → β → γ) {c : γ} :
    ((do let a ← m; let b ← n; return put a b : Extraction γ).run d).1 = .ok c ↔
      ∃ a b, (m.run d).1 = .ok a ∧ (n.run d).1 = .ok b ∧ c = put a b := by
  rw [hm.bind_eq_ok fun a => hn.bind fun b => .pure _]
  constructor
  · rintro ⟨a, ha, hrest⟩
    obtain ⟨b, hb, hc⟩ := (hn.bind_eq_ok fun b => .pure _).mp hrest
    exact ⟨a, b, ha, hb, (Except.ok.inj hc).symm⟩
  · rintro ⟨a, b, ha, hb, rfl⟩
    exact ⟨a, ha, (hn.bind_eq_ok fun b => .pure _).mpr ⟨b, hb, rfl⟩⟩

/-- What is the same behind every gap is settled. -/
theorem of_mirrors (hd : d.trees ≠ []) (h : ∀ g : Gap, d.fresh ≤ g.fresh → Mirrors g (· = ·) m m) :
    m.Settled d := by
  intro d₁ hd₁
  obtain ⟨g, _, hfresh, hg⟩ := hd₁.exists_gap hd
  have hne : d₁.trees ≠ [] := by
    obtain ⟨added, htrees, _⟩ := hd₁.trees
    rw [htrees]
    exact List.append_ne_nil_of_left_ne_nil hd added
  obtain ⟨g', hfront', hfresh', hg'⟩ := (Document.Grows.refl d₁).exists_gap hne
  constructor
  · exact (h g (Nat.le_of_eq hfresh.symm) d d₁ hg).1.eq.symm
  · have hle : d.fresh ≤ g'.fresh := hfresh' ▸ hd₁.fresh_le
    exact (h g' hle d₁ d₁ hg').2.grows hfront' hfresh'

end Settled

end Extraction

namespace Extractor

open Extraction (Settled Mirrors)

variable {x : Extractor} {d d₁ : Document} {context : Nat}

theorem settled_walk {s : Schema} (hs : ∀ r ∈ s.rules, r.head.removeSelector = none)
    (hc : context ∈ idsOf d.trees) : (walk x context s).Settled d := by
  refine .of_mirrors (Document.ne_nil_of_mem hc) fun g hg => ?_
  have h := mirrors_walk g x s hs context
  rwa [Document.id_of_mem hg hc] at h

theorem settled_evaluate {rule : Rule} (hrule : ∀ r ∈ rule.all, r.head.removeSelector = none)
    (hc : context ∈ idsOf d.trees) : (evaluate x context rule).Settled d := by
  refine .of_mirrors (Document.ne_nil_of_mem hc) fun g hg => ?_
  have h := mirrors_evaluate (hrule rule rule.mem_all) (mirrors_valueOf g x rule hrule) context
  rwa [Document.id_of_mem hg hc] at h

theorem mem_of_hasElement (h : d.HasElement context) : context ∈ idsOf d.trees := by
  obtain ⟨l, c, hfind, _⟩ := h
  obtain ⟨t, ht, hfind⟩ := List.exists_of_findSome?_eq_some hfind
  exact Markup.mem_idsOf.mpr ⟨t, ht, Markup.Content.mem_ids_of_find? hfind⟩

/-- The nodes that a selector finds are those of the document. -/
theorem mem_of_select {query : XPath} {language : Markup.Language} {found : List Match}
    (h : d.select language context query = .ok (found, d₁)) {id : Nat} (hid : .node id ∈ found) :
    id ∈ idsOf d₁.trees := by
  have htarget : Markup.Target.node id ∈ Match.targets found :=
    List.mem_filterMap.mpr ⟨.node id, hid, rfl⟩
  obtain ⟨c, hc, ht⟩ := List.mem_flatMap.mp ((Match.targets_of_select h).2.mem htarget)
  exact Markup.mem_idsOf.mpr ⟨c, hc, Markup.Content.owner_mem_ids ht⟩

end Extractor

end Harvest
