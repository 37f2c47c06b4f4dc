import Harvest.Proofs.Markup.Nesting
import Harvest.Proofs.Markup.Cut

/-!
# Erasing nodes

Erasing the nodes of a kind leaves the text around them, joined.  It is what a cut does that chooses
nothing else, and erasing twice is erasing both kinds at once.
-/

namespace Harvest.Markup.Content

/-- The content without the nodes of a kind and all that is inside them.  The texts around them are
joined. -/
def erase (p : Label → Bool) : Content → Content
  | text s => text s
  | node before id l inner rest =>
    if p l then (rest.erase p).prepend before
    else node before id l (inner.erase p) (rest.erase p)

/-- How many nodes of a kind there are, those inside others included. -/
def count (p : Label → Bool) : Content → Nat
  | text _ => 0
  | node _ _ l inner rest => (if p l then 1 else 0) + (inner.count p + rest.count p)

/-- All text, wherever it stands. -/
def allText : Content → String
  | text s => s
  | node before _ _ inner rest => before ++ (inner.allText ++ rest.allText)

/-- The texts behind the nodes of a kind, those inside others not included. -/
def tails (p : Label → Bool) : Content → String
  | text _ => ""
  | node _ _ l inner rest =>
    if p l then rest.leading ++ rest.tails p else inner.tails p ++ rest.tails p

/-- The same for the nodes that stand inside the outermost ones. -/
def tailsInside (p : Label → Bool) : Content → String
  | text _ => ""
  | node _ _ _ inner rest => inner.tails p ++ rest.tailsInside p

/-- No outermost node is of a kind. -/
def Spares (p : Label → Bool) : Content → Prop
  | text _ => True
  | node _ _ l _ rest => p l = false ∧ rest.Spares p

theorem Spares.mono {p q : Label → Bool} {c : Content} (h : c.Spares q)
    (hpq : ∀ l, p l = true → q l = true) : c.Spares p := by
  induction c with
  | text s => trivial
  | node before id l inner rest _ ih =>
      refine ⟨?_, ih h.2⟩
      by_contra hl
      have hq := hpq l (by simpa using hl)
      rw [h.1] at hq
      exact Bool.noConfusion hq

/-! ## Leading texts -/

@[simp] theorem prepend_node (s before : String) (id : Nat) (l : Label) (inner rest : Content) :
    (node before id l inner rest).prepend s = node (s ++ before) id l inner rest := rfl

theorem prepend_prepend (s t : String) (c : Content) :
    (c.prepend t).prepend s = c.prepend (s ++ t) := by
  simp [prepend, String.append_assoc]

/-! ## Erasing -/

theorem erase_prepend (p : Label → Bool) (s : String) (c : Content) :
    (c.prepend s).erase p = (c.erase p).prepend s := by
  cases c with
  | text t => rfl
  | node before id l inner rest =>
      by_cases h : p l = true
      · simp [erase, h, prepend_prepend]
      · simp [erase, h]

/-- Erasing two kinds of nodes one after the other erases both at once. -/
theorem erase_erase (p q : Label → Bool) (c : Content) :
    (c.erase p).erase q = c.erase fun l => p l || q l := by
  induction c with
  | text s => rfl
  | node before id l inner rest ih₁ ih₂ =>
      by_cases hp : p l = true
      · simp [erase, hp, erase_prepend, ih₂]
      · by_cases hq : q l = true
        · simp [erase, hp, hq, ih₂]
        · simp [erase, hp, hq, ih₁, ih₂]

/-- Erasing keeps what stands outside of all nodes where it erases nothing there. -/
theorem rootOf?_erase {p : Label → Bool} {c : Content} (h : c.Spares p) :
    Document.rootOf? (c.erase p) = Document.rootOf? c := by
  induction c with
  | text s => rfl
  | node before id l inner rest _ ih =>
      obtain ⟨hl, hrest⟩ := h
      simp [erase, hl, Document.rootOf?, ih hrest]

theorem spares_erase {p q : Label → Bool} {c : Content} (hp : c.Spares p) (hq : c.Spares q) :
    (c.erase p).Spares q := by
  induction c with
  | text s => trivial
  | node before id l inner rest _ ih =>
      obtain ⟨hp, hp'⟩ := hp
      obtain ⟨hq, hq'⟩ := hq
      simp only [erase, hp, Bool.false_eq_true, if_false]
      exact ⟨hq, ih hp' hq'⟩

/-! ## Cuts that erase -/

section
variable {f : Target → Bool} {p : Label → Bool}

/-- A cut decides about every node by its label. -/
def Labelled (f : Target → Bool) (p : Label → Bool) (place : Option TextPlace) (c : Content) :
    Prop :=
  ∀ id l, .node id l ∈ c.items place → f (.node id) = p l

theorem labelled_node {place : Option TextPlace} {before : String} {id : Nat} {l : Label}
    {inner rest : Content} (h : Labelled f p place (node before id l inner rest)) :
    f (.node id) = p l ∧ Labelled f p (some (.inside id)) inner ∧
      Labelled f p (some (.behind id)) rest := by
  refine ⟨h id l (by simp [items]), fun j k hj => h j k ?_, fun j k hj => h j k ?_⟩
  · simp [items, hj]
  · simp [items, hj]

theorem without_of_kept (h : ∀ id name, f (.attr id name) = false) (id : Nat) (l : Label) :
    l.without f id = l := by
  cases l with
  | element n as ds => simp [Label.without, h]
  | comment value => rfl
  | instruction target value => rfl
  | entity name value => rfl

/-- A cut that chooses nodes by their labels, and no attributes and no texts, erases these nodes. -/
theorem cut_eq_erase {place : Option TextPlace} {c : Content} (hf : Labelled f p place c)
    (hattr : ∀ id name, f (.attr id name) = false) (htext : ∀ place, f (.text place) = false)
    (front : String) : c.cut f front = (c.setLeading front).erase p := by
  induction c generalizing place front with
  | text s => rfl
  | node before id l inner rest ih₁ ih₂ =>
      obtain ⟨hid, hinner, hrest⟩ := labelled_node hf
      simp only [cut, setLeading, erase, hid]
      split
      · rw [ih₂ hrest, ← erase_prepend]
        rfl
      · rw [without_of_kept hattr, ih₁ hinner, ih₂ hrest]
        simp [keptText, htext]

/-! ## What text a cut leaves -/

theorem leading_mem_items (c : Content) (place : TextPlace) (h : c.leading ≠ "") :
    .text c.leading (some place) ∈ c.items (some place) := by
  cases c with
  | text s => simpa [items, textItems] using h
  | node before id l inner rest =>
      have hbefore : before ≠ "" := h
      simp [items, textItems, hbefore]

theorem keptText_leading {c : Content} {place : TextPlace}
    (h : ∀ s t, .text s (some t) ∈ c.items (some place) → f (.text t) = true) :
    keptText f place c.leading = "" := by
  unfold keptText
  by_cases hc : c.leading = ""
  · simp [hc]
  · simp [h _ _ (leading_mem_items c place hc)]

@[simp] theorem allText_text (s : String) : (text s).allText = s := rfl

/-- A cut that chooses all texts leaves the text in front of it and the texts behind the nodes that
it takes out. -/
theorem allText_cut {place : Option TextPlace} {c : Content} (hf : Labelled f p place c)
    (htext : ∀ s t, .text s (some t) ∈ c.items place → f (.text t) = true) (front : String) :
    (c.cut f front).allText = front ++ c.tails p := by
  induction c generalizing place front with
  | text s => simp [cut, tails]
  | node before id l inner rest ih₁ ih₂ =>
      obtain ⟨hid, hinner, hrest⟩ := labelled_node hf
      have htext₁ : ∀ s t, .text s (some t) ∈ inner.items (some (.inside id)) →
          f (.text t) = true := fun s t ht => htext s t (by simp [items, ht])
      have htext₂ : ∀ s t, .text s (some t) ∈ rest.items (some (.behind id)) →
          f (.text t) = true := fun s t ht => htext s t (by simp [items, ht])
      simp only [cut, tails, hid]
      split
      · rw [ih₂ hrest htext₂, String.append_assoc]
      · simp only [allText]
        rw [ih₁ hinner htext₁, ih₂ hrest htext₂, keptText_leading htext₁,
          keptText_leading htext₂]
        simp

/-- The same where the outermost nodes stay. -/
theorem allText_cutInside {place : Option TextPlace} {c : Content} (hf : Labelled f p place c)
    (htext : ∀ s t, .text s (some t) ∈ c.items place → f (.text t) = true) (front : String) :
    (c.cutInside f front).allText = front ++ c.tailsInside p := by
  induction c generalizing place front with
  | text s => simp [cutInside, tailsInside]
  | node before id l inner rest _ ih =>
      obtain ⟨_, hinner, hrest⟩ := labelled_node hf
      have htext₁ : ∀ s t, .text s (some t) ∈ inner.items (some (.inside id)) →
          f (.text t) = true := fun s t ht => htext s t (by simp [items, ht])
      have htext₂ : ∀ s t, .text s (some t) ∈ rest.items (some (.behind id)) →
          f (.text t) = true := fun s t ht => htext s t (by simp [items, ht])
      simp only [cutInside, tailsInside, allText]
      rw [allText_cut hinner htext₁, ih hrest htext₂, keptText_leading htext₁,
        keptText_leading htext₂]
      simp

/-- Behind nodes that a cut has taken out there is nothing left. -/
theorem tails_cut {place : Option TextPlace} {c : Content} (hf : Labelled f p place c)
    (hp : ∀ id l, p (l.without f id) = p l) (front : String) : (c.cut f front).tails p = "" := by
  induction c generalizing place front with
  | text s => rfl
  | node before id l inner rest ih₁ ih₂ =>
      obtain ⟨hid, hinner, hrest⟩ := labelled_node hf
      simp only [cut, hid]
      split
      · exact ih₂ hrest _
      · rename_i hl
        simp [tails, hp, hl, ih₁ hinner, ih₂ hrest]

theorem tailsInside_cutInside {place : Option TextPlace} {c : Content}
    (hf : Labelled f p place c) (hp : ∀ id l, p (l.without f id) = p l) (front : String) :
    (c.cutInside f front).tailsInside p = "" := by
  induction c generalizing place front with
  | text s => rfl
  | node before id l inner rest _ ih =>
      obtain ⟨_, hinner, hrest⟩ := labelled_node hf
      simp [cutInside, tailsInside, tails_cut hinner hp, ih hrest]

end

/-- A content has text if one of its items is a text. -/
theorem allText_eq_empty {c : Content} {place : Option TextPlace} :
    c.allText = "" ↔ ∀ s t, .text s t ∉ c.items place := by
  induction c generalizing place with
  | text s =>
      by_cases h : s = ""
      · simp [items, textItems, h]
      · simp [items, textItems, h]
  | node before id l inner rest ih₁ ih₂ =>
      have h₁ := @ih₁ (some (.inside id))
      have h₂ := @ih₂ (some (.behind id))
      by_cases h : before = ""
      · simp [allText, items, textItems, h, h₁, h₂, forall_and, not_or]
      · have hmem : .text before place ∈ (node before id l inner rest).items place := by
          simp [items, textItems, h]
        have hne : (node before id l inner rest).allText ≠ "" := by simp [allText, h]
        exact iff_of_false hne fun hall => hall before place hmem

/-! ## What a cut leaves outside -/

@[simp] theorem topIds_cutInside (f : Target → Bool) (front : String) (c : Content) :
    (c.cutInside f front).topIds = c.topIds := by
  induction c generalizing front with
  | text s => rfl
  | node before id l inner rest _ ih => simp [cutInside, topIds, ih]

@[simp] theorem isElement_without (f : Target → Bool) (id : Nat) (l : Label) :
    (l.without f id).isElement = l.isElement := by
  cases l <;> rfl

@[simp] theorem rootOf?_cutInside (f : Target → Bool) (front : String) (c : Content) :
    Document.rootOf? (c.cutInside f front) = Document.rootOf? c := by
  induction c generalizing front with
  | text s => rfl
  | node before id l inner rest _ ih => simp [cutInside, Document.rootOf?, ih]

/-- Where no outermost node is chosen by its label, all nodes are cut alike. -/
theorem cutInside_eq_cut {f : Target → Bool} {p : Label → Bool} {place : Option TextPlace}
    {c : Content} (hf : Labelled f p place c) (hp : c.Spares p) (front : String) :
    c.cutInside f front = c.cut f front := by
  induction c generalizing place front with
  | text s => rfl
  | node before id l inner rest _ ih =>
      obtain ⟨hid, _, hrest⟩ := labelled_node hf
      obtain ⟨hl, hrest'⟩ := hp
      simp [cutInside, cut, hid, hl, ih hrest hrest']

end Harvest.Markup.Content
