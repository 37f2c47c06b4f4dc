import Harvest.Markup.Content

/-!
# The shape of content

Nothing stands inside a node that is no element, and a whole document has no text outside of its
nodes and no more than one root.  Whatever is done to a document keeps this shape.
-/

namespace Harvest.Markup.Content

/-- Nothing stands inside a node that is no element. -/
def Proper : Content → Prop
  | text _ => True
  | node _ _ l inner rest => (l.isElement = false → inner = empty) ∧ inner.Proper ∧ rest.Proper

/-- The text that is not inside a node. -/
def outerText : Content → String
  | text s => s
  | node before _ _ _ rest => before ++ rest.outerText

/-- The number of elements that are not inside another node. -/
def outerElements : Content → Nat
  | text _ => 0
  | node _ _ l _ rest => (if l.isElement then 1 else 0) + rest.outerElements

/-- There is no text outside of all nodes, and no more than one element outside of all others. -/
structure Whole (c : Content) : Prop where
  no_text : c.outerText = ""
  one_element : c.outerElements ≤ 1

/-! ## Nothing inside what is no element -/

@[simp] theorem proper_empty : empty.Proper := trivial

@[simp] theorem proper_text (s : String) : (text s).Proper := trivial

@[simp] theorem proper_node {before : String} {id : Nat} {l : Label} {inner rest : Content} :
    (node before id l inner rest).Proper ↔
      (l.isElement = false → inner = empty) ∧ inner.Proper ∧ rest.Proper := Iff.rfl

@[simp] theorem proper_setLeading {s : String} {c : Content} :
    (c.setLeading s).Proper ↔ c.Proper := by
  cases c <;> simp [setLeading]

@[simp] theorem proper_prepend {s : String} {c : Content} : (c.prepend s).Proper ↔ c.Proper := by
  simp [prepend]

@[simp] theorem take?_empty (i : Nat) : empty.take? i = none := rfl

namespace Proper

theorem relabel {i : Nat} {f : Label → Label} (hf : ∀ l, (f l).isElement = l.isElement)
    {c : Content} (h : c.Proper) : (c.relabel i f).Proper := by
  induction c with
  | text s => trivial
  | node before id l inner rest ih₁ ih₂ =>
    obtain ⟨h₀, h₁, h₂⟩ := h
    refine ⟨fun hl => ?_, ih₁ h₁, ih₂ h₂⟩
    have hl' : l.isElement = false := by
      by_cases hi : id = i
      · simpa [hi, hf] using hl
      · simpa [hi] using hl
    rw [h₀ hl']
    rfl

theorem clearText {i : Nat} {c : Content} (h : c.Proper) : (c.clearText i).Proper := by
  induction c with
  | text s => trivial
  | node before id l inner rest ih₁ ih₂ =>
    obtain ⟨h₀, h₁, h₂⟩ := h
    by_cases hi : id = i
    · refine ⟨fun hl => ?_, by simpa [hi] using ih₁ h₁, ih₂ h₂⟩
      simp [hi, h₀ hl, Content.clearText, empty, setLeading]
    · refine ⟨fun hl => ?_, by simpa [hi] using ih₁ h₁, ih₂ h₂⟩
      simp [hi, h₀ hl, Content.clearText, empty]

theorem clearTail {i : Nat} {c : Content} (h : c.Proper) : (c.clearTail i).Proper := by
  induction c with
  | text s => trivial
  | node before id l inner rest ih₁ ih₂ =>
    obtain ⟨h₀, h₁, h₂⟩ := h
    refine ⟨fun hl => by rw [h₀ hl]; rfl, ih₁ h₁, ?_⟩
    by_cases hi : id = i
    · simpa [hi] using ih₂ h₂
    · simpa [hi] using ih₂ h₂

theorem number {n : Nat} {c : Content} (h : c.Proper) : (c.number n).1.Proper := by
  induction c generalizing n with
  | text s => trivial
  | node before id l inner rest ih₁ ih₂ =>
    obtain ⟨h₀, h₁, h₂⟩ := h
    exact ⟨fun hl => by rw [h₀ hl]; rfl, ih₁ h₁, ih₂ h₂⟩

theorem take? {i : Nat} {c taken left : Content} (h : c.Proper)
    (ht : c.take? i = some (taken, left)) : taken.Proper ∧ left.Proper := by
  induction c generalizing taken left with
  | text s => cases ht
  | node before id l inner rest ih₁ ih₂ =>
    obtain ⟨h₀, h₁, h₂⟩ := h
    rcases take?_node ht with ⟨_, rfl, rfl⟩ | ⟨inner', htake, rfl⟩ | ⟨rest', htake, rfl⟩
    · exact ⟨⟨h₀, h₁, trivial⟩, proper_prepend.mpr h₂⟩
    · obtain ⟨hp, hq⟩ := ih₁ h₁ htake
      exact ⟨hp, fun hl => by simp [h₀ hl] at htake, hq, h₂⟩
    · obtain ⟨hp, hq⟩ := ih₂ h₂ htake
      exact ⟨hp, h₀, h₁, hq⟩

theorem takeInside? {i : Nat} {c taken left : Content} (h : c.Proper)
    (ht : c.takeInside? i = some (taken, left)) : taken.Proper ∧ left.Proper := by
  induction c generalizing taken left with
  | text s => cases ht
  | node before id l inner rest ih₁ ih₂ =>
    obtain ⟨h₀, h₁, h₂⟩ := h
    rcases takeInside?_node ht with ⟨inner', htake, rfl⟩ | ⟨rest', htake, rfl⟩
    · obtain ⟨hp, hq⟩ := h₁.take? htake
      exact ⟨hp, fun hl => by simp [h₀ hl] at htake, hq, h₂⟩
    · obtain ⟨hp, hq⟩ := ih₂ h₂ htake
      exact ⟨hp, h₀, h₁, hq⟩

end Proper

/-! ## One root and no text around it -/

@[simp] theorem outerText_node {before : String} {id : Nat} {l : Label} {inner rest : Content} :
    (node before id l inner rest).outerText = "" ↔ before = "" ∧ rest.outerText = "" := by
  simp [outerText]

theorem outerText_setLeading {c : Content} (h : c.outerText = "") :
    (c.setLeading "").outerText = "" := by
  cases c with
  | text s => rfl
  | node before id l inner rest =>
    exact outerText_node.mpr ⟨rfl, (outerText_node.mp h).2⟩

@[simp] theorem outerElements_setLeading (s : String) (c : Content) :
    (c.setLeading s).outerElements = c.outerElements := by
  cases c <;> rfl

@[simp] theorem outerText_relabel (i : Nat) (f : Label → Label) (c : Content) :
    (c.relabel i f).outerText = c.outerText := by
  induction c with
  | text s => rfl
  | node before id l inner rest _ ih => simp [Content.relabel, outerText, ih]

theorem outerElements_relabel {i : Nat} {f : Label → Label}
    (hf : ∀ l, (f l).isElement = l.isElement) (c : Content) :
    (c.relabel i f).outerElements = c.outerElements := by
  induction c with
  | text s => rfl
  | node before id l inner rest _ ih =>
    by_cases hi : id = i <;> simp [Content.relabel, outerElements, hi, hf, ih]

@[simp] theorem outerText_clearText (i : Nat) (c : Content) :
    (c.clearText i).outerText = c.outerText := by
  induction c with
  | text s => rfl
  | node before id l inner rest _ ih => simp [Content.clearText, outerText, ih]

@[simp] theorem outerElements_clearText (i : Nat) (c : Content) :
    (c.clearText i).outerElements = c.outerElements := by
  induction c with
  | text s => rfl
  | node before id l inner rest _ ih => simp [Content.clearText, outerElements, ih]

theorem outerText_clearTail {i : Nat} {c : Content} (h : c.outerText = "") :
    (c.clearTail i).outerText = "" := by
  induction c with
  | text s => exact h
  | node before id l inner rest _ ih =>
    obtain ⟨h₁, h₂⟩ := outerText_node.mp h
    refine outerText_node.mpr ⟨h₁, ?_⟩
    by_cases hi : id = i
    · simpa [hi] using outerText_setLeading (ih h₂)
    · simpa [hi] using ih h₂

@[simp] theorem outerElements_clearTail (i : Nat) (c : Content) :
    (c.clearTail i).outerElements = c.outerElements := by
  induction c with
  | text s => rfl
  | node before id l inner rest _ ih =>
    by_cases hi : id = i <;> simp [Content.clearTail, outerElements, hi, ih]

@[simp] theorem outerText_number (n : Nat) (c : Content) :
    (c.number n).1.outerText = c.outerText := by
  induction c generalizing n with
  | text s => rfl
  | node before id l inner rest _ ih => simp [Content.number, outerText, ih]

@[simp] theorem outerElements_number (n : Nat) (c : Content) :
    (c.number n).1.outerElements = c.outerElements := by
  induction c generalizing n with
  | text s => rfl
  | node before id l inner rest _ ih => simp [Content.number, outerElements, ih]

/-- Taking out a node that stands inside another one leaves all that stands outside as it is. -/
theorem outer_of_takeInside? {i : Nat} {c taken left : Content}
    (h : c.takeInside? i = some (taken, left)) :
    left.outerText = c.outerText ∧ left.outerElements = c.outerElements := by
  induction c generalizing taken left with
  | text s => cases h
  | node before id l inner rest _ ih =>
    rcases takeInside?_node h with ⟨inner', _, rfl⟩ | ⟨rest', htake, rfl⟩
    · exact ⟨rfl, rfl⟩
    · obtain ⟨h₁, h₂⟩ := ih htake
      exact ⟨by simp [outerText, h₁], by simp [outerElements, h₂]⟩

namespace Whole

theorem of_eq {c d : Content} (h : c.Whole) (ht : d.outerText = c.outerText)
    (he : d.outerElements = c.outerElements) : d.Whole :=
  ⟨ht.trans h.no_text, he ▸ h.one_element⟩

theorem single (id : Nat) (l : Label) (inner : Content) : (Content.single id l inner).Whole :=
  ⟨rfl, by simp only [Content.single, Content.empty, outerElements]; split <;> simp⟩

theorem relabel {i : Nat} {f : Label → Label} (hf : ∀ l, (f l).isElement = l.isElement)
    {c : Content} (h : c.Whole) : (c.relabel i f).Whole :=
  h.of_eq (outerText_relabel i f c) (outerElements_relabel hf c)

theorem clearText {c : Content} (h : c.Whole) (i : Nat) : (c.clearText i).Whole :=
  h.of_eq (outerText_clearText i c) (outerElements_clearText i c)

theorem clearTail {c : Content} (h : c.Whole) (i : Nat) : (c.clearTail i).Whole :=
  h.of_eq ((outerText_clearTail h.no_text).trans h.no_text.symm) (outerElements_clearTail i c)

theorem number {c : Content} (h : c.Whole) (n : Nat) : (c.number n).1.Whole :=
  h.of_eq (outerText_number n c) (outerElements_number n c)

theorem takeInside? {i : Nat} {c taken left : Content} (h : c.Whole)
    (ht : c.takeInside? i = some (taken, left)) : left.Whole :=
  h.of_eq (outer_of_takeInside? ht).1 (outer_of_takeInside? ht).2

end Whole

end Harvest.Markup.Content
