import Harvest.Markup.Document

/-!
# Building content

A document under construction: what is complete at its top, and the elements that are still open,
each with what is complete inside it.
-/

namespace Harvest.Markup

/-- A node's content fits its label: nothing stands inside what is no element. -/
def Content.Fits (inner : Content) (l : Label) : Prop :=
  (l.isElement = false → inner = empty) ∧ inner.Proper

theorem Content.Fits.empty (l : Label) : Content.empty.Fits l := ⟨fun _ => rfl, trivial⟩

/-- Content under construction: the complete nodes, last one first, each with the text in front of
it, and the text behind the last one. -/
structure Draft where
  done : List (String × Label × Content) := []
  pending : String := ""
  fits : ∀ e ∈ done, e.2.2.Fits e.2.1 := by simp

namespace Draft

/-- The draft with a text at its end. -/
def addText (d : Draft) (s : String) : Draft := { d with pending := d.pending ++ s }

/-- The draft with a node at its end. -/
def addNode (d : Draft) (l : Label) (inner : Content) (h : inner.Fits l) : Draft where
  done := (d.pending, l, inner) :: d.done
  fits := by
    intro e he
    rcases List.mem_cons.mp he with rfl | he
    · exact h
    · exact d.fits e he

/-- The content of complete nodes in front of a rest, with nodes that are not numbered. -/
def assemble (rest : Content) (done : List (String × Label × Content)) : Content :=
  done.foldl (fun rest (before, l, inner) => .node before 0 l inner rest) rest

/-- The content of the draft, with nodes that are not numbered. -/
def content (d : Draft) : Content := assemble (.text d.pending) d.done

/-- The number of elements that stand in the draft, not inside another one. -/
def elements (done : List (String × Label × Content)) : Nat := done.countP fun e => e.2.1.isElement

/-- Whether an element stands in the draft, not inside another one. -/
def hasElement (d : Draft) : Bool := d.done.any fun (_, l, _) => l.isElement

theorem proper_assemble {rest : Content} {done : List (String × Label × Content)}
    (hr : rest.Proper) (h : ∀ e ∈ done, e.2.2.Fits e.2.1) : (assemble rest done).Proper := by
  induction done generalizing rest with
  | nil => exact hr
  | cons e es ih =>
    obtain ⟨h₀, h₁⟩ := h e List.mem_cons_self
    exact ih ⟨h₀, h₁, hr⟩ fun e he => h e (List.mem_cons_of_mem _ he)

theorem proper_content (d : Draft) : d.content.Proper := proper_assemble trivial d.fits

theorem outer_assemble {rest : Content} {done : List (String × Label × Content)}
    (hr : rest.outerText = "") (h : ∀ e ∈ done, e.1 = "") :
    (assemble rest done).outerText = "" ∧
      (assemble rest done).outerElements = elements done + rest.outerElements := by
  induction done generalizing rest with
  | nil => exact ⟨hr, by simp [assemble, elements]⟩
  | cons e es ih =>
    obtain ⟨before, l, inner⟩ := e
    have hb : before = "" := h _ List.mem_cons_self
    have hrest : (Content.node before 0 l inner rest).outerText = "" :=
      Content.outerText_node.mpr ⟨hb, hr⟩
    obtain ⟨h₁, h₂⟩ := ih hrest fun e he => h e (List.mem_cons_of_mem _ he)
    refine ⟨h₁, h₂.trans ?_⟩
    simp only [elements, Content.outerElements, List.countP_cons]
    omega

/-- The draft has no text outside of its nodes, and no more than one element. -/
structure Whole (d : Draft) : Prop where
  no_text : d.pending = "" ∧ ∀ e ∈ d.done, e.1 = ""
  one_element : elements d.done ≤ 1

theorem Whole.content {d : Draft} (h : d.Whole) : d.content.Whole := by
  have hp : (Content.text d.pending).outerText = "" := h.no_text.1
  obtain ⟨h₁, h₂⟩ := outer_assemble hp h.no_text.2
  exact ⟨h₁, h₂ ▸ h.one_element⟩

theorem elements_eq_zero {d : Draft} (h : d.hasElement = false) : elements d.done = 0 := by
  simpa [elements, hasElement, List.countP_eq_zero] using h

end Draft

/-- The content with a node at its end. -/
def Content.addLast (c : Content) (l : Label) (inner : Content) : Content :=
  match c with
  | .text s => .node s 0 l inner .empty
  | .node before id m within rest => .node before id m within (rest.addLast l inner)

theorem Content.Proper.addLast {c inner : Content} {l : Label} (hc : c.Proper)
    (h : inner.Fits l) : (c.addLast l inner).Proper := by
  induction c with
  | text s => exact ⟨h.1, h.2, trivial⟩
  | node before id m within rest _ ih => exact ⟨hc.1, hc.2.1, ih hc.2.2⟩

/-- A document under construction, with its open elements, innermost first. -/
structure Builder where
  top : Draft := {}
  frames : List (Label × Draft) := []
  whole : top.Whole := by exact ⟨⟨rfl, by simp⟩, by simp [Draft.elements]⟩
  elements : ∀ f ∈ frames, f.1.isElement := by simp

namespace Builder

/-- A document of which nothing was built yet. -/
def fresh : Builder := {}

/-- Puts a text behind what is there; outside of all elements there is no text. -/
def addText (b : Builder) (s : String) : Builder :=
  match h : b.frames with
  | [] => b
  | (l, d) :: fs =>
    { b with
      frames := (l, d.addText s) :: fs
      elements := by
        have hb := b.elements
        rw [h] at hb
        simpa using hb }

/-- Puts a node into the element that stands at the top of a document, given its nodes, last one
first. -/
def addToRoot (l : Label) (inner : Content) :
    List (String × Label × Content) → List (String × Label × Content)
  | [] => [("", l, inner)]
  | (before, m, within) :: rest =>
    if m.isElement then (before, m, within.addLast l inner) :: rest
    else (before, m, within) :: addToRoot l inner rest

theorem fits_addToRoot {l : Label} {inner : Content} (h : inner.Fits l)
    {done : List (String × Label × Content)} (hd : ∀ e ∈ done, e.2.2.Fits e.2.1) :
    ∀ e ∈ addToRoot l inner done, e.2.2.Fits e.2.1 := by
  induction done with
  | nil => simpa [addToRoot] using h
  | cons e es ih =>
    obtain ⟨before, m, within⟩ := e
    have he : within.Fits m := hd _ List.mem_cons_self
    have hes : ∀ e ∈ es, e.2.2.Fits e.2.1 := fun e he => hd e (List.mem_cons_of_mem _ he)
    simp only [addToRoot]
    split
    · rename_i hm
      have : (within.addLast l inner).Fits m := ⟨by simp [hm], he.2.addLast h⟩
      simpa using ⟨this, fun a b c => hes (a, b, c)⟩
    · simpa using ⟨he, fun a b c => ih hes (a, b, c)⟩

theorem no_text_addToRoot {l : Label} {inner : Content} {done : List (String × Label × Content)}
    (h : ∀ e ∈ done, e.1 = "") : ∀ e ∈ addToRoot l inner done, e.1 = "" := by
  induction done with
  | nil => simp [addToRoot]
  | cons e es ih =>
    obtain ⟨before, m, within⟩ := e
    have hb : before = "" := h _ List.mem_cons_self
    have hes : ∀ e ∈ es, e.1 = "" := fun e he => h e (List.mem_cons_of_mem _ he)
    simp only [addToRoot]
    split
    · simpa using ⟨hb, fun a b c => hes (a, b, c)⟩
    · simpa using ⟨hb, fun a b c => ih hes (a, b, c)⟩

theorem elements_addToRoot {l : Label} {inner : Content}
    {done : List (String × Label × Content)} (h : 0 < Draft.elements done) :
    Draft.elements (addToRoot l inner done) = Draft.elements done := by
  induction done with
  | nil => simp [Draft.elements] at h
  | cons e es ih =>
    obtain ⟨before, m, within⟩ := e
    simp only [addToRoot]
    split
    · rfl
    · rename_i hm
      have hes : 0 < Draft.elements es := by simpa [Draft.elements, hm] using h
      simpa [Draft.elements, hm] using ih hes

/-- Puts a node behind what is there.  Only one element stands at the top of a document; a further
one goes into it. -/
def addNode (b : Builder) (l : Label) (inner : Content) (h : inner.Fits l) : Builder :=
  match hf : b.frames with
  | [] =>
    if ht : (l.isElement && b.top.hasElement) = true then
      { b with
        top := { b.top with
          done := addToRoot l inner b.top.done
          fits := fits_addToRoot h b.top.fits }
        whole := ⟨⟨b.whole.no_text.1, no_text_addToRoot b.whole.no_text.2⟩, by
          have hroot : 0 < Draft.elements b.top.done := by
            have := (Bool.and_eq_true _ _ ▸ ht).2
            simpa [Draft.hasElement, Draft.elements, List.countP_pos_iff] using this
          rw [elements_addToRoot hroot]
          exact b.whole.one_element⟩ }
    else
      { b with
        top := b.top.addNode l inner h
        whole := ⟨⟨rfl, by
          intro e he
          rcases List.mem_cons.mp he with rfl | he
          · exact b.whole.no_text.1
          · exact b.whole.no_text.2 e he⟩, by
          have hone := b.whole.one_element
          simp only [Draft.elements, Draft.addNode, List.countP_cons]
          by_cases hl : l.isElement
          · have hnone : b.top.hasElement = false := by simpa [hl] using ht
            have := Draft.elements_eq_zero hnone
            simp only [Draft.elements] at this
            simp [this, hl]
          · simpa [hl, Draft.elements] using hone⟩ }
  | (m, d) :: fs =>
    { b with
      frames := (m, d.addNode l inner h) :: fs
      elements := by
        have hb := b.elements
        rw [hf] at hb
        simpa using hb }

/-- Puts a node without content behind what is there. -/
def addLeaf (b : Builder) (l : Label) : Builder := b.addNode l .empty (.empty l)

def push (b : Builder) (l : Label) (h : l.isElement = true := by rfl) : Builder :=
  { b with
    frames := (l, {}) :: b.frames
    elements := by
      intro f hf
      rcases List.mem_cons.mp hf with rfl | hf
      · exact h
      · exact b.elements f hf }

def pop (b : Builder) : Builder :=
  match h : b.frames with
  | [] => b
  | (l, d) :: fs =>
    let outer : Builder := { b with
      frames := fs
      elements := fun f hf => b.elements f (h ▸ List.mem_cons_of_mem _ hf) }
    have hl : l.isElement = true := b.elements (l, d) (h ▸ List.mem_cons_self)
    outer.addNode l d.content ⟨by simp [hl], d.proper_content⟩

/-- Closes the innermost open elements, at most a number of them. -/
def popTimes (b : Builder) : Nat → Builder
  | 0 => b
  | n + 1 => b.pop.popTimes n

def closeAll (b : Builder) : Builder := b.popTimes b.frames.length

def finish (b : Builder) : Document :=
  let top := b.closeAll.top
  .ofContent top.content top.proper_content b.closeAll.whole.content

end Builder

end Harvest.Markup
