import Harvest.Proofs.Markup.Cut
import Mathlib.Data.List.Basic

/-!
# What a content holds

A content holds nodes, attributes and characters of text, in document order, each of the nodes and
characters with the node that it stands in.  A cut keeps all of them that are neither chosen nor
inside a chosen node, and brings nothing new.
-/

namespace Harvest.Markup

/-- The label without attributes. -/
def Label.bare : Label → Label
  | .element n _ ds => .element n [] ds
  | l => l

/-- One thing that a content holds. -/
inductive Piece
  /-- A node, by what it is, with the node that it stands in. -/
  | node (parent : Option Nat) (id : Nat) (label : Label)
  | attr (owner : Nat) (a : Attribute)
  /-- A character of text with the node that it stands in. -/
  | char (parent : Option Nat) (c : Char)
deriving DecidableEq, Repr

/-- The characters of a text. -/
def charPieces (parent : Option Nat) (s : String) : List Piece := s.toList.map (.char parent)

/-- The characters of a text that is not chosen. -/
def keptChars (chosen : Target → Bool) (place : Option TextPlace) (parent : Option Nat)
    (s : String) : List Piece :=
  match place with
  | some place => if chosen (.text place) then [] else charPieces parent s
  | none => charPieces parent s

/-- The attributes of a label. -/
def attrPieces (id : Nat) (l : Label) : List Piece := l.attributes.map (.attr id)

/-- The attributes of a label that are not chosen. -/
def keptAttrs (chosen : Target → Bool) (id : Nat) (l : Label) : List Piece :=
  (l.attributes.filter fun a => !chosen (.attr id a.name.expanded)).map (.attr id)

namespace Content

/-- What a content holds that stands inside a node, if one is given. -/
def pieces (parent : Option Nat) : Content → List Piece
  | text s => charPieces parent s
  | node before id l inner rest =>
    charPieces parent before ++ ((.node parent id l.bare :: attrPieces id l ++
      inner.pieces (some id)) ++ rest.pieces parent)

/-- What a content holds that is neither chosen nor inside a chosen node.  Its leading text may have
a place. -/
def kept (chosen : Target → Bool) (place : Option TextPlace) (parent : Option Nat) :
    Content → List Piece
  | text s => keptChars chosen place parent s
  | node before id l inner rest =>
    keptChars chosen place parent before ++
      ((if chosen (.node id) then []
        else .node parent id l.bare :: keptAttrs chosen id l ++
          inner.kept chosen (some (.inside id)) (some id)) ++
        rest.kept chosen (some (.behind id)) parent)

/-! ## Leading texts -/

@[simp] theorem charPieces_empty (parent : Option Nat) : charPieces parent "" = [] := rfl

@[simp] theorem charPieces_append (parent : Option Nat) (s t : String) :
    charPieces parent (s ++ t) = charPieces parent s ++ charPieces parent t := by
  simp [charPieces]

@[simp] theorem charPieces_keptText (chosen : Target → Bool) (place : TextPlace)
    (parent : Option Nat) (s : String) :
    charPieces parent (keptText chosen place s) = keptChars chosen (some place) parent s := by
  unfold keptText keptChars
  split <;> simp_all

theorem keptChars_sublist (chosen : Target → Bool) (place : Option TextPlace) (parent : Option Nat)
    (s : String) : (keptChars chosen place parent s).Sublist (charPieces parent s) := by
  unfold keptChars
  cases place with
  | none => exact List.Sublist.refl _
  | some place =>
      dsimp only
      split
      · exact List.nil_sublist _
      · exact List.Sublist.refl _

theorem pieces_setLeading (parent : Option Nat) (s : String) (c : Content) :
    (c.setLeading s).pieces parent = charPieces parent s ++ (c.setLeading "").pieces parent := by
  cases c <;> simp [setLeading, pieces]

theorem pieces_leading (parent : Option Nat) (c : Content) :
    c.pieces parent = charPieces parent c.leading ++ (c.setLeading "").pieces parent := by
  rw [← pieces_setLeading, setLeading_leading]

theorem kept_setLeading (chosen : Target → Bool) (parent : Option Nat) (s : String) (c : Content) :
    (c.setLeading s).kept chosen none parent =
      charPieces parent s ++ (c.setLeading "").kept chosen none parent := by
  cases c <;> simp [setLeading, kept, keptChars]

theorem kept_leading (chosen : Target → Bool) (place : Option TextPlace) (parent : Option Nat)
    (c : Content) : c.kept chosen place parent =
      keptChars chosen place parent c.leading ++ (c.setLeading "").kept chosen none parent := by
  cases c <;> simp [setLeading, kept, keptChars]

/-- What is kept of a content whose leading text was dealt with. -/
theorem kept_keptText (chosen : Target → Bool) (place : TextPlace) (parent : Option Nat)
    (c : Content) : c.kept chosen (some place) parent =
      (c.setLeading (keptText chosen place c.leading)).kept chosen none parent := by
  rw [kept_leading, kept_setLeading _ _ (keptText chosen place c.leading), charPieces_keptText]

theorem pieces_keptText_sublist (chosen : Target → Bool) (place : TextPlace) (parent : Option Nat)
    (c : Content) : ((c.setLeading (keptText chosen place c.leading)).pieces parent).Sublist
      (c.pieces parent) := by
  rw [pieces_setLeading, charPieces_keptText, pieces_leading parent c]
  exact (keptChars_sublist ..).append (List.Sublist.refl _)

/-! ## Labels -/

theorem bare_without (chosen : Target → Bool) (id : Nat) (l : Label) :
    (l.without chosen id).bare = l.bare := by
  cases l <;> rfl

theorem attrPieces_without (chosen : Target → Bool) (id : Nat) (l : Label) :
    attrPieces id (l.without chosen id) = keptAttrs chosen id l := by
  cases l <;> rfl

theorem keptAttrs_sublist (chosen : Target → Bool) (id : Nat) (l : Label) :
    (keptAttrs chosen id l).Sublist (attrPieces id l) :=
  List.filter_sublist.map _

/-! ## Cuts -/

/-- A cut keeps what is neither chosen nor inside a chosen node. -/
theorem kept_sublist_cut (chosen : Target → Bool) (parent : Option Nat) (front : String)
    (c : Content) :
    ((c.setLeading front).kept chosen none parent).Sublist
      ((c.cut chosen front).pieces parent) := by
  induction c generalizing parent front with
  | text s => exact List.Sublist.refl _
  | node before id l inner rest ih₁ ih₂ =>
      simp only [setLeading, kept, keptChars, cut]
      cases hid : chosen (.node id) with
      | true =>
          -- the text behind the node joins the text in front of it
          simp only [if_true, List.nil_append]
          refine List.Sublist.trans ?_ (ih₂ parent (front ++ rest.leading))
          rw [kept_leading, kept_setLeading _ _ (front ++ rest.leading), charPieces_append,
            List.append_assoc]
          exact (List.Sublist.refl _).append ((keptChars_sublist ..).append (List.Sublist.refl _))
      | false =>
          simp only [Bool.false_eq_true, if_false, pieces, bare_without, attrPieces_without]
          rw [kept_keptText, kept_keptText]
          have hinner := ih₁ (some id) (keptText chosen (.inside id) inner.leading)
          have hrest := ih₂ parent (keptText chosen (.behind id) rest.leading)
          exact (List.Sublist.refl _).append (((List.Sublist.refl _).append hinner).append hrest)

/-- A cut brings nothing new. -/
theorem pieces_cut_sublist (chosen : Target → Bool) (parent : Option Nat) (front : String)
    (c : Content) :
    ((c.cut chosen front).pieces parent).Sublist ((c.setLeading front).pieces parent) := by
  induction c generalizing parent front with
  | text s => exact List.Sublist.refl _
  | node before id l inner rest ih₁ ih₂ =>
      simp only [setLeading, pieces, cut]
      cases hid : chosen (.node id) with
      | true =>
          simp only [if_true]
          refine (ih₂ parent (front ++ rest.leading)).trans ?_
          rw [pieces_setLeading, charPieces_append, List.append_assoc, ← pieces_leading]
          exact (List.Sublist.refl _).append (List.sublist_append_right _ _)
      | false =>
          simp only [Bool.false_eq_true, if_false, pieces, bare_without, attrPieces_without]
          have hinner := (ih₁ (some id) (keptText chosen (.inside id) inner.leading)).trans
            (pieces_keptText_sublist ..)
          have hrest := (ih₂ parent (keptText chosen (.behind id) rest.leading)).trans
            (pieces_keptText_sublist ..)
          have hattrs := (keptAttrs_sublist chosen id l).cons_cons (.node parent id l.bare)
          exact (List.Sublist.refl _).append ((hattrs.append hinner).append hrest)

/-! ## Cuts inside the outermost nodes -/

theorem kept_sublist_cutInside (chosen : Target → Bool) (parent : Option Nat) (front : String)
    (c : Content) : ((c.setLeading front).kept chosen none parent).Sublist
      ((c.cutInside chosen front).pieces parent) := by
  induction c generalizing front with
  | text s => exact List.Sublist.refl _
  | node before id l inner rest _ ih =>
      simp only [setLeading, kept, keptChars, cutInside, pieces, bare_without, attrPieces_without]
      rw [kept_keptText, kept_keptText]
      have hinner := kept_sublist_cut chosen (some id) (keptText chosen (.inside id) inner.leading)
        inner
      have hrest := ih (keptText chosen (.behind id) rest.leading)
      refine (List.Sublist.refl _).append (List.Sublist.append ?_ hrest)
      split
      · exact List.nil_sublist _
      · exact (List.Sublist.refl _).append hinner

theorem pieces_cutInside_sublist (chosen : Target → Bool) (parent : Option Nat) (front : String)
    (c : Content) : ((c.cutInside chosen front).pieces parent).Sublist
      ((c.setLeading front).pieces parent) := by
  induction c generalizing front with
  | text s => exact List.Sublist.refl _
  | node before id l inner rest _ ih =>
      simp only [setLeading, pieces, cutInside, bare_without, attrPieces_without]
      have hinner := (pieces_cut_sublist chosen (some id)
        (keptText chosen (.inside id) inner.leading) inner).trans (pieces_keptText_sublist ..)
      have hrest := (ih (keptText chosen (.behind id) rest.leading)).trans
        (pieces_keptText_sublist ..)
      have hattrs := (keptAttrs_sublist chosen id l).cons_cons (.node parent id l.bare)
      exact (List.Sublist.refl _).append ((hattrs.append hinner).append hrest)

end Content

end Harvest.Markup
