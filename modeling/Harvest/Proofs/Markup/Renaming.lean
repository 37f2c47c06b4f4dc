import Harvest.Proofs.Detach
import Harvest.Proofs.Markup.Nesting

/-!
# Renaming nodes

The identities of nodes stand for nothing but the nodes themselves: where all of them are changed in
a way that keeps them apart, the same texts, labels and places are found.
-/

namespace Harvest.Markup

/-- A number moved up where it is not below a start. -/
def shift (start by_ i : Nat) : Nat := if i < start then i else i + by_

section
variable {start k i j : Nat}

theorem shift_of_lt (h : i < start) : shift start k i = i := if_pos h

theorem shift_of_le (h : start ≤ i) : shift start k i = i + k := if_neg (Nat.not_lt.mpr h)

@[simp] theorem shift_lt_iff : shift start k i < shift start k j ↔ i < j := by
  unfold shift
  split <;> split <;> omega

@[simp] theorem shift_inj : shift start k i = shift start k j ↔ i = j := by
  unfold shift
  split <;> split <;> omega

theorem shift_injective (start k : Nat) : Function.Injective (shift start k) :=
  fun _ _ h => shift_inj.mp h

end

/-! ## Contents -/

def TextPlace.rename (f : Nat → Nat) : TextPlace → TextPlace
  | inside id => inside (f id)
  | behind id => behind (f id)

/-- The item with the identities in it changed. -/
def Item.rename (f : Nat → Nat) : Item → Item
  | node id l => node (f id) l
  | text s place => text s (place.map (·.rename f))

namespace Content

/-- The content with every identity changed. -/
def rename (f : Nat → Nat) : Content → Content
  | text s => text s
  | node before id l inner rest => node before (f id) l (inner.rename f) (rest.rename f)

variable {f : Nat → Nat}

@[simp] theorem string_rename (c : Content) : (c.rename f).string = c.string := by
  induction c with
  | text s => rfl
  | node before id l inner rest ih₁ ih₂ => simp [rename, string, ih₁, ih₂]

theorem rename_eq_self {c : Content} (h : ∀ i ∈ c.ids, f i = i) : c.rename f = c := by
  induction c with
  | text s => rfl
  | node before id l inner rest ih₁ ih₂ =>
      simp only [ids_node, List.mem_cons, List.mem_append] at h
      rw [rename, h id (Or.inl rfl), ih₁ fun i hi => h i (Or.inr (Or.inl hi)),
        ih₂ fun i hi => h i (Or.inr (Or.inr hi))]

theorem find?_rename (hf : Function.Injective f) (i : Nat) (c : Content) :
    (c.rename f).find? (f i) = (c.find? i).map fun p => (p.1, p.2.rename f) := by
  induction c with
  | text s => rfl
  | node before id l inner rest ih₁ ih₂ =>
      by_cases h : id = i
      · simp [rename, find?, h]
      · simp [rename, find?, h, hf.eq_iff, ih₁, ih₂, Option.map_or]

theorem findSome?_rename (hf : Function.Injective f) (i : Nat) (cs : List Content) :
    (cs.map (·.rename f)).findSome? (·.find? (f i)) =
      (cs.findSome? (·.find? i)).map fun p => (p.1, p.2.rename f) := by
  induction cs with
  | nil => rfl
  | cons c cs ih =>
      rw [List.map_cons, List.findSome?_cons, List.findSome?_cons, find?_rename hf, ih]
      cases c.find? i <;> rfl

/-- Numbering from a later number on gives the same content with later numbers. -/
theorem number_add {start n k : Nat} (h : start ≤ n) (c : Content) :
    c.number (n + k) = ((c.number n).1.rename (shift start k), (c.number n).2 + k) := by
  induction c generalizing n with
  | text s => rfl
  | node before id l inner rest ih₁ ih₂ =>
      have hle : start ≤ (inner.number (n + 1)).2 := by
        have := (ids_number (n + 1) inner).1
        omega
      have hn : n + k + 1 = n + 1 + k := by omega
      simp [number, rename, hn, ih₁ (show start ≤ n + 1 by omega), ih₂ hle, shift_of_le h]

theorem items_rename (c : Content) (place : Option TextPlace) :
    (c.rename f).items (place.map (·.rename f)) = (c.items place).map (Item.rename f) := by
  have htext : ∀ (s : String) (place : Option TextPlace),
      textItems s (place.map (·.rename f)) = (textItems s place).map (Item.rename f) := by
    intro s place
    unfold textItems
    split <;> rfl
  induction c generalizing place with
  | text s => exact htext s place
  | node before id l inner rest ih₁ ih₂ =>
      have h₁ := ih₁ (some (.inside id))
      have h₂ := ih₂ (some (.behind id))
      simp only [Option.map_some, TextPlace.rename] at h₁ h₂
      simp [rename, items, htext, h₁, h₂, Item.rename]

theorem length_items_rename (c : Content) :
    ((c.rename f).items none).length = (c.items none).length := by
  have h := congrArg List.length (c.items_rename (f := f) none)
  simpa using h

end Content

/-! ## Entries -/

/-- The entry with its identities changed, where all places are later ones. -/
def Entry.later (f : Nat → Nat) (k : Nat) (e : Entry) : Entry :=
  ⟨e.item.rename f, e.parent.map (· + k), e.stop + k⟩

theorem Content.length_entries (c : Content) (parent : Option Nat) (place : Option TextPlace)
    (start : Nat) : (c.entries parent place start).length = (c.items place).length := by
  rw [← c.map_item_entries parent place start, List.length_map]

theorem textEntry_later (f : Nat → Nat) (k : Nat) (s : String) (place : Option TextPlace)
    (parent : Option Nat) (start : Nat) :
    textEntry s (place.map (·.rename f)) (parent.map (· + k)) (start + k) =
      (textEntry s place parent start).map (Entry.later f k) := by
  unfold textEntry
  split
  · rfl
  · simp only [Entry.later, Item.rename, List.map_cons, List.map_nil]
    congr 2
    omega

/-- The entries of a renamed content at a later place. -/
theorem Content.entries_later (f : Nat → Nat) (k : Nat) (c : Content) (parent : Option Nat)
    (place : Option TextPlace) (start : Nat) :
    (c.rename f).entries (parent.map (· + k)) (place.map (·.rename f)) (start + k) =
      (c.entries parent place start).map (Entry.later f k) := by
  induction c generalizing parent place start with
  | text s => exact textEntry_later f k s place parent start
  | node before id l inner rest ih₁ ih₂ =>
      have hfront := textEntry_later f k before place parent start
      have hhere :
          start + k + ((textEntry before place parent start).map (Entry.later f k)).length =
            start + (textEntry before place parent start).length + k := by
        rw [List.length_map]
        omega
      simp only [rename, entries, hfront, hhere]
      generalize start + (textEntry before place parent start).length = here
      have h₁ := ih₁ (some here) (some (.inside id)) (here + 1)
      simp only [Option.map_some, TextPlace.rename] at h₁
      rw [show here + k + 1 = here + 1 + k by omega, h₁, List.length_map]
      generalize inner.entries (some here) (some (.inside id)) (here + 1) = within
      have h₂ := ih₂ parent (some (.behind id)) (here + 1 + within.length)
      simp only [Option.map_some, TextPlace.rename] at h₂
      rw [show here + 1 + k + within.length = here + 1 + within.length + k by omega, h₂]
      simp [Entry.later, Item.rename]

/-! ## Rows of trees -/

/-- The number of entries of trees. -/
def extent (trees : List Content) : Nat := (trees.flatMap (Content.items none)).length

/-- The entries of trees, the first of which starts at a place. -/
def rowOf (start : Nat) : List Content → List Entry
  | [] => []
  | c :: cs => c.entries none none start ++ rowOf (start + (c.items none).length) cs

/-- Where trees start and end. -/
def spansOf (start : Nat) : List Content → List (Nat × Nat)
  | [] => []
  | c :: cs => (start, start + (c.items none).length) :: spansOf (start + (c.items none).length) cs

section
variable {start k : Nat} {f : Nat → Nat} {cs ds : List Content}

theorem extent_cons (c : Content) (cs : List Content) :
    extent (c :: cs) = (c.items none).length + extent cs := by
  simp [extent]

theorem extent_append : extent (cs ++ ds) = extent cs + extent ds := by
  simp [extent]

theorem extent_rename : extent (cs.map (·.rename f)) = extent cs := by
  induction cs with
  | nil => rfl
  | cons c cs ih => rw [List.map_cons, extent_cons, extent_cons, ih, Content.length_items_rename]

theorem length_rowOf : (rowOf start cs).length = extent cs := by
  induction cs generalizing start with
  | nil => rfl
  | cons c cs ih => simp [rowOf, extent_cons, ih, Content.length_entries]

theorem rowOf_append : rowOf start (cs ++ ds) = rowOf start cs ++ rowOf (start + extent cs) ds := by
  induction cs generalizing start with
  | nil => rfl
  | cons c cs ih =>
      rw [List.cons_append, rowOf, rowOf, ih, extent_cons, List.append_assoc, Nat.add_assoc]

theorem spansOf_append :
    spansOf start (cs ++ ds) = spansOf start cs ++ spansOf (start + extent cs) ds := by
  induction cs generalizing start with
  | nil => rfl
  | cons c cs ih =>
      rw [List.cons_append, spansOf, spansOf, ih, extent_cons, List.cons_append, Nat.add_assoc]

theorem rowOf_later : rowOf (start + k) (cs.map (·.rename f)) =
    (rowOf start cs).map (Entry.later f k) := by
  induction cs generalizing start with
  | nil => rfl
  | cons c cs ih =>
      have hc := c.entries_later f k none none start
      simp only [Option.map_none] at hc
      rw [List.map_cons, rowOf, rowOf, Content.length_items_rename, hc,
        show start + k + (c.items none).length = start + (c.items none).length + k by omega, ih,
        List.map_append]

theorem spansOf_later : spansOf (start + k) (cs.map (·.rename f)) =
    (spansOf start cs).map fun p => (p.1 + k, p.2 + k) := by
  induction cs generalizing start with
  | nil => rfl
  | cons c cs ih =>
      rw [List.map_cons, spansOf, spansOf, Content.length_items_rename,
        show start + k + (c.items none).length = start + (c.items none).length + k by omega, ih,
        List.map_cons]

end

end Harvest.Markup
