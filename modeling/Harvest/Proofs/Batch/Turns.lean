import Harvest.Proofs.Batch.Items
import Harvest.Proofs.Store.Records
import Mathlib

/-!
# Turns

A run takes its items one after the other, in whichever order.  What an item gives is settled when
its turn comes: by the files as the earlier ones have left them.
-/

namespace Harvest.Batch

/-! ## One turn -/

/-- What the item at a position gives: nothing at all, if it has no schema or its document cannot be
read by it. -/
def given? (b : Batch) (items : List Item) (fs : FileSystem) (n : Nat) : Option Members :=
  items[n]?.bind fun i => match b.schemaOf? i with
    | some (.ok schema) => (b.extractDocument fs i schema).toOption
    | _ => none

/-- What reading the item at a position comes to; nothing, if it has no schema. -/
def reading? (b : Batch) (items : List Item) (fs : FileSystem) (n : Nat) :
    Option (Except DocumentError Members) :=
  items[n]?.bind fun i => match b.schemaOf? i with
    | some (.ok schema) => some (b.extractDocument fs i schema)
    | _ => none

/-- Whether an item has a schema. -/
def isReadable (b : Batch) (i : Item) : Bool :=
  match b.schemaOf? i with
  | some (.ok _) => true
  | _ => false

/-- Whether the item at a position has a schema. -/
def hasTurn (b : Batch) (items : List Item) (n : Nat) : Bool := items[n]?.any b.isReadable

/-- What the turn of a position comes to: what is found, and the batch and the workplace then. -/
inductive Turn (b : Batch) (items : List Item) (n : Nat) (w : Workplace) :
    Option Finding → Batch → Workplace → Prop
  | passed (hnone : b.hasTurn items n = false) : Turn b items n w none b w
  | failed (hturn : b.hasTurn items n = true) (hgiven : b.given? items w.files n = none)
      (events : List Event) : Turn b items n w none b.countFailed { w with journal := events }
  | empty (hgiven : b.given? items w.files n = some []) (events : List Event) :
      Turn b items n w none b.countSkipped { w with journal := events }
  | saved {i : Item} {m : String × Json} {ms : Members} {found : Option Finding} {b₁ : Batch}
      {w₁ : Workplace} (hi : items[n]? = some i)
      (hgiven : b.given? items w.files n = some (m :: ms))
      (hsave : (b.saveResult i (m :: ms)).run w = ((found, b₁), w₁)) : Turn b items n w found b₁ w₁

/-- Whether running items, the one at a position first, finds something or nothing there and then
runs the rest from a later state. -/
def GoesOn (b : Batch) (items : List Item) (n : Nat) (w : Workplace) (found : Option Finding)
    (b₁ : Batch) (w₁ : Workplace) : Prop :=
  ∀ order, (b.runItems items (n :: order)).run w =
    ((((b₁.runItems items order).run w₁).1.1.map fun rest => (found.map (n, ·)).toList ++ rest,
      ((b₁.runItems items order).run w₁).1.2), ((b₁.runItems items order).run w₁).2)

section
variable {b : Batch} {items : List Item} {n : Nat} {w : Workplace}

theorem given?_eq {i : Item} {schema : Schema} (hi : items[n]? = some i)
    (hschema : b.schemaOf? i = some (.ok schema)) (fs : FileSystem) :
    b.given? items fs n = (b.extractDocument fs i schema).toOption := by
  simp [given?, hi, hschema]

theorem reading?_eq {i : Item} {schema : Schema} (hi : items[n]? = some i)
    (hschema : b.schemaOf? i = some (.ok schema)) (fs : FileSystem) :
    b.reading? items fs n = some (b.extractDocument fs i schema) := by
  simp [reading?, hi, hschema]

/-- An item gives what reading it comes to, if this is no error. -/
theorem given?_eq_bind (b : Batch) (items : List Item) (fs : FileSystem) (n : Nat) :
    b.given? items fs n = (b.reading? items fs n).bind Except.toOption := by
  unfold given? reading?
  cases items[n]? with
  | none => rfl
  | some i =>
      rw [Option.bind_some, Option.bind_some]
      split <;> rfl

theorem hasTurn_eq_true_iff : b.hasTurn items n = true ↔
    ∃ i schema, items[n]? = some i ∧ b.schemaOf? i = some (.ok schema) := by
  unfold hasTurn isReadable
  cases hi : items[n]? with
  | none => simp
  | some i =>
      cases hschema : b.schemaOf? i with
      | none => simp [hschema]
      | some schema => cases schema <;> simp [hschema]

theorem runItems_passed (h : b.hasTurn items n = false) (order : List Nat) :
    b.runItems items (n :: order) = b.runItems items order := by
  apply runItems_skip
  intro i schema hi hschema
  rw [hasTurn_eq_true_iff.mpr ⟨i, schema, hi, hschema⟩] at h
  cases h

theorem reading?_eq_none (h : b.hasTurn items n = false) (fs : FileSystem) :
    b.reading? items fs n = none := by
  unfold reading?
  cases hi : items[n]? with
  | none => rfl
  | some i =>
      rw [Option.bind_some]
      split
      · rename_i schema hschema
        rw [hasTurn_eq_true_iff.mpr ⟨i, schema, hi, hschema⟩] at h
        cases h
      · rfl

theorem given?_eq_none (h : b.hasTurn items n = false) (fs : FileSystem) :
    b.given? items fs n = none := by
  rw [given?_eq_bind, reading?_eq_none h, Option.bind_none]

theorem Turn.setup {b₁ : Batch} {w₁ : Workplace} {found : Option Finding}
    (h : b.Turn items n w found b₁ w₁) :
    b₁.setup = b.setup := by
  cases h with
  | passed => rfl
  | failed => rfl
  | empty => rfl
  | @saved i m ms _ _ _ hi hgiven hsave =>
      have hsetup := (b.run_saveResult i (m :: ms) w).1
      rw [hsave] at hsetup
      exact hsetup

theorem hasTurn_congr {b' : Batch} (h : b'.schemas = b.schemas) : b'.hasTurn = b.hasTurn := by
  funext items n
  unfold hasTurn isReadable
  rw [schemaOf?_congr h]

theorem runItem_turn {i : Item} {schema : Schema} (hi : items[n]? = some i)
    (hschema : b.schemaOf? i = some (.ok schema)) :
    (∃ e, ((b.runItem i schema).run w).1.1 = .error e) ∨
    ∃ found b₁ w₁, b.Turn items n w found b₁ w₁ ∧
      (b.runItem i schema).run w = ((.ok found, b₁), w₁) := by
  have hturn : b.hasTurn items n = true := hasTurn_eq_true_iff.mpr ⟨i, schema, hi, hschema⟩
  have hgiven := given?_eq hi hschema w.files
  rw [runItem, Work.run_bind, Work.run_files]
  dsimp only
  cases hread : b.extractDocument w.files i schema with
  | error e =>
      rw [hread] at hgiven
      dsimp only
      split
      · exact Or.inr ⟨_, _, _, .failed hturn hgiven _, rfl⟩
      · exact Or.inl ⟨_, rfl⟩
  | ok result =>
      rw [hread] at hgiven
      cases result with
      | nil => exact Or.inr ⟨_, _, _, .empty hgiven _, rfl⟩
      | cons m ms => exact Or.inr ⟨_, _, _, .saved hi hgiven rfl, rfl⟩

/-- A run either breaks off at the first position, or takes its turn and goes on with the rest. -/
theorem runItems_turn (b : Batch) (items : List Item) (n : Nat) (w : Workplace) :
    (∃ e, ∀ order, ((b.runItems items (n :: order)).run w).1.1 = .error e) ∨
    ∃ found b₁ w₁, b.Turn items n w found b₁ w₁ ∧ b.GoesOn items n w found b₁ w₁ := by
  cases hturn : b.hasTurn items n with
  | true =>
      obtain ⟨i, schema, hi, hschema⟩ := hasTurn_eq_true_iff.mp hturn
      obtain ⟨e, herror⟩ | ⟨found, b₁, w₁, hturn, hrun⟩ := runItem_turn (w := w) hi hschema
      · refine Or.inl ⟨e, fun order => ?_⟩
        rcases hrun : (b.runItem i schema).run w with ⟨⟨r, b₁⟩, w₁⟩
        rw [hrun] at herror
        obtain rfl : r = .error e := herror
        rw [run_runItems_error hi hschema hrun]
      · exact Or.inr ⟨found, b₁, w₁, hturn, fun order => run_runItems_ok hi hschema hrun order⟩
  | false =>
      refine Or.inr ⟨none, b, w, .passed hturn, fun order => ?_⟩
      rw [runItems_passed hturn]
      rcases (b.runItems items order).run w with ⟨⟨r, b₁⟩, w₁⟩
      cases r <;> rfl

/-- A run that comes to its end takes the turn of its first position, and the rest comes to its end
from there. -/
theorem runItems_cons_ok {b' : Batch} {w' : Workplace} {order : List Nat}
    {made : List (Nat × Finding)}
    (hrun : (b.runItems items (n :: order)).run w = ((.ok made, b'), w')) :
    ∃ found b₁ w₁ rest, b.Turn items n w found b₁ w₁ ∧ b.GoesOn items n w found b₁ w₁ ∧
      (b₁.runItems items order).run w₁ = ((.ok rest, b'), w') ∧
      made = (found.map (n, ·)).toList ++ rest := by
  obtain ⟨e, herror⟩ | ⟨found, b₁, w₁, hturn, hgoes⟩ := b.runItems_turn items n w
  · have he := herror order
    rw [hrun] at he
    cases he
  rcases hitems : (b₁.runItems items order).run w₁ with ⟨⟨r, b₂⟩, w₂⟩
  have hall := hgoes order
  rw [hitems, hrun] at hall
  cases r with
  | error e => cases hall
  | ok rest =>
      obtain ⟨hmade, rfl, rfl⟩ := Work.outcome_inj hall
      exact ⟨found, b₁, w₁, rest, hturn, hgoes, hitems, Except.ok.inj hmade⟩

/-! ## All turns -/

/-- What the item at a position gives when its turn comes in a run of items. -/
def turnGiven? (b : Batch) (items : List Item) (order : List Nat) (w : Workplace) (n : Nat) :
    Option Members :=
  let out := (b.runItems items (order.takeWhile (· != n))).run w
  out.1.2.given? items out.2.files n

/-- What reading the item at a position comes to when its turn comes in a run of items. -/
def turnReading? (b : Batch) (items : List Item) (order : List Nat) (w : Workplace) (n : Nat) :
    Option (Except DocumentError Members) :=
  let out := (b.runItems items (order.takeWhile (· != n))).run w
  out.1.2.reading? items out.2.files n

theorem turnGiven?_eq_bind (b : Batch) (items : List Item) (order : List Nat) (w : Workplace)
    (n : Nat) :
    b.turnGiven? items order w n = (b.turnReading? items order w n).bind Except.toOption :=
  given?_eq_bind ..

theorem turnReading?_head (order : List Nat) :
    b.turnReading? items (n :: order) w n = b.reading? items w.files n := by
  have hnone : (n :: order).takeWhile (· != n) = [] := by simp
  rw [turnReading?, hnone]
  rfl

theorem turnGiven?_head (order : List Nat) :
    b.turnGiven? items (n :: order) w n = b.given? items w.files n := by
  rw [turnGiven?_eq_bind, turnReading?_head, given?_eq_bind]

namespace GoesOn

variable {found : Option Finding} {b₁ : Batch} {w₁ : Workplace} {order : List Nat}

theorem turnReading?_of_mem (h : b.GoesOn items n w found b₁ w₁) (hn : n ∉ order) {k : Nat}
    (hk : k ∈ order) :
    b.turnReading? items (n :: order) w k = b₁.turnReading? items order w₁ k := by
  have hne : n ≠ k := by
    rintro rfl
    exact hn hk
  have hcons : (n :: order).takeWhile (· != k) = n :: order.takeWhile (· != k) := by
    simp [hne]
  rw [turnReading?, hcons, h]
  rfl

theorem turnGiven?_of_mem (h : b.GoesOn items n w found b₁ w₁) (hn : n ∉ order) {k : Nat}
    (hk : k ∈ order) : b.turnGiven? items (n :: order) w k = b₁.turnGiven? items order w₁ k := by
  rw [turnGiven?_eq_bind, h.turnReading?_of_mem hn hk, ← turnGiven?_eq_bind]

/-- What the items give in a run, for anything that is made of it: the first one gives it at once,
and the others in the run of the rest. -/
theorem filterMap_turnGiven? (h : b.GoesOn items n w found b₁ w₁) (hn : n ∉ order) {α : Type}
    (f : Nat → Option Members → Option α) :
    (n :: order).filterMap (fun k => f k (b.turnGiven? items (n :: order) w k)) =
      (f n (b.given? items w.files n)).toList ++
        order.filterMap fun k => f k (b₁.turnGiven? items order w₁ k) := by
  rw [filterMap_cons_eq, turnGiven?_head]
  refine congrArg _ (List.filterMap_congr fun k hk => ?_)
  rw [h.turnGiven?_of_mem hn hk]

theorem countP_turnGiven? (h : b.GoesOn items n w found b₁ w₁) (hn : n ∉ order)
    (p : Nat → Option Members → Bool) :
    (n :: order).countP (fun k => p k (b.turnGiven? items (n :: order) w k)) =
      (if p n (b.given? items w.files n) then 1 else 0) +
        order.countP fun k => p k (b₁.turnGiven? items order w₁ k) := by
  rw [List.countP_cons, turnGiven?_head, Nat.add_comm]
  refine congrArg _ (List.countP_congr fun k hk => ?_)
  rw [h.turnGiven?_of_mem hn hk]

theorem isOk (h : b.GoesOn items n w found b₁ w₁) (order : List Nat) :
    ((b.runItems items (n :: order)).run w).1.1.isOk =
      ((b₁.runItems items order).run w₁).1.1.isOk := by
  rw [h]
  cases ((b₁.runItems items order).run w₁).1.1 <;> rfl

end GoesOn

end

end Harvest.Batch
