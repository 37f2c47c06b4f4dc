import Harvest.Proofs.Text.Fields
import Harvest.Text.Digit
import Mathlib

/-!
# Runs of digits

How many numbers a text writes, and that neither its parts nor its words write more of them.
-/

namespace Harvest.Text

variable {c : Char} {cs ds rest : List Char} {inside : Bool}

/-- The runs of digits that start in a text; the flag tells whether one goes on from in front. -/
def runsFrom : Bool → List Char → Nat
  | _, [] => 0
  | inside, c :: r =>
    if isDecimal c then (if inside then 0 else 1) + runsFrom true r else runsFrom false r

/-- The runs of digits of a text. -/
def runs (cs : List Char) : Nat := runsFrom false cs

theorem runsFrom_cons_of_digit (hc : isDecimal c = true) (inside : Bool) (cs : List Char) :
    runsFrom inside (c :: cs) = (if inside then 0 else 1) + runsFrom true cs := if_pos hc

theorem runsFrom_cons_of_other (hc : isDecimal c = false) (inside : Bool) (cs : List Char) :
    runsFrom inside (c :: cs) = runs cs := if_neg (Bool.eq_false_iff.mp hc)

theorem runsFrom_true_le (cs : List Char) : runsFrom true cs ≤ runs cs := by
  cases cs with
  | nil => exact le_rfl
  | cons c cs =>
      cases hc : isDecimal c with
      | false =>
          rw [runs, runsFrom_cons_of_other hc, runsFrom_cons_of_other hc]
      | true =>
          rw [runs, runsFrom_cons_of_digit hc, runsFrom_cons_of_digit hc]
          exact Nat.add_le_add_right (by decide) _

theorem runs_le_succ (cs : List Char) : runs cs ≤ runsFrom true cs + 1 := by
  cases cs with
  | nil => exact Nat.zero_le _
  | cons c cs =>
      cases hc : isDecimal c with
      | false =>
          rw [runs, runsFrom_cons_of_other hc, runsFrom_cons_of_other hc]
          exact Nat.le_succ _
      | true =>
          rw [runs, runsFrom_cons_of_digit hc, runsFrom_cons_of_digit hc]
          exact le_of_eq (by simp [Nat.add_comm])

/-- A run ends at a character that is no digit. -/
theorem runsFrom_append_cons (hc : isDecimal c = false) (inside : Bool) (front back : List Char) :
    runsFrom inside (front ++ c :: back) = runsFrom inside front + runs back := by
  induction front generalizing inside with
  | nil => rw [List.nil_append, runsFrom_cons_of_other hc, runsFrom, Nat.zero_add]
  | cons x front ih =>
      cases hx : isDecimal x with
      | false =>
          rw [List.cons_append, runsFrom_cons_of_other hx, runsFrom_cons_of_other hx]
          exact ih false
      | true =>
          rw [List.cons_append, runsFrom_cons_of_digit hx, runsFrom_cons_of_digit hx, ih,
            Nat.add_assoc]

theorem runs_append_cons (hc : isDecimal c = false) (front back : List Char) :
    runs (front ++ c :: back) = runs front + runs back := runsFrom_append_cons hc false front back

theorem runsFrom_eq_zero (hcs : ∀ c ∈ cs, isDecimal c = false) (inside : Bool) :
    runsFrom inside cs = 0 := by
  induction cs generalizing inside with
  | nil => rfl
  | cons c cs ih =>
      rw [runsFrom_cons_of_other (hcs c List.mem_cons_self)]
      exact ih (fun x hx => hcs x (List.mem_cons_of_mem c hx)) false

/-- A text without digits in front ends the run there, and adds none. -/
theorem runsFrom_append_left (hne : cs ≠ []) (hcs : ∀ c ∈ cs, isDecimal c = false) (inside : Bool)
    (rest : List Char) : runsFrom inside (cs ++ rest) = runs rest := by
  induction cs generalizing inside with
  | nil => exact absurd rfl hne
  | cons c cs ih =>
      rw [List.cons_append, runsFrom_cons_of_other (hcs c List.mem_cons_self)]
      cases cs with
      | nil => rfl
      | cons d cs =>
          exact ih (List.cons_ne_nil d cs) (fun x hx => hcs x (List.mem_cons_of_mem c hx)) false

theorem runs_append_of_other (hcs : ∀ c ∈ cs, isDecimal c = false) (rest : List Char) :
    runs (cs ++ rest) = runs rest := by
  cases cs with
  | nil => rfl
  | cons c cs => exact runsFrom_append_left (List.cons_ne_nil c cs) hcs false rest

/-- A text without digits behind adds no runs. -/
theorem runsFrom_append_of_other (hrest : ∀ c ∈ rest, isDecimal c = false) (inside : Bool)
    (cs : List Char) : runsFrom inside (cs ++ rest) = runsFrom inside cs := by
  cases rest with
  | nil => rw [List.append_nil]
  | cons c rest =>
      have hzero : runs rest = 0 :=
        runsFrom_eq_zero (fun x hx => hrest x (List.mem_cons_of_mem c hx)) false
      rw [runsFrom_append_cons (hrest c List.mem_cons_self), hzero, Nat.add_zero]

/-- Digits are one run, or go on with the one in front. -/
theorem runsFrom_append_of_digits (hne : ds ≠ []) (hds : ∀ c ∈ ds, isDecimal c = true)
    (inside : Bool) (rest : List Char) :
    runsFrom inside (ds ++ rest) = (if inside then 0 else 1) + runsFrom true rest := by
  induction ds generalizing inside with
  | nil => exact absurd rfl hne
  | cons d ds ih =>
      rw [List.cons_append, runsFrom_cons_of_digit (hds d List.mem_cons_self)]
      cases ds with
      | nil => rfl
      | cons e ds =>
          rw [ih (List.cons_ne_nil e ds) fun x hx => hds x (List.mem_cons_of_mem d hx)]
          simp

theorem runsFrom_true_le_cons (c : Char) (cs : List Char) :
    runsFrom true cs ≤ runsFrom true (c :: cs) := by
  cases hc : isDecimal c with
  | true =>
      rw [runsFrom_cons_of_digit hc]
      exact Nat.le_add_left _ _
  | false =>
      rw [runsFrom_cons_of_other hc]
      exact runsFrom_true_le cs

theorem runs_le_cons (c : Char) (cs : List Char) : runs cs ≤ runs (c :: cs) := by
  cases hc : isDecimal c with
  | false => exact le_of_eq (runsFrom_cons_of_other hc false cs).symm
  | true =>
      have hle := runs_le_succ cs
      rw [runs, runs, runsFrom_cons_of_digit hc]
      rw [runs] at hle
      simp only [Bool.false_eq_true, if_false]
      omega

theorem runs_le_of_suffix (h : ds <:+ cs) : runs ds ≤ runs cs := by
  obtain ⟨front, rfl⟩ := h
  induction front with
  | nil => exact le_rfl
  | cons c front ih => exact le_trans ih (runs_le_cons c (front ++ ds))

theorem runsFrom_le_of_front (h : ds <+: cs) (inside : Bool) :
    runsFrom inside ds ≤ runsFrom inside cs := by
  obtain ⟨back, rfl⟩ := h
  induction ds generalizing inside with
  | nil => exact Nat.zero_le _
  | cons c ds ih =>
      cases hc : isDecimal c with
      | false =>
          rw [List.cons_append, runsFrom_cons_of_other hc, runsFrom_cons_of_other hc]
          exact ih false
      | true =>
          rw [List.cons_append, runsFrom_cons_of_digit hc, runsFrom_cons_of_digit hc]
          exact Nat.add_le_add_left (ih true) _

theorem runs_le_of_front (h : ds <+: cs) : runs ds ≤ runs cs := runsFrom_le_of_front h false

theorem runs_pos (hc : c ∈ cs) (hdigit : isDecimal c = true) : 1 ≤ runs cs := by
  obtain ⟨front, back, rfl⟩ := List.append_of_mem hc
  have hle := runs_le_of_suffix (List.suffix_append front (c :: back))
  have hone : 1 ≤ runs (c :: back) := by
    rw [runs, runsFrom_cons_of_digit hdigit]
    exact Nat.le_add_right 1 _
  exact le_trans hone hle

/-! ## Where numbers stand -/

theorem digits_of_runsFrom_append (hne : ds ≠ []) (hds : ∀ c ∈ ds, isDecimal c = true)
    (hzero : runsFrom true (cs ++ ds) = 0) : ∀ c ∈ cs, isDecimal c = true := by
  induction cs with
  | nil => exact fun _ hc => absurd hc List.not_mem_nil
  | cons c cs ih =>
      cases hc : isDecimal c with
      | true =>
          rw [List.cons_append, runsFrom_cons_of_digit hc] at hzero
          exact List.forall_mem_cons.mpr ⟨hc, ih (by simpa using hzero)⟩
      | false =>
          obtain ⟨d, hd⟩ := List.exists_mem_of_ne_nil ds hne
          have hpos := runs_pos (List.mem_append_right cs hd) (hds d hd)
          rw [List.cons_append, runsFrom_cons_of_other hc] at hzero
          omega

/-- In front of digits that belong to the only run stand the digits that begin it, and no others. -/
theorem exists_front_of_runs (hne : ds ≠ []) (hds : ∀ c ∈ ds, isDecimal c = true)
    (hone : runs (cs ++ ds) = 1) : ∃ front digits, cs = front ++ digits ∧
      (∀ c ∈ front, isDecimal c = false) ∧ ∀ c ∈ digits, isDecimal c = true := by
  induction cs with
  | nil => exact ⟨[], [], rfl, by simp, by simp⟩
  | cons c cs ih =>
      cases hc : isDecimal c with
      | true =>
          rw [List.cons_append, runs, runsFrom_cons_of_digit hc] at hone
          have hdigits := digits_of_runsFrom_append hne hds (by simpa using hone)
          exact ⟨[], c :: cs, rfl, by simp, List.forall_mem_cons.mpr ⟨hc, hdigits⟩⟩
      | false =>
          rw [List.cons_append, runs, runsFrom_cons_of_other hc] at hone
          obtain ⟨front, digits, rfl, hfront, hdigits⟩ := ih hone
          exact ⟨c :: front, digits, rfl, List.forall_mem_cons.mpr ⟨hc, hfront⟩, hdigits⟩

/-- Behind digits of the last run stand the digits that end it, and no others. -/
theorem exists_back_of_runsFrom (hzero : runsFrom true cs = 0) :
    ∃ digits back, cs = digits ++ back ∧
      (∀ c ∈ digits, isDecimal c = true) ∧ ∀ c ∈ back, isDecimal c = false := by
  induction cs with
  | nil => exact ⟨[], [], rfl, by simp, by simp⟩
  | cons c cs ih =>
      cases hc : isDecimal c with
      | true =>
          rw [runsFrom_cons_of_digit hc] at hzero
          obtain ⟨digits, back, rfl, hdigits, hback⟩ := ih (by simpa using hzero)
          exact ⟨c :: digits, back, rfl, List.forall_mem_cons.mpr ⟨hc, hdigits⟩, hback⟩
      | false =>
          rw [runsFrom_cons_of_other hc] at hzero
          refine ⟨[], c :: cs, rfl, by simp, List.forall_mem_cons.mpr ⟨hc, fun x hx => ?_⟩⟩
          rw [← Bool.not_eq_true]
          intro hdigit
          have hpos := runs_pos hx hdigit
          omega

/-- Two numbers with what stands in front of them, between them and behind them. -/
structure TwoNumbers (front first middle second back : List Char) : Prop where
  front_other : ∀ c ∈ front, isDecimal c = false
  first_ne : first ≠ []
  first_digits : ∀ c ∈ first, isDecimal c = true
  middle_ne : middle ≠ []
  middle_other : ∀ c ∈ middle, isDecimal c = false
  second_ne : second ≠ []
  second_digits : ∀ c ∈ second, isDecimal c = true
  back_other : ∀ c ∈ back, isDecimal c = false

namespace TwoNumbers

variable {front first middle second back front' first' middle' second' back' : List Char}

theorem runs_eq (h : TwoNumbers front first middle second back) :
    runs (front ++ (first ++ (middle ++ (second ++ back)))) = 2 := by
  rw [runs_append_of_other h.front_other, runs,
    runsFrom_append_of_digits h.first_ne h.first_digits,
    runsFrom_append_left h.middle_ne h.middle_other, runs,
    runsFrom_append_of_digits h.second_ne h.second_digits, runsFrom_eq_zero h.back_other]
  rfl

theorem ext (h : TwoNumbers front first middle second back)
    (h' : TwoNumbers front' first' middle' second' back')
    (heq : front ++ (first ++ (middle ++ (second ++ back))) =
      front' ++ (first' ++ (middle' ++ (second' ++ back')))) :
    front = front' ∧ first = first' ∧ middle = middle' ∧ second = second' ∧ back = back' := by
  -- Digits and other characters take turns, and the text is cut at each turn.
  have hdigit : ∀ {ds rest : List Char}, ds ≠ [] → (∀ c ∈ ds, isDecimal c = true) →
      ∀ c ∈ (ds ++ rest).head?, (!isDecimal c) = false := by
    intro ds rest hne hds c hc
    obtain ⟨d, ds, rfl⟩ := List.exists_cons_of_ne_nil hne
    obtain rfl : d = c := Option.some.inj hc
    rw [hds d List.mem_cons_self]
    rfl
  have hother : ∀ {cs rest : List Char}, cs ≠ [] → (∀ c ∈ cs, isDecimal c = false) →
      ∀ c ∈ (cs ++ rest).head?, isDecimal c = false := by
    intro cs rest hne hcs c hc
    obtain ⟨d, cs, rfl⟩ := List.exists_cons_of_ne_nil hne
    obtain rfl : d = c := Option.some.inj hc
    exact hcs d List.mem_cons_self
  have hnone : ∀ {cs : List Char}, (∀ c ∈ cs, isDecimal c = false) →
      ∀ c ∈ cs, (!isDecimal c) = true := by
    intro cs hcs c hc
    rw [hcs c hc]
    rfl
  obtain rfl := front_eq_of_append_eq (p := fun c => !isDecimal c) (hnone h.front_other)
    (hnone h'.front_other) (hdigit h.first_ne h.first_digits)
    (hdigit h'.first_ne h'.first_digits) heq
  replace heq := List.append_cancel_left heq
  obtain rfl := front_eq_of_append_eq h.first_digits h'.first_digits
    (hother h.middle_ne h.middle_other) (hother h'.middle_ne h'.middle_other) heq
  replace heq := List.append_cancel_left heq
  obtain rfl := front_eq_of_append_eq (p := fun c => !isDecimal c) (hnone h.middle_other)
    (hnone h'.middle_other) (hdigit h.second_ne h.second_digits)
    (hdigit h'.second_ne h'.second_digits) heq
  replace heq := List.append_cancel_left heq
  obtain rfl := front_eq_of_append_eq h.second_digits h'.second_digits
    (fun c hc => h.back_other c (List.mem_of_mem_head? hc))
    (fun c hc => h'.back_other c (List.mem_of_mem_head? hc)) heq
  exact ⟨rfl, rfl, rfl, rfl, List.append_cancel_left heq⟩

/-- Digits, other characters and digits, wherever they stand in the text, belong to both numbers. -/
theorem exists_of_append_eq (h : TwoNumbers front first middle second back)
    {left ds others es right : List Char}
    (hds : ds ≠ [] ∧ ∀ c ∈ ds, isDecimal c = true)
    (hothers : others ≠ [] ∧ ∀ c ∈ others, isDecimal c = false)
    (hes : es ≠ [] ∧ ∀ c ∈ es, isDecimal c = true)
    (heq : front ++ (first ++ (middle ++ (second ++ back))) =
      left ++ (ds ++ (others ++ (es ++ right)))) :
    ∃ more rest, left = front ++ more ∧ first = more ++ ds ∧ (∀ c ∈ more, isDecimal c = true) ∧
      middle = others ∧ second = es ++ rest ∧ right = rest ++ back := by
  obtain ⟨c, others, rfl⟩ := List.exists_cons_of_ne_nil hothers.1
  have hcut : runs (left ++ ds) + runs (others ++ (es ++ right)) = 2 := by
    rw [← runs_append_cons (hothers.2 c List.mem_cons_self), ← h.runs_eq, heq]
    simp
  have hleft : 1 ≤ runs (left ++ ds) := by
    obtain ⟨d, hd⟩ := List.exists_mem_of_ne_nil ds hds.1
    exact runs_pos (List.mem_append_right left hd) (hds.2 d hd)
  rw [runs_append_of_other fun x hx => hothers.2 x (List.mem_cons_of_mem c hx),
    runs.eq_def (es ++ _), runsFrom_append_of_digits hes.1 hes.2, if_neg Bool.false_ne_true] at hcut
  have hone : runs (left ++ ds) = 1 := by omega
  have hzero : runsFrom true right = 0 := by omega
  obtain ⟨front', more, rfl, hfront', hmore⟩ := exists_front_of_runs hds.1 hds.2 hone
  obtain ⟨rest, back', rfl, hrest, hback'⟩ := exists_back_of_runsFrom hzero
  have h' : TwoNumbers front' (more ++ ds) (c :: others) (es ++ rest) back' :=
    { front_other := hfront'
      first_ne := List.append_ne_nil_of_right_ne_nil more hds.1
      first_digits := List.forall_mem_append.mpr ⟨hmore, hds.2⟩
      middle_ne := hothers.1
      middle_other := hothers.2
      second_ne := List.append_ne_nil_of_left_ne_nil hes.1 rest
      second_digits := List.forall_mem_append.mpr ⟨hes.2, hrest⟩
      back_other := hback' }
  obtain ⟨rfl, rfl, rfl, rfl, rfl⟩ := h.ext h' (by rw [heq]; simp)
  exact ⟨more, rest, rfl, rfl, hmore, rfl, rfl, rfl⟩

end TwoNumbers

/-! ## Words -/

/-- The runs of all words of a list. -/
def totalRuns (ws : List (List Char)) : Nat := (ws.map runs).sum

theorem totalRuns_cons (w : List Char) (ws : List (List Char)) :
    totalRuns (w :: ws) = runs w + totalRuns ws := List.sum_cons

theorem totalRuns_append (ws vs : List (List Char)) :
    totalRuns (ws ++ vs) = totalRuns ws + totalRuns vs := by
  rw [totalRuns, List.map_append, List.sum_append]
  rfl

/-- No run reaches across a character between words. -/
theorem totalRuns_fieldsBy {p : Char → Bool} (hp : ∀ c, p c = true → isDecimal c = false)
    (cs : List Char) : totalRuns (fieldsBy p cs) = runs cs := by
  have hone : ∀ w, (∀ c ∈ w, p c = false) → totalRuns (fieldsBy p w) = runs w := by
    intro w hw
    by_cases hempty : w = []
    · rw [hempty]
      rfl
    · rw [fieldsBy_eq_singleton hempty hw, totalRuns_cons]
      rfl
  -- The characters of the word that has begun are kept in front.
  have hword : ∀ w, (∀ c ∈ w, p c = false) → totalRuns (fieldsBy p (w ++ cs)) = runs (w ++ cs) := by
    induction cs with
    | nil =>
        intro w hw
        rw [List.append_nil]
        exact hone w hw
    | cons c cs ih =>
        intro w hw
        cases hc : p c with
        | true =>
            have hback := ih [] fun x hx => absurd hx List.not_mem_nil
            rw [List.nil_append] at hback
            rw [fieldsBy_append_cons hc, totalRuns_append, hone w hw, hback,
              runs_append_cons (hp c hc)]
        | false =>
            rw [← List.singleton_append, ← List.append_assoc]
            apply ih
            intro x hx
            rcases List.mem_append.mp hx with hx | hx
            · exact hw x hx
            · exact List.mem_singleton.mp hx ▸ hc
  exact hword [] fun x hx => absurd hx List.not_mem_nil

theorem runs_intercalate {mark : Char} (hmark : isDecimal mark = false) (ws : List (List Char)) :
    runs ([mark].intercalate ws) = totalRuns ws := by
  induction ws with
  | nil => rfl
  | cons w ws ih =>
      cases ws with
      | nil => rw [List.intercalate_singleton, totalRuns_cons]; rfl
      | cons v ws =>
          rw [List.intercalate_cons_cons, List.append_assoc, List.singleton_append,
            runs_append_cons hmark, ih, totalRuns_cons w]

end Harvest.Text
