import Harvest.Pattern.Match

/-!
# What a match takes in

A success of a pattern is a success of what follows it.  A pattern that has to take a character of a
kind, on every way through it, does not match a text without one.
-/

namespace Harvest.Pattern

variable {text : Subject} {P : Char → Prop} {body : Cursor → Next → Option Cursor}
  {bounds : Bounds} {temper : Temper} {fuel count : Nat} {last : Option Nat} {c r : Cursor}
  {next : Next} {p q : Pattern}

/-! ## Repetitions -/

/-- A repetition goes on with one more run of its body, where that is due or allowed, or it has run
often enough and ends. -/
theorem iterate_succ_cases
    (hrun : iterate body bounds temper (fuel + 1) count last c next = some r) :
    (body c (fun c' => iterate body bounds temper fuel (count + 1) (some c.pos) c' next) = some r ∧
      (count < bounds.least ∨ bounds.allow count = true)) ∨
      (bounds.least ≤ count ∧ next c = some r) := by
  unfold iterate at hrun
  dsimp only at hrun
  have hmore : ∀ o, (if bounds.allow count && last != some c.pos then
      body c fun c' => iterate body bounds temper fuel (count + 1) (some c.pos) c' next
      else none) = some o →
      body c (fun c' => iterate body bounds temper fuel (count + 1) (some c.pos) c' next) =
        some o ∧ (count < bounds.least ∨ bounds.allow count = true) := by
    intro o ho
    split at ho
    · next hallow =>
      rw [Bool.and_eq_true] at hallow
      exact ⟨ho, .inr hallow.1⟩
    · cases ho
  split at hrun
  · next hleast => exact .inl ⟨hrun, .inl hleast⟩
  · next hleast =>
    have hle : bounds.least ≤ count := Nat.le_of_not_lt hleast
    split at hrun
    · split at hrun
      · next hnext => exact .inr ⟨hle, hnext.trans hrun⟩
      · exact .inl (hmore r hrun)
    · split at hrun
      · next hsome => exact .inl (hmore r (hsome.trans hrun))
      · exact .inr ⟨hle, hrun⟩

/-- A success of a matcher is a success of what it hands its cursors to. -/
def HandsOn (body : Cursor → Next → Option Cursor) : Prop :=
  ∀ c next r, body c next = some r → ∃ c', next c' = some r

theorem HandsOn.iterate (hbody : HandsOn body) (fuel count : Nat) (last : Option Nat) :
    HandsOn (iterate body bounds temper fuel count last) := by
  induction fuel generalizing count last with
  | zero =>
      intro c next r hrun
      exact ⟨c, hrun⟩
  | succ fuel ih =>
      intro c next r hrun
      rcases iterate_succ_cases hrun with ⟨hagain, _⟩ | ⟨_, hends⟩
      · obtain ⟨c', hc'⟩ := hbody _ _ _ hagain
        exact ih _ _ _ _ _ hc'
      · exact ⟨c, hends⟩

/-! ## What a success of a run comes from -/

theorem run_one_cases {set : CharSet} {mode : Mode}
    (hrun : run text (.one set mode) c next = some r) :
    ∃ x, text[c.pos]? = some x ∧ set.matches mode x = true ∧
      next { c with pos := c.pos + 1 } = some r := by
  rw [run] at hrun
  split at hrun
  · next x hx =>
    split at hrun
    · next hmatches => exact ⟨x, hx, hmatches, hrun⟩
    · cases hrun
  · cases hrun

theorem run_either_cases (hrun : run text (.either p q) c next = some r) :
    run text p c next = some r ∨ run text q c next = some r := by
  rw [run] at hrun
  split at hrun
  · next hfirst => exact .inl (hfirst.trans hrun)
  · exact .inr hrun

theorem run_ifCaptured_cases {group : Nat}
    (hrun : run text (.ifCaptured group p q) c next = some r) :
    run text p c next = some r ∨ run text q c next = some r := by
  rw [run] at hrun
  split at hrun
  · exact .inl hrun
  · exact .inr hrun

/-- A possessive repetition hands on where it ends by itself. -/
theorem run_repeated_cases (hrun : run text (.repeated p bounds temper) c next = some r) :
    (temper = .possessive ∧ ∃ c', iterate (run text p) bounds .greedy
        (bounds.least + (text.size - c.pos) + 2) 0 none c some = some c' ∧ next c' = some r) ∨
      (temper ≠ .possessive ∧ iterate (run text p) bounds temper
        (bounds.least + (text.size - c.pos) + 2) 0 none c next = some r) := by
  unfold run at hrun
  dsimp only at hrun
  split at hrun
  · exact .inl ⟨rfl, Option.bind_eq_some_iff.mp hrun⟩
  · next hother => exact .inr ⟨hother, hrun⟩

/-! ## Patterns -/

theorem handsOn_run (text : Subject) (p : Pattern) : HandsOn (run text p) := by
  induction p with
  | empty => exact fun c next r hrun => ⟨c, hrun⟩
  | one set mode =>
      intro c next r hrun
      obtain ⟨x, _, _, hnext⟩ := run_one_cases hrun
      exact ⟨_, hnext⟩
  | any lineFeeds =>
      intro c next r hrun
      rw [run] at hrun
      split at hrun
      · split at hrun
        · exact ⟨_, hrun⟩
        · cases hrun
      · cases hrun
  | place p =>
      intro c next r hrun
      rw [run] at hrun
      split at hrun
      · exact ⟨_, hrun⟩
      · cases hrun
  | seq p q ihp ihq =>
      intro c next r hrun
      obtain ⟨c', hc'⟩ := ihp _ _ _ hrun
      exact ihq _ _ _ hc'
  | either p q ihp ihq =>
      intro c next r hrun
      rcases run_either_cases hrun with hp | hq
      · exact ihp _ _ _ hp
      · exact ihq _ _ _ hq
  | repeated p bounds temper ih =>
      intro c next r hrun
      rcases run_repeated_cases hrun with ⟨_, c', _, hc'⟩ | ⟨_, hiterate⟩
      · exact ⟨c', hc'⟩
      · exact ih.iterate _ _ _ _ _ _ hiterate
  | capture group p ih =>
      intro c next r hrun
      obtain ⟨c', hc'⟩ := ih _ _ _ hrun
      exact ⟨_, hc'⟩
  | again group mode =>
      intro c next r hrun
      rw [run] at hrun
      split at hrun
      · obtain ⟨pos, _, hpos⟩ := Option.bind_eq_some_iff.mp hrun
        exact ⟨_, hpos⟩
      · cases hrun
  -- what is found ahead or behind is not handed on: the search goes on where it was, or not at all
  | ahead p negated ih =>
      intro c next r hrun
      rw [run] at hrun
      split at hrun <;> split at hrun <;> first | cases hrun | exact ⟨_, hrun⟩
  | behind width p negated ih =>
      intro c next r hrun
      rw [run] at hrun
      split at hrun <;> split at hrun <;> first | cases hrun | exact ⟨_, hrun⟩
  | atomic p ih =>
      intro c next r hrun
      obtain ⟨c', _, hc'⟩ := Option.bind_eq_some_iff.mp hrun
      exact ⟨c', hc'⟩
  | ifCaptured group p q ihp ihq =>
      intro c next r hrun
      rcases run_ifCaptured_cases hrun with hp | hq
      · exact ihp _ _ _ hp
      · exact ihq _ _ _ hq

/-- Whether every way through a pattern takes a character of a kind.  What stands ahead, behind or
in an earlier capture is not counted. -/
def Needs (P : Char → Prop) : Pattern → Prop
  | .one set mode => ∀ x, set.matches mode x = true → P x
  | .seq p q => p.Needs P ∨ q.Needs P
  | .either p q => p.Needs P ∧ q.Needs P
  | .repeated p bounds _ => 1 ≤ bounds.least ∧ p.Needs P
  | .capture _ p => p.Needs P
  | .atomic p => p.Needs P
  | .ifCaptured _ p q => p.Needs P ∧ q.Needs P
  | _ => False

theorem exists_mem_of_run (hneeds : p.Needs P) (hrun : run text p c next = some r) :
    ∃ x ∈ text, P x := by
  induction p generalizing c next r with
  | one set mode =>
      obtain ⟨x, hx, hmatches, _⟩ := run_one_cases hrun
      exact ⟨x, Array.mem_of_getElem? hx, hneeds x hmatches⟩
  | seq p q ihp ihq =>
      rcases hneeds with hp | hq
      · exact ihp hp hrun
      · obtain ⟨c', hc'⟩ := handsOn_run text p _ _ _ hrun
        exact ihq hq hc'
  | either p q ihp ihq =>
      rcases run_either_cases hrun with hp | hq
      · exact ihp hneeds.1 hp
      · exact ihq hneeds.2 hq
  | repeated p bounds temper ih =>
      -- The least number of runs is positive, so the body runs at least once.
      have hfirst : ∀ {temper next r},
          iterate (run text p) bounds temper (bounds.least + (text.size - c.pos) + 2) 0 none c
            next = some r → ∃ x ∈ text, P x := by
        intro temper next r hiterate
        rcases iterate_succ_cases hiterate with ⟨hbody, _⟩ | ⟨hleast, _⟩
        · exact ih hneeds.2 hbody
        · exact absurd (Nat.le_trans hneeds.1 hleast) (by decide)
      rcases run_repeated_cases hrun with ⟨_, c', hiterate, _⟩ | ⟨_, hiterate⟩
      · exact hfirst hiterate
      · exact hfirst hiterate
  | capture group p ih => exact ih hneeds hrun
  | atomic p ih =>
      obtain ⟨c', hbody, _⟩ := Option.bind_eq_some_iff.mp hrun
      exact ih hneeds hbody
  | ifCaptured group p q ihp ihq =>
      rcases run_ifCaptured_cases hrun with hp | hq
      · exact ihp hneeds.1 hp
      · exact ihq hneeds.2 hq
  | _ => exact hneeds.elim

/-! ## Searching -/

theorem exists_run_of_searchFrom {advance : Bool} {m : Found} {count start : Nat}
    (hfound : searchFrom p text advance count start = some m) :
    ∃ i next, run text p ⟨i, []⟩ next = some m.stop := by
  induction count generalizing advance start with
  | zero => cases hfound
  | succ count ih =>
      rw [searchFrom] at hfound
      split at hfound
      · next hrun =>
        cases hfound
        exact ⟨start, _, hrun⟩
      · exact ih hfound

theorem search?_eq_none {cs : List Char}
    (hno : ∀ i next, run cs.toArray p ⟨i, []⟩ next = none) : search? p cs = none := by
  rw [search?, Option.map_eq_none_iff, Option.eq_none_iff_forall_ne_some]
  intro m hfound
  obtain ⟨i, next, hrun⟩ := exists_run_of_searchFrom hfound
  rw [hno i next] at hrun
  cases hrun

/-- A pattern that needs a character of a kind is not found where there is none. -/
theorem search?_eq_none_of_needs {cs : List Char} (hneeds : p.Needs P)
    (hno : ∀ x ∈ cs, ¬ P x) : search? p cs = none := by
  apply search?_eq_none
  intro i next
  rw [Option.eq_none_iff_forall_ne_some]
  intro r hrun
  obtain ⟨x, hx, hPx⟩ := exists_mem_of_run hneeds hrun
  exact hno x (List.mem_toArray.mp hx) hPx

end Harvest.Pattern
