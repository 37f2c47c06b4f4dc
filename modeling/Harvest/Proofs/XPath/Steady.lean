import Harvest.Proofs.XPath.Eval

/-!
# Selectors that fail in one way only

A selector without functions on regular expressions has no error but the one that something is asked
of a value that it cannot give.
-/

namespace Harvest

namespace XPath

mutual

/-- Whether no function on regular expressions is called. -/
def isPlain : XPath → Bool
  | .text _ => true
  | .number _ => true
  | .variableValue .. => true
  | .call qualifier _ args => qualifier != some "re" && arePlain args
  | .binary _ left right => isPlain left && isPlain right
  | .negate e => isPlain e
  | .root => true
  | .context => true
  | .step input _ _ predicates => isPlain input && arePlain predicates
  | .filter input predicate => isPlain input && isPlain predicate

def arePlain : List XPath → Bool
  | [] => true
  | e :: es => isPlain e && arePlain es

end

/-- The one error of an evaluation is `unfit`. -/
def Eval.Steady {α : Type} (m : Eval α) : Prop := ∀ s e, m.run s = .error e → e = .unfit

variable {α β : Type}

namespace Eval.Steady

theorem pure (a : α) : (Pure.pure a : Eval α).Steady := by
  intro s e he
  cases he

theorem throw : (throw .unfit : Eval α).Steady := by
  intro s e he
  exact (Except.error.inj he).symm

theorem get : (get : Eval Scene).Steady := by
  intro s e he
  cases he

theorem bind {m : Eval α} {f : α → Eval β} (hm : m.Steady) (hf : ∀ a, (f a).Steady) :
    (m >>= f).Steady := by
  intro s e he
  cases hrun : m.run s with
  | error e' =>
      rw [StateT.run_bind, hrun] at he
      obtain rfl : e' = e := Except.error.inj he
      exact hm s e' hrun
  | ok p =>
      obtain ⟨a, t⟩ := p
      rw [run_bind_of_ok hrun] at he
      exact hf a t e he

theorem ite {c : Prop} [Decidable c] {m n : Eval α} (hm : m.Steady) (hn : n.Steady) :
    (if c then m else n).Steady := by
  split
  · exact hm
  · exact hn

theorem getOutline : getOutline.Steady := get.bind fun s => pure s.outline

theorem orUnfit (v : Option α) : (orUnfit v).Steady := by
  cases v with
  | none => exact throw
  | some a => exact pure a

theorem resolve (q : Option String) : (resolve q).Steady := by
  cases q with
  | none => exact pure none
  | some q => exact (orUnfit _).bind fun space => pure (some space)

theorem nodesOf (v : Value) : (nodesOf v).Steady := by
  cases v with
  | nodes ns => exact pure ns
  | boolean b => exact throw
  | number x => exact throw
  | text s => exact throw

theorem callNamed (focus : Focus) {qualifier : Option String} (h : qualifier ≠ some "re")
    (name : String) (args : List Value) : (callNamed focus qualifier name args).Steady := by
  refine (resolve qualifier).bind fun space => ?_
  cases space with
  | none => exact get.bind fun s => orUnfit _
  | some a =>
      change (if qualifier = some "re" then _ else _ : Eval Value).Steady
      rw [if_neg h]
      exact throw

theorem chosenBy {predicate : Focus → Eval Value} (h : ∀ focus, (predicate focus).Steady)
    (size position : Nat) (ns : List Node) : (chosenBy predicate size position ns).Steady := by
  induction ns generalizing position with
  | nil => exact pure []
  | cons n ns ih => exact (h _).bind fun v => (ih (position + 1)).bind fun rest => pure _

theorem fromEach {step : Node → Eval (List Node)} (h : ∀ n, (step n).Steady) (ns : List Node) :
    (fromEach step ns).Steady := by
  induction ns with
  | nil => exact pure []
  | cons n ns ih => exact (h n).bind fun here => ih.bind fun rest => pure (here ++ rest)

end Eval.Steady

mutual

/-- A selector without regular expressions has one error at most. -/
theorem steady_eval : ∀ (e : XPath) (focus : Focus), e.isPlain = true → (eval e focus).Steady
  | .text s, _, _ => .pure _
  | .number x, _, _ => .pure _
  | .variableValue .., _, _ => .throw
  -- a call that is plain is none of those on regular expressions, which alone have errors of their
  -- own
  | .call qualifier name args, focus, h => by
      rw [isPlain, Bool.and_eq_true, bne_iff_ne] at h
      unfold eval
      exact (steady_evalAll args focus h.2).bind fun vs => .callNamed focus h.1 name vs
  | .binary op left right, focus, h => by
      rw [isPlain, Bool.and_eq_true] at h
      unfold eval
      refine (steady_eval left focus h.1).bind fun a => ?_
      have hright := steady_eval right focus h.2
      split
      · exact .ite (.pure _) (hright.bind fun b => .pure _)
      · exact .ite (hright.bind fun b => .pure _) (.pure _)
      · refine (Eval.Steady.nodesOf a).bind fun ns => hright.bind fun b => ?_
        exact (Eval.Steady.nodesOf b).bind fun ms => .pure _
      · exact hright.bind fun b => Eval.Steady.getOutline.bind fun o => .pure _
  | .negate e, focus, h => by
      unfold eval
      exact (steady_eval e focus h).bind fun v => Eval.Steady.getOutline.bind fun o => .pure _
  | .root, _, _ => .pure _
  | .context, _, _ => .pure _
  | .step input axis test predicates, focus, h => by
      rw [isPlain, Bool.and_eq_true] at h
      unfold eval
      refine (steady_eval input focus h.1).bind fun v => (Eval.Steady.nodesOf v).bind fun ns => ?_
      refine (Eval.Steady.resolve _).bind fun space => ?_
      refine (Eval.Steady.fromEach (fun n => ?_) ns).bind fun found => .pure _
      exact Eval.Steady.getOutline.bind fun o => steady_choose predicates _ h.2
  | .filter input predicate, focus, h => by
      rw [isPlain, Bool.and_eq_true] at h
      unfold eval
      refine (steady_eval input focus h.1).bind fun v => (Eval.Steady.nodesOf v).bind fun ns => ?_
      have hpredicate := fun focus => steady_eval predicate focus h.2
      exact (Eval.Steady.chosenBy hpredicate ns.length 1 ns).bind fun ms => .pure _

theorem steady_evalAll : ∀ (es : List XPath) (focus : Focus), arePlain es = true →
    (evalAll es focus).Steady
  | [], _, _ => .pure _
  | e :: es, focus, h => by
      rw [arePlain, Bool.and_eq_true] at h
      unfold evalAll
      refine (steady_eval e focus h.1).bind fun v => ?_
      exact (steady_evalAll es focus h.2).bind fun vs => .pure _

theorem steady_choose : ∀ (ps : List XPath) (ns : List Node), arePlain ps = true →
    (choose ps ns).Steady
  | [], _, _ => .pure _
  | p :: ps, ns, h => by
      rw [arePlain, Bool.and_eq_true] at h
      unfold choose
      have hchosen := Eval.Steady.chosenBy (fun focus => steady_eval p focus h.1) ns.length 1 ns
      exact hchosen.bind fun ms => steady_choose ps ms h.2

end

end XPath

end Harvest
