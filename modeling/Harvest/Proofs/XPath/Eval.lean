import Harvest.Proofs.XPath.Order

/-!
# What an evaluation keeps

Every list of nodes that a selector gives stands in document order and has each node once.  An
evaluation changes the document only by trees that come behind those that are there, and its outline
is always the outline of its document.
-/

namespace Harvest.XPath

open Markup (Outline Document Content)

/-- A scene that an evaluation may leave. -/
structure Scene.Extends (s t : Scene) : Prop where
  trees : s.document.trees <+: t.document.trees
  outline : s.outline = .ofDocument s.document → t.outline = .ofDocument t.document

namespace Scene.Extends

theorem refl (s : Scene) : s.Extends s := ⟨List.prefix_rfl, id⟩

theorem trans {s t u : Scene} (h₁ : s.Extends t) (h₂ : t.Extends u) : s.Extends u :=
  ⟨h₁.trees.trans h₂.trees, fun h => h₂.outline (h₁.outline h)⟩

theorem addTree (s : Scene) (c : Content) (hp : c.Proper) (hw : c.Whole) :
    s.Extends (s.addTree c hp hw) :=
  ⟨List.prefix_append _ _, fun _ => rfl⟩

end Scene.Extends

/-! ## What holds of every result -/

namespace Eval

variable {α β : Type}

theorem run_bind_of_ok {x : Eval α} {f : α → Eval β} {s t : Scene} {a : α}
    (h : x.run s = .ok (a, t)) : (x >>= f).run s = (f a).run t := by
  rw [StateT.run_bind, h]
  rfl

/-- Where an evaluation succeeds, its value has a property and its scene extends the first one. -/
structure Gives (x : Eval α) (P : α → Prop) : Prop where
  of_ok : ∀ {s t : Scene} {a : α}, x.run s = .ok (a, t) → P a ∧ s.Extends t

theorem Gives.pure {P : α → Prop} {a : α} (h : P a) : (pure a : Eval α).Gives P := by
  refine ⟨fun {s t b} hb => ?_⟩
  change Except.ok (a, s) = Except.ok (b, t) at hb
  simp only [Except.ok.injEq, Prod.mk.injEq] at hb
  obtain ⟨rfl, rfl⟩ := hb
  exact ⟨h, .refl s⟩

theorem Gives.throw {P : α → Prop} {e : EvalError} : (throw e : Eval α).Gives P := by
  refine ⟨fun {s t b} hb => ?_⟩
  change Except.error e = Except.ok (b, t) at hb
  simp at hb

theorem Gives.bind {P : α → Prop} {Q : β → Prop} {x : Eval α} {f : α → Eval β} (hx : x.Gives P)
    (hf : ∀ a, P a → (f a).Gives Q) : (x >>= f).Gives Q := by
  refine ⟨fun {s u b} hb => ?_⟩
  cases hr : x.run s with
  | error e =>
      rw [StateT.run_bind, hr] at hb
      simp [Bind.bind, Except.bind] at hb
  | ok p =>
      obtain ⟨a, t⟩ := p
      rw [run_bind_of_ok hr] at hb
      obtain ⟨ha, hst⟩ := hx.of_ok hr
      obtain ⟨hb', htu⟩ := (hf a ha).of_ok hb
      exact ⟨hb', hst.trans htu⟩

theorem Gives.throw_bind {P : β → Prop} {e : EvalError} {f : α → Eval β} :
    ((MonadExcept.throw e : Eval α) >>= f).Gives P := by
  have h : (MonadExcept.throw e : Eval α).Gives fun _ => False := .throw
  exact h.bind fun _ hf => hf.elim

theorem Gives.ite {P : α → Prop} {c : Prop} [Decidable c] {x y : Eval α} (hx : x.Gives P)
    (hy : y.Gives P) : (if c then x else y).Gives P := by
  split
  · exact hx
  · exact hy

theorem gives_get : (get : Eval Scene).Gives fun _ => True := by
  refine ⟨fun {s t u} hu => ?_⟩
  change Except.ok (s, s) = Except.ok (u, t) at hu
  simp only [Except.ok.injEq, Prod.mk.injEq] at hu
  exact ⟨trivial, hu.2 ▸ .refl s⟩

theorem gives_getOutline : getOutline.Gives fun _ => True :=
  gives_get.bind fun _ _ => .pure trivial

theorem gives_orUnfit {v : Option α} {P : α → Prop} (h : ∀ a, v = some a → P a) :
    (orUnfit v).Gives P := by
  cases v with
  | none => exact .throw
  | some a => exact .pure (h a rfl)

theorem gives_resolve (q : Option String) : (resolve q).Gives fun _ => True := by
  cases q with
  | none => exact .pure trivial
  | some q => exact (gives_orUnfit fun _ _ => trivial).bind fun _ _ => .pure trivial

end Eval

/-! ## Values in order -/

/-- The nodes of a value stand in document order, each of them once. -/
def Value.Ordered : Value → Prop
  | .nodes ns => ns.Pairwise Node.Before
  | _ => True

theorem gives_nodesOf {v : Value} (h : v.Ordered) :
    (nodesOf v).Gives fun ns => ns.Pairwise Node.Before := by
  cases v with
  | nodes ns => exact .pure h
  | boolean b => exact .throw
  | number x => exact .throw
  | text s => exact .throw

theorem ordered_of_callFunction {o : Outline} {html : Bool} {focus : Focus} {name : String}
    {args : List Value} {v : Value} (h : callFunction o html focus name args = some v) :
    v.Ordered := by
  unfold callFunction at h
  split at h
  case h_8 =>
    -- the elements of identifiers are the only nodes that a function gives
    simp only [Option.some.injEq] at h
    subst h
    exact Node.pairwise_inOrder _
  case h_29 => exact absurd h (by simp)
  all_goals
    first
    | (simp only [Option.some.injEq] at h; subst h; trivial)
    | (simp only [Option.map_eq_some_iff] at h; obtain ⟨_, _, rfl⟩ := h; trivial)

theorem pairwise_map_entry {places : List Nat} (h : places.Pairwise (· < ·)) :
    (places.map Node.entry).Pairwise Node.Before := by
  refine List.pairwise_map.mpr (h.imp fun {i j} hij => ?_)
  refine ⟨Node.le_iff.mpr (Or.inl ?_), ?_⟩
  · simpa [Node.key] using hij
  · simpa using Nat.ne_of_lt hij

theorem pairwise_children (o : Outline) (i : Nat) : (o.children i).Pairwise (· < ·) :=
  List.Pairwise.filter _ List.pairwise_lt_range'

theorem gives_matchNodes (texts : List String) : (matchNodes texts).Gives Value.Ordered := by
  unfold matchNodes
  split
  · exact .pure List.Pairwise.nil
  · refine ⟨fun {s t v} hv => ?_⟩
    change Except.ok (_, s.addTree (matchTree texts) _ _) = Except.ok (v, t) at hv
    simp only [Except.ok.injEq, Prod.mk.injEq] at hv
    obtain ⟨rfl, rfl⟩ := hv
    exact ⟨pairwise_map_entry (pairwise_children _ _), .addTree ..⟩

theorem gives_readPattern (text flags : String) :
    (readPattern text flags).Gives fun _ => True := by
  unfold readPattern
  split
  · exact .pure trivial
  · exact .throw
  · exact .throw
  · exact .throw

theorem gives_callPattern (name : String) (args : List Value) :
    (callPattern name args).Gives Value.Ordered := by
  refine Eval.gives_getOutline.bind fun o _ => ?_
  split
  case h_1 =>
    refine .ite .throw_bind ?_
    exact (gives_readPattern _ _).bind fun _ _ => .pure trivial
  case h_2 =>
    refine .ite .throw_bind ?_
    exact (gives_readPattern _ _).bind fun _ _ => gives_matchNodes _
  case h_3 =>
    refine (gives_readPattern _ _).bind fun p _ => ?_
    split
    · exact .pure trivial
    · exact .throw
    · exact .throw
  all_goals exact .throw

theorem gives_callNamed (focus : Focus) (qualifier : Option String) (name : String)
    (args : List Value) : (callNamed focus qualifier name args).Gives Value.Ordered := by
  refine (Eval.gives_resolve qualifier).bind fun space _ => ?_
  cases space with
  | none =>
      refine Eval.gives_get.bind fun s _ => ?_
      exact Eval.gives_orUnfit fun v hv => ordered_of_callFunction hv
  | some a => exact .ite (gives_callPattern name args) .throw

/-! ## Expressions -/

/-- Nodes that are chosen among some stand in the order of these. -/
theorem gives_chosenBy {predicate : Focus → Eval Value}
    (h : ∀ focus, (predicate focus).Gives Value.Ordered) (size position : Nat) (ns : List Node) :
    (chosenBy predicate size position ns).Gives fun ms => ms.Sublist ns := by
  induction ns generalizing position with
  | nil => exact .pure (List.Sublist.refl _)
  | cons n ns ih =>
      refine (h _).bind fun v _ => (ih (position + 1)).bind fun rest hrest => .pure ?_
      split
      · exact hrest.cons_cons n
      · exact hrest.cons n

theorem gives_fromEach {step : Node → Eval (List Node)}
    (h : ∀ n, (step n).Gives fun _ => True) (ns : List Node) :
    (fromEach step ns).Gives fun _ => True := by
  induction ns with
  | nil => exact .pure trivial
  | cons n ns ih => exact (h n).bind fun _ _ => ih.bind fun _ _ => .pure trivial

mutual

theorem gives_eval : ∀ (e : XPath) (focus : Focus), (eval e focus).Gives Value.Ordered
  | .text s, _ => .pure trivial
  | .number x, _ => .pure trivial
  | .variableValue .., _ => .throw
  | .call qualifier name args, focus => by
      unfold eval
      exact (gives_evalAll args focus).bind fun vs _ => gives_callNamed focus qualifier name vs
  | .binary op left right, focus => by
      unfold eval
      refine (gives_eval left focus).bind fun a ha => ?_
      have hright := gives_eval right focus
      split
      · exact .ite (.pure trivial) (hright.bind fun _ _ => .pure trivial)
      · exact .ite (hright.bind fun _ _ => .pure trivial) (.pure trivial)
      · refine (gives_nodesOf ha).bind fun ns _ => hright.bind fun b hb => ?_
        exact (gives_nodesOf hb).bind fun ms _ => .pure (Node.pairwise_inOrder _)
      · refine hright.bind fun b _ => Eval.gives_getOutline.bind fun o _ => .pure ?_
        unfold operate
        split
        · trivial
        · split
          · trivial
          · split <;> trivial
  | .negate e, focus => by
      unfold eval
      exact (gives_eval e focus).bind fun v _ => Eval.gives_getOutline.bind fun o _ => .pure trivial
  | .root, _ => .pure (List.pairwise_singleton _ _)
  | .context, focus => .pure (List.pairwise_singleton _ _)
  -- a step puts its nodes in order itself, and a filter keeps the order of its input
  | .step input axis test predicates, focus => by
      unfold eval
      refine (gives_eval input focus).bind fun v hv => (gives_nodesOf hv).bind fun ns _ => ?_
      refine (Eval.gives_resolve _).bind fun space _ => ?_
      refine (gives_fromEach (fun n => ?_) ns).bind fun found _ => .pure (Node.pairwise_inOrder _)
      exact Eval.gives_getOutline.bind fun o _ => gives_choose predicates _
  | .filter input predicate, focus => by
      unfold eval
      refine (gives_eval input focus).bind fun v hv => (gives_nodesOf hv).bind fun ns hns => ?_
      have hchosen := gives_chosenBy (gives_eval predicate) ns.length 1 ns
      exact hchosen.bind fun ms hms => .pure (hns.sublist hms)

theorem gives_evalAll : ∀ (es : List XPath) (focus : Focus),
    (evalAll es focus).Gives fun _ => True
  | [], _ => .pure trivial
  | e :: es, focus => by
      unfold evalAll
      exact (gives_eval e focus).bind fun _ _ =>
        (gives_evalAll es focus).bind fun _ _ => .pure trivial

theorem gives_choose : ∀ (ps : List XPath) (ns : List Node), (choose ps ns).Gives fun _ => True
  | [], _ => .pure trivial
  | p :: ps, ns => by
      unfold choose
      have hchosen := gives_chosenBy (gives_eval p) ns.length 1 ns
      exact hchosen.bind fun ms _ => gives_choose ps ms

end

end Harvest.XPath
