import Harvest.Proofs.XPath.MovedValue

/-!
# Evaluation behind a gap

A selector gives the same on two documents of which one has further trees in a gap: the same nodes
at their places there, the same values, or the same error.  What the evaluation adds comes behind
both documents alike.
-/

namespace Harvest.XPath

open Markup (Outline Document Content Gap)

/-- Two scenes of which one has further trees in a gap. -/
structure Scene.Beside (g : Gap) (s s' : Scene) : Prop where
  document : s.document.Beside g s'.document
  outline : s.outline = .ofDocument s.document
  outline' : s'.outline = .ofDocument s'.document
  language : s'.language = s.language

namespace Scene.Beside

variable {g : Gap} {s s' : Scene}

theorem outlines (h : s.Beside g s') : s.outline.Beside g s'.outline := by
  rw [h.outline, h.outline']
  exact h.document.outline

theorem addTree (h : s.Beside g s') (c : Content) (hp : c.Proper) (hw : c.Whole) :
    (s.addTree c hp hw).Beside g (s'.addTree c hp hw) :=
  ⟨h.document.addTree c hp hw, rfl, rfl, h.language⟩

end Scene.Beside

/-- The number of entries in a scene. -/
def Scene.size (s : Scene) : Nat := s.outline.entries.size

theorem Scene.Beside.size_le_addTree {g : Gap} {s s' : Scene} (h : s.Beside g s') (c : Content)
    (hp : c.Proper) (hw : c.Whole) : s.size ≤ (s.addTree c hp hw).size := by
  have hsize : (s.addTree c hp hw).size =
      Markup.extent (s.document.trees ++ [(c.number s.document.fresh).1]) :=
    Outline.size_ofDocument _
  rw [hsize, size, h.outline, Outline.size_ofDocument, Markup.extent_append]
  exact Nat.le_add_right _ _

/-! ## Evaluations that agree -/

namespace Eval

variable {α β : Type} {g : Gap} {size : Nat}

/-- Outcomes of two evaluations: results that are related, given the number of entries that are
there then, and scenes with the gap between them, or the same error twice. -/
inductive Agree (g : Gap) (size : Nat) (R : Nat → α → α → Prop) :
    Except EvalError (α × Scene) → Except EvalError (α × Scene) → Prop
  | ok {a a' : α} {t t' : Scene} (ha : R t.size a a') (ht : t.Beside g t') (hle : size ≤ t.size) :
      Agree g size R (.ok (a, t)) (.ok (a', t'))
  | error (e : EvalError) : Agree g size R (.error e) (.error e)

/-- Two evaluations have such outcomes on any scenes with the gap between them, if there are enough
entries. -/
def Mirrors (g : Gap) (size : Nat) (R : Nat → α → α → Prop) (m m' : Eval α) : Prop :=
  ∀ s s' : Scene, s.Beside g s' → size ≤ s.size → Agree g s.size R (m.run s) (m'.run s')

theorem Agree.mono {R : Nat → α → α → Prop} {size' : Nat} {r r' : Except EvalError (α × Scene)}
    (h : Agree g size R r r') (hle : size' ≤ size) : Agree g size' R r r' := by
  cases h with
  | ok ha ht h => exact .ok ha ht (Nat.le_trans hle h)
  | error e => exact .error e

namespace Mirrors

variable {R : Nat → α → α → Prop} {S : Nat → β → β → Prop} {m m' : Eval α}

theorem mono {size' : Nat} (h : Mirrors g size R m m') (hle : size ≤ size') :
    Mirrors g size' R m m' :=
  fun s s' hs hs' => h s s' hs (Nat.le_trans hle hs')

theorem pure {a a' : α} (h : ∀ k, size ≤ k → R k a a') : Mirrors g size R (pure a) (pure a') :=
  fun _ _ hs hle => .ok (h _ hle) hs (Nat.le_refl _)

theorem throw (e : EvalError) : Mirrors g size R (throw e) (throw e) := fun _ _ _ _ => .error e

theorem bind {f f' : α → Eval β} (hm : Mirrors g size R m m')
    (hf : ∀ k a a', size ≤ k → R k a a' → Mirrors g k S (f a) (f' a')) :
    Mirrors g size S (m >>= f) (m' >>= f') := by
  intro s s' hs hle
  have hrun := hm s s' hs hle
  rw [StateT.run_bind, StateT.run_bind]
  revert hrun
  generalize m.run s = r
  generalize m'.run s' = r'
  rintro (⟨ha, ht, hle'⟩ | e)
  · exact (hf _ _ _ (Nat.le_trans hle hle') ha _ _ ht (Nat.le_refl _)).mono hle'
  · exact .error e

theorem ite {n n' : Eval α} {c : Prop} [Decidable c] (hm : Mirrors g size R m m')
    (hn : Mirrors g size R n n') :
    Mirrors g size R (if c then m else n) (if c then m' else n') := by
  split
  · exact hm
  · exact hn

theorem throw_bind {f f' : α → Eval β} (e : EvalError) :
    Mirrors g size S ((MonadExcept.throw e : Eval α) >>= f)
      ((MonadExcept.throw e : Eval α) >>= f') :=
  fun _ _ _ _ => .error e

end Mirrors

theorem mirrors_get : Mirrors g size (fun k s s' => s.Beside g s' ∧ s.size = k) get get :=
  fun _ _ hs _ => .ok ⟨hs, rfl⟩ hs (Nat.le_refl _)

theorem mirrors_getOutline :
    Mirrors g size (fun k o o' => o.Beside g o' ∧ o.entries.size = k) getOutline getOutline :=
  fun _ _ hs _ => .ok ⟨hs.outlines, rfl⟩ hs (Nat.le_refl _)

theorem mirrors_orUnfit {R : Nat → α → α → Prop} {f : α → α} {v : Option α}
    (h : ∀ a, v = some a → ∀ k, size ≤ k → R k a (f a)) :
    Mirrors g size R (orUnfit v) (orUnfit (v.map f)) := by
  cases v with
  | none => exact .throw .unfit
  | some a => exact .pure (h a rfl)

/-- What neither reads nor changes a scene. -/
theorem mirrors_resolve (q : Option String) :
    Mirrors g size (fun _ a a' => a = a') (resolve q) (resolve q) := by
  cases q with
  | none => exact .pure fun _ _ => rfl
  | some q =>
      rw [resolve]
      cases qualifiers.lookup q with
      | none => exact .throw_bind .unfit
      | some space => exact .pure fun _ _ => rfl

end Eval

/-! ## Values -/

open Eval (Mirrors)

/-- Two lists of the same nodes, which are there. -/
def Node.Twins (g : Gap) (size : Nat) (ns ns' : List Node) : Prop :=
  ns' = ns.map (·.move g) ∧ ∀ n ∈ ns, n.Within size

/-- The same value twice. -/
def Value.Twin (g : Gap) (size : Nat) (v v' : Value) : Prop := v' = v.move g ∧ v.Within size

section
variable {g : Gap} {size : Nat}

theorem Node.Twins.mono {size' : Nat} {ns ns' : List Node} (h : Node.Twins g size ns ns')
    (hle : size ≤ size') : Node.Twins g size' ns ns' := ⟨h.1, fun n hn => (h.2 n hn).mono hle⟩

theorem mirrors_nodesOf {v v' : Value} (h : v.Twin g size v') :
    Mirrors g size (Node.Twins g) (nodesOf v) (nodesOf v') := by
  obtain ⟨rfl, hv⟩ := h
  cases v with
  | nodes ns => exact .pure fun k hle => ⟨rfl, fun n hn => (hv n hn).mono hle⟩
  | _ => exact .throw .unfit

theorem twin_operate (o : Outline) (op : Operator) (v w : Value) :
    (operate o op v w).Twin g size (operate o op v w) := by
  unfold operate
  split_ifs
  all_goals exact ⟨rfl, trivial⟩

/-! ## Functions on regular expressions -/

theorem mirrors_matchNodes (texts : List String) :
    Mirrors g size (Value.Twin g) (matchNodes texts) (matchNodes texts) := by
  unfold matchNodes
  split
  · exact .pure fun k _ => ⟨rfl, by simp [Value.Within]⟩
  · intro s s' hs hle
    have ht := hs.addTree (matchTree texts) (proper_matchTree texts) (.single ..)
    have hstart : s'.outline.entries.size = g.place s.outline.entries.size := by
      rw [hs.outlines.size, Gap.place_of_le hs.outlines.base_le]
    refine .ok ⟨?_, fun n hn => ?_⟩ ht (hs.size_le_addTree ..)
    · rw [Value.move_nodes, hstart, ht.outlines.children_place, Node.map_entry_place]
    · obtain ⟨j, hj, rfl⟩ := List.mem_map.mp hn
      intro i hi
      obtain rfl : j = i := Option.some.inj hi
      exact Outline.lt_size_of_mem_children hj

theorem mirrors_readPattern (text flags : String) :
    Mirrors g size (fun _ p p' => p = p') (readPattern text flags) (readPattern text flags) := by
  unfold readPattern
  split
  · exact .pure fun _ _ => rfl
  all_goals exact .throw _

theorem mirrors_callPattern (name : String) (args : List Value) :
    Mirrors g size (Value.Twin g) (callPattern name args)
      (callPattern name (args.map (·.move g))) := by
  refine Eval.mirrors_getOutline.bind fun k o o' hle ⟨ho, _⟩ => ?_
  have htexts : (args.map (·.move g)).map (patternText o') = args.map (patternText o) := by
    rw [List.map_map]
    congr 1
    funext v
    exact patternText_move ho v
  rw [htexts, List.length_map]
  split
  case h_1 =>
    refine .ite (.throw_bind _) ?_
    refine (mirrors_readPattern _ _).bind ?_
    rintro k p _ _ rfl
    exact .pure fun _ _ => ⟨rfl, trivial⟩
  case h_2 =>
    refine .ite (.throw_bind _) ?_
    refine (mirrors_readPattern _ _).bind ?_
    rintro k p _ _ rfl
    exact mirrors_matchNodes _
  case h_3 =>
    refine (mirrors_readPattern _ _).bind ?_
    rintro k p _ _ rfl
    split
    · exact .pure fun _ _ => ⟨rfl, trivial⟩
    · exact .throw _
    · exact .throw _
  all_goals exact .throw _

theorem mirrors_callNamed (focus : Focus) (qualifier : Option String) (name : String)
    (args : List Value) : Mirrors g size (Value.Twin g) (callNamed focus qualifier name args)
      (callNamed (focus.move g) qualifier name (args.map (·.move g))) := by
  refine (Eval.mirrors_resolve qualifier).bind ?_
  rintro k space _ _ rfl
  cases space with
  | some a => exact .ite (mirrors_callPattern name args) (.throw _)
  | none =>
      refine Eval.mirrors_get.bind fun k s s' hle ⟨hs, hk⟩ => ?_
      rw [callFunction_move hs.outlines, hs.language]
      refine Eval.mirrors_orUnfit fun v hv k' hk' => ⟨rfl, ?_⟩
      have hwithin := within_of_callFunction hv
      exact hwithin.mono (Nat.le_trans (Nat.le_of_eq hk) hk')

/-! ## Expressions -/

theorem mirrors_chosenBy {predicate : Focus → Eval Value}
    (h : ∀ focus k, size ≤ k → focus.node.Within k →
      Mirrors g k (Value.Twin g) (predicate focus) (predicate (focus.move g)))
    (n position : Nat) {ns : List Node} (hns : ∀ m ∈ ns, m.Within size) :
    Mirrors g size (Node.Twins g) (chosenBy predicate n position ns)
      (chosenBy predicate n position (ns.map (·.move g))) := by
  induction ns generalizing position size with
  | nil => exact .pure fun _ _ => ⟨rfl, by simp⟩
  | cons m ns ih =>
      rw [List.map_cons, chosenBy, chosenBy]
      have hm := hns m List.mem_cons_self
      refine (h ⟨m, some (position, n)⟩ size (Nat.le_refl _) hm).bind ?_
      rintro k v _ hk ⟨rfl, hv⟩
      refine (ih (fun focus k' hk' => h focus k' (Nat.le_trans hk hk'))
        (position + 1) fun l hl => ?_).bind ?_
      · exact (hns l (List.mem_cons_of_mem m hl)).mono hk
      · rintro k' rest _ hk' ⟨rfl, hrest⟩
        refine .pure fun k'' hk'' => ?_
        rw [Value.chooses_move]
        split
        · refine ⟨rfl, List.forall_mem_cons.mpr ⟨hm.mono (by omega), fun l hl => ?_⟩⟩
          exact (hrest l hl).mono hk''
        · exact ⟨rfl, fun l hl => (hrest l hl).mono hk''⟩

theorem mirrors_fromEach {step : Node → Eval (List Node)}
    (h : ∀ n k, size ≤ k → n.Within k → Mirrors g k (Node.Twins g) (step n) (step (n.move g)))
    {ns : List Node} (hns : ∀ n ∈ ns, n.Within size) :
    Mirrors g size (Node.Twins g) (fromEach step ns) (fromEach step (ns.map (·.move g))) := by
  induction ns generalizing size with
  | nil => exact .pure fun _ _ => ⟨rfl, by simp⟩
  | cons n ns ih =>
      rw [List.map_cons, fromEach, fromEach]
      refine (h n size (Nat.le_refl _) (hns n List.mem_cons_self)).bind ?_
      rintro k here _ hk ⟨rfl, hhere⟩
      refine (ih (fun m k' hk' => h m k' (Nat.le_trans hk hk')) fun m hm => ?_).bind ?_
      · exact (hns m (List.mem_cons_of_mem n hm)).mono hk
      · rintro k' rest _ hk' ⟨rfl, hrest⟩
        refine .pure fun k'' hk'' => ⟨(List.map_append).symm, List.forall_mem_append.mpr ⟨?_, ?_⟩⟩
        · exact fun m hm => (hhere m hm).mono (Nat.le_trans hk' hk'')
        · exact fun m hm => (hrest m hm).mono hk''

/-- The nodes to which a step leads before its predicates choose among them. -/
theorem twins_step {o o' : Outline} (h : o.Beside g o') (axis : Axis) (test : NodeTest)
    (space : Option String) {n : Node} (hn : n.Within o.entries.size) :
    Node.Twins g o.entries.size ((Node.along o axis n).filter (Node.passes o axis test space))
      ((Node.along o' axis (n.move g)).filter (Node.passes o' axis test space)) := by
  constructor
  · rw [Node.along_move h axis hn, List.filter_map]
    congr 2
    funext m
    exact Node.passes_move h axis test space m
  · intro m hm
    obtain ⟨hm, hp⟩ := List.mem_filter.mp hm
    exact Node.within_of_along hn hm hp

theorem Node.Twins.inOrder {ns ns' : List Node} (h : Node.Twins g size ns ns') :
    Node.Twins g size (Node.inOrder ns) (Node.inOrder ns') := by
  obtain ⟨rfl, hns⟩ := h
  exact ⟨Node.inOrder_move ns, fun n hn => hns n (Node.mem_inOrder.mp hn)⟩

theorem Node.Twins.append {ns ns' ms ms' : List Node} (hn : Node.Twins g size ns ns')
    (hm : Node.Twins g size ms ms') : Node.Twins g size (ns ++ ms) (ns' ++ ms') := by
  obtain ⟨rfl, hns⟩ := hn
  obtain ⟨rfl, hms⟩ := hm
  exact ⟨List.map_append.symm, List.forall_mem_append.mpr ⟨hns, hms⟩⟩

theorem Node.Twins.twin {ns ns' : List Node} (h : Node.Twins g size ns ns') :
    (Value.nodes ns).Twin g size (.nodes ns') := by
  obtain ⟨rfl, hns⟩ := h
  exact ⟨rfl, hns⟩

end

mutual

/-- The value of a selector behind a gap. -/
theorem mirrors_eval (g : Gap) : ∀ (e : XPath) (focus : Focus) (size : Nat),
    focus.node.Within size →
    Mirrors g size (Value.Twin g) (eval e focus) (eval e (focus.move g))
  | .text s, _, _, _ => .pure fun _ _ => ⟨rfl, trivial⟩
  | .number x, _, _, _ => .pure fun _ _ => ⟨rfl, trivial⟩
  | .variableValue .., _, _, _ => .throw _
  | .call qualifier name args, focus, size, hf => by
      unfold eval
      refine (mirrors_evalAll g args focus size hf).bind ?_
      rintro k vs _ _ rfl
      exact mirrors_callNamed focus qualifier name vs
  | .binary op left right, focus, size, hf => by
      unfold eval
      refine (mirrors_eval g left focus size hf).bind ?_
      rintro k a _ hk ⟨rfl, ha⟩
      have hright := mirrors_eval g right focus k (hf.mono hk)
      -- `or` and `and` ask for the truth of the right side only, and in the same way
      have htruth : Mirrors g k (Value.Twin g) (do return .boolean (← eval right focus).truth)
          (do return .boolean (← eval right (focus.move g)).truth) := by
        refine hright.bind ?_
        rintro k' b _ _ ⟨rfl, _⟩
        rw [Value.truth_move]
        exact .pure fun _ _ => ⟨rfl, trivial⟩
      rw [Value.truth_move]
      split
      · exact .ite (.pure fun _ _ => ⟨rfl, trivial⟩) htruth
      · exact .ite htruth (.pure fun _ _ => ⟨rfl, trivial⟩)
      · refine (mirrors_nodesOf ⟨rfl, ha⟩).bind fun k₁ ns ns' hk₁ hns => ?_
        refine (hright.mono hk₁).bind fun k₂ b b' hk₂ hb => ?_
        refine (mirrors_nodesOf hb).bind fun k₃ ms ms' hk₃ hms => ?_
        have hboth := (hns.mono (Nat.le_trans hk₂ hk₃)).append hms
        exact .pure fun k' hk' => (hboth.inOrder.mono hk').twin
      · refine hright.bind ?_
        rintro k' b _ _ ⟨rfl, _⟩
        refine Eval.mirrors_getOutline.bind fun k' o o' _ ⟨ho, _⟩ => ?_
        rw [operate_move ho]
        exact .pure fun _ _ => twin_operate o op a b
  | .negate e, focus, size, hf => by
      unfold eval
      refine (mirrors_eval g e focus size hf).bind ?_
      rintro k v _ _ ⟨rfl, _⟩
      refine Eval.mirrors_getOutline.bind fun k' o o' _ ⟨ho, _⟩ => ?_
      rw [Value.toNumber_move ho]
      exact .pure fun _ _ => ⟨rfl, trivial⟩
  | .root, _, _, _ => .pure fun _ _ => ⟨rfl, by simp [Value.Within, Node.Within, Node.owner?]⟩
  | .context, focus, size, hf => .pure fun k hk =>
      ⟨rfl, fun n hn => (List.mem_singleton.mp hn) ▸ hf.mono hk⟩
  | .step input axis test predicates, focus, size, hf => by
      unfold eval
      refine (mirrors_eval g input focus size hf).bind fun k v v' _ hv => ?_
      refine (mirrors_nodesOf hv).bind ?_
      rintro k ns _ _ ⟨rfl, hns⟩
      refine (Eval.mirrors_resolve _).bind ?_
      rintro k' space _ hk' rfl
      -- the predicates of one node may add trees, so the nodes behind it are within a larger
      -- document
      refine (mirrors_fromEach (fun n k hk hn => ?_) fun n hn => (hns n hn).mono hk').bind ?_
      · refine Eval.mirrors_getOutline.bind fun k' o o' hk' ⟨ho, hsize⟩ => ?_
        have hstep := twins_step ho axis test space (hn.mono (hsize ▸ hk'))
        exact mirrors_choose g predicates (hsize ▸ hstep)
      · intro k found found' _ hfound
        exact .pure fun k' hk' => (hfound.inOrder.mono hk').twin
  | .filter input predicate, focus, size, hf => by
      unfold eval
      refine (mirrors_eval g input focus size hf).bind fun k v v' _ hv => ?_
      refine (mirrors_nodesOf hv).bind ?_
      rintro k ns _ _ ⟨rfl, hns⟩
      rw [List.length_map]
      refine (mirrors_chosenBy
        (fun focus k _ => mirrors_eval g predicate focus k) ns.length 1 hns).bind ?_
      intro k ms ms' _ hms
      exact .pure fun k' hk' => (hms.mono hk').twin

theorem mirrors_evalAll (g : Gap) : ∀ (es : List XPath) (focus : Focus) (size : Nat),
    focus.node.Within size →
    Mirrors g size (fun _ vs vs' => vs' = vs.map (·.move g)) (evalAll es focus)
      (evalAll es (focus.move g))
  | [], _, _, _ => .pure fun _ _ => rfl
  | e :: es, focus, size, hf => by
      unfold evalAll
      refine (mirrors_eval g e focus size hf).bind ?_
      rintro k v _ hk ⟨rfl, _⟩
      refine (mirrors_evalAll g es focus k (hf.mono hk)).bind ?_
      rintro k' vs _ _ rfl
      exact .pure fun _ _ => rfl

theorem mirrors_choose (g : Gap) : ∀ (ps : List XPath) {size : Nat} {ns ns' : List Node},
    Node.Twins g size ns ns' → Mirrors g size (Node.Twins g) (choose ps ns) (choose ps ns')
  | [], _, _, _, h => .pure fun k hk => h.mono hk
  | p :: ps, size, ns, ns', h => by
      obtain ⟨rfl, hns⟩ := h
      unfold choose
      rw [List.length_map]
      refine (mirrors_chosenBy (fun focus k _ => mirrors_eval g p focus k) ns.length 1 hns).bind ?_
      exact fun k ms ms' _ hms => mirrors_choose g ps hms

end

end Harvest.XPath
