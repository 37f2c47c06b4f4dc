import Harvest.Proofs.Prune

/-!
# Runs of extractions

An extraction that runs in two parts succeeds if both parts do, and fails if one of them does.  From
this follow what holds of every result and of every error of an extraction, and when two extractions
run alike.
-/

namespace Harvest

open Markup (Document Source)

theorem toOption_eq_some_iff {ε α : Type} {r : Except ε α} {a : α} :
    r.toOption = some a ↔ r = .ok a := by
  cases r <;> simp [Except.toOption]

theorem eq_ok_of_toOption {ε α : Type} {r : Except ε α} {a : α} (h : r.toOption = some a) :
    r = .ok a :=
  toOption_eq_some_iff.mp h

namespace Extraction

variable {α β γ δ : Type} {m : Extraction α} {f : α → Extraction β} {d d₂ : Document} {b : β}

theorem run_bind_eq_ok : (m >>= f).run d = (.ok b, d₂) ↔
    ∃ a d₁, m.run d = (.ok a, d₁) ∧ (f a).run d₁ = (.ok b, d₂) := by
  rw [run_bind]
  constructor
  · intro h
    rcases hm : m.run d with ⟨e | a, d₁⟩
    · rw [hm] at h
      cases h
    · rw [hm] at h
      exact ⟨a, d₁, rfl, h⟩
  · rintro ⟨a, d₁, hm, h⟩
    rw [hm]
    exact h

/-- A run in two parts fails as the first one does, or else as the second one does. -/
theorem run_bind_eq_error {e : ExtractError} : ((m >>= f).run d).1 = .error e ↔
    (m.run d).1 = .error e ∨ ∃ a d₁, m.run d = (.ok a, d₁) ∧ ((f a).run d₁).1 = .error e := by
  rw [run_bind]
  rcases hm : m.run d with ⟨e' | a, d₁⟩
  · constructor
    · intro h
      exact Or.inl (congrArg _ (Except.error.inj h))
    · rintro (h | ⟨a, d₂, ha, _⟩)
      · exact congrArg _ (Except.error.inj h)
      · cases ha
  · constructor
    · intro h
      exact Or.inr ⟨a, d₁, rfl, h⟩
    · rintro (h | ⟨b, d₂, hb, h⟩)
      · cases h
      · cases hb
        exact h

/-- What only works on the result does not fail. -/
theorem run_bind_pure_eq_error {e : ExtractError} {g : α → β} :
    ((m >>= fun a => Pure.pure (g a)).run d).1 = .error e ↔ (m.run d).1 = .error e := by
  rw [run_bind_eq_error]
  constructor
  · rintro (h | ⟨_, _, _, h⟩)
    · exact h
    · cases h
  · exact Or.inl

/-! ## What holds of every result -/

/-- Where an extraction succeeds, its result has a property. -/
def Gives (m : Extraction α) (P : α → Prop) : Prop := ∀ d a d₁, m.run d = (.ok a, d₁) → P a

theorem Gives.pure {P : α → Prop} {a : α} (h : P a) : (pure a : Extraction α).Gives P := by
  intro d b d₁ hrun
  obtain ⟨hb, _⟩ := Prod.mk.inj hrun
  exact Except.ok.inj hb ▸ h

theorem Gives.throw {P : α → Prop} (e : ExtractError) : (throw e : Extraction α).Gives P := by
  intro d a d₁ hrun
  cases hrun

theorem Gives.bind {P : α → Prop} {Q : β → Prop} (hm : m.Gives P)
    (hf : ∀ a, P a → (f a).Gives Q) : (m >>= f).Gives Q := by
  intro d b d₂ hrun
  obtain ⟨a, d₁, ha, hb⟩ := run_bind_eq_ok.mp hrun
  exact hf a (hm d a d₁ ha) d₁ b d₂ hb

/-- The same where nothing is said about the first part. -/
theorem Gives.after {Q : β → Prop} (hf : ∀ a, (f a).Gives Q) : (m >>= f).Gives Q := by
  have hm : m.Gives fun _ => True := fun _ _ _ _ => trivial
  exact hm.bind fun a _ => hf a

/-! ## What holds of every error -/

/-- Where an extraction fails, its error has a property. -/
def Errs (m : Extraction α) (P : ExtractError → Prop) : Prop := ∀ d e, (m.run d).1 = .error e → P e

theorem Errs.pure {P : ExtractError → Prop} (a : α) : (pure a : Extraction α).Errs P := by
  intro d e he
  cases he

theorem Errs.bind {P : ExtractError → Prop} (hm : m.Errs P) (hf : ∀ a, (f a).Errs P) :
    (m >>= f).Errs P := by
  intro d e he
  rcases run_bind_eq_error.mp he with h | ⟨a, d₁, _, h⟩
  · exact hm d e h
  · exact hf a d₁ e h

/-! ## Two extractions side by side -/

/-- Two results that are related, or the same error twice. -/
inductive Related (R : α → β → Prop) : Except ExtractError α → Except ExtractError β → Prop
  | ok {a : α} {b : β} (h : R a b) : Related R (.ok a) (.ok b)
  | error (e : ExtractError) : Related R (.error e) (.error e)

/-- On every document two extractions give related results or the same error, and leave the same
document. -/
def Alike (R : α → β → Prop) (m : Extraction α) (n : Extraction β) : Prop :=
  ∀ d, (m.run d).2 = (n.run d).2 ∧ Related R (m.run d).1 (n.run d).1

theorem Alike.refl (m : Extraction α) : Alike (· = ·) m m := by
  intro d
  refine ⟨rfl, ?_⟩
  cases (m.run d).1 with
  | error e => exact .error e
  | ok a => exact .ok rfl

theorem Related.mono {R S : α → β → Prop} {r : Except ExtractError α} {r' : Except ExtractError β}
    (h : Related R r r') (hRS : ∀ a b, R a b → S a b) : Related S r r' := by
  cases h with
  | ok hab => exact .ok (hRS _ _ hab)
  | error e => exact .error e

theorem Related.eq {r r' : Except ExtractError α} (h : Related (· = ·) r r') : r = r' := by
  cases h with
  | ok hab => exact congrArg _ hab
  | error e => rfl

theorem Alike.mono {R S : α → β → Prop} {n : Extraction β} (h : Alike R m n)
    (hRS : ∀ a b, R a b → S a b) : Alike S m n := fun d => ⟨(h d).1, (h d).2.mono hRS⟩

theorem Alike.pure {R : α → β → Prop} {a : α} {b : β} (h : R a b) :
    Alike R (pure a) (pure b) := fun _ => ⟨rfl, .ok h⟩

theorem Alike.bind {R : α → β → Prop} {S : γ → δ → Prop} {n : Extraction β}
    {g : α → Extraction γ} {k : β → Extraction δ} (hm : Alike R m n)
    (hg : ∀ a b, R a b → Alike S (g a) (k b)) : Alike S (m >>= g) (n >>= k) := by
  intro d
  obtain ⟨hd, hr⟩ := hm d
  rw [run_bind, run_bind]
  rcases hrun : m.run d with ⟨r, d₁⟩
  rcases hrun' : n.run d with ⟨r', d₂⟩
  rw [hrun, hrun'] at hd hr
  obtain rfl : d₁ = d₂ := hd
  cases hr with
  | ok h => exact hg _ _ h d₁
  | error e => exact ⟨rfl, .error e⟩

/-- The same where both begin with the same part. -/
theorem Alike.after {S : γ → δ → Prop} {g : α → Extraction γ} {k : α → Extraction δ}
    (hg : ∀ a, Alike S (g a) (k a)) : Alike S (m >>= g) (m >>= k) := by
  refine (Alike.refl m).bind ?_
  rintro a _ rfl
  exact hg a

end Extraction

theorem Rule.mem_all (r : Rule) : r ∈ r.all := by
  cases r <;> exact List.mem_cons_self

namespace Extractor

/-- Takes out what a rule names of a match, where the scope asks for it. -/
def pruneMatch (x : Extractor) (head : RuleHead) : Match → Extraction Unit
  | .node id => x.pruneFor .eachMatch id head
  | _ => return ()

theorem gather_cons (x : Extractor) (head : RuleHead) (value : Match → Extraction (Option Json))
    (m : Match) (ms : List Match) : x.gather head value (m :: ms) = do
      x.pruneMatch head m
      let v ← value m
      let vs ← x.gather head value ms
      return v.toList ++ vs := by
  cases m <;> rfl

theorem walk_cons (x : Extractor) (context : Nat) (name : String) (rule : Rule)
    (rest : List (String × Rule)) : walk x context ((name, rule) :: rest) = do
      let v ← evaluate x context rule
      let more ← walk x context rest
      return (v.map (name, ·)).toList ++ more := by
  rw [walk]
  congr 1
  funext v
  cases v <;> rfl

/-- The value of a match by a rule, without what is taken away before. -/
def valueOf (x : Extractor) : Rule → Match → Extraction (Option Json)
  | .leaf head, m => x.leafValue head m
  | .nested _ fields, .node id => do return some (.map (← walk x id fields))
  | .nested .., _ => return none

theorem evaluate_eq (x : Extractor) (context : Nat) (rule : Rule) :
    evaluate x context rule = x.ruleValue context rule.head (x.valueOf rule) := by
  cases rule with
  | leaf head => rfl
  | nested head fields =>
      rw [evaluate]
      congr 1
      funext m
      cases m <;> rfl

/-! ## Errors of rules -/

/-- What is done at the nodes of a rule, its fields left out, only fails with errors of a
property. -/
structure HeadErrs (x : Extractor) (P : ExtractError → Prop) (head : RuleHead) : Prop where
  select : ∀ context, (x.select context head.selector).Errs P
  remove : ∀ selector ∈ head.removeSelector, ∀ context, (x.select context selector).Errs P
  leaf : ∀ m, (x.leafValue head m).Errs P

section

open Extraction (Errs)

variable {x : Extractor} {P : ExtractError → Prop} {head : RuleHead} {context : Nat}

theorem errs_pruneFor (h : x.HeadErrs P head) (scope : PruneScope) :
    (x.pruneFor scope context head).Errs P := by
  unfold pruneFor
  split
  · rename_i selector hselector
    split
    · -- the number of what is taken out is not used
      change (x.prune context selector >>= fun _ => pure ()).Errs P
      refine Errs.bind ?_ fun n => .pure ()
      refine (h.remove selector hselector context).bind fun found => ?_
      intro d e he
      cases he
    · exact .pure ()
  · exact .pure ()

theorem errs_pruneMatch (h : x.HeadErrs P head) (m : Match) : (x.pruneMatch head m).Errs P := by
  cases m with
  | node id => exact errs_pruneFor h _
  | _ => exact .pure ()

theorem errs_evaluate {rule : Rule} (h : x.HeadErrs P rule.head)
    (hvalue : ∀ m, (x.valueOf rule m).Errs P) (context : Nat) :
    (evaluate x context rule).Errs P := by
  have hgather : ∀ ms, (x.gather rule.head (x.valueOf rule) ms).Errs P := by
    intro ms
    induction ms with
    | nil => exact .pure []
    | cons m ms ih =>
        rw [gather_cons]
        refine (errs_pruneMatch h m).bind fun _ => (hvalue m).bind fun v => ?_
        exact ih.bind fun vs => .pure _
  rw [evaluate_eq, ruleValue]
  refine (errs_pruneFor h _).bind fun _ => (h.select context).bind fun found => ?_
  exact (hgather found).bind fun vs => .pure _

mutual

/-- If each rule of a schema only fails with errors of a property at its own nodes, then reading the
fields does so. -/
theorem errs_walk (x : Extractor) : ∀ (s : List (String × Rule)),
    (∀ r ∈ Rule.allOf s, x.HeadErrs P r.head) → ∀ context, (walk x context s).Errs P
  | [], _, _ => .pure []
  | (name, rule) :: rest, h, context => by
      have hrule : ∀ r ∈ rule.all, x.HeadErrs P r.head := fun r hr =>
        h r (List.mem_append_left _ hr)
      rw [walk_cons]
      refine (errs_evaluate (hrule rule rule.mem_all) (errs_valueOf x rule hrule) context).bind
        fun v => ?_
      refine (errs_walk x rest (fun r hr => h r (List.mem_append_right _ hr)) context).bind
        fun more => .pure _

theorem errs_valueOf (x : Extractor) : ∀ (rule : Rule),
    (∀ r ∈ rule.all, x.HeadErrs P r.head) → ∀ m, (x.valueOf rule m).Errs P
  | .leaf head, h, m => (h (.leaf head) List.mem_cons_self).leaf m
  | .nested head fields, h, m => by
      cases m with
      | node id =>
          have hfields : ∀ r ∈ Rule.allOf fields, x.HeadErrs P r.head := fun r hr =>
            h r (List.mem_cons_of_mem _ hr)
          exact (errs_walk x fields hfields id).bind fun ms => .pure _
      | _ => exact .pure none

end

end

theorem extract_eq (x : Extractor) (s : Schema) (source : Source) :
    x.extract s source = match s.checkTransformations x.registry with
      | .error e => .error (.schema e)
      | .ok _ => match source.parse x.language with
        | .error e => .error (.markup e)
        | .ok d => (x.extractFrom s d).1 := by
  rw [extract]
  cases s.checkTransformations x.registry with
  | error e => rfl
  | ok u => cases source.parse x.language <;> rfl

/-- A selector that can be read. -/
def readSelector (text : String) (h : (XPath.read? text).isSome = true) : Selector :=
  ⟨text, (XPath.read? text).get h, by simp⟩

end Extractor

end Harvest
