import Harvest.Proofs.Extract.Run
import Harvest.Proofs.XPath.Steady

/-!
# How extractions fail

Where transformations and selectors fail by faults of the schema alone, there is one other way for
an extraction to fail: a selector is evaluated at a node that is no element.
-/

namespace Harvest

open Markup (Document Label Language Source)

/-- A node of the document has a label, and no selector can be evaluated at it. -/
def Markup.Document.Misfit (d : Document) (i : Nat) (label : Label) : Prop :=
  label.isElement = false ∧ ∃ inner, d.find? i = some (label, inner)

/-- The transformations fail by faults of the schema alone. -/
def Registry.Calm (r : Registry) : Prop := ∀ name t, r.get? name = some t →
  ∀ value options e, t.run value options = .error e → ∃ s, e = .schema s

/-- Where the selector is evaluated at an element, it only fails as one that is unusable. -/
def Selector.Steady (s : Selector) : Prop := ∀ (d : Document) language context e,
  d.select language context s.query = .error (.eval e) → e = .unfit

def RuleHead.Steady (h : RuleHead) : Prop := h.selector.Steady ∧ ∀ s ∈ h.removeSelector, s.Steady

/-- All selectors of the schema are steady, at every depth. -/
def Schema.Steady (s : Schema) : Prop := ∀ r ∈ s.rules, r.head.Steady

/-- A chain fails where one of its transformations does. -/
theorem Registry.exists_apply_of_applyChain {r : Registry} {names : List String} {value : Json}
    {options : Members} {e : TransformError} (he : r.applyChain names value options = .error e) :
    ∃ name ∈ names, ∃ v, r.apply name v options = .error e := by
  induction names generalizing value with
  | nil => cases he
  | cons name names ih =>
      rw [Registry.applyChain] at he
      split at he
      case h_1 e' happly =>
        obtain rfl := Except.error.inj he
        exact ⟨name, List.mem_cons_self, value, happly⟩
      case h_2 => cases he
      case h_3 =>
        obtain ⟨n, hn, happly⟩ := ih he
        exact ⟨n, List.mem_cons_of_mem _ hn, happly⟩

theorem Registry.Calm.applyChain {r : Registry} (hr : r.Calm) {names : List String} {value : Json}
    {options : Members} {e : TransformError} (he : r.applyChain names value options = .error e) :
    ∃ s, e = .schema s := by
  obtain ⟨name, _, v, happly⟩ := Registry.exists_apply_of_applyChain he
  unfold Registry.apply at happly
  split at happly
  · exact ⟨_, (Except.error.inj happly).symm⟩
  · exact hr name _ ‹_› v options e happly

/-! ## Selectors at nodes that are no elements -/

theorem Markup.Document.select_eq_notElement {d : Document} {language : Language} {context : Nat}
    {query : XPath} {label : Label} :
    d.select language context query = .error (.notElement label) ↔ d.Misfit context label := by
  unfold select Misfit
  split
  case h_1 hfind =>
    rw [hfind]
    constructor
    · intro h
      dsimp only at h
      split at h <;> cases h
    · rintro ⟨hlabel, inner, h⟩
      cases h
      cases hlabel
  case h_2 l inner hno hfind =>
    rw [hfind]
    constructor
    · rintro ⟨⟩
      refine ⟨?_, inner, rfl⟩
      cases label with
      | element name attributes spaces => exact (hno name attributes spaces rfl).elim
      | _ => rfl
    · rintro ⟨_, _, h⟩
      cases h
      rfl
  case h_3 hfind =>
    rw [hfind]
    constructor
    · rintro ⟨⟩
    · rintro ⟨_, _, ⟨⟩⟩

theorem Selector.steady_of_isPlain {s : Selector} (h : s.query.isPlain = true) : s.Steady := by
  intro d language context e he
  unfold Document.select at he
  split at he
  · dsimp only at he
    split at he
    · cases he
    · rename_i e' hrun
      cases he
      exact XPath.steady_eval s.query _ h _ _ hrun
  · cases he
  · cases he

/-- Whether no selector of the rule calls a function on regular expressions. -/
def RuleHead.isPlain (h : RuleHead) : Bool :=
  h.selector.query.isPlain && h.removeSelector.all (·.query.isPlain)

def Schema.isPlain (s : Schema) : Bool := s.rules.all (·.head.isPlain)

theorem Schema.steady_of_isPlain {s : Schema} (h : s.isPlain = true) : s.Steady := by
  intro r hr
  have hplain := List.all_eq_true.mp h r hr
  rw [RuleHead.isPlain, Bool.and_eq_true, Option.all_eq_true] at hplain
  obtain ⟨hselector, hremove⟩ := hplain
  exact ⟨Selector.steady_of_isPlain hselector, fun s hs =>
    Selector.steady_of_isPlain (hremove s hs)⟩

namespace Extractor

variable {x : Extractor} {context : Nat} {selector : Selector} {head : RuleHead} {d : Document}
  {label : Label}

/-- A selector is refused at a node just if the node is no element. -/
theorem select_refused_iff : ((x.select context selector).run d).1 =
    .error (.notElement x.language label) ↔ d.Misfit context label := by
  have hiff : d.select x.language context selector.query = .error (.notElement label) ↔
      d.Misfit context label := Document.select_eq_notElement
  rw [← hiff]
  cases h : d.select x.language context selector.query with
  | ok p =>
      rw [run_select h]
      constructor <;> rintro ⟨⟩
  | error e =>
      rw [run_select_of_error h]
      cases e with
      | notElement l =>
          constructor
          · rintro ⟨⟩
            rfl
          · rintro ⟨⟩
            rfl
      | eval e =>
          constructor
          · cases e <;> rintro ⟨⟩
          · rintro ⟨⟩

/-! ## The errors of an extraction -/

/-- The errors of calm transformations and steady selectors. -/
def Foreseen (x : Extractor) (e : ExtractError) : Prop :=
  (∃ s, e = .schema s) ∨ ∃ label, label.isElement = false ∧ e = .notElement x.language label

theorem leafValue_errs (x : Extractor) (head : RuleHead) (m : Match) :
    (x.leafValue head m).Errs fun e => ∃ text reason,
      x.registry.applyChain head.transform.names text head.options = .error reason ∧
        e = .transform reason := by
  intro d e he
  rcases Extraction.run_bind_eq_error.mp he with h | ⟨d₁, d₂, _, h⟩
  · cases h
  · dsimp only at h
    split at h
    · cases h
    · cases h
    · rename_i reason hchain
      obtain rfl := Except.error.inj h
      exact ⟨_, reason, hchain, rfl⟩

theorem leafValue_errs_calm (hr : x.registry.Calm) (head : RuleHead) (m : Match) :
    (x.leafValue head m).Errs fun e => ∃ s, e = .schema s := by
  intro d e he
  obtain ⟨text, reason, hchain, rfl⟩ := leafValue_errs x head m d e he
  obtain ⟨s, rfl⟩ := hr.applyChain hchain
  exact ⟨s, rfl⟩

theorem select_errs (hs : selector.Steady) : (x.select context selector).Errs x.Foreseen := by
  intro d e he
  obtain ⟨e', h, rfl⟩ := error_of_select he
  cases e' with
  | notElement label => exact Or.inr ⟨label, (Document.select_eq_notElement.mp h).1, rfl⟩
  | eval e' =>
      obtain rfl := hs d x.language context e' h
      exact Or.inl ⟨_, rfl⟩

theorem walk_errs (hr : x.registry.Calm) (s : Schema) (hs : s.Steady) (context : Nat) :
    (walk x context s).Errs x.Foreseen := by
  refine errs_walk x s (fun r hrule => ?_) context
  obtain ⟨hselector, hremove⟩ := hs r hrule
  refine ⟨fun _ => select_errs hselector, fun q hq _ => select_errs (hremove q hq), fun m => ?_⟩
  exact fun d e he => Or.inl (leafValue_errs_calm hr r.head m d e he)

theorem extract_of_parse {s : Schema} {source : Source}
    (hchecked : s.checkTransformations x.registry = .ok ())
    (hparse : source.parse x.language = .ok d) :
    ∃ root, d.root? = some root ∧ x.extract s source = ((walk x root s).run d).1 := by
  obtain ⟨root, hroot⟩ : ∃ root, d.root? = some root := by
    unfold Source.parse Source.parseWith Source.written at hparse
    dsimp only at hparse
    split at hparse
    · cases hparse
    · split at hparse
      · obtain rfl := Except.ok.inj hparse
        exact ⟨_, ‹_›⟩
      · cases hparse
  refine ⟨root, hroot, ?_⟩
  rw [extract_eq, hchecked]
  dsimp only
  rw [hparse]
  dsimp only
  rw [extractFrom, hroot]

end Extractor

end Harvest
