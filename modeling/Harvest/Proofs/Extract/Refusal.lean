import Harvest.Proofs.Extract.Failures

/-!
# Extractions that are refused

A node that is no element is not skipped where a selector has to be evaluated at it: the first one
that this comes to ends the extraction.
-/

namespace Harvest

open Markup (Document Label Language Source)

namespace Extractor

variable {x : Extractor} {context : Nat} {selector : Selector} {head : RuleHead} {d : Document}
  {label : Label} {scope : PruneScope}

theorem prune_refused_iff : ((x.prune context selector).run d).1 =
    .error (.notElement x.language label) ↔ d.Misfit context label := by
  rw [prune, Extraction.run_bind_eq_error, select_refused_iff]
  constructor
  · rintro (h | ⟨found, d₁, _, ⟨⟩⟩)
    exact h
  · exact Or.inl

/-- Whether a rule takes something away in a scope. -/
def removes (x : Extractor) (scope : PruneScope) (head : RuleHead) : Bool :=
  x.scope == scope && head.removeSelector.isSome

theorem pruneFor_refused_iff : ((x.pruneFor scope context head).run d).1 =
    .error (.notElement x.language label) ↔
      x.removes scope head = true ∧ d.Misfit context label := by
  unfold pruneFor removes
  cases head.removeSelector with
  | none =>
      constructor
      · rintro ⟨⟩
      · rintro ⟨h, _⟩
        simp at h
  | some selector =>
      by_cases hscope : x.scope = scope
      · simp only [if_pos hscope]
        change ((x.prune context selector >>= fun _ => pure ()).run d).1 = _ ↔ _
        rw [Extraction.run_bind_pure_eq_error, prune_refused_iff]
        simp [hscope]
      · simp only [if_neg hscope]
        constructor
        · rintro ⟨⟩
        · rintro ⟨h, _⟩
          simp [hscope] at h

theorem pruneMatch_refused_iff {m : Match} : ((x.pruneMatch head m).run d).1 =
    .error (.notElement x.language label) ↔
      ∃ id, m = .node id ∧ x.removes .eachMatch head = true ∧ d.Misfit id label := by
  cases m with
  | node id =>
      rw [pruneMatch, pruneFor_refused_iff]
      constructor
      · exact fun h => ⟨id, rfl, h⟩
      · rintro ⟨_, ⟨⟩, h⟩
        exact h
  | _ =>
      constructor
      · rintro ⟨⟩
      · rintro ⟨_, ⟨⟩, _⟩

/-! ## Where selectors are evaluated -/

mutual

/-- Reading the fields of a schema at a node of a document comes to a selector at a node, with the
document as it is by then. -/
inductive FieldsAsk (x : Extractor) : Nat → Schema → Document → Nat → Document → Prop
  | first {context i : Nat} {name : String} {rule : Rule} {rest : Schema} {d d' : Document}
      (h : RuleAsks x context rule d i d') : FieldsAsk x context ((name, rule) :: rest) d i d'
  | later {context i : Nat} {name : String} {rule : Rule} {rest : Schema} {d d₁ d' : Document}
      {v : Option Json} (hrun : (evaluate x context rule).run d = (.ok v, d₁))
      (h : FieldsAsk x context rest d₁ i d') : FieldsAsk x context ((name, rule) :: rest) d i d'

/-- The same for one rule: the selector of what it removes, its own, and those at its matches. -/
inductive RuleAsks (x : Extractor) : Nat → Rule → Document → Nat → Document → Prop
  | removal {context : Nat} {rule : Rule} {d : Document}
      (h : x.removes .context rule.head = true) : RuleAsks x context rule d context d
  | selector {context : Nat} {rule : Rule} {d d₁ : Document}
      (hprune : (x.pruneFor .context context rule.head).run d = (.ok (), d₁)) :
      RuleAsks x context rule d context d₁
  | found {context i : Nat} {rule : Rule} {d d₁ d₂ d' : Document} {found : List Match}
      (hprune : (x.pruneFor .context context rule.head).run d = (.ok (), d₁))
      (hselect : (x.select context rule.head.selector).run d₁ = (.ok found, d₂))
      (h : MatchesAsk x rule found d₂ i d') : RuleAsks x context rule d i d'

/-- The same for the matches of a rule, one after the other. -/
inductive MatchesAsk (x : Extractor) : Rule → List Match → Document → Nat → Document → Prop
  | removal {id : Nat} {rule : Rule} {ms : List Match} {d : Document}
      (h : x.removes .eachMatch rule.head = true) : MatchesAsk x rule (.node id :: ms) d id d
  | fields {id i : Nat} {head : RuleHead} {fields : Schema} {ms : List Match} {d d₁ d' : Document}
      (hprune : (x.pruneFor .eachMatch id head).run d = (.ok (), d₁))
      (h : FieldsAsk x id fields d₁ i d') :
      MatchesAsk x (.nested head fields) (.node id :: ms) d i d'
  | later {i : Nat} {rule : Rule} {m : Match} {ms : List Match} {d d₁ d₂ d' : Document}
      {v : Option Json} (hprune : (x.pruneMatch rule.head m).run d = (.ok (), d₁))
      (hvalue : (x.valueOf rule m).run d₁ = (.ok v, d₂)) (h : MatchesAsk x rule ms d₂ i d') :
      MatchesAsk x rule (m :: ms) d i d'

end

/-- Reading a value at a match by a rule comes to a selector at a node. -/
def ValueAsks (x : Extractor) : Rule → Match → Document → Nat → Document → Prop
  | .nested _ fields, .node id, d, i, d' => FieldsAsk x id fields d i d'
  | _, _, _, _, _ => False

theorem MatchesAsk.of_value {rule : Rule} {m : Match} {ms : List Match} {d d₁ d' : Document}
    {i : Nat} (hprune : (x.pruneMatch rule.head m).run d = (.ok (), d₁))
    (h : ValueAsks x rule m d₁ i d') : MatchesAsk x rule (m :: ms) d i d' := by
  cases rule with
  | leaf head => exact h.elim
  | nested head fields =>
      cases m with
      | node id => exact .fields hprune h
      | _ => exact h.elim

theorem gather_refused_iff {rule : Rule}
    (hvalue : ∀ m d, ((x.valueOf rule m).run d).1 = .error (.notElement x.language label) ↔
      ∃ i d', ValueAsks x rule m d i d' ∧ d'.Misfit i label) (ms : List Match) (d : Document) :
    ((x.gather rule.head (x.valueOf rule) ms).run d).1 = .error (.notElement x.language label) ↔
      ∃ i d', MatchesAsk x rule ms d i d' ∧ d'.Misfit i label := by
  induction ms generalizing d with
  | nil =>
      constructor
      · rintro ⟨⟩
      · rintro ⟨_, _, ⟨⟩, _⟩
  | cons m ms ih =>
      -- what is taken out of the match comes first, then its value, then the other matches
      rw [gather_cons, Extraction.run_bind_eq_error, pruneMatch_refused_iff]
      simp only [Extraction.run_bind_eq_error (m := x.valueOf rule m),
        Extraction.run_bind_pure_eq_error, hvalue, ih]
      constructor
      · rintro (⟨id, rfl, hremoves, hmisfit⟩ | ⟨_, d₁, hprune, h⟩)
        · exact ⟨id, d, .removal hremoves, hmisfit⟩
        · rcases h with ⟨i, d', hask, hmisfit⟩ | ⟨v, d₂, hv, i, d', hask, hmisfit⟩
          · exact ⟨i, d', .of_value hprune hask, hmisfit⟩
          · exact ⟨i, d', .later hprune hv hask, hmisfit⟩
      · rintro ⟨i, d', hask, hmisfit⟩
        cases hask with
        | removal h => exact Or.inl ⟨i, rfl, h, hmisfit⟩
        | fields hprune h => exact Or.inr ⟨(), _, hprune, Or.inl ⟨i, d', h, hmisfit⟩⟩
        | later hprune hv h => exact Or.inr ⟨(), _, hprune, Or.inr ⟨_, _, hv, i, d', h, hmisfit⟩⟩

theorem evaluate_refused_iff {rule : Rule}
    (hvalue : ∀ m d, ((x.valueOf rule m).run d).1 = .error (.notElement x.language label) ↔
      ∃ i d', ValueAsks x rule m d i d' ∧ d'.Misfit i label) (context : Nat) (d : Document) :
    ((evaluate x context rule).run d).1 = .error (.notElement x.language label) ↔
      ∃ i d', RuleAsks x context rule d i d' ∧ d'.Misfit i label := by
  rw [evaluate_eq, ruleValue, Extraction.run_bind_eq_error, pruneFor_refused_iff]
  simp only [Extraction.run_bind_eq_error (m := x.select context rule.head.selector),
    Extraction.run_bind_pure_eq_error, select_refused_iff, gather_refused_iff hvalue]
  constructor
  · rintro (⟨hremoves, hmisfit⟩ | ⟨_, d₁, hprune, h⟩)
    · exact ⟨context, d, .removal hremoves, hmisfit⟩
    · rcases h with hmisfit | ⟨found, d₂, hselect, i, d', hask, hmisfit⟩
      · exact ⟨context, d₁, .selector hprune, hmisfit⟩
      · exact ⟨i, d', .found hprune hselect hask, hmisfit⟩
  · rintro ⟨i, d', hask, hmisfit⟩
    cases hask with
    | removal h => exact Or.inl ⟨h, hmisfit⟩
    | selector hprune => exact Or.inr ⟨(), _, hprune, Or.inl hmisfit⟩
    | found hprune hselect h =>
        exact Or.inr ⟨(), _, hprune, Or.inr ⟨_, _, hselect, i, d', h, hmisfit⟩⟩

mutual

/-- Reading fields is refused just if it comes to a selector at a node that is no element. -/
theorem walk_refused_iff (x : Extractor) (label : Label) :
    ∀ (s : List (String × Rule)) (context : Nat) (d : Document),
      ((walk x context s).run d).1 = .error (.notElement x.language label) ↔
      ∃ i d', FieldsAsk x context s d i d' ∧ d'.Misfit i label
  | [], context, d => by
      constructor
      · rintro ⟨⟩
      · rintro ⟨_, _, ⟨⟩, _⟩
  | (name, rule) :: rest, context, d => by
      rw [walk_cons, Extraction.run_bind_eq_error,
        evaluate_refused_iff (valueOf_refused_iff x label rule)]
      simp only [Extraction.run_bind_pure_eq_error, walk_refused_iff x label rest]
      constructor
      · rintro (⟨i, d', hask, hmisfit⟩ | ⟨v, d₁, hrun, i, d', hask, hmisfit⟩)
        · exact ⟨i, d', .first hask, hmisfit⟩
        · exact ⟨i, d', .later hrun hask, hmisfit⟩
      · rintro ⟨i, d', hask, hmisfit⟩
        cases hask with
        | first h => exact Or.inl ⟨i, d', h, hmisfit⟩
        | later hrun h => exact Or.inr ⟨_, _, hrun, i, d', h, hmisfit⟩

theorem valueOf_refused_iff (x : Extractor) (label : Label) : ∀ (rule : Rule) (m : Match)
    (d : Document), ((x.valueOf rule m).run d).1 = .error (.notElement x.language label) ↔
      ∃ i d', ValueAsks x rule m d i d' ∧ d'.Misfit i label
  | .leaf head, m, d => by
      -- no selector is evaluated at the match of a leaf
      constructor
      · intro h
        obtain ⟨_, _, _, ⟨⟩⟩ := leafValue_errs x head m d _ h
      · rintro ⟨_, _, ⟨⟩, _⟩
  | .nested head fields, m, d => by
      cases m with
      | node id =>
          rw [valueOf, Extraction.run_bind_pure_eq_error, walk_refused_iff x label fields]
          rfl
      | _ =>
          constructor
          · rintro ⟨⟩
          · rintro ⟨_, _, ⟨⟩, _⟩

end

/-- Where transformations and selectors fail by faults of the schema alone, the extraction of a
document gives fields, or fails by a fault of the schema, or is refused at a node that is no
element.  It is refused just if reading the fields of the root comes to a selector at such a
node. -/
theorem extract_refused_iff {s : Schema} {source : Source} (hr : x.registry.Calm)
    (hs : Schema.Steady s) (hchecked : s.checkTransformations x.registry = .ok ())
    (hparse : source.parse x.language = .ok d) :
    ((∃ ms, x.extract s source = .ok ms) ∨ (∃ e, x.extract s source = .error (.schema e)) ∨
        ∃ label, label.isElement = false ∧
          x.extract s source = .error (.notElement x.language label)) ∧
      ∃ root, d.root? = some root ∧ ∀ label,
        x.extract s source = .error (.notElement x.language label) ↔
          ∃ i d', FieldsAsk x root s d i d' ∧ d'.Misfit i label := by
  obtain ⟨root, hroot, hextract⟩ := extract_of_parse hchecked hparse
  rw [hextract]
  refine ⟨?_, root, hroot, fun label => walk_refused_iff x label s root d⟩
  cases hrun : ((walk x root s).run d).1 with
  | ok ms => exact Or.inl ⟨ms, rfl⟩
  | error e =>
      obtain ⟨reason, rfl⟩ | ⟨label, hlabel, rfl⟩ := walk_errs hr s hs root d e hrun
      · exact Or.inr (Or.inl ⟨reason, rfl⟩)
      · exact Or.inr (Or.inr ⟨label, hlabel, rfl⟩)

/-! ## A sample -/

/-- The comments of the paragraphs, with their text as a field. -/
def commentSchema : Json := .map [("comments", .map [("selector", .str "body/p/comment()"),
  ("fields", .map [("text", .str ".")])])]

/-- A paragraph with a comment. -/
def commented : Source := .text "<p><!--c-->x</p>"

/-- The extractor without transformations. -/
def bare : Extractor := { registry := ⟨[]⟩ }

theorem calm_bare : bare.registry.Calm := by
  rintro name t ⟨⟩

/-- The node at which an extraction was refused. -/
def refusal? : Except ExtractError Members → Option (Language × Label)
  | .error (.notElement language label) => some (language, label)
  | _ => none

theorem eq_error_of_refusal? {r : Except ExtractError Members} {language : Language} {label : Label}
    (h : refusal? r = some (language, label)) : r = .error (.notElement language label) := by
  unfold refusal? at h
  split at h
  · obtain ⟨rfl, rfl⟩ := Prod.mk.inj (Option.some.inj h)
    rfl
  · cases h

theorem exists_commentSchema : ∃ s, Schema.compile commentSchema = .ok s ∧ s.isPlain = true ∧
    s.checkTransformations bare.registry = .ok () ∧ (∃ d, commented.parse .html = .ok d) ∧
    bare.extract s commented = .error (.notElement .html (.comment "c")) := by
  have hrun : ((Schema.compile commentSchema).toOption.map fun s =>
      (s.isPlain, (s.checkTransformations bare.registry).toOption,
        (commented.parse .html).toOption.isSome, refusal? (bare.extract s commented))) =
          some (true, some (), true, some (.html, .comment "c")) := by
    decide +kernel
  obtain ⟨s, hs, h⟩ := Option.map_eq_some_iff.mp hrun
  obtain ⟨hplain, hchecked, hparse, hextract⟩ : _ ∧ _ ∧ _ ∧ _ := by
    simpa only [Prod.mk.injEq] using h
  obtain ⟨d, hd⟩ := Option.isSome_iff_exists.mp hparse
  exact ⟨s, eq_ok_of_toOption hs, hplain, eq_ok_of_toOption hchecked, ⟨d, eq_ok_of_toOption hd⟩,
    eq_error_of_refusal? hextract⟩

theorem extract_refused_iff_sample : ∃ s d root, s.checkTransformations bare.registry = .ok () ∧
    Schema.Steady s ∧ commented.parse .html = .ok d ∧ d.root? = some root ∧
    ∃ i d', FieldsAsk bare root s d i d' ∧ d'.Misfit i (.comment "c") := by
  obtain ⟨s, _, hplain, hchecked, ⟨d, hparse⟩, hextract⟩ := exists_commentSchema
  have hsteady := Schema.steady_of_isPlain hplain
  obtain ⟨_, root, hroot, hiff⟩ := extract_refused_iff calm_bare hsteady hchecked hparse
  exact ⟨s, d, root, hchecked, hsteady, hparse, hroot, (hiff _).mp hextract⟩

/-- A comment that a rule with fields finds is not skipped, but ends the extraction with an error
that is no fault of the schema. -/
theorem extract_refuses_comment : ∃ s, Schema.compile commentSchema = .ok s ∧
    s.checkTransformations bare.registry = .ok () ∧ bare.registry.Calm ∧ Schema.Steady s ∧
    (∃ d, commented.parse .html = .ok d) ∧
    ¬ ((∃ ms, bare.extract s commented = .ok ms) ∨
      ∃ e, bare.extract s commented = .error (.schema e)) := by
  obtain ⟨s, hcompile, hplain, hchecked, hparse, hextract⟩ := exists_commentSchema
  refine ⟨s, hcompile, hchecked, calm_bare, Schema.steady_of_isPlain hplain, hparse, ?_⟩
  rw [hextract]
  rintro (⟨ms, ⟨⟩⟩ | ⟨e, ⟨⟩⟩)

end Extractor

end Harvest
