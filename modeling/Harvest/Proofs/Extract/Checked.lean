import Harvest.Proofs.Extract.Failures

/-!
# Transformations that are checked first

Before a schema is read against a document, its names of transformations are looked up and the
formats of its dates are read.  The first one that cannot be used is the error, and the document
stays as it is; where all of them can be used, no rule comes upon such an error later, unless a
transformation from outside of the library gives it.
-/

namespace Harvest

open Markup (Document Source)

/-- Whether the error is about a name without a transformation or about a format of dates. -/
def SchemaError.IsRefusal : SchemaError → Prop
  | unknownTransformation _ => True
  | unknownDateFormat _ => True
  | _ => False

/-- The format of dates that options ask for; `null` where they ask for none. -/
def Transformation.formatIn (options : Members) : Json := (options.get? "format").getD .null

namespace Registry

variable {r : Registry}

/-- A name that cannot be used with the options of its rule, and the error that says so. -/
inductive Refuses (r : Registry) : String × Members → SchemaError → Prop
  | unknown {name : String} {options : Members} (h : r.get? name = none) :
      Refuses r (name, options) (.unknownTransformation name)
  | dateFormat {name : String} {options : Members} (h : r.get? name = some .parseDate)
      (hformat : Transformation.isDateFormat (Transformation.formatIn options) = false) :
      Refuses r (name, options) (.unknownDateFormat (Transformation.formatIn options))

/-- The error of a name that cannot be used. -/
def refusal? (r : Registry) (use : String × Members) : Option SchemaError :=
  match r.get? use.1 with
  | none => some (.unknownTransformation use.1)
  | some t =>
    if t.isParseDate && !Transformation.isDateFormat (Transformation.formatIn use.2) then
      some (.unknownDateFormat (Transformation.formatIn use.2))
    else none

theorem refusal?_eq_some_iff {use : String × Members} {e : SchemaError} :
    r.refusal? use = some e ↔ r.Refuses use e := by
  obtain ⟨name, options⟩ := use
  unfold refusal?
  constructor
  · intro h
    split at h
    · rename_i hget
      obtain rfl := Option.some.inj h
      exact .unknown hget
    · rename_i t hget
      split at h
      · rename_i hbad
        obtain ⟨ht, hformat⟩ := Bool.and_eq_true_iff.mp hbad
        obtain rfl := Option.some.inj h
        cases t with
        | parseDate => exact .dateFormat hget (Bool.not_eq_true' _ ▸ hformat)
        | _ => cases ht
      · cases h
  · intro h
    cases h with
    | unknown hget => simp only [hget]
    | dateFormat hget hformat => simp [hget, hformat, Transformation.isParseDate]

theorem refusal?_eq_none_iff {use : String × Members} :
    r.refusal? use = none ↔ ∀ e, ¬ r.Refuses use e := by
  rw [Option.eq_none_iff_forall_ne_some]
  exact forall_congr' fun e => not_congr refusal?_eq_some_iff

/-- A transformation from outside of the library, among those that rules name, gives the error for
some value and the options of its rule. -/
def Brings (r : Registry) (rules : List Rule) (e : SchemaError) : Prop :=
  ∃ rule ∈ rules, ∃ name ∈ rule.head.transform.names, ∃ f value,
    r.get? name = some (.custom f) ∧ f value rule.head.options = .error (.schema e)

end Registry

namespace Schema

variable {registry : Registry}

/-- The names of transformations in a schema, each with the options of its rule: in the order of the
rules, each in front of those below it, and within a rule in the order of its chain. -/
def usesIn (rules : List Rule) : List (String × Members) :=
  rules.flatMap fun rule => rule.head.transform.names.map (·, rule.head.options)

theorem usesIn_cons (rule : Rule) (rules : List Rule) : usesIn (rule :: rules) =
    rule.head.transform.names.map (·, rule.head.options) ++ usesIn rules :=
  List.flatMap_cons

theorem mem_usesIn {rules : List Rule} {name : String} {options : Members} :
    (name, options) ∈ usesIn rules ↔
      ∃ rule ∈ rules, name ∈ rule.head.transform.names ∧ rule.head.options = options := by
  simp only [usesIn, List.mem_flatMap, List.mem_map, Prod.mk.injEq]
  constructor
  · rintro ⟨rule, hrule, _, hname, rfl, hoptions⟩
    exact ⟨rule, hrule, hname, hoptions⟩
  · rintro ⟨rule, hrule, hname, hoptions⟩
    exact ⟨rule, hrule, name, hname, rfl, hoptions⟩

/-- The outcome of a check by the first error that it comes to. -/
def outcomeOf : Option SchemaError → Except SchemaError Unit
  | none => .ok ()
  | some e => .error e

theorem checkNames_eq (options : Members) (names : List String) :
    checkNames registry options names =
      outcomeOf ((names.map (·, options)).findSome? registry.refusal?) := by
  induction names with
  | nil => rfl
  | cons name names ih =>
      rw [checkNames, List.map_cons, List.findSome?_cons, Registry.refusal?]
      cases registry.get? name with
      | none => rfl
      | some t =>
          dsimp only
          rw [Transformation.checkDateFormat, ← Transformation.formatIn, ih]
          cases t.isParseDate <;>
            cases Transformation.isDateFormat (Transformation.formatIn options) <;> rfl

theorem checkRules_eq (rules : List Rule) :
    checkRules registry rules = outcomeOf ((usesIn rules).findSome? registry.refusal?) := by
  induction rules with
  | nil => rfl
  | cons rule rules ih =>
      rw [checkRules, checkNames_eq, ih, usesIn_cons, List.findSome?_append]
      cases (rule.head.transform.names.map (·, rule.head.options)).findSome?
        registry.refusal? <;> rfl

theorem checkTransformations_eq_ok_iff {s : Schema} :
    s.checkTransformations registry = .ok () ↔
      ∀ use ∈ usesIn s.rules, ∀ e, ¬ registry.Refuses use e := by
  rw [checkTransformations, checkRules_eq]
  have hiff : (usesIn s.rules).findSome? registry.refusal? = none ↔
      ∀ use ∈ usesIn s.rules, ∀ e, ¬ registry.Refuses use e := by
    simp only [List.findSome?_eq_none_iff, Registry.refusal?_eq_none_iff]
  rw [← hiff]
  cases (usesIn s.rules).findSome? registry.refusal? <;> simp [outcomeOf]

theorem checkTransformations_eq_error_iff {s : Schema} {e : SchemaError} :
    s.checkTransformations registry = .error e ↔ ∃ before use after,
      usesIn s.rules = before ++ use :: after ∧ (∀ u ∈ before, ∀ e', ¬ registry.Refuses u e') ∧
        registry.Refuses use e := by
  rw [checkTransformations, checkRules_eq]
  have hiff : (usesIn s.rules).findSome? registry.refusal? = some e ↔ ∃ before use after,
      usesIn s.rules = before ++ use :: after ∧ (∀ u ∈ before, ∀ e', ¬ registry.Refuses u e') ∧
        registry.Refuses use e := by
    simp only [List.findSome?_eq_some_iff, Registry.refusal?_eq_none_iff,
      Registry.refusal?_eq_some_iff, and_comm (a := registry.Refuses _ e)]
  rw [← hiff]
  cases (usesIn s.rules).findSome? registry.refusal? <;> simp [outcomeOf]

mutual

theorem all_subset_all : ∀ (q r : Rule), r ∈ q.all → r.all ⊆ q.all
  | .leaf head, r, h => by
      obtain rfl := List.mem_singleton.mp h
      exact List.Subset.refl _
  | .nested head fields, r, h => by
      obtain rfl | h := List.mem_cons.mp h
      · exact List.Subset.refl _
      · exact List.subset_cons_of_subset _ (all_subset_allOf fields r h)

/-- What stands below a rule of a schema is a rule of the schema too. -/
theorem all_subset_allOf : ∀ (s : List (String × Rule)) (r : Rule), r ∈ Rule.allOf s →
    r.all ⊆ Rule.allOf s
  | [], r, h => by cases h
  | (name, q) :: rest, r, h => by
      obtain h | h := List.mem_append.mp h
      · exact List.subset_append_of_subset_left _ (all_subset_all q r h)
      · exact List.subset_append_of_subset_right _ (all_subset_allOf rest r h)

end

end Schema

/-- A transformation of the library only fails by a fault of the schema where its format of dates
means nothing. -/
theorem Transformation.run_eq_schema_error {t : Transformation} {value : Json} {options : Members}
    {e : SchemaError} (h : t.run value options = .error (.schema e)) :
    (∃ f, t = .custom f ∧ f value options = .error (.schema e)) ∨
      t = .parseDate ∧ isDateFormat (formatIn options) = false := by
  cases t with
  | trim => cases h
  | collapseBlanks => cases h
  | custom f => exact Or.inl ⟨f, rfl, h⟩
  | parseDate =>
      refine Or.inr ⟨rfl, ?_⟩
      rw [run, readDate] at h
      split at h
      · cases h
      · cases h
      · -- the format is read only where there is a date to write
        rw [writeDate, checkDateFormat, ← formatIn] at h
        cases hformat : isDateFormat (formatIn options) with
        | false => rfl
        | true =>
            rw [hformat, if_pos rfl] at h
            cases h

namespace Extractor

open Schema (usesIn)

variable {x : Extractor} {selector : Selector}

theorem select_no_refusal (context : Nat) (selector : Selector) :
    (x.select context selector).Errs fun e =>
      ∀ reason, e = .schema reason → ¬ reason.IsRefusal := by
  rintro d e he reason rfl
  obtain ⟨e', _, he⟩ := error_of_select he
  cases e' with
  | notElement label => cases he
  | eval e' =>
      cases e' with
      | unfit =>
          cases he
          exact id
      | _ => cases he

theorem leafValue_brings {rule : Rule} (m : Match)
    (hrule : ∀ use ∈ usesIn [rule], ∀ e, ¬ x.registry.Refuses use e) :
    (x.leafValue rule.head m).Errs fun e => ∀ reason, e = .schema reason → reason.IsRefusal →
      x.registry.Brings [rule] reason := by
  rintro d e he reason rfl hreason
  obtain ⟨text, e, hchain, heq⟩ := leafValue_errs x rule.head m d _ he
  obtain rfl := ExtractError.transform.inj heq
  obtain ⟨name, hname, value, happly⟩ := Registry.exists_apply_of_applyChain hchain
  have hpassed := hrule (name, rule.head.options)
    (Schema.mem_usesIn.mpr ⟨rule, List.mem_singleton_self rule, hname, rfl⟩)
  unfold Registry.apply at happly
  split at happly
  · rename_i hget
    exact (hpassed _ (.unknown hget)).elim
  · rename_i t hget
    obtain ⟨f, rfl, hf⟩ | ⟨rfl, hformat⟩ := Transformation.run_eq_schema_error happly
    · exact ⟨rule, List.mem_singleton_self rule, name, hname, f, value, hget, hf⟩
    · exact (hpassed _ (.dateFormat hget hformat)).elim

theorem headErrs_brings (x : Extractor) (rule : Rule) {rules : List Rule} (hmem : rule ∈ rules)
    (hrules : ∀ use ∈ usesIn rules, ∀ e, ¬ x.registry.Refuses use e) :
    x.HeadErrs (fun e => ∀ reason, e = .schema reason → reason.IsRefusal →
      x.registry.Brings rules reason) rule.head := by
  refine ⟨fun context d e he => ?_, fun s _ context d e he => ?_, fun m d e he => ?_⟩
  · exact fun reason heq hreason =>
      (select_no_refusal context rule.head.selector d e he reason heq hreason).elim
  · exact fun reason heq hreason => (select_no_refusal context s d e he reason heq hreason).elim
  · have hrule : ∀ use ∈ usesIn [rule], ∀ e, ¬ x.registry.Refuses use e := by
      rintro ⟨name, options⟩ huse
      obtain ⟨q, hq, hname⟩ := Schema.mem_usesIn.mp huse
      obtain rfl := List.mem_singleton.mp hq
      exact hrules _ (Schema.mem_usesIn.mpr ⟨q, hmem, hname⟩)
    intro reason heq hreason
    obtain ⟨q, hq, hbrings⟩ := leafValue_brings m hrule d e he reason heq hreason
    obtain rfl := List.mem_singleton.mp hq
    exact ⟨q, hmem, hbrings⟩

/-- The check refuses a schema just if one of its rules, at any depth, names a transformation that
is not there, or names the one of dates while the format of its options means nothing; the error is
that of the first such name.  Extraction then gives this error and leaves the document as it is.
Where the check passes, no rule comes upon such an error at any node of any document, but for one
that a transformation from outside of the library gives. -/
theorem checkTransformations_exact (x : Extractor) (s : Schema) :
    (∀ e, s.checkTransformations x.registry = .error e ↔ ∃ before use after,
        usesIn s.rules = before ++ use :: after ∧ (∀ u ∈ before, ∀ e', ¬ x.registry.Refuses u e') ∧
          x.registry.Refuses use e) ∧
      ((∃ e, s.checkTransformations x.registry = .error e) ↔
        ∃ rule ∈ s.rules, ∃ name ∈ rule.head.transform.names, x.registry.get? name = none ∨
          x.registry.get? name = some .parseDate ∧
            Transformation.isDateFormat (Transformation.formatIn rule.head.options) = false) ∧
      (∀ e, s.checkTransformations x.registry = .error e →
        (∀ context d, (x.extractAt s context).run d = (.error (.schema e), d)) ∧
          ∀ source, x.extract s source = .error (.schema e)) ∧
      (s.checkTransformations x.registry = .ok () →
        (∀ rule ∈ s.rules, ∀ context d e, e.IsRefusal →
          ((evaluate x context rule).run d).1 = .error (.schema e) → x.registry.Brings rule.all e) ∧
        ∀ context d e, e.IsRefusal → ((walk x context s).run d).1 = .error (.schema e) →
          x.registry.Brings s.rules e) := by
  refine ⟨fun e => Schema.checkTransformations_eq_error_iff, ?_, fun e h => ⟨?_, ?_⟩, fun h => ?_⟩
  · constructor
    · rintro ⟨e, h⟩
      obtain ⟨before, ⟨name, options⟩, after, hsplit, _, hrefuses⟩ :=
        Schema.checkTransformations_eq_error_iff.mp h
      have huse : (name, options) ∈ usesIn s.rules := by
        rw [hsplit]
        exact List.mem_append_right _ List.mem_cons_self
      obtain ⟨rule, hrule, hname, rfl⟩ := Schema.mem_usesIn.mp huse
      refine ⟨rule, hrule, name, hname, ?_⟩
      cases hrefuses with
      | unknown hget => exact Or.inl hget
      | dateFormat hget hformat => exact Or.inr ⟨hget, hformat⟩
    · rintro ⟨rule, hrule, name, hname, hfault⟩
      have huse := Schema.mem_usesIn.mpr ⟨rule, hrule, hname, rfl⟩
      cases h : s.checkTransformations x.registry with
      | error e => exact ⟨e, rfl⟩
      | ok u =>
          have hpassed := Schema.checkTransformations_eq_ok_iff.mp h _ huse
          obtain hget | ⟨hget, hformat⟩ := hfault
          · exact (hpassed _ (.unknown hget)).elim
          · exact (hpassed _ (.dateFormat hget hformat)).elim
  · intro context d
    rw [extractAt, h]
    rfl
  · intro source
    rw [extract_eq, h]
  · have hpassed := Schema.checkTransformations_eq_ok_iff.mp h
    refine ⟨fun rule hrule context d e he herror => ?_, fun context d e he herror => ?_⟩
    · have hall : ∀ use ∈ usesIn rule.all, ∀ e, ¬ x.registry.Refuses use e := by
        rintro ⟨name, options⟩ huse
        obtain ⟨q, hq, hname⟩ := Schema.mem_usesIn.mp huse
        exact hpassed _ (Schema.mem_usesIn.mpr ⟨q, Schema.all_subset_allOf s rule hrule hq, hname⟩)
      have hheads := fun q hq => headErrs_brings x q hq hall
      exact errs_evaluate (hheads rule rule.mem_all) (errs_valueOf x rule hheads) context d _ herror
        e rfl he
    · have hheads := fun q hq => headErrs_brings x q hq hpassed
      exact errs_walk x s hheads context d _ herror e rfl he

/-! ## A sample -/

/-- Pages with the day that they are from, under another name of the transformation of dates and in
a given format. -/
def datedSchema (format : String) : Json := .map [("page", .map [("selector", .str "body"),
  ("fields", .map [("day", .map [("selector", .str "p"),
    ("transform", .list [.str "trim", .str "day"]),
    ("options", .map [("format", .str format)])])])])]

/-- The extractor in which the transformation of dates has another name too. -/
def dated : Extractor := { registry := Registry.standard.register "day" .parseDate }

/-- The format that a check refuses; nothing where it passes. -/
def refusedFormat? : Except SchemaError Unit → Option (Option String)
  | .ok () => some none
  | .error (.unknownDateFormat (.str format)) => some (some format)
  | .error _ => none

theorem eq_of_refusedFormat? {r : Except SchemaError Unit} {format : Option String}
    (h : refusedFormat? r = some format) : match format with
      | none => r = .ok ()
      | some f => r = .error (.unknownDateFormat (.str f)) := by
  unfold refusedFormat? at h
  split at h
  · obtain rfl := Option.some.inj h
    rfl
  · obtain rfl := Option.some.inj h
    rfl
  · cases h

theorem no_brings_dated {rules : List Rule} {e : SchemaError} :
    ¬ dated.registry.Brings rules e := by
  rintro ⟨rule, _, name, _, f, _, hget, _⟩
  obtain ⟨before, after, hentries, _⟩ := List.lookup_eq_some_iff.mp hget
  have hmem : (name, Transformation.custom f) ∈ dated.registry.entries := by simp [hentries]
  simp [dated, Registry.register, Registry.standard, Registry.putEntry] at hmem

theorem checkTransformations_exact_sample :
    (∃ s, Schema.compile (datedSchema "weekly") = .ok s ∧
      s.checkTransformations dated.registry = .error (.unknownDateFormat (.str "weekly")) ∧
      ∀ context d, (dated.extractAt s context).run d =
        (.error (.schema (.unknownDateFormat (.str "weekly"))), d)) ∧
    ∃ s, Schema.compile (datedSchema "year") = .ok s ∧
      s.checkTransformations dated.registry = .ok () ∧
      ∀ rule ∈ s.rules, ∀ context d e, e.IsRefusal →
        ((evaluate dated context rule).run d).1 ≠ .error (.schema e) := by
  have hrun : ∀ format, format ∈ ["weekly", "year"] →
      ((Schema.compile (datedSchema format)).toOption.bind fun s =>
        refusedFormat? (s.checkTransformations dated.registry)) =
          some (if format = "weekly" then some format else none) := by
    decide +kernel
  constructor
  · obtain ⟨s, hs, hcheck⟩ := Option.bind_eq_some_iff.mp (hrun "weekly" (by decide))
    have hcheck := eq_of_refusedFormat? hcheck
    exact ⟨s, eq_ok_of_toOption hs, hcheck,
      ((checkTransformations_exact dated s).2.2.1 _ hcheck).1⟩
  · obtain ⟨s, hs, hcheck⟩ := Option.bind_eq_some_iff.mp (hrun "year" (by decide))
    have hcheck := eq_of_refusedFormat? hcheck
    refine ⟨s, eq_ok_of_toOption hs, hcheck, fun rule hrule context d e he herror => ?_⟩
    exact no_brings_dated
      (((checkTransformations_exact dated s).2.2.2 hcheck).1 rule hrule context d e he herror)

end Extractor

end Harvest
