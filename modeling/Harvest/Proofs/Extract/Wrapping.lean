import Harvest.Proofs.Extract.Conforms

/-!
# Values in lists

A rule may ask that a single value stands in a list.  Whether rules do so, at any depth, changes
nothing but how the values of the rule stand in their field: no other value, no error and nothing in
the document.
-/

namespace Harvest

/-! ## Rules and results that differ in lists only -/

namespace Rule

mutual

/-- The rule where no single value has to stand in a list, at any depth. -/
def unwrapped : Rule → Rule
  | leaf head => leaf { head with forceArray := false }
  | nested head fields => nested { head with forceArray := false } (unwrapAll fields)

def unwrapAll : List (String × Rule) → List (String × Rule)
  | [] => []
  | (name, rule) :: rest => (name, rule.unwrapped) :: unwrapAll rest

end

mutual

/-- Whether the values of two rules for a match are the same, but for the lists in their fields. -/
def SameLeaf : Rule → Rule → Json → Json → Prop
  | leaf _, leaf _, v, v' => v = v'
  | nested _ fields, nested _ fields', v, v' => ∃ ms ms', v = .map ms ∧ v' = .map ms' ∧
      SameFields fields fields' ms ms'
  | _, _, _, _ => False

/-- Whether members hold, rule by rule, the same leaves, alone or in lists as each of two schemas
says. -/
def SameFields : List (String × Rule) → List (String × Rule) → Members → Members → Prop
  | [], [], ms, ms' => ms = [] ∧ ms' = []
  | (name, rule) :: rest, (_, rule') :: rest', ms, ms' =>
    ∃ leaves leaves' held held' more more',
      List.Forall₂ (fun v v' => rule.SameLeaf rule' v v') leaves leaves' ∧
      Held rule.head.forceArray leaves held ∧ Held rule'.head.forceArray leaves' held' ∧
      ms = (held.map (name, ·)).toList ++ more ∧ ms' = (held'.map (name, ·)).toList ++ more' ∧
      SameFields rest rest' more more'
  | _, _, _, _ => False

end

@[simp] theorem head_unwrapped (rule : Rule) :
    rule.unwrapped.head = { rule.head with forceArray := false } := by
  cases rule <;> rfl

mutual

theorem all_unwrapped : ∀ (rule : Rule), rule.unwrapped.all = rule.all.map unwrapped
  | leaf head => rfl
  | nested head fields => by
      rw [unwrapped, all, all, List.map_cons, allOf_unwrapAll fields, unwrapped]

theorem allOf_unwrapAll : ∀ (s : List (String × Rule)),
    allOf (unwrapAll s) = (allOf s).map unwrapped
  | [] => rfl
  | (name, rule) :: rest => by
      rw [unwrapAll, allOf, allOf, List.map_append, all_unwrapped rule, allOf_unwrapAll rest]

end

end Rule

theorem Schema.checkRules_unwrapped (registry : Registry) (rules : List Rule) :
    checkRules registry (rules.map Rule.unwrapped) = checkRules registry rules := by
  induction rules with
  | nil => rfl
  | cons rule rules ih => rw [List.map_cons, checkRules, checkRules, Rule.head_unwrapped, ih]

namespace Extractor

open Extraction (Alike Related)
open Rule (SameLeaf SameFields unwrapAll)

variable {x : Extractor} {context : Nat} {head head' : RuleHead}

/-- Values of two rules for the matches that both find. -/
theorem alike_gather {R : Json → Json → Prop} {value value' : Match → Extraction (Option Json)}
    (hremove : head.removeSelector = head'.removeSelector)
    (hvalue : ∀ m, Alike (fun v v' => List.Forall₂ R v.toList v'.toList) (value m) (value' m))
    (found : List Match) :
    Alike (List.Forall₂ R) (x.gather head value found) (x.gather head' value' found) := by
  have hprune : x.pruneMatch head = x.pruneMatch head' := by
    funext m
    cases m with
    | node id => rw [pruneMatch, pruneMatch, pruneFor, pruneFor, hremove]
    | _ => rfl
  induction found with
  | nil => exact .pure .nil
  | cons m ms ih =>
      rw [gather_cons, gather_cons, hprune]
      refine Alike.after fun _ => (hvalue m).bind fun v v' hv => ih.bind fun vs vs' hvs => .pure ?_
      exact List.rel_append hv hvs

theorem alike_evaluate {R : Json → Json → Prop} {rule rule' : Rule}
    (hrule : rule.unwrapped = rule'.unwrapped)
    (hvalue : ∀ m, Alike (fun v v' => List.Forall₂ R v.toList v'.toList) (x.valueOf rule m)
      (x.valueOf rule' m)) :
    Alike (fun v v' => ∃ leaves leaves', List.Forall₂ R leaves leaves' ∧
        Held rule.head.forceArray leaves v ∧ Held rule'.head.forceArray leaves' v')
      (evaluate x context rule) (evaluate x context rule') := by
  have hhead := congrArg Rule.head hrule
  rw [Rule.head_unwrapped, Rule.head_unwrapped] at hhead
  -- the heads are the same but for the lists
  injection hhead with hselector _ hremove htransform hoptions
  rw [evaluate_eq, evaluate_eq, ruleValue, ruleValue, pruneFor, pruneFor, hselector, hremove]
  refine Alike.after fun _ => Alike.after fun found => ?_
  refine (alike_gather hremove hvalue found).bind fun vs vs' hvs => .pure ?_
  exact ⟨vs, vs', hvs, held_shape _ vs, held_shape _ vs'⟩

mutual

theorem alike_walk (x : Extractor) : ∀ (s s' : List (String × Rule)), unwrapAll s = unwrapAll s' →
    ∀ context, Alike (SameFields s s') (walk x context s) (walk x context s')
  | [], [], _, _ => .pure ⟨rfl, rfl⟩
  | (name, rule) :: rest, (name', rule') :: rest', h, context => by
      rw [unwrapAll, unwrapAll] at h
      injection h with hfield hrest
      injection hfield with hname hrule
      subst hname
      rw [walk_cons, walk_cons]
      refine (alike_evaluate hrule (alike_valueOf x rule rule' hrule)).bind fun v v' hv => ?_
      refine (alike_walk x rest rest' hrest context).bind fun ms ms' hms => .pure ?_
      obtain ⟨leaves, leaves', hleaves, hheld, hheld'⟩ := hv
      exact ⟨leaves, leaves', v, v', ms, ms', hleaves, hheld, hheld', rfl, rfl, hms⟩
  | [], (_, _) :: _, h, _ => by cases h
  | (_, _) :: _, [], h, _ => by cases h

theorem alike_valueOf (x : Extractor) : ∀ (rule rule' : Rule), rule.unwrapped = rule'.unwrapped →
    ∀ m, Alike (fun v v' => List.Forall₂ (fun v v' => rule.SameLeaf rule' v v') v.toList v'.toList)
      (x.valueOf rule m) (x.valueOf rule' m)
  | .leaf head, .leaf head', h, m => by
      rw [Rule.unwrapped, Rule.unwrapped] at h
      injection h with hhead
      injection hhead with _ _ _ htransform hoptions
      rw [valueOf, valueOf, leafValue, leafValue, htransform, hoptions]
      refine (Alike.refl _).mono ?_
      rintro v _ rfl
      cases v with
      | none => exact .nil
      | some v => exact .cons rfl .nil
  | .nested head fields, .nested head' fields', h, m => by
      rw [Rule.unwrapped, Rule.unwrapped] at h
      injection h with _ hfields
      cases m with
      | node id =>
          refine (alike_walk x fields fields' hfields id).bind fun ms ms' hms => .pure ?_
          exact .cons ⟨ms, ms', rfl, rfl, hms⟩ .nil
      | _ => exact .pure .nil
  | .leaf _, .nested .., h, _ => by cases h
  | .nested .., .leaf _, h, _ => by cases h

end

/-- Two schemas that differ only in which rules ask for lists: on every document both extractions
leave the same document, and both fail for the same reason or give members with the same leaves,
rule by rule. -/
theorem extract_wrapping (x : Extractor) {s s' : Schema} (h : unwrapAll s = unwrapAll s') :
    (∀ context, Alike (SameFields s s') (walk x context s) (walk x context s')) ∧
      ∀ source, Related (SameFields s s') (x.extract s source) (x.extract s' source) := by
  have hwalk := alike_walk x s s' h
  have hchecked : s.checkTransformations x.registry = s'.checkTransformations x.registry := by
    rw [Schema.checkTransformations, Schema.checkTransformations, Schema.rules, Schema.rules,
      ← Schema.checkRules_unwrapped, ← Rule.allOf_unwrapAll, h, Rule.allOf_unwrapAll,
      Schema.checkRules_unwrapped]
  refine ⟨hwalk, fun source => ?_⟩
  rw [extract_eq, extract_eq, hchecked]
  cases s'.checkTransformations x.registry with
  | error e => exact .error _
  | ok u =>
      cases source.parse x.language with
      | error e => exact .error _
      | ok d =>
          dsimp only
          rw [extractFrom, extractFrom]
          split
          · exact (hwalk _ d).2
          · exact .error _

/-! ## A sample -/

/-- The paragraphs of a page, with their text and what does not come. -/
def paragraphs (inLists : Bool) : Schema :=
  [("items", .nested { selector := readSelector "*/p" (by decide +kernel), forceArray := inLists }
    [("text", .leaf
        { selector := readSelector "text()" (by decide +kernel), forceArray := inLists }),
      ("more", .leaf
        { selector := readSelector "more" (by decide +kernel), forceArray := inLists })])]

theorem extract_wrapping_sample : unwrapAll (paragraphs true) = unwrapAll (paragraphs false) ∧
    ∃ ms ms', ({} : Extractor).extract (paragraphs true) (.text "<p>1</p>") = .ok ms ∧
      ({} : Extractor).extract (paragraphs false) (.text "<p>1</p>") = .ok ms' ∧
      (Json.map ms).inner = "\x7b'items': [\x7b'text': ['1'], 'more': []\x7d]\x7d" ∧
      (Json.map ms').inner = "\x7b'items': \x7b'text': '1'\x7d\x7d" ∧
      SameFields (paragraphs true) (paragraphs false) ms ms' := by
  have hrun : (({} : Extractor).extract (paragraphs true) (.text "<p>1</p>")).toOption.map
      (fun ms => (Json.map ms).inner) =
        some "\x7b'items': [\x7b'text': ['1'], 'more': []\x7d]\x7d" := by
    decide +kernel
  have hrun' : (({} : Extractor).extract (paragraphs false) (.text "<p>1</p>")).toOption.map
      (fun ms => (Json.map ms).inner) = some "\x7b'items': \x7b'text': '1'\x7d\x7d" := by
    decide +kernel
  obtain ⟨ms, hms, hinner⟩ := Option.map_eq_some_iff.mp hrun
  obtain ⟨ms', hms', hinner'⟩ := Option.map_eq_some_iff.mp hrun'
  have hms := eq_ok_of_toOption hms
  have hms' := eq_ok_of_toOption hms'
  have hunwrap : unwrapAll (paragraphs true) = unwrapAll (paragraphs false) := rfl
  have hsame := (extract_wrapping {} hunwrap).2 (.text "<p>1</p>")
  rw [hms, hms'] at hsame
  refine ⟨hunwrap, ms, ms', hms, hms', hinner, hinner', ?_⟩
  cases hsame with
  | ok h => exact h

end Extractor

end Harvest
