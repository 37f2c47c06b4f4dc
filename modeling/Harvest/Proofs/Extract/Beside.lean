import Harvest.Proofs.Extract.Run
import Harvest.Proofs.XPath.Beside

/-!
# Extraction behind a gap

Where no rule takes anything away, an extraction gives the same on two documents of which one has
further trees in a gap, and what its selectors add comes behind both documents alike.
-/

namespace Harvest

open Markup (Document Outline Gap Label Language)

namespace Match

/-- The match in a document with a gap. -/
def move (g : Gap) : Match → Match
  | node id => node (g.id id)
  | attr owner name value => attr (g.id owner) name value
  | text place value => text (place.rename g.id) value
  | m => m

variable {g : Gap}

theorem ofNode?_move {o o' : Outline} (h : o.Beside g o') (n : XPath.Node) :
    ofNode? o' (n.move g) = (ofNode? o n).map (·.move g) := by
  have hattr := XPath.Node.attribute?_move h n
  have hspace := XPath.Node.space?_move h n
  cases n with
  | document => rfl
  | entry i =>
      rw [XPath.Node.move, ofNode?, ofNode?, h.item?_place]
      cases o.item? i with
      | none => rfl
      | some x =>
          cases x with
          | node id l => rfl
          | text s place => cases place <;> rfl
  | space i k =>
      rw [XPath.Node.move] at hspace ⊢
      rw [ofNode?, ofNode?, hspace, Option.map_map]
      · rfl
      all_goals simp
  | attr i k =>
      rw [XPath.Node.move] at hattr ⊢
      rw [ofNode?, ofNode?, hattr, h.item?_place]
      cases o.item? i with
      | none => rfl
      | some x =>
          cases x with
          | node id l => cases (XPath.Node.attr i k).attribute? o <;> rfl
          | text s place => rfl

theorem ofValue_move {o o' : Outline} (h : o.Beside g o') (v : XPath.Value) :
    ofValue o' (v.move g) = (ofValue o v).map (·.move g) := by
  cases v with
  | nodes ns =>
      rw [XPath.Value.move_nodes, ofValue, ofValue, List.filterMap_map, List.map_filterMap]
      refine List.filterMap_congr fun n _ => ?_
      exact ofNode?_move h n
  | _ => rfl

theorem read_move {d d' : Document} (h : d.Beside g d') (m : Match) :
    (m.move g).read d' = m.read d := by
  cases m with
  | node id =>
      rw [move, read, read, nodeText, nodeText]
      obtain ⟨hnone, hnone'⟩ | ⟨l, c, hc, hc'⟩ := h.find?_cases id
      · rw [hnone, hnone']
      · rw [hc, hc']
        cases l with
        | element name as ds => exact c.string_rename
        | _ => rfl
  | _ => rfl

end Match

/-! ## Selectors -/

namespace XPath

theorem focusAt_move {g : Gap} {d d' : Document} (h : d.Beside g d') (context : Nat) :
    focusAt d' (g.id context) = (focusAt d context).move g := by
  rw [focusAt, focusAt, h.outline.find?_place]
  cases (Outline.ofDocument d).find? context <;> rfl

/-- The focus at a node is a node of the outline. -/
theorem within_focusAt (d : Document) (context : Nat) :
    (focusAt d context).node.Within (Outline.ofDocument d).entries.size := by
  intro i hi
  cases hf : (Outline.ofDocument d).find? context with
  | none => simp [focusAt, hf, Node.owner?] at hi
  | some j =>
      obtain rfl : j = i := by simpa [focusAt, hf, Node.owner?] using hi
      have hmem := List.mem_of_find?_eq_some hf
      rw [Outline.range, List.mem_range'_1] at hmem
      omega

end XPath

namespace Markup.Document

/-- Outcomes of a selector on two documents with a gap between them. -/
inductive Selects (g : Gap) : Except SelectError (List Match × Document) →
    Except SelectError (List Match × Document) → Prop
  | ok (found : List Match) {d d' : Document} (h : d.Beside g d') :
      Selects g (.ok (found, d)) (.ok (found.map (·.move g), d'))
  | error (e : SelectError) : Selects g (.error e) (.error e)

theorem select_of_element {d : Document} {context : Nat} {name : Markup.QName}
    {attributes : List Markup.Attribute} {declarations : List (Option String × String)}
    {inner : Markup.Content}
    (hc : d.find? context = some (.element name attributes declarations, inner))
    (language : Language) (query : XPath) :
    d.select language context query =
      (((XPath.eval query (XPath.focusAt d context)).run (.ofDocument d language)).map fun p =>
        (Match.ofValue p.2.outline p.1, p.2.document)).mapError .eval := by
  unfold Document.select
  rw [hc]
  dsimp only
  split <;>
  · rename_i hrun
    have hrun' : (XPath.eval query (XPath.focusAt d context)).run (.ofDocument d language) = _ :=
      hrun
    rw [hrun']
    rfl

theorem Beside.select {g : Gap} {d d' : Document} (h : d.Beside g d') (language : Language)
    (context : Nat) (query : XPath) :
    Selects g (d.select language context query) (d'.select language (g.id context) query) := by
  obtain ⟨hnone, hnone'⟩ | ⟨l, c, hc, hc'⟩ := h.find?_cases context
  · unfold Document.select
    rw [hnone, hnone']
    exact .ok [] h
  · cases l with
    | element name as ds =>
        have hscene : (XPath.Scene.ofDocument d language).Beside g (.ofDocument d' language) :=
          ⟨h, rfl, rfl, rfl⟩
        have hwithin := XPath.within_focusAt d context
        have hrun := XPath.mirrors_eval g query _ _ hwithin _ _ hscene (Nat.le_refl _)
        rw [select_of_element hc, select_of_element hc', XPath.focusAt_move h]
        revert hrun
        generalize (XPath.eval query (XPath.focusAt d context)).run _ = r
        generalize (XPath.eval query ((XPath.focusAt d context).move g)).run _ = r'
        rintro (⟨⟨rfl, _⟩, ht, _⟩ | e)
        · simp only [Except.map, Except.mapError]
          rw [Match.ofValue_move ht.outlines]
          exact .ok _ ht.document
        · exact .error _
    | _ =>
        unfold Document.select
        rw [hc, hc']
        exact .error _

end Markup.Document

/-! ## Extractions that agree -/

namespace Extraction

variable {α β : Type} {g : Gap}

/-- On any two documents with a gap between them, two extractions give related results or the same
error, and leave documents with the gap between them. -/
def Mirrors (g : Gap) (R : α → α → Prop) (m m' : Extraction α) : Prop :=
  ∀ d d' : Document, d.Beside g d' →
    Related R (m.run d).1 (m'.run d').1 ∧ (m.run d).2.Beside g (m'.run d').2

namespace Mirrors

variable {R : α → α → Prop} {S : β → β → Prop} {m m' : Extraction α}

theorem pure {a a' : α} (h : R a a') : Mirrors g R (pure a) (pure a') := fun _ _ hd => ⟨.ok h, hd⟩

theorem throw (e : ExtractError) : Mirrors g R (throw e) (throw e) := fun _ _ hd => ⟨.error e, hd⟩

theorem bind {f f' : α → Extraction β} (hm : Mirrors g R m m')
    (hf : ∀ a a', R a a' → Mirrors g S (f a) (f' a')) : Mirrors g S (m >>= f) (m' >>= f') := by
  intro d d' hd
  obtain ⟨hr, hd₁⟩ := hm d d' hd
  rw [run_bind, run_bind]
  revert hr hd₁
  generalize m.run d = r
  generalize m'.run d' = r'
  obtain ⟨o, d₁⟩ := r
  obtain ⟨o', d₁'⟩ := r'
  rintro (⟨ha⟩ | e) hd₁
  · exact hf _ _ ha _ _ hd₁
  · exact ⟨.error e, hd₁⟩

end Mirrors

theorem mirrors_get : Mirrors g (Document.Beside g) get get := fun _ _ hd => ⟨.ok hd, hd⟩

end Extraction

namespace Extractor

open Extraction (Mirrors)

variable {g : Gap} {x : Extractor} {head : RuleHead}

theorem mirrors_select (x : Extractor) (context : Nat) (selector : Selector) :
    Mirrors g (fun found found' => found' = found.map (·.move g)) (x.select context selector)
      (x.select (g.id context) selector) := by
  intro d d' hd
  have hselects := hd.select x.language context selector.query
  rcases hr : d.select x.language context selector.query with e | ⟨found, d₁⟩
  · rw [hr] at hselects
    generalize hr' : d'.select x.language (g.id context) selector.query = r' at hselects
    cases hselects
    rw [run_select_of_error hr, run_select_of_error hr']
    exact ⟨.error _, hd⟩
  · rw [hr] at hselects
    generalize hr' : d'.select x.language (g.id context) selector.query = r' at hselects
    cases hselects
    rename_i hd₁
    rw [run_select hr, run_select hr']
    exact ⟨.ok rfl, hd₁⟩

theorem mirrors_leafValue (x : Extractor) (head : RuleHead) (m : Match) :
    Mirrors g (· = ·) (x.leafValue head m) (x.leafValue head (m.move g)) := by
  refine Extraction.mirrors_get.bind fun d d' hd => ?_
  rw [Match.read_move hd]
  dsimp only
  split
  · exact .pure rfl
  · exact .pure rfl
  · exact .throw _

/-! ## Rules that take nothing away -/

theorem pruneFor_of_none (hhead : head.removeSelector = none) (scope : PruneScope) (context : Nat) :
    x.pruneFor scope context head = pure () := by
  rw [pruneFor, hhead]

theorem gather_cons_of_none (hhead : head.removeSelector = none)
    (value : Match → Extraction (Option Json)) (m : Match) (ms : List Match) :
    x.gather head value (m :: ms) = do
      let v ← value m
      let vs ← x.gather head value ms
      return v.toList ++ vs := by
  have hprune : x.pruneMatch head m = pure () := by
    cases m with
    | node id => exact pruneFor_of_none hhead _ id
    | _ => rfl
  rw [gather_cons, hprune, pure_bind]

theorem ruleValue_of_none (hhead : head.removeSelector = none) (context : Nat)
    (value : Match → Extraction (Option Json)) : x.ruleValue context head value = do
      let found ← x.select context head.selector
      return shape head.forceArray (← x.gather head value found) := by
  rw [ruleValue, pruneFor_of_none hhead, pure_bind]

theorem mirrors_gather (hhead : head.removeSelector = none)
    {value : Match → Extraction (Option Json)}
    (hvalue : ∀ m, Mirrors g (· = ·) (value m) (value (m.move g))) (found : List Match) :
    Mirrors g (· = ·) (x.gather head value found) (x.gather head value (found.map (·.move g))) := by
  induction found with
  | nil => exact .pure rfl
  | cons m ms ih =>
      rw [List.map_cons, gather_cons_of_none hhead, gather_cons_of_none hhead]
      refine (hvalue m).bind ?_
      rintro v _ rfl
      refine ih.bind ?_
      rintro vs _ rfl
      exact .pure rfl

theorem mirrors_evaluate {rule : Rule} (hhead : rule.head.removeSelector = none)
    (hvalue : ∀ m, Mirrors g (· = ·) (x.valueOf rule m) (x.valueOf rule (m.move g)))
    (context : Nat) :
    Mirrors g (· = ·) (evaluate x context rule) (evaluate x (g.id context) rule) := by
  rw [evaluate_eq, evaluate_eq, ruleValue_of_none hhead, ruleValue_of_none hhead]
  refine (mirrors_select x context rule.head.selector).bind ?_
  rintro found _ rfl
  refine (mirrors_gather hhead hvalue found).bind ?_
  rintro vs _ rfl
  exact .pure rfl

mutual

/-- The fields of a node behind a gap, where no rule takes anything away. -/
theorem mirrors_walk (g : Gap) (x : Extractor) : ∀ (s : List (String × Rule)),
    (∀ r ∈ Rule.allOf s, r.head.removeSelector = none) → ∀ context,
      Mirrors g (· = ·) (walk x context s) (walk x (g.id context) s)
  | [], _, _ => .pure rfl
  | (name, rule) :: rest, h, context => by
      have hrule : ∀ r ∈ rule.all, r.head.removeSelector = none :=
        fun r hr => h r (List.mem_append_left _ hr)
      rw [walk_cons, walk_cons]
      refine (mirrors_evaluate (hrule rule rule.mem_all)
        (mirrors_valueOf g x rule hrule) context).bind ?_
      rintro v _ rfl
      refine (mirrors_walk g x rest (fun r hr => h r (List.mem_append_right _ hr)) context).bind ?_
      rintro more _ rfl
      exact .pure rfl

theorem mirrors_valueOf (g : Gap) (x : Extractor) : ∀ (rule : Rule),
    (∀ r ∈ rule.all, r.head.removeSelector = none) → ∀ m,
      Mirrors g (· = ·) (x.valueOf rule m) (x.valueOf rule (m.move g))
  | .leaf head, _, m => mirrors_leafValue x head m
  | .nested head fields, h, m => by
      cases m with
      | node id =>
          have hfields : ∀ r ∈ Rule.allOf fields, r.head.removeSelector = none :=
            fun r hr => h r (List.mem_cons_of_mem _ hr)
          refine (mirrors_walk g x fields hfields id).bind ?_
          rintro ms _ rfl
          exact .pure rfl
      | _ => exact .pure rfl

end

end Extractor

end Harvest
