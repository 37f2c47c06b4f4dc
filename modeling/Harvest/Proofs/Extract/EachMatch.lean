import Harvest.Proofs.Extract.Run
import Harvest.Proofs.Prune.Thinned
import Harvest.Proofs.XPath.Below

/-!
# Pruning each match

A rule that takes the elements of a name away from each match gives for every match the text that it
had before, without these elements.  What was taken away from other matches does not show, also
where a match stands in another one or was taken away with it.
-/

namespace Harvest

open Markup (Document Content Label idsOf nodesOf)
open XPath (LocalTest NameTest named)

namespace Markup.Document

/-- The text inside a node without the nodes of a kind. -/
def textWithout (d : Document) (p : Label → Bool) (i : Nat) : String :=
  match d.find? i with
  | some (_, inner) => (inner.erase p).string
  | none => ""

variable {p : Label → Bool} {d d' : Document} {i : Nat}

theorem Thinned.textWithout (h : d.Thinned p d') (hi : d.HasElement i) :
    d'.textWithout p i = d.textWithout p i := by
  obtain ⟨l, inner, hfind, _⟩ := hi
  obtain ⟨inner', hfind', hthin⟩ := h.find? hfind
  rw [Document.textWithout, Document.textWithout, hfind, hfind']
  exact congrArg Content.string hthin.erase

theorem Thinned.hasElement (h : d.Thinned p d') (hi : d.HasElement i) : d'.HasElement i := by
  obtain ⟨l, inner, hfind, hl⟩ := hi
  obtain ⟨inner', hfind', _⟩ := h.find? hfind
  exact ⟨l, inner', hfind', hl⟩

/-- What is in a document stays as it is when trees come behind it. -/
theorem find?_of_trees_prefix (h : d.trees <+: d'.trees) {x : Label × Content}
    (hi : d.find? i = some x) : d'.find? i = some x := by
  obtain ⟨behind, htrees⟩ := h
  rw [find?, ← htrees, List.findSome?_append]
  exact Option.or_eq_some_iff.mpr (Or.inl hi)

end Markup.Document

/-- The selector of the elements of a name below the context, by its text. -/
theorem Selector.query_below (s : Selector) {name : String} (hname : Markup.IsName name)
    (htext : s.text = ".//" ++ name) :
    s.query = (LocalTest.element { base := name }).path .context := by
  have hread := s.read_text
  rw [htext, XPath.read?_below hname] at hread
  exact (Option.some.inj hread).symm

namespace Extractor

variable {x : Extractor} {head : RuleHead} {remove : Selector} {name : NameTest} {d : Document}
  {i : Nat}

/-- Taking the elements of a name away from a match leaves it without these, and leaves every other
node but for elements of the name. -/
theorem run_prune_below (hquery : remove.query = (LocalTest.element name).path .context)
    (hi : d.HasElement i) :
    ∃ n d', (x.prune i remove).run d = (.ok n, d') ∧ d.Thinned (named [name]) d' ∧
      (Match.node i).read d' = d.textWithout (named [name]) i := by
  obtain ⟨l, inner, hfind, hl⟩ := hi
  have hselect := Match.select_below x.language hfind hl name
  rw [← hquery] at hselect
  generalize hf : ((inner.nodes.filter fun n => named [name] n.2).map fun n => Match.node n.1) =
    found at hselect
  have hfound : ∀ m, m ∈ found ↔
      ∃ j k, m = .node j ∧ (j, k) ∈ inner.nodes ∧ named [name] k = true := by
    intro m
    rw [← hf, List.mem_map]
    constructor
    · rintro ⟨⟨j, k⟩, hjk, rfl⟩
      obtain ⟨hj, hk⟩ := List.mem_filter.mp hjk
      exact ⟨j, k, rfl, hj, hk⟩
    · rintro ⟨j, k, rfl, hj, hk⟩
      exact ⟨(j, k), List.mem_filter.mpr ⟨hj, hk⟩, rfl⟩
  obtain ⟨hnodes, houter⟩ := Document.inner_of_find? hfind
  have hlabels : ∀ m ∈ found, ∃ j, m = .node j ∧ j ∈ idsOf d.trees ∧
      ∀ k, (j, k) ∈ nodesOf d.trees → named [name] k = true := by
    intro m hm
    obtain ⟨j, k, rfl, hj, hk⟩ := (hfound m).mp hm
    have hn : ((nodesOf d.trees).map Prod.fst).Nodup := by
      rw [← Markup.idsOf_eq_map_nodesOf]
      exact d.distinct
    refine ⟨j, rfl, ?_, fun k' hk' => ?_⟩
    · rw [Markup.idsOf_eq_map_nodesOf]
      exact List.mem_map_of_mem (hnodes hj)
    · have heq := List.inj_on_of_nodup_map hn hk' (hnodes hj) rfl
      obtain rfl : k' = k := (Prod.mk.inj heq).2
      exact hk
  obtain ⟨hthin, _, htops⟩ := Match.detachAll_thinned hlabels
  refine ⟨_, _, run_prune hselect, hthin, ?_⟩
  obtain ⟨inner', hfind', hinner⟩ := hthin.find? hfind
  -- the elements of the name that were inside are outermost now, so that none of them is left
  have hnone : ∀ n ∈ inner'.nodes, named [name] n.2 = false := by
    rintro ⟨j, k⟩ hj
    by_contra hk
    have htop := htops j ((hfound _).mpr ⟨j, k, rfl, hinner.nodes hj, by simpa using hk⟩)
    have hids : j ∈ inner'.ids := by
      rw [Content.ids_eq_map_nodes]
      exact List.mem_map_of_mem hj
    exact (Document.inner_of_find? hfind').2 j hids htop
  have hleft : inner' = inner.erase (named [name]) := by
    rw [← hinner.erase, Content.erase_eq_self hnone]
  cases l with
  | element nm as ds =>
      rw [Match.read, Match.nodeText, hfind', Document.textWithout, hfind, hleft]
  | _ => cases hl

theorem run_leafValue (hplain : head.transform.names = []) (m : Match) :
    (x.leafValue head m).run d = (.ok (some (.str (m.read d))), d) := by
  have hget : (get : Extraction Document).run d = (.ok d, d) := rfl
  unfold leafValue
  rw [Extraction.run_bind, hget, hplain]
  rfl

theorem run_pruneMatch (hscope : x.scope = .eachMatch) (hremove : head.removeSelector = some remove)
    {n : Nat} {d' : Document} (h : (x.prune i remove).run d = (.ok n, d')) :
    (x.pruneMatch head (.node i)).run d = (.ok (), d') := by
  rw [pruneMatch, pruneFor, hremove]
  dsimp only
  rw [if_pos hscope]
  change (x.prune i remove >>= fun _ => pure ()).run d = _
  rw [Extraction.run_bind, h]
  rfl

/-- The values of matches that are elements: what was taken away from one of them does not show in
the others. -/
theorem run_gather_below (hscope : x.scope = .eachMatch) (hplain : head.transform.names = [])
    (hremove : head.removeSelector = some remove)
    (hquery : remove.query = (LocalTest.element name).path .context) {found : List Nat}
    (hfound : ∀ i ∈ found, d.HasElement i) :
    ∃ d', (x.gather head (x.leafValue head) (found.map .node)).run d =
        (.ok (found.map fun i => .str (d.textWithout (named [name]) i)), d') ∧
      d.Thinned (named [name]) d' := by
  induction found generalizing d with
  | nil => exact ⟨d, rfl, .refl _ d⟩
  | cons i is ih =>
      obtain ⟨n, d₁, hrun, hthin, htext⟩ :=
        run_prune_below (x := x) hquery (hfound i List.mem_cons_self)
      have his : ∀ j ∈ is, d.HasElement j := fun j hj => hfound j (List.mem_cons_of_mem i hj)
      obtain ⟨d₂, hrest, hthin'⟩ := ih fun j hj => hthin.hasElement (his j hj)
      refine ⟨d₂, ?_, hthin.trans hthin'⟩
      have hsame : (is.map fun j => Json.str (d₁.textWithout (named [name]) j)) =
          is.map fun j => .str (d.textWithout (named [name]) j) :=
        List.map_congr_left fun j hj => by rw [hthin.textWithout (his j hj)]
      rw [List.map_cons, gather_cons, Extraction.run_bind, run_pruneMatch hscope hremove hrun]
      dsimp only
      rw [Extraction.run_bind, run_leafValue hplain]
      dsimp only
      rw [Extraction.run_bind, hrest, htext, hsame]
      rfl

/-- Where a rule without transformations takes the elements of a name away from each match, it gives
for every match, in order, the text that the match has in the document without the elements of the
name inside it.  The document is as the rule found it, with the trees of results that the selector
made, whatever was taken away from other matches. -/
theorem evaluate_eachMatch_below {x : Extractor} (hscope : x.scope = .eachMatch) {head : RuleHead}
    (hplain : head.transform.names = []) {name : String} (hname : Markup.IsName name)
    {remove : Selector} (hremove : head.removeSelector = some remove)
    (htext : remove.text = ".//" ++ name) {context : Nat} {d d₁ : Document} {found : List Nat}
    (hselect : d.select x.language context head.selector.query = .ok (found.map .node, d₁))
    (helement : ∀ i ∈ found, d₁.HasElement i) :
    ∃ d₂, (evaluate x context (.leaf head)).run d =
        (.ok (shape head.forceArray (found.map fun i =>
          .str (d₁.textWithout (named [{ base := name }]) i))), d₂) ∧
      (∀ i l inner, d.find? i = some (l, inner) → d₁.find? i = some (l, inner)) := by
  have hquery := remove.query_below hname htext
  have hbefore : (x.pruneFor .context context head).run d = (.ok (), d) := by
    rw [pruneFor, hremove]
    dsimp only
    rw [if_neg (by rw [hscope]; decide)]
    rfl
  obtain ⟨d₂, hgather, _⟩ := run_gather_below (x := x) hscope hplain hremove hquery helement
  refine ⟨d₂, ?_, fun i l inner =>
    Document.find?_of_trees_prefix (Match.targets_of_select hselect).1⟩
  rw [evaluate, ruleValue, Extraction.run_bind, hbefore]
  dsimp only
  rw [Extraction.run_bind, run_select hselect]
  dsimp only
  rw [Extraction.run_bind, hgather]
  rfl

/-- The document `<p><div>a<div>b<div>c</div>d</div>e</div></p>`. -/
def nestedDivs : Document := .ofContent
  (.single 0 (.element (.plain "p") [] [])
    (.node "" 0 (.element (.plain "div") [] [])
      (.node "a" 0 (.element (.plain "div") [] [])
        (.node "b" 0 (.element (.plain "div") [] []) (.text "c") (.text "d")) (.text "e"))
      .empty))
  (by simp [Content.single, Label.isElement]) (.single ..)

/-- Every `div` element, without those inside it. -/
def divsApart : RuleHead where
  selector := readSelector ".//div" (by decide +kernel)
  removeSelector := some (readSelector ".//div" (by decide +kernel))

theorem evaluate_eachMatch_below_nested : ∃ d₂,
    (evaluate { scope := .eachMatch } 0 (.leaf divsApart)).run nestedDivs =
      (.ok (some (.list [.str "ae", .str "bd", .str "c"])), d₂) := by
  have hname : Markup.IsName "div" := by decide
  have hselect : nestedDivs.select .html 0 divsApart.selector.query =
      .ok ([1, 2, 3].map .node, nestedDivs) := by
    rw [Selector.query_below divsApart.selector hname rfl]
    exact Match.select_below .html (d := nestedDivs) (i := 0) rfl rfl { base := "div" }
  have helement : ∀ i ∈ [1, 2, 3], nestedDivs.HasElement i := by
    intro i hi
    simp only [List.mem_cons, List.not_mem_nil, or_false] at hi
    rcases hi with rfl | rfl | rfl <;> exact ⟨_, _, rfl, rfl⟩
  obtain ⟨d₂, hvalue, _⟩ := @evaluate_eachMatch_below { scope := .eachMatch } rfl divsApart rfl
    "div" hname _ rfl rfl 0 nestedDivs nestedDivs [1, 2, 3] hselect helement
  exact ⟨d₂, hvalue⟩

end Extractor

end Harvest
