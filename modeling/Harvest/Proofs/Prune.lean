import Harvest.Extract
import Harvest.Proofs.Markup.Piece
import Harvest.Proofs.XPath.Reach

/-!
# Pruning

Pruning takes out of a document what a selector finds.  All that was neither found nor inside a node
that was found is still there, where it was.
-/

namespace Harvest

open Markup (Document Content Target Label)
open XPath (LocalTest)

/-- Whether some match aims at a target. -/
def Match.aimedAt (found : List Match) : Target → Bool := Content.chosenIn (targets found)

theorem Extraction.run_bind {α β : Type} (m : Extraction α) (f : α → Extraction β) (d : Document) :
    (m >>= f).run d = match m.run d with
      | (.ok a, d) => (f a).run d
      | (.error e, d) => (.error e, d) := by
  change (ExceptT.bind m f).run d = _
  simp only [ExceptT.run, ExceptT.bind, ExceptT.mk]
  change (match m d with | (a, s) => (ExceptT.bindCont f a) s) = _
  cases h : m d with
  | mk a s => cases a <;> rfl

namespace Extractor

variable {x : Extractor} {context : Nat} {selector : Selector} {d d₁ : Document}
  {found : List Match}

/-- The error of an extraction for one of a selector. -/
def selectError (x : Extractor) (selector : Selector) : SelectError → ExtractError
  | .notElement label => .notElement x.language label
  | .eval .unfit => .schema (.unusableSelector selector.text)
  | .eval e => .pattern e

theorem run_select (h : d.select x.language context selector.query = .ok (found, d₁)) :
    (x.select context selector).run d = (.ok found, d₁) := by
  have hget : (get : Extraction Document).run d = (.ok d, d) := rfl
  unfold select
  rw [Extraction.run_bind, hget]
  simp only [h]
  rfl

theorem run_select_of_error {e : SelectError}
    (h : d.select x.language context selector.query = .error e) :
    (x.select context selector).run d = (.error (x.selectError selector e), d) := by
  have hget : (get : Extraction Document).run d = (.ok d, d) := rfl
  unfold select
  rw [Extraction.run_bind, hget]
  simp only [h]
  cases e with
  | notElement label => rfl
  | eval e => cases e <;> rfl

/-- Selecting fails just as the selector does. -/
theorem error_of_select {e : ExtractError} (h : ((x.select context selector).run d).1 = .error e) :
    ∃ e', d.select x.language context selector.query = .error e' ∧
      e = x.selectError selector e' := by
  cases hselect : d.select x.language context selector.query with
  | ok p =>
      rw [run_select hselect] at h
      cases h
  | error e' =>
      rw [run_select_of_error hselect] at h
      exact ⟨e', rfl, (Except.error.inj h).symm⟩

/-- Pruning detaches what the selector finds. -/
theorem run_prune (h : d.select x.language context selector.query = .ok (found, d₁)) :
    (x.prune context selector).run d =
      (.ok (Match.detachAll d₁ found).2, (Match.detachAll d₁ found).1) := by
  unfold prune
  rw [Extraction.run_bind, run_select h]
  rfl

/-- Every tree of the document is cut once, and stays at its place. -/
theorem getElem?_trees_detachAll
    (h : d.select x.language context selector.query = .ok (found, d₁)) {k : Nat} {c : Content}
    (hc : d.trees[k]? = some c) :
    (Match.detachAll d₁ found).1.trees[k]? =
      some (c.cutInside (Match.aimedAt found) c.leading) := by
  obtain ⟨⟨added, htrees⟩, hsub⟩ := Match.targets_of_select h
  obtain ⟨taken, hcut⟩ := Match.trees_detachAll_of_sublist hsub
  have hk : k < d.trees.length := (List.getElem?_eq_some_iff.mp hc).1
  have hc₁ : d₁.trees[k]? = some c := by
    rw [← htrees, List.getElem?_append_left hk, hc]
  have hk₁ : k < d₁.trees.length := (List.getElem?_eq_some_iff.mp hc₁).1
  rw [hcut, List.getElem?_append_left (by simpa using hk₁), List.getElem?_map, hc₁]
  rfl

/-- Whatever a selector finds, pruning keeps every node, every attribute and every character of text
that was neither found nor inside a node that was found: in the same node, in the same order, and
nothing comes to them. -/
theorem prune_keeps (h : d.select x.language context selector.query = .ok (found, d₁)) :
    ∃ n d', (x.prune context selector).run d = (.ok n, d') ∧
      ∀ (k : Nat) (c : Content), d.trees[k]? = some c → ∃ c', d'.trees[k]? = some c' ∧
        (c.kept (Match.aimedAt found) none none).Sublist (c'.pieces none) ∧
        (c'.pieces none).Sublist (c.pieces none) := by
  refine ⟨_, _, run_prune h, fun k c hc => ⟨_, getElem?_trees_detachAll h hc, ?_, ?_⟩⟩
  · have hkept := Content.kept_sublist_cutInside (Match.aimedAt found) none c.leading c
    rwa [Content.setLeading_leading] at hkept
  · have hpieces := Content.pieces_cutInside_sublist (Match.aimedAt found) none c.leading c
    rwa [Content.setLeading_leading] at hpieces

/-! ## A sample -/

/-- The selector that a text writes, where it is a union of tests of single nodes. -/
theorem exists_selector {text : String} {ts : List LocalTest}
    (h : (XPath.read? text).bind XPath.localTests? = some ts) :
    ∃ s : Selector, s.text = text ∧ XPath.localTests? s.query = some ts := by
  obtain ⟨query, hread, hq⟩ := Option.bind_eq_some_iff.mp h
  exact ⟨⟨text, query, hread⟩, rfl, hq⟩

/-- The document `<p>S<b>x<i>y</i></b>U</p>`. -/
def sample : Document := .ofContent
  (.single 0 (.element (.plain "p") [] [])
    (.node "S" 0 (.element (.plain "b") [] [])
      (.node "x" 0 (.element (.plain "i") [] []) (.text "y") .empty) (.text "U")))
  (by simp [Content.single, Label.isElement]) (.single ..)

theorem hasElement_sample : sample.HasElement 0 := ⟨_, _, rfl, rfl⟩

theorem prune_keeps_sample : ∃ (s : Selector) (found : List Match), s.text = "//b|//text()" ∧
    sample.select .html 0 s.query = .ok (found, sample) ∧
    ∃ n d', (({} : Extractor).prune 0 s).run sample = (.ok n, d') ∧
      ∀ (k : Nat) (c : Content), sample.trees[k]? = some c → ∃ c', d'.trees[k]? = some c' ∧
        (c.kept (Match.aimedAt found) none none).Sublist (c'.pieces none) ∧
        (c'.pieces none).Sublist (c.pieces none) := by
  have hread : (XPath.read? "//b|//text()").bind XPath.localTests? =
      some [.element { base := "b" }, .text] := by decide +kernel
  obtain ⟨s, hs, hq⟩ := exists_selector hread
  obtain ⟨found, hselect, _⟩ := Match.select_localUnion .html hasElement_sample
    (XPath.localUnion_of_localTests? hq)
  exact ⟨s, found, hs, hselect, prune_keeps hselect⟩

end Extractor

end Harvest
