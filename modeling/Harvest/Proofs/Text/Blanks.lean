import Harvest.Proofs.Text.Fields
import Harvest.Transform
import Mathlib.Data.List.Chain

/-!
# Collapsing blanks

Collapsing works on each maximal run of blanks by itself, so that texts may be collapsed apart
wherever no run crosses the border between them.  The other laws follow: what is left has no two
blanks side by side, and trimming commutes because it only takes runs off at the ends.
-/

namespace Harvest.Text

variable {cs ds before run after : List Char} {c d : Char}

/-! ## Collapsing apart -/

/-- No run of blanks crosses the border between two texts. -/
def Apart (cs ds : List Char) : Prop :=
  (∀ c ∈ cs.getLast?, isBlank c = false) ∨ ∀ d ∈ ds.head?, isBlank d = false

theorem Apart.of_suffix (h : Apart cs ds) (hsuffix : before <:+ cs) : Apart before ds := by
  rcases h with hlast | hhead
  · left
    intro c hc
    obtain ⟨front, rfl⟩ := hsuffix
    apply hlast
    rw [List.getLast?_append, hc]
    rfl
  · exact .inr hhead

theorem Apart.dropWhile_append (hc : isBlank c = true) (h : Apart (c :: cs) ds) :
    (cs ++ ds).dropWhile isBlank = cs.dropWhile isBlank ++ ds := by
  rw [List.dropWhile_append]
  split
  · next hnil =>
    rw [List.isEmpty_iff] at hnil
    rw [hnil, List.nil_append]
    have hall : ∀ x ∈ c :: cs, isBlank x = true :=
      List.forall_mem_cons.mpr ⟨hc, List.dropWhile_eq_nil_iff.mp hnil⟩
    rcases h with hlast | hhead
    · have hmem := List.getLast_mem (List.cons_ne_nil c cs)
      have hno := hlast _ (List.getLast?_eq_some_getLast (List.cons_ne_nil c cs))
      rw [hall _ hmem] at hno
      cases hno
    · exact dropWhile_eq_self hhead
  · rfl

theorem collapseChars_nil : collapseChars [] = [] := collapseChars.eq_def []

theorem collapseChars_singleton (c : Char) : collapseChars [c] = [c] := collapseChars.eq_def [c]

theorem collapseChars_pair (hc : isBlank c = true) (hd : isBlank d = true) (cs : List Char) :
    collapseChars (c :: d :: cs) = ' ' :: collapseChars (cs.dropWhile isBlank) := by
  rw [collapseChars.eq_def]
  dsimp only
  rw [hc, hd]
  rfl

theorem collapseChars_cons (h : (isBlank c && isBlank d) = false) (cs : List Char) :
    collapseChars (c :: d :: cs) = c :: collapseChars (d :: cs) := by
  rw [collapseChars.eq_def]
  dsimp only
  rw [h, if_neg Bool.false_ne_true]

theorem collapseChars_append (h : Apart cs ds) :
    collapseChars (cs ++ ds) = collapseChars cs ++ collapseChars ds := by
  fun_induction collapseChars cs with
  | case1 => rfl
  | case2 c =>
      cases ds with
      | nil => rw [List.append_nil, collapseChars_nil, List.append_nil, collapseChars_singleton]
      | cons d ds =>
          apply collapseChars_cons
          rcases h with hlast | hhead
          · rw [hlast c rfl, Bool.false_and]
          · rw [hhead d rfl, Bool.and_false]
  | case3 c d r hboth ih =>
      rw [Bool.and_eq_true] at hboth
      have hrest : Apart (d :: r) ds := h.of_suffix (List.suffix_cons c (d :: r))
      have hdrop : Apart (r.dropWhile isBlank) ds :=
        hrest.of_suffix ((List.dropWhile_suffix isBlank).trans (List.suffix_cons d r))
      rw [List.cons_append, List.cons_append, collapseChars_pair hboth.1 hboth.2,
        hrest.dropWhile_append hboth.2, ih hdrop, List.cons_append]
  | case4 c d r hboth ih =>
      rw [Bool.not_eq_true] at hboth
      rw [List.cons_append, List.cons_append, collapseChars_cons hboth, List.cons_append]
      exact congrArg (c :: ·) (ih (h.of_suffix (List.suffix_cons c (d :: r))))

/-! ## Runs of blanks -/

/-- A maximal run of blanks between two texts. -/
structure IsRun (before run after : List Char) : Prop where
  ne_nil : run ≠ []
  blank : ∀ c ∈ run, isBlank c = true
  front : ∀ c ∈ before.getLast?, isBlank c = false
  back : ∀ c ∈ after.head?, isBlank c = false

/-- What is left of a run of blanks. -/
def mark (run : List Char) : List Char := if run.length = 1 then run else [' ']

theorem collapseChars_run (hne : run ≠ []) (hblank : ∀ c ∈ run, isBlank c = true) :
    collapseChars run = mark run := by
  rcases run with _ | ⟨c, _ | ⟨d, r⟩⟩
  · exact absurd rfl hne
  · rw [collapseChars_singleton]
    rfl
  · have hrest : r.dropWhile isBlank = [] :=
      List.dropWhile_eq_nil_iff.mpr fun x hx => hblank x (by simp [hx])
    rw [collapseChars_pair (hblank c (by simp)) (hblank d (by simp)), hrest, collapseChars_nil]
    rfl

theorem IsRun.collapseChars_append (h : IsRun before run after) :
    collapseChars (before ++ (run ++ after)) =
      collapseChars before ++ (mark run ++ collapseChars after) := by
  rw [Text.collapseChars_append (.inl h.front), Text.collapseChars_append (.inr h.back),
    collapseChars_run h.ne_nil h.blank]

/-! ## What is left -/

theorem head?_collapseChars (cs : List Char) :
    (collapseChars cs).head?.map isBlank = cs.head?.map isBlank := by
  fun_induction collapseChars cs with
  | case3 c d r hboth _ =>
      rw [Bool.and_eq_true] at hboth
      rw [List.head?_cons, List.head?_cons, Option.map_some, Option.map_some, hboth.1]
      rfl
  | _ => rfl

theorem head?_collapseChars_eq_false (h : ∀ c ∈ cs.head?, isBlank c = false) :
    ∀ c ∈ (collapseChars cs).head?, isBlank c = false := by
  intro c hc
  have hhead := head?_collapseChars cs
  rw [hc, Option.map_some] at hhead
  obtain ⟨x, hx, hxc⟩ := Option.map_eq_some_iff.mp hhead.symm
  rw [← hxc]
  exact h x hx

/-- No two blanks stand side by side. -/
def Spaced (cs : List Char) : Prop := cs.IsChain fun c d => (isBlank c && isBlank d) = false

theorem Spaced.cons (hcs : Spaced cs) (h : ∀ d ∈ cs.head?, (isBlank c && isBlank d) = false) :
    Spaced (c :: cs) := by
  cases cs with
  | nil => exact .singleton c
  | cons d cs => exact List.isChain_cons_cons.mpr ⟨h d rfl, hcs⟩

theorem spaced_collapseChars (cs : List Char) : Spaced (collapseChars cs) := by
  fun_induction collapseChars cs with
  | case1 => exact .nil
  | case2 c => exact .singleton c
  | case3 c d r _ ih =>
      -- Behind the run stands a character that is no blank, if any.
      apply ih.cons
      intro e he
      rw [head?_collapseChars_eq_false (head?_dropWhile r) e he, Bool.and_false]
  | case4 c d r hboth ih =>
      apply ih.cons
      intro e he
      have hhead := head?_collapseChars (d :: r)
      rw [he, List.head?_cons, Option.map_some, Option.map_some, Option.some_inj] at hhead
      rw [hhead]
      exact Bool.eq_false_iff.mpr hboth

theorem collapseChars_of_spaced (h : Spaced cs) : collapseChars cs = cs := by
  induction cs with
  | nil => exact collapseChars_nil
  | cons c cs ih =>
      cases cs with
      | nil => exact collapseChars_singleton c
      | cons d cs =>
          obtain ⟨hfirst, hrest⟩ := List.isChain_cons_cons.mp h
          rw [collapseChars_cons hfirst, ih hrest]

theorem collapseChars_collapseChars (cs : List Char) :
    collapseChars (collapseChars cs) = collapseChars cs :=
  collapseChars_of_spaced (spaced_collapseChars cs)

/-- The characters of a text that are not blank. -/
def inked (cs : List Char) : List Char := cs.filter fun c => !isBlank c

theorem inked_dropWhile (cs : List Char) : inked (cs.dropWhile isBlank) = inked cs := by
  have hnone : inked (cs.takeWhile isBlank) = [] := by
    rw [inked, List.filter_eq_nil_iff]
    intro c hc
    rw [List.mem_takeWhile_imp hc]
    decide
  calc
    inked (cs.dropWhile isBlank)
      = inked (cs.takeWhile isBlank) ++ inked (cs.dropWhile isBlank) := by rw [hnone]; rfl
    _ = inked (cs.takeWhile isBlank ++ cs.dropWhile isBlank) := (List.filter_append ..).symm
    _ = inked cs := by rw [List.takeWhile_append_dropWhile]

theorem inked_cons (c : Char) (cs : List Char) :
    inked (c :: cs) = if isBlank c then inked cs else c :: inked cs := by
  cases hc : isBlank c <;> simp [inked, hc]

theorem inked_collapseChars (cs : List Char) : inked (collapseChars cs) = inked cs := by
  fun_induction collapseChars cs with
  | case1 => rfl
  | case2 c => rfl
  | case3 c d r hboth ih =>
      rw [Bool.and_eq_true] at hboth
      rw [inked_cons, inked_cons, inked_cons, hboth.1, hboth.2, ih, inked_dropWhile]
      rfl
  | case4 c d r _ ih => rw [inked_cons, ih, ← inked_cons]

/-! ## Trimming -/

theorem isBlank_of_mem_collapseChars (h : ∀ c ∈ cs, isBlank c = true) :
    ∀ c ∈ collapseChars cs, isBlank c = true := by
  intro c hc
  have hnone : inked (collapseChars cs) = [] := by
    rw [inked_collapseChars, inked, List.filter_eq_nil_iff]
    intro x hx
    rw [h x hx]
    decide
  by_contra hno
  have hmem : c ∈ inked (collapseChars cs) :=
    List.mem_filter.mpr ⟨hc, by rw [Bool.eq_false_iff.mpr hno]; rfl⟩
  rw [hnone] at hmem
  cases hmem

theorem getLast?_collapseChars_eq_false (h : ∀ c ∈ cs.getLast?, isBlank c = false) :
    ∀ c ∈ (collapseChars cs).getLast?, isBlank c = false := by
  rcases List.eq_nil_or_concat' cs with rfl | ⟨front, c, rfl⟩
  · rw [collapseChars_nil]
    exact h
  · have hc : isBlank c = false := h c (by simp)
    have hone : ∀ d ∈ [c].head?, isBlank d = false := by simpa using hc
    rw [collapseChars_append (.inr hone), collapseChars_singleton, List.getLast?_concat]
    simpa using hc

/-- Trimming takes runs of blanks off at the ends, and collapsing works on each run by itself. -/
theorem trimChars_collapseChars (cs : List Char) :
    trimChars (collapseChars cs) = collapseChars (trimChars cs) := by
  obtain ⟨front, back, hsplit, hfront, hback, hhead, hlast⟩ := exists_stripBy isBlank cs
  unfold trimChars
  generalize stripBy isBlank cs = core at hsplit hhead hlast ⊢
  subst hsplit
  cases core with
  | nil =>
      -- A text of blanks only is trimmed to nothing, before or after.
      have hblank : ∀ c ∈ front ++ ([] ++ back), isBlank c = true := by
        intro c hc
        rcases List.mem_append.mp hc with hc | hc
        · exact hfront c hc
        · exact hback c hc
      have hleft := isBlank_of_mem_collapseChars hblank
      generalize collapseChars (front ++ ([] ++ back)) = left at hleft ⊢
      rw [collapseChars_nil]
      have hnil : stripBy isBlank (left ++ ([] ++ [])) = [] :=
        stripBy_append hleft (by simp) (by simp) (by simp)
      rwa [List.append_nil, List.append_nil] at hnil
  | cons c core =>
      have hinner : Apart (c :: core) back := .inl hlast
      have houter : Apart front (c :: core ++ back) := .inr hhead
      rw [collapseChars_append houter, collapseChars_append hinner]
      apply stripBy_append
      · exact isBlank_of_mem_collapseChars hfront
      · exact isBlank_of_mem_collapseChars hback
      · exact head?_collapseChars_eq_false hhead
      · exact getLast?_collapseChars_eq_false hlast

end Harvest.Text

namespace Harvest.Transformation

open Text (isBlank collapseChars IsRun inked)

/-- Collapsing blanks leaves no two of them side by side, keeps all other characters in order and
each blank that stands alone, changes nothing when done again and may change places with
trimming. -/
theorem collapseBlanks_laws (s : String) (options : Members) :
    ∃ t, collapseBlanks.run (.str s) options = .ok (.str t) ∧
      t.toList.IsChain (fun c d => ¬ (isBlank c = true ∧ isBlank d = true)) ∧
      t.toList.filter (fun c => !isBlank c) = s.toList.filter (fun c => !isBlank c) ∧
      (∀ before run after, s.toList = before ++ (run ++ after) → IsRun before run after →
        t.toList = collapseChars before ++
          ((if run.length = 1 then run else [' ']) ++ collapseChars after)) ∧
      collapseBlanks.run (.str t) options = .ok (.str t) ∧
      Registry.standard.applyChain ["trim", "removeExtraWhitespace"] (.str s) options =
        Registry.standard.applyChain ["removeExtraWhitespace", "trim"] (.str s) options := by
  refine ⟨Text.collapse s, rfl, ?_, ?_, ?_, ?_, ?_⟩
  · rw [Text.collapse, String.toList_ofList]
    apply (Text.spaced_collapseChars s.toList).imp
    rintro c d hfalse ⟨hc, hd⟩
    rw [hc, hd] at hfalse
    cases hfalse
  · rw [Text.collapse, String.toList_ofList]
    exact Text.inked_collapseChars s.toList
  · intro before run after hs hrun
    rw [Text.collapse, String.toList_ofList, hs]
    exact hrun.collapseChars_append
  · show Except.ok (Json.str (Text.collapse (Text.collapse s))) = _
    rw [Text.collapse, Text.collapse, String.toList_ofList, Text.collapseChars_collapseChars]
  · show Except.ok (Json.str (Text.collapse (Text.trim s))) =
      Except.ok (Json.str (Text.trim (Text.collapse s)))
    rw [Text.collapse, Text.trim, Text.collapse, Text.trim, String.toList_ofList,
      String.toList_ofList, Text.trimChars_collapseChars]

theorem collapseBlanks_laws_lineFeed :
    IsRun "a  b".toList ['\n'] ['c'] ∧
      ∃ t, collapseBlanks.run (.str "a  b\nc") [] = .ok (.str t) ∧
        t.toList = collapseChars "a  b".toList ++ (['\n'] ++ collapseChars ['c']) := by
  have hrun : IsRun "a  b".toList ['\n'] ['c'] := by
    refine ⟨by decide, List.all_eq_true.mp rfl, fun c hc => ?_, fun c hc => ?_⟩
    · obtain rfl : 'b' = c := Option.some.inj hc
      rfl
    · obtain rfl : 'c' = c := Option.some.inj hc
      rfl
  obtain ⟨t, ht, _, _, hkeep, _⟩ := collapseBlanks_laws "a  b\nc" []
  exact ⟨hrun, t, ht, hkeep _ _ _ (by decide) hrun⟩

end Harvest.Transformation
