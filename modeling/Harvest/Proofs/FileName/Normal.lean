import Harvest.Proofs.FileName
import Harvest.Proofs.Text.Fields

/-!
# The normal form of names

The safe form of a name begins with no low line and has no two of them side by side, whatever the
name is.  A name in this form is changed only where it ends in a low line, which a cut may leave
there, so that nothing changes any more from the second time on.
-/

namespace Harvest.FileName

/-- Names in safe form: there are characters, all of them are safe, the first one is no low line,
and no two low lines stand side by side. -/
structure Sanitized (cs : List Char) : Prop where
  ne_nil : cs ≠ []
  safe : ∀ c ∈ cs, isSafe c = true
  front : cs.head? ≠ some '_'
  apart : cs.IsChain fun c d => ¬ (c = '_' ∧ d = '_')

/-! ## Runs of low lines -/

theorem head?_squeeze (cs : List Char) : (squeeze cs).head? = cs.head? := by
  fun_induction squeeze cs with
  | case1 r ih => exact ih
  | case2 c r hc ih => rfl
  | case3 => rfl

theorem isChain_squeeze (cs : List Char) :
    (squeeze cs).IsChain fun c d => ¬ (c = '_' ∧ d = '_') := by
  fun_induction squeeze cs with
  | case1 r ih => exact ih
  | case2 c r hc ih =>
      refine List.isChain_cons.mpr ⟨?_, ih⟩
      rintro d hd ⟨rfl, rfl⟩
      rw [head?_squeeze] at hd
      obtain ⟨r, rfl⟩ := List.head?_eq_some_iff.mp hd
      exact hc r rfl rfl
  | case3 => exact .nil

theorem squeeze_eq_self {cs : List Char} (h : cs.IsChain fun c d => ¬ (c = '_' ∧ d = '_')) :
    squeeze cs = cs := by
  fun_induction squeeze cs with
  | case1 r ih => exact absurd ⟨rfl, rfl⟩ (List.isChain_cons_cons.mp h).1
  | case2 c r hc ih => rw [ih (List.isChain_cons.mp h).2]
  | case3 => rfl

theorem replaceUnsafe_eq_self {cs : List Char} (h : ∀ c ∈ cs, isSafe c = true) :
    replaceUnsafe cs = cs := by
  have hkeep : ∀ c ∈ cs, (if isSafe c then c else '_') = c := fun c hc => if_pos (h c hc)
  rw [replaceUnsafe, List.map_congr_left hkeep]
  exact List.map_id' cs

/-! ## Names in safe form -/

theorem ne_line {c : Option Char} (h : c ≠ some '_') : ∀ d ∈ c, (d == '_') = false := by
  rintro d rfl
  simpa using h

namespace Sanitized

variable {cs ds : List Char}

theorem of_front (h : Sanitized cs) (hne : ds ≠ []) (hds : ds <+: cs) : Sanitized ds := by
  obtain ⟨rest, rfl⟩ := hds
  refine ⟨hne, fun c hc => h.safe c (List.mem_append_left _ hc), fun hfront => h.front ?_,
    h.apart.left_of_append⟩
  rw [List.head?_append, hfront]
  rfl

/-- A name in safe form that ends in a low line has something else in front of that one. -/
theorem last (h : Sanitized (cs ++ ['_'])) : Sanitized cs ∧ cs.getLast? ≠ some '_' := by
  have hne : cs ≠ [] := by
    rintro rfl
    exact h.front rfl
  refine ⟨h.of_front hne (List.prefix_append cs ['_']), fun hlast => ?_⟩
  exact (List.isChain_append.mp h.apart).2.2 '_' hlast '_' rfl ⟨rfl, rfl⟩

theorem cleanChars_eq (h : Sanitized cs) : cleanChars cs = Text.stripBy (· == '_') cs := by
  rw [cleanChars, replaceUnsafe_eq_self h.safe, squeeze_eq_self h.apart]

theorem cleanChars_eq_self (h : Sanitized cs) (hlast : cs.getLast? ≠ some '_') :
    cleanChars cs = cs := by
  have hnone : ∀ c ∈ ([] : List Char), (c == '_') = true := nofun
  rw [h.cleanChars_eq]
  simpa using Text.stripBy_append hnone hnone (ne_line h.front) (ne_line hlast)

/-- Only a low line at the end is cut off. -/
theorem cleanChars_concat (h : Sanitized (cs ++ ['_'])) : cleanChars (cs ++ ['_']) = cs := by
  obtain ⟨hcs, hlast⟩ := h.last
  have hnone : ∀ c ∈ ([] : List Char), (c == '_') = true := nofun
  rw [h.cleanChars_eq]
  exact Text.stripBy_append hnone (by simp) (ne_line hcs.front) (ne_line hlast)

end Sanitized

/-! ## The safe form -/

/-- What is left of a name before it is cut is in safe form, if anything is left. -/
theorem sanitized_cleanChars {cs : List Char} (hne : cleanChars cs ≠ []) :
    Sanitized (cleanChars cs) := by
  obtain ⟨front, back, hsplit, _, _, hhead, _⟩ :=
    Text.exists_stripBy (· == '_') (squeeze (replaceUnsafe cs))
  refine ⟨hne, fun c hc => isSafe_of_mem_cleanChars hc, fun hfront => ?_, ?_⟩
  · have hline := hhead '_' hfront
    cases hline
  · have hinfix : cleanChars cs <:+: squeeze (replaceUnsafe cs) :=
      ⟨front, back, by rw [List.append_assoc]; exact hsplit.symm⟩
    exact List.IsChain.infix (isChain_squeeze _) hinfix

theorem sanitized_unnamed : Sanitized "unnamed".toList :=
  ⟨by decide, fun _ => isSafe_of_mem_unnamed, by decide, by decide⟩

theorem cut_prefix (n : Int) (cs : List Char) : cut n cs <+: cs := by
  unfold cut
  split <;> exact List.take_prefix _ _

section
variable {limit : Int} {cs : List Char}

/-- The safe form of a name is the first part of what is left of it, or that of no name. -/
theorem sanitizeChars_cases (limit : Int) (cs : List Char) :
    (sanitizeChars limit cs ≠ [] ∧ sanitizeChars limit cs <+: cleanChars cs ∧
        (0 ≤ limit → (sanitizeChars limit cs).length ≤ limit)) ∨
      sanitizeChars limit cs = "unnamed".toList := by
  have hshort : ∃ short, short <+: cleanChars cs ∧ (0 ≤ limit → short.length ≤ limit) ∧
      sanitizeChars limit cs = if short.isEmpty then "unnamed".toList else short := by
    refine ⟨_, ?_, ?_, rfl⟩
    · split
      · exact cut_prefix limit _
      · exact List.prefix_refl _
    · intro hlimit
      split
      · rw [length_cut hlimit]
        omega
      · omega
  obtain ⟨short, hpre, hlength, heq⟩ := hshort
  rw [heq]
  by_cases hempty : short.isEmpty = true
  · exact Or.inr (if_pos hempty)
  · rw [if_neg hempty]
    exact Or.inl ⟨by simpa using hempty, hpre, hlength⟩

theorem sanitized_sanitizeChars (limit : Int) (cs : List Char) :
    Sanitized (sanitizeChars limit cs) := by
  obtain ⟨hne, hpre, _⟩ | hunnamed := sanitizeChars_cases limit cs
  · have hclean : cleanChars cs ≠ [] := fun hnil => hne (List.prefix_nil.mp (hnil ▸ hpre))
    exact (sanitized_cleanChars hclean).of_front hne hpre
  · rw [hunnamed]
    exact sanitized_unnamed

theorem length_sanitizeChars_le (hlimit : 7 ≤ limit) (cs : List Char) :
    (sanitizeChars limit cs).length ≤ limit := by
  obtain ⟨_, _, hlength⟩ | hunnamed := sanitizeChars_cases limit cs
  · exact hlength (by omega)
  · rw [hunnamed]
    exact hlimit

/-- A name that is short enough is not cut. -/
theorem sanitizeChars_eq_cleanChars (hne : cleanChars cs ≠ [])
    (hlength : (cleanChars cs).length ≤ limit) : sanitizeChars limit cs = cleanChars cs := by
  unfold sanitizeChars
  dsimp only
  rw [if_neg (not_lt.mpr hlength), if_neg (by simpa using hne)]

theorem Sanitized.sanitizeChars_eq_self (h : Sanitized cs) (hlast : cs.getLast? ≠ some '_')
    (hlength : cs.length ≤ limit) : sanitizeChars limit cs = cs := by
  have hclean := h.cleanChars_eq_self hlast
  rw [sanitizeChars_eq_cleanChars (by rw [hclean]; exact h.ne_nil) (by rwa [hclean]), hclean]

theorem Sanitized.sanitizeChars_concat (h : Sanitized (cs ++ ['_'])) (hlength : cs.length ≤ limit) :
    sanitizeChars limit (cs ++ ['_']) = cs := by
  have hclean := h.cleanChars_concat
  rw [sanitizeChars_eq_cleanChars (by rw [hclean]; exact h.last.1.ne_nil) (by rwa [hclean]), hclean]

end

/-- The safe form of any name is not empty, is as short as asked for, consists of safe characters,
begins with no low line and has no two of them side by side.  The safe form of the safe form lacks
at most a low line at its end, and is its own safe form. -/
theorem sanitize_normal (name : String) {limit : Int} (hlimit : 7 ≤ limit) :
    let safe := sanitize name limit
    Sanitized safe.toList ∧ safe.length ≤ limit ∧
      (sanitize safe limit = safe ∨ sanitize safe limit ++ "_" = safe) ∧
      sanitize (sanitize safe limit) limit = sanitize safe limit := by
  intro safe
  have hchars : safe.toList = sanitizeChars limit name.toList := String.toList_ofList
  have hsafe : Sanitized safe.toList := hchars ▸ sanitized_sanitizeChars limit name.toList
  have hlength : safe.length ≤ limit := by
    rw [← String.length_toList, hchars]
    exact length_sanitizeChars_le hlimit name.toList
  refine ⟨hsafe, hlength, ?_⟩
  by_cases hlast : safe.toList.getLast? = some '_'
  · obtain ⟨cs, hcs⟩ := List.getLast?_eq_some_iff.mp hlast
    rw [hcs] at hsafe
    obtain ⟨hcut, hend⟩ := hsafe.last
    have hshort : cs.length ≤ limit := by
      rw [← String.length_toList, hcs, List.length_append] at hlength
      omega
    have hfirst : sanitize safe limit = String.ofList cs := by
      rw [sanitize, hcs, hsafe.sanitizeChars_concat hshort]
    rw [hfirst]
    refine ⟨Or.inr ?_, ?_⟩
    · rw [← String.toList_inj, String.toList_append, String.toList_ofList, hcs]
      rfl
    · rw [sanitize, String.toList_ofList, hcut.sanitizeChars_eq_self hend hshort]
  · have hself : sanitize safe limit = safe := by
      rw [sanitize, hsafe.sanitizeChars_eq_self hlast (by rwa [String.length_toList]),
        String.ofList_toList]
    exact ⟨Or.inl hself, congrArg (sanitize · limit) hself⟩

/-- A name that is cut behind a low line. -/
theorem sanitize_normal_cut : (7 : Int) ≤ 7 ∧
    sanitize "monday at noon" 7 = "monday_" ∧ sanitize "monday_" 7 = "monday" ∧
    Sanitized "monday_".toList ∧ sanitize "monday" 7 = "monday" := by
  have hname : sanitize "monday at noon" 7 = "monday_" := by decide +kernel
  have hagain : sanitize "monday_" 7 = "monday" := by decide +kernel
  obtain ⟨hsafe, _, _, hsettled⟩ := sanitize_normal "monday at noon" (le_refl 7)
  rw [hname] at hsafe hsettled
  rw [hagain] at hsettled
  exact ⟨le_refl 7, hname, hagain, hsafe, hsettled⟩

end Harvest.FileName
