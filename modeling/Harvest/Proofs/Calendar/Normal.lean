import Harvest.Proofs.Calendar.Reading

/-!
# The text that layouts read

Layouts read a text whose ordinal numbers have lost their suffixes, and whose words stand one space
apart.  Both changes leave the digits, their order and what separates them.
-/

namespace Harvest.Calendar.Layout

open Text (isBlank isDecimal isWord IsLetter fieldsBy runs runsFrom)

variable {cs ds r : List Char} {c : Char} {inWord : Bool}

/-! ## Ordinal numbers -/

/-- An ordinal number is one or two digits and a suffix that no word character follows. -/
theorem ordinal?_eq_some (h : ordinal? cs = some (ds, r)) : ∃ a b, cs = ds ++ a :: b :: r ∧
    ds ≠ [] ∧ (∀ c ∈ ds, isDecimal c = true) ∧ isOrdinalSuffix a b = true := by
  unfold ordinal? at h
  split at h
  · next a b c d rest =>
    split at h
    · next hboth =>
      cases h
      simp only [Bool.and_eq_true] at hboth
      exact ⟨c, d, rfl, List.cons_ne_nil a [b], by simp [hboth], hboth.1.2⟩
    · split at h
      · next hone =>
        cases h
        simp only [Bool.and_eq_true] at hone
        exact ⟨b, c, rfl, List.cons_ne_nil a [], by simp [hone], hone.1.2⟩
      · cases h
  · next a b c =>
    split at h
    · next hone =>
      cases h
      rw [Bool.and_eq_true] at hone
      exact ⟨b, c, rfl, List.cons_ne_nil a [], by simp [hone], hone.2⟩
    · cases h
  · cases h

/-- A suffix is two letters. -/
theorem letters_of_isOrdinalSuffix {a b : Char} (h : isOrdinalSuffix a b = true) :
    IsLetter a ∧ IsLetter b := by
  have hlower : ∀ s ∈ [('s', 't'), ('n', 'd'), ('r', 'd'), ('t', 'h')],
      s.1.isLower = true ∧ s.2.isLower = true := by decide
  obtain ⟨s, hs, hboth⟩ := List.any_eq_true.mp h
  rw [Bool.and_eq_true] at hboth
  exact ⟨Text.isLetter_of_equal (hlower s hs).1 hboth.1,
    Text.isLetter_of_equal (hlower s hs).2 hboth.2⟩

theorem exists_suffix {e : String} {w : List Char} (he : e ∈ ["st", "nd", "rd", "th"])
    (h : lowered w = e.toList) : ∃ a b, w = [a, b] ∧ isOrdinalSuffix a b = true := by
  have hpairs : ∀ e ∈ ["st", "nd", "rd", "th"],
      ∃ s ∈ [('s', 't'), ('n', 'd'), ('r', 'd'), ('t', 'h')], e.toList = [s.1, s.2] ∧
        s.1.isLower = true ∧ s.2.isLower = true := by decide
  obtain ⟨s, hs, hletters, hfirst, hsecond⟩ := hpairs e he
  rw [hletters] at h
  obtain ⟨a, v, rfl, ha, hv⟩ := List.map_eq_cons_iff.mp h
  obtain ⟨b, r, rfl, hb, hr⟩ := List.map_eq_cons_iff.mp hv
  rw [List.map_eq_nil_iff.mp hr]
  refine ⟨a, b, rfl, List.any_eq_true.mpr ⟨s, hs, ?_⟩⟩
  rw [Text.equalIgnoringCase_of_toLower hfirst ha, Text.equalIgnoringCase_of_toLower hsecond hb]
  rfl

theorem isOrdinalSuffix_of_left {a : Char} (ha : ¬ IsLetter a) (b : Char) :
    isOrdinalSuffix a b = false :=
  Bool.eq_false_iff.mpr fun h => ha (letters_of_isOrdinalSuffix h).1

theorem isOrdinalSuffix_of_right {b : Char} (hb : ¬ IsLetter b) (a : Char) :
    isOrdinalSuffix a b = false :=
  Bool.eq_false_iff.mpr fun h => hb (letters_of_isOrdinalSuffix h).2

theorem not_isLetter_of_isDecimal (h : isDecimal c = true) : ¬ IsLetter c := by
  rintro ⟨_, hdigit⟩
  rw [h] at hdigit
  cases hdigit

theorem not_isLetter_of_isWord (h : isWord c = false) : ¬ IsLetter c := by
  rintro ⟨hword, _⟩
  rw [h] at hword
  cases hword

theorem runsFrom_dropOrdinals_le (inWord : Bool) (cs : List Char) (inside : Bool) :
    runsFrom inside (dropOrdinals inWord cs) ≤ runsFrom inside cs := by
  fun_induction dropOrdinals inWord cs generalizing inside with
  | case1 inWord cs ds r hhit ih =>
      have hsome : ordinal? cs = some (ds, r) := by
        split at hhit
        · cases hhit
        · exact hhit
      obtain ⟨a, b, rfl, hne, hdigits, _⟩ := ordinal?_eq_some hsome
      rw [Text.runsFrom_append_of_digits hne hdigits, Text.runsFrom_append_of_digits hne hdigits]
      have hrest : runsFrom true r ≤ runsFrom true (a :: b :: r) :=
        le_trans (Text.runsFrom_true_le_cons b r) (Text.runsFrom_true_le_cons a (b :: r))
      exact Nat.add_le_add_left (le_trans (ih true) hrest) _
  | case2 => exact le_rfl
  | case3 inWord c r hhit ih =>
      cases hc : isDecimal c with
      | true =>
          rw [Text.runsFrom_cons_of_digit hc, Text.runsFrom_cons_of_digit hc]
          exact Nat.add_le_add_left (ih true) _
      | false =>
          rw [Text.runsFrom_cons_of_other hc, Text.runsFrom_cons_of_other hc]
          exact ih false

theorem mem_dropOrdinals (hc : c ∈ cs) (hother : ¬ IsLetter c) (inWord : Bool) :
    c ∈ dropOrdinals inWord cs := by
  fun_induction dropOrdinals inWord cs with
  | case1 inWord cs ds r hhit ih =>
      have hsome : ordinal? cs = some (ds, r) := by
        split at hhit
        · cases hhit
        · exact hhit
      obtain ⟨a, b, rfl, _, _, hsuffix⟩ := ordinal?_eq_some hsome
      rcases List.mem_append.mp hc with hds | hrest
      · exact List.mem_append_left _ hds
      · have hr : c ∈ r := by
          rcases List.mem_cons.mp hrest with rfl | hrest
          · exact absurd (letters_of_isOrdinalSuffix hsuffix).1 hother
          · rcases List.mem_cons.mp hrest with rfl | hr
            · exact absurd (letters_of_isOrdinalSuffix hsuffix).2 hother
            · exact hr
        exact List.mem_append_right _ (ih hr)
  | case2 => cases hc
  | case3 inWord d r hhit ih =>
      rcases List.mem_cons.mp hc with rfl | hr
      · exact List.mem_cons_self
      · exact List.mem_cons_of_mem d (ih hr)

/-! ## Where suffixes go -/

theorem ordinal?_cons_eq_none (hc : isDecimal c = false) (r : List Char) :
    ordinal? (c :: r) = none := by
  unfold ordinal?
  split
  · next a b e f rest heq =>
    obtain ⟨rfl, rfl⟩ := List.cons.inj heq
    simp [hc]
  · next a b e heq =>
    obtain ⟨rfl, rfl⟩ := List.cons.inj heq
    simp [hc]
  · rfl

theorem dropOrdinals_nil (inWord : Bool) : dropOrdinals inWord [] = [] := by
  rw [dropOrdinals]
  cases inWord <;> rfl

theorem dropOrdinals_cons (h : inWord = true ∨ ordinal? (c :: r) = none) :
    dropOrdinals inWord (c :: r) = c :: dropOrdinals (isWord c) r := by
  have hnone : (if inWord then none else ordinal? (c :: r)) = none := by
    rcases h with rfl | hnone
    · rfl
    · rw [hnone, ite_self]
  rw [dropOrdinals]
  split
  · next hsome =>
    rw [hnone] at hsome
    cases hsome
  · rfl

theorem dropOrdinals_of_hit (h : ordinal? cs = some (ds, r)) :
    dropOrdinals false cs = ds ++ dropOrdinals true r := by
  rw [dropOrdinals]
  split
  · next hsome =>
    cases h.symm.trans hsome
    rfl
  · next hnone =>
    cases h.symm.trans hnone

/-- Inside a word nothing is dropped. -/
theorem dropOrdinals_append_of_word (h : ∀ c ∈ cs, isWord c = true) (r : List Char) :
    dropOrdinals true (cs ++ r) = cs ++ dropOrdinals true r := by
  induction cs with
  | nil => rfl
  | cons c cs ih =>
      rw [List.cons_append, dropOrdinals_cons (.inl rfl), h c List.mem_cons_self,
        ih fun x hx => h x (List.mem_cons_of_mem c hx), List.cons_append]

/-- A text without digits stays, and what follows goes on with its last word. -/
theorem dropOrdinals_append_of_other (h : ∀ c ∈ cs, isDecimal c = false) (inWord : Bool)
    (r : List Char) : dropOrdinals inWord (cs ++ r) =
      cs ++ dropOrdinals ((cs.getLast?.map isWord).getD inWord) r := by
  induction cs generalizing inWord with
  | nil => rfl
  | cons c cs ih =>
      rw [List.cons_append,
        dropOrdinals_cons (.inr (ordinal?_cons_eq_none (h c List.mem_cons_self) _)),
        ih fun x hx => h x (List.mem_cons_of_mem c hx), List.cons_append, List.getLast?_cons]
      cases cs.getLast? <;> rfl

/-- The third character of an ordinal number is a letter. -/
theorem ordinal?_eq_none_of_third {a b : Char} (hc : ¬ IsLetter c) :
    ordinal? (a :: b :: c :: r) = none := by
  have hright := isOrdinalSuffix_of_right hc b
  cases r with
  | nil => simp [ordinal?, hright]
  | cons d r => simp [ordinal?, hright, isOrdinalSuffix_of_left hc d]

/-- The second character of an ordinal number is a letter or a digit. -/
theorem ordinal?_eq_none_of_second {a : Char} (hc : isWord c = false) :
    ordinal? (a :: c :: r) = none := by
  have hletter := not_isLetter_of_isWord hc
  have hdigit : isDecimal c = false := by
    rw [← Bool.not_eq_true]
    intro hdigit
    rw [Text.isWord_of_isDecimal hdigit] at hc
    cases hc
  rcases r with _ | ⟨d, _ | ⟨e, r⟩⟩
  · rfl
  · simp [ordinal?, isOrdinalSuffix_of_left hletter d]
  · simp [ordinal?, hdigit, isOrdinalSuffix_of_left hletter d]

/-- A number of one or two digits loses its suffix where a word starts. -/
theorem dropOrdinals_number {sf : List Char} (hne : ds ≠ []) (hlength : ds.length ≤ 2)
    (hds : ∀ x ∈ ds, isDecimal x = true)
    (hsf : sf = [] ∨ ∃ a b, sf = [a, b] ∧ isOrdinalSuffix a b = true) (hc : isWord c = false)
    (r : List Char) :
    dropOrdinals false (ds ++ (sf ++ c :: r)) = ds ++ c :: dropOrdinals false r := by
  have hend : dropOrdinals true (c :: r) = c :: dropOrdinals false r := by
    rw [dropOrdinals_cons (.inl rfl), hc]
  have hstart : ∀ {x}, isDecimal x = true → isWord x = true := Text.isWord_of_isDecimal
  match ds, hne, hlength with
  | [x], _, _ =>
      have hx := hds x List.mem_cons_self
      rcases hsf with rfl | ⟨a, b, rfl, hsuffix⟩
      · rw [List.nil_append, List.singleton_append,
          dropOrdinals_cons (.inr (ordinal?_eq_none_of_second hc)), hstart hx, hend,
          List.singleton_append]
      · have hhit : ordinal? (x :: a :: b :: c :: r) = some ([x], c :: r) := by
          simp [ordinal?, hx, hsuffix, (letters_of_isOrdinalSuffix hsuffix).1.2, startsWithWord, hc]
        exact (dropOrdinals_of_hit hhit).trans (congrArg _ hend)
  | [x, y], _, _ =>
      have hx := hds x List.mem_cons_self
      have hy := hds y (by simp)
      rcases hsf with rfl | ⟨a, b, rfl, hsuffix⟩
      · have hnone := ordinal?_eq_none_of_third (a := x) (b := y) (r := r)
          (not_isLetter_of_isWord hc)
        show dropOrdinals false (x :: y :: c :: r) = x :: y :: c :: dropOrdinals false r
        rw [dropOrdinals_cons (.inr hnone), hstart hx, dropOrdinals_cons (.inl rfl),
          hstart hy, hend]
      · have hhit : ordinal? (x :: y :: a :: b :: c :: r) = some ([x, y], c :: r) := by
          simp [ordinal?, hx, hy, hsuffix, startsWithWord, hc]
        exact (dropOrdinals_of_hit hhit).trans (congrArg _ hend)

/-- A number of more digits has no suffix. -/
theorem dropOrdinals_year (hlength : ds.length = 4) (hds : ∀ x ∈ ds, isDecimal x = true)
    (hr : ∀ x ∈ r, isDecimal x = false) (inWord : Bool) :
    dropOrdinals inWord (ds ++ r) = ds ++ r := by
  obtain ⟨a, b, c, e, rfl⟩ := List.length_eq_four.mp hlength
  have hword : ∀ x ∈ [b, c, e], isWord x = true := fun x hx =>
    Text.isWord_of_isDecimal (hds x (List.mem_cons_of_mem a hx))
  have hthird : ¬ IsLetter c := not_isLetter_of_isDecimal (hds c (by simp))
  have hrest : dropOrdinals true r = r := by
    have hrest := dropOrdinals_append_of_other hr true []
    rwa [dropOrdinals_nil, List.append_nil] at hrest
  have hnone : ordinal? (a :: ([b, c, e] ++ r)) = none := ordinal?_eq_none_of_third hthird
  rw [List.cons_append, dropOrdinals_cons (.inr hnone),
    Text.isWord_of_isDecimal (hds a List.mem_cons_self), dropOrdinals_append_of_word hword, hrest,
    List.cons_append]

/-! ## Words -/

theorem isDecimal_of_isNoise (h : isNoise c = true) : isDecimal c = false := by
  rw [isNoise, Bool.or_eq_true, beq_iff_eq] at h
  rcases h with rfl | hblank
  · decide
  · exact Text.isDecimal_of_isBlank hblank

theorem isNoise_of_isWord (h : isWord c = true) : isNoise c = false := by
  rw [isNoise, Text.isBlank_of_isWord h, Bool.or_false, beq_eq_false_iff_ne]
  rintro rfl
  exact absurd h (by decide)

theorem isBlank_of_isNoise (h : isNoise c = false) : isBlank c = false := by
  rw [isNoise, Bool.or_eq_false_iff] at h
  exact h.2

/-- Three words with noise between them stand one space apart. -/
theorem normalize_of_three {u v w gap gap' : List Char} (hu : u ≠ [] ∧ ∀ c ∈ u, isNoise c = false)
    (hv : v ≠ [] ∧ ∀ c ∈ v, isNoise c = false) (hw : w ≠ [] ∧ ∀ c ∈ w, isNoise c = false)
    (hgap : gap ≠ [] ∧ ∀ c ∈ gap, isNoise c = true)
    (hgap' : gap' ≠ [] ∧ ∀ c ∈ gap', isNoise c = true)
    (h : dropOrdinals false cs = u ++ (gap ++ (v ++ (gap' ++ w)))) :
    normalize cs = u ++ ' ' :: (v ++ ' ' :: w) := by
  rw [normalize, h, Text.fieldsBy_append_gap hgap.1 hgap.2,
    Text.fieldsBy_append_gap hgap'.1 hgap'.2,
    Text.fieldsBy_eq_singleton hu.1 hu.2, Text.fieldsBy_eq_singleton hv.1 hv.2,
    Text.fieldsBy_eq_singleton hw.1 hw.2]
  simp [List.intercalate]

theorem runs_normalize_le (cs : List Char) : runs (normalize cs) ≤ runs cs := by
  rw [normalize, Text.runs_intercalate (by decide),
    Text.totalRuns_fieldsBy fun _ => isDecimal_of_isNoise]
  exact runsFrom_dropOrdinals_le false cs false

theorem mem_normalize (hc : c ∈ cs) (hother : ¬ IsLetter c) (hnoise : isNoise c = false) :
    c ∈ normalize cs := by
  obtain ⟨w, hw, hcw⟩ := Text.exists_mem_fieldsBy (mem_dropOrdinals hc hother false) hnoise
  exact Text.mem_intercalate hw hcw

end Harvest.Calendar.Layout
