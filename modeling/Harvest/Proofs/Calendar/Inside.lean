import Harvest.Proofs.Calendar.MailNumbers
import Harvest.Proofs.Calendar.Normal
import Harvest.Proofs.Calendar.Stable

/-!
# A date inside a text

A date in the international format is found in any text that has no other digits: in front of the
text it is read with whatever follows it, elsewhere no stage takes the whole text for a date, and
the search finds it where it stands.
-/

namespace Harvest.Calendar

open Format (padded isoDate)
open Text (isDecimal isBlank runs runsFrom decimalCount trimChars)

variable {cs front rest before after : List Char} {c : Char} {d : Date} {v : DateTime}

/-! ## The international format -/

/-- A text that holds a date is none in the international format, or it is that date. -/
theorem date_of_parseIso? (hbefore : ∀ c ∈ before, isDecimal c = false)
    (hv : parseIso? (before ++ (isoDate d ++ after)) = some v) : v.date = d := by
  have hlast : ∀ c ∈ (before ++ isoDate d).getLast?, c ≠ 'Z' ∧ c ≠ 'z' := by
    intro c hc
    have hdate : c ∈ isoDate d := by
      rw [List.getLast?_append] at hc
      cases hend : (isoDate d).getLast? with
      | none =>
          have hlength := length_isoDate d
          rw [List.getLast?_eq_none_iff.mp hend] at hlength
          cases hlength
      | some x =>
          rw [hend] at hc
          cases hc
          exact List.mem_of_getLast? hend
    have hplain := plain_isoDate d
    constructor
    · rintro rfl
      exact hplain.ne (by decide) (by decide) hdate
    · rintro rfl
      exact hplain.ne (by decide) (by decide) hdate
  obtain ⟨rest, hrest⟩ := exists_parse?_of_parseIso? hlast after
  rw [← List.append_assoc, hrest] at hv
  cases before with
  | nil => exact date_of_parse? hv
  | cons c before =>
      have hnone : Iso.parse? ([] ++ c :: (before ++ isoDate d ++ rest)) = none :=
        parse?_eq_none (by decide) (digit?_eq_none (hbefore c List.mem_cons_self)) _
      rw [List.cons_append, List.cons_append, ← List.nil_append (c :: _), hnone] at hv
      cases hv

/-! ## Layouts -/

theorem layouts_hyphen : ∀ layout ∈ Layout.layouts, .mark '-' ∈ layout →
    5 ≤ Layout.numberCount layout := by
  decide

/-- A layout with hyphens has a time of day behind the date. -/
theorem parse?_of_hyphen (hmem : '-' ∈ cs) (hruns : runs cs < 5) : Layout.parse? cs = none := by
  rw [Layout.parse?, List.findSome?_eq_none_iff]
  intro layout hlayout
  rw [Option.eq_none_iff_forall_ne_some]
  intro v hread
  obtain ⟨g, hreads, _⟩ := Layout.reads_of_read? hread
  have hother : ¬ Text.IsLetter '-' := Layout.not_isLetter_of_isWord (by decide)
  have hmark := Layout.mark_mem_of_reads hreads
    (Layout.mem_normalize hmem hother (by decide)) (by decide) (by decide) (by decide)
  obtain ⟨hplain, hseparated⟩ := Layout.layouts_proper layout hlayout
  have hcount := Layout.numberCount_le_runs hreads hplain hseparated
  have hle := Layout.runs_normalize_le cs
  have hfive := layouts_hyphen layout hlayout hmark
  omega

/-! ## The whole text -/

theorem isDecimal_padded (k n : Nat) : ∀ c ∈ padded k n, isDecimal c = true := fun c hc =>
  isDecimal_of_isDigit (isDigit_padded k n c hc)

theorem runs_padded {k n : Nat} (hk : 0 < k) (hn : n < 10 ^ k) : runs (padded k n) = 1 := by
  have hne : padded k n ≠ [] := by
    rw [← List.length_pos_iff, length_padded hk hn]
    exact hk
  have hruns := Text.runsFrom_append_of_digits hne (isDecimal_padded k n) false []
  rwa [List.append_nil] at hruns

theorem runs_isoDate (d : Date) : runs (isoDate d) = 3 := by
  rw [isoDate, List.append_assoc, List.cons_append, Text.runs_append_cons (by decide),
    Text.runs_append_cons (by decide), runs_padded (by decide) d.year_lt,
    runs_padded (by decide) d.month_lt, runs_padded (by decide) d.day_lt]

theorem decimalCount_isoDate (d : Date) : decimalCount (isoDate d) = 8 := by
  have hhyphen : ∀ ds, decimalCount ('-' :: ds) = decimalCount ds := fun ds =>
    List.countP_cons_of_neg (by decide)
  rw [isoDate, List.append_assoc, List.cons_append, Text.decimalCount_append, hhyphen,
    Text.decimalCount_append, hhyphen, Text.decimalCount_eq_length (isDecimal_padded _ _),
    Text.decimalCount_eq_length (isDecimal_padded _ _),
    Text.decimalCount_eq_length (isDecimal_padded _ _), length_padded (by decide) d.year_lt,
    length_padded (by decide) d.month_lt, length_padded (by decide) d.day_lt]

theorem accepts_isoDate (d : Date) : Embedded.iso.Accepts (isoDate d) := by
  apply Embedded.accepts_iso.mpr
  refine ⟨padded 4 d.year, padded 2 d.month, padded 2 d.day, [], ?_, ?_, ?_, ?_, .inl rfl⟩
  · rw [isoDate, List.append_nil, List.append_assoc, List.cons_append]
  · exact ⟨length_padded (by decide) d.year_lt, isDecimal_padded 4 d.year⟩
  · exact ⟨length_padded (by decide) d.month_lt, isDecimal_padded 2 d.month⟩
  · exact ⟨length_padded (by decide) d.day_lt, isDecimal_padded 2 d.day⟩

/-- The search finds the date where it stands. -/
theorem search?_isoDate (hbefore : ∀ c ∈ before, isDecimal c = false)
    (hafter : ∀ c ∈ after, isDecimal c = false) :
    Pattern.search? Embedded.iso (before ++ (isoDate d ++ after)) = some (isoDate d) := by
  have hsome : (Pattern.search? Embedded.iso (before ++ (isoDate d ++ after))).isSome = true :=
    Pattern.isSome_search? rfl (accepts_isoDate d)
  obtain ⟨w, hw⟩ := Option.isSome_iff_exists.mp hsome
  obtain ⟨left, right, htext, hoccurs⟩ := Pattern.exists_occurs_of_search? rfl hw
  have hiso : Embedded.iso.Accepts w := hoccurs
  obtain ⟨height, hlength⟩ := Embedded.decimalCount_iso hiso
  -- All digits of the text are in the match.
  have hcount : decimalCount left = 0 ∧ decimalCount w = 8 := by
    have htotal := congrArg decimalCount htext
    rw [Text.decimalCount_append, Text.decimalCount_append, Text.decimalCount_append,
      Text.decimalCount_append, decimalCount_isoDate,
      Text.decimalCount_eq_zero_iff.mpr hbefore, Text.decimalCount_eq_zero_iff.mpr hafter] at htotal
    omega
  have hfront : before = left := by
    have hdigit : ∀ {u rest}, Embedded.iso.Accepts u →
        ∀ c ∈ (u ++ rest).head?, (!isDecimal c) = false := by
      intro u rest hu c hc
      have hc' : c ∈ u.head? := by
        cases u with
        | nil =>
            have hnil := (Embedded.decimalCount_iso hu).1
            exact absurd hnil (by decide)
        | cons x u => exact hc
      rw [Embedded.isDecimal_of_head_iso hu c hc']
      rfl
    apply Text.front_eq_of_append_eq (p := fun c => !isDecimal c) _ _ _ _ htext
    · exact fun c hc => by rw [hbefore c hc]; rfl
    · exact fun c hc => by rw [Text.decimalCount_eq_zero_iff.mp hcount.1 c hc]; rfl
    · exact hdigit (accepts_isoDate d)
    · exact hdigit hiso
  rw [hfront] at htext
  have hrest := List.append_cancel_left htext
  rw [hw, (List.append_inj hrest (by rw [length_isoDate, hlength hcount.2])).1]

/-- Every stage reads the date, or leaves it to the search. -/
theorem recognize_inside (hbefore : ∀ c ∈ before, isDecimal c = false)
    (hafter : ∀ c ∈ after, isDecimal c = false) :
    ∃ v, recognize (String.ofList (before ++ (isoDate d ++ after))) = .ok (some v) ∧
      v.date = d := by
  have hplain := plain_isoDate d
  have hends : ∀ c ∈ isoDate d, isBlank c = false := fun c hc =>
    hplain.eq_false (by decide) (by decide) hc
  have hne : isoDate d ≠ [] := by
    rw [← List.length_pos_iff, length_isoDate]
    decide
  obtain ⟨back, hback, htrim⟩ := Text.exists_stripBy_append hne
    (fun c hc => hends c (List.mem_of_mem_head? hc)) (fun c hc => hends c (List.mem_of_getLast? hc))
    before after
  -- the blanks at the ends go first; what is left has no digits but those of the date
  set front := before.dropWhile isBlank
  replace hbefore : ∀ c ∈ front, isDecimal c = false := fun c hc =>
    hbefore c ((List.dropWhile_suffix isBlank).subset hc)
  replace hafter : ∀ c ∈ back, isDecimal c = false := fun c hc => hafter c (hback.subset hc)
  have hruns : runs (front ++ (isoDate d ++ back)) = 3 := by
    rw [Text.runs_append_of_other hbefore, runs, Text.runsFrom_append_of_other hafter]
    exact runs_isoDate d
  have hhyphen : '-' ∈ front ++ (isoDate d ++ back) := by
    apply List.mem_append_right
    apply List.mem_append_left
    simp [isoDate]
  have hempty : (front ++ (isoDate d ++ back)).isEmpty = false := by
    rw [List.isEmpty_eq_false_iff]
    exact List.append_ne_nil_of_right_ne_nil _ (List.append_ne_nil_of_left_ne_nil hne _)
  rw [recognize, String.toList_ofList, trimChars, htrim, recognizeTrimmed, hempty]
  cases hiso : parseIso? (front ++ (isoDate d ++ back)) with
  | some v => exact ⟨v, rfl, date_of_parseIso? hbefore hiso⟩
  | none =>
      have hmail : Mail.parse (front ++ (isoDate d ++ back)) = .notADate :=
        Mail.parse_of_few_numbers (by omega)
      have hlayout : Layout.parse? (front ++ (isoDate d ++ back)) = none :=
        parse?_of_hyphen hhyphen (by omega)
      have hfound : ((Embedded.candidates (front ++ (isoDate d ++ back))).findSome?
          parseEmbedded?) = some ⟨d, Time.midnight, none⟩ := by
        rw [Embedded.candidates, Embedded.patterns, List.filterMap_cons,
          search?_isoDate hbefore hafter, List.findSome?_cons, parseEmbedded?, hplain.parseIso?,
          parse?_isoDate]
        rfl
      refine ⟨⟨d, Time.midnight, none⟩, ?_, rfl⟩
      dsimp only [Bool.false_eq_true, if_false]
      rw [hmail]
      dsimp only
      rw [hlayout, hfound]
      rfl

end Harvest.Calendar

namespace Harvest.Transformation

open Calendar (Date)
open Calendar.Format (isoDate)

variable {options : Members} {d : Date} {before after : String}

/-- A date in the international format is found in every text without further digits.  Signs such as
superscripts, which denote a digit but take no place in a number, may stand in it. -/
theorem parseDate_inside (h : DefaultFormat options) (hyear : 1000 ≤ d.year)
    (hbefore : ∀ c ∈ before.toList, Text.isDecimal c = false)
    (hafter : ∀ c ∈ after.toList, Text.isDecimal c = false) :
    parseDate.run (.str (before ++ String.ofList (isoDate d) ++ after)) options =
      .ok (.str (String.ofList (isoDate d))) := by
  obtain ⟨v, hv, rfl⟩ := Calendar.recognize_inside (d := d) hbefore hafter
  have htext : before ++ String.ofList (isoDate v.date) ++ after =
      String.ofList (before.toList ++ (isoDate v.date ++ after.toList)) := by
    rw [String.ofList_append, String.ofList_append, String.ofList_toList, String.ofList_toList,
      String.append_assoc]
  rw [htext, parseDate_of_recognize h hv, Calendar.shortDate_eq_isoDate hyear]

theorem parseDate_inside_sentence :
    DefaultFormat [] ∧ 1000 ≤ (⟨2015, 12, 24, by decide⟩ : Date).year ∧
      (∀ c ∈ "Published: ".toList, Text.isDecimal c = false) ∧
      (∀ c ∈ "T, GMT+².".toList, Text.isDecimal c = false) ∧
      parseDate.run (.str "Published: 2015-12-24T, GMT+².") [] = .ok (.str "2015-12-24") := by
  have h : DefaultFormat [] := .inl rfl
  have hdigits : "Published: ".toList.any Text.isDecimal = false ∧
      "T, GMT+².".toList.any Text.isDecimal = false := by decide +kernel
  simp only [List.any_eq_false, Bool.not_eq_true] at hdigits
  have hdate : String.ofList (isoDate ⟨2015, 12, 24, by decide⟩) = "2015-12-24" := by decide +kernel
  have hrun := parseDate_inside (d := ⟨2015, 12, 24, by decide⟩) h (by decide) hdigits.1 hdigits.2
  rw [hdate] at hrun
  have htext : "Published: " ++ "2015-12-24" ++ "T, GMT+²." = "Published: 2015-12-24T, GMT+²." := by
    decide +kernel
  rw [htext] at hrun
  exact ⟨h, by decide, hdigits.1, hdigits.2, hrun⟩

end Harvest.Transformation
