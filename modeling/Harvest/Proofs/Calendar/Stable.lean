import Harvest.Proofs.Calendar.DatePatterns
import Harvest.Proofs.Calendar.Outcome
import Harvest.Proofs.Calendar.ReadBack
import Harvest.Proofs.Calendar.Reading
import Harvest.Proofs.Pattern.Needs

/-!
# Which dates are stable

A date in the default format is read as itself just if its year has four digits: no stage finds a
date in a text whose year is shorter.
-/

namespace Harvest.Calendar

open Format (padded isoDate)
open Text (isBlank isDecimal fieldsBy decimalCount)

variable {cs : List Char} {d : Date}

/-! ## The international format -/

theorem length_year_lt (hd : d.year < 1000) : (Nat.toDigits 10 d.year).length < 4 :=
  Nat.lt_succ_of_le ((Nat.length_toDigits_le_iff (by decide) (by decide)).mpr hd)

theorem shortDate_eq_append (d : Date) : shortDate d =
    Nat.toDigits 10 d.year ++ '-' :: (padded 2 d.month ++ '-' :: padded 2 d.day) := by
  rw [shortDate, List.append_assoc, List.cons_append]

theorem parse?_shortDate (hd : d.year < 1000) : Iso.parse? (shortDate d) = none := by
  rw [shortDate_eq_append]
  exact parse?_eq_none (length_year_lt hd) (by decide) _

/-! ## Mail dates -/

/-- A mail date has more than one word. -/
theorem Mail.numbers?_eq_none {w : List Char} (h : fieldsBy isBlank cs = [w]) :
    Mail.numbers? cs = none := by
  have hfields : Mail.fields? cs = none := by
    have hwords : Mail.dropWeekday [w] = [] ∨ Mail.dropWeekday [w] = [Mail.behindComma w] := by
      rw [Mail.dropWeekday]
      split
      · exact .inl rfl
      · exact .inr rfl
    unfold Mail.fields?
    rw [h]
    rcases hwords with hwords | hwords <;> rw [hwords] <;> rfl
  rw [Mail.numbers?, hfields]
  rfl

/-! ## Layouts -/

namespace Layout

/-- A layout does not fit where one of its parts has no reading anywhere in the text. -/
theorem firstReading?_eq_none {ps : List Part} {p : Part} {f : Found} (hp : p ∈ ps)
    (hnone : ∀ g r, r <:+ cs → p.readings g r = []) : firstReading? ps f cs = none := by
  induction ps generalizing f cs with
  | nil => cases hp
  | cons q ps ih =>
      rw [firstReading?, List.findSome?_eq_none_iff]
      rintro ⟨g, r⟩ hmem
      rcases List.mem_cons.mp hp with rfl | hp
      · rw [hnone f cs (List.suffix_refl cs)] at hmem
        cases hmem
      · obtain ⟨w, rfl, _⟩ := mem_readings_iff.mp hmem
        exact ih hp fun g' r' hr' => hnone g' r' (hr'.trans (List.suffix_append w r))

theorem readings_gap_eq_nil {f : Found} (h : ∀ c ∈ cs, isBlank c = false) :
    Part.gap.readings f cs = [] := by
  have hnone : cs.takeWhile isBlank = [] := by
    cases cs with
    | nil => rfl
    | cons c cs => rw [List.takeWhile_cons, h c List.mem_cons_self, if_neg Bool.false_ne_true]
  rw [Part.readings, readGap, hnone]
  rfl

theorem readings_mark_eq_nil {f : Found} {c : Char} (h : c ∉ cs) :
    (Part.mark c).readings f cs = [] := by
  cases cs with
  | nil => rfl
  | cons d cs =>
      have hne : ¬ (c == d) = true := fun heq => h (beq_iff_eq.mp heq ▸ List.mem_cons_self)
      exact if_neg hne

/-- Only the year alone and the dates with hyphens can be written by digits and hyphens, and the
latter have a time behind them. -/
theorem layouts_mark : ∀ layout ∈ layouts, layout = [.year] ∨
    ∃ p ∈ layout, p = .gap ∨ p = .mark '/' ∨ p = .mark '.' := by decide

theorem readYear_eq_nil {ds rest : List Char} (h : ds.length < 4) :
    readYear (ds ++ '-' :: rest) = [] := by
  have hhyphen : isDecimal '-' = false := by decide
  rcases ds with _ | ⟨a, _ | ⟨b, _ | ⟨c, _ | ⟨e, ds⟩⟩⟩⟩
  · rcases rest with _ | ⟨x, _ | ⟨y, _ | ⟨z, rest⟩⟩⟩ <;> simp [readYear, hhyphen]
  · rcases rest with _ | ⟨x, _ | ⟨y, rest⟩⟩ <;> simp [readYear, hhyphen]
  · rcases rest with _ | ⟨x, rest⟩ <;> simp [readYear, hhyphen]
  · simp [readYear, hhyphen]
  · simp only [List.length_cons] at h
    omega

/-- The second letter of an ordinal suffix is no digit and no hyphen. -/
theorem isOrdinalSuffix_eq_false {a b : Char} (hplain : Plain cs) (hb : b ∈ cs) :
    isOrdinalSuffix a b = false := by
  have hsecond : ['t', 'd', 'h'].any (Text.equalIgnoringCase · b) = false :=
    hplain.eq_false (p := fun b => ['t', 'd', 'h'].any (Text.equalIgnoringCase · b)) (by decide)
      (by decide) hb
  rw [List.any_eq_false] at hsecond
  rw [isOrdinalSuffix, List.any_eq_false]
  intro s hs hboth
  rw [Bool.and_eq_true] at hboth
  have hletter : ∀ s ∈ [('s', 't'), ('n', 'd'), ('r', 'd'), ('t', 'h')],
      s.2 ∈ ['t', 'd', 'h'] := by decide
  exact hsecond s.2 (hletter s hs) hboth.2

theorem ordinal?_eq_none (hplain : Plain cs) : ordinal? cs = none := by
  unfold ordinal?
  split
  · next a b c d r =>
    rw [isOrdinalSuffix_eq_false (a := c) (b := d) hplain (by simp),
      isOrdinalSuffix_eq_false (a := b) (b := c) hplain (by simp)]
    simp
  · next a b c =>
    rw [isOrdinalSuffix_eq_false (a := b) (b := c) hplain (by simp)]
    simp
  · rfl

theorem dropOrdinals_eq_self (hplain : Plain cs) (inWord : Bool) :
    dropOrdinals inWord cs = cs := by
  induction cs generalizing inWord with
  | nil =>
      rw [dropOrdinals]
      cases inWord <;> rfl
  | cons c cs ih =>
      have hrest := ih fun x hx => hplain x (List.mem_cons_of_mem c hx)
      have hnone : (if inWord then none else ordinal? (c :: cs)) = none := by
        rw [ordinal?_eq_none hplain, ite_self]
      rw [dropOrdinals]
      split
      · next hsome =>
        rw [hnone] at hsome
        cases hsome
      · exact congrArg (c :: ·) (hrest _)

theorem normalize_eq_self (hplain : Plain cs) (hne : cs ≠ []) : normalize cs = cs := by
  have hone : fieldsBy isNoise cs = [cs] :=
    Text.fieldsBy_eq_singleton hne fun c hc => hplain.eq_false (by decide) (by decide) hc
  rw [normalize, dropOrdinals_eq_self hplain, hone]
  simp

end Layout

theorem Layout.parse?_shortDate (hd : d.year < 1000) : Layout.parse? (shortDate d) = none := by
  have hplain := plain_shortDate d
  have hne : shortDate d ≠ [] := by
    rw [shortDate_eq_append]
    exact List.append_ne_nil_of_right_ne_nil _ (List.cons_ne_nil _ _)
  rw [Layout.parse?, Layout.normalize_eq_self hplain hne, List.findSome?_eq_none_iff]
  intro layout hlayout
  have hfirst : Layout.firstReading? layout {} (shortDate d) = none := by
    rcases Layout.layouts_mark layout hlayout with rfl | ⟨p, hp, hmark⟩
    · rw [Layout.firstReading?, Layout.Part.readings, shortDate_eq_append,
        Layout.readYear_eq_nil (length_year_lt hd)]
      rfl
    · apply Layout.firstReading?_eq_none hp
      intro g r hr
      have hrest : Plain r := fun c hc => hplain c (hr.subset hc)
      rcases hmark with rfl | rfl | rfl
      · exact Layout.readings_gap_eq_nil fun c hc => hrest.eq_false (by decide) (by decide) hc
      · exact Layout.readings_mark_eq_nil (hrest.ne (by decide) (by decide))
      · exact Layout.readings_mark_eq_nil (hrest.ne (by decide) (by decide))
  rw [Layout.read?, hfirst]

/-! ## Dates inside a text -/

namespace Embedded

open Harvest.Pattern

theorem search?_iso_shortDate (hd : d.year < 1000) : search? iso (shortDate d) = none := by
  apply search?_iso_eq_none
  have hyear := length_year_lt hd
  have hcount : decimalCount (shortDate d) ≤ (Nat.toDigits 10 d.year).length + 4 := by
    have hhyphen : ∀ ds, decimalCount ('-' :: ds) = decimalCount ds := fun ds =>
      List.countP_cons_of_neg (by decide)
    have hmonth := List.countP_le_length (l := padded 2 d.month) (p := isDecimal)
    have hday := List.countP_le_length (l := padded 2 d.day) (p := isDecimal)
    have hyears := List.countP_le_length (l := Nat.toDigits 10 d.year) (p := isDecimal)
    rw [length_padded (by decide) d.month_lt] at hmonth
    rw [length_padded (by decide) d.day_lt] at hday
    rw [shortDate_eq_append, Text.decimalCount_append, hhyphen, Text.decimalCount_append, hhyphen]
    unfold decimalCount
    omega
  omega

theorem needs_blank : ∀ p ∈ [dayFirst, monthFirst], p.Needs fun x => isBlank x = true := by
  have hblanks : (atLeastOne blank).Needs fun x => isBlank x = true :=
    ⟨le_rfl, fun x hx => matches_space_iff.mp hx⟩
  intro p hp
  rcases List.mem_pair.mp hp with rfl | rfl
  · exact .inr (.inr (.inl hblanks))
  · exact .inr (.inr (.inl hblanks))

theorem candidates_shortDate (hd : d.year < 1000) : candidates (shortDate d) = [] := by
  have hblank : ∀ c ∈ shortDate d, ¬ isBlank c = true := fun c hc =>
    Bool.eq_false_iff.mp ((plain_shortDate d).eq_false (by decide) (by decide) hc)
  rw [candidates, patterns, List.filterMap_cons, search?_iso_shortDate hd]
  rw [List.filterMap_eq_nil_iff]
  intro p hp
  exact search?_eq_none_of_needs (needs_blank p hp) hblank

end Embedded

/-! ## Reading a date again -/

theorem recognize_shortDate (hd : d.year < 1000) :
    recognize (String.ofList (shortDate d)) = .ok none := by
  have hplain := plain_shortDate d
  have hne : shortDate d ≠ [] := by
    rw [shortDate_eq_append]
    exact List.append_ne_nil_of_right_ne_nil _ (List.cons_ne_nil _ _)
  have hword : fieldsBy isBlank (shortDate d) = [shortDate d] :=
    Text.fieldsBy_eq_singleton hne fun c hc => hplain.eq_false (by decide) (by decide) hc
  have hmail : Mail.parse (shortDate d) = .notADate := by
    rw [Mail.parse, Mail.numbers?_eq_none hword]
  rw [recognize, String.toList_ofList, hplain.trimChars, recognizeTrimmed,
    List.isEmpty_eq_false_iff.mpr hne, hplain.parseIso?, parse?_shortDate hd]
  simp [hmail, Layout.parse?_shortDate hd, Embedded.candidates_shortDate hd]

end Harvest.Calendar

namespace Harvest.Transformation

open Calendar (recognize isFullDate shortDate)

variable {options : Members} {v : Calendar.DateTime}

/-- The options ask for the default format, by its name or by no name. -/
def DefaultFormat (options : Members) : Prop :=
  options.get? "format" = none ∨ options.get? "format" = some .null ∨
    options.get? "format" = some (.str "date")

theorem DefaultFormat.named (h : DefaultFormat options) : NamedFormat options := by
  rcases h with hnone | hnull | hdate
  · exact .inl hnone
  · exact .inr (.inl hnull)
  · exact .inr (.inr ⟨"date", by decide, hdate⟩)

theorem DefaultFormat.dateFormat? (h : DefaultFormat options) :
    (dateFormat? options).getD "date" = "date" := by
  unfold Transformation.dateFormat?
  rcases h with h | h | h <;> rw [h] <;> rfl

theorem writeDate_of_defaultFormat (h : DefaultFormat options) (v : Calendar.DateTime) :
    writeDate v options = .ok (.str (String.ofList (shortDate v.date))) := by
  rw [writeDate_of_namedFormat h.named, Calendar.write_date h.dateFormat?]

/-- A date in the default format has the form of four digits, two digits and two digits, and is
read as itself, just if its year has four digits. -/
theorem parseDate_stable_iff {text w : String} (h : DefaultFormat options)
    (hrun : parseDate.run (.str text) options = .ok (.str w)) :
    ∃ v, recognize text = .ok (some v) ∧
      (isFullDate w.toList = true ↔ 1000 ≤ v.date.year) ∧
      (parseDate.run (.str w) options = .ok (.str w) ↔ 1000 ≤ v.date.year) ∧
      (v.date.year < 1000 → parseDate.run (.str w) options = .ok .null) := by
  change readDate text options = .ok (.str w) at hrun
  unfold readDate at hrun
  split at hrun
  · cases hrun
  · cases hrun
  · next v hv =>
    rw [writeDate_of_defaultFormat h] at hrun
    cases hrun
    have hshort : v.date.year < 1000 →
        readDate (String.ofList (shortDate v.date)) options = .ok .null := by
      intro hyear
      rw [readDate, Calendar.recognize_shortDate hyear]
    have hfull : 1000 ≤ v.date.year → readDate (String.ofList (shortDate v.date)) options =
        .ok (.str (String.ofList (shortDate v.date))) := by
      intro hyear
      rw [readDate, Calendar.shortDate_eq_isoDate hyear, Calendar.recognize_isoDate]
      dsimp only
      rw [writeDate_of_defaultFormat h, Calendar.shortDate_eq_isoDate hyear]
    refine ⟨v, hv, ?_, ⟨?_, hfull⟩, hshort⟩
    · rw [String.toList_ofList]
      exact Calendar.isFullDate_shortDate_iff v.date
    · intro hstable
      by_contra hyear
      rw [show parseDate.run (.str (String.ofList (shortDate v.date))) options =
        readDate (String.ofList (shortDate v.date)) options from rfl,
        hshort (Nat.lt_of_not_le hyear)] at hstable
      cases hstable

theorem parseDate_of_recognize {text : String} (h : DefaultFormat options)
    (hv : recognize text = .ok (some v)) :
    parseDate.run (.str text) options = .ok (.str (String.ofList (shortDate v.date))) := by
  show readDate text options = _
  rw [readDate, hv]
  exact writeDate_of_defaultFormat h v

theorem parseDate_of_recognize_none {text : String} (hv : recognize text = .ok none) :
    parseDate.run (.str text) options = .ok .null := by
  show readDate text options = _
  rw [readDate, hv]

theorem parseDate_stable_iff_afternoon :
    DefaultFormat [] ∧ parseDate.run (.str "2015-12-24T16:30") [] = .ok (.str "2015-12-24") ∧
      ∃ v, recognize "2015-12-24T16:30" = .ok (some v) ∧
        (isFullDate "2015-12-24".toList = true ↔ 1000 ≤ v.date.year) ∧
        (parseDate.run (.str "2015-12-24") [] = .ok (.str "2015-12-24") ↔ 1000 ≤ v.date.year) ∧
        (v.date.year < 1000 → parseDate.run (.str "2015-12-24") [] = .ok .null) := by
  have h : DefaultFormat [] := .inl rfl
  have hv : recognize "2015-12-24T16:30" =
      .ok (some ⟨⟨2015, 12, 24, by decide⟩, ⟨16, 30, 0, 0, by decide⟩, none⟩) := by decide +kernel
  have hrun := parseDate_of_recognize h hv
  exact ⟨h, hrun, parseDate_stable_iff h hrun⟩

def firstOf999 : Calendar.DateTime := ⟨⟨999, 1, 1, by decide⟩, Calendar.Time.midnight, none⟩

/-- The year 999 is written with three digits, and what is written is no date any more. -/
theorem parseDate_unstable :
    parseDate.run (.str "0999-01-01") [] = .ok (.str "999-01-01") ∧
      isFullDate "999-01-01".toList = false ∧
      parseDate.run (.str "999-01-01") [] = .ok .null := by
  have h : DefaultFormat [] := .inl rfl
  have hread : recognize "0999-01-01" = .ok (some firstOf999) := by decide +kernel
  have hwritten : String.ofList (shortDate firstOf999.date) = "999-01-01" := by decide +kernel
  have hrun := parseDate_of_recognize h hread
  have hagain := Calendar.recognize_shortDate (d := firstOf999.date) (by decide)
  rw [hwritten] at hrun hagain
  refine ⟨hrun, by decide +kernel, ?_⟩
  show readDate "999-01-01" [] = .ok .null
  rw [readDate, hagain]

end Harvest.Transformation
