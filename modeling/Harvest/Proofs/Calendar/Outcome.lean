import Harvest.Proofs.Calendar.Overflow
import Harvest.Proofs.Text.Fields
import Harvest.Transform

/-!
# What date parsing gives

With a named way of writing dates, or with none, the only failure is a mail date that overflows:
every other text gives a text or nothing.
-/

namespace Harvest

open Text (trimChars stripBy isBlank fieldsBy decimalCount)

namespace Calendar

variable {cs : List Char}

theorem recognizeTrimmed_eq_error_iff {e : Overflow} : recognizeTrimmed cs = .error e ↔
    parseIso? cs = none ∧ ∃ n, Mail.numbers? cs = some n ∧ n.Excessive := by
  rw [← Mail.parse_eq_overflow_iff]
  unfold recognizeTrimmed
  split
  · next hempty =>
    rw [List.isEmpty_iff] at hempty
    subst hempty
    have hmail : Mail.parse [] = .notADate := rfl
    simp [hmail]
  · cases hiso : parseIso? cs with
    | some v => simp
    | none => cases hmail : Mail.parse cs <;> simp

end Calendar

namespace Transformation

open Calendar (isoPreset presets parseIso? recognize recognizeTrimmed)

variable {text : String} {options : Members}

/-- The options ask for no way of writing dates, or for one by its name. -/
def NamedFormat (options : Members) : Prop :=
  options.get? "format" = none ∨ options.get? "format" = some .null ∨
    ∃ name ∈ isoPreset :: presets.map (·.1), options.get? "format" = some (.str name)

theorem writeDate_of_namedFormat (h : NamedFormat options) (v : Calendar.DateTime) :
    writeDate v options = .ok (.str (v.write (dateFormat? options))) := by
  have hnames : ∀ name ∈ isoPreset :: presets.map (·.1), Calendar.isFormat name = true := by decide
  unfold writeDate dateFormat?
  rcases h with hnone | hnull | ⟨name, hname, hsome⟩
  · rw [hnone]; rfl
  · rw [hnull]; rfl
  · have hcheck : checkDateFormat (.str name) = .ok () := if_pos (hnames name hname)
    rw [hsome, Option.getD_some, hcheck]

theorem parseDate_eq_error_iff (h : NamedFormat options) {e : TransformError} :
    parseDate.run (.str text) options = .error e ↔
      e = .dateOverflow ∧ ∃ o, recognize text = .error o := by
  show readDate text options = .error e ↔ _
  unfold readDate
  cases recognize text with
  | error o =>
      constructor
      · intro heq
        cases heq
        exact ⟨rfl, o, rfl⟩
      · rintro ⟨rfl, _⟩
        rfl
  | ok found =>
      cases found with
      | none => simp
      | some v => simp [writeDate_of_namedFormat h]

theorem parseDate_eq_ok (h : NamedFormat options) {result : Json}
    (hrun : parseDate.run (.str text) options = .ok result) :
    result = .null ∨ ∃ w, result = .str w := by
  change readDate text options = .ok result at hrun
  unfold readDate at hrun
  split at hrun
  · cases hrun
  · cases hrun
    exact .inl rfl
  · next v _ =>
    rw [writeDate_of_namedFormat h] at hrun
    cases hrun
    exact .inr ⟨_, rfl⟩

/-- Parsing a date fails just on a mail date with numbers too large, that is no date in the
international format; it needs a word of ten digits.  Every other text gives a text or nothing. -/
theorem parseDate_fails_iff (text : String) (h : NamedFormat options) :
    ((∃ e, parseDate.run (.str text) options = .error e) ↔
      parseIso? (trimChars text.toList) = none ∧
        ∃ n, Calendar.Mail.numbers? (trimChars text.toList) = some n ∧ n.Excessive) ∧
    (∀ e, parseDate.run (.str text) options = .error e →
      e = .dateOverflow ∧ ∃ w ∈ Text.words text, 10 ≤ decimalCount w.toList) ∧
    (∀ result, parseDate.run (.str text) options = .ok result →
      result = .null ∨ ∃ w, result = .str w) := by
  have hexact : (∃ o, recognize text = .error o) ↔ parseIso? (trimChars text.toList) = none ∧
      ∃ n, Calendar.Mail.numbers? (trimChars text.toList) = some n ∧ n.Excessive := by
    unfold recognize
    simp only [Calendar.recognizeTrimmed_eq_error_iff]
    exact ⟨fun ⟨_, hfails⟩ => hfails, fun hfails => ⟨{}, hfails⟩⟩
  refine ⟨?_, ?_, fun result => parseDate_eq_ok h⟩
  · simp only [parseDate_eq_error_iff h]
    rw [← hexact]
    exact ⟨fun ⟨_, _, hfails⟩ => hfails, fun hfails => ⟨_, rfl, hfails⟩⟩
  · intro e he
    obtain ⟨rfl, hfails⟩ := (parseDate_eq_error_iff h).mp he
    refine ⟨rfl, ?_⟩
    obtain ⟨_, n, hn, hexcessive⟩ := hexact.mp hfails
    by_contra hnone
    have hwords : Calendar.Mail.Short 9 (fieldsBy isBlank (trimChars text.toList)) := by
      intro w hw
      rw [show trimChars text.toList = stripBy isBlank text.toList from rfl,
        Text.fieldsBy_stripBy] at hw
      by_contra hlong
      refine hnone ⟨String.ofList w, List.mem_map_of_mem hw, ?_⟩
      rw [String.toList_ofList]
      omega
    exact Calendar.Mail.not_excessive_of_short hwords hn hexcessive

theorem parseDate_fails_iff_farYear :
    NamedFormat [] ∧
      ∃ e, parseDate.run (.str "Mon, 01 Jan 99999999999 10:00:00 GMT") [] = .error e :=
  have h : NamedFormat [] := .inl rfl
  ⟨h, (parseDate_fails_iff _ h).1.mpr ⟨by decide +kernel,
    ⟨99999999999, 1, 1, 10, 0, 0, some 0⟩, rfl, .inr ⟨by
      rintro _ ⟨⟩
      decide, 99999999999, by decide⟩⟩⟩

/-- A year that no machine integer holds is an error and no missing date. -/
theorem parseDate_fails_on_farYear :
    parseDate.run (.str "Mon, 01 Jan 99999999999 10:00:00 GMT") [] = .error .dateOverflow := by
  rfl

end Transformation

end Harvest
