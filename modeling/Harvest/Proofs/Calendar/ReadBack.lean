import Harvest.Proofs.Calendar.Written
import Harvest.Proofs.Text.Digits

/-!
# Dates read back

A date of ten characters is read as the date that it writes, at the start of its day.
-/

namespace Harvest.Calendar

open Format (padded isoDate)
open Text (isBlank isDecimal stripBy trimChars)

variable {cs front rest : List Char} {c : Char} {d : Date} {v : DateTime}

/-! ## Digits and hyphens -/

/-- A text of digits and hyphens. -/
def Plain (cs : List Char) : Prop := ∀ c ∈ cs, c.isDigit = true ∨ c = '-'

theorem plain_shortDate (d : Date) : Plain (shortDate d) := by
  intro c hc
  simp only [shortDate, List.mem_append, List.mem_cons] at hc
  rcases hc with (hyear | rfl | hmonth) | rfl | hday
  · exact .inl (Nat.isDigit_of_mem_toDigits (by decide) (by decide) hyear)
  · exact .inr rfl
  · exact .inl (isDigit_padded 2 d.month c hmonth)
  · exact .inr rfl
  · exact .inl (isDigit_padded 2 d.day c hday)

/-- A test that none of the ten digits passes. -/
theorem eq_false_of_isDigit {p : Char → Bool} (hdigit : ∀ n < 10, p (Nat.digitChar n) = false)
    (hc : c.isDigit = true) : p c = false := by
  rw [isDigit_iff] at hc
  have hval : Nat.digitChar (c.toNat - 0x30) = c := by
    apply Char.toNat_inj.mp
    rw [Nat.toNat_digitChar_of_lt_ten (by omega)]
    omega
  rw [← hval]
  exact hdigit _ (by omega)

theorem isDecimal_of_isDigit (hc : c.isDigit = true) : isDecimal c = true := by
  rw [isDigit_iff] at hc
  exact Text.isDecimal_of_ascii hc.1 hc.2

theorem readDecimal_padded (k n : Nat) : Text.readDecimal (padded k n) = n := by
  rw [padded, Text.readDecimal_replicate_zero, Text.readDecimal_toDigits]

theorem digit?_eq_none (hc : isDecimal c = false) : Iso.digit? c = none := by
  rw [Iso.digit?, if_neg]
  intro hrange
  rw [Bool.and_eq_true, Nat.ble_eq, Nat.ble_eq] at hrange
  rw [Text.isDecimal_of_ascii hrange.1 hrange.2] at hc
  cases hc

/-- A test that no digit and no hyphen passes. -/
theorem Plain.eq_false {p : Char → Bool} (hplain : Plain cs) (hhyphen : p '-' = false)
    (hdigit : ∀ n < 10, p (Nat.digitChar n) = false) (hc : c ∈ cs) : p c = false := by
  rcases hplain c hc with hd | rfl
  · exact eq_false_of_isDigit hdigit hd
  · exact hhyphen

theorem Plain.ne {x : Char} (hplain : Plain cs) (hx : x.isDigit = false) (hhyphen : x ≠ '-') :
    x ∉ cs := by
  intro hmem
  rcases hplain x hmem with hd | rfl
  · rw [hx] at hd
    cases hd
  · exact hhyphen rfl

theorem Plain.trimChars (hplain : Plain cs) : trimChars cs = cs :=
  Text.stripBy_eq_self fun _ hc => hplain.eq_false (by decide) (by decide) hc

/-- Only a letter at the end names universal time. -/
theorem parseIso?_of_not_mem (hupper : 'Z' ∉ cs) (hlower : 'z' ∉ cs) :
    parseIso? cs = Iso.parse? cs := by
  unfold Calendar.parseIso?
  split
  · next hlast => exact absurd (List.mem_of_getLast? hlast) hupper
  · next hlast => exact absurd (List.mem_of_getLast? hlast) hlower
  · rfl

theorem Plain.parseIso? (hplain : Plain cs) : parseIso? cs = Iso.parse? cs :=
  parseIso?_of_not_mem (hplain.ne (by decide) (by decide)) (hplain.ne (by decide) (by decide))

/-! ## Dates of ten characters -/

/-- The characters of a date: four digits of the year, two of the month and two of the day. -/
theorem exists_isoDate (d : Date) : ∃ a b c e m n x y,
    padded 4 d.year = [a, b, c, e] ∧ padded 2 d.month = [m, n] ∧ padded 2 d.day = [x, y] ∧
      m.isDigit = true := by
  obtain ⟨m, n, hmonth, hm, _⟩ := exists_padded_two d.month_lt
  obtain ⟨x, y, hday, _, _⟩ := exists_padded_two d.day_lt
  obtain ⟨a, b, c, e, hyear⟩ := List.length_eq_four.mp (length_padded (by decide) d.year_lt)
  exact ⟨a, b, c, e, m, n, x, y, hyear, hmonth, hday, hm⟩

theorem plain_isoDate (d : Date) : Plain (isoDate d) := by
  intro c hc
  simp only [isoDate, List.mem_append, List.mem_cons] at hc
  rcases hc with (hyear | rfl | hmonth) | rfl | hday
  · exact .inl (isDigit_padded 4 d.year c hyear)
  · exact .inr rfl
  · exact .inl (isDigit_padded 2 d.month c hmonth)
  · exact .inr rfl
  · exact .inl (isDigit_padded 2 d.day c hday)

theorem length_isoDate (d : Date) : (isoDate d).length = 10 :=
  length_of_isFullDate (isFullDate_isoDate d)

theorem length_le_byteLength (cs : List Char) : cs.length ≤ Iso.byteLength cs := by
  induction cs with
  | nil => exact le_rfl
  | cons c cs ih =>
      have hc := c.utf8Size_pos
      show cs.length + 1 ≤ c.utf8Size + Iso.byteLength cs
      omega

theorem dateLength_isoDate (d : Date) (rest : List Char) :
    Iso.dateLength (isoDate d ++ rest) = 10 := by
  have hbytes : Iso.byteLength (isoDate d ++ rest) ≠ 7 := by
    have hlength := length_le_byteLength (isoDate d ++ rest)
    rw [List.length_append, length_isoDate] at hlength
    omega
  obtain ⟨a, b, c, e, m, n, x, y, hyear, hmonth, hday, hm⟩ := exists_isoDate d
  have hweek : m ≠ 'W' := ne_of_isDigit hm (by decide)
  rw [Iso.dateLength, if_neg hbytes, isoDate, hyear, hmonth, hday]
  simp [hweek]

theorem date?_isoDate (d : Date) (rest : List Char) :
    Iso.date? 10 (isoDate d ++ rest) = some d := by
  have htakeYear := Iso.takeNumber?_padded (k := 4) (by decide) d.year_lt
    ('-' :: padded 2 d.month ++ '-' :: padded 2 d.day ++ rest)
  have htakeMonth := Iso.takeNumber?_padded (k := 2) (by decide) d.month_lt
    ('-' :: padded 2 d.day ++ rest)
  have htakeDay := Iso.takeNumber?_padded (k := 2) (by decide) d.day_lt rest
  obtain ⟨a, b, c, e, m, n, x, y, hyear, hmonth, hday, hm⟩ := exists_isoDate d
  have hweek : m ≠ 'W' := ne_of_isDigit hm (by decide)
  rw [hmonth] at htakeMonth htakeYear
  have htakeMonth' : Iso.takeNumber? 2 (m :: n :: '-' :: (padded 2 d.day ++ rest)) =
      some (d.month, '-' :: (padded 2 d.day ++ rest)) := htakeMonth
  have htext : isoDate d ++ rest =
      padded 4 d.year ++ ('-' :: [m, n] ++ '-' :: padded 2 d.day ++ rest) := by
    rw [isoDate, hmonth]
    simp
  rw [Iso.date?, htext, htakeYear]
  simp [hweek, htakeMonth', Iso.takeHyphen?, htakeDay, d.of?_self]

theorem drop_isoDate (d : Date) (rest : List Char) : (isoDate d ++ rest).drop 10 = rest :=
  List.drop_left' (length_isoDate d)

theorem parse?_isoDate (d : Date) : Iso.parse? (isoDate d) = some ⟨d, Time.midnight, none⟩ := by
  have hlength := dateLength_isoDate d []
  have hdate := date?_isoDate d []
  have hrest := drop_isoDate d []
  rw [List.append_nil] at hlength hdate hrest
  rw [Iso.parse?, hlength, hdate, hrest]
  rfl

theorem date_of_parse? (hv : Iso.parse? (isoDate d ++ rest) = some v) : v.date = d := by
  rw [Iso.parse?, dateLength_isoDate, date?_isoDate, drop_isoDate] at hv
  simp only [Option.bind_eq_bind, Option.bind_some, Option.pure_def] at hv
  split at hv
  · cases hv
    rfl
  · obtain ⟨⟨t, offset⟩, _, heq⟩ := Option.bind_eq_some_iff.mp hv
    cases heq
    rfl

/-- A text whose first four characters are not all digits is no date in the international format. -/
theorem parse?_eq_none (hlength : front.length < 4) (hc : Iso.digit? c = none)
    (rest : List Char) : Iso.parse? (front ++ c :: rest) = none := by
  have hdate : ∀ length, Iso.date? length (front ++ c :: rest) = none := by
    intro length
    rw [Iso.date?, Iso.takeNumber?_eq_none hlength hc]
    rfl
  rw [Iso.parse?, hdate]
  rfl

/-- Only what stands behind the front of a text is changed for the sake of universal time. -/
theorem exists_parse?_of_parseIso? (hlast : ∀ c ∈ front.getLast?, c ≠ 'Z' ∧ c ≠ 'z')
    (rest : List Char) : ∃ rest', parseIso? (front ++ rest) = Iso.parse? (front ++ rest') := by
  have hend : ∀ {z}, (front ++ rest).getLast? = some z → z = 'Z' ∨ z = 'z' → rest ≠ [] := by
    rintro z hz hletter rfl
    rw [List.append_nil] at hz
    have hother := hlast z hz
    tauto
  unfold parseIso?
  split
  · next hz =>
    rw [List.dropLast_append_of_ne_nil (hend hz (.inl rfl)), List.append_assoc]
    exact ⟨_, rfl⟩
  · next hz =>
    rw [List.dropLast_append_of_ne_nil (hend hz (.inr rfl)), List.append_assoc]
    exact ⟨_, rfl⟩
  · exact ⟨rest, rfl⟩

theorem recognize_isoDate (d : Date) :
    recognize (String.ofList (isoDate d)) = .ok (some ⟨d, Time.midnight, none⟩) := by
  have hplain := plain_isoDate d
  have hne : (isoDate d).isEmpty = false := by
    rw [List.isEmpty_eq_false_iff, ← List.length_pos_iff, length_isoDate]
    decide
  rw [recognize, String.toList_ofList, hplain.trimChars, recognizeTrimmed, hne, hplain.parseIso?,
    parse?_isoDate]
  rfl

end Harvest.Calendar
