import Harvest.Calendar.Recognize
import Harvest.Proofs.Text.Fields
import Mathlib

/-!
# Dates written and read back

The pattern of the default format pads months and days but not years.  A year of four digits makes
it the date of the international format, and the date that is read from such a text is the one that
was written.
-/

namespace Harvest.Calendar

open Format (padded isoDate)

variable {k n : Nat} {c : Char}

/-! ## Padded numbers -/

theorem length_padded (hk : 0 < k) (hn : n < 10 ^ k) : (padded k n).length = k := by
  have hlength := (Nat.length_toDigits_le_iff (by decide) hk).mpr hn
  rw [padded, List.length_append, List.length_replicate]
  omega

theorem isDigit_padded (k n : Nat) : ∀ c ∈ padded k n, c.isDigit = true := by
  intro c hc
  rcases List.mem_append.mp hc with hzero | hdigit
  · rw [List.eq_of_mem_replicate hzero]
    rfl
  · exact Nat.isDigit_of_mem_toDigits (by decide) (by decide) hdigit

theorem ofDigitChars_padded (k n : Nat) : Nat.ofDigitChars 10 (padded k n) 0 = n := by
  rw [padded, Nat.ofDigitChars_append, Nat.ofDigitChars_replicate_zero, Nat.mul_zero,
    Nat.ofDigitChars_ten_toDigits]

theorem exists_padded_two (hn : n < 100) :
    ∃ a b, padded 2 n = [a, b] ∧ a.isDigit = true ∧ b.isDigit = true := by
  obtain ⟨a, b, heq⟩ := List.length_eq_two.mp (length_padded (by decide) hn)
  have hdigits := isDigit_padded 2 n
  rw [heq] at hdigits
  exact ⟨a, b, heq, hdigits a (by simp), hdigits b (by simp)⟩

theorem isDigit_iff : c.isDigit = true ↔ 0x30 ≤ c.toNat ∧ c.toNat ≤ 0x39 := by
  simp only [Char.isDigit, Bool.and_eq_true, decide_eq_true_eq, ge_iff_le, UInt32.le_iff_toNat_le]
  exact Iff.rfl

theorem ne_of_isDigit {x : Char} (hc : c.isDigit = true) (hx : x.isDigit = false) : c ≠ x := by
  rintro rfl
  rw [hc] at hx
  cases hx

namespace Iso

theorem digit?_of_isDigit (hc : c.isDigit = true) : digit? c = some (c.toNat - 0x30) := by
  rw [isDigit_iff] at hc
  rw [digit?, Nat.ble_eq_true_of_le hc.1, Nat.ble_eq_true_of_le hc.2]
  rfl

theorem takeNumber?_append {ds : List Char} (hds : ∀ c ∈ ds, c.isDigit = true)
    (rest : List Char) :
    takeNumber? ds.length (ds ++ rest) = some (Nat.ofDigitChars 10 ds 0, rest) := by
  have hgo : ∀ acc, takeNumber?.go ds.length acc (ds ++ rest) =
      some (Nat.ofDigitChars 10 ds acc, rest) := by
    induction ds with
    | nil => exact fun acc => rfl
    | cons c ds ih =>
        intro acc
        rw [List.length_cons, List.cons_append, takeNumber?.go,
          digit?_of_isDigit (hds c List.mem_cons_self)]
        exact ih (fun x hx => hds x (List.mem_cons_of_mem c hx)) _
  exact hgo 0

theorem takeNumber?_padded (hk : 0 < k) (hn : n < 10 ^ k) (rest : List Char) :
    takeNumber? k (padded k n ++ rest) = some (n, rest) := by
  have htake := takeNumber?_append (isDigit_padded k n) rest
  rwa [length_padded hk hn, ofDigitChars_padded] at htake

/-- A number does not reach beyond a character that is no digit. -/
theorem takeNumber?_eq_none {ds rest : List Char} (hlength : ds.length < k)
    (hc : digit? c = none) : takeNumber? k (ds ++ c :: rest) = none := by
  have hgo : ∀ acc, takeNumber?.go k acc (ds ++ c :: rest) = none := by
    induction ds generalizing k with
    | nil =>
        intro acc
        cases k with
        | zero => cases hlength
        | succ k => rw [List.nil_append, takeNumber?.go, hc]; rfl
    | cons d ds ih =>
        intro acc
        cases k with
        | zero => cases hlength
        | succ k =>
            rw [List.cons_append, takeNumber?.go]
            cases digit? d with
            | none => rfl
            | some v => exact ih (Nat.lt_of_succ_lt_succ hlength) _
  exact hgo 0

end Iso

/-! ## Dates -/

namespace Date

theorem month_lt (d : Date) : d.month < 100 := by have := d.valid; omega

theorem day_le (d : Date) : d.day ≤ 31 := by
  have hle : daysIn d.year d.month ≤ 31 := by
    unfold daysIn
    split
    · split <;> decide
    · split <;> decide
  have := d.valid
  omega

theorem day_lt (d : Date) : d.day < 100 := by have := d.day_le; omega

theorem year_lt (d : Date) : d.year < 10000 := by have := d.valid; omega

theorem of?_self (d : Date) : Date.of? d.year d.month d.day = some d := by
  have hvalid := d.valid
  unfold Date.of?
  rw [dif_pos (by simpa using hvalid)]
  rfl

end Date

/-- Year, month and day with hyphens, as the default format writes them: without zeros in front of
the year. -/
def shortDate (d : Date) : List Char :=
  Nat.toDigits 10 d.year ++ '-' :: padded 2 d.month ++ '-' :: padded 2 d.day

theorem shortDate_eq_isoDate {d : Date} (h : 1000 ≤ d.year) : shortDate d = isoDate d := by
  have hlength : ¬ (Nat.toDigits 10 d.year).length ≤ 3 := by
    rw [Nat.length_toDigits_le_iff (by decide) (by decide)]
    omega
  have hyear : padded 4 d.year = Nat.toDigits 10 d.year := by
    rw [padded, show 4 - (Nat.toDigits 10 d.year).length = 0 by omega]
    rfl
  rw [shortDate, isoDate, hyear]

/-- Whether a text is four digits, a hyphen, two digits, a hyphen and two digits. -/
def isFullDate : List Char → Bool
  | [a, b, c, d, h, m, n, k, x, y] =>
    [a, b, c, d, m, n, x, y].all Char.isDigit && h == '-' && k == '-'
  | _ => false

theorem isFullDate_isoDate (d : Date) : isFullDate (isoDate d) = true := by
  obtain ⟨m, n, hmonth, hm, hn⟩ := exists_padded_two d.month_lt
  obtain ⟨x, y, hday, hx, hy⟩ := exists_padded_two d.day_lt
  obtain ⟨a, b, c, e, hyear⟩ := List.length_eq_four.mp (length_padded (by decide) d.year_lt)
  have hdigits := isDigit_padded 4 d.year
  rw [hyear] at hdigits
  rw [isoDate, hyear, hmonth, hday]
  simp [isFullDate, hm, hn, hx, hy, hdigits]

theorem length_of_isFullDate {cs : List Char} (h : isFullDate cs = true) : cs.length = 10 := by
  unfold isFullDate at h
  split at h
  · rfl
  · cases h

theorem isFullDate_shortDate_iff (d : Date) :
    isFullDate (shortDate d) = true ↔ 1000 ≤ d.year := by
  constructor
  · intro hfull
    have hlength := length_of_isFullDate hfull
    by_contra hsmall
    have hyear := (Nat.length_toDigits_le_iff (n := d.year) (k := 3) (b := 10) (by decide)
      (by decide)).mpr (by omega)
    simp only [shortDate, List.length_append, List.length_cons,
      length_padded (k := 2) (by decide) d.month_lt, length_padded (k := 2) (by decide) d.day_lt]
      at hlength
    omega
  · intro hlarge
    rw [shortDate_eq_isoDate hlarge]
    exact isFullDate_isoDate d

/-! ## The default format -/

theorem number_one (n : Nat) :
    ({} : Format.Directive).number 1 false n = Nat.toDigits 10 n := by
  have hpos : 1 - (Nat.toDigits 10 n).length = 0 := by
    have := Nat.length_toDigits_pos (b := 10) (n := n)
    omega
  show List.replicate (max 1 0 - (Nat.toDigits 10 n).length) '0' ++ Nat.toDigits 10 n = _
  rw [show max 1 0 = 1 from rfl, hpos]
  rfl

theorem text?_year (v : DateTime) :
    ({} : Format.Directive).text? v 'Y' = some (Nat.toDigits 10 v.date.year) :=
  congrArg some (number_one v.date.year)

theorem text?_month (v : DateTime) :
    ({} : Format.Directive).text? v 'm' = some (padded 2 v.date.month) := rfl

theorem text?_day (v : DateTime) :
    ({} : Format.Directive).text? v 'd' = some (padded 2 v.date.day) := rfl

theorem expand_date (v : DateTime) (limit : Nat) :
    Format.expand v limit 8 "%Y-%m-%d".toList = shortDate v.date := by
  simp [Format.expand, Format.takeDirective, Format.takeFlags, text?_year, text?_month, text?_day,
    shortDate]

theorem length_shortDate_le (d : Date) : (shortDate d).length ≤ 10 := by
  have hyear := (Nat.length_toDigits_le_iff (b := 10) (by decide) (by decide : 0 < 4)).mpr d.year_lt
  simp only [shortDate, List.length_append, List.length_cons,
    length_padded (k := 2) (by decide) d.month_lt, length_padded (k := 2) (by decide) d.day_lt]
  omega

theorem byPattern_date (v : DateTime) :
    Format.byPattern v "%Y-%m-%d" = String.ofList (shortDate v.date) := by
  have hplain : Format.resolveZone v ("%Y-%m-%d".toList.takeWhile (· != '\x00')) =
      "%Y-%m-%d".toList := rfl
  have hfits : (shortDate v.date).length < Format.capacity 8 := by
    have hlength := length_shortDate_le v.date
    have hroom := Nat.le_max_left 4 (Nat.nextPowerOfTwo 8)
    rw [Format.capacity]
    omega
  unfold Format.byPattern
  rw [hplain]
  dsimp only
  rw [show "%Y-%m-%d".toList.length = 8 from rfl, expand_date, if_pos hfits]

theorem write_date {v : DateTime} {format : Option String} (h : format.getD "date" = "date") :
    v.write format = String.ofList (shortDate v.date) := by
  rw [DateTime.write, h]
  exact byPattern_date v

end Harvest.Calendar
