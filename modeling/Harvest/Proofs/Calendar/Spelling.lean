import Harvest.Proofs.Calendar.DatePatterns
import Harvest.Proofs.Calendar.ReadBack
import Harvest.Proofs.Calendar.Words

/-!
# Dates spelled out

A date is spelled out with its day in front of or behind the name of the month.  Layouts read such a
date with any ordinal suffix and in any case of letters, but neither with a dot behind the month nor
with the name Sept, which the patterns of embedded dates take in as well.
-/

namespace Harvest.Calendar

open Embedded (apart)
open Format (padded)
open Layout (Names Part ReadsWords isNoise dropOrdinals)
open Text (isBlank isDecimal isWord IsLetter)

variable {cs w front back left m tail : List Char} {c : Char} {n i : Nat} {d : Date} {v : DateTime}
  {names : List String} {p : Part} {f g : Layout.Found}

/-! ## Names of months -/

/-- The names that layouts know. -/
def monthLists : List (List String) := [monthNames, shortMonthNames]

/-- A text names a month in full, by three letters, or the ninth by four. -/
def NamesMonth (n : Nat) (w : List Char) : Prop :=
  (∃ names ∈ monthLists, Names names (n - 1) w) ∨ n = 9 ∧ lowered w = "sept".toList

/-- No name of a month ends with another name. -/
theorem monthLists_apart : (monthLists.all fun names => monthLists.all fun names' =>
    names.zipIdx.all fun e => names'.zipIdx.all fun e' =>
      !(lowered e'.1.toList).isSuffixOf (lowered e.1.toList) ||
        (e.2 == e'.2 && e.1.toList.length == e'.1.toList.length)) = true := by decide +kernel

theorem monthLists_sept : (monthLists.all fun names => names.all fun name =>
    !"sept".toList.isSuffixOf (lowered name.toList)) = true := by decide

theorem length_lowered (w : List Char) : (lowered w).length = w.length := List.length_map _

theorem eq_of_names {left : List Char} (hnames : names ∈ monthLists)
    (hname : Names names i (left ++ m)) (hn : 1 ≤ n) (hm : NamesMonth n m) :
    left = [] ∧ i + 1 = n ∧ lowered m ≠ "sept".toList := by
  obtain ⟨name, hget, heq⟩ := hname
  have hend : lowered m <:+ lowered name.toList := ⟨lowered left, by
    rw [← heq, lowered, lowered, lowered, List.map_append]⟩
  have hsept : lowered m ≠ "sept".toList := by
    intro hm
    have hother := List.all_eq_true.mp (List.all_eq_true.mp monthLists_sept names hnames) name
      (List.mem_of_getElem? hget)
    rw [← hm, Bool.not_eq_true', ← Bool.not_eq_true, List.isSuffixOf_iff_suffix] at hother
    exact hother hend
  rcases hm with ⟨names', hnames', name', hget', heq'⟩ | ⟨_, hm⟩
  · have hall := List.all_eq_true.mp (List.all_eq_true.mp monthLists_apart names hnames)
    have hpair := List.all_eq_true.mp (List.all_eq_true.mp (hall names' hnames') (name, i)
      (List.mem_zipIdx_iff_getElem?.mpr hget))
      (name', n - 1) (List.mem_zipIdx_iff_getElem?.mpr hget')
    rw [← heq', List.isSuffixOf_iff_suffix.mpr hend, Bool.not_true, Bool.false_or,
      Bool.and_eq_true, beq_iff_eq, beq_iff_eq] at hpair
    obtain ⟨hplace, hlength⟩ := hpair
    have htotal := congrArg List.length heq
    have htotal' := congrArg List.length heq'
    rw [length_lowered, length_lowered] at htotal htotal'
    rw [List.length_append] at htotal
    dsimp only at hplace hlength
    exact ⟨List.length_eq_zero_iff.mp (by omega), by omega, hsept⟩
  · exact absurd hm hsept

/-- Names are written in letters, and start with the start of a month. -/
theorem monthLists_starts : (("sept" :: monthLists.flatten).all fun name =>
    (lowered name.toList).all Char.isLower && Embedded.monthStarts.any fun s =>
      s.toList.isPrefixOf (lowered name.toList)) = true := by decide

theorem NamesMonth.exists_start (h : NamesMonth n m) : ∃ s ∈ Embedded.monthStarts,
    s.toList <+: lowered m ∧ ∀ c ∈ lowered m, c.isLower = true := by
  have hname : ∃ name ∈ "sept" :: monthLists.flatten, lowered m = lowered name.toList := by
    rcases h with ⟨names, hnames, name, hget, heq⟩ | ⟨_, hsept⟩
    · refine ⟨name, List.mem_cons_of_mem _ (List.mem_flatten.mpr ⟨names, hnames, ?_⟩), heq⟩
      exact List.mem_of_getElem? hget
    · exact ⟨"sept", List.mem_cons_self, hsept⟩
  obtain ⟨name, hmem, heq⟩ := hname
  have hall := List.all_eq_true.mp monthLists_starts name hmem
  rw [Bool.and_eq_true, List.all_eq_true, List.any_eq_true, ← heq] at hall
  obtain ⟨hlower, s, hs, hstart⟩ := hall
  exact ⟨s, hs, List.isPrefixOf_iff_prefix.mp hstart, hlower⟩

theorem NamesMonth.letters (h : NamesMonth n m) : m ≠ [] ∧ ∀ c ∈ m, IsLetter c := by
  obtain ⟨s, hs, hstart, hlower⟩ := h.exists_start
  constructor
  · rintro rfl
    have hpos := List.all_eq_true.mp Embedded.monthStarts_letters.2 s hs
    rw [List.prefix_nil.mp hstart] at hpos
    exact absurd hpos (by decide)
  · intro c hc
    have hlow := hlower c.toLower (List.mem_map_of_mem hc)
    apply Text.isLetter_of_isAlpha
    rw [← Char.isAlpha_toLower_eq_isAlpha]
    exact Text.isAlpha_of_isLower hlow

theorem NamesMonth.accepts (h : NamesMonth n m) (htail : tail = [] ∨ tail = ['.']) :
    Embedded.month.Accepts (m ++ tail) := by
  obtain ⟨s, hs, ⟨rest, hrest⟩, hlower⟩ := h.exists_start
  apply Embedded.accepts_month hs hrest.symm _ htail
  exact fun c hc => hlower c (hrest ▸ List.mem_append_right _ hc)

/-- A word of one of the lists is a name just if no letter stands in front and no dot behind. -/
theorem month_of_takes (hp : p ∈ [Part.monthName, .shortMonthName]) (hn : 1 ≤ n)
    (hm : NamesMonth n m) (htail : tail = [] ∨ tail = ['.'])
    (h : p.Takes f (left ++ (m ++ tail)) g) :
    left = [] ∧ tail = [] ∧ lowered m ≠ "sept".toList ∧ g = { f with month := n } := by
  have hname : ∃ names ∈ monthLists, names ∈ Layout.nameLists ∧ ∃ i,
      Names names i (left ++ (m ++ tail)) ∧ g = { f with month := i + 1 } := by
    rcases List.mem_cons.mp hp with rfl | hp
    · exact ⟨monthNames, by simp [monthLists], by simp [Layout.nameLists], h⟩
    · obtain rfl := List.mem_singleton.mp hp
      exact ⟨shortMonthNames, by simp [monthLists], by simp [Layout.nameLists], h⟩
  obtain ⟨names, hnames, hlist, i, hname, rfl⟩ := hname
  have hnone : tail = [] := by
    rcases htail with hnil | rfl
    · exact hnil
    · exact absurd ((hname.letters hlist).2 '.' (by simp)) (by decide)
  rw [hnone, List.append_nil] at hname
  obtain ⟨hleft, hplace, hsept⟩ := eq_of_names hnames hname hn hm
  exact ⟨hleft, hnone, hsept, by rw [hplace]⟩

theorem exists_takes_month (hn : 1 ≤ n) (hm : NamesMonth n m) (hsept : lowered m ≠ "sept".toList) :
    ∃ p ∈ [Part.monthName, .shortMonthName], ∀ f, p.Takes f m { f with month := n } := by
  have hplace : n - 1 + 1 = n := Nat.sub_add_cancel hn
  rcases hm with ⟨names, hnames, hname⟩ | ⟨_, hm⟩
  · rcases List.mem_cons.mp hnames with rfl | hnames
    · exact ⟨.monthName, by simp, fun f => ⟨n - 1, hname, by rw [hplace]⟩⟩
    · obtain rfl := List.mem_singleton.mp hnames
      exact ⟨.shortMonthName, by simp, fun f => ⟨n - 1, hname, by rw [hplace]⟩⟩
  · exact absurd hm hsept

/-! ## Spellings -/

/-- Whether the day stands in front of the month or behind it, there perhaps with a comma. -/
inductive Order
  | dayFirst
  | monthFirst (comma : Bool)

/-- A way of spelling a date out. -/
structure Spelling (d : Date) where
  order : Order
  day : List Char
  day_eq : day = Nat.toDigits 10 d.day ∨ day = padded 2 d.day
  suffix : List Char
  suffix_eq : suffix = [] ∨ ∃ s ∈ ["st", "nd", "rd", "th"], lowered suffix = s.toList
  month : List Char
  names : NamesMonth d.month month
  dotted : Bool

namespace Spelling

variable (s : Spelling d)

def dot : List Char := if s.dotted then ['.'] else []

def monthWord : List Char := s.month ++ s.dot

def dayWord : List Char := s.day ++ s.suffix

/-- The date as it is spelled. -/
def text : List Char :=
  match s.order with
  | .dayFirst => s.dayWord ++ ' ' :: (s.monthWord ++ ' ' :: padded 4 d.year)
  | .monthFirst false => s.monthWord ++ ' ' :: (s.dayWord ++ ' ' :: padded 4 d.year)
  | .monthFirst true => s.monthWord ++ ' ' :: (s.dayWord ++ ',' :: ' ' :: padded 4 d.year)

/-- Whether a layout knows the name of the month as it is written. -/
def isRead : Bool := !s.dotted && lowered s.month != "sept".toList

/-- What stands in front of the day. -/
def lead : List Char :=
  match s.order with
  | .dayFirst => []
  | .monthFirst _ => s.monthWord ++ [' ']

/-- What stands between the day with its suffix and the year. -/
def gap : List Char :=
  match s.order with
  | .dayFirst => ' ' :: (s.monthWord ++ [' '])
  | .monthFirst false => [' ']
  | .monthFirst true => [',', ' ']

theorem text_eq : s.text = s.lead ++ (s.day ++ ((s.suffix ++ s.gap) ++ padded 4 d.year)) := by
  unfold text lead gap dayWord
  cases s.order with
  | dayFirst => simp
  | monthFirst comma => cases comma <;> simp

/-! ### Its parts -/

theorem dot_eq : s.dot = [] ∨ s.dot = ['.'] := by
  unfold dot
  split
  · exact .inr rfl
  · exact .inl rfl

theorem isRead_iff : s.isRead = true ↔ s.dot = [] ∧ lowered s.month ≠ "sept".toList := by
  rw [isRead, Bool.and_eq_true, bne_iff_ne, dot]
  cases s.dotted <;> simp

theorem monthWord_ne : s.monthWord ≠ [] :=
  List.append_ne_nil_of_left_ne_nil s.names.letters.1 _

theorem mem_monthWord (hc : c ∈ s.monthWord) : IsLetter c ∨ c = '.' := by
  rcases List.mem_append.mp hc with hc | hc
  · exact .inl (s.names.letters.2 c hc)
  · rcases s.dot_eq with hdot | hdot
    · rw [hdot] at hc
      cases hc
    · rw [hdot] at hc
      exact .inr (List.mem_singleton.mp hc)

theorem isDecimal_monthWord : ∀ c ∈ s.monthWord, isDecimal c = false := by
  intro c hc
  rcases s.mem_monthWord hc with hletter | rfl
  · exact hletter.2
  · decide

theorem isNoise_monthWord : ∀ c ∈ s.monthWord, isNoise c = false := by
  intro c hc
  rcases s.mem_monthWord hc with hletter | rfl
  · exact Layout.isNoise_of_isWord hletter.1
  · decide

theorem isDigit_day : ∀ c ∈ s.day, c.isDigit = true := by
  intro c hc
  rcases s.day_eq with heq | heq
  · rw [heq] at hc
    exact Nat.isDigit_of_mem_toDigits (by decide) (by decide) hc
  · exact isDigit_padded 2 d.day c (heq ▸ hc)

theorem isDecimal_day : ∀ c ∈ s.day, isDecimal c = true := fun c hc =>
  isDecimal_of_isDigit (s.isDigit_day c hc)

theorem readDecimal_day : Text.readDecimal s.day = d.day := by
  rcases s.day_eq with heq | heq
  · rw [heq, Text.readDecimal_toDigits]
  · rw [heq, readDecimal_padded]

theorem day_spec : s.day ≠ [] ∧ s.day.length ≤ 2 ∧ (d.day, []) ∈ Layout.readDay s.day := by
  have hall : ∀ n < 32, 1 ≤ n → ∀ w ∈ [Nat.toDigits 10 n, padded 2 n],
      w ≠ [] ∧ w.length ≤ 2 ∧ (n, []) ∈ Layout.readDay w := by decide +kernel
  have hle := d.day_le
  have hvalid := d.valid
  apply hall d.day (by omega) (by omega)
  rcases s.day_eq with heq | heq <;> rw [heq] <;> simp

theorem suffix_spec : s.suffix = [] ∨
    ∃ a b, s.suffix = [a, b] ∧ Layout.isOrdinalSuffix a b = true :=
  s.suffix_eq.imp_right fun ⟨_, he, heq⟩ => Layout.exists_suffix he heq

theorem isLetter_suffix : ∀ c ∈ s.suffix, IsLetter c := by
  intro c hc
  rcases s.suffix_spec with heq | ⟨a, b, heq, hsuffix⟩
  · rw [heq] at hc
    cases hc
  · obtain ⟨ha, hb⟩ := Layout.letters_of_isOrdinalSuffix hsuffix
    rw [heq] at hc
    rcases List.mem_cons.mp hc with rfl | hc
    · exact ha
    · exact List.mem_singleton.mp hc ▸ hb

theorem exists_gap : ∃ c r, s.gap = c :: r ∧ isWord c = false := by
  unfold gap
  cases s.order with
  | dayFirst => exact ⟨_, _, rfl, by decide⟩
  | monthFirst comma => cases comma <;> exact ⟨_, _, rfl, by decide⟩

theorem isDecimal_gap : ∀ c ∈ s.gap, isDecimal c = false := by
  have hmonth := s.isDecimal_monthWord
  have hspace : isDecimal ' ' = false := by decide
  have hcomma : isDecimal ',' = false := by decide
  unfold gap
  cases s.order with
  | dayFirst => simpa [hspace, or_imp, forall_and] using hmonth
  | monthFirst comma => cases comma <;> simp [hspace, hcomma]

theorem isDecimal_lead : ∀ c ∈ s.lead, isDecimal c = false := by
  have hmonth := s.isDecimal_monthWord
  have hspace : isDecimal ' ' = false := by decide
  unfold lead
  cases s.order with
  | dayFirst => exact fun _ hc => absurd hc List.not_mem_nil
  | monthFirst comma => simpa [hspace, or_imp, forall_and] using hmonth

theorem isYear_padded (d : Date) : Embedded.IsYear (padded 4 d.year) :=
  ⟨length_padded (by decide) d.year_lt, fun c hc =>
    isDecimal_of_isDigit (isDigit_padded 4 d.year c hc)⟩

/-- The two numbers of the text are the day and the year. -/
theorem twoNumbers (hfront : ∀ c ∈ front, isDecimal c = false)
    (hback : ∀ c ∈ back, isDecimal c = false) :
    Text.TwoNumbers (front ++ s.lead) s.day (s.suffix ++ s.gap) (padded 4 d.year) back := by
  obtain ⟨c, r, hgap, _⟩ := s.exists_gap
  obtain ⟨hlength, hyear⟩ := isYear_padded d
  exact
    { front_other := List.forall_mem_append.mpr ⟨hfront, s.isDecimal_lead⟩
      first_ne := s.day_spec.1
      first_digits := s.isDecimal_day
      middle_ne := List.append_ne_nil_of_right_ne_nil _ (by rw [hgap]; exact List.cons_ne_nil c r)
      middle_other := List.forall_mem_append.mpr
        ⟨fun c hc => (s.isLetter_suffix c hc).2, s.isDecimal_gap⟩
      second_ne := by
        rw [← List.length_pos_iff, hlength]
        decide
      second_digits := hyear
      back_other := hback }

theorem around_eq (front back : List Char) : front ++ (s.text ++ back) =
    (front ++ s.lead) ++ (s.day ++ ((s.suffix ++ s.gap) ++ (padded 4 d.year ++ back))) := by
  rw [s.text_eq]
  simp only [List.append_assoc]

theorem runs_eq (hfront : ∀ c ∈ front, isDecimal c = false)
    (hback : ∀ c ∈ back, isDecimal c = false) : Text.runs (front ++ (s.text ++ back)) = 2 := by
  rw [s.around_eq]
  exact (s.twoNumbers hfront hback).runs_eq

/-! ### Other formats -/

/-- A text that begins with a number of two digits, or with none, is no date in the international
format. -/
theorem parseIso?_eq_none (hfront : ∀ c ∈ front, isDecimal c = false) (back : List Char) :
    parseIso? (front ++ (s.text ++ back)) = none := by
  have hnone : ∀ c ∈ ([] : List Char), isDecimal c = false := fun _ hc => absurd hc List.not_mem_nil
  have hnumbers := s.twoNumbers hfront hnone
  have htext := s.around_eq front []
  rw [List.append_nil] at htext
  have hother : ∃ a c r, front ++ s.text = a ++ c :: r ∧ a.length < 4 ∧ isDecimal c = false := by
    rw [htext]
    cases hlead : front ++ s.lead with
    | nil =>
        obtain ⟨c, r, hmiddle⟩ := List.exists_cons_of_ne_nil hnumbers.middle_ne
        have hc := hnumbers.middle_other c (hmiddle ▸ List.mem_cons_self)
        obtain ⟨_, hlength, _⟩ := s.day_spec
        exact ⟨s.day, c, r ++ (padded 4 d.year ++ []), by rw [hmiddle]; rfl, by omega, hc⟩
    | cons x lead =>
        have hx := hnumbers.front_other x (hlead ▸ List.mem_cons_self)
        exact ⟨[], x, _, rfl, by decide, hx⟩
  have hlast : ∀ c ∈ (front ++ s.text).getLast?, c ≠ 'Z' ∧ c ≠ 'z' := by
    intro c hc
    rw [htext, ← List.append_assoc, ← List.append_assoc, List.append_nil,
      List.getLast?_append_of_ne_nil _ hnumbers.second_ne] at hc
    have hdigit := isDigit_padded 4 d.year c (List.mem_of_getLast? hc)
    exact ⟨ne_of_isDigit hdigit (by decide), ne_of_isDigit hdigit (by decide)⟩
  obtain ⟨a, c, r, heq, hlength, hc⟩ := hother
  obtain ⟨rest, hrest⟩ := exists_parse?_of_parseIso? hlast back
  rw [← List.append_assoc, hrest, heq, List.append_assoc, List.cons_append]
  exact parse?_eq_none hlength (digit?_eq_none hc) _

/-! ### Layouts -/

/-- The suffix is dropped where no word reaches up to the day. -/
theorem dropOrdinals_around (hfront : ∀ c ∈ front, isDecimal c = false)
    (hback : ∀ c ∈ back, isDecimal c = false) :
    dropOrdinals false (front ++ (s.text ++ back)) = (front ++ s.lead) ++
      (s.day ++ ((if apart (front ++ s.lead) then [] else s.suffix) ++
        (s.gap ++ (padded 4 d.year ++ back)))) := by
  obtain ⟨hlength, hyear⟩ := isYear_padded d
  obtain ⟨c, r, hgap, hc⟩ := s.exists_gap
  have hr : ∀ x ∈ r, isDecimal x = false := fun x hx =>
    s.isDecimal_gap x (by rw [hgap]; exact List.mem_cons_of_mem c hx)
  have hrest : dropOrdinals false (r ++ (padded 4 d.year ++ back)) =
      r ++ (padded 4 d.year ++ back) := by
    rw [Layout.dropOrdinals_append_of_other hr, Layout.dropOrdinals_year hlength hyear hback]
  have hlead : ∀ x ∈ front ++ s.lead, isDecimal x = false :=
    List.forall_mem_append.mpr ⟨hfront, s.isDecimal_lead⟩
  have hflag : ((front ++ s.lead).getLast?.map isWord).getD false = !apart (front ++ s.lead) := by
    rw [apart, Bool.not_not]
    cases (front ++ s.lead).getLast? <;> rfl
  rw [s.around_eq, Layout.dropOrdinals_append_of_other hlead, hflag, hgap]
  congr 1
  cases apart (front ++ s.lead) with
  | true =>
      obtain ⟨hne, hlength, _⟩ := s.day_spec
      have hnumber := Layout.dropOrdinals_number hne hlength s.isDecimal_day s.suffix_spec hc
        (r ++ (padded 4 d.year ++ back))
      rw [hrest] at hnumber
      simpa using hnumber
  | false =>
      have hword : ∀ x ∈ s.day ++ s.suffix, isWord x = true := List.forall_mem_append.mpr
        ⟨fun x hx => Text.isWord_of_isDecimal (s.isDecimal_day x hx),
          fun x hx => (s.isLetter_suffix x hx).1⟩
      have hinside :=
        Layout.dropOrdinals_append_of_word hword (c :: (r ++ (padded 4 d.year ++ back)))
      rw [Layout.dropOrdinals_cons (.inl rfl), hc, hrest] at hinside
      simpa using hinside

theorem date?_found (d : Date) :
    Layout.Found.date? { year := d.year, month := d.month, day := d.day } =
      some ⟨d, Time.midnight, none⟩ := by
  rw [Layout.Found.date?, d.of?_self]
  rfl

theorem takes_day (f : Layout.Found) : Part.day.Takes f s.day { f with day := d.day } := by
  have hmem : (({ f with day := d.day } : Layout.Found), []) ∈ Part.day.readings f s.day :=
    List.mem_map.mpr ⟨_, s.day_spec.2.2, rfl⟩
  obtain ⟨w, heq, htakes⟩ := Layout.mem_readings_iff.mp hmem
  rwa [← List.append_nil w, ← heq] at htakes

theorem takes_year (d : Date) (f : Layout.Found) :
    Part.year.Takes f (padded 4 d.year) { f with year := d.year } :=
  ⟨isYear_padded d, by rw [readDecimal_padded]⟩

/-- The word of the day is the day alone. -/
theorem day_of_takes {sf : List Char} (hleft : ∀ c ∈ left, isDecimal c = false ∧ isNoise c = false)
    (hsf : ∀ c ∈ sf, isDecimal c = false) (h : Part.day.Takes f (left ++ (s.day ++ sf)) g) :
    left = [] ∧ sf = [] ∧ g = { f with day := d.day } := by
  rcases h with ⟨hallows, rfl⟩ | ⟨a, ⟨heq, _⟩, _⟩
  · have hdigits := (hallows.digits Layout.decimal_dayDigits fun _ =>
      Layout.isDecimal_of_between (by decide) (by decide)).2
    have hnone : ∀ {w : List Char}, (∀ c ∈ w, isDecimal c = false) →
        (∀ c ∈ w, isDecimal c = true) → w = [] := by
      intro w hother hdigit
      rw [List.eq_nil_iff_forall_not_mem]
      intro c hc
      have hfalse := hother c hc
      rw [hdigit c hc] at hfalse
      cases hfalse
    rw [List.forall_mem_append, List.forall_mem_append] at hdigits
    have hnil := hnone (fun c hc => (hleft c hc).1) hdigits.1
    have hnil' := hnone hsf hdigits.2.2
    rw [hnil, hnil', List.nil_append, List.append_nil, s.readDecimal_day]
    exact ⟨rfl, rfl, rfl⟩
  · -- A space in front of the day belongs to no word.
    cases left with
    | nil =>
        obtain ⟨c, day, hday⟩ := List.exists_cons_of_ne_nil s.day_spec.1
        have hdigit := s.isDigit_day c (hday ▸ List.mem_cons_self)
        rw [hday] at heq
        rw [(List.cons.inj heq).1] at hdigit
        exact absurd hdigit (by decide)
    | cons x left =>
        obtain ⟨_, hnoise⟩ := hleft x List.mem_cons_self
        rw [(List.cons.inj heq).1] at hnoise
        exact absurd hnoise (by decide)

theorem year_of_takes {right : List Char} (h : Part.year.Takes f (padded 4 d.year ++ right) g) :
    right = [] ∧ g = { f with year := d.year } := by
  obtain ⟨⟨hlength, _⟩, rfl⟩ := h
  have hright : right = [] := by
    rw [List.length_append, (isYear_padded d).1] at hlength
    exact List.length_eq_zero_iff.mp (by omega)
  rw [hright, List.append_nil, readDecimal_padded]
  exact ⟨rfl, rfl⟩

/-- The words of the text are read in order just if each is what its part expects. -/
theorem found_of_dayFirst {sf right : List Char} (hp : p ∈ [Part.monthName, .shortMonthName])
    (hleft : ∀ c ∈ left, isDecimal c = false ∧ isNoise c = false)
    (hsf : ∀ c ∈ sf, isDecimal c = false)
    (h : ReadsWords [.day, p, .year] {}
      [left ++ (s.day ++ sf), s.monthWord, padded 4 d.year ++ right] g) :
    left = [] ∧ s.isRead = true ∧ g = { year := d.year, month := d.month, day := d.day } := by
  obtain ⟨f', f'', hday, hmonth, hyear⟩ := Layout.readsWords_three_iff.mp h
  obtain ⟨hnil, _, rfl⟩ := s.day_of_takes hleft hsf hday
  rw [← List.nil_append s.monthWord] at hmonth
  obtain ⟨_, hdot, hsept, rfl⟩ := month_of_takes hp d.valid.2.2.1 s.names s.dot_eq hmonth
  obtain ⟨_, rfl⟩ := year_of_takes hyear
  exact ⟨hnil, s.isRead_iff.mpr ⟨hdot, hsept⟩, rfl⟩

theorem found_of_monthFirst {right : List Char} (hp : p ∈ [Part.monthName, .shortMonthName])
    (h : ReadsWords [p, .day, .year] {} [left ++ s.monthWord, s.day, padded 4 d.year ++ right] g) :
    left = [] ∧ s.isRead = true ∧
      g = { year := d.year, month := d.month, day := d.day } := by
  obtain ⟨f', f'', hmonth, hday, hyear⟩ := Layout.readsWords_three_iff.mp h
  obtain ⟨hnil, hdot, hsept, rfl⟩ := month_of_takes hp d.valid.2.2.1 s.names s.dot_eq hmonth
  rw [← List.append_nil s.day, ← List.nil_append (s.day ++ [])] at hday
  obtain ⟨_, _, rfl⟩ := s.day_of_takes (by simp) (by simp) hday
  obtain ⟨_, rfl⟩ := year_of_takes hyear
  exact ⟨hnil, s.isRead_iff.mpr ⟨hdot, hsept⟩, rfl⟩

/-- A text that ends in noise has no word that reaches up to its end. -/
theorem apart_of_noise (h : ∀ c ∈ front.getLast?, isNoise c = true) : apart front = true := by
  rw [Embedded.apart_iff]
  intro c hc
  rw [← Bool.not_eq_true]
  intro hword
  have hnoise := h c hc
  rw [Layout.isNoise_of_isWord hword] at hnoise
  cases hnoise

theorem any_isDecimal_eq_false (h : ∀ c ∈ w, isDecimal c = false) : w.any isDecimal = false := by
  rw [List.any_eq_false]
  exact fun c hc => Bool.eq_false_iff.mp (h c hc)

theorem word_year (d : Date) : padded 4 d.year ≠ [] ∧ ∀ c ∈ padded 4 d.year, isNoise c = false := by
  obtain ⟨hlength, hdigits⟩ := isYear_padded d
  refine ⟨?_, fun c hc => Layout.isNoise_of_isWord (Text.isWord_of_isDecimal (hdigits c hc))⟩
  rw [← List.length_pos_iff, hlength]
  decide

/-- The three words of a date among the words of a text, where the first may go on to the left. -/
theorem exists_wordsAround {u v gap gap' : List Char}
    (hfront : ∀ c ∈ front, isDecimal c = false) (hback : ∀ c ∈ back, isDecimal c = false)
    (hu : u ≠ [] ∧ ∀ c ∈ u, isNoise c = false) (hv : v ≠ [] ∧ ∀ c ∈ v, isNoise c = false)
    (hgap : gap ≠ [] ∧ ∀ c ∈ gap, isNoise c = true)
    (hgap' : gap' ≠ [] ∧ ∀ c ∈ gap', isNoise c = true) (hruns : Text.runs cs ≤ 2)
    (hcs : dropOrdinals false cs =
      front ++ (u ++ (gap ++ (v ++ (gap' ++ (padded 4 d.year ++ back)))))) :
    ∃ us left right vs,
      Layout.WordsAround cs us [left ++ u, v, padded 4 d.year ++ right] vs ∧
        (∀ c ∈ left, isDecimal c = false ∧ isNoise c = false) ∧
        (left = [] → apart front = true) := by
  obtain ⟨us, left, right, vs, hfields, hsuffix, hend, _, hus, hvs⟩ :=
    Text.exists_fieldsBy_three hu hv (word_year d) hgap hgap' front back
  rw [← hcs] at hfields
  refine ⟨us, left, right, vs, ⟨hfields, hruns, ?_, ?_⟩, ?_, fun hnil => apart_of_noise (hend hnil)⟩
  · exact fun w hw => any_isDecimal_eq_false fun c hc => hfront c (hus w hw c hc)
  · exact fun w hw => any_isDecimal_eq_false fun c hc => hback c (hvs w hw c hc)
  · intro c hc
    have hmem : left ++ u ∈ Text.fieldsBy isNoise (dropOrdinals false cs) := by
      rw [hfields]
      simp
    refine ⟨hfront c (hsuffix.subset hc), ?_⟩
    exact (Text.mem_of_mem_fieldsBy hmem (List.mem_append_left u hc)).2

theorem isNoise_space : isNoise ' ' = true := by decide

theorem isNoise_comma : isNoise ',' = true := by decide

theorem isNoise_day : ∀ c ∈ s.day, isNoise c = false := fun c hc =>
  Layout.isNoise_of_isWord (Text.isWord_of_isDecimal (s.isDecimal_day c hc))

theorem word_day : s.day ≠ [] ∧ ∀ c ∈ s.day, isNoise c = false := ⟨s.day_spec.1, s.isNoise_day⟩

theorem word_month : s.monthWord ≠ [] ∧ ∀ c ∈ s.monthWord, isNoise c = false :=
  ⟨s.monthWord_ne, s.isNoise_monthWord⟩

theorem isNoise_gap {comma : Bool} (horder : s.order = .monthFirst comma) :
    s.gap ≠ [] ∧ ∀ c ∈ s.gap, isNoise c = true := by
  rw [gap, horder]
  cases comma <;> simp [isNoise_space, isNoise_comma]

theorem apart_lead (h : s.order = .dayFirst → apart front = true) :
    apart (front ++ s.lead) = true := by
  cases horder : s.order with
  | dayFirst => rw [lead, horder, List.append_nil, h horder]
  | monthFirst comma =>
      apply apart_of_noise
      rw [lead, horder, ← List.append_assoc, List.getLast?_concat]
      rintro c ⟨⟩
      exact isNoise_space

theorem wordsAround_dayFirst (horder : s.order = .dayFirst)
    (hfront : ∀ c ∈ front, isDecimal c = false) (hback : ∀ c ∈ back, isDecimal c = false) :
    ∃ us left right vs sf, Layout.WordsAround (front ++ (s.text ++ back)) us
        [left ++ (s.day ++ sf), s.monthWord, padded 4 d.year ++ right] vs ∧
      (∀ c ∈ left, isDecimal c = false ∧ isNoise c = false) ∧ (left = [] → apart front = true) ∧
      ∀ c ∈ sf, isDecimal c = false := by
  have hdrop := s.dropOrdinals_around hfront hback
  set sf := if apart (front ++ s.lead) then [] else s.suffix with hsf
  have hletters : ∀ c ∈ sf, IsLetter c := by
    rw [hsf]
    split
    · exact fun c hc => absurd hc List.not_mem_nil
    · exact s.isLetter_suffix
  have hword : s.day ++ sf ≠ [] ∧ ∀ c ∈ s.day ++ sf, isNoise c = false :=
    ⟨List.append_ne_nil_of_left_ne_nil s.day_spec.1 sf, List.forall_mem_append.mpr
      ⟨s.isNoise_day, fun c hc => Layout.isNoise_of_isWord (hletters c hc).1⟩⟩
  have hspace : [' '] ≠ [] ∧ ∀ c ∈ [' '], isNoise c = true := by simp [isNoise_space]
  rw [lead, gap, horder] at hdrop
  obtain ⟨us, left, right, vs, hwords, hleft, hend⟩ :=
    exists_wordsAround (d := d) hfront hback hword
    s.word_month hspace hspace (le_of_eq (s.runs_eq hfront hback))
    (by rw [hdrop]; simp)
  exact ⟨us, left, right, vs, sf, hwords, hleft, hend, fun c hc => (hletters c hc).2⟩

theorem wordsAround_monthFirst {comma : Bool} (horder : s.order = .monthFirst comma)
    (hfront : ∀ c ∈ front, isDecimal c = false) (hback : ∀ c ∈ back, isDecimal c = false) :
    ∃ us left right vs, Layout.WordsAround (front ++ (s.text ++ back)) us
        [left ++ s.monthWord, s.day, padded 4 d.year ++ right] vs ∧
      (∀ c ∈ left, isDecimal c = false ∧ isNoise c = false) ∧ (left = [] → apart front = true) := by
  have hdrop := s.dropOrdinals_around hfront hback
  have hlead : s.lead = s.monthWord ++ [' '] := by rw [lead, horder]
  have hspace : [' '] ≠ [] ∧ ∀ c ∈ [' '], isNoise c = true := by simp [isNoise_space]
  have hapart : apart (front ++ s.lead) = true := by
    apply s.apart_lead
    rw [horder]
    exact fun h => nomatch h
  rw [hapart, if_pos rfl, hlead] at hdrop
  obtain ⟨us, left, right, vs, hwords, hleft, hend⟩ := exists_wordsAround (d := d) hfront hback
    s.word_month s.word_day hspace (s.isNoise_gap horder)
    (le_of_eq (s.runs_eq hfront hback)) (by rw [hdrop]; simp)
  exact ⟨us, left, right, vs, hwords, hleft, hend⟩

/-- Layouts read the date, or nothing: they read it where no word reaches up to it, and where it is
written neither with a dot nor with four letters. -/
theorem of_parse? (hfront : ∀ c ∈ front, isDecimal c = false)
    (hback : ∀ c ∈ back, isDecimal c = false)
    (h : Layout.parse? (front ++ (s.text ++ back)) = some v) :
    v = ⟨d, Time.midnight, none⟩ ∧ s.isRead = true ∧ apart front = true := by
  have hanyDay : s.day.any isDecimal = true := by
    obtain ⟨c, hc⟩ := List.exists_mem_of_ne_nil _ s.day_spec.1
    exact List.any_eq_true.mpr ⟨c, hc, s.isDecimal_day c hc⟩
  have hanyMonth := any_isDecimal_eq_false s.isDecimal_monthWord
  have hanyYear : (padded 4 d.year).any isDecimal = true := by
    obtain ⟨a, b, c, e, heq⟩ := List.length_eq_four.mp (isYear_padded d).1
    have hdigit := (isYear_padded d).2 a (heq ▸ List.mem_cons_self)
    exact List.any_eq_true.mpr ⟨a, heq ▸ List.mem_cons_self, hdigit⟩
  cases horder : s.order with
  | dayFirst =>
      obtain ⟨us, left, right, vs, sf, hwords, hleft, hend, hsf⟩ :=
        s.wordsAround_dayFirst horder hfront hback
      obtain ⟨p, hp, g, hreads, hdate⟩ := hwords.dayFirst (by simp [hanyDay]) hanyMonth
        (by simp [hanyYear]) h
      obtain ⟨hnil, hread, rfl⟩ := s.found_of_dayFirst hp hleft hsf hreads
      rw [date?_found] at hdate
      exact ⟨(Option.some.inj hdate).symm, hread, hend hnil⟩
  | monthFirst comma =>
      obtain ⟨us, left, right, vs, hwords, hleft, hend⟩ :=
        s.wordsAround_monthFirst horder hfront hback
      have hanyLeft : (left ++ s.monthWord).any isDecimal = false :=
        any_isDecimal_eq_false (List.forall_mem_append.mpr
          ⟨fun c hc => (hleft c hc).1, s.isDecimal_monthWord⟩)
      obtain ⟨p, hp, g, hreads, hdate⟩ := hwords.monthFirst hanyLeft hanyDay (by simp [hanyYear]) h
      obtain ⟨hnil, hread, rfl⟩ := s.found_of_monthFirst hp hreads
      rw [date?_found] at hdate
      exact ⟨(Option.some.inj hdate).symm, hread, hend hnil⟩

theorem isWord_of_noise (h : w ≠ [] ∧ ∀ c ∈ w, isNoise c = false) : Layout.IsWord w :=
  ⟨h.1, fun c hc => Layout.isBlank_of_isNoise (h.2 c hc)⟩

/-- Alone, the words of the date stand one space apart, and the day has lost its suffix. -/
theorem normalize_text : Layout.normalize s.text =
    match s.order with
    | .dayFirst => s.day ++ ' ' :: (s.monthWord ++ ' ' :: padded 4 d.year)
    | .monthFirst _ => s.monthWord ++ ' ' :: (s.day ++ ' ' :: padded 4 d.year) := by
  have hnone : ∀ c ∈ ([] : List Char), isDecimal c = false := fun _ hc => absurd hc List.not_mem_nil
  have hdrop := s.dropOrdinals_around hnone hnone
  have hspace : [' '] ≠ [] ∧ ∀ c ∈ [' '], isNoise c = true := by simp [isNoise_space]
  rw [s.apart_lead fun _ => rfl, if_pos rfl, List.nil_append, List.append_nil] at hdrop
  cases horder : s.order with
  | dayFirst =>
      rw [lead, gap, horder] at hdrop
      exact Layout.normalize_of_three s.word_day s.word_month (word_year d) hspace hspace
        (by simpa using hdrop)
  | monthFirst comma =>
      rw [lead, horder] at hdrop
      exact Layout.normalize_of_three s.word_month s.word_day (word_year d) hspace
        (s.isNoise_gap horder) (by simpa using hdrop)

theorem month_layouts : ∀ p ∈ [Part.monthName, .shortMonthName], p.isSimple = true ∧
    [.day, .gap, p, .gap, .year] ∈ Layout.layouts ∧
      [p, .gap, .day, .gap, .year] ∈ Layout.layouts := by decide

/-- A layout reads the date alone, where it knows the name of the month. -/
theorem parse?_text (h : s.isRead = true) :
    Layout.parse? s.text = some ⟨d, Time.midnight, none⟩ := by
  have hnone : ∀ c ∈ ([] : List Char), isDecimal c = false := fun _ hc => absurd hc List.not_mem_nil
  obtain ⟨hdot, hsept⟩ := s.isRead_iff.mp h
  obtain ⟨p, hp, htakes⟩ := exists_takes_month d.valid.2.2.1 s.names hsept
  have hmonth : s.monthWord = s.month := by rw [monthWord, hdot, List.append_nil]
  obtain ⟨hsimple, hdayFirst, hmonthFirst⟩ := month_layouts p hp
  have htext := s.normalize_text
  -- that it is read at all follows from a layout that takes it in; what it is read as then follows
  -- from `of_parse?`
  have hsome : (Layout.parse? s.text).isSome = true := by
    cases horder : s.order with
    | dayFirst =>
        rw [horder] at htext
        refine Layout.isSome_parse?_of_words hdayFirst rfl hsimple (isWord_of_noise s.word_day)
          (isWord_of_noise s.word_month) (isWord_of_noise (word_year d)) (isYear_padded d).1
          (Layout.readsWords_three_iff.mpr
            ⟨_, _, s.takes_day {}, hmonth ▸ htakes _, takes_year d _⟩) (fun g hreads => ?_) htext
        have hreads' : ReadsWords [.day, p, .year] {}
            [[] ++ (s.day ++ []), s.monthWord, padded 4 d.year ++ []] g := by simpa using hreads
        obtain ⟨_, _, rfl⟩ := s.found_of_dayFirst hp (by simp) hnone hreads'
        rw [date?_found]
        rfl
    | monthFirst comma =>
        rw [horder] at htext
        refine Layout.isSome_parse?_of_words hmonthFirst hsimple rfl (isWord_of_noise s.word_month)
          (isWord_of_noise s.word_day) (isWord_of_noise (word_year d)) (isYear_padded d).1
          (Layout.readsWords_three_iff.mpr
            ⟨_, _, hmonth ▸ htakes _, s.takes_day _, takes_year d _⟩) (fun g hreads => ?_) htext
        have hreads' : ReadsWords [p, .day, .year] {}
            [[] ++ s.monthWord, s.day, padded 4 d.year ++ []] g := by simpa using hreads
        obtain ⟨_, _, rfl⟩ := s.found_of_monthFirst hp hreads'
        rw [date?_found]
        rfl
  obtain ⟨v, hv⟩ := Option.isSome_iff_exists.mp hsome
  have hv' := s.of_parse? hnone hnone (by simpa using hv)
  rw [hv, hv'.1]

end Spelling

end Harvest.Calendar
