import Harvest.Calendar.Embedded
import Harvest.Calendar.Names
import Harvest.Proofs.Pattern.Language
import Harvest.Proofs.Text.Letters

/-!
# Texts of date patterns

Which texts the patterns of embedded dates take in.
-/

namespace Harvest.Calendar.Embedded

open Harvest.Pattern
open Text (isBlank isDecimal isWord IsLetter decimalCount decimalCount_append)

variable {cs w before after : List Char} {n : Nat} {c x : Char} {p : Pattern} {ps : List Pattern}

/-! ## Parts -/

theorem matches_single (i : Item) (mode : Mode) (x : Char) :
    CharSet.matches ⟨[i], false⟩ mode x = i.matches mode x :=
  (Bool.bne_false _).trans (Bool.or_false _)

/-- Where case counts, an item holds just the characters it is for. -/
theorem matches_exact (i : Item) (x : Char) :
    CharSet.matches ⟨[i], false⟩ {} x = i.holds false x := by
  rw [matches_single]
  cases i <;> exact Bool.or_false _

theorem matches_digit_iff :
    CharSet.matches ⟨[.category .digit false], false⟩ {} x = true ↔ isDecimal x = true := by
  rw [matches_exact]
  exact Bool.eq_iff_iff.mp (Bool.bne_false _)

theorem matches_space_iff :
    CharSet.matches ⟨[.category .space false], false⟩ {} x = true ↔ isBlank x = true := by
  rw [matches_exact]
  exact Bool.eq_iff_iff.mp ((Bool.bne_false _).trans (Bool.and_true _))

theorem matches_code_iff : CharSet.matches ⟨[.code c.toNat], false⟩ {} x = true ↔ x = c := by
  rw [matches_exact, ← Char.toNat_inj]
  exact beq_iff_eq

theorem accepts_char : (char c).Accepts w ↔ w = [c] := by
  constructor
  · rintro ⟨x, rfl, hx⟩
    rw [matches_code_iff.mp hx]
  · rintro rfl
    exact ⟨c, rfl, matches_code_iff.mpr rfl⟩

theorem accepts_digits :
    (digits n).Accepts w ↔ w.length = n ∧ ∀ x ∈ w, isDecimal x = true := by
  rw [digits, digit, accepts_repeated_one]
  simp only [matches_digit_iff, Option.mem_def, Option.some.injEq, forall_eq']
  constructor
  · rintro ⟨hdigits, hleast, hmost⟩
    exact ⟨Nat.le_antisymm hmost hleast, hdigits⟩
  · rintro ⟨rfl, hdigits⟩
    exact ⟨hdigits, Nat.le_refl _, Nat.le_refl _⟩

theorem accepts_blanks :
    (atLeastOne blank).Accepts w ↔ w ≠ [] ∧ ∀ x ∈ w, isBlank x = true := by
  rw [atLeastOne, blank, accepts_repeated_one]
  simp only [matches_space_iff]
  constructor
  · rintro ⟨hblanks, hleast, _⟩
    exact ⟨List.length_pos_iff.mp hleast, hblanks⟩
  · rintro ⟨hne, hblanks⟩
    exact ⟨hblanks, List.length_pos_iff.mpr hne, fun _ hm => nomatch hm⟩

theorem accepts_optional : (optional p).Accepts w ↔ w = [] ∨ p.Accepts w := by
  constructor
  · rintro ⟨ws, rfl, _, hmost, hws⟩
    have hlength : ws.length ≤ 1 := hmost 1 rfl
    match ws with
    | [] => exact .inl rfl
    | [v] =>
        right
        rw [List.flatten_singleton]
        exact hws v List.mem_cons_self
    | u :: v :: ws => simp at hlength
  · rintro (rfl | hw)
    · exact ⟨[], rfl, Nat.zero_le _, fun _ _ => Nat.zero_le _, fun _ hv =>
        absurd hv List.not_mem_nil⟩
    · refine ⟨[w], List.flatten_singleton.symm, Nat.zero_le _, ?_, ?_⟩
      · intro m hm
        cases hm
        exact Nat.le_refl 1
      · intro v hv
        rwa [List.mem_singleton.mp hv]

theorem accepts_concat_cons : (concat (p :: ps)).Accepts w ↔ ∃ u v,
    w = u ++ v ∧ p.Accepts u ∧ (concat ps).Accepts v := Iff.rfl

theorem accepts_concat_nil : (concat []).Accepts w ↔ w = [] := Iff.rfl

theorem accepts_choice (hne : ps ≠ []) : (choice ps).Accepts w ↔ ∃ p ∈ ps, p.Accepts w := by
  induction ps with
  | nil => exact absurd rfl hne
  | cons p ps ih =>
      cases ps with
      | nil => simp [choice]
      | cons q ps =>
          rw [List.exists_mem_cons_iff, ← ih (List.cons_ne_nil q ps)]
          exact Iff.rfl

theorem accepts_words (ss : List String) (hne : ss ≠ []) :
    (choice (ss.map word)).Accepts w ↔ ∃ s ∈ ss, (word s).Accepts w := by
  rw [accepts_choice fun hnil => hne (List.map_eq_nil_iff.mp hnil)]
  simp only [List.mem_map, exists_exists_and_eq_and]

/-! ## Words where case does not matter -/

theorem matches_anyCase_iff {i : Item} (hplain : ∀ k negated, i ≠ .category k negated) :
    CharSet.matches ⟨[i], false⟩ anyCase x = true ↔
      i.holds false x = true ∨ ∃ y ∈ fellows x, i.holds false y = true := by
  have hany : i.matches anyCase x =
      (i.holds false x || (fellows x).any fun y => i.holds false y) := by
    cases i with
    | category k negated => exact absurd rfl (hplain k negated)
    | code n => rfl
    | range low high => rfl
  rw [matches_single, hany, Bool.or_eq_true, List.any_eq_true]

/-- A set of lower-case ASCII letters finds letters only. -/
theorem isLetter_of_matches {i : Item} (hplain : ∀ k negated, i ≠ .category k negated)
    (hi : ∀ y, i.holds false y = true → y.isLower = true)
    (h : CharSet.matches ⟨[i], false⟩ anyCase x = true) : IsLetter x := by
  rcases (matches_anyCase_iff hplain).mp h with hself | ⟨y, hy, hholds⟩
  · exact Text.isLetter_of_isAlpha (Text.isAlpha_of_isLower (hi x hself))
  · exact isLetter_of_mem_fellows (hi y hholds) hy

theorem matches_of_toLower {i : Item} (hplain : ∀ k negated, i ≠ .category k negated)
    (hx : x.toLower.isLower = true) (hi : i.holds false x.toLower = true) :
    CharSet.matches ⟨[i], false⟩ anyCase x = true :=
  (matches_anyCase_iff hplain).mpr (.inr ⟨x.toLower, mem_fellows_of_toLower hx rfl, hi⟩)

theorem letters_of_accepts_literal (hcs : ∀ c ∈ cs, c.isLower = true)
    (h : (literal anyCase cs).Accepts w) : w.length = cs.length ∧ ∀ x ∈ w, IsLetter x := by
  induction cs generalizing w with
  | nil =>
      obtain rfl : w = [] := h
      exact ⟨rfl, fun _ hx => absurd hx List.not_mem_nil⟩
  | cons c cs ih =>
      obtain ⟨_, v, rfl, ⟨x, rfl, hx⟩, hv⟩ := h
      obtain ⟨hlength, hletters⟩ := ih (fun y hy => hcs y (List.mem_cons_of_mem c hy)) hv
      refine ⟨congrArg (· + 1) hlength, List.forall_mem_cons.mpr ⟨?_, hletters⟩⟩
      apply isLetter_of_matches (fun _ _ => Item.noConfusion) _ hx
      intro y hy
      rw [Item.holds, beq_iff_eq, Char.toNat_inj] at hy
      exact hy ▸ hcs c List.mem_cons_self

theorem accepts_literal_lowered (h : ∀ c ∈ lowered w, c.isLower = true) :
    (literal anyCase (lowered w)).Accepts w := by
  induction w with
  | nil => rfl
  | cons x w ih =>
      obtain ⟨hx, hw⟩ := List.forall_mem_cons.mp h
      refine ⟨[x], w, rfl, ⟨x, rfl, ?_⟩, ih hw⟩
      exact matches_of_toLower (fun _ _ h => by cases h) hx (beq_self_eq_true _)

theorem accepts_letters :
    (Pattern.repeated (.one ⟨[.range 'a'.toNat 'z'.toNat], false⟩ anyCase)
      ⟨0, none⟩ .greedy).Accepts
      w ↔ ∀ x ∈ w, CharSet.matches ⟨[.range 'a'.toNat 'z'.toNat], false⟩ anyCase x = true := by
  rw [accepts_repeated_one]
  simp

/-! ## The international format -/

/-- A time of day has digits. -/
theorem needs_clock : clock.Needs fun x => isDecimal x = true := by
  refine .inr (.inl ⟨by decide, fun x hx => ?_⟩)
  exact matches_digit_iff.mp hx

theorem accepts_iso : iso.Accepts w ↔ ∃ y m d rest,
    w = y ++ '-' :: (m ++ '-' :: (d ++ rest)) ∧ (y.length = 4 ∧ ∀ x ∈ y, isDecimal x = true) ∧
      (m.length = 2 ∧ ∀ x ∈ m, isDecimal x = true) ∧
      (d.length = 2 ∧ ∀ x ∈ d, isDecimal x = true) ∧ (rest = [] ∨ clock.Accepts rest) := by
  simp only [iso, accepts_concat_cons, accepts_concat_nil, accepts_digits, accepts_char,
    accepts_optional]
  constructor
  · rintro ⟨y, _, rfl, hy, _, _, rfl, rfl, m, _, rfl, hm, _, _, rfl, rfl, d, _, rfl, hd, rest, _,
      rfl, hrest, rfl⟩
    exact ⟨y, m, d, rest, by simp, hy, hm, hd, hrest⟩
  · rintro ⟨y, m, d, rest, rfl, hy, hm, hd, hrest⟩
    exact ⟨y, _, rfl, hy, ['-'], _, rfl, rfl, m, _, rfl, hm, ['-'], _, rfl, rfl, d, _, rfl, hd,
      rest, [], by simp, hrest, rfl⟩

/-- A date in the international format has eight digits, and more just if a time follows. -/
theorem decimalCount_iso (h : iso.Accepts w) :
    8 ≤ decimalCount w ∧ (decimalCount w = 8 → w.length = 10) := by
  obtain ⟨y, m, d, rest, rfl, ⟨hy, hydigits⟩, ⟨hm, hmdigits⟩, ⟨hd, hddigits⟩, hrest⟩ :=
    accepts_iso.mp h
  have hhyphen : ∀ ds, decimalCount ('-' :: ds) = decimalCount ds := fun ds =>
    List.countP_cons_of_neg (by decide)
  have hcount : decimalCount (y ++ '-' :: (m ++ '-' :: (d ++ rest))) = 8 + decimalCount rest := by
    rw [decimalCount_append, hhyphen, decimalCount_append, hhyphen, decimalCount_append,
      Text.decimalCount_eq_length hydigits, Text.decimalCount_eq_length hmdigits,
      Text.decimalCount_eq_length hddigits, hy, hm, hd]
    omega
  rw [hcount]
  refine ⟨Nat.le_add_right 8 _, fun heq => ?_⟩
  have hnil : rest = [] := by
    rcases hrest with hnil | hclock
    · exact hnil
    · obtain ⟨x, hx, hdigit⟩ := hclock.exists_mem needs_clock
      have hpos : 0 < decimalCount rest := List.countP_pos_iff.mpr ⟨x, hx, hdigit⟩
      omega
  rw [hnil]
  simp only [List.length_append, List.length_cons, List.length_nil]
  omega

theorem isDecimal_of_head_iso (h : iso.Accepts w) : ∀ x ∈ w.head?, isDecimal x = true := by
  obtain ⟨y, m, d, rest, rfl, ⟨hy, hdigits⟩, _⟩ := accepts_iso.mp h
  obtain ⟨a, b, c, e, rfl⟩ := List.length_eq_four.mp hy
  intro x hx
  obtain rfl : a = x := Option.some.inj hx
  exact hdigits a List.mem_cons_self

theorem search?_iso_eq_none (h : decimalCount cs < 8) : search? iso cs = none := by
  rw [Option.eq_none_iff_forall_ne_some]
  intro w hw
  obtain ⟨before, after, rfl, hoccurs⟩ := exists_occurs_of_search? rfl hw
  have hcount := (decimalCount_iso hoccurs).1
  rw [decimalCount_append, decimalCount_append] at h
  omega

/-! ## Spelled dates -/

theorem monthStarts_letters : (monthStarts.all fun s => s.toList.all Char.isLower) = true ∧
    (monthStarts.all fun s => 0 < s.toList.length) = true := by decide

theorem suffixes_letters :
    (["st", "nd", "rd", "th"].all fun s => s.toList.all Char.isLower) = true := by decide

/-- A month is a word of letters, perhaps with a dot. -/
theorem exists_of_accepts_month (h : month.Accepts w) : ∃ m dot, w = m ++ dot ∧ m ≠ [] ∧
    (∀ x ∈ m, IsLetter x) ∧ (dot = [] ∨ dot = ['.']) := by
  simp only [month, accepts_concat_cons, accepts_concat_nil, accepts_letters, accepts_optional,
    accepts_char, accepts_words monthStarts (List.cons_ne_nil _ _)] at h
  obtain ⟨start, _, rfl, ⟨s, hs, hstart⟩, more, _, rfl, hmore, dot, _, rfl, hdot, rfl⟩ := h
  have hlower := List.all_eq_true.mp (List.all_eq_true.mp monthStarts_letters.1 s hs)
  have hpos := List.all_eq_true.mp monthStarts_letters.2 s hs
  obtain ⟨hlength, hletters⟩ := letters_of_accepts_literal hlower hstart
  refine ⟨start ++ more, dot, by simp, ?_, ?_, hdot⟩
  · apply List.append_ne_nil_of_left_ne_nil
    rw [← List.length_pos_iff, hlength]
    exact of_decide_eq_true hpos
  · intro x hx
    rcases List.mem_append.mp hx with hx | hx
    · exact hletters x hx
    · apply isLetter_of_matches (fun _ _ => Item.noConfusion) _ (hmore x hx)
      intro y hy
      rw [Item.holds, Bool.and_eq_true, Nat.ble_eq, Nat.ble_eq] at hy
      exact Text.isLower_iff.mpr hy

theorem accepts_month {s : String} {m rest dot : List Char} (hs : s ∈ monthStarts)
    (hm : lowered m = s.toList ++ rest) (hrest : ∀ x ∈ rest, x.isLower = true)
    (hdot : dot = [] ∨ dot = ['.']) : month.Accepts (m ++ dot) := by
  simp only [month, accepts_concat_cons, accepts_concat_nil, accepts_letters, accepts_optional,
    accepts_char, accepts_words monthStarts (List.cons_ne_nil _ _)]
  obtain ⟨start, more, rfl, hstart, hmore⟩ := List.map_eq_append_iff.mp hm
  have hlower := List.all_eq_true.mp (List.all_eq_true.mp monthStarts_letters.1 s hs)
  refine ⟨start, more ++ dot, by simp, ⟨s, hs, ?_⟩, more, dot, rfl, ?_,
    dot, [], by simp, hdot, rfl⟩
  · rw [word, ← hstart]
    apply accepts_literal_lowered
    rwa [lowered, hstart]
  · intro x hx
    have hlow : x.toLower.isLower = true := hrest _ (hmore ▸ List.mem_map_of_mem hx)
    apply matches_of_toLower (fun _ _ h => by cases h) hlow
    rw [Item.holds, Bool.and_eq_true, Nat.ble_eq, Nat.ble_eq]
    exact Text.isLower_iff.mp hlow

/-- A day is a number, perhaps with letters behind it. -/
theorem exists_of_accepts_day (h : day.Accepts w) : ∃ ds sf, w = ds ++ sf ∧ ds ≠ [] ∧
    (∀ x ∈ ds, isDecimal x = true) ∧ ∀ x ∈ sf, IsLetter x := by
  obtain ⟨ds, sf, rfl, hds, hsf⟩ := h
  rw [digit, accepts_repeated_one] at hds
  rw [accepts_optional, accepts_words _ (List.cons_ne_nil _ _)] at hsf
  refine ⟨ds, sf, rfl, ?_, fun x hx => matches_digit_iff.mp (hds.1 x hx), ?_⟩
  · exact List.length_pos_iff.mp hds.2.1
  · rcases hsf with rfl | ⟨s, hs, hsf⟩
    · exact fun _ hx => absurd hx List.not_mem_nil
    · have hlower := List.all_eq_true.mp (List.all_eq_true.mp suffixes_letters s hs)
      exact (letters_of_accepts_literal hlower hsf).2

theorem accepts_day {ds sf : List Char} (hne : ds ≠ []) (hlength : ds.length ≤ 2)
    (hds : ∀ x ∈ ds, isDecimal x = true)
    (hsf : sf = [] ∨ ∃ s ∈ ["st", "nd", "rd", "th"], lowered sf = s.toList) :
    day.Accepts (ds ++ sf) := by
  refine ⟨ds, sf, rfl, ?_, ?_⟩
  · rw [digit, accepts_repeated_one]
    refine ⟨fun x hx => matches_digit_iff.mpr (hds x hx), List.length_pos_iff.mpr hne, ?_⟩
    intro m hm
    cases hm
    exact hlength
  · rw [accepts_optional, accepts_words _ (List.cons_ne_nil _ _)]
    rcases hsf with rfl | ⟨s, hs, heq⟩
    · exact .inl rfl
    · have hlower := List.all_eq_true.mp (List.all_eq_true.mp suffixes_letters s hs)
      refine .inr ⟨s, hs, ?_⟩
      rw [word, ← heq]
      apply accepts_literal_lowered
      rwa [heq]

/-- Whether no word reaches up to the end of a text. -/
def apart (before : List Char) : Bool := !before.getLast?.any isWord

theorem apart_iff : apart before = true ↔ ∀ x ∈ before.getLast?, isWord x = false := by
  rw [apart, Bool.not_eq_true', Option.any_eq_false]
  simp

/-- A word starts at a place just if none reaches up to it. -/
theorem holds_edge_iff (hc : isWord c = true) : (Boundary.wordEdge false).holds
    (before ++ c :: after).toArray before.length = true ↔ apart before = true := by
  have hword : ∀ x, Category.word.holds false x = isWord x := fun x => by
    simp [Category.holds]
  have hat : wordAt (before ++ c :: after).toArray false before.length = true := by
    simp [wordAt, hword, hc]
  have hsize : 0 < (before ++ c :: after).toArray.size := by simp
  rw [Boundary.holds, decide_eq_true hsize, Bool.true_and, edgeAt, hat, apart]
  rcases List.eq_nil_or_concat before with rfl | ⟨front, x, rfl⟩
  · simp
  · simp [wordAt, hword]

theorem occurs_edge_iff (hp : ∀ w, p.Accepts w → ∃ c rest, w = c :: rest ∧ isWord c = true) :
    (Pattern.seq edge p).Occurs before w after ↔ apart before = true ∧ p.Accepts w := by
  constructor
  · rintro ⟨hplace, hw⟩
    obtain ⟨c, rest, rfl, hc⟩ := hp w hw
    exact ⟨(holds_edge_iff hc).mp hplace, hw⟩
  · rintro ⟨hapart, hw⟩
    obtain ⟨c, rest, rfl, hc⟩ := hp w hw
    exact ⟨(holds_edge_iff hc).mpr hapart, hw⟩

/-- A run of blanks. -/
def IsGap (w : List Char) : Prop := w ≠ [] ∧ ∀ x ∈ w, isBlank x = true

/-- Four digits. -/
def IsYear (w : List Char) : Prop := w.length = 4 ∧ ∀ x ∈ w, isDecimal x = true

/-- A day, a month and a year. -/
def IsDayFirst (w : List Char) : Prop := ∃ d g m g' y, w = d ++ (g ++ (m ++ (g' ++ y))) ∧
  day.Accepts d ∧ IsGap g ∧ month.Accepts m ∧ IsGap g' ∧ IsYear y

/-- A month, a day and a year, perhaps with a comma behind the day. -/
def IsMonthFirst (w : List Char) : Prop := ∃ m g d comma g' y,
  w = m ++ (g ++ (d ++ (comma ++ (g' ++ y)))) ∧ month.Accepts m ∧ IsGap g ∧ day.Accepts d ∧
    (comma = [] ∨ comma = [',']) ∧ IsGap g' ∧ IsYear y

theorem occurs_dayFirst_iff :
    dayFirst.Occurs before w after ↔ apart before = true ∧ IsDayFirst w := by
  have haccepts : ∀ w,
      (concat [day, atLeastOne blank, month, atLeastOne blank, digits 4]).Accepts w ↔
        IsDayFirst w := by
    intro w
    simp only [accepts_concat_cons, accepts_concat_nil, accepts_digits, accepts_blanks]
    constructor
    · rintro ⟨d, _, rfl, hd, g, _, rfl, hg, m, _, rfl, hm, g', _, rfl, hg', y, _, rfl, hy, rfl⟩
      exact ⟨d, g, m, g', y, by simp, hd, hg, hm, hg', hy⟩
    · rintro ⟨d, g, m, g', y, rfl, hd, hg, hm, hg', hy⟩
      exact ⟨d, _, rfl, hd, g, _, rfl, hg, m, _, rfl, hm, g', _, rfl, hg', y, [], by simp, hy, rfl⟩
  rw [← haccepts]
  apply occurs_edge_iff
  intro w hw
  obtain ⟨d, g, m, g', y, rfl, hd, _⟩ := (haccepts w).mp hw
  obtain ⟨ds, sf, rfl, hne, hdigits, _⟩ := exists_of_accepts_day hd
  obtain ⟨c, ds, rfl⟩ := List.exists_cons_of_ne_nil hne
  exact ⟨c, _, rfl, Text.isWord_of_isDecimal (hdigits c List.mem_cons_self)⟩

theorem occurs_monthFirst_iff :
    monthFirst.Occurs before w after ↔ apart before = true ∧ IsMonthFirst w := by
  have haccepts : ∀ w, (concat [month, atLeastOne blank, day, optional (char ','),
      atLeastOne blank, digits 4]).Accepts w ↔ IsMonthFirst w := by
    intro w
    simp only [accepts_concat_cons, accepts_concat_nil, accepts_digits, accepts_blanks,
      accepts_optional, accepts_char]
    constructor
    · rintro ⟨m, _, rfl, hm, g, _, rfl, hg, d, _, rfl, hd, comma, _, rfl, hcomma, g', _, rfl, hg',
        y, _, rfl, hy, rfl⟩
      exact ⟨m, g, d, comma, g', y, by simp, hm, hg, hd, hcomma, hg', hy⟩
    · rintro ⟨m, g, d, comma, g', y, rfl, hm, hg, hd, hcomma, hg', hy⟩
      exact ⟨m, _, rfl, hm, g, _, rfl, hg, d, _, rfl, hd, comma, _, rfl, hcomma, g', _, rfl, hg', y,
        [], by simp, hy, rfl⟩
  rw [← haccepts]
  apply occurs_edge_iff
  intro w hw
  obtain ⟨m, g, d, comma, g', y, rfl, hm, _⟩ := (haccepts w).mp hw
  obtain ⟨letters, dot, rfl, hne, hletters, _⟩ := exists_of_accepts_month hm
  obtain ⟨c, letters, rfl⟩ := List.exists_cons_of_ne_nil hne
  exact ⟨c, _, rfl, (hletters c List.mem_cons_self).1⟩

end Harvest.Calendar.Embedded
