import Harvest.Proofs.Calendar.Inside
import Harvest.Proofs.Calendar.Spelling

/-!
# A spelled date inside a text

The patterns of embedded dates find every date that is spelled out where no word reaches up to it,
but what they find is read by the layouts, which know fewer spellings.
-/

namespace Harvest.Calendar

open Embedded (IsDayFirst IsGap IsMonthFirst IsYear apart)
open Format (isoDate padded)
open Text (IsLetter isBlank isDecimal isWord)

variable {front back left right w : List Char} {c : Char} {d : Date} {v : DateTime}

/-! ## What the patterns take in -/

theorem isDecimal_of_isGap (h : IsGap w) : ∀ c ∈ w, isDecimal c = false := fun c hc =>
  Text.isDecimal_of_isBlank (h.2 c hc)

/-- A day, the rest up to the year with two gaps in it, and the year. -/
theorem exists_of_isDayFirst (h : IsDayFirst w) : ∃ ds others y, w = ds ++ (others ++ y) ∧
    (ds ≠ [] ∧ ∀ c ∈ ds, isDecimal c = true) ∧ (∀ c ∈ others, isDecimal c = false) ∧
      2 ≤ others.countP isBlank ∧ IsYear y := by
  obtain ⟨day, g, m, g', y, rfl, hday, hg, hm, hg', hy⟩ := h
  obtain ⟨ds, sf, rfl, hne, hdigits, hsf⟩ := Embedded.exists_of_accepts_day hday
  obtain ⟨word, dot, rfl, _, hletters, hdot⟩ := Embedded.exists_of_accepts_month hm
  have hdot' : ∀ c ∈ dot, isDecimal c = false := by
    rcases hdot with rfl | rfl
    · simp
    · have hpoint : isDecimal '.' = false := by decide
      simp [hpoint]
  have hcount : ∀ {g}, IsGap g → 1 ≤ g.countP isBlank := by
    intro g hg
    obtain ⟨b, hb⟩ := List.exists_mem_of_ne_nil g hg.1
    exact List.countP_pos_iff.mpr ⟨b, hb, hg.2 b hb⟩
  refine ⟨ds, sf ++ (g ++ (word ++ (dot ++ g'))), y, by simp, ⟨hne, hdigits⟩, ?_, ?_, hy⟩
  · simp only [List.forall_mem_append]
    exact ⟨fun c hc => (hsf c hc).2, isDecimal_of_isGap hg, fun c hc => (hletters c hc).2, hdot',
      isDecimal_of_isGap hg'⟩
  · have hfirst := hcount hg
    have hsecond := hcount hg'
    simp only [List.countP_append]
    omega

/-- A month and a gap, a day, the rest up to the year with one gap at its end, and the year. -/
theorem exists_of_isMonthFirst (h : IsMonthFirst w) : ∃ word dot g ds others g' y,
    w = ((word ++ dot) ++ g) ++ (ds ++ ((others ++ g') ++ y)) ∧
      (word ≠ [] ∧ ∀ c ∈ word, IsLetter c) ∧ (dot = [] ∨ dot = ['.']) ∧ IsGap g ∧
      (ds ≠ [] ∧ ∀ c ∈ ds, isDecimal c = true) ∧
      (∀ c ∈ others, isDecimal c = false ∧ isBlank c = false) ∧ IsGap g' ∧ IsYear y := by
  obtain ⟨m, g, day, comma, g', y, rfl, hm, hg, hday, hcomma, hg', hy⟩ := h
  obtain ⟨ds, sf, rfl, hne, hdigits, hsf⟩ := Embedded.exists_of_accepts_day hday
  obtain ⟨word, dot, rfl, hword, hletters, hdot⟩ := Embedded.exists_of_accepts_month hm
  refine ⟨word, dot, g, ds, sf ++ comma, g', y, by simp, ⟨hword, hletters⟩, hdot, hg,
    ⟨hne, hdigits⟩, List.forall_mem_append.mpr ⟨fun c hc => ?_, ?_⟩, hg', hy⟩
  · exact ⟨(hsf c hc).2, Text.isBlank_of_isWord (hsf c hc).1⟩
  · rcases hcomma with rfl | rfl
    · simp
    · have hmark : isDecimal ',' = false ∧ isBlank ',' = false := by decide
      simp [hmark]

namespace Spelling

variable (s : Spelling d)

/-! ## Where the patterns match -/

/-- Digits, other characters and a year behind them are the day, or its end, and the year. -/
theorem cut_of_numbers {ds others y : List Char} (hfront : ∀ c ∈ front, isDecimal c = false)
    (hback : ∀ c ∈ back, isDecimal c = false) (hds : ds ≠ [] ∧ ∀ c ∈ ds, isDecimal c = true)
    (hothers : others ≠ [] ∧ ∀ c ∈ others, isDecimal c = false) (hy : IsYear y)
    (heq : front ++ (s.text ++ back) = left ++ (ds ++ (others ++ (y ++ right)))) :
    ∃ more, left = (front ++ s.lead) ++ more ∧ s.day = more ++ ds ∧
      (∀ c ∈ more, isDecimal c = true) ∧ s.suffix ++ s.gap = others ∧ padded 4 d.year = y ∧
        back = right := by
  have hne : y ≠ [] := by
    rw [← List.length_pos_iff, hy.1]
    decide
  rw [s.around_eq] at heq
  obtain ⟨more, rest, hleft, hday, hmore, hgap, hyear, hright⟩ :=
    (s.twoNumbers hfront hback).exists_of_append_eq hds hothers ⟨hne, hy.2⟩ heq
  have hnil : rest = [] := by
    have hlength := congrArg List.length hyear
    rw [List.length_append, (isYear_padded d).1, hy.1] at hlength
    exact List.length_eq_zero_iff.mp (by omega)
  rw [hnil, List.append_nil] at hyear
  rw [hnil, List.nil_append] at hright
  exact ⟨more, hleft, hday, hmore, hgap, hyear, hright.symm⟩

/-- Digits reach up to the end of a text, so it does not end apart. -/
theorem eq_nil_of_apart {more : List Char} (hmore : ∀ c ∈ more, isWord c = true)
    (h : apart (front ++ more) = true) : more = [] := by
  by_contra hne
  rw [Embedded.apart_iff, List.getLast?_append_of_ne_nil _ hne] at h
  have hlast := h _ (List.getLast?_eq_getLast_of_ne_nil hne)
  rw [hmore _ (List.getLast_mem hne)] at hlast
  cases hlast

/-- A day in front of a month is found as a whole and apart, and not where the month comes first. -/
theorem of_isDayFirst (hfront : ∀ c ∈ front, isDecimal c = false)
    (hback : ∀ c ∈ back, isDecimal c = false) (hw : IsDayFirst w) (hleft : apart left = true)
    (heq : front ++ (s.text ++ back) = left ++ (w ++ right)) :
    s.order = .dayFirst ∧ w = s.text ∧ apart front = true := by
  obtain ⟨ds, others, y, rfl, hds, hothers, hblanks, hy⟩ := exists_of_isDayFirst hw
  have hne : others ≠ [] := by
    rintro rfl
    exact absurd hblanks (by decide)
  rw [List.append_assoc, List.append_assoc] at heq
  obtain ⟨more, rfl, hday, hmore, rfl, rfl, _⟩ :=
    s.cut_of_numbers hfront hback hds ⟨hne, hothers⟩ hy heq
  obtain rfl := eq_nil_of_apart (fun c hc => Text.isWord_of_isDecimal (hmore c hc)) hleft
  rw [List.nil_append] at hday
  rw [List.append_nil] at hleft
  cases horder : s.order with
  | dayFirst =>
      have hlead : s.lead = [] := by rw [lead, horder]
      rw [hlead, List.append_nil] at hleft
      refine ⟨rfl, ?_, hleft⟩
      rw [s.text_eq, hlead, hday, List.nil_append]
  | monthFirst comma =>
      -- Here a single blank stands between the day and the year.
      have hsuffix : s.suffix.countP isBlank = 0 := by
        rw [List.countP_eq_zero]
        exact fun c hc => Bool.eq_false_iff.mp (Text.isBlank_of_isWord (s.isLetter_suffix c hc).1)
      have hgap : s.gap.countP isBlank = 1 := by
        rw [gap, horder]
        cases comma <;> rfl
      rw [List.countP_append] at hblanks
      omega

theorem mem_of_getLast?_append {cs ds : List Char} (hne : ds ≠ [])
    (hc : c ∈ (cs ++ ds).getLast?) : c ∈ ds := by
  rw [List.getLast?_append_of_ne_nil _ hne] at hc
  exact List.mem_of_getLast? hc

/-- A word of letters, perhaps with a dot, and blanks behind it stand where the month does. -/
theorem exists_of_append_month {word dot g : List Char} (hword : word ≠ [] ∧ ∀ c ∈ word, IsLetter c)
    (hdot : dot = [] ∨ dot = ['.']) (hg : IsGap g) (hleft : apart left = true)
    (heq : left ++ ((word ++ dot) ++ g) = front ++ (s.monthWord ++ [' '])) :
    ∃ more, (word ++ dot) ++ g = more ++ (s.monthWord ++ [' ']) ∧ front = left ++ more ∧
      ∀ c ∈ more, IsLetter c := by
  have hletter : ∀ {c}, IsLetter c → isBlank c = false ∧ (c == '.') = false := by
    intro c hc
    refine ⟨Text.isBlank_of_isWord hc.1, ?_⟩
    rw [beq_eq_false_iff_ne]
    rintro rfl
    exact absurd hc.1 (by decide)
  have hpoint : isBlank '.' = false := by decide
  have hspace : isBlank ' ' = true := by decide
  -- The blanks are cut off first, then the dots.
  have hwordDot : ∀ {word dot : List Char}, (word ≠ [] ∧ ∀ c ∈ word, IsLetter c) →
      (dot = [] ∨ dot = ['.']) → ∀ cs, ∀ c ∈ (cs ++ (word ++ dot)).getLast?, isBlank c = false := by
    intro word dot hword hdot cs c hc
    have hmem := mem_of_getLast?_append (List.append_ne_nil_of_left_ne_nil hword.1 dot) hc
    rcases List.mem_append.mp hmem with hmem | hmem
    · exact (hletter (hword.2 c hmem)).1
    · rcases hdot with rfl | rfl
      · cases hmem
      · rw [List.mem_singleton.mp hmem]
        exact hpoint
  have hmonth := s.names.letters
  rw [← List.append_assoc, ← List.append_assoc front] at heq
  have hgap : g = [' '] := by
    apply Text.back_eq_of_append_eq hg.2 (by simp [hspace]) (hwordDot hword hdot left)
      (hwordDot hmonth s.dot_eq front) heq
  rw [hgap] at heq
  replace heq := List.append_cancel_right heq
  rw [monthWord, ← List.append_assoc, ← List.append_assoc front] at heq
  have hpoints : ∀ {dot : List Char}, (dot = [] ∨ dot = ['.']) → ∀ c ∈ dot, (c == '.') = true := by
    rintro dot (rfl | rfl) <;> simp
  have hdots : dot = s.dot := by
    apply Text.back_eq_of_append_eq (p := fun c => c == '.') (hpoints hdot)
      (hpoints s.dot_eq) _ _ heq
    · exact fun c hc => (hletter (hword.2 c (mem_of_getLast?_append hword.1 hc))).2
    · exact fun c hc => (hletter (hmonth.2 c (mem_of_getLast?_append hmonth.1 hc))).2
  rw [hdots] at heq
  rw [hgap, hdots, monthWord]
  rcases List.append_eq_append_iff.mp (List.append_cancel_right heq) with
    ⟨more, rfl, rfl⟩ | ⟨more, rfl, hall⟩
  · refine ⟨more, by simp, rfl, fun c hc => hword.2 c (List.mem_append_left _ hc)⟩
  · have hnil : more = [] := by
      apply eq_nil_of_apart (fun c hc => ?_) hleft
      exact (hmonth.2 c (hall ▸ List.mem_append_left _ hc)).1
    rw [hnil, List.nil_append] at hall
    exact ⟨[], by rw [hall]; rfl, by rw [hnil]; simp, by simp⟩

/-- A month in front of a day is found with the letters in front of it, and not where the day comes
first. -/
theorem of_isMonthFirst (hfront : ∀ c ∈ front, isDecimal c = false)
    (hback : ∀ c ∈ back, isDecimal c = false) (hw : IsMonthFirst w) (hleft : apart left = true)
    (heq : front ++ (s.text ++ back) = left ++ (w ++ right)) :
    ∃ more, w = more ++ s.text ∧ front = left ++ more ∧ (∀ c ∈ more, IsLetter c) ∧
      s.order ≠ .dayFirst := by
  obtain ⟨word, dot, g, ds, others, g', y, rfl, hword, hdot, hg, hds, hothers, hg', hy⟩ :=
    exists_of_isMonthFirst hw
  have hmiddle : others ++ g' ≠ [] ∧ ∀ c ∈ others ++ g', isDecimal c = false :=
    ⟨List.append_ne_nil_of_right_ne_nil others hg'.1,
      List.forall_mem_append.mpr ⟨fun c hc => (hothers c hc).1, isDecimal_of_isGap hg'⟩⟩
  have heq' : front ++ (s.text ++ back) =
      (left ++ ((word ++ dot) ++ g)) ++ (ds ++ ((others ++ g') ++ (y ++ right))) := by
    rw [heq]
    simp only [List.append_assoc]
  obtain ⟨more, hlead, hday, hmore, hgap, rfl, _⟩ :=
    s.cut_of_numbers hfront hback hds hmiddle hy heq'
  obtain rfl : [] = more := by
    rw [← List.append_nil (left ++ _)] at hlead
    apply Text.back_eq_of_append_eq (by simp) hmore _ _ hlead
    · intro c hc
      rw [← List.append_assoc] at hc
      exact isDecimal_of_isGap hg c (mem_of_getLast?_append hg.1 hc)
    · intro c hc
      exact (List.forall_mem_append.mpr ⟨hfront, s.isDecimal_lead⟩) c (List.mem_of_getLast? hc)
  rw [List.nil_append] at hday
  rw [List.append_nil] at hlead
  cases horder : s.order with
  | dayFirst =>
      -- Here a month stands between the day and the year.
      have hsuffix : s.suffix = others := by
        apply Text.front_eq_of_append_eq (p := fun c => !isBlank c) _ _ _ _ hgap
        · exact fun c hc => by rw [Text.isBlank_of_isWord (s.isLetter_suffix c hc).1]; rfl
        · exact fun c hc => by rw [(hothers c hc).2]; rfl
        · rw [gap, horder]
          rintro c ⟨⟩
          decide
        · intro c hc
          rw [hg'.2 c (List.mem_of_mem_head? hc)]
          rfl
      rw [hsuffix] at hgap
      obtain ⟨hne, hletters⟩ := s.names.letters
      obtain ⟨c, hc⟩ := List.exists_mem_of_ne_nil _ hne
      have hblank : isBlank c = true := by
        apply hg'.2
        rw [← List.append_cancel_left hgap, gap, horder, monthWord]
        simp [hc]
      rw [Text.isBlank_of_isWord (hletters c hc).1] at hblank
      cases hblank
  | monthFirst comma =>
      have hlead' : s.lead = s.monthWord ++ [' '] := by rw [lead, horder]
      rw [hlead'] at hlead
      obtain ⟨more, hfound, hrest, hletters⟩ := s.exists_of_append_month hword hdot hg hleft hlead
      refine ⟨more, ?_, hrest, hletters, fun h => by cases h⟩
      rw [hfound, s.text_eq, hlead', hday, hgap]
      simp only [List.append_assoc]

theorem isGap_space : IsGap [' '] := by
  refine ⟨List.cons_ne_nil _ _, fun c hc => ?_⟩
  rw [List.mem_singleton.mp hc]
  decide

theorem occurs_dayFirst (horder : s.order = .dayFirst) (h : apart front = true) :
    Embedded.dayFirst.Occurs front s.text back := by
  refine Embedded.occurs_dayFirst_iff.mpr ⟨h, s.dayWord, [' '], s.monthWord, [' '], padded 4 d.year,
    ?_, ?_, isGap_space, s.names.accepts s.dot_eq, isGap_space, isYear_padded d⟩
  · rw [text, horder]
    rfl
  · obtain ⟨hne, hlength, _⟩ := s.day_spec
    exact Embedded.accepts_day hne hlength s.isDecimal_day s.suffix_eq

theorem occurs_monthFirst {comma : Bool} (horder : s.order = .monthFirst comma)
    (h : apart front = true) : Embedded.monthFirst.Occurs front s.text back := by
  obtain ⟨hne, hlength, _⟩ := s.day_spec
  have hday := Embedded.accepts_day hne hlength s.isDecimal_day s.suffix_eq
  refine Embedded.occurs_monthFirst_iff.mpr ⟨h, s.monthWord, [' '], s.dayWord,
    if comma then [','] else [], [' '], padded 4 d.year,
    ?_, s.names.accepts s.dot_eq, isGap_space, hday, ?_, isGap_space, isYear_padded d⟩
  · rw [text, horder]
    cases comma <;> rfl
  · cases comma <;> simp

/-! ## What the search finds -/

theorem search?_iso (hfront : ∀ c ∈ front, isDecimal c = false)
    (hback : ∀ c ∈ back, isDecimal c = false) :
    Pattern.search? Embedded.iso (front ++ (s.text ++ back)) = none := by
  apply Embedded.search?_iso_eq_none
  have hnumbers := s.twoNumbers hfront hback
  obtain ⟨hlength, hyear⟩ := isYear_padded d
  obtain ⟨_, hday, _⟩ := s.day_spec
  rw [s.around_eq, Text.decimalCount_append (front ++ s.lead), Text.decimalCount_append s.day,
    Text.decimalCount_append (s.suffix ++ s.gap), Text.decimalCount_append (padded 4 d.year),
    Text.decimalCount_eq_zero_iff.mpr hnumbers.front_other,
    Text.decimalCount_eq_length hnumbers.first_digits,
    Text.decimalCount_eq_zero_iff.mpr hnumbers.middle_other,
    Text.decimalCount_eq_length hyear, Text.decimalCount_eq_zero_iff.mpr hback]
  omega

/-- A candidate is the date with letters in front of it, and there are none where it stands
apart. -/
theorem of_mem_candidates (hfront : ∀ c ∈ front, isDecimal c = false)
    (hback : ∀ c ∈ back, isDecimal c = false)
    (hw : w ∈ Embedded.candidates (front ++ (s.text ++ back))) :
    ∃ more, w = more ++ s.text ∧ (∀ c ∈ more, isDecimal c = false) ∧
      (apart more = true → apart front = true) ∧ (apart front = true → more = []) := by
  obtain ⟨p, hp, hsearch⟩ := List.mem_filterMap.mp hw
  simp only [Embedded.patterns, List.mem_cons, List.not_mem_nil, or_false] at hp
  rcases hp with rfl | rfl | rfl
  · rw [s.search?_iso hfront hback] at hsearch
    cases hsearch
  · obtain ⟨left, right, htext, hoccurs⟩ := Pattern.exists_occurs_of_search? (by rfl) hsearch
    obtain ⟨hleft, hword⟩ := Embedded.occurs_dayFirst_iff.mp hoccurs
    obtain ⟨_, rfl, hapart⟩ := s.of_isDayFirst hfront hback hword hleft htext
    exact ⟨[], rfl, by simp, fun _ => hapart, fun _ => rfl⟩
  · obtain ⟨left, right, htext, hoccurs⟩ := Pattern.exists_occurs_of_search? (by rfl) hsearch
    obtain ⟨hleft, hword⟩ := Embedded.occurs_monthFirst_iff.mp hoccurs
    obtain ⟨more, rfl, rfl, hletters, _⟩ := s.of_isMonthFirst hfront hback hword hleft htext
    refine ⟨more, rfl, fun c hc => (hletters c hc).2, fun hmore => ?_, fun hapart => ?_⟩
    · rw [← List.nil_append more] at hmore
      rw [eq_nil_of_apart (fun c hc => (hletters c hc).1) hmore, List.append_nil]
      exact hleft
    · exact eq_nil_of_apart (fun c hc => (hletters c hc).1) hapart

theorem exists_mem_candidates (h : apart front = true) (back : List Char) :
    ∃ w, w ∈ Embedded.candidates (front ++ (s.text ++ back)) := by
  have hfound : ∀ {p}, p ∈ Embedded.patterns → p.isSearchable = true →
      p.Occurs front s.text back → ∃ w, w ∈ Embedded.candidates (front ++ (s.text ++ back)) := by
    intro p hp hsearchable hoccurs
    obtain ⟨w, hw⟩ := Option.isSome_iff_exists.mp (Pattern.isSome_search? hsearchable hoccurs)
    exact ⟨w, List.mem_filterMap.mpr ⟨p, hp, hw⟩⟩
  cases horder : s.order with
  | dayFirst => exact hfound (by simp [Embedded.patterns]) rfl (s.occurs_dayFirst horder h)
  | monthFirst comma =>
      exact hfound (by simp [Embedded.patterns]) rfl (s.occurs_monthFirst horder h)

theorem parseEmbedded?_eq {more : List Char} (hmore : ∀ c ∈ more, isDecimal c = false) :
    parseEmbedded? (more ++ s.text) = Layout.parse? (more ++ s.text) := by
  have hiso := s.parseIso?_eq_none hmore []
  rw [List.append_nil] at hiso
  rw [parseEmbedded?, hiso, Option.none_or]

/-- The search reads the date where it stands apart and a layout knows its spelling. -/
theorem findSome?_candidates (hfront : ∀ c ∈ front, isDecimal c = false)
    (hback : ∀ c ∈ back, isDecimal c = false) :
    (Embedded.candidates (front ++ (s.text ++ back))).findSome? parseEmbedded? =
      if s.isRead && apart front then some ⟨d, Time.midnight, none⟩ else none := by
  have hsound : ∀ {w v}, w ∈ Embedded.candidates (front ++ (s.text ++ back)) →
      parseEmbedded? w = some v → v = ⟨d, Time.midnight, none⟩ ∧ s.isRead = true ∧
        apart front = true := by
    intro w v hw hv
    obtain ⟨more, rfl, hmore, hapart, _⟩ := s.of_mem_candidates hfront hback hw
    rw [s.parseEmbedded?_eq hmore, ← List.append_nil s.text] at hv
    obtain ⟨hdate, hread, hend⟩ := s.of_parse? hmore (by simp) hv
    exact ⟨hdate, hread, hapart hend⟩
  by_cases h : s.isRead = true ∧ apart front = true
  · obtain ⟨w, hw⟩ := s.exists_mem_candidates h.2 back
    obtain ⟨more, rfl, _, _, hnil⟩ := s.of_mem_candidates hfront hback hw
    rw [hnil h.2, List.nil_append] at hw
    have hread : parseEmbedded? s.text = some ⟨d, Time.midnight, none⟩ := by
      rw [← List.nil_append s.text, s.parseEmbedded?_eq (by simp)]
      exact s.parse?_text h.1
    have hsome : ((Embedded.candidates (front ++ (s.text ++ back))).findSome?
        parseEmbedded?).isSome = true := by
      rw [List.findSome?_isSome_iff]
      exact ⟨s.text, hw, by rw [hread]; rfl⟩
    obtain ⟨v, hv⟩ := Option.isSome_iff_exists.mp hsome
    obtain ⟨w, hw, heq⟩ := List.exists_of_findSome?_eq_some hv
    rw [hv, (hsound hw heq).1, h.1, h.2]
    rfl
  · rw [if_neg (by simpa using h), List.findSome?_eq_none_iff]
    intro w hw
    rw [Option.eq_none_iff_forall_ne_some]
    intro v hv
    exact h (hsound hw hv).2

/-! ## The whole text -/

theorem apart_dropWhile (before : List Char) : apart (before.dropWhile isBlank) = apart before := by
  cases hrest : before.dropWhile isBlank with
  | nil =>
      have hblanks := List.dropWhile_eq_nil_iff.mp hrest
      symm
      rw [show apart [] = true from rfl, Embedded.apart_iff]
      exact fun c hc => Text.isWord_of_isBlank (hblanks c (List.mem_of_getLast? hc))
  | cons c rest =>
      have hsplit := List.takeWhile_append_dropWhile (p := isBlank) (l := before)
      rw [hrest] at hsplit
      rw [← hsplit, apart, apart, List.getLast?_append_of_ne_nil _ (List.cons_ne_nil c rest)]

theorem text_ends : s.text ≠ [] ∧ (∀ c ∈ s.text.head?, isBlank c = false) ∧
    ∀ c ∈ s.text.getLast?, isBlank c = false := by
  have hend : ∀ {w rest : List Char}, (w ≠ [] ∧ ∀ c ∈ w, Layout.isNoise c = false) →
      ∀ c ∈ (w ++ rest).head?, isBlank c = false := by
    intro w rest hw c hc
    obtain ⟨x, w, rfl⟩ := List.exists_cons_of_ne_nil hw.1
    obtain rfl : x = c := Option.some.inj hc
    exact Layout.isBlank_of_isNoise (hw.2 x List.mem_cons_self)
  refine ⟨?_, ?_, ?_⟩
  · rw [s.text_eq]
    exact List.append_ne_nil_of_right_ne_nil _ (List.append_ne_nil_of_left_ne_nil s.day_spec.1 _)
  · rw [s.text_eq, lead]
    cases s.order with
    | dayFirst =>
        dsimp only
        rw [List.nil_append]
        exact hend s.word_day
    | monthFirst comma =>
        dsimp only
        rw [List.append_assoc]
        exact hend s.word_month
  · intro c hc
    rw [s.text_eq, ← List.append_assoc, ← List.append_assoc] at hc
    exact Layout.isBlank_of_isNoise ((word_year d).2 c (mem_of_getLast?_append (word_year d).1 hc))

theorem recognizeTrimmed_around (hfront : ∀ c ∈ front, isDecimal c = false)
    (hback : ∀ c ∈ back, isDecimal c = false) : recognizeTrimmed (front ++ (s.text ++ back)) =
      .ok (if s.isRead && apart front then some ⟨d, Time.midnight, none⟩ else none) := by
  have hempty : (front ++ (s.text ++ back)).isEmpty = false := by
    rw [List.isEmpty_eq_false_iff]
    exact List.append_ne_nil_of_right_ne_nil _
      (List.append_ne_nil_of_left_ne_nil s.text_ends.1 _)
  have hmail : Mail.parse (front ++ (s.text ++ back)) = .notADate :=
    Mail.parse_of_few_numbers (by rw [s.runs_eq hfront hback]; decide)
  rw [recognizeTrimmed, hempty, s.parseIso?_eq_none hfront, hmail]
  dsimp only [Bool.false_eq_true, if_false]
  rw [s.findSome?_candidates hfront hback]
  cases hlayout : Layout.parse? (front ++ (s.text ++ back)) with
  | none => rfl
  | some v =>
      obtain ⟨rfl, hread, hapart⟩ := s.of_parse? hfront hback hlayout
      rw [hread, hapart]
      rfl

theorem recognize_around {before after : List Char} (hbefore : ∀ c ∈ before, isDecimal c = false)
    (hafter : ∀ c ∈ after, isDecimal c = false) :
    recognize (String.ofList (before ++ (s.text ++ after))) =
      .ok (if s.isRead && apart before then some ⟨d, Time.midnight, none⟩ else none) := by
  obtain ⟨hne, hhead, hlast⟩ := s.text_ends
  obtain ⟨back, hback, htrim⟩ := Text.exists_stripBy_append hne hhead hlast before after
  rw [recognize, String.toList_ofList, Text.trimChars, htrim, s.recognizeTrimmed_around,
    apart_dropWhile]
  · exact fun c hc => hbefore c ((List.dropWhile_suffix isBlank).subset hc)
  · exact fun c hc => hafter c (hback.subset hc)

end Spelling

end Harvest.Calendar

namespace Harvest.Transformation

open Calendar (Date Spelling)
open Calendar.Embedded (apart)
open Calendar.Format (isoDate)

variable {options : Members} {d : Date} {before after : String}

/-- A date that is spelled out is read in every text without further digits, if no word reaches up
to it, its month has no dot and is not named by four letters.  Otherwise nothing is found, although
the patterns of embedded dates know the dot and the name of four letters. -/
theorem parseDate_spelled (h : DefaultFormat options) (s : Spelling d) (hyear : 1000 ≤ d.year)
    (hbefore : ∀ c ∈ before.toList, Text.isDecimal c = false)
    (hafter : ∀ c ∈ after.toList, Text.isDecimal c = false) :
    parseDate.run (.str (before ++ String.ofList s.text ++ after)) options =
      .ok (if s.isRead && apart before.toList then .str (String.ofList (isoDate d))
        else .null) := by
  have htext : before ++ String.ofList s.text ++ after =
      String.ofList (before.toList ++ (s.text ++ after.toList)) := by
    rw [String.ofList_append, String.ofList_append, String.ofList_toList, String.ofList_toList,
      String.append_assoc]
  have hread := s.recognize_around hbefore hafter
  rw [htext]
  cases hfound : s.isRead && apart before.toList with
  | true =>
      rw [hfound] at hread
      rw [parseDate_of_recognize h hread, Calendar.shortDate_eq_isoDate hyear]
      rfl
  | false =>
      rw [hfound] at hread
      exact parseDate_of_recognize_none hread

/-! ### Three spellings -/

def eve : Date := ⟨2015, 12, 24, by decide⟩

/-- The day behind the month, with its suffix and a comma, in letters of either case. -/
def eveInWords : Spelling eve where
  order := .monthFirst true
  day := "24".toList
  day_eq := .inl (by decide +kernel)
  suffix := "Th".toList
  suffix_eq := .inr ⟨"th", by simp, by decide +kernel⟩
  month := "DECember".toList
  names := .inl ⟨Calendar.monthNames, by simp [Calendar.monthLists], "December", rfl,
    by decide +kernel⟩
  dotted := false

theorem parseDate_spelled_eve :
    DefaultFormat [] ∧ 1000 ≤ eve.year ∧
      (∀ c ∈ "last updated on ".toList, Text.isDecimal c = false) ∧
      (∀ c ∈ " by an editor".toList, Text.isDecimal c = false) ∧
      (eveInWords.isRead && apart "last updated on ".toList) = true ∧
      parseDate.run (.str "last updated on DECember 24Th, 2015 by an editor") [] =
        .ok (.str "2015-12-24") := by
  have h : DefaultFormat [] := .inl rfl
  have hyear : 1000 ≤ eve.year := by decide
  have hdigits : "last updated on ".toList.any Text.isDecimal = false ∧
      " by an editor".toList.any Text.isDecimal = false := by decide +kernel
  simp only [List.any_eq_false, Bool.not_eq_true] at hdigits
  have hread : (eveInWords.isRead && apart "last updated on ".toList) = true := by decide +kernel
  have hdate : String.ofList (isoDate eve) = "2015-12-24" := by decide +kernel
  have htext : "last updated on " ++ String.ofList eveInWords.text ++ " by an editor" =
      "last updated on DECember 24Th, 2015 by an editor" := by decide +kernel
  have hrun := parseDate_spelled h eveInWords hyear hdigits.1 hdigits.2
  rw [htext, hread, hdate] at hrun
  exact ⟨h, hyear, hdigits.1, hdigits.2, hread, hrun⟩

/-- The same day with a dot behind the name of the month. -/
def eveDotted : Spelling eve where
  order := .dayFirst
  day := "24".toList
  day_eq := .inl (by decide +kernel)
  suffix := []
  suffix_eq := .inl rfl
  month := "Dec".toList
  names := .inl ⟨Calendar.shortMonthNames, by simp [Calendar.monthLists], "Dec", rfl,
    by decide +kernel⟩
  dotted := true

/-- A day of the ninth month, named by four letters. -/
def inSept : Spelling ⟨2015, 9, 24, by decide⟩ where
  order := .dayFirst
  day := "24".toList
  day_eq := .inl (by decide +kernel)
  suffix := []
  suffix_eq := .inl rfl
  month := "Sept".toList
  names := .inr ⟨rfl, by decide +kernel⟩
  dotted := false

/-- What the pattern finds is the whole text each time, and no layout reads it. -/
theorem parseDate_misses_spelling :
    eveDotted.text = "24 Dec. 2015".toList ∧ inSept.text = "24 Sept 2015".toList ∧
      (∀ s ∈ ["24 Dec. 2015", "24 Sept 2015"],
        Pattern.search? Calendar.Embedded.dayFirst s.toList = some s.toList ∧
          parseDate.run (.str s) [] = .ok .null) := by
  have hfound : ∀ s ∈ ["24 Dec. 2015", "24 Sept 2015"],
      Pattern.search? Calendar.Embedded.dayFirst s.toList = some s.toList ∧
        Calendar.recognize s = .ok none := by decide +kernel
  refine ⟨by decide +kernel, by decide +kernel, fun s hs => ?_⟩
  obtain ⟨hsearch, hnone⟩ := hfound s hs
  exact ⟨hsearch, parseDate_of_recognize_none hnone⟩

end Harvest.Transformation
