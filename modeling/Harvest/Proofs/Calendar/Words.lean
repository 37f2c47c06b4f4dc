import Harvest.Proofs.Calendar.Normal

/-!
# Layouts of words

A layout of numbers and names with gaps between them reads a text whose words stand one space apart
word by word: each part takes in a word of its own.
-/

namespace Harvest.Calendar.Layout

open Text (isBlank isDecimal fieldsBy runs)

variable {cs r t u w : List Char} {p : Part} {ps layout : List Part} {f g h : Found}
  {ws us abc vs : List (List Char)} {v : DateTime}

/-! ## One word -/

/-- Whether a part is a number or a name. -/
def Part.isSimple : Part → Bool
  | .gap | .mark _ => false
  | _ => true

/-- A text without blanks. -/
def IsWord (w : List Char) : Prop := w ≠ [] ∧ ∀ c ∈ w, isBlank c = false

/-- A number or a name is a word, where no space stands in front of it. -/
theorem isWord_of_takes (hp : p.isSimple = true) (h : p.Takes f w g)
    (hhead : ∀ c ∈ w.head?, isBlank c = false) : IsWord w := by
  cases hnumber : p.isNumber with
  | true =>
      obtain ⟨ds, rfl | rfl, hne, hdigits⟩ := digits_of_takes hnumber h
      · exact ⟨hne, fun c hc => Text.isBlank_of_isWord (Text.isWord_of_isDecimal (hdigits c hc))⟩
      · have hspace := hhead ' ' rfl
        exact absurd hspace (by decide)
  | false =>
      have hname : ∀ {names i}, Names names i w → names ∈ nameLists → IsWord w := by
        intro names i hw hnames
        obtain ⟨hne, hletters⟩ := hw.letters hnames
        exact ⟨hne, fun c hc => Text.isBlank_of_isWord (Text.isWord_of_isAlpha (hletters c hc))⟩
      cases p with
      | monthName | shortMonthName | weekdayName | shortWeekdayName =>
          obtain ⟨i, hw, _⟩ := h
          exact hname hw (by simp [nameLists])
      | gap | mark c => cases hp
      | year | month | day | hour | minute | second => cases hnumber

theorem ne_nil_of_takes (hp : p.isSimple = true) (h : p.Takes f w g) : w ≠ [] := by
  by_cases hnil : w = []
  · exact (isWord_of_takes hp h (by simp [hnil])).1
  · exact hnil

theorem reads_cons_iff : Reads (p :: ps) f cs h ↔
    ∃ w r g, cs = w ++ r ∧ p.Takes f w g ∧ Reads ps g r h := by
  constructor
  · intro hreads
    cases hreads with
    | cons hp hps => exact ⟨_, _, _, rfl, hp, hps⟩
  · rintro ⟨w, r, g, rfl, hp, hps⟩
    exact .cons hp hps

/-- The first of two parts with a gap between them takes in the first word. -/
theorem exists_of_reads_gap (hp : p.isSimple = true) (h : Reads (p :: .gap :: ps) f w g)
    (hu : IsWord u) (ht : ∀ c ∈ t.head?, isBlank c = false) (heq : w ++ r = u ++ ' ' :: t) :
    ∃ f' w', p.Takes f u f' ∧ Reads ps f' w' g ∧ w' ++ r = t := by
  obtain ⟨v, _, _, rfl, hv, hrest⟩ := reads_cons_iff.mp h
  obtain ⟨gap, w', f', rfl, ⟨⟨hgap, hblanks⟩, rfl⟩, hps⟩ := reads_cons_iff.mp hrest
  rw [List.append_assoc, List.append_assoc] at heq
  obtain ⟨b, gap, rfl⟩ := List.exists_cons_of_ne_nil hgap
  have hb := hblanks b List.mem_cons_self
  obtain ⟨c, v, rfl⟩ := List.exists_cons_of_ne_nil (ne_nil_of_takes hp hv)
  obtain ⟨d, u, rfl⟩ := List.exists_cons_of_ne_nil hu.1
  obtain ⟨rfl, hrest⟩ := List.cons.inj heq
  have hword : IsWord (c :: v) := by
    apply isWord_of_takes hp hv
    intro x hx
    cases hx
    exact hu.2 c List.mem_cons_self
  -- both words end in front of a blank, so they are the same
  have hfront : c :: v = c :: u := by
    apply Text.front_eq_of_append_eq (p := fun x => !isBlank x) _ _ _ _ heq
    · exact fun x hx => by rw [hword.2 x hx]; rfl
    · exact fun x hx => by rw [hu.2 x hx]; rfl
    · rintro x ⟨⟩
      rw [hb]
      rfl
    · rintro x ⟨⟩
      decide
  rw [hfront] at heq hv
  obtain ⟨rfl, htext⟩ := List.cons.inj (List.append_cancel_left heq)
  refine ⟨f', w', hv, hps, ?_⟩
  cases gap with
  | nil => exact htext
  | cons b' gap =>
      have hblank := hblanks b' (by simp)
      rw [ht b' (by rw [← htext]; rfl)] at hblank
      cases hblank

/-! ## All words -/

/-- The parts take in the words one by one. -/
inductive ReadsWords : List Part → Found → List (List Char) → Found → Prop
  | nil {f : Found} : ReadsWords [] f [] f
  | cons {p : Part} {ps : List Part} {f g h : Found} {w : List Char} {ws : List (List Char)}
      (hp : p.Takes f w g) (hps : ReadsWords ps g ws h) : ReadsWords (p :: ps) f (w :: ws) h

/-- The blank of a text of two words belongs to a gap. -/
theorem isWord_of_intercalate (hpart : p.isSimple = true) (hws : ∀ w ∈ ws, IsWord w)
    (h : p.Takes f ([' '].intercalate ws) g) : ∃ w, ws = [w] := by
  cases ws with
  | nil => exact absurd rfl (ne_nil_of_takes hpart h)
  | cons w ws =>
      cases ws with
      | nil => exact ⟨w, rfl⟩
      | cons v ws =>
          obtain ⟨c, w, rfl⟩ := List.exists_cons_of_ne_nil (hws w List.mem_cons_self).1
          rw [List.intercalate_cons_cons] at h
          have hword := isWord_of_takes hpart h (by
            rintro x ⟨⟩
            exact (hws (c :: w) List.mem_cons_self).2 c List.mem_cons_self)
          exact absurd (hword.2 ' ' (by simp)) (by decide)

theorem isBlank_of_head_intercalate (hws : ∀ w ∈ ws, IsWord w) :
    ∀ c ∈ ([' '].intercalate ws).head?, isBlank c = false := by
  intro c hc
  cases ws with
  | nil => cases hc
  | cons w ws =>
      have hw := hws w List.mem_cons_self
      obtain ⟨d, w, rfl⟩ := List.exists_cons_of_ne_nil hw.1
      have hd : c = d := by
        cases ws with
        | nil => exact (Option.some.inj hc).symm
        | cons v ws => exact (Option.some.inj hc).symm
      exact hd ▸ hw.2 d List.mem_cons_self

theorem exists_blank_of_reads_gap (h : Reads (p :: .gap :: ps) f cs g) :
    ∃ b ∈ cs, isBlank b = true := by
  obtain ⟨v, _, _, rfl, _, hrest⟩ := reads_cons_iff.mp h
  obtain ⟨gap, w', _, rfl, ⟨⟨hgap, hblanks⟩, _⟩, _⟩ := reads_cons_iff.mp hrest
  obtain ⟨b, hb⟩ := List.exists_mem_of_ne_nil gap hgap
  exact ⟨b, by simp [hb], hblanks b hb⟩

/-- A layout whose parts have gaps between them reads a text whose words stand one space apart word
by word. -/
theorem readsWords_of_reads (hne : ps ≠ []) (hps : ∀ p ∈ ps, p.isSimple = true)
    (hws : ∀ w ∈ ws, IsWord w) (h : Reads (ps.intersperse .gap) f ([' '].intercalate ws) g) :
    ReadsWords ps f ws g := by
  induction ps generalizing f ws with
  | nil => exact absurd rfl hne
  | cons p ps ih =>
      have hp := hps p List.mem_cons_self
      cases ps with
      | nil =>
          obtain ⟨v, r, f', heq, hv, hnil⟩ := reads_cons_iff.mp h
          cases hnil
          rw [List.append_nil] at heq
          rw [← heq] at hv
          obtain ⟨w, rfl⟩ := isWord_of_intercalate hp hws hv
          exact .cons (by simpa using hv) .nil
      | cons q ps =>
          rw [List.intersperse_cons_cons] at h
          obtain ⟨b, hb, hblank⟩ := exists_blank_of_reads_gap h
          match ws with
          | [] => cases hb
          | [w] =>
              rw [List.intercalate_singleton] at hb
              rw [(hws w List.mem_cons_self).2 b hb] at hblank
              cases hblank
          | w :: v :: ws =>
              have hrest : ∀ x ∈ v :: ws, IsWord x := fun x hx => hws x (List.mem_cons_of_mem w hx)
              obtain ⟨f', w', hw, hreads, heq⟩ := exists_of_reads_gap (r := []) hp h
                (hws w List.mem_cons_self) (isBlank_of_head_intercalate hrest) (by simp)
              rw [List.append_nil] at heq
              rw [heq] at hreads
              exact .cons hw (ih (List.cons_ne_nil q ps)
                (fun x hx => hps x (List.mem_cons_of_mem p hx)) hrest hreads)

/-- Where the words have digits the layout has numbers. -/
theorem ReadsWords.map_isNumber (h : ReadsWords ps f ws g) (hps : ∀ p ∈ ps, p.isSimple = true) :
    ps.map Part.isNumber = ws.map fun w => w.any isDecimal := by
  induction h with
  | nil => rfl
  | @cons p ps f g h w ws hp _ ih =>
      have hsimple := hps p List.mem_cons_self
      rw [List.map_cons, List.map_cons, ih fun q hq => hps q (List.mem_cons_of_mem p hq)]
      congr 1
      cases hnumber : p.isNumber with
      | true =>
          obtain ⟨ds, hw, hne, hdigits⟩ := digits_of_takes hnumber hp
          obtain ⟨d, hd⟩ := List.exists_mem_of_ne_nil ds hne
          have hmem : d ∈ w := by rcases hw with rfl | rfl <;> simp [hd]
          exact (List.any_eq_true.mpr ⟨d, hmem, hdigits d hd⟩).symm
      | false =>
          have hplain : p.isPlain = true := by cases p <;> first | rfl | cases hsimple
          have hothers := (others_of_takes hnumber hplain hp).2
          symm
          rw [List.any_eq_false]
          exact fun c hc => Bool.eq_false_iff.mp (hothers c hc)

theorem ReadsWords.length_eq (h : ReadsWords ps f ws g) : ps.length = ws.length := by
  induction h with
  | nil => rfl
  | cons _ _ ih => exact congrArg (· + 1) ih

theorem ReadsWords.split {us vs : List (List Char)} (h : ReadsWords ps f (us ++ vs) g) :
    ∃ f', ReadsWords (ps.take us.length) f us f' ∧ ReadsWords (ps.drop us.length) f' vs g := by
  induction us generalizing ps f with
  | nil => exact ⟨f, .nil, h⟩
  | cons u us ih =>
      cases h with
      | cons hp hps =>
        obtain ⟨f', hfront, hback⟩ := ih hps
        exact ⟨f', .cons hp hfront, hback⟩

/-- A weekday adds nothing to the numbers. -/
theorem ReadsWords.eq_of_weekdays (h : ReadsWords ps f ws g)
    (hps : ∀ p ∈ ps, p = .weekdayName ∨ p = .shortWeekdayName) : g = f := by
  induction h with
  | nil => rfl
  | @cons p ps f g h w ws hp _ ih =>
      have hg : g = f := by
        rcases hps p List.mem_cons_self with rfl | rfl
        · exact hp.choose_spec.2
        · exact hp.choose_spec.2
      rw [ih fun q hq => hps q (List.mem_cons_of_mem p hq), hg]

/-! ## Layouts of two numbers -/

/-- The parts of a layout without its gaps. -/
def wordParts (layout : List Part) : List Part := layout.filter (· != .gap)

theorem layouts_spaced : ∀ layout ∈ layouts, numberCount layout ≤ 2 →
    (layout = (wordParts layout).intersperse .gap ∧ wordParts layout ≠ []) ∧
      (∀ p ∈ wordParts layout, p.isSimple = true) ∧ (wordParts layout).length < 5 := by decide

/-- A number, a name and a number are a date, and only a weekday can stand beside it. -/
theorem layouts_dayFirst : ∀ layout ∈ layouts, numberCount layout ≤ 2 → ∀ i < 5, ∀ j < 5,
    (wordParts layout).map Part.isNumber =
      List.replicate i false ++ ([true, false, true] ++ List.replicate j false) →
    (∀ p ∈ (wordParts layout).take i, p = .weekdayName ∨ p = .shortWeekdayName) ∧
      ∃ p ∈ [Part.monthName, .shortMonthName], (wordParts layout).drop i = [.day, p, .year] := by
  decide

theorem layouts_monthFirst : ∀ layout ∈ layouts, numberCount layout ≤ 2 → ∀ i < 5, ∀ j < 5,
    (wordParts layout).map Part.isNumber =
      List.replicate i false ++ ([false, true, true] ++ List.replicate j false) →
    (∀ p ∈ (wordParts layout).take i, p = .weekdayName ∨ p = .shortWeekdayName) ∧
      ∃ p ∈ [Part.monthName, .shortMonthName], (wordParts layout).drop i = [p, .day, .year] := by
  decide

/-- Words with digits among words without them, in a text of two numbers. -/
structure WordsAround (cs : List Char) (us abc vs : List (List Char)) : Prop where
  fields : fieldsBy isNoise (dropOrdinals false cs) = us ++ (abc ++ vs)
  runs_le : runs cs ≤ 2
  front_other : ∀ w ∈ us, w.any isDecimal = false
  back_other : ∀ w ∈ vs, w.any isDecimal = false

namespace WordsAround

theorem exists_of_parse? (hwords : WordsAround cs us abc vs) (hparse : parse? cs = some v) :
    ∃ layout ∈ layouts, numberCount layout ≤ 2 ∧ ∃ f g,
      ReadsWords ((wordParts layout).take us.length) {} us f ∧
      ReadsWords ((wordParts layout).drop us.length) f (abc ++ vs) g ∧ g.date? = some v ∧
      us.length < 5 ∧ vs.length < 5 ∧ (wordParts layout).map Part.isNumber =
        List.replicate us.length false ++
          (abc.map (fun w => w.any isDecimal) ++ List.replicate vs.length false) := by
  obtain ⟨layout, hlayout, hread⟩ := List.exists_of_findSome?_eq_some hparse
  obtain ⟨g, hreads, hdate⟩ := reads_of_read? hread
  obtain ⟨hplain, hseparated⟩ := layouts_proper layout hlayout
  have hcount : numberCount layout ≤ 2 :=
    le_trans (numberCount_le_runs hreads hplain hseparated)
      (le_trans (runs_normalize_le cs) hwords.runs_le)
  obtain ⟨⟨hspaced, hne⟩, hsimple, hlength⟩ := layouts_spaced layout hlayout hcount
  have hisWord : ∀ w ∈ fieldsBy isNoise (dropOrdinals false cs), IsWord w := by
    intro w hw
    refine ⟨Text.ne_nil_of_mem_fieldsBy hw, fun c hc => ?_⟩
    exact isBlank_of_isNoise (Text.mem_of_mem_fieldsBy hw hc).2
  rw [hspaced, normalize] at hreads
  have hall := readsWords_of_reads hne hsimple hisWord hreads
  rw [hwords.fields] at hall
  obtain ⟨f, hfront, hback⟩ := hall.split
  have hflags := hall.map_isNumber hsimple
  have htotal := hall.length_eq
  have hnone : ∀ {ws : List (List Char)}, (∀ w ∈ ws, w.any isDecimal = false) →
      ws.map (fun w => w.any isDecimal) = List.replicate ws.length false := fun h =>
    List.map_eq_replicate_iff.mpr h
  rw [List.map_append, List.map_append, hnone hwords.front_other, hnone hwords.back_other] at hflags
  rw [List.length_append, List.length_append] at htotal
  exact ⟨layout, hlayout, hcount, f, g, hfront, hback, hdate, by omega, by omega, hflags⟩

theorem dayFirst {a b c : List Char} (hwords : WordsAround cs us [a, b, c] vs)
    (ha : a.any isDecimal = true) (hb : b.any isDecimal = false) (hc : c.any isDecimal = true)
    (hparse : parse? cs = some v) : ∃ p ∈ [Part.monthName, .shortMonthName], ∃ g,
      ReadsWords [.day, p, .year] {} [a, b, c] g ∧ g.date? = some v := by
  obtain ⟨layout, hlayout, hcount, f, g, hfront, hback, hdate, hi, hj, hflags⟩ :=
    hwords.exists_of_parse? hparse
  rw [List.map_cons, List.map_cons, List.map_cons, List.map_nil, ha, hb, hc] at hflags
  obtain ⟨hweekdays, p, hp, hparts⟩ := layouts_dayFirst layout hlayout hcount _ hi _ hj hflags
  rw [hfront.eq_of_weekdays hweekdays, hparts] at hback
  obtain rfl : vs = [] := by simpa using hback.length_eq
  exact ⟨p, hp, g, hback, hdate⟩

theorem monthFirst {a b c : List Char} (hwords : WordsAround cs us [a, b, c] vs)
    (ha : a.any isDecimal = false) (hb : b.any isDecimal = true) (hc : c.any isDecimal = true)
    (hparse : parse? cs = some v) : ∃ p ∈ [Part.monthName, .shortMonthName], ∃ g,
      ReadsWords [p, .day, .year] {} [a, b, c] g ∧ g.date? = some v := by
  obtain ⟨layout, hlayout, hcount, f, g, hfront, hback, hdate, hi, hj, hflags⟩ :=
    hwords.exists_of_parse? hparse
  rw [List.map_cons, List.map_cons, List.map_cons, List.map_nil, ha, hb, hc] at hflags
  obtain ⟨hweekdays, p, hp, hparts⟩ := layouts_monthFirst layout hlayout hcount _ hi _ hj hflags
  rw [hfront.eq_of_weekdays hweekdays, hparts] at hback
  obtain rfl : vs = [] := by simpa using hback.length_eq
  exact ⟨p, hp, g, hback, hdate⟩

end WordsAround

/-! ## Words that a layout reads -/

theorem isSome_firstReading? (h : Reads ps f w g) (r : List Char) :
    (firstReading? ps f (w ++ r)).isSome = true := by
  induction h with
  | nil => rfl
  | @cons p ps f g h w rest hp _ ih =>
      rw [firstReading?, List.findSome?_isSome_iff]
      refine ⟨(g, rest ++ r), ?_, ih⟩
      exact mem_readings_iff.mpr ⟨w, List.append_assoc w rest r, hp⟩

theorem readsWords_three_iff {q : Part} {a b c : List Char} :
    ReadsWords [p, q, .year] f [a, b, c] g ↔
      ∃ f' f'', p.Takes f a f' ∧ q.Takes f' b f'' ∧ Part.year.Takes f'' c g := by
  constructor
  · rintro (_ | ⟨ha, _ | ⟨hb, _ | ⟨hc, ⟨⟩⟩⟩⟩)
    exact ⟨_, _, ha, hb, hc⟩
  · rintro ⟨f', f'', ha, hb, hc⟩
    exact .cons ha (.cons hb (.cons hc .nil))

/-- A layout that ends with the year stops at the end of the text. -/
theorem isSome_parse?_of_words {q : Part} {a b c : List Char}
    (hlayout : [p, .gap, q, .gap, .year] ∈ layouts)
    (hp : p.isSimple = true) (hq : q.isSimple = true) (ha : IsWord a) (hb : IsWord b)
    (hc : IsWord c) (hlength : c.length = 4) (hreads : ReadsWords [p, q, .year] {} [a, b, c] g)
    (hdate : ∀ g, ReadsWords [p, q, .year] {} [a, b, c] g → g.date?.isSome = true)
    (htext : normalize cs = a ++ ' ' :: (b ++ ' ' :: c)) : (parse? cs).isSome = true := by
  have hgap : ∀ {f}, Part.gap.Takes f [' '] f := by
    refine ⟨⟨List.cons_ne_nil _ _, fun c hc => ?_⟩, rfl⟩
    rw [List.mem_singleton.mp hc]
    decide
  have hhead : ∀ {w rest : List Char}, IsWord w → ∀ x ∈ (w ++ rest).head?, isBlank x = false := by
    intro w rest hw x hx
    obtain ⟨y, w, rfl⟩ := List.exists_cons_of_ne_nil hw.1
    obtain rfl : y = x := Option.some.inj hx
    exact hw.2 y List.mem_cons_self
  -- The layout fits, so that it has a first reading.
  obtain ⟨f', f'', hfirst, hsecond, hyear⟩ := readsWords_three_iff.mp hreads
  have hfits : Reads [p, .gap, q, .gap, .year] {} (a ++ ([' '] ++ (b ++ ([' '] ++ (c ++ []))))) g :=
    .cons hfirst (.cons hgap (.cons hsecond (.cons hgap (.cons hyear .nil))))
  obtain ⟨⟨g', r⟩, hread⟩ := Option.isSome_iff_exists.mp (isSome_firstReading? hfits [])
  have hfits' : a ++ ([' '] ++ (b ++ ([' '] ++ (c ++ [])))) ++ [] =
      a ++ ' ' :: (b ++ ' ' :: c) := by
    simp
  rw [hfits'] at hread
  -- The first reading takes in the words, and the last of them as a whole.
  obtain ⟨w, heq, hall⟩ := reads_of_firstReading? hread
  obtain ⟨e', w', ha', hall, heq⟩ := exists_of_reads_gap hp hall ha (hhead hb) heq.symm
  obtain ⟨e'', w'', hb', hall, heq⟩ := exists_of_reads_gap hq hall hb
    (fun x hx => hc.2 x (List.mem_of_mem_head? hx)) heq
  obtain ⟨y, _, _, rfl, hy, hnil⟩ := reads_cons_iff.mp hall
  cases hnil
  have hr : r = [] := by
    have htotal := congrArg List.length heq
    rw [List.append_nil, List.length_append, hy.1.1, hlength] at htotal
    exact List.length_eq_zero_iff.mp (by omega)
  rw [hr, List.append_nil, List.append_nil] at heq
  rw [heq] at hy
  have hsome := hdate g' (readsWords_three_iff.mpr ⟨e', e'', ha', hb', hy⟩)
  rw [parse?, List.findSome?_isSome_iff]
  refine ⟨_, hlayout, ?_⟩
  rw [read?, htext, hread, hr]
  exact hsome

end Harvest.Calendar.Layout
