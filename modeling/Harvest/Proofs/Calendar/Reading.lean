import Harvest.Calendar.Layout
import Harvest.Proofs.Text.Letters
import Harvest.Proofs.Text.Runs

/-!
# What a layout reads

A part of a layout takes a piece off the front of the text, whatever stands behind it; a layout that
fits cuts the whole text into such pieces.  Numbers, names, gaps and marks are pieces of different
characters, which tells how many numbers a text needs and which marks it may hold.
-/

namespace Harvest.Calendar.Layout

open Text (isBlank isDecimal readDecimal runs runsFrom)

variable {cs r w : List Char} {c : Char} {n : Nat} {p : Part} {ps : List Part} {f g h : Found}
  {two : TwoDigits} {one : Char → Bool} {names : List String} {name : List Char}

/-! ## Pieces -/

/-- Two digits that meet a condition, or one that may stand alone. -/
def TwoDigits.Allows (two : TwoDigits) (one : Char → Bool) (w : List Char) : Prop :=
  (∃ a b, w = [a, b] ∧ two a b = true) ∨ ∃ a, w = [a] ∧ one a = true

theorem mem_readTwo_iff : (n, r) ∈ readTwo two one cs ↔
    ∃ w, cs = w ++ r ∧ two.Allows one w ∧ n = readDecimal w := by
  unfold readTwo
  rw [List.mem_append]
  constructor
  · rintro (hlong | hshort)
    · split at hlong
      · next a b s =>
        split at hlong
        · next htwo =>
          cases List.mem_singleton.mp hlong
          exact ⟨[a, b], rfl, .inl ⟨a, b, rfl, htwo⟩, rfl⟩
        · cases hlong
      · cases hlong
    · split at hshort
      · next a s =>
        split at hshort
        · next hone =>
          cases List.mem_singleton.mp hshort
          exact ⟨[a], rfl, .inr ⟨a, rfl, hone⟩, rfl⟩
        · cases hshort
      · cases hshort
  · rintro ⟨w, rfl, ⟨a, b, rfl, htwo⟩ | ⟨a, rfl, hone⟩, rfl⟩
    · left
      show _ ∈ if two a b then [(readDecimal [a, b], r)] else []
      rw [if_pos htwo]
      exact List.mem_singleton_self _
    · right
      show _ ∈ if one a then [(readDecimal [a], r)] else []
      rw [if_pos hone]
      exact List.mem_singleton_self _

theorem mem_readDay_iff : (n, r) ∈ readDay cs ↔
    (∃ w, cs = w ++ r ∧ dayDigits.Allows (between '1' '9') w ∧ n = readDecimal w) ∨
      ∃ a, cs = [' ', a] ++ r ∧ between '1' '9' a = true ∧ n = readDecimal [a] := by
  unfold readDay
  rw [List.mem_append, mem_readTwo_iff]
  apply or_congr Iff.rfl
  constructor
  · intro hspace
    split at hspace
    · next a s =>
      split at hspace
      · next hone =>
        cases List.mem_singleton.mp hspace
        exact ⟨a, rfl, hone, rfl⟩
      · cases hspace
    · cases hspace
  · rintro ⟨a, rfl, hone, rfl⟩
    show _ ∈ if between '1' '9' a then [(readDecimal [a], r)] else []
    rw [if_pos hone]
    exact List.mem_singleton_self _

theorem mem_readYear_iff : (n, r) ∈ readYear cs ↔ ∃ w, cs = w ++ r ∧ w.length = 4 ∧
    (∀ c ∈ w, isDecimal c = true) ∧ n = readDecimal w := by
  constructor
  · intro hread
    unfold readYear at hread
    split at hread
    · next a b c d s =>
      split at hread
      · next hdigits =>
        cases List.mem_singleton.mp hread
        exact ⟨[a, b, c, d], rfl, rfl, List.all_eq_true.mp hdigits, rfl⟩
      · cases hread
    · cases hread
  · rintro ⟨w, rfl, hlength, hdigits, rfl⟩
    obtain ⟨a, b, c, d, rfl⟩ := List.length_eq_four.mp hlength
    dsimp only [readYear, List.cons_append, List.nil_append]
    rw [if_pos (List.all_eq_true.mpr hdigits)]
    exact List.mem_singleton_self _

theorem dropName?_eq_some_iff : dropName? name cs = some r ↔
    ∃ w, cs = w ++ r ∧ lowered w = lowered name := by
  -- letter by letter: the text is compared in lower case, and its own letters make up the front
  induction name generalizing cs with
  | nil =>
      constructor
      · intro heq
        cases heq
        exact ⟨[], rfl, rfl⟩
      · rintro ⟨w, rfl, hw⟩
        rw [List.map_eq_nil_iff.mp hw]
        rfl
  | cons n ns ih =>
      cases cs with
      | nil =>
          constructor
          · intro heq
            cases heq
          · rintro ⟨w, hnil, hw⟩
            rw [(List.append_eq_nil_iff.mp hnil.symm).1] at hw
            cases hw
      | cons c cs =>
          rw [dropName?]
          constructor
          · intro heq
            split at heq
            · next hc =>
              obtain ⟨w, rfl, hw⟩ := ih.mp heq
              refine ⟨c :: w, rfl, ?_⟩
              rw [lowered, lowered, List.map_cons, List.map_cons, beq_iff_eq.mp hc]
              exact congrArg _ hw
            · cases heq
          · rintro ⟨w, hcs, hw⟩
            cases w with
            | nil => cases hw
            | cons x w =>
                obtain ⟨rfl, rfl⟩ := List.cons.inj hcs
                obtain ⟨hx, hrest⟩ := List.cons.inj hw
                rw [if_pos (beq_iff_eq.mpr hx.symm)]
                exact ih.mpr ⟨w, rfl, hrest⟩

/-- A text is the name at a place of a list, where the case of ASCII letters does not matter. -/
def Names (names : List String) (i : Nat) (w : List Char) : Prop :=
  ∃ name, names[i]? = some name ∧ lowered w = lowered name.toList

theorem mem_readName_iff : (n, r) ∈ readName names cs ↔
    ∃ w, cs = w ++ r ∧ ∃ i, Names names i w ∧ n = i + 1 := by
  rw [readName, List.mem_filterMap]
  constructor
  · rintro ⟨⟨name, i⟩, hname, hread⟩
    obtain ⟨s, hdrop, heq⟩ := Option.map_eq_some_iff.mp hread
    cases heq
    obtain ⟨w, hcs, hw⟩ := dropName?_eq_some_iff.mp hdrop
    exact ⟨w, hcs, i, ⟨name, List.mem_zipIdx_iff_getElem?.mp hname, hw⟩, rfl⟩
  · rintro ⟨w, hcs, i, ⟨name, hname, hw⟩, rfl⟩
    refine ⟨(name, i), List.mem_zipIdx_iff_getElem?.mpr hname, ?_⟩
    exact Option.map_eq_some_iff.mpr ⟨r, dropName?_eq_some_iff.mpr ⟨w, hcs, hw⟩, rfl⟩

theorem mem_readGap_iff : r ∈ readGap cs ↔
    ∃ w, cs = w ++ r ∧ w ≠ [] ∧ ∀ c ∈ w, isBlank c = true := by
  rw [readGap, List.mem_map]
  constructor
  · rintro ⟨i, hi, rfl⟩
    rw [List.mem_range] at hi
    set n := (cs.takeWhile isBlank).length
    have hlength : n ≤ cs.length := (List.takeWhile_prefix isBlank).length_le
    refine ⟨cs.take (n - i), (List.take_append_drop _ cs).symm, ?_, ?_⟩
    · rw [← List.length_pos_iff, List.length_take]
      omega
    · intro c hc
      have hfront : cs.take (n - i) <+: cs.takeWhile isBlank := by
        apply List.prefix_of_prefix_length_le (List.take_prefix _ cs)
          (List.takeWhile_prefix isBlank)
        exact le_trans (List.length_take_le _ cs) (Nat.sub_le n i)
      exact List.mem_takeWhile_imp (hfront.subset hc)
  · rintro ⟨w, rfl, hne, hw⟩
    have hpos := List.length_pos_iff.mpr hne
    have hlength : ((w ++ r).takeWhile isBlank).length =
        w.length + (r.takeWhile isBlank).length := by
      rw [List.takeWhile_append_of_pos hw, List.length_append]
    refine ⟨(r.takeWhile isBlank).length, ?_, ?_⟩
    · rw [List.mem_range, hlength]
      omega
    · rw [hlength, Nat.add_sub_cancel]
      exact List.drop_left

/-- A part takes in a text and adds what it writes to the numbers read before. -/
def Part.Takes : Part → Found → List Char → Found → Prop
  | .year, f, w, g => (w.length = 4 ∧ ∀ c ∈ w, isDecimal c = true) ∧
      g = { f with year := readDecimal w }
  | .month, f, w, g => monthDigits.Allows (between '1' '9') w ∧
      g = { f with month := readDecimal w }
  | .day, f, w, g =>
      (dayDigits.Allows (between '1' '9') w ∧ g = { f with day := readDecimal w }) ∨
        ∃ a, (w = [' ', a] ∧ between '1' '9' a = true) ∧ g = { f with day := readDecimal [a] }
  | .hour, f, w, g => hourDigits.Allows isDecimal w ∧ g = { f with hour := readDecimal w }
  | .minute, f, w, g => minuteDigits.Allows isDecimal w ∧ g = { f with minute := readDecimal w }
  | .second, f, w, g => secondDigits.Allows isDecimal w ∧ g = { f with second := readDecimal w }
  | .monthName, f, w, g => ∃ i, Names monthNames i w ∧ g = { f with month := i + 1 }
  | .shortMonthName, f, w, g => ∃ i, Names shortMonthNames i w ∧ g = { f with month := i + 1 }
  | .weekdayName, f, w, g => ∃ i, Names weekdayNames i w ∧ g = f
  | .shortWeekdayName, f, w, g => ∃ i, Names shortWeekdayNames i w ∧ g = f
  | .gap, f, w, g => (w ≠ [] ∧ ∀ c ∈ w, isBlank c = true) ∧ g = f
  | .mark c, f, w, g => w = [c] ∧ g = f

/-- A part is read off the front of the text, whatever stands behind it. -/
theorem mem_readings_iff : (g, r) ∈ p.readings f cs ↔ ∃ w, cs = w ++ r ∧ p.Takes f w g := by
  cases p with
  | year =>
      simp only [Part.readings, Part.Takes, List.mem_map, Prod.exists, Prod.mk.injEq,
        mem_readYear_iff]
      constructor
      · rintro ⟨n, s, ⟨w, hcs, hlength, hdigits, rfl⟩, rfl, rfl⟩
        exact ⟨w, hcs, ⟨hlength, hdigits⟩, rfl⟩
      · rintro ⟨w, hcs, ⟨hlength, hdigits⟩, rfl⟩
        exact ⟨_, r, ⟨w, hcs, hlength, hdigits, rfl⟩, rfl, rfl⟩
  -- numbers of one or two digits, which differ in the field that they set alone
  | month | hour | minute | second =>
      simp only [Part.readings, Part.Takes, List.mem_map, Prod.exists, Prod.mk.injEq,
        mem_readTwo_iff]
      constructor
      · rintro ⟨n, s, ⟨w, hcs, hw, rfl⟩, rfl, rfl⟩
        exact ⟨w, hcs, hw, rfl⟩
      · rintro ⟨w, hcs, hw, rfl⟩
        exact ⟨_, r, ⟨w, hcs, hw, rfl⟩, rfl, rfl⟩
  | day =>
      simp only [Part.readings, Part.Takes, List.mem_map, Prod.exists, Prod.mk.injEq,
        mem_readDay_iff]
      constructor
      · rintro ⟨n, s, ⟨w, hcs, hw, rfl⟩ | ⟨a, hcs, ha, rfl⟩, rfl, rfl⟩
        · exact ⟨w, hcs, .inl ⟨hw, rfl⟩⟩
        · exact ⟨[' ', a], hcs, .inr ⟨a, ⟨rfl, ha⟩, rfl⟩⟩
      · rintro ⟨w, hcs, ⟨hw, rfl⟩ | ⟨a, ⟨rfl, ha⟩, rfl⟩⟩
        · exact ⟨_, r, .inl ⟨w, hcs, hw, rfl⟩, rfl, rfl⟩
        · exact ⟨_, r, .inr ⟨a, hcs, ha, rfl⟩, rfl, rfl⟩
  | monthName | shortMonthName | weekdayName | shortWeekdayName =>
      simp only [Part.readings, Part.Takes, List.mem_map, Prod.exists, Prod.mk.injEq,
        mem_readName_iff]
      constructor
      · rintro ⟨n, s, ⟨w, hcs, i, hw, rfl⟩, rfl, rfl⟩
        exact ⟨w, hcs, i, hw, rfl⟩
      · rintro ⟨w, hcs, i, hw, rfl⟩
        exact ⟨_, r, ⟨w, hcs, i, hw, rfl⟩, rfl, rfl⟩
  | gap =>
      simp only [Part.readings, Part.Takes, List.mem_map, Prod.mk.injEq, mem_readGap_iff]
      constructor
      · rintro ⟨s, ⟨w, hcs, hne, hw⟩, rfl, rfl⟩
        exact ⟨w, hcs, ⟨hne, hw⟩, rfl⟩
      · rintro ⟨w, hcs, ⟨hne, hw⟩, rfl⟩
        exact ⟨r, ⟨w, hcs, hne, hw⟩, rfl, rfl⟩
  | mark c =>
      constructor
      · intro hmem
        unfold Part.readings at hmem
        dsimp only at hmem
        split at hmem
        · next d s =>
          split at hmem
          · next hc =>
            cases List.mem_singleton.mp hmem
            exact ⟨[d], rfl, congrArg (fun x => [x]) (beq_iff_eq.mp hc).symm, rfl⟩
          · cases hmem
        · cases hmem
      · rintro ⟨w, rfl, rfl, rfl⟩
        show _ ∈ if c == c then [(g, r)] else []
        rw [if_pos (beq_self_eq_true c)]
        exact List.mem_singleton_self _

/-! ## Whole texts -/

/-- The parts of a layout take in the pieces of a text one behind the other. -/
inductive Reads : List Part → Found → List Char → Found → Prop
  | nil {f : Found} : Reads [] f [] f
  | cons {p : Part} {ps : List Part} {f g h : Found} {w r : List Char} (hp : p.Takes f w g)
      (hps : Reads ps g r h) : Reads (p :: ps) f (w ++ r) h

theorem reads_of_firstReading? (hread : firstReading? ps f cs = some (h, r)) :
    ∃ w, cs = w ++ r ∧ Reads ps f w h := by
  induction ps generalizing f cs with
  | nil =>
      cases hread
      exact ⟨[], rfl, .nil⟩
  | cons p ps ih =>
      rw [firstReading?] at hread
      obtain ⟨⟨g, s⟩, hmem, hrest⟩ := List.exists_of_findSome?_eq_some hread
      obtain ⟨w, rfl, hp⟩ := mem_readings_iff.mp hmem
      obtain ⟨v, rfl, hps⟩ := ih hrest
      exact ⟨w ++ v, (List.append_assoc w v r).symm, .cons hp hps⟩

theorem reads_of_read? {layout : List Part} {v : DateTime} (hread : read? layout cs = some v) :
    ∃ g, Reads layout {} cs g ∧ g.date? = some v := by
  unfold read? at hread
  split at hread
  · next g hfirst =>
    obtain ⟨w, rfl, hreads⟩ := reads_of_firstReading? hfirst
    rw [List.append_nil]
    exact ⟨g, hreads, hread⟩
  · cases hread

/-! ## Digits and marks -/

/-- Whether a part is a number. -/
def Part.isNumber : Part → Bool
  | .year | .month | .day | .hour | .minute | .second => true
  | _ => false

theorem isDecimal_of_between {low high : Char} (hlow : 0x30 ≤ low.toNat) (hhigh : high.toNat ≤ 0x39)
    (hc : between low high c = true) : isDecimal c = true := by
  rw [between, Bool.and_eq_true, Nat.ble_eq, Nat.ble_eq] at hc
  exact Text.isDecimal_of_ascii (le_trans hlow hc.1) (le_trans hc.2 hhigh)

/-- A condition that only digits meet. -/
def TwoDigits.Decimal (two : TwoDigits) : Prop :=
  ∀ a b, two a b = true → isDecimal a = true ∧ isDecimal b = true

theorem decimal_monthDigits : monthDigits.Decimal := by
  intro a b h
  simp only [monthDigits, Bool.or_eq_true, Bool.and_eq_true, beq_iff_eq] at h
  rcases h with ⟨rfl, hb⟩ | ⟨rfl, hb⟩
  · exact ⟨by decide, isDecimal_of_between (by decide) (by decide) hb⟩
  · exact ⟨by decide, isDecimal_of_between (by decide) (by decide) hb⟩

theorem decimal_dayDigits : dayDigits.Decimal := by
  intro a b h
  simp only [dayDigits, Bool.or_eq_true, Bool.and_eq_true, beq_iff_eq] at h
  rcases h with (⟨rfl, hb⟩ | ⟨ha, hb⟩) | ⟨rfl, hb⟩
  · exact ⟨by decide, isDecimal_of_between (by decide) (by decide) hb⟩
  · exact ⟨isDecimal_of_between (by decide) (by decide) ha, hb⟩
  · exact ⟨by decide, isDecimal_of_between (by decide) (by decide) hb⟩

theorem decimal_hourDigits : hourDigits.Decimal := by
  intro a b h
  simp only [hourDigits, Bool.or_eq_true, Bool.and_eq_true, beq_iff_eq] at h
  rcases h with ⟨rfl, hb⟩ | ⟨ha, hb⟩
  · exact ⟨by decide, isDecimal_of_between (by decide) (by decide) hb⟩
  · exact ⟨isDecimal_of_between (by decide) (by decide) ha, hb⟩

theorem decimal_minuteDigits : minuteDigits.Decimal := by
  intro a b h
  rw [minuteDigits, Bool.and_eq_true] at h
  exact ⟨isDecimal_of_between (by decide) (by decide) h.1, h.2⟩

theorem decimal_secondDigits : secondDigits.Decimal := by
  intro a b h
  rw [secondDigits, Bool.or_eq_true, Bool.and_eq_true, beq_iff_eq] at h
  rcases h with ⟨rfl, hb⟩ | h
  · exact ⟨by decide, isDecimal_of_between (by decide) (by decide) hb⟩
  · exact decimal_minuteDigits a b h

theorem TwoDigits.Allows.digits (h : two.Allows one w) (htwo : two.Decimal)
    (hone : ∀ c, one c = true → isDecimal c = true) :
    w ≠ [] ∧ ∀ c ∈ w, isDecimal c = true := by
  rcases h with ⟨a, b, rfl, hab⟩ | ⟨a, rfl, ha⟩
  · have hdigits := htwo a b hab
    exact ⟨List.cons_ne_nil _ _, by simp [hdigits]⟩
  · exact ⟨List.cons_ne_nil _ _, by simp [hone a ha]⟩

/-- A number takes in digits; a day may have a space in front. -/
theorem digits_of_takes (hp : p.isNumber = true) (h : p.Takes f w g) : ∃ ds,
    (w = ds ∨ w = ' ' :: ds) ∧ ds ≠ [] ∧ ∀ c ∈ ds, isDecimal c = true := by
  have honeToNine : ∀ c, between '1' '9' c = true → isDecimal c = true := fun c =>
    isDecimal_of_between (by decide) (by decide)
  cases p with
  | year =>
      obtain ⟨⟨hlength, hdigits⟩, rfl⟩ := h
      refine ⟨w, .inl rfl, ?_, hdigits⟩
      rw [← List.length_pos_iff, hlength]
      decide
  | month => exact ⟨w, .inl rfl, h.1.digits decimal_monthDigits honeToNine⟩
  | hour => exact ⟨w, .inl rfl, h.1.digits decimal_hourDigits fun _ => id⟩
  | minute => exact ⟨w, .inl rfl, h.1.digits decimal_minuteDigits fun _ => id⟩
  | second => exact ⟨w, .inl rfl, h.1.digits decimal_secondDigits fun _ => id⟩
  | day =>
      rcases h with ⟨hw, _⟩ | ⟨a, ⟨rfl, ha⟩, _⟩
      · exact ⟨w, .inl rfl, hw.digits decimal_dayDigits honeToNine⟩
      · exact ⟨[a], .inr rfl, List.cons_ne_nil a [], by simp [honeToNine a ha]⟩
  | _ => cases hp

/-- The lists of names that layouts read. -/
def nameLists : List (List String) :=
  [monthNames, shortMonthNames, weekdayNames, shortWeekdayNames]

theorem nameLists_letters : (nameLists.all fun names => names.all fun name =>
    !name.toList.isEmpty && name.toList.all fun x => x.toLower.isAlpha) = true := by decide

theorem Names.letters {i : Nat} (h : Names names i w) (hnames : names ∈ nameLists) :
    w ≠ [] ∧ ∀ c ∈ w, c.isAlpha = true := by
  obtain ⟨name, hname, hw⟩ := h
  have hall := List.all_eq_true.mp (List.all_eq_true.mp nameLists_letters names hnames) name
    (List.mem_of_getElem? hname)
  rw [Bool.and_eq_true, Bool.not_eq_true', List.isEmpty_eq_false_iff, List.all_eq_true] at hall
  constructor
  · rintro rfl
    exact hall.1 (List.map_eq_nil_iff.mp hw.symm)
  · intro c hc
    have hmem : c.toLower ∈ lowered name.toList := hw ▸ List.mem_map_of_mem hc
    obtain ⟨x, hx, heq⟩ := List.mem_map.mp hmem
    rw [← Char.isAlpha_toLower_eq_isAlpha, ← heq]
    exact hall.2 x hx

/-- Whether no mark of a layout is a digit. -/
def Part.isPlain : Part → Bool
  | .mark c => !isDecimal c
  | _ => true

/-- A gap, a name or a mark takes in no digits. -/
theorem others_of_takes (hp : p.isNumber = false) (hplain : p.isPlain = true)
    (h : p.Takes f w g) : w ≠ [] ∧ ∀ c ∈ w, isDecimal c = false := by
  have hname : ∀ {names i}, Names names i w → names ∈ nameLists →
      w ≠ [] ∧ ∀ c ∈ w, isDecimal c = false := by
    intro names i hw hnames
    obtain ⟨hne, hletters⟩ := hw.letters hnames
    exact ⟨hne, fun c hc => Text.isDecimal_of_isAlpha (hletters c hc)⟩
  cases p with
  | gap => exact ⟨h.1.1, fun c hc => Text.isDecimal_of_isBlank (h.1.2 c hc)⟩
  | mark c =>
      obtain ⟨rfl, _⟩ := h
      rw [Part.isPlain, Bool.not_eq_true'] at hplain
      exact ⟨List.cons_ne_nil c [], by simp [hplain]⟩
  | monthName | shortMonthName | weekdayName | shortWeekdayName =>
      obtain ⟨i, hw, _⟩ := h
      exact hname hw (by simp [nameLists])
  | _ => cases hp

/-- A character that is no digit, no blank and no letter is taken in by its mark only. -/
theorem mark_of_takes (h : p.Takes f w g) (hc : c ∈ w) (hdigit : isDecimal c = false)
    (hblank : isBlank c = false) (hletter : c.isAlpha = false) : p = .mark c := by
  cases hp : p.isNumber with
  | true =>
      obtain ⟨ds, hw, _, hdigits⟩ := digits_of_takes hp h
      rcases hw with rfl | rfl
      · rw [hdigits c hc] at hdigit
        cases hdigit
      · rcases List.mem_cons.mp hc with rfl | hc
        · exact absurd hblank (by decide)
        · rw [hdigits c hc] at hdigit
          cases hdigit
  | false =>
      have hname : ∀ {names i}, Names names i w → names ∉ nameLists := by
        intro names i hw hnames
        rw [(hw.letters hnames).2 c hc] at hletter
        cases hletter
      cases p with
      | gap =>
          rw [h.1.2 c hc] at hblank
          cases hblank
      | mark d =>
          obtain ⟨rfl, _⟩ := h
          rw [List.mem_singleton.mp hc]
      | monthName | shortMonthName | weekdayName | shortWeekdayName =>
          obtain ⟨i, hw, _⟩ := h
          exact absurd (by simp [nameLists]) (hname hw)
      | _ => cases hp

theorem mark_mem_of_reads (h : Reads ps f cs g) (hc : c ∈ cs) (hdigit : isDecimal c = false)
    (hblank : isBlank c = false) (hletter : c.isAlpha = false) : .mark c ∈ ps := by
  induction h with
  | nil => cases hc
  | cons hp _ ih =>
      rcases List.mem_append.mp hc with hw | hr
      · exact mark_of_takes hp hw hdigit hblank hletter ▸ List.mem_cons_self
      · exact List.mem_cons_of_mem _ (ih hr)

/-! ## Runs of digits -/

/-- The numbers of a layout. -/
def numberCount (ps : List Part) : Nat := ps.countP Part.isNumber

/-- No two numbers of a layout touch. -/
def Separated (ps : List Part) : Prop :=
  List.IsChain (fun p q => (p.isNumber && q.isNumber) = false) ps

instance (ps : List Part) : Decidable (Separated ps) :=
  inferInstanceAs (Decidable (List.IsChain _ ps))

theorem runs_of_number (hp : p.isNumber = true) (h : p.Takes f w g) (rest : List Char) :
    runs (w ++ rest) = 1 + runsFrom true rest := by
  obtain ⟨ds, rfl | rfl, hne, hdigits⟩ := digits_of_takes hp h
  · exact Text.runsFrom_append_of_digits hne hdigits false rest
  · rw [List.cons_append, runs, Text.runsFrom_cons_of_other (by decide)]
    exact Text.runsFrom_append_of_digits hne hdigits false rest

/-- Numbers that do not touch are runs of their own. -/
theorem numberCount_le_runs (h : Reads ps f cs g) (hplain : ∀ p ∈ ps, p.isPlain = true)
    (hseparated : Separated ps) : numberCount ps ≤ runs cs := by
  -- Where no number stands in front, the digits there may go on.
  have hcount : numberCount ps ≤ runs cs ∧
      ((∀ p ∈ ps.head?, p.isNumber = false) → numberCount ps ≤ runsFrom true cs) := by
    induction h with
    | nil => exact ⟨le_rfl, fun _ => le_rfl⟩
    | @cons p ps f g h w r hp _ ih =>
        obtain ⟨hruns, hinside⟩ := ih (fun q hq => hplain q (List.mem_cons_of_mem p hq))
          hseparated.tail
        cases hnumber : p.isNumber with
        | true =>
            have hhead : ∀ q ∈ ps.head?, q.isNumber = false := by
              intro q hq
              have hpair := hseparated.rel_head? hq
              rwa [hnumber, Bool.true_and] at hpair
            have hrest := hinside hhead
            rw [runs_of_number hnumber hp, numberCount, List.countP_cons_of_pos hnumber]
            refine ⟨?_, fun hnone => ?_⟩
            · rw [numberCount] at hrest
              omega
            · rw [hnone p rfl] at hnumber
              cases hnumber
        | false =>
            obtain ⟨hne, hothers⟩ := others_of_takes hnumber (hplain p List.mem_cons_self) hp
            rw [Text.runs_append_of_other hothers, Text.runsFrom_append_left hne hothers,
              numberCount, List.countP_cons_of_neg (Bool.not_eq_true _ ▸ hnumber)]
            exact ⟨hruns, fun _ => hruns⟩
  exact hcount.1

theorem layouts_proper : ∀ layout ∈ layouts,
    (∀ p ∈ layout, p.isPlain = true) ∧ Separated layout := by
  decide

end Harvest.Calendar.Layout
