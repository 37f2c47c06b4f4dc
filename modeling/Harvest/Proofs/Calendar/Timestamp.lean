import Harvest.Proofs.Calendar.Outcome
import Harvest.Proofs.Calendar.ReadBack

/-!
# Timestamps read back

A date with its time of day and its distance from universal time, as the international format writes
it, is read as itself.  The one exception is a distance below a second: it is written, but read as
none.  No text is read with such a distance, so that whatever was read survives being written.
-/

namespace Harvest.Calendar

open Format (padded isoDate isoTime offsetClock)
open Text (isBlank)

variable {cs rest : List Char} {h m s f n left : Nat} {after c : Char} {found : List Nat}
  {colons : Bool}

/-! ## Clock texts -/

/-- Hours, minutes and seconds between colons, and the fraction of a second if there is one. -/
def clockText (h m s f : Nat) : List Char :=
  padded 2 h ++ ':' :: padded 2 m ++ ':' :: padded 2 s ++ if f = 0 then [] else '.' :: padded 6 f

namespace Iso

theorem pairs?_colon (hn : n < 100) (hcolons : found.isEmpty = true ∨ colons = true)
    (hrest : rest ≠ []) : pairs? after (left + 1) colons found (padded 2 n ++ ':' :: rest) =
      pairs? after left true (found ++ [n]) rest := by
  have htake := takeNumber?_padded (k := 2) (by decide) hn (':' :: rest)
  obtain ⟨x, r, rfl⟩ := List.exists_cons_of_ne_nil hrest
  rw [pairs?, htake]
  rcases hcolons with hempty | rfl
  · simp [hempty]
  · simp

theorem pairs?_end (hn : n < 100) : pairs? after (left + 1) colons found (padded 2 n) =
    some (found ++ [n], 0, after != endMark) := by
  have htake := takeNumber?_padded (k := 2) (by decide) hn []
  rw [List.append_nil] at htake
  rw [pairs?, htake]
  rfl

theorem fraction?_padded (hf : f < 1000000) :
    fraction? after (padded 6 f) = some (f, after != endMark) := by
  have htake := takeNumber?_padded (k := 6) (by decide) hf []
  rw [List.append_nil] at htake
  rw [fraction?, length_padded (by decide) hf, Nat.min_self, htake]
  simp [pow10]

theorem pairs?_fraction (hn : n < 100) (hf : f < 1000000) (hfound : found.isEmpty = false) :
    pairs? after (left + 1) true found (padded 2 n ++ '.' :: padded 6 f) =
      some (found ++ [n], f, after != endMark) := by
  have htake := takeNumber?_padded (k := 2) (by decide) hn ('.' :: padded 6 f)
  have hfraction : fraction? after (padded 6 f) = some (f, after != endMark) := fraction?_padded hf
  have hlength := length_padded (k := 6) (by decide) hf
  obtain ⟨x, r, hx⟩ := List.exists_cons_of_length_pos (by omega : 0 < (padded 6 f).length)
  rw [hx] at htake hfraction ⊢
  rw [pairs?, htake]
  simp [hfound, hfraction]

theorem clock?_clockText (hh : h < 100) (hm : m < 100) (hs : s < 100) (hf : f < 1000000) :
    clock? after (clockText h m s f) = some ⟨h, m, s, f, after != endMark⟩ := by
  have hseconds : ∀ tail, clockText h m s f = padded 2 h ++ ':' :: (padded 2 m ++ ':' :: tail) →
      tail ≠ [] → pairs? after 1 true [h, m] tail = some ([h, m, s], f, after != endMark) →
      clock? after (clockText h m s f) = some ⟨h, m, s, f, after != endMark⟩ := by
    intro tail htext hne htail
    rw [clock?, htext, pairs?_colon hh (.inl rfl) (by simp), pairs?_colon hm (.inr rfl) hne]
    simp [htail]
  by_cases hzero : f = 0
  · subst hzero
    apply hseconds (padded 2 s)
    · simp [clockText]
    · have hlength := length_padded (k := 2) (by decide) hs
      exact List.ne_nil_of_length_pos (by omega)
    · exact pairs?_end hs
  · apply hseconds (padded 2 s ++ '.' :: padded 6 f)
    · simp [clockText, hzero]
    · simp
    · exact pairs?_fraction hs hf rfl

theorem clock?_short (hh : h < 100) (hm : m < 100) :
    clock? after (padded 2 h ++ ':' :: padded 2 m) = some ⟨h, m, 0, 0, after != endMark⟩ := by
  have hlength := length_padded (k := 2) (by decide) hm
  have hne : padded 2 m ≠ [] := List.ne_nil_of_length_pos (by omega)
  rw [clock?, pairs?_colon hh (.inl rfl) hne, pairs?_end hm]
  rfl

end Iso

/-! ## Distances from universal time -/

/-- The distance is nothing or at least a second. -/
def Offset.Legible (o : Offset) : Prop := o.micros = 0 ∨ 1000000 ≤ o.micros.natAbs

/-- The clock text of a distance, without its sign. -/
def Offset.clockText (o : Offset) : List Char := (offsetClock [':'] o).tail

theorem offsetClock_eq (o : Offset) :
    offsetClock [':'] o = (if o.micros < 0 then '-' else '+') :: o.clockText := rfl

theorem Offset.clockText_eq (o : Offset) : o.clockText =
    if o.micros.natAbs / 1000000 % 60 = 0 ∧ o.micros.natAbs % 1000000 = 0 then
      padded 2 (o.micros.natAbs / 1000000 / 3600) ++
        ':' :: padded 2 (o.micros.natAbs / 1000000 / 60 % 60)
    else Calendar.clockText (o.micros.natAbs / 1000000 / 3600)
      (o.micros.natAbs / 1000000 / 60 % 60) (o.micros.natAbs / 1000000 % 60)
      (o.micros.natAbs % 1000000) := by
  unfold Offset.clockText offsetClock Calendar.clockText
  by_cases hshort : o.micros.natAbs / 1000000 % 60 = 0 ∧ o.micros.natAbs % 1000000 = 0
  · simp [hshort]
  · simp [hshort]

theorem Offset.clock?_clockText (o : Offset) : Iso.clock? Iso.endMark o.clockText =
    some ⟨o.micros.natAbs / 1000000 / 3600, o.micros.natAbs / 1000000 / 60 % 60,
      o.micros.natAbs / 1000000 % 60, o.micros.natAbs % 1000000, false⟩ := by
  have hday := o.inDay
  rw [o.clockText_eq]
  generalize o.micros.natAbs = micros at hday ⊢
  split
  · next hshort =>
    rw [Iso.clock?_short (by omega) (by omega), hshort.1, hshort.2]
    rfl
  · rw [Iso.clock?_clockText (by omega) (by omega) (by omega) (by omega)]
    rfl

theorem Offset.of?_eq_some_iff {micros : Int} {o : Offset} :
    Offset.of? micros = some o ↔ o.micros = micros := by
  unfold Offset.of?
  constructor
  · intro ho
    split at ho
    · rw [← Option.some_inj.mp ho]
    · cases ho
  · rintro rfl
    exact dif_pos o.inDay

theorem offset?_legible {negative : Bool} {clock : Iso.Clock} {o : Offset}
    (ho : Iso.offset? negative clock = some o) : o.Legible := by
  unfold Iso.offset? at ho
  dsimp only at ho
  split at ho
  · cases ho
    exact .inl rfl
  · right
    rw [Offset.of?_eq_some_iff.mp ho]
    split <;> omega

theorem Offset.Legible.offset?_clock {o : Offset} (ho : o.Legible) {clock : Iso.Clock}
    (hclock : Iso.clock? Iso.endMark o.clockText = some clock) :
    Iso.offset? (decide (o.micros < 0)) clock = some o := by
  have hday := o.inDay
  rw [o.clock?_clockText, Option.some_inj] at hclock
  subst hclock
  have hparts : o.micros.natAbs / 1000000 / 3600 * 3600 +
      o.micros.natAbs / 1000000 / 60 % 60 * 60 + o.micros.natAbs / 1000000 % 60 =
        o.micros.natAbs / 1000000 := by omega
  unfold Iso.offset?
  dsimp only
  rw [hparts]
  split
  · next hzero =>
    have hnone : o.micros = 0 := by
      rcases ho with hnone | hsecond
      · exact hnone
      · omega
    obtain ⟨micros, hin⟩ := o
    subst hnone
    rfl
  · rw [Offset.of?_eq_some_iff]
    by_cases hneg : o.micros < 0
    · simp only [hneg, decide_true, if_true]
      omega
    · simp only [hneg, decide_false, Bool.false_eq_true, if_false]
      omega

/-! ## Reading a timestamp -/

/-- The distance as the end of a timestamp. -/
def zoneText (offset : Option Offset) : List Char :=
  match offset with
  | some o => offsetClock [':'] o
  | none => []

theorem iso_eq (v : DateTime) :
    (Format.iso v).toList = isoDate v.date ++ 'T' :: (isoTime v.time ++ zoneText v.offset) := by
  rw [Format.iso, String.toList_ofList, List.append_assoc]
  rfl

theorem Time.of?_self (t : Time) : Time.of? t.hour t.minute t.second t.micro = some t := by
  have hvalid := t.valid
  unfold Time.of?
  rw [dif_pos (by simpa using hvalid)]
  rfl

/-- The characters of a clock text are digits, colons and a point. -/
theorem mem_clockText (hc : c ∈ clockText h m s f) : c.isDigit = true ∨ c = ':' ∨ c = '.' := by
  rw [clockText, List.mem_append, List.mem_append, List.mem_cons, List.mem_append,
    List.mem_cons] at hc
  rcases hc with ((hc | rfl | hc) | rfl | hc) | hc
  · exact .inl (isDigit_padded 2 h c hc)
  · exact .inr (.inl rfl)
  · exact .inl (isDigit_padded 2 m c hc)
  · exact .inr (.inl rfl)
  · exact .inl (isDigit_padded 2 s c hc)
  · split at hc
    · cases hc
    · rcases List.mem_cons.mp hc with rfl | hc
      · exact .inr (.inr rfl)
      · exact .inl (isDigit_padded 6 f c hc)

theorem startsOffset_eq_false (hc : c ∈ clockText h m s f) : Iso.startsOffset c = false := by
  rcases mem_clockText hc with hc | rfl | rfl
  · exact eq_false_of_isDigit (by decide) hc
  · decide
  · decide

theorem time?_iso (t : Time) {offset : Option Offset} (h : ∀ o ∈ offset, o.Legible) :
    Iso.time? (isoTime t ++ zoneText offset) = some (t, offset) := by
  have hvalid := t.valid
  have hclock : ∀ after, Iso.clock? after (isoTime t) =
      some ⟨t.hour, t.minute, t.second, t.micro, after != Iso.endMark⟩ := fun after =>
    Iso.clock?_clockText (by omega) (by omega) (by omega) (by omega)
  have hkeep : ∀ c ∈ isoTime t, (!Iso.startsOffset c) = true := by
    intro c hc
    rw [startsOffset_eq_false hc]
    rfl
  have hstop : ∀ c ∈ (zoneText offset).head?, (!Iso.startsOffset c) = false := by
    cases offset with
    | none => simp [zoneText]
    | some o => by_cases hneg : o.micros < 0 <;> simp [zoneText, offsetClock_eq, hneg] <;> decide
  rw [Iso.time?, Text.takeWhile_append_eq hkeep hstop, List.drop_left]
  cases offset with
  | none => simp [zoneText, hclock, t.of?_self]
  | some o =>
      have hzone := o.clock?_clockText
      have hoffset := (h o rfl).offset?_clock hzone
      rw [zoneText, offsetClock_eq]
      by_cases hneg : o.micros < 0
      · simp only [hneg, decide_true] at hoffset
        simp [hneg, hclock, hzone, hoffset, t.of?_self]
      · simp only [hneg, decide_false] at hoffset
        simp [hneg, hclock, hzone, hoffset, t.of?_self]

theorem parse?_iso {v : DateTime} (h : ∀ o ∈ v.offset, o.Legible) :
    Iso.parse? (Format.iso v).toList = some v := by
  rw [Iso.parse?, iso_eq, dateLength_isoDate, date?_isoDate, drop_isoDate]
  simp [time?_iso v.time h]

/-- The characters of a timestamp. -/
theorem mem_iso {v : DateTime} (hc : c ∈ (Format.iso v).toList) :
    c.isDigit = true ∨ c ∈ ['-', 'T', ':', '.', '+'] := by
  have hclock : ∀ {h m s f}, c ∈ clockText h m s f →
      c.isDigit = true ∨ c ∈ ['-', 'T', ':', '.', '+'] := by
    intro h m s f hmem
    rcases mem_clockText hmem with hdigit | rfl | rfl
    · exact .inl hdigit
    · exact .inr (by decide)
    · exact .inr (by decide)
  rw [iso_eq, List.mem_append, List.mem_cons, List.mem_append] at hc
  rcases hc with hdate | rfl | htime | hzone
  · rcases plain_isoDate v.date c hdate with hdigit | rfl
    · exact .inl hdigit
    · exact .inr (by decide)
  · exact .inr (by decide)
  · exact hclock htime
  · cases hoffset : v.offset with
    | none =>
        rw [hoffset] at hzone
        cases hzone
    | some o =>
        rw [hoffset, zoneText, offsetClock_eq, List.mem_cons] at hzone
        rcases hzone with rfl | hzone
        · split
          · exact .inr (by decide)
          · exact .inr (by decide)
        rw [o.clockText_eq] at hzone
        split at hzone
        · rcases List.mem_append.mp hzone with hhour | hrest
          · exact .inl (isDigit_padded 2 _ c hhour)
          · rcases List.mem_cons.mp hrest with rfl | hminute
            · exact .inr (by decide)
            · exact .inl (isDigit_padded 2 _ c hminute)
        · exact hclock hzone

theorem recognize_iso {v : DateTime} (h : ∀ o ∈ v.offset, o.Legible) :
    recognize (Format.iso v) = .ok (some v) := by
  have hno : ∀ p : Char → Bool, (∀ n < 10, p (Nat.digitChar n) = false) →
      ['-', 'T', ':', '.', '+'].any p = false → ∀ c ∈ (Format.iso v).toList, p c = false := by
    intro p hdigit hmark c hc
    rcases mem_iso hc with hd | hd
    · exact eq_false_of_isDigit hdigit hd
    · exact Bool.eq_false_iff.mpr (List.any_eq_false.mp hmark c hd)
  have hne : (Format.iso v).toList.isEmpty = false := by
    rw [iso_eq, List.isEmpty_eq_false_iff]
    simp
  have hupper : 'Z' ∉ (Format.iso v).toList := fun hmem => absurd
    (hno (· == 'Z') (by decide) (by decide) 'Z' hmem) (by decide)
  have hlower : 'z' ∉ (Format.iso v).toList := fun hmem => absurd
    (hno (· == 'z') (by decide) (by decide) 'z' hmem) (by decide)
  rw [recognize, Text.trimChars, Text.stripBy_eq_self (hno isBlank (by decide) (by decide)),
    recognizeTrimmed, hne, parseIso?_of_not_mem hupper hlower, parse?_iso h]
  rfl

/-! ## What is read is legible -/

theorem legible_of_time? {t : Time} {o : Offset} (ht : Iso.time? cs = some (t, some o)) :
    o.Legible := by
  unfold Iso.time? at ht
  simp only [Option.bind_eq_bind, Option.pure_def, Option.bind_some, Option.bind_none] at ht
  obtain ⟨clock, _, ht⟩ := Option.bind_eq_some_iff.mp ht
  split at ht
  · split at ht
    · cases ht
    · obtain ⟨_, _, heq⟩ := Option.bind_eq_some_iff.mp ht
      cases heq
  · split at ht
    · obtain ⟨_, _, heq⟩ := Option.bind_eq_some_iff.mp ht
      cases heq
      exact .inl rfl
    · cases ht
  · obtain ⟨zone, _, ht⟩ := Option.bind_eq_some_iff.mp ht
    split at ht
    · cases ht
    · obtain ⟨offset, hoffset, ht⟩ := Option.bind_eq_some_iff.mp ht
      obtain ⟨o', ho', rfl⟩ := Option.map_eq_some_iff.mp hoffset
      obtain ⟨_, _, heq⟩ := Option.bind_eq_some_iff.mp ht
      cases heq
      exact offset?_legible ho'

theorem legible_of_parse? {v : DateTime} (hv : Iso.parse? cs = some v) :
    ∀ o ∈ v.offset, o.Legible := by
  intro o ho
  unfold Iso.parse? at hv
  simp only [Option.bind_eq_bind, Option.bind_eq_some_iff, Option.pure_def] at hv
  obtain ⟨d, _, hv⟩ := hv
  split at hv
  · cases hv
    cases ho
  · obtain ⟨⟨t, offset⟩, ht, heq⟩ := Option.bind_eq_some_iff.mp hv
    cases heq
    obtain rfl : offset = some o := ho
    exact legible_of_time? ht

theorem legible_of_parseIso? {v : DateTime} (hv : parseIso? cs = some v) :
    ∀ o ∈ v.offset, o.Legible := by
  unfold parseIso? at hv
  split at hv
  · exact legible_of_parse? hv
  · exact legible_of_parse? hv
  · exact legible_of_parse? hv

/-- The zone of a mail date is a whole number of seconds. -/
theorem legible_of_mail {v : DateTime} (hv : Mail.parse cs = .date v) :
    ∀ o ∈ v.offset, o.Legible := by
  have hdated : ∀ {n : Mail.Numbers} {offset}, n.dated offset = .date v → v.offset = offset := by
    intro n offset hn
    unfold Mail.Numbers.dated at hn
    split at hn
    · cases hn
    · split at hn
      · cases hn
        rfl
      · cases hn
  intro o ho
  unfold Mail.parse at hv
  split at hv
  · unfold Mail.Numbers.outcome at hv
    split at hv
    · split at hv
      · cases hv
      split at hv
      · cases hv
      · next seconds _ _ offset hoffset =>
        rw [hdated hv] at ho
        obtain rfl : offset = o := Option.some_inj.mp ho
        have hmicros := Offset.of?_eq_some_iff.mp hoffset
        unfold Offset.Legible
        omega
    · rw [hdated hv] at ho
      cases ho
  · cases hv

theorem offset_of_layout {v : DateTime} (hv : Layout.parse? cs = some v) : v.offset = none := by
  obtain ⟨layout, _, hread⟩ := List.exists_of_findSome?_eq_some hv
  unfold Layout.read? at hread
  split at hread
  · unfold Layout.Found.date? at hread
    simp only [Option.bind_eq_bind, Option.bind_eq_some_iff, Option.pure_def] at hread
    obtain ⟨d, _, t, _, heq⟩ := hread
    cases heq
    rfl
  · cases hread

/-- No stage reads a distance below a second. -/
theorem legible_of_recognize {s : String} {v : DateTime} (hv : recognize s = .ok (some v)) :
    ∀ o ∈ v.offset, o.Legible := by
  have hlayout : ∀ {cs}, Layout.parse? cs = some v → ∀ o ∈ v.offset, o.Legible := by
    intro cs hcs o ho
    rw [offset_of_layout hcs] at ho
    cases ho
  unfold recognize recognizeTrimmed at hv
  split at hv
  · cases hv
  split at hv
  · next hiso =>
    cases hv
    exact legible_of_parseIso? hiso
  split at hv
  · cases hv
  · next hmail =>
    cases hv
    exact legible_of_mail hmail
  · rw [Except.ok.injEq, Option.or_eq_some_iff] at hv
    rcases hv with hwhole | ⟨_, hinside⟩
    · exact hlayout hwhole
    · obtain ⟨candidate, _, hcandidate⟩ := List.exists_of_findSome?_eq_some hinside
      rw [parseEmbedded?, Option.or_eq_some_iff] at hcandidate
      rcases hcandidate with hiso | ⟨_, hread⟩
      · exact legible_of_parseIso? hiso
      · exact hlayout hread

end Harvest.Calendar

namespace Harvest.Transformation

open Calendar (recognize)

variable {text w : String} {options : Members}

theorem writeDate_datetime (h : options.get? "format" = some (.str "datetime"))
    (v : Calendar.DateTime) : writeDate v options = .ok (.str (Calendar.Format.iso v)) := by
  have hnamed : NamedFormat options := .inr (.inr ⟨"datetime", by decide, h⟩)
  rw [writeDate_of_namedFormat hnamed, dateFormat?, h]
  rfl

/-- What the format `datetime` gives is read as the same date, time of day and distance from
universal time, and given again. -/
theorem parseDate_datetime_stable (h : options.get? "format" = some (.str "datetime"))
    (hrun : parseDate.run (.str text) options = .ok (.str w)) :
    (∃ v, recognize text = .ok (some v) ∧ recognize w = .ok (some v)) ∧
      parseDate.run (.str w) options = .ok (.str w) := by
  change readDate text options = .ok (.str w) at hrun
  unfold readDate at hrun
  split at hrun
  · cases hrun
  · cases hrun
  · next v hv =>
    rw [writeDate_datetime h] at hrun
    cases hrun
    have hagain := Calendar.recognize_iso (Calendar.legible_of_recognize hv)
    refine ⟨⟨v, hv, hagain⟩, ?_⟩
    show readDate (Calendar.Format.iso v) options = _
    rw [readDate, hagain]
    exact writeDate_datetime h v

theorem parseDate_datetime_stable_mail :
    Members.get? [("format", .str "datetime")] "format" = some (.str "datetime") ∧
      parseDate.run (.str "Thu, 24 Dec 2015 16:30:00 -0530") [("format", .str "datetime")] =
        .ok (.str "2015-12-24T16:30:00-05:30") ∧
      (∃ v, recognize "Thu, 24 Dec 2015 16:30:00 -0530" = .ok (some v) ∧
        recognize "2015-12-24T16:30:00-05:30" = .ok (some v)) ∧
      parseDate.run (.str "2015-12-24T16:30:00-05:30") [("format", .str "datetime")] =
        .ok (.str "2015-12-24T16:30:00-05:30") := by
  have h : Members.get? [("format", .str "datetime")] "format" = some (.str "datetime") := rfl
  have hread : recognize "Thu, 24 Dec 2015 16:30:00 -0530" = .ok (some
      ⟨⟨2015, 12, 24, by decide⟩, ⟨16, 30, 0, 0, by decide⟩, some ⟨-19800000000, by decide⟩⟩) := by
    decide +kernel
  have hrun : parseDate.run (.str "Thu, 24 Dec 2015 16:30:00 -0530")
      [("format", .str "datetime")] = .ok (.str "2015-12-24T16:30:00-05:30") := by
    have hwritten : Calendar.Format.iso
        ⟨⟨2015, 12, 24, by decide⟩, ⟨16, 30, 0, 0, by decide⟩, some ⟨-19800000000, by decide⟩⟩ =
          "2015-12-24T16:30:00-05:30" := by decide +kernel
    show readDate "Thu, 24 Dec 2015 16:30:00 -0530" [("format", .str "datetime")] = _
    rw [readDate, hread, ← hwritten]
    exact writeDate_datetime h _
  exact ⟨h, hrun, parseDate_datetime_stable h hrun⟩

end Harvest.Transformation
