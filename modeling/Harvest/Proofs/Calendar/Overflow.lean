import Harvest.Calendar.Mail
import Harvest.Proofs.Text.Digits

/-!
# Numbers too large for a date

The numbers of a mail date go through an addition of days for the zone and through machine integers
for the rest.  A mail date overflows just if one of the two cannot hold its number, and the zone is
looked at first: a zone of a day or more is no zone, whatever the other numbers are.  Words of up to
nine digits are always small enough.
-/

namespace Harvest.Calendar.Mail

open Harvest.Text

namespace Numbers

variable {n : Numbers}

/-- The zone is a billion days or more away from universal time. -/
def Far (n : Numbers) : Prop :=
  ∃ seconds, n.zone = some seconds ∧
    ¬ (-(999999999 * 86400) ≤ seconds ∧ seconds < 1000000000 * 86400)

/-- The zone is missing, or less than a day away from universal time. -/
def Near (n : Numbers) : Prop := ∀ seconds, n.zone = some seconds → seconds.natAbs < 86400

/-- A number of the date or of the time of day takes more than 32 bits. -/
def Wide (n : Numbers) : Prop :=
  ∃ k ∈ [n.year, n.day, n.hour, n.minute, n.second], k < -2 ^ 31 ∨ 2 ^ 31 ≤ k

/-- The numbers leave the range of what dates are computed with. -/
def Excessive (n : Numbers) : Prop := n.Far ∨ (n.Near ∧ n.Wide)

end Numbers

theorem isSmall_eq_false_iff {k : Int} : isSmall k = false ↔ k < -2 ^ 31 ∨ 2 ^ 31 ≤ k := by
  have hpow : (pow2 31 : Int) = 2 ^ 31 := rfl
  rw [isSmall, decide_eq_false_iff_not, hpow]
  omega

theorem isDuration_eq_true_iff {seconds : Int} : isDuration seconds = true ↔
    -(999999999 * 86400) ≤ seconds ∧ seconds < 1000000000 * 86400 := by
  rw [isDuration, decide_eq_true_iff]
  have hdiv : seconds.fdiv 86400 = seconds / 86400 := Int.fdiv_eq_ediv_of_nonneg _ (by decide)
  rw [hdiv]
  omega

theorem offset?_eq_none_iff {seconds : Int} :
    Offset.of? (seconds * 1000000) = none ↔ 86400 ≤ seconds.natAbs := by
  unfold Offset.of?
  split <;> simp <;> omega

namespace Numbers

variable {n : Numbers}

theorem dated_eq_overflow_iff {offset : Option Offset} :
    n.dated offset = .overflow ↔ n.Wide := by
  have hwide : n.Wide ↔
      ([n.year, n.day, n.hour, n.minute, n.second].all isSmall) = false := by
    rw [List.all_eq_false]
    simp only [Bool.not_eq_true, isSmall_eq_false_iff]
    rfl
  rw [hwide, dated]
  generalize [n.year, n.day, n.hour, n.minute, n.second].all isSmall = small
  cases small with
  | false => simp
  | true =>
      rw [if_neg (by decide)]
      constructor
      · intro heq
        split at heq <;> cases heq
      · intro heq
        cases heq

theorem near_of_zone_none (hzone : n.zone = none) : n.Near := by
  intro seconds hsome
  rw [hzone] at hsome
  cases hsome

theorem not_far_of_zone_none (hzone : n.zone = none) : ¬ n.Far := by
  rintro ⟨seconds, hsome, _⟩
  rw [hzone] at hsome
  cases hsome

theorem far_iff {seconds : Int} (hzone : n.zone = some seconds) :
    n.Far ↔ isDuration seconds = false := by
  rw [← Bool.not_eq_true, isDuration_eq_true_iff]
  constructor
  · rintro ⟨s, hs, hfar⟩
    rw [hzone] at hs
    cases hs
    exact hfar
  · intro hfar
    exact ⟨seconds, hzone, hfar⟩

theorem near_iff {seconds : Int} (hzone : n.zone = some seconds) :
    n.Near ↔ Offset.of? (seconds * 1000000) ≠ none := by
  rw [Ne, offset?_eq_none_iff, Nat.not_le]
  constructor
  · intro hnear
    exact hnear seconds hzone
  · intro hlt s hs
    rw [hzone] at hs
    cases hs
    exact hlt

theorem outcome_eq_overflow_iff : n.outcome = .overflow ↔ n.Excessive := by
  unfold outcome Excessive
  cases hzone : n.zone with
  | none =>
      rw [dated_eq_overflow_iff]
      have hfar := not_far_of_zone_none hzone
      have hnear := near_of_zone_none hzone
      tauto
  | some seconds =>
      rw [far_iff hzone, near_iff hzone]
      dsimp only
      cases hduration : isDuration seconds with
      | false => simp
      | true =>
          cases hoffset : Offset.of? (seconds * 1000000) with
          | none => simp
          | some offset => simp [dated_eq_overflow_iff]

end Numbers

theorem parse_eq_overflow_iff {cs : List Char} :
    parse cs = .overflow ↔ ∃ n, numbers? cs = some n ∧ n.Excessive := by
  unfold parse
  cases numbers? cs with
  | none => simp
  | some n => simp [Numbers.outcome_eq_overflow_iff]

/-! ## Words of few digits -/

/-- No word has more than `k` digits. -/
def Short (k : Nat) (ws : List (List Char)) : Prop := ∀ w ∈ ws, decimalCount w ≤ k

variable {k : Nat}

theorem sublist_of_mem_splitAt {mark : Char} {cs p : List Char} (h : p ∈ splitAt mark cs) :
    p.Sublist cs := by
  induction cs generalizing p with
  | nil =>
      rw [splitAt, List.mem_singleton] at h
      exact h ▸ List.Sublist.refl []
  | cons c r ih =>
      rw [splitAt] at h
      split at h
      · rcases List.mem_cons.mp h with rfl | hr
        · exact List.nil_sublist _
        · exact (ih hr).cons c
      · split at h
        · next q qs hq =>
          rcases List.mem_cons.mp h with rfl | hqs
          · exact (ih (hq ▸ List.mem_cons_self)).cons_cons c
          · exact (ih (hq ▸ List.mem_cons_of_mem q hqs)).cons c
        · rw [List.mem_singleton] at h
          rw [h]
          exact (List.nil_sublist r).cons_cons c

theorem sublist_dropEnd (mark : Char) (cs : List Char) : (dropEnd mark cs).Sublist cs := by
  unfold dropEnd
  split
  · exact List.dropLast_sublist cs
  · exact List.Sublist.refl cs

theorem sublist_behindComma (cs : List Char) : (behindComma cs).Sublist cs := by
  have hpart := (List.takeWhile_sublist (· != ',') (l := cs.reverse)).reverse
  rwa [List.reverse_reverse] at hpart

theorem Short.of_splitAt {mark : Char} {cs : List Char} {ps : List (List Char)}
    (h : decimalCount cs ≤ k) (heq : splitAt mark cs = ps) : Short k ps := by
  intro p hp
  have hsub := sublist_of_mem_splitAt (heq ▸ hp)
  exact le_trans (decimalCount_le_of_sublist hsub) h

theorem Short.dropWeekday {ws : List (List Char)} (h : Short k ws) : Short k (dropWeekday ws) := by
  unfold Mail.dropWeekday
  split
  · exact h
  · next w ws =>
    have hrest : Short k ws := fun v hv => h v (List.mem_cons_of_mem w hv)
    split
    · exact hrest
    · intro v hv
      rcases List.mem_cons.mp hv with rfl | hv
      · have hw := decimalCount_le_of_sublist (sublist_behindComma w)
        exact le_trans hw (h w List.mem_cons_self)
      · exact hrest v hv

theorem Short.splitHyphens {ws : List (List Char)} (h : Short k ws) :
    Short k (splitHyphens ws) := by
  unfold Mail.splitHyphens
  split
  · next a b c =>
    split
    · next d m y hsplit =>
      have hparts := Short.of_splitAt (h a (by simp)) hsplit
      intro w hw
      have hw' : w ∈ [d, m, y] ∨ w ∈ [b, c] := by simpa [or_assoc] using hw
      rcases hw' with hw | hw
      · exact hparts w hw
      · exact h w (List.mem_cons_of_mem a hw)
    · exact h
  · exact h

theorem Short.splitZone {ws : List (List Char)} (h : Short k ws) : Short k (splitZone ws) := by
  unfold Mail.splitZone
  split
  · next a b c d =>
    have hd := h d (by simp)
    have hfront : Short k [a, b, c] := fun w hw => h w (by simp at hw ⊢; tauto)
    split
    · next i _ =>
      intro w hw
      have hw' : w ∈ [a, b, c] ∨ w = d.take (i + 1) ∨ w = d.drop (i + 1) := by
        simpa [or_assoc] using hw
      rcases hw' with hw | rfl | rfl
      · exact hfront w hw
      · exact le_trans (decimalCount_le_of_sublist (List.take_sublist _ d)) hd
      · exact le_trans (decimalCount_le_of_sublist (List.drop_sublist _ d)) hd
    · intro w hw
      have hw' : w ∈ [a, b, c, d] ∨ w = [] := by simpa [or_assoc] using hw
      rcases hw' with hw | rfl
      · exact h w hw
      · exact Nat.zero_le k
  · exact h

theorem decimalCount_dropEnd_le (mark : Char) {w : List Char} (h : decimalCount w ≤ k) :
    decimalCount (dropEnd mark w) ≤ k :=
  le_trans (decimalCount_le_of_sublist (sublist_dropEnd mark w)) h

/-- The parts of a mail date are its words, exchanged and without commas at their ends. -/
theorem fields?_cases {cs : List Char} {f : Fields} (hf : fields? cs = some f) : ∃ d m y t z,
    [d, m, y, t, z].Perm ((splitZone (splitHyphens (dropWeekday (fieldsBy isBlank cs)))).take 5) ∧
      f.day = dropEnd ',' d ∧ f.time = dropEnd ',' t ∧
      (f.year = dropEnd ',' y ∧ f.zone = z ∨ f.year = z ∧ f.zone = dropEnd ',' y) := by
  unfold fields? at hf
  split at hf
  · next d m y t z heq =>
    rw [heq]
    -- Year and time may stand in each other's place.
    generalize hp : (if 0 < (y.findIdx? (· == ':')).getD 0 then (t, y) else (y, t)) = p at hf
    have hplaces : [p.1, p.2, z].Perm [y, t, z] := by
      rw [← hp]
      split
      · exact List.Perm.swap y t [z]
      · exact List.Perm.refl _
    simp only [Option.bind_eq_bind, Option.bind_none, Option.pure_def,
      Option.ite_none_left_eq_some] at hf
    replace hf := hf.2
    split at hf
    · simp only [Option.bind_eq_some_iff, Option.ite_none_left_eq_some] at hf
      obtain ⟨_, hday, first, _, _, hf⟩ := hf
      cases hday
      cases hf
      refine ⟨d, m, p.1, p.2, z, (hplaces.cons m).cons d, rfl, rfl, ?_⟩
      split
      · exact .inl ⟨rfl, rfl⟩
      · exact .inr ⟨rfl, rfl⟩
    · simp only [Option.bind_eq_some_iff, Option.ite_none_left_eq_some,
        Option.map_eq_some_iff] at hf
      obtain ⟨_, ⟨i, _, hday⟩, first, _, _, hf⟩ := hf
      cases hday
      cases hf
      -- The day stands in the place of the month.
      refine ⟨m, d, p.1, p.2, z, ((hplaces.cons d).cons m).trans (List.Perm.swap _ _ _), rfl, rfl,
        ?_⟩
      split
      · exact .inl ⟨rfl, rfl⟩
      · exact .inr ⟨rfl, rfl⟩
  · cases hf

/-- Each part of a mail date is cut out of a word. -/
theorem Short.fields? {cs : List Char} {f : Fields} (h : Short k (fieldsBy isBlank cs))
    (hf : Mail.fields? cs = some f) : Short k [f.day, f.year, f.time, f.zone] := by
  obtain ⟨d, m, y, t, z, hperm, hday, htime, hyear⟩ := fields?_cases hf
  have hwords : Short k [d, m, y, t, z] := fun w hw =>
    h.dropWeekday.splitHyphens.splitZone w (List.mem_of_mem_take (hperm.subset hw))
  have hd := decimalCount_dropEnd_le ',' (hwords d (by simp))
  have hy := decimalCount_dropEnd_le ',' (hwords y (by simp))
  have ht := decimalCount_dropEnd_le ',' (hwords t (by simp))
  have hz := hwords z (by simp)
  rw [hday, htime]
  rcases hyear with ⟨hyear, hzone⟩ | ⟨hyear, hzone⟩ <;> simp [Short, hyear, hzone, hd, hy, ht, hz]

theorem Short.clockWords? {cs h m s : List Char} (hcs : decimalCount cs ≤ k) (hk : 1 ≤ k)
    (hwords : Mail.clockWords? cs = some (h, m, s)) : Short k [h, m, s] := by
  -- two parts, in front of a second that is zero, or three, whichever sign stands between them
  have htwo : ∀ {mark a b}, splitAt mark cs = [a, b] → Short k [a, b, ['0']] := by
    intro mark a b hsplit
    have hzero : decimalCount ['0'] ≤ k := hk
    have hparts := Short.of_splitAt hcs hsplit
    simp [Short, hparts a, hparts b, hzero]
  unfold Mail.clockWords? at hwords
  split at hwords
  · next a b hsplit =>
    cases hwords
    exact htwo hsplit
  · next a b c hsplit =>
    cases hwords
    exact Short.of_splitAt hcs hsplit
  · split at hwords
    · next a b hsplit =>
      cases hwords
      exact htwo hsplit
    · next a b c hsplit =>
      cases hwords
      exact Short.of_splitAt hcs hsplit
    · cases hwords
  · cases hwords

theorem natAbs_integer?_lt {cs : List Char} {n : Int} (hcs : decimalCount cs ≤ k)
    (h : integer? cs = some n) : n.natAbs < 10 ^ k := by
  unfold integer? at h
  split at h
  · cases h
  · have hlt := Decimal.natAbs_readInt?_lt h
    rw [String.toList_ofList] at hlt
    exact lt_of_lt_of_le hlt (Nat.pow_le_pow_right (by decide) hcs)

theorem natAbs_zoneSeconds_le (n : Int) : (zoneSeconds n).natAbs ≤ 36 * n.natAbs + 5940 := by
  rw [zoneSeconds, Int.natAbs_mul, Int.natAbs_natCast]
  have hsign : n.sign.natAbs ≤ 1 := by rw [Int.natAbs_sign]; split <;> omega
  have hsize : n.natAbs / 100 * 3600 + n.natAbs % 100 * 60 ≤ 36 * n.natAbs + 5940 := by omega
  calc
    n.sign.natAbs * (n.natAbs / 100 * 3600 + n.natAbs % 100 * 60)
      ≤ 1 * (n.natAbs / 100 * 3600 + n.natAbs % 100 * 60) := Nat.mul_le_mul_right _ hsign
    _ ≤ 36 * n.natAbs + 5940 := by omega

theorem natAbs_zone?_le {cs : List Char} {seconds : Int} (hcs : decimalCount cs ≤ 9)
    (h : zone? cs = some seconds) : seconds.natAbs ≤ 36 * 10 ^ 9 + 5940 := by
  have hnames : ∀ e ∈ zoneNames, (zoneSeconds e.2).natAbs ≤ 36 * 10 ^ 9 + 5940 := by decide
  unfold zone? at h
  dsimp only at h
  split at h
  · next n hlookup =>
    obtain ⟨before, after, heq, _⟩ := List.lookup_eq_some_iff.mp hlookup
    cases h
    exact hnames (upper (String.ofList cs), n) (by rw [heq]; simp)
  · split at h
    · next n hn =>
      have hlt := natAbs_integer?_lt (le_trans (decimalCount_upper cs) hcs) hn
      have hle := natAbs_zoneSeconds_le n
      split at h
      · cases h
      · cases h
        omega
    · cases h

theorem fullYear_bounds {year : Int} (h : year.natAbs < 10 ^ 9) :
    -2 ^ 31 ≤ fullYear year ∧ fullYear year < 2 ^ 31 := by
  unfold fullYear
  split
  · omega
  · split <;> omega

/-- A mail date whose words have at most nine digits each has numbers of a workable size. -/
theorem not_excessive_of_short {cs : List Char} {n : Numbers}
    (h : Short 9 (fieldsBy isBlank cs)) (hn : numbers? cs = some n) : ¬ n.Excessive := by
  simp only [numbers?, Option.bind_eq_bind, Option.bind_eq_some_iff, Option.pure_def] at hn
  obtain ⟨f, hf, ⟨hh, mm, ss⟩, hclock, year, hyear, day, hday, hour, hhour, minute, hminute,
    second, hsecond, hn⟩ := hn
  cases hn
  have hfields := h.fields? hf
  have hwords := Short.clockWords? (hfields f.time (by simp)) (by decide) hclock
  have hyear' := fullYear_bounds (natAbs_integer?_lt (hfields f.year (by simp)) hyear)
  have hday' := natAbs_integer?_lt (hfields f.day (by simp)) hday
  have hhour' := natAbs_integer?_lt (hwords hh (by simp)) hhour
  have hminute' := natAbs_integer?_lt (hwords mm (by simp)) hminute
  have hsecond' := natAbs_integer?_lt (hwords ss (by simp)) hsecond
  rintro (⟨seconds, hzone, hfar⟩ | ⟨_, k, hk, hwide⟩)
  · have hle := natAbs_zone?_le (hfields f.zone (by simp)) hzone
    omega
  · simp only [List.mem_cons, List.not_mem_nil, or_false] at hk
    rcases hk with rfl | rfl | rfl | rfl | rfl <;> omega

end Harvest.Calendar.Mail
