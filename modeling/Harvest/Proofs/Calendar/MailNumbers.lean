import Harvest.Proofs.Calendar.Overflow
import Harvest.Proofs.Text.Runs

/-!
# The numbers of a mail date

Day, year, hour and minute of a mail date are cut out of different places of its text, so that a
text with fewer runs of digits is no mail date.
-/

namespace Harvest.Calendar.Mail

open Text (isDecimal isBlank fieldsBy runs runsFrom totalRuns totalRuns_cons decimalCount)

variable {mark : Char} {cs : List Char} {ws : List (List Char)}

/-! ## Pieces of words -/

theorem totalRuns_splitAt (hmark : isDecimal mark = false) (cs : List Char) :
    totalRuns (splitAt mark cs) = runs cs := by
  have hfirst : ∃ p ps, splitAt mark cs = p :: ps ∧
      ∀ inside, runsFrom inside p + totalRuns ps = runsFrom inside cs := by
    induction cs with
    | nil => exact ⟨[], [], rfl, fun _ => rfl⟩
    | cons c cs ih =>
        obtain ⟨p, ps, hsplit, hruns⟩ := ih
        rw [splitAt, hsplit]
        split
        · next hc =>
          rw [beq_iff_eq] at hc
          refine ⟨[], p :: ps, rfl, fun inside => ?_⟩
          rw [hc, Text.runsFrom_cons_of_other hmark, totalRuns_cons, runsFrom, Nat.zero_add]
          exact hruns false
        · refine ⟨c :: p, ps, rfl, fun inside => ?_⟩
          cases hdigit : isDecimal c with
          | false =>
              rw [Text.runsFrom_cons_of_other hdigit, Text.runsFrom_cons_of_other hdigit]
              exact hruns false
          | true =>
              rw [Text.runsFrom_cons_of_digit hdigit, Text.runsFrom_cons_of_digit hdigit,
                Nat.add_assoc, hruns]
  obtain ⟨p, ps, hsplit, hruns⟩ := hfirst
  rw [hsplit, totalRuns_cons]
  exact hruns false

theorem suffix_behindComma (cs : List Char) : behindComma cs <:+ cs := by
  have hpart := List.takeWhile_prefix (· != ',') (l := cs.reverse)
  rwa [← List.reverse_suffix, List.reverse_reverse] at hpart

theorem runs_dropEnd_le (mark : Char) (cs : List Char) : runs (dropEnd mark cs) ≤ runs cs := by
  unfold dropEnd
  split
  · exact Text.runs_le_of_front (List.dropLast_prefix cs)
  · exact le_rfl

theorem totalRuns_dropWeekday_le (ws : List (List Char)) :
    totalRuns (dropWeekday ws) ≤ totalRuns ws := by
  unfold dropWeekday
  split
  · exact le_rfl
  · next w ws =>
    rw [totalRuns_cons]
    split
    · exact Nat.le_add_left _ _
    · rw [totalRuns_cons]
      exact Nat.add_le_add_right (Text.runs_le_of_suffix (suffix_behindComma w)) _

theorem totalRuns_splitHyphens (ws : List (List Char)) :
    totalRuns (splitHyphens ws) = totalRuns ws := by
  unfold splitHyphens
  split
  · next a b c =>
    split
    · next d m y hsplit =>
      have hparts : totalRuns (splitAt '-' a) = runs a := totalRuns_splitAt (by decide) a
      rw [hsplit] at hparts
      show totalRuns ([d, m, y] ++ [b, c]) = _
      rw [Text.totalRuns_append, hparts]
      rfl
    · rfl
  · rfl

theorem runs_zoneSign {i : Nat} (h : zoneSign cs = some i) :
    runs (cs.take i) + runs (cs.drop i) = runs cs := by
  have hsign : ∃ hi : i < cs.length, isDecimal cs[i] = false := by
    unfold zoneSign at h
    split at h
    · next j hplus =>
      cases h
      obtain ⟨hi, hat, _⟩ := List.findIdx?_eq_some_iff_getElem.mp hplus
      exact ⟨hi, beq_iff_eq.mp hat ▸ by decide⟩
    · obtain ⟨hi, hat, _⟩ := List.findIdx?_eq_some_iff_getElem.mp h
      exact ⟨hi, beq_iff_eq.mp hat ▸ by decide⟩
  obtain ⟨hi, hother⟩ := hsign
  have hsplit := Text.runs_append_cons hother (cs.take i) (cs.drop (i + 1))
  rw [← List.drop_eq_getElem_cons hi, List.take_append_drop] at hsplit
  rw [hsplit, List.drop_eq_getElem_cons hi]
  exact congrArg _ (Text.runsFrom_cons_of_other hother false _)

theorem totalRuns_splitZone (ws : List (List Char)) :
    totalRuns (splitZone ws) = totalRuns ws := by
  unfold splitZone
  split
  · next a b c d =>
    split
    · next i hsign =>
      have hruns := runs_zoneSign hsign
      show totalRuns ([a, b, c] ++ [_, _]) = totalRuns ([a, b, c] ++ [d])
      rw [Text.totalRuns_append, Text.totalRuns_append]
      exact congrArg _ hruns
    · rfl
  · rfl

theorem totalRuns_take_le (n : Nat) (ws : List (List Char)) :
    totalRuns (ws.take n) ≤ totalRuns ws := by
  conv => rhs; rw [← List.take_append_drop n ws, Text.totalRuns_append]
  exact Nat.le_add_right _ _

/-! ## Fields -/

/-- The parts of a mail date are cut out of different words. -/
theorem runs_fields_le {f : Fields} (hf : fields? cs = some f) :
    runs f.day + runs f.year + runs f.time ≤ runs cs := by
  obtain ⟨d, m, y, t, z, hperm, hday, htime, hyear⟩ := fields?_cases hf
  have hwords : totalRuns [d, m, y, t, z] ≤ runs cs := by
    calc
      totalRuns [d, m, y, t, z]
        = totalRuns ((splitZone (splitHyphens (dropWeekday (fieldsBy isBlank cs)))).take 5) :=
        (hperm.map runs).sum_eq
      _ ≤ totalRuns (splitZone (splitHyphens (dropWeekday (fieldsBy isBlank cs)))) :=
        totalRuns_take_le 5 _
      _ = totalRuns (dropWeekday (fieldsBy isBlank cs)) := by
        rw [totalRuns_splitZone, totalRuns_splitHyphens]
      _ ≤ totalRuns (fieldsBy isBlank cs) := totalRuns_dropWeekday_le _
      _ = runs cs := Text.totalRuns_fieldsBy (fun _ => Text.isDecimal_of_isBlank) cs
  have hd := runs_dropEnd_le ',' d
  have hy := runs_dropEnd_le ',' y
  have ht := runs_dropEnd_le ',' t
  simp only [totalRuns, List.map_cons, List.map_nil, List.sum_cons, List.sum_nil] at hwords
  rw [hday, htime]
  rcases hyear with ⟨hyear, _⟩ | ⟨hyear, _⟩ <;> rw [hyear] <;> omega

theorem runs_clockWords_le {h m s : List Char} (hwords : clockWords? cs = some (h, m, s)) :
    runs h + runs m ≤ runs cs := by
  have hcolon : totalRuns (splitAt ':' cs) = runs cs := totalRuns_splitAt (by decide) cs
  have hdot : totalRuns (splitAt '.' cs) = runs cs := totalRuns_splitAt (by decide) cs
  have htwo : ∀ {ps}, totalRuns (h :: m :: ps) = runs cs → runs h + runs m ≤ runs cs := by
    intro ps hps
    rw [totalRuns_cons, totalRuns_cons] at hps
    omega
  unfold clockWords? at hwords
  split at hwords
  · next hsplit =>
    cases hwords
    exact htwo (hsplit ▸ hcolon)
  · next hsplit =>
    cases hwords
    exact htwo (hsplit ▸ hcolon)
  · split at hwords
    · next hsplit =>
      cases hwords
      exact htwo (hsplit ▸ hdot)
    · next hsplit =>
      cases hwords
      exact htwo (hsplit ▸ hdot)
    · cases hwords
  · cases hwords

/-- An integer has a digit. -/
theorem runs_integer_pos {n : Int} (h : integer? cs = some n) : 1 ≤ runs cs := by
  have hcount : 0 < decimalCount cs := by
    unfold integer? at h
    split at h
    · cases h
    unfold Decimal.readInt? at h
    split at h
    next negative ds hsign =>
      split at h
      · next e es hdigits =>
        have hsub := (Decimal.sublist_takeSign _).trans
          (Text.sublist_stripBy isBlank (String.ofList cs).toList)
        have hlength := Decimal.length_takeGrouped ds
        rw [String.toList_ofList] at hsub hsign
        rw [hdigits, List.length_cons] at hlength
        have hle := Text.decimalCount_le_of_sublist hsub
        rw [show Text.stripBy isBlank cs = Text.trimChars cs from rfl, hsign] at hle
        exact lt_of_lt_of_le (Nat.succ_pos es.length) (le_trans hlength hle)
      · cases h
  obtain ⟨c, hc, hdigit⟩ := List.countP_pos_iff.mp hcount
  exact Text.runs_pos hc hdigit

theorem runs_numbers? {n : Numbers} (hn : numbers? cs = some n) : 4 ≤ runs cs := by
  simp only [numbers?, Option.bind_eq_bind, Option.bind_eq_some_iff, Option.pure_def] at hn
  obtain ⟨f, hf, ⟨h, m, s⟩, hclock, year, hyear, day, hday, hour, hhour, minute, hminute, _⟩ := hn
  have hfields := runs_fields_le hf
  have hwords := runs_clockWords_le hclock
  have hyear' := runs_integer_pos hyear
  have hday' := runs_integer_pos hday
  have hhour' := runs_integer_pos hhour
  have hminute' := runs_integer_pos hminute
  dsimp only at hhour' hminute'
  omega

theorem parse_of_few_numbers (h : runs cs < 4) : parse cs = .notADate := by
  unfold parse
  split
  · next n hn => exact absurd (runs_numbers? hn) (Nat.not_le_of_lt h)
  · rfl

end Harvest.Calendar.Mail
