import Harvest.Proofs.Pattern.Needs
import Mathlib.Data.List.Basic
import Mathlib.Order.Basic

/-!
# The language of a pattern

A regular pattern is built from sets of characters by sequence, choice and repetition.  Its matches
are the texts of its language: backtracking misses none of them and invents none, so that a search
finds a text of the language just if there is one.
-/

namespace Harvest.Pattern

variable {text : Subject} {p q : Pattern} {bounds : Bounds} {temper : Temper}
  {body : Cursor → Next → Option Cursor} {c r : Cursor} {next : Next} {w : List Char}

/-! ## Languages -/

/-- Whether a pattern takes in a text: what stands around the text does not count. -/
def Accepts : Pattern → List Char → Prop
  | .empty, w => w = []
  | .one set mode, w => ∃ x, w = [x] ∧ set.matches mode x = true
  | .seq p q, w => ∃ u v, w = u ++ v ∧ p.Accepts u ∧ q.Accepts v
  | .either p q, w => p.Accepts w ∨ q.Accepts w
  | .repeated p bounds _, w => ∃ ws : List (List Char), w = ws.flatten ∧
      bounds.least ≤ ws.length ∧ (∀ m ∈ bounds.most, ws.length ≤ m) ∧ ∀ v ∈ ws, p.Accepts v
  | _, _ => False

/-- Whether every way through a regular pattern takes a character. -/
def isSolid : Pattern → Bool
  | .one .. => true
  | .seq p q => p.isSolid || q.isSolid
  | .either p q => p.isSolid && q.isSolid
  | .repeated p bounds _ => 0 < bounds.least && p.isSolid
  | _ => false

/-- Whether repetitions are possible at all. -/
def Bounds.ordered (bounds : Bounds) : Bool := bounds.most.all fun m => bounds.least ≤ m

/-- Sets of characters in sequence, choice and repetition, where each run of a repetition takes a
character. -/
def isRegular : Pattern → Bool
  | .empty => true
  | .one .. => true
  | .seq p q => p.isRegular && q.isRegular
  | .either p q => p.isRegular && q.isRegular
  | .repeated p bounds temper =>
    p.isRegular && p.isSolid && bounds.ordered && temper != .possessive
  | _ => false

theorem Accepts.ne_nil (hsolid : p.isSolid = true) (h : p.Accepts w) : w ≠ [] := by
  induction p generalizing w with
  | one set mode =>
      obtain ⟨x, rfl, _⟩ := h
      exact List.cons_ne_nil x []
  | seq p q ihp ihq =>
      obtain ⟨u, v, rfl, hu, hv⟩ := h
      rw [isSolid, Bool.or_eq_true] at hsolid
      rcases hsolid with hp | hq
      · exact List.append_ne_nil_of_left_ne_nil (ihp hp hu) v
      · exact List.append_ne_nil_of_right_ne_nil u (ihq hq hv)
  | either p q ihp ihq =>
      rw [isSolid, Bool.and_eq_true] at hsolid
      rcases h with hp | hq
      · exact ihp hsolid.1 hp
      · exact ihq hsolid.2 hq
  | repeated p bounds temper ih =>
      obtain ⟨ws, rfl, hleast, _, hws⟩ := h
      rw [isSolid, Bool.and_eq_true, decide_eq_true_iff] at hsolid
      cases ws with
      | nil => exact absurd hleast (Nat.not_le_of_lt hsolid.1)
      | cons v ws =>
          exact List.append_ne_nil_of_left_ne_nil (ih hsolid.2 (hws v List.mem_cons_self)) _
  | _ => cases hsolid

/-- A text of a pattern that needs a character of a kind has one. -/
theorem Accepts.exists_mem {P : Char → Prop} (hneeds : p.Needs P) (h : p.Accepts w) :
    ∃ x ∈ w, P x := by
  induction p generalizing w with
  | one set mode =>
      obtain ⟨x, rfl, hmatches⟩ := h
      exact ⟨x, List.mem_singleton_self x, hneeds x hmatches⟩
  | seq p q ihp ihq =>
      obtain ⟨u, v, rfl, hu, hv⟩ := h
      rcases hneeds with hp | hq
      · obtain ⟨x, hx, hPx⟩ := ihp hp hu
        exact ⟨x, List.mem_append_left v hx, hPx⟩
      · obtain ⟨x, hx, hPx⟩ := ihq hq hv
        exact ⟨x, List.mem_append_right u hx, hPx⟩
  | either p q ihp ihq =>
      rcases h with hp | hq
      · exact ihp hneeds.1 hp
      · exact ihq hneeds.2 hq
  | repeated p bounds temper ih =>
      obtain ⟨ws, rfl, hleast, _, hws⟩ := h
      cases ws with
      | nil => exact absurd hleast (Nat.not_le_of_lt hneeds.1)
      | cons v ws =>
          obtain ⟨x, hx, hPx⟩ := ih hneeds.2 (hws v List.mem_cons_self)
          exact ⟨x, List.mem_append_left _ hx, hPx⟩
  | empty => exact False.elim hneeds
  | _ => exact False.elim h

/-- A repeated set of characters takes in the texts of such characters. -/
theorem accepts_repeated_one {set : CharSet} {mode : Mode} :
    (Pattern.repeated (.one set mode) bounds temper).Accepts w ↔
      (∀ x ∈ w, set.matches mode x = true) ∧ bounds.least ≤ w.length ∧
        ∀ m ∈ bounds.most, w.length ≤ m := by
  constructor
  · rintro ⟨ws, rfl, hleast, hmost, hws⟩
    have hsingle : ∃ xs : List Char, ws = xs.map (fun x => [x]) ∧
        ∀ x ∈ xs, set.matches mode x = true := by
      clear hleast hmost
      induction ws with
      | nil => exact ⟨[], rfl, fun _ hx => absurd hx List.not_mem_nil⟩
      | cons v ws ih =>
          obtain ⟨xs, rfl, hxs⟩ := ih fun u hu => hws u (List.mem_cons_of_mem v hu)
          obtain ⟨x, rfl, hx⟩ := hws v List.mem_cons_self
          exact ⟨x :: xs, rfl, List.forall_mem_cons.mpr ⟨hx, hxs⟩⟩
    obtain ⟨xs, rfl, hxs⟩ := hsingle
    rw [List.length_map] at hleast hmost
    rw [← List.flatMap_def, List.flatMap_singleton']
    exact ⟨hxs, hleast, hmost⟩
  · rintro ⟨hw, hleast, hmost⟩
    refine ⟨w.map fun x => [x], ?_, ?_, ?_, ?_⟩
    · rw [← List.flatMap_def, List.flatMap_singleton']
    · rwa [List.length_map]
    · rwa [List.length_map]
    · intro v hv
      obtain ⟨x, hx, rfl⟩ := List.mem_map.mp hv
      exact ⟨x, rfl, hw x hx⟩

/-! ## No match outside the language -/

/-- A success of a matcher is one behind a text of a language. -/
def Sound (text : Subject) (L : List Char → Prop) (body : Cursor → Next → Option Cursor) : Prop :=
  ∀ ⦃c next r⦄, body c next = some r → ∃ w, L w ∧ w <+: text.toList.drop c.pos ∧
    next { c with pos := c.pos + w.length } = some r

theorem append_drop_of_front {cs u v : List Char} {i : Nat} (hu : u <+: cs.drop i)
    (hv : v <+: cs.drop (i + u.length)) : u ++ v <+: cs.drop i := by
  obtain ⟨rest, hrest⟩ := hu
  rw [← List.drop_drop, ← hrest, List.drop_left] at hv
  rw [← hrest]
  exact (List.prefix_append_right_inj u).mpr hv

theorem Sound.iterate {L : List Char → Prop} (hbody : Sound text L body) {fuel count : Nat}
    {last : Option Nat} (hleast : bounds.least ≤ fuel + count)
    (hcount : ∀ m ∈ bounds.most, count ≤ m) (hordered : bounds.ordered = true)
    (hrun : iterate body bounds temper fuel count last c next = some r) :
    ∃ ws : List (List Char), bounds.least ≤ count + ws.length ∧
      (∀ m ∈ bounds.most, count + ws.length ≤ m) ∧ (∀ v ∈ ws, L v) ∧
      ws.flatten <+: text.toList.drop c.pos ∧
      next { c with pos := c.pos + ws.flatten.length } = some r := by
  -- the texts of the single runs, first one first; none of them where the repetition ends at once
  have hend : bounds.least ≤ count → next c = some r → ∃ ws : List (List Char),
      bounds.least ≤ count + ws.length ∧ (∀ m ∈ bounds.most, count + ws.length ≤ m) ∧
      (∀ v ∈ ws, L v) ∧ ws.flatten <+: text.toList.drop c.pos ∧
      next { c with pos := c.pos + ws.flatten.length } = some r := fun hle hnext =>
    ⟨[], hle, hcount, fun _ hv => absurd hv List.not_mem_nil, List.nil_prefix, hnext⟩
  induction fuel generalizing count last c with
  | zero => exact hend (by omega) hrun
  | succ fuel ih =>
      rcases iterate_succ_cases hrun with ⟨hagain, hmore⟩ | ⟨hle, hnext⟩
      · have hcount' : ∀ m ∈ bounds.most, count + 1 ≤ m := by
          intro m hm
          rw [Option.mem_def] at hm
          rw [Bounds.ordered, hm] at hordered
          rw [Bounds.allow, hm] at hmore
          have hle : bounds.least ≤ m := of_decide_eq_true hordered
          rcases hmore with hlt | hallow
          · omega
          · exact of_decide_eq_true hallow
        obtain ⟨v, hv, hfront, hrest⟩ := hbody hagain
        obtain ⟨ws, hws, hmost, hall, hflat, hnext⟩ := ih (by omega) hcount' hrest fun hle hnext =>
          ⟨[], hle, hcount', fun _ hv => absurd hv List.not_mem_nil, List.nil_prefix, hnext⟩
        refine ⟨v :: ws, ?_, ?_, ?_, ?_, ?_⟩
        · rw [List.length_cons]
          omega
        · intro m hm
          have hm' := hmost m hm
          rw [List.length_cons]
          omega
        · exact List.forall_mem_cons.mpr ⟨hv, hall⟩
        · rw [List.flatten_cons]
          exact append_drop_of_front hfront hflat
        · rw [List.flatten_cons, List.length_append, ← Nat.add_assoc]
          exact hnext
      · exact hend hle hnext

theorem sound_run (text : Subject) (hp : p.isRegular = true) :
    Sound text p.Accepts (run text p) := by
  induction p with
  | empty => exact fun c next r hrun => ⟨[], rfl, List.nil_prefix, hrun⟩
  | one set mode =>
      intro c next r hrun
      obtain ⟨x, hx, hmatches, hnext⟩ := run_one_cases hrun
      obtain ⟨hi, hget⟩ := Array.getElem?_eq_some_iff.mp hx
      refine ⟨[x], ⟨x, rfl, hmatches⟩, ?_, hnext⟩
      rw [List.drop_eq_getElem_cons hi, Array.getElem_toList, hget]
      exact List.prefix_append [x] _
  | seq p q ihp ihq =>
      intro c next r hrun
      rw [isRegular, Bool.and_eq_true] at hp
      obtain ⟨u, hu, hfirst, hrest⟩ := ihp hp.1 hrun
      obtain ⟨v, hv, hsecond, hnext⟩ := ihq hp.2 hrest
      refine ⟨u ++ v, ⟨u, v, rfl, hu, hv⟩, append_drop_of_front hfirst hsecond, ?_⟩
      rw [List.length_append, ← Nat.add_assoc]
      exact hnext
  | either p q ihp ihq =>
      intro c next r hrun
      rw [isRegular, Bool.and_eq_true] at hp
      rcases run_either_cases hrun with hfirst | hsecond
      · obtain ⟨w, hw, hrest⟩ := ihp hp.1 hfirst
        exact ⟨w, .inl hw, hrest⟩
      · obtain ⟨w, hw, hrest⟩ := ihq hp.2 hsecond
        exact ⟨w, .inr hw, hrest⟩
  | repeated p bounds temper ih =>
      intro c next r hrun
      simp only [isRegular, Bool.and_eq_true, bne_iff_ne] at hp
      obtain ⟨⟨⟨hregular, _⟩, hordered⟩, htemper⟩ := hp
      rcases run_repeated_cases hrun with ⟨hpossessive, _⟩ | ⟨_, hiterate⟩
      · exact absurd hpossessive htemper
      · obtain ⟨ws, hleast, hmost, hall, hflat, hnext⟩ :=
          (ih hregular).iterate (by omega) (fun _ _ => Nat.zero_le _) hordered hiterate
        rw [Nat.zero_add] at hleast
        simp only [Nat.zero_add] at hmost
        exact ⟨ws.flatten, ⟨ws, rfl, hleast, hmost, hall⟩, hflat, hnext⟩
  | _ => cases hp

/-! ## No text of the language missed -/

/-- A matcher succeeds where a text of a language leads to a success. -/
def Complete (text : Subject) (L : List Char → Prop) (body : Cursor → Next → Option Cursor) :
    Prop :=
  ∀ ⦃c next w⦄, L w → w <+: text.toList.drop c.pos →
    (next { c with pos := c.pos + w.length }).isSome = true → (body c next).isSome = true

theorem front_drop_of_append {cs u v : List Char} {i : Nat} (h : u ++ v <+: cs.drop i) :
    u <+: cs.drop i ∧ v <+: cs.drop (i + u.length) := by
  obtain ⟨rest, hrest⟩ := h
  rw [List.append_assoc] at hrest
  refine ⟨⟨_, hrest⟩, rest, ?_⟩
  rw [← List.drop_drop, ← hrest, List.drop_left]

theorem isSome_iterate_of_again {fuel count : Nat} {last : Option Nat}
    (hmore : bounds.allow count = true) (hlast : last ≠ some c.pos)
    (hagain : (body c fun c' =>
      iterate body bounds temper fuel (count + 1) (some c.pos) c' next).isSome = true) :
    (iterate body bounds temper (fuel + 1) count last c next).isSome = true := by
  have hallow : (bounds.allow count && last != some c.pos) = true := by
    rw [Bool.and_eq_true, bne_iff_ne]
    exact ⟨hmore, hlast⟩
  obtain ⟨r, hr⟩ := Option.isSome_iff_exists.mp hagain
  unfold iterate
  dsimp only
  rw [if_pos hallow, hr]
  split
  · rfl
  · split
    · cases next c <;> rfl
    · rfl

theorem isSome_iterate_of_end {fuel count : Nat} {last : Option Nat} (hleast : bounds.least ≤ count)
    (hnext : (next c).isSome = true) :
    (iterate body bounds temper fuel count last c next).isSome = true := by
  cases fuel with
  | zero => exact hnext
  | succ fuel =>
      obtain ⟨r, hr⟩ := Option.isSome_iff_exists.mp hnext
      unfold iterate
      dsimp only
      rw [if_neg (Nat.not_lt_of_le hleast), hr]
      split
      · rfl
      · split <;> rfl

theorem Complete.iterate {L : List Char → Prop} (hbody : Complete text L body)
    {ws : List (List Char)} {fuel count : Nat} {last : Option Nat} (hws : ∀ v ∈ ws, L v ∧ v ≠ [])
    (hfuel : ws.length ≤ fuel) (hleast : bounds.least ≤ count + ws.length)
    (hmost : ∀ m ∈ bounds.most, count + ws.length ≤ m) (hlast : last ≠ some c.pos)
    (hat : ws.flatten <+: text.toList.drop c.pos)
    (hnext : (next { c with pos := c.pos + ws.flatten.length }).isSome = true) :
    (iterate body bounds temper fuel count last c next).isSome = true := by
  induction ws generalizing fuel count last c with
  | nil => exact isSome_iterate_of_end hleast hnext
  | cons v ws ih =>
      rw [List.length_cons] at hfuel hleast hmost
      obtain ⟨fuel, rfl⟩ := Nat.exists_eq_add_one_of_ne_zero (n := fuel) (by omega)
      obtain ⟨hv, hne⟩ := hws v List.mem_cons_self
      rw [List.flatten_cons] at hat hnext
      obtain ⟨hfirst, hrest⟩ := front_drop_of_append hat
      -- the run takes something, so the next one is not ruled out as standing where this one began
      have hmoved : some c.pos ≠ some (c.pos + v.length) := by
        have hlength := List.length_pos_iff.mpr hne
        intro heq
        have hpos := Option.some.inj heq
        omega
      have hagain :
          (body c fun c' => Pattern.iterate body bounds temper fuel (count + 1) (some c.pos) c'
            next).isSome = true := by
        apply hbody hv hfirst
        apply ih (fun u hu => hws u (List.mem_cons_of_mem v hu)) (Nat.le_of_succ_le_succ hfuel)
          (by omega) (fun m hm => ?_) hmoved hrest
        · rwa [List.length_append, ← Nat.add_assoc] at hnext
        · have hm' := hmost m hm
          omega
      refine isSome_iterate_of_again ?_ hlast hagain
      unfold Bounds.allow
      split
      · rfl
      · next m hm =>
        have hm' := hmost m hm
        exact decide_eq_true (by omega)

theorem length_le_length_flatten {ws : List (List Char)} (hws : ∀ v ∈ ws, v ≠ []) :
    ws.length ≤ ws.flatten.length := by
  induction ws with
  | nil => exact Nat.zero_le _
  | cons v ws ih =>
      have hv := List.length_pos_iff.mpr (hws v List.mem_cons_self)
      have hrest := ih fun u hu => hws u (List.mem_cons_of_mem v hu)
      rw [List.flatten_cons, List.length_append, List.length_cons]
      omega

theorem complete_run (text : Subject) (hp : p.isRegular = true) :
    Complete text p.Accepts (run text p) := by
  induction p with
  | empty =>
      rintro c next w rfl _ hnext
      exact hnext
  | one set mode =>
      rintro c next w ⟨x, rfl, hmatches⟩ hat hnext
      obtain ⟨rest, hrest⟩ := hat
      have hx : text[c.pos]? = some x := by
        rw [← Array.getElem?_toList, ← Nat.add_zero c.pos, ← List.getElem?_drop, ← hrest]
        rfl
      rw [run, hx]
      dsimp only
      rw [if_pos hmatches]
      exact hnext
  | seq p q ihp ihq =>
      rintro c next w ⟨u, v, rfl, hu, hv⟩ hat hnext
      rw [isRegular, Bool.and_eq_true] at hp
      obtain ⟨hfirst, hsecond⟩ := front_drop_of_append hat
      apply ihp hp.1 hu hfirst
      apply ihq hp.2 hv hsecond
      rwa [List.length_append, ← Nat.add_assoc] at hnext
  | either p q ihp ihq =>
      intro c next w hw hat hnext
      rw [isRegular, Bool.and_eq_true] at hp
      rw [run]
      cases hfirst : run text p c next with
      | some r => rfl
      | none =>
          rcases hw with hw | hw
          · have hsome := ihp hp.1 hw hat hnext
            rw [hfirst] at hsome
            cases hsome
          · exact ihq hp.2 hw hat hnext
  | repeated p bounds temper ih =>
      rintro c next w ⟨ws, rfl, hleast, hmost, hall⟩ hat hnext
      simp only [isRegular, Bool.and_eq_true, bne_iff_ne] at hp
      obtain ⟨⟨⟨hregular, hsolid⟩, _⟩, htemper⟩ := hp
      have hws : ∀ v ∈ ws, p.Accepts v ∧ v ≠ [] := fun v hv =>
        ⟨hall v hv, (hall v hv).ne_nil hsolid⟩
      -- Each run takes a character, so there are no more runs than characters left.
      have hlength : ws.length ≤ text.size - c.pos := by
        calc
          ws.length ≤ ws.flatten.length := length_le_length_flatten fun v hv => (hws v hv).2
          _ ≤ (text.toList.drop c.pos).length := hat.length_le
          _ = text.size - c.pos := by rw [List.length_drop, Array.length_toList]
      have hiterate : (Pattern.iterate (run text p) bounds temper
          (bounds.least + (text.size - c.pos) + 2) 0 none c next).isSome = true :=
        (ih hregular).iterate hws (by omega) (by omega) (fun m hm => by
          rw [Nat.zero_add]
          exact hmost m hm) (fun hnone => by cases hnone) hat hnext
      unfold run
      dsimp only
      split
      · exact absurd rfl htemper
      · exact hiterate
  | _ => cases hp

/-! ## Searching -/

/-- Whether a search looks for a regular pattern, perhaps at places of a kind only. -/
def isSearchable : Pattern → Bool
  | .seq (.place _) p => p.isRegular
  | p => p.isRegular

/-- Whether a pattern takes in a text that stands between two others. -/
def Occurs (before w after : List Char) : Pattern → Prop
  | .seq (.place b) p =>
    b.holds (before ++ (w ++ after)).toArray before.length = true ∧ p.Accepts w
  | p => p.Accepts w

theorem exists_occurs_of_run {cs : List Char} {i : Nat} (hp : p.isSearchable = true)
    (hi : i ≤ cs.length) (hrun : run cs.toArray p ⟨i, []⟩ some = some r) :
    ∃ before w after, cs = before ++ (w ++ after) ∧ before.length = i ∧ r.pos = i + w.length ∧
      p.Occurs before w after := by
  have hregular : ∀ {q : Pattern}, q.isRegular = true →
      run cs.toArray q ⟨i, []⟩ some = some r → ∃ before w after, cs = before ++ (w ++ after) ∧
        before.length = i ∧ r.pos = i + w.length ∧ q.Accepts w := by
    intro q hq hrun
    obtain ⟨w, hw, ⟨after, hafter⟩, hend⟩ := sound_run cs.toArray hq hrun
    refine ⟨cs.take i, w, after, ?_, ?_, ?_, hw⟩
    · rw [hafter]
      exact (List.take_append_drop i cs).symm
    · rw [List.length_take]
      omega
    · exact congrArg Cursor.pos (Option.some.inj hend).symm
  unfold isSearchable at hp
  split at hp
  · next b q =>
    rw [run, run] at hrun
    split at hrun
    · next hplace =>
      obtain ⟨before, w, after, hcs, hlength, hpos, hw⟩ := hregular hp hrun
      refine ⟨before, w, after, hcs, hlength, hpos, ?_, hw⟩
      rwa [← hcs, hlength]
    · cases hrun
  · next hplain =>
    obtain ⟨before, w, after, hcs, hlength, hpos, hw⟩ := hregular hp hrun
    refine ⟨before, w, after, hcs, hlength, hpos, ?_⟩
    unfold Occurs
    split
    · next b q => exact absurd rfl (hplain b q)
    · exact hw

theorem isSome_run_of_occurs {before after : List Char} (hp : p.isSearchable = true)
    (h : p.Occurs before w after) :
    (run (before ++ (w ++ after)).toArray p ⟨before.length, []⟩ some).isSome = true := by
  have hregular : ∀ {q : Pattern}, q.isRegular = true → q.Accepts w →
      (run (before ++ (w ++ after)).toArray q ⟨before.length, []⟩ some).isSome = true := by
    intro q hq hw
    apply complete_run _ hq hw
    · exact ⟨after, List.drop_left.symm⟩
    · rfl
  unfold isSearchable at hp
  split at hp
  · rw [run, run, if_pos h.1]
    exact hregular hp h.2
  · next hplain =>
    unfold Occurs at h
    split at h
    · next b q => exact absurd rfl (hplain b q)
    · exact hregular hp h

theorem searchFrom_cases {m : Found} {count start : Nat}
    (hfound : searchFrom p text false count start = some m) :
    m.start < start + count ∧ run text p ⟨m.start, []⟩ some = some m.stop := by
  induction count generalizing start with
  | zero => cases hfound
  | succ count ih =>
      rw [searchFrom] at hfound
      split at hfound
      · next hrun =>
        cases hfound
        exact ⟨Nat.lt_add_of_pos_right (Nat.succ_pos count), hrun⟩
      · obtain ⟨hlt, hrun⟩ := ih hfound
        exact ⟨by omega, hrun⟩

theorem isSome_searchFrom {count start i : Nat} (hi : start ≤ i ∧ i < start + count)
    (hrun : (run text p ⟨i, []⟩ some).isSome = true) :
    (searchFrom p text false count start).isSome = true := by
  induction count generalizing start with
  | zero => omega
  | succ count ih =>
      rw [searchFrom]
      split
      · rfl
      · next hnone =>
        have hne : start ≠ i := by
          rintro rfl
          rw [show run text p ⟨start, []⟩ some = none from hnone] at hrun
          cases hrun
        exact ih (by omega)

/-- What a search finds is a text of the language, where it stands. -/
theorem exists_occurs_of_search? {cs : List Char} (hp : p.isSearchable = true)
    (h : search? p cs = some w) :
    ∃ before after, cs = before ++ (w ++ after) ∧ p.Occurs before w after := by
  obtain ⟨m, hfound, rfl⟩ := Option.map_eq_some_iff.mp h
  obtain ⟨hlt, hrun⟩ := searchFrom_cases hfound
  rw [List.size_toArray] at hlt
  obtain ⟨before, w, after, rfl, hlength, hpos, hoccurs⟩ :=
    exists_occurs_of_run hp (by omega) hrun
  have htext : m.text (before ++ (w ++ after)).toArray = w := by
    rw [Found.text, slice, hpos, ← hlength, List.extract_toArray, List.toList_toArray,
      List.extract_eq_take_drop, Nat.add_sub_cancel_left, List.drop_left, List.take_left]
  rw [htext]
  exact ⟨before, after, rfl, hoccurs⟩

/-- A search finds something where a text of the language stands. -/
theorem isSome_search? {before after : List Char} (hp : p.isSearchable = true)
    (h : p.Occurs before w after) : (search? p (before ++ (w ++ after))).isSome = true := by
  rw [search?, Option.isSome_map]
  refine isSome_searchFrom ⟨Nat.zero_le _, ?_⟩ (isSome_run_of_occurs hp h)
  rw [List.size_toArray, List.length_append]
  omega

end Harvest.Pattern
