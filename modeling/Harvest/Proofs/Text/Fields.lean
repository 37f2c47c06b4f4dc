import Harvest.Text.Blank
import Mathlib.Data.List.Induction
import Mathlib.Data.List.TakeWhile
import Mathlib.Tactic.Set

/-!
# Words of a text

The maximal runs of characters outside a class: cutting characters of the class off at the ends of
the text leaves them as they are.
-/

namespace Harvest.Text

variable {p : Char → Bool} {c : Char}

theorem fieldsBy_cons_of_pos (h : p c = true) (r : List Char) :
    fieldsBy p (c :: r) = fieldsBy p r := by
  rw [fieldsBy.eq_def]
  exact if_pos h

theorem fieldsBy_singleton (h : p c = false) : fieldsBy p [c] = [[c]] := by
  rw [fieldsBy.eq_def]
  exact if_neg (Bool.eq_false_iff.mp h)

theorem fieldsBy_cons_cons (h : p c = false) (d : Char) (r : List Char) :
    fieldsBy p (c :: d :: r) = match fieldsBy p (d :: r) with
      | f :: fs => if p d then [c] :: f :: fs else (c :: f) :: fs
      | [] => [[c]] := by
  rw [fieldsBy.eq_def]
  dsimp only
  rw [if_neg (Bool.eq_false_iff.mp h)]
  cases fieldsBy p (d :: r) <;> rfl

theorem fieldsBy_eq_nil {bs : List Char} (h : ∀ b ∈ bs, p b = true) : fieldsBy p bs = [] := by
  induction bs with
  | nil => rfl
  | cons b bs ih =>
      rw [fieldsBy_cons_of_pos (h b List.mem_cons_self)]
      exact ih fun c hc => h c (List.mem_cons_of_mem b hc)

/-- A text without characters of the class is one word. -/
theorem fieldsBy_eq_singleton {cs : List Char} (hne : cs ≠ []) (h : ∀ c ∈ cs, p c = false) :
    fieldsBy p cs = [cs] := by
  induction cs with
  | nil => exact absurd rfl hne
  | cons c r ih =>
      have hc := h c List.mem_cons_self
      cases r with
      | nil => exact fieldsBy_singleton hc
      | cons d r =>
          have hrest : fieldsBy p (d :: r) = [d :: r] :=
            ih (List.cons_ne_nil d r) fun x hx => h x (List.mem_cons_of_mem c hx)
          have hd : p d = false := h d (by simp)
          rw [fieldsBy_cons_cons hc, hrest]
          dsimp only
          rw [hd, if_neg Bool.false_ne_true]

theorem fieldsBy_append_left {bs : List Char} (h : ∀ b ∈ bs, p b = true) (cs : List Char) :
    fieldsBy p (bs ++ cs) = fieldsBy p cs := by
  induction bs with
  | nil => rfl
  | cons b bs ih =>
      rw [List.cons_append, fieldsBy_cons_of_pos (h b List.mem_cons_self)]
      exact ih fun c hc => h c (List.mem_cons_of_mem b hc)

theorem fieldsBy_append_of_forall {bs : List Char} (cs : List Char) (h : ∀ b ∈ bs, p b = true) :
    fieldsBy p (cs ++ bs) = fieldsBy p cs := by
  induction cs with
  | nil => exact fieldsBy_eq_nil h
  | cons c r ih =>
      by_cases hc : p c = true
      · rw [List.cons_append, fieldsBy_cons_of_pos hc, fieldsBy_cons_of_pos hc, ih]
      rw [Bool.not_eq_true] at hc
      cases r with
      | nil =>
          cases bs with
          | nil => rfl
          | cons b bs =>
              rw [List.singleton_append, fieldsBy_cons_cons hc, fieldsBy_eq_nil h,
                fieldsBy_singleton hc]
      | cons d r =>
          rw [List.cons_append] at ih
          rw [List.cons_append, List.cons_append, fieldsBy_cons_cons hc, ih, fieldsBy_cons_cons hc]

theorem fieldsBy_ne_nil (h : p c = false) (r : List Char) : fieldsBy p (c :: r) ≠ [] := by
  cases r with
  | nil =>
      rw [fieldsBy_singleton h]
      exact List.cons_ne_nil [c] []
  | cons d r =>
      rw [fieldsBy_cons_cons h]
      split
      · split <;> exact List.cons_ne_nil _ _
      · exact List.cons_ne_nil _ _

/-- The words of a text are those in front of a character of the class and those behind it. -/
theorem fieldsBy_append_cons (h : p c = true) (front back : List Char) :
    fieldsBy p (front ++ c :: back) = fieldsBy p front ++ fieldsBy p back := by
  induction front with
  | nil => exact fieldsBy_cons_of_pos h back
  | cons x front ih =>
      by_cases hx : p x = true
      · rw [List.cons_append, fieldsBy_cons_of_pos hx, fieldsBy_cons_of_pos hx, ih]
      rw [Bool.not_eq_true] at hx
      cases front with
      | nil =>
          rw [List.singleton_append, fieldsBy_cons_cons hx, fieldsBy_cons_of_pos h,
            fieldsBy_singleton hx]
          cases fieldsBy p back with
          | nil => rfl
          | cons f fs => exact if_pos h
      | cons y front =>
          rw [List.cons_append] at ih
          rw [List.cons_append, List.cons_append, fieldsBy_cons_cons hx, ih, fieldsBy_cons_cons hx]
          cases hfields : fieldsBy p (y :: front) with
          | nil =>
              have hy : p y = true := by
                by_contra hy
                exact fieldsBy_ne_nil (Bool.eq_false_iff.mpr hy) front hfields
              cases fieldsBy p back with
              | nil => rfl
              | cons f fs => exact if_pos hy
          | cons f fs =>
              dsimp only [List.cons_append]
              split <;> rfl

theorem flatten_fieldsBy (p : Char → Bool) (cs : List Char) :
    (fieldsBy p cs).flatten = cs.filter fun c => !p c := by
  induction cs with
  | nil => rfl
  | cons c cs ih =>
      cases hc : p c with
      | true =>
          rw [fieldsBy_cons_of_pos hc, ih, List.filter_cons_of_neg]
          rw [hc]
          decide
      | false =>
          rw [List.filter_cons_of_pos (by rw [hc]; rfl), ← ih]
          cases cs with
          | nil => rw [fieldsBy_singleton hc]; rfl
          | cons d cs =>
              rw [fieldsBy_cons_cons hc]
              cases fieldsBy p (d :: cs) with
              | nil => rfl
              | cons f fs => dsimp only; split <;> rfl

theorem exists_mem_fieldsBy {cs : List Char} (hc : c ∈ cs) (h : p c = false) :
    ∃ w ∈ fieldsBy p cs, c ∈ w := by
  apply List.mem_flatten.mp
  rw [flatten_fieldsBy]
  exact List.mem_filter.mpr ⟨hc, by rw [h]; rfl⟩

/-- The characters of words are those of the text that lie outside the class. -/
theorem mem_of_mem_fieldsBy {cs w : List Char} (hw : w ∈ fieldsBy p cs) (hc : c ∈ w) :
    c ∈ cs ∧ p c = false := by
  have hmem : c ∈ cs.filter fun c => !p c :=
    flatten_fieldsBy p cs ▸ List.mem_flatten.mpr ⟨w, hw, hc⟩
  rwa [List.mem_filter, Bool.not_eq_true'] at hmem

theorem ne_nil_of_mem_fieldsBy {cs w : List Char} (hw : w ∈ fieldsBy p cs) : w ≠ [] := by
  induction cs generalizing w with
  | nil => cases hw
  | cons c cs ih =>
      cases hc : p c with
      | true => exact ih (fieldsBy_cons_of_pos hc cs ▸ hw)
      | false =>
          cases cs with
          | nil =>
              rw [fieldsBy_singleton hc, List.mem_singleton] at hw
              exact hw ▸ List.cons_ne_nil c []
          | cons d cs =>
              rw [fieldsBy_cons_cons hc] at hw
              cases hfields : fieldsBy p (d :: cs) with
              | nil =>
                  rw [hfields, List.mem_singleton] at hw
                  exact hw ▸ List.cons_ne_nil c []
              | cons f fs =>
                  rw [hfields] at hw ih
                  dsimp only at hw
                  split at hw
                  · rcases List.mem_cons.mp hw with rfl | hw
                    · exact List.cons_ne_nil c []
                    · exact ih hw
                  · rcases List.mem_cons.mp hw with rfl | hw
                    · exact List.cons_ne_nil c f
                    · exact ih (List.mem_cons_of_mem f hw)

/-- A word goes on to the left up to a character of the class. -/
theorem exists_fieldsBy_append_word {w : List Char} (hne : w ≠ []) (hw : ∀ c ∈ w, p c = false)
    (front : List Char) : ∃ ws more, fieldsBy p (front ++ w) = ws ++ [more ++ w] ∧
      more <:+ front ∧ (more = [] → ∀ c ∈ front.getLast?, p c = true) ∧
      ∀ v ∈ ws, ∀ c ∈ v, c ∈ front := by
  induction front using List.reverseRecOn generalizing w with
  | nil => exact ⟨[], [], fieldsBy_eq_singleton hne hw, List.suffix_rfl, by simp, by simp⟩
  | append_singleton front c ih =>
      rw [List.append_assoc, List.singleton_append]
      cases hc : p c with
      | true =>
          refine ⟨fieldsBy p front, [], ?_, List.nil_suffix, ?_, ?_⟩
          · rw [fieldsBy_append_cons hc, fieldsBy_eq_singleton hne hw, List.nil_append]
          · simp [hc]
          · exact fun v hv x hx => List.mem_append_left [c] (mem_of_mem_fieldsBy hv hx).1
      | false =>
          obtain ⟨ws, more, hfields, hmore, _, hws⟩ :=
            ih (List.cons_ne_nil c w) (List.forall_mem_cons.mpr ⟨hc, hw⟩)
          refine ⟨ws, more ++ [c], ?_, ?_, ?_, ?_⟩
          · rw [hfields, List.append_assoc, List.singleton_append]
          · obtain ⟨rest, rfl⟩ := hmore
            exact ⟨rest, by simp⟩
          · simp
          · exact fun v hv x hx => List.mem_append_left [c] (hws v hv x hx)

/-- A word goes on to the right up to a character of the class. -/
theorem exists_fieldsBy_word_append {w : List Char} (hne : w ≠ []) (hw : ∀ c ∈ w, p c = false)
    (back : List Char) : ∃ more ws, fieldsBy p (w ++ back) = (w ++ more) :: ws ∧
      (∀ c ∈ more, c ∈ back) ∧ ∀ v ∈ ws, ∀ c ∈ v, c ∈ back := by
  induction back generalizing w with
  | nil =>
      rw [List.append_nil]
      exact ⟨[], [], by rw [fieldsBy_eq_singleton hne hw, List.append_nil], by simp, by simp⟩
  | cons c back ih =>
      cases hc : p c with
      | true =>
          refine ⟨[], fieldsBy p back, ?_, by simp, ?_⟩
          · rw [fieldsBy_append_cons hc, fieldsBy_eq_singleton hne hw, List.append_nil]
            rfl
          · exact fun v hv x hx => List.mem_cons_of_mem c (mem_of_mem_fieldsBy hv hx).1
      | false =>
          have hword : ∀ x ∈ w ++ [c], p x = false := by
            intro x hx
            rcases List.mem_append.mp hx with hx | hx
            · exact hw x hx
            · exact List.mem_singleton.mp hx ▸ hc
          obtain ⟨more, ws, hfields, hmore, hws⟩ :=
            ih (List.append_ne_nil_of_left_ne_nil hne [c]) hword
          refine ⟨c :: more, ws, ?_, ?_, ?_⟩
          · rw [← List.singleton_append, ← List.append_assoc, hfields, List.append_assoc]
            rfl
          · intro x hx
            rcases List.mem_cons.mp hx with rfl | hx
            · exact List.mem_cons_self
            · exact List.mem_cons_of_mem c (hmore x hx)
          · exact fun v hv x hx => List.mem_cons_of_mem c (hws v hv x hx)

theorem fieldsBy_append_gap {gap : List Char} (hne : gap ≠ []) (hgap : ∀ c ∈ gap, p c = true)
    (front back : List Char) :
    fieldsBy p (front ++ (gap ++ back)) = fieldsBy p front ++ fieldsBy p back := by
  obtain ⟨c, gap, rfl⟩ := List.exists_cons_of_ne_nil hne
  rw [List.cons_append, fieldsBy_append_cons (hgap c List.mem_cons_self),
    fieldsBy_append_left fun x hx => hgap x (List.mem_cons_of_mem c hx)]

/-- Three words in a text: the first may go on to the left and the last to the right. -/
theorem exists_fieldsBy_three {u v w gap gap' : List Char} (hu : u ≠ [] ∧ ∀ c ∈ u, p c = false)
    (hv : v ≠ [] ∧ ∀ c ∈ v, p c = false) (hw : w ≠ [] ∧ ∀ c ∈ w, p c = false)
    (hgap : gap ≠ [] ∧ ∀ c ∈ gap, p c = true) (hgap' : gap' ≠ [] ∧ ∀ c ∈ gap', p c = true)
    (front back : List Char) : ∃ us left right vs,
      fieldsBy p (front ++ (u ++ (gap ++ (v ++ (gap' ++ (w ++ back)))))) =
        us ++ ([left ++ u, v, w ++ right] ++ vs) ∧
      left <:+ front ∧ (left = [] → ∀ c ∈ front.getLast?, p c = true) ∧ (∀ c ∈ right, c ∈ back) ∧
      (∀ x ∈ us, ∀ c ∈ x, c ∈ front) ∧ ∀ x ∈ vs, ∀ c ∈ x, c ∈ back := by
  obtain ⟨us, left, hfront, hleft, hend, hus⟩ := exists_fieldsBy_append_word hu.1 hu.2 front
  obtain ⟨right, vs, hback, hright, hvs⟩ := exists_fieldsBy_word_append hw.1 hw.2 back
  refine ⟨us, left, right, vs, ?_, hleft, hend, hright, hus, hvs⟩
  rw [← List.append_assoc, fieldsBy_append_gap hgap.1 hgap.2, fieldsBy_append_gap hgap'.1 hgap'.2,
    hfront, hback, fieldsBy_eq_singleton hv.1 hv.2]
  simp

theorem stripBy_eq_self {cs : List Char} (h : ∀ c ∈ cs, p c = false) : stripBy p cs = cs := by
  have hkeep : ∀ ds : List Char, (∀ c ∈ ds, p c = false) → ds.dropWhile p = ds := by
    intro ds hds
    cases ds with
    | nil => rfl
    | cons d ds => rw [List.dropWhile_cons, hds d List.mem_cons_self, if_neg Bool.false_ne_true]
  rw [stripBy, hkeep cs h, hkeep cs.reverse fun c hc => h c (List.mem_reverse.mp hc),
    List.reverse_reverse]

theorem mem_intercalate {mark w : List Char} {ws : List (List Char)} (hw : w ∈ ws) (hc : c ∈ w) :
    c ∈ mark.intercalate ws := by
  induction ws with
  | nil => cases hw
  | cons v ws ih =>
      cases ws with
      | nil =>
          rw [List.intercalate_singleton, ← List.mem_singleton.mp hw]
          exact hc
      | cons u ws =>
          rw [List.intercalate_cons_cons]
          rcases List.mem_cons.mp hw with rfl | hw
          · exact List.mem_append_left _ (List.mem_append_left _ hc)
          · exact List.mem_append_right _ (ih hw)

/-! ## Cutting off at the ends -/

theorem dropWhile_eq_self {cs : List Char} (h : ∀ c ∈ cs.head?, p c = false) :
    cs.dropWhile p = cs := by
  cases cs with
  | nil => rfl
  | cons c cs => rw [List.dropWhile_cons, h c rfl, if_neg Bool.false_ne_true]

theorem takeWhile_append_eq {cs rest : List Char} (h : ∀ c ∈ cs, p c = true)
    (hrest : ∀ c ∈ rest.head?, p c = false) : (cs ++ rest).takeWhile p = cs := by
  have hstop : rest.takeWhile p = [] := by
    cases rest with
    | nil => rfl
    | cons c rest => rw [List.takeWhile_cons, hrest c rfl, if_neg Bool.false_ne_true]
  rw [List.takeWhile_append_of_pos h, hstop, List.append_nil]

/-- Where the characters of a class end, in front of one that is not of it, the text is cut. -/
theorem front_eq_of_append_eq {front front' back back' : List Char}
    (hfront : ∀ c ∈ front, p c = true) (hfront' : ∀ c ∈ front', p c = true)
    (hback : ∀ c ∈ back.head?, p c = false) (hback' : ∀ c ∈ back'.head?, p c = false)
    (h : front ++ back = front' ++ back') : front = front' := by
  rw [← takeWhile_append_eq hfront hback, h, takeWhile_append_eq hfront' hback']

/-- Where the characters of a class begin, behind one that is not of it, the text is cut. -/
theorem back_eq_of_append_eq {front front' back back' : List Char}
    (hback : ∀ c ∈ back, p c = true) (hback' : ∀ c ∈ back', p c = true)
    (hfront : ∀ c ∈ front.getLast?, p c = false) (hfront' : ∀ c ∈ front'.getLast?, p c = false)
    (h : front ++ back = front' ++ back') : back = back' := by
  have hreverse := congrArg List.reverse h
  rw [List.reverse_append, List.reverse_append] at hreverse
  rw [← List.head?_reverse] at hfront hfront'
  apply List.reverse_inj.mp
  apply front_eq_of_append_eq _ _ hfront hfront' hreverse
  · exact fun c hc => hback c (List.mem_reverse.mp hc)
  · exact fun c hc => hback' c (List.mem_reverse.mp hc)

theorem head?_dropWhile (cs : List Char) : ∀ c ∈ (cs.dropWhile p).head?, p c = false := by
  intro c hc
  have hhead := List.head?_dropWhile_not p cs
  rwa [hc] at hhead

/-- What is left when the ends are cut off begins and ends outside the class. -/
theorem exists_stripBy (p : Char → Bool) (cs : List Char) : ∃ front back,
    cs = front ++ (stripBy p cs ++ back) ∧
      (∀ c ∈ front, p c = true) ∧ (∀ c ∈ back, p c = true) ∧
      (∀ c ∈ (stripBy p cs).head?, p c = false) ∧
      (∀ c ∈ (stripBy p cs).getLast?, p c = false) := by
  set rest := cs.dropWhile p with hrest
  set back := (rest.reverse.takeWhile p).reverse
  have hsplit : rest = stripBy p cs ++ back := by
    rw [stripBy, ← hrest, ← List.reverse_append, List.takeWhile_append_dropWhile,
      List.reverse_reverse]
  refine ⟨cs.takeWhile p, back, ?_, ?_, ?_, ?_, ?_⟩
  · rw [← hsplit]
    exact List.takeWhile_append_dropWhile.symm
  · exact fun c hc => List.mem_takeWhile_imp hc
  · exact fun c hc => List.mem_takeWhile_imp (List.mem_reverse.mp hc)
  · intro c hc
    apply head?_dropWhile cs
    rw [← hrest, hsplit]
    rw [List.head?_append, hc]
    rfl
  · intro c hc
    rw [stripBy, List.getLast?_reverse] at hc
    exact head?_dropWhile _ c hc

theorem stripBy_append {front cs back : List Char} (hfront : ∀ c ∈ front, p c = true)
    (hback : ∀ c ∈ back, p c = true) (hhead : ∀ c ∈ cs.head?, p c = false)
    (hlast : ∀ c ∈ cs.getLast?, p c = false) : stripBy p (front ++ (cs ++ back)) = cs := by
  have hback' : ∀ c ∈ back.reverse, p c = true := fun c hc => hback c (List.mem_reverse.mp hc)
  have hlast' : ∀ c ∈ cs.reverse.head?, p c = false := by rwa [List.head?_reverse]
  rw [stripBy, List.dropWhile_append_of_pos hfront]
  cases cs with
  | nil =>
      rw [List.nil_append, List.dropWhile_eq_nil_iff.mpr hback]
      rfl
  | cons c cs =>
      have hkept : (c :: cs ++ back).dropWhile p = c :: cs ++ back := dropWhile_eq_self hhead
      rw [hkept, List.reverse_append,
        List.dropWhile_append_of_pos hback', dropWhile_eq_self hlast', List.reverse_reverse]

/-- Cutting off at the ends leaves a part that begins and ends outside the class as it is. -/
theorem exists_stripBy_append {core : List Char} (hne : core ≠ [])
    (hhead : ∀ c ∈ core.head?, p c = false) (hlast : ∀ c ∈ core.getLast?, p c = false)
    (before after : List Char) : ∃ back, back <+: after ∧
      stripBy p (before ++ (core ++ after)) = before.dropWhile p ++ (core ++ back) := by
  obtain ⟨c, rest, rfl⟩ := List.exists_cons_of_ne_nil hne
  -- `back` is what stays of the end: all of it but the characters of the class that end it
  set back := (after.reverse.dropWhile p).reverse with hback
  have hsplit : after = back ++ (after.reverse.takeWhile p).reverse := by
    rw [hback, ← List.reverse_append, List.takeWhile_append_dropWhile, List.reverse_reverse]
  refine ⟨back, ⟨_, hsplit.symm⟩, ?_⟩
  have htext : before ++ (c :: rest ++ after) = before.takeWhile p ++
      ((before.dropWhile p ++ (c :: rest ++ back)) ++ (after.reverse.takeWhile p).reverse) := by
    conv => lhs; rw [← List.takeWhile_append_dropWhile (p := p) (l := before), hsplit]
    simp only [List.append_assoc]
  rw [htext]
  apply stripBy_append
  · exact fun x hx => List.mem_takeWhile_imp hx
  · exact fun x hx => List.mem_takeWhile_imp (List.mem_reverse.mp hx)
  · intro x hx
    rw [List.head?_append] at hx
    cases hfront : (before.dropWhile p).head? with
    | none =>
        rw [hfront] at hx
        exact hhead x hx
    | some y =>
        rw [hfront] at hx
        exact head?_dropWhile before x (hfront ▸ hx)
  · intro x hx
    rw [← List.append_assoc, List.getLast?_append] at hx
    cases hend : back.getLast? with
    | none =>
        rw [hend, Option.none_or, List.getLast?_append] at hx
        cases hcore : (c :: rest).getLast? with
        | none => exact absurd (List.getLast?_eq_none_iff.mp hcore) hne
        | some z =>
            rw [hcore] at hx
            exact hlast x (hcore ▸ hx)
    | some y =>
        rw [hend] at hx
        rw [hback, List.getLast?_reverse] at hend
        exact head?_dropWhile after.reverse x (hend ▸ hx)

theorem fieldsBy_stripBy (cs : List Char) : fieldsBy p (stripBy p cs) = fieldsBy p cs := by
  obtain ⟨front, back, hsplit, hfront, hback, _⟩ := exists_stripBy p cs
  calc
    fieldsBy p (stripBy p cs)
      = fieldsBy p (stripBy p cs ++ back) := (fieldsBy_append_of_forall _ hback).symm
    _ = fieldsBy p (front ++ (stripBy p cs ++ back)) := (fieldsBy_append_left hfront _).symm
    _ = fieldsBy p cs := by rw [← hsplit]

end Harvest.Text
