import Harvest.Proofs.Schema.Names

/-!
# What the compiler accepts

A mapping is compiled to a rule just if each part of the rule is read from the value of one of its
names, the fields come from the listed or from the plain members, and no member is left over.
-/

namespace Harvest

/-! ## Values by name -/

namespace Members

variable {ms : Members} {k : String} {v : Json}

theorem get?_cons (m : String × Json) (ms : Members) (k : String) :
    Members.get? (m :: ms) k = if k = m.1 then some m.2 else ms.get? k := by
  obtain ⟨name, v⟩ := m
  rw [get?, List.lookup_cons]
  by_cases h : k = name
  · rw [if_pos h, beq_iff_eq.mpr h]
  · rw [if_neg h, beq_eq_false_iff_ne.mpr h]
    rfl

theorem get?_eq_none_iff : ms.get? k = none ↔ k ∉ ms.keys := by
  induction ms with
  | nil => simp [get?, keys]
  | cons m ms ih =>
      rw [get?_cons, keys, List.map_cons, List.mem_cons, not_or, ← keys, ← ih]
      by_cases h : k = m.1 <;> simp [h]

theorem exists_get? (h : k ∈ ms.keys) : ∃ v, ms.get? k = some v := by
  rw [← Option.isSome_iff_exists, Option.isSome_iff_ne_none]
  exact fun hnone => get?_eq_none_iff.mp hnone h

theorem mem_keys_of_get? (h : ms.get? k = some v) : k ∈ ms.keys := by
  by_contra hk
  rw [get?_eq_none_iff.mpr hk] at h
  cases h

theorem mem_of_get? (h : ms.get? k = some v) : (k, v) ∈ ms := by
  obtain ⟨before, after, rfl, _⟩ := List.lookup_eq_some_iff.mp h
  simp

/-- A name that is kept has the value that it had. -/
theorem get?_filter {keep : String → Bool} (h : keep k = true) :
    Members.get? (ms.filter fun m => keep m.1) k = ms.get? k := by
  induction ms with
  | nil => rfl
  | cons m ms ih =>
      rw [List.filter_cons, get?_cons]
      by_cases hk : k = m.1
      · rw [if_pos (hk ▸ h), get?_cons, if_pos hk, if_pos hk]
      · rw [if_neg hk, ← ih]
        split
        · rw [get?_cons, if_neg hk]
        · rfl

theorem get?_append_of_not_mem {ns : Members} (h : k ∉ ms.keys) :
    Members.get? (ms ++ ns) k = ns.get? k := by
  rw [get?, List.lookup_append, show ms.lookup k = none from get?_eq_none_iff.mpr h]
  rfl

end Members

namespace Form

variable {α : Type} {names : List String} {form : Json → Checked α} {ms : Members}

/-- The value of the first of several names that a mapping has. -/
def valueOf? (names : List String) (ms : Members) : Option Json := (firstOf? names ms).map (·.2)

theorem firstOf?_eq_some {k : String} {v : Json} (h : firstOf? names ms = some (k, v)) :
    k ∈ names ∧ ms.get? k = some v := by
  obtain ⟨name, hname, hget⟩ := List.exists_of_findSome?_eq_some h
  obtain ⟨w, hw, heq⟩ := Option.map_eq_some_iff.mp hget
  obtain ⟨rfl, rfl⟩ := Prod.mk.inj heq
  exact ⟨hname, hw⟩

theorem firstOf?_eq_none_iff : firstOf? names ms = none ↔ ∀ k ∈ names, ms.get? k = none := by
  simp [firstOf?, List.findSome?_eq_none_iff]

theorem valueOf?_eq_none_iff : valueOf? names ms = none ↔ ∀ k ∈ names, ms.get? k = none := by
  rw [valueOf?, Option.map_eq_none_iff, firstOf?_eq_none_iff]

/-- Where only one of several names can be there, it is the one that counts. -/
theorem firstOf?_eq {k : String} (hk : k ∈ names)
    (hothers : ∀ name ∈ names, name ≠ k → ms.get? name = none) :
    firstOf? names ms = (ms.get? k).map (k, ·) := by
  cases hfirst : firstOf? names ms with
  | none => rw [firstOf?_eq_none_iff.mp hfirst k hk]; rfl
  | some p =>
      obtain ⟨name, v⟩ := p
      obtain ⟨hname, hget⟩ := firstOf?_eq_some hfirst
      by_cases heq : name = k
      · rw [← heq, hget]; rfl
      · rw [hothers name hname heq] at hget
        cases hget

theorem valueOf?_eq_get? {k : String} (hk : k ∈ names)
    (hothers : ∀ name ∈ names, name ≠ k → ms.get? name = none) :
    valueOf? names ms = ms.get? k := by
  rw [valueOf?, firstOf?_eq hk hothers]
  cases ms.get? k <;> rfl

theorem required_eq_ok_iff {a : α} : required names form ms = .ok a ↔
    ∃ v, valueOf? names ms = some v ∧ form v = .ok a := by
  unfold required valueOf?
  cases firstOf? names ms with
  | none => simp
  | some p =>
      obtain ⟨name, v⟩ := p
      simp [Checked.under_eq_ok_iff]

theorem member_eq_ok_iff {default a : α} : member names form default ms = .ok a ↔
    (∃ v, valueOf? names ms = some v ∧ form v = .ok a) ∨
      (valueOf? names ms = none ∧ default = a) := by
  unfold member valueOf?
  cases firstOf? names ms with
  | none => simp
  | some p =>
      obtain ⟨name, v⟩ := p
      simp [Checked.under_eq_ok_iff]

end Form

/-! ## Mappings of rules -/

namespace Rule

open Form (valueOf?)

variable {ms ns : Members} {r : Rule} {h : RuleHead}

theorem headOf_eq_ok_iff : headOf ms = .ok h ↔
    Form.required selectorNames Selector.ofJson ms = .ok h.selector ∧
      Form.member forceArrayNames Form.truth false ms = .ok h.forceArray ∧
      Form.member removeSelectorNames (Form.optional Selector.ofJson) none ms =
        .ok h.removeSelector ∧
      Form.member transformNames Pipeline.ofJson .nothing ms = .ok h.transform ∧
      Form.member optionsNames Form.mapping [] ms = .ok h.options := by
  rw [headOf, Checked.map_eq_ok_iff]
  simp only [Checked.zip_eq_ok_iff]
  constructor
  · rintro ⟨⟨s, f, q, t, o⟩, hparts, rfl⟩
    exact hparts
  · intro hparts
    exact ⟨(h.selector, h.forceArray, h.removeSelector, h.transform, h.options), hparts, rfl⟩

/-- The head of a rule hangs on the values of its parts alone. -/
theorem headOf_congr (hvalues : ∀ names ∈ partNames, names ≠ fieldsNames →
      valueOf? names ms = valueOf? names ns) : headOf ms = .ok h ↔ headOf ns = .ok h := by
  simp only [headOf_eq_ok_iff, Form.required_eq_ok_iff, Form.member_eq_ok_iff]
  rw [hvalues selectorNames (by simp [partNames]) (by decide),
    hvalues forceArrayNames (by simp [partNames]) (by decide),
    hvalues removeSelectorNames (by simp [partNames]) (by decide),
    hvalues transformNames (by simp [partNames]) (by decide),
    hvalues optionsNames (by simp [partNames]) (by decide)]

/-- The members that are fields because the mapping has the older form. -/
def plainMembers (ms : Members) : Members :=
  if isOlderForm ms then ms.filter fun m => !isReserved m.1 else []

theorem mem_plainMembers {m : String × Json} :
    m ∈ plainMembers ms ↔ isOlderForm ms = true ∧ m ∈ ms ∧ isReserved m.1 = false := by
  unfold plainMembers
  split <;> simp_all

theorem length_ownMembers : (ownMembers ms).length < ms.length ↔ plainMembers ms ≠ [] := by
  unfold ownMembers plainMembers
  split
  · have hlength := List.length_filter_le (fun m : String × Json => isReserved m.1) ms
    have hiff : (ms.filter fun m => isReserved m.1).length = ms.length ↔
        ∀ m ∈ ms, isReserved m.1 = true := List.length_filter_eq_length_iff
    rw [Ne, List.filter_eq_nil_iff, show (∀ m ∈ ms, ¬ (!isReserved m.1) = true) ↔
      ∀ m ∈ ms, isReserved m.1 = true by simp, ← hiff]
    omega
  · simp

/-- The names of parts count in a mapping as in its own members, but where they name fields. -/
theorem get?_ownMembers {k : String} {v : Json} (hget : (ownMembers ms).get? k = some v) :
    ms.get? k = some v := by
  unfold ownMembers at hget
  split at hget
  · rw [← hget]
    have hmem := Members.mem_of_get? hget
    exact (Members.get?_filter (List.mem_filter.mp hmem).2).symm
  · exact hget

/-- The fields that the mapping of a rule gives. -/
def fieldsOfMap (ms : Members) : Checked (Option Schema) :=
  match Form.firstOf? fieldsNames (ownMembers ms) with
  | some (name, _) => (fieldsAt name ms).under (.key name)
  | none =>
    if (ownMembers ms).length < ms.length then
      ((fieldsOf (fun k => !isReserved k) ms).under (.key "_fields")).map some
    else .ok none

theorem ofJson_map_eq_ok_iff : ofJson (.map ms) = .ok r ↔ headOf (ownMembers ms) = .ok r.head ∧
    fieldsOfMap ms = .ok r.fields? ∧ noExtras (ownMembers ms) = .ok () := by
  rw [ofJson, assemble_eq_ok_iff]
  exact Iff.rfl

theorem ofJson_ne_ok_of_no_selector (hnone : valueOf? selectorNames (ownMembers ms) = none) :
    ofJson (.map ms) ≠ .ok r := by
  intro h
  obtain ⟨v, hv, _⟩ :=
    Form.required_eq_ok_iff.mp (headOf_eq_ok_iff.mp (ofJson_map_eq_ok_iff.mp h).1).1
  rw [hnone] at hv
  cases hv

theorem fieldsAt_eq {name : String} {v : Json} (hget : ms.get? name = some v) :
    fieldsAt name ms = fieldsIn v := by
  induction ms with
  | nil => cases hget
  | cons m ms ih =>
      obtain ⟨k, w⟩ := m
      rw [Members.get?_cons] at hget
      rw [fieldsAt]
      by_cases hk : k = name
      · rw [if_pos hk.symm] at hget
        obtain rfl := Option.some.inj hget
        rw [if_pos (beq_iff_eq.mpr hk)]
      · rw [if_neg (Ne.symm hk)] at hget
        rw [if_neg (by simpa using hk)]
        exact ih hget

/-- A rule is the one that a named value is compiled to, under the same name. -/
def IsField (m : String × Json) (q : String × Rule) : Prop := m.1 = q.1 ∧ ofJson m.2 = .ok q.2

theorem fieldsOf_eq_ok_iff {keep : String → Bool} {fs : Schema} : fieldsOf keep ms = .ok fs ↔
    List.Forall₂ IsField (ms.filter fun m => keep m.1) fs := by
  induction ms generalizing fs with
  | nil =>
      rw [fieldsOf, List.filter_nil, List.forall₂_nil_left_iff, Except.ok.injEq]
      exact eq_comm
  | cons m ms ih =>
      obtain ⟨k, v⟩ := m
      rw [fieldsOf, List.filter_cons]
      split
      · rw [Checked.map_eq_ok_iff]
        constructor
        · rintro ⟨⟨r, rs⟩, hzip, rfl⟩
          obtain ⟨hr, hrs⟩ := Checked.zip_eq_ok_iff.mp hzip
          exact .cons ⟨rfl, Checked.under_eq_ok_iff.mp hr⟩ (ih.mp hrs)
        · rintro (_ | ⟨⟨rfl, hr⟩, hrs⟩)
          exact ⟨(_, _), Checked.zip_eq_ok_iff.mpr
            ⟨Checked.under_eq_ok_iff.mpr hr, ih.mpr hrs⟩, rfl⟩
      · exact ih

theorem fieldsIn_eq_ok_iff {v : Json} {fs : Option Schema} : fieldsIn v = .ok fs ↔
    (v = .null ∧ fs = none) ∨ ∃ ns qs, v = .map ns ∧ fs = some qs ∧ List.Forall₂ IsField ns qs := by
  cases v with
  | null => simp [fieldsIn, eq_comm]
  | map ns =>
      rw [fieldsIn, Checked.map_eq_ok_iff]
      simp only [fieldsOf_eq_ok_iff, List.filter_true]
      constructor
      · rintro ⟨qs, hqs, rfl⟩
        exact Or.inr ⟨ns, qs, rfl, rfl, hqs⟩
      · rintro (⟨h, _⟩ | ⟨_, qs, h, rfl, hqs⟩)
        · cases h
        · cases h
          exact ⟨qs, hqs, rfl⟩
  | _ => simp [fieldsIn, Checked.refuse]

/-- Listed fields are the fields of the rule, whatever plain members stand beside them. -/
theorem fieldsOfMap_of_listed {v : Json} {fs : Option Schema}
    (hv : valueOf? fieldsNames (ownMembers ms) = some v) :
    fieldsOfMap ms = .ok fs ↔ fieldsIn v = .ok fs := by
  obtain ⟨⟨name, w⟩, hfirst, rfl⟩ := Option.map_eq_some_iff.mp hv
  obtain ⟨_, hget⟩ := Form.firstOf?_eq_some hfirst
  rw [fieldsOfMap, hfirst]
  dsimp only
  rw [Checked.under_eq_ok_iff, fieldsAt_eq (get?_ownMembers hget)]

/-- Without listed fields the plain members are the fields of the rule, if there are any. -/
theorem fieldsOfMap_of_not_listed {fs : Option Schema}
    (hnone : valueOf? fieldsNames (ownMembers ms) = none) :
    fieldsOfMap ms = .ok fs ↔
      (plainMembers ms = [] ∧ fs = none) ∨
        (plainMembers ms ≠ [] ∧
          ∃ qs, fs = some qs ∧ List.Forall₂ IsField (plainMembers ms) qs) := by
  rw [fieldsOfMap, Option.map_eq_none_iff.mp hnone]
  dsimp only
  by_cases hplain : plainMembers ms = []
  · rw [if_neg (by rw [length_ownMembers]; exact not_not_intro hplain), Except.ok.injEq]
    simp [hplain, eq_comm]
  · have hfilter : plainMembers ms = ms.filter fun m => !isReserved m.1 := by
      unfold plainMembers at hplain ⊢
      split at hplain
      · rw [if_pos ‹_›]
      · exact (hplain rfl).elim
    rw [if_pos (length_ownMembers.mpr hplain), Checked.map_eq_ok_iff]
    simp only [Checked.under_eq_ok_iff, fieldsOf_eq_ok_iff, ← hfilter]
    constructor
    · rintro ⟨qs, hqs, rfl⟩
      exact Or.inr ⟨hplain, qs, rfl, hqs⟩
    · rintro (⟨h, _⟩ | ⟨_, qs, rfl, hqs⟩)
      · exact (hplain h).elim
      · exact ⟨qs, hqs, rfl⟩

/-! ## Members that are left over -/

theorem mem_usedNames {k : String} :
    k ∈ usedNames ms ↔ ∃ names ∈ partNames, ∃ v, Form.firstOf? names ms = some (k, v) := by
  simp [usedNames, List.mem_filterMap]

theorem noExtras_eq_ok_iff : noExtras ms = .ok () ↔ ∀ k ∈ ms.keys, k ∈ usedNames ms := by
  have hiff : (ms.keys.filter fun k => !(usedNames ms).contains k) = [] ↔
      ∀ k ∈ ms.keys, k ∈ usedNames ms := by simp [List.filter_eq_nil_iff]
  rw [← hiff, noExtras]
  cases ms.keys.filter fun k => !(usedNames ms).contains k <;> simp

/-- No member is left over where each one names a part that no other one names. -/
theorem noExtras_of_alone (h : ∀ k ∈ ms.keys, ∃ names ∈ partNames, k ∈ names ∧
      ∀ name ∈ names, name ≠ k → ms.get? name = none) : noExtras ms = .ok () := by
  rw [noExtras_eq_ok_iff]
  intro k hk
  obtain ⟨names, hnames, hmem, hothers⟩ := h k hk
  obtain ⟨v, hv⟩ := Members.exists_get? hk
  refine mem_usedNames.mpr ⟨names, hnames, v, ?_⟩
  rw [Form.firstOf?_eq hmem hothers, hv]
  rfl

end Rule

/-- A schema is compiled to the rules of its values, in order. -/
theorem Schema.ofMembers_eq_ok_iff {ms : Members} {s : Schema} :
    ofMembers ms = .ok s ↔ List.Forall₂ Rule.IsField ms s := by
  induction ms generalizing s with
  | nil =>
      rw [ofMembers, List.forall₂_nil_left_iff, Except.ok.injEq]
      exact eq_comm
  | cons m ms ih =>
      obtain ⟨name, v⟩ := m
      rw [ofMembers]
      constructor
      · intro h
        split at h
        · cases h
        · rename_i r hr
          split at h
          · cases h
          · rename_i rs hrs
            obtain rfl := Except.ok.inj h
            exact .cons ⟨rfl, hr⟩ (ih.mp hrs)
      · rintro (_ | ⟨⟨rfl, hr⟩, hrest⟩)
        rw [hr, ih.mpr hrest]

end Harvest
