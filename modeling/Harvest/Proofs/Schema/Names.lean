import Harvest.Schema.Compile
import Mathlib.Data.List.Nodup

/-!
# Names of fields

A schema that is compiled from mappings in which no key stands twice has no two fields of one name
beside each other, at any depth.
-/

namespace Harvest

namespace Json

mutual

/-- Whether no mapping in a value has a key twice. -/
def Distinct : Json → Prop
  | .list xs => DistinctItems xs
  | .map ms => (ms.map (·.1)).Nodup ∧ DistinctMembers ms
  | _ => True

def DistinctItems : List Json → Prop
  | [] => True
  | x :: xs => x.Distinct ∧ DistinctItems xs

def DistinctMembers : List (String × Json) → Prop
  | [] => True
  | (_, v) :: ms => v.Distinct ∧ DistinctMembers ms

end

end Json

/-- The names of the fields of a rule. -/
def Rule.fieldNames (r : Rule) : List String := (r.fields?.getD []).map (·.1)

namespace Schema

/-- Whether no two fields beside each other have the same name, at any depth. -/
def Distinct (s : Schema) : Prop := (s.map (·.1)).Nodup ∧ ∀ r ∈ s.rules, r.fieldNames.Nodup

instance (s : Schema) : Decidable s.Distinct := by unfold Distinct; infer_instance

variable {name : String} {rule : Rule} {s : Schema}

theorem Distinct.rest (h : Distinct ((name, rule) :: s)) : s.Distinct :=
  ⟨(List.nodup_cons.mp h.1).2, fun r hr => h.2 r (List.mem_append_right _ hr)⟩

theorem Distinct.notMem (h : Distinct ((name, rule) :: s)) : name ∉ s.map (·.1) :=
  (List.nodup_cons.mp h.1).1

theorem Distinct.of_rule {fields : Schema} (h : ∀ r ∈ rule.all, r.fieldNames.Nodup)
    (hfields : rule.fields? = some fields) : fields.Distinct := by
  cases rule with
  | leaf head => cases hfields
  | nested head fs =>
      obtain rfl := Option.some.inj hfields
      constructor
      · exact h _ List.mem_cons_self
      · intro r hr
        exact h r (List.mem_cons_of_mem _ hr)

theorem Distinct.nested {fields : Schema} (h : Distinct ((name, rule) :: s))
    (hfields : rule.fields? = some fields) : fields.Distinct :=
  .of_rule (fun r hr => h.2 r (List.mem_append_left _ hr)) hfields

end Schema

/-! ## Compiling -/

namespace Checked

variable {α β : Type}

theorem zip_eq_ok_iff {a : Checked α} {b : Checked β} {p : α × β} :
    a.zip b = .ok p ↔ a = .ok p.1 ∧ b = .ok p.2 := by
  obtain ⟨x, y⟩ := p
  cases a with
  | error is => cases b <;> simp [zip]
  | ok x' =>
      cases b with
      | error is => simp [zip]
      | ok y' => simp [zip]

theorem map_eq_ok_iff {a : Checked α} {f : α → β} {y : β} :
    a.map f = .ok y ↔ ∃ x, a = .ok x ∧ f x = y := by
  cases a with
  | error is => simp [Except.map]
  | ok x => simp [Except.map]

theorem under_eq_ok_iff {a : Checked α} {step : Step} {x : α} :
    a.under step = .ok x ↔ a = .ok x := by
  cases a with
  | error is => simp [under, Except.mapError]
  | ok y => rfl

end Checked

namespace Rule

theorem assemble_eq_ok_iff {head : Checked RuleHead} {fields : Checked (Option Schema)}
    {extras : Checked Unit} {r : Rule} : assemble head fields extras = .ok r ↔
      head = .ok r.head ∧ fields = .ok r.fields? ∧ extras = .ok () := by
  rw [assemble, Checked.map_eq_ok_iff]
  constructor
  · rintro ⟨⟨h, fs, u⟩, hzip, rfl⟩
    obtain ⟨hhead, hrest⟩ := Checked.zip_eq_ok_iff.mp hzip
    obtain ⟨hfields, hextras⟩ := Checked.zip_eq_ok_iff.mp hrest
    cases fs <;> exact ⟨hhead, hfields, hextras⟩
  · rintro ⟨hhead, hfields, hextras⟩
    refine ⟨(r.head, r.fields?, ()), ?_, ?_⟩
    · exact Checked.zip_eq_ok_iff.mpr ⟨hhead, Checked.zip_eq_ok_iff.mpr ⟨hfields, hextras⟩⟩
    · cases r <;> rfl

theorem fieldNames_of_fields? {r : Rule} (h : ∀ fs, r.fields? = some fs → Schema.Distinct fs) :
    ∀ q ∈ r.all, q.fieldNames.Nodup := by
  intro q hq
  cases r with
  | leaf head =>
      obtain rfl := List.mem_singleton.mp hq
      exact List.nodup_nil
  | nested head fs =>
      obtain ⟨hnames, hrules⟩ := h fs rfl
      obtain rfl | hq := List.mem_cons.mp hq
      · exact hnames
      · exact hrules q hq

mutual

theorem fieldNames_of_ofJson : ∀ (v : Json), v.Distinct → ∀ r, ofJson v = .ok r →
    ∀ q ∈ r.all, q.fieldNames.Nodup
  | .str s, _, r, h => by
      refine fieldNames_of_fields? fun fs hfs => ?_
      rw [ofJson] at h
      have hnone := (assemble_eq_ok_iff.mp h).2.1
      rw [hfs] at hnone
      cases hnone
  | .map ms, hms, r, h => by
      refine fieldNames_of_fields? fun fs hfs => ?_
      rw [ofJson] at h
      have hfields := (assemble_eq_ok_iff.mp h).2.1
      rw [hfs] at hfields
      split at hfields
      · rename_i name _ _
        exact distinct_of_fieldsAt name ms hms.2 fs (Checked.under_eq_ok_iff.mp hfields)
      · split at hfields
        · obtain ⟨fs', hfs', heq⟩ := Checked.map_eq_ok_iff.mp hfields
          obtain rfl := Option.some.inj heq
          obtain ⟨hsub, hrules⟩ :=
            sublist_of_fieldsOf _ ms hms.2 fs' (Checked.under_eq_ok_iff.mp hfs')
          exact ⟨hsub.nodup hms.1, hrules⟩
        · cases hfields
  | .null, _, _, h => by cases h
  | .bool _, _, _, h => by cases h
  | .int _, _, _, h => by cases h
  | .float _, _, _, h => by cases h
  | .list _, _, _, h => by cases h

theorem distinct_of_fieldsAt (name : String) : ∀ (ms : List (String × Json)),
    Json.DistinctMembers ms → ∀ fs, fieldsAt name ms = .ok (some fs) → Schema.Distinct fs
  | [], _, _, h => by cases h
  | (k, v) :: ms, hms, fs, h => by
      rw [fieldsAt] at h
      split at h
      · exact distinct_of_fieldsIn v hms.1 fs h
      · exact distinct_of_fieldsAt name ms hms.2 fs h

theorem distinct_of_fieldsIn : ∀ (v : Json), v.Distinct → ∀ fs, fieldsIn v = .ok (some fs) →
    Schema.Distinct fs
  | .null, _, _, h => by cases h
  | .map ms, hms, fs, h => by
      obtain ⟨fs', hfs', heq⟩ := Checked.map_eq_ok_iff.mp h
      obtain rfl := Option.some.inj heq
      obtain ⟨hsub, hrules⟩ := sublist_of_fieldsOf _ ms hms.2 fs' hfs'
      exact ⟨hsub.nodup hms.1, hrules⟩
  | .str _, _, _, h => by cases h
  | .bool _, _, _, h => by cases h
  | .int _, _, _, h => by cases h
  | .float _, _, _, h => by cases h
  | .list _, _, _, h => by cases h

theorem sublist_of_fieldsOf (keep : String → Bool) : ∀ (ms : List (String × Json)),
    Json.DistinctMembers ms → ∀ fs, fieldsOf keep ms = .ok fs →
      (fs.map (·.1)).Sublist (ms.map (·.1)) ∧ ∀ r ∈ allOf fs, r.fieldNames.Nodup
  | [], _, fs, h => by
      obtain rfl := Except.ok.inj h
      exact ⟨.slnil, by simp [allOf]⟩
  | (k, v) :: ms, hms, fs, h => by
      rw [fieldsOf] at h
      split at h
      · obtain ⟨⟨r, rs⟩, hzip, rfl⟩ := Checked.map_eq_ok_iff.mp h
        obtain ⟨hr, hrs⟩ := Checked.zip_eq_ok_iff.mp hzip
        obtain ⟨hsub, hrules⟩ := sublist_of_fieldsOf keep ms hms.2 rs hrs
        refine ⟨hsub.cons_cons k, fun q hq => ?_⟩
        obtain hq | hq := List.mem_append.mp hq
        · exact fieldNames_of_ofJson v hms.1 r (Checked.under_eq_ok_iff.mp hr) q hq
        · exact hrules q hq
      · obtain ⟨hsub, hrules⟩ := sublist_of_fieldsOf keep ms hms.2 fs h
        exact ⟨hsub.cons k, hrules⟩

end

end Rule

namespace Schema

theorem names_ofMembers {ms : Members} {s : Schema} (h : ofMembers ms = .ok s) :
    s.map (·.1) = ms.map (·.1) ∧
      (Json.DistinctMembers ms → ∀ r ∈ s.rules, r.fieldNames.Nodup) := by
  induction ms generalizing s with
  | nil =>
      obtain rfl := Except.ok.inj h
      exact ⟨rfl, fun _ r hr => by cases hr⟩
  | cons member ms ih =>
      obtain ⟨name, v⟩ := member
      rw [ofMembers] at h
      split at h
      · cases h
      · rename_i r hr
        split at h
        · cases h
        · rename_i rs hrs
          obtain rfl := Except.ok.inj h
          obtain ⟨hnames, hrules⟩ := ih hrs
          constructor
          · rw [List.map_cons, List.map_cons, hnames]
          · rintro ⟨hv, hms⟩ q hq
            obtain hq | hq := List.mem_append.mp hq
            · exact Rule.fieldNames_of_ofJson v hv r hr q hq
            · exact hrules hms q hq

/-- Where no mapping has a key twice, no two fields of the compiled schema have the same name. -/
theorem distinct_of_compile {raw : Json} {s : Schema} (hraw : raw.Distinct)
    (h : compile raw = .ok s) : s.Distinct := by
  cases raw with
  | map ms =>
      obtain ⟨hkeys, hms⟩ := hraw
      obtain ⟨hnames, hrules⟩ := names_ofMembers h
      refine ⟨?_, hrules hms⟩
      rw [hnames]
      exact hkeys
  | _ => cases h

end Schema

end Harvest
