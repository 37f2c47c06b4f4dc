import Harvest.Proofs.Extract.Run
import Harvest.Proofs.Schema.Compiled

/-!
# The older form of a schema

A rule in the newer form is rewritten to the older form by other names for its parts and by its
fields as plain members, at every depth.  Both forms are compiled to the same rules, or neither is
accepted.
-/

namespace Harvest

open Markup (Source)

/-- The names of parts in the newer form, with their names in the older one. -/
def Rule.olderNames : List (String × String) :=
  [("selector", "_xpath"), ("forceArray", "_forceArray"), ("removeSelector", "_removeXPath"),
    ("transform", "_transformations"), ("options", "_options")]

namespace Json

open Rule (olderNames isReserved)

/-! ## Both forms -/

mutual

/-- The older form of a rule in the newer form. -/
def older : Json → Json
  | .map ms => .map (olderMembers ms)
  | v => v

def olderMembers : List (String × Json) → Members
  | [] => []
  | (k, v) :: ms =>
    if k = "fields" then plainFields v ++ olderMembers ms
    else ((olderNames.lookup k).getD k, v) :: olderMembers ms

/-- The fields in a value, as members of their own. -/
def plainFields : Json → Members
  | .map fs => olderFields fs
  | _ => []

def olderFields : List (String × Json) → Members
  | [] => []
  | (name, v) :: fs => (name, older v) :: olderFields fs

end

mutual

/-- Whether a value is a rule in the newer form: a mapping with nothing but parts by their newer
names, in which fields are a mapping that is not empty and no field is named like a part of the
older form.  Where the selector is missing, nothing in the older form may pass for it.  What is no
mapping is the same in both forms. -/
def Newer : Json → Prop
  | .map ms => (ms.map (·.1)).Nodup ∧
    ("selector" ∈ ms.map (·.1) ∨ ∀ k ∈ (olderMembers ms).map (·.1), k ∉ Rule.selectorNames) ∧
    NewerMembers ms
  | _ => True

def NewerMembers : List (String × Json) → Prop
  | [] => True
  | (k, v) :: ms =>
    (k ∈ olderNames.map (·.1) ∨ k = "fields" ∧ NewerFieldsIn v) ∧ NewerMembers ms

/-- Whether a value can be the fields of a rule in the newer form. -/
def NewerFieldsIn : Json → Prop
  | .null => True
  | .map fs => fs ≠ [] ∧ (∀ name ∈ fs.map (·.1), isReserved name = false) ∧ NewerFields fs
  | _ => False

/-- Whether all values are rules in the newer form. -/
def NewerFields : List (String × Json) → Prop
  | [] => True
  | (_, v) :: fs => Newer v ∧ NewerFields fs

end

/-! ## Names of members -/

variable {ms : Members} {k o : String} {v : Json}

theorem map_fst_olderFields : ∀ fs : Members, (olderFields fs).map (·.1) = fs.map (·.1)
  | [] => rfl
  | (name, v) :: fs => by rw [olderFields, List.map_cons, List.map_cons, map_fst_olderFields fs]

theorem isReserved_of_mem_plainFields (h : NewerFieldsIn v) :
    ∀ m ∈ plainFields v, isReserved m.1 = false := by
  intro m hm
  cases v with
  | map fs =>
      have hmem : m.1 ∈ fs.map (·.1) := by
        rw [← map_fst_olderFields]
        exact List.mem_map_of_mem hm
      exact h.2.1 _ hmem
  | null => cases hm
  | _ => exact h.elim

theorem lookup_olderNames : ∀ p ∈ olderNames, olderNames.lookup p.1 = some p.2 := by decide

theorem isReserved_olderNames : ∀ p ∈ olderNames, isReserved p.2 = true := by decide

theorem olderNames_inj : ∀ p ∈ olderNames, ∀ q ∈ olderNames, p.2 = q.2 → p = q := by decide

theorem ne_fields_of_mem : ∀ p ∈ olderNames, p.1 ≠ "fields" := by decide

theorem exists_olderName (h : k ∈ olderNames.map (·.1)) : ∃ o, (k, o) ∈ olderNames := by
  obtain ⟨p, hp, rfl⟩ := List.mem_map.mp h
  exact ⟨p.2, hp⟩

/-- The step from a part in front of other members to the older form. -/
theorem olderMembers_part (h : (k, o) ∈ olderNames) (v : Json) (ms : Members) :
    olderMembers ((k, v) :: ms) = (o, v) :: olderMembers ms := by
  rw [olderMembers, if_neg (ne_fields_of_mem _ h), lookup_olderNames _ h]
  rfl

theorem olderMembers_fields (v : Json) (ms : Members) :
    olderMembers (("fields", v) :: ms) = plainFields v ++ olderMembers ms := by
  rw [olderMembers, if_pos rfl]

/-- A part has in the older form the value that it had. -/
theorem get?_olderMembers (h : NewerMembers ms) (hk : (k, o) ∈ olderNames) :
    (olderMembers ms).get? o = ms.get? k := by
  induction ms with
  | nil => rfl
  | cons m ms ih =>
      obtain ⟨k', v⟩ := m
      obtain ⟨hpart | ⟨rfl, hfields⟩, hms⟩ := h
      · obtain ⟨o', ho'⟩ := exists_olderName hpart
        rw [olderMembers_part ho', Members.get?_cons, Members.get?_cons, ih hms]
        by_cases heq : k = k'
        · subst heq
          have ho : o = o' := Option.some.inj
            ((lookup_olderNames _ hk).symm.trans (lookup_olderNames _ ho'))
          rw [if_pos ho, if_pos rfl]
        · have hne : o ≠ o' := fun ho => heq (Prod.mk.inj (olderNames_inj _ hk _ ho' ho)).1
          rw [if_neg hne, if_neg heq]
      · have hnot : o ∉ (plainFields v).keys := by
          rintro hmem
          obtain ⟨m, hm, rfl⟩ := List.mem_map.mp hmem
          have hreserved := isReserved_olderNames _ hk
          rw [isReserved_of_mem_plainFields hfields m hm] at hreserved
          cases hreserved
        rw [olderMembers_fields, Members.get?_append_of_not_mem hnot, ih hms, Members.get?_cons,
          if_neg (ne_fields_of_mem _ hk)]

/-- The reserved members of the older form are the parts. -/
theorem mem_olderNames_of_reserved (h : NewerMembers ms) :
    ∀ m ∈ olderMembers ms, isReserved m.1 = true → m.1 ∈ olderNames.map (·.2) := by
  induction ms with
  | nil => simp [olderMembers]
  | cons m ms ih =>
      obtain ⟨k, v⟩ := m
      intro m hm hreserved
      obtain ⟨hpart | ⟨rfl, hfields⟩, hms⟩ := h
      · obtain ⟨o, ho⟩ := exists_olderName hpart
        rw [olderMembers_part ho] at hm
        obtain rfl | hm := List.mem_cons.mp hm
        · exact List.mem_map_of_mem (f := (·.2)) ho
        · exact ih hms m hm hreserved
      · rw [olderMembers_fields] at hm
        obtain hm | hm := List.mem_append.mp hm
        · rw [isReserved_of_mem_plainFields hfields m hm] at hreserved
          cases hreserved
        · exact ih hms m hm hreserved

/-- The plain members of the older form are the fields. -/
theorem filter_olderMembers (h : NewerMembers ms) (hnodup : (ms.map (·.1)).Nodup) :
    (olderMembers ms).filter (fun m => !isReserved m.1) =
      ((Members.get? ms "fields").map plainFields).getD [] := by
  induction ms with
  | nil => rfl
  | cons m ms ih =>
      obtain ⟨k, v⟩ := m
      obtain ⟨hk, hrest⟩ := List.nodup_cons.mp hnodup
      obtain ⟨hpart | ⟨rfl, hfields⟩, hms⟩ := h
      · obtain ⟨o, ho⟩ := exists_olderName hpart
        rw [olderMembers_part ho, List.filter_cons, if_neg (by simp [isReserved_olderNames _ ho]),
          Members.get?_cons, if_neg (ne_fields_of_mem _ ho).symm]
        exact ih hms hrest
      · have hnone : Members.get? ms "fields" = none := Members.get?_eq_none_iff.mpr hk
        rw [olderMembers_fields, List.filter_append, ih hms hrest, hnone, Members.get?_cons,
          if_pos rfl]
        have hall : (plainFields v).filter (fun m => !isReserved m.1) = plainFields v := by
          rw [List.filter_eq_self]
          intro m hm
          rw [isReserved_of_mem_plainFields hfields m hm]
          rfl
        simp [hall]

/-! ## Compiling both forms -/

open Rule (partNames fieldsNames ownMembers plainMembers fieldsOfMap IsField)
open Form (valueOf?)

/-- The names of parts in the newer form. -/
def newerNames : List String := "fields" :: olderNames.map (·.1)

theorem mem_newerNames (h : NewerMembers ms) : ∀ k ∈ ms.keys, k ∈ newerNames := by
  induction ms with
  | nil => simp [Members.keys]
  | cons m ms ih =>
      obtain ⟨k, v⟩ := m
      obtain ⟨hk, hms⟩ := h
      intro name hname
      obtain rfl | hname := List.mem_cons.mp hname
      · obtain hpart | ⟨rfl, _⟩ := hk
        · exact List.mem_cons_of_mem _ hpart
        · exact List.mem_cons_self
      · exact ih hms name hname

theorem get?_eq_none_of_newer (h : NewerMembers ms) (hk : k ∉ newerNames) : ms.get? k = none :=
  Members.get?_eq_none_iff.mpr fun hmem => hk (mem_newerNames h k hmem)

theorem isOlderForm_of_newer (h : NewerMembers ms) : Rule.isOlderForm ms = false := by
  rw [Rule.isOlderForm, Members.has, get?_eq_none_of_newer h (by decide)]
  rfl

theorem ownMembers_of_newer (h : NewerMembers ms) : ownMembers ms = ms := by
  rw [ownMembers, isOlderForm_of_newer h]
  rfl

theorem plainMembers_of_newer (h : NewerMembers ms) : plainMembers ms = [] := by
  rw [plainMembers, isOlderForm_of_newer h]
  rfl

section

variable (h : NewerMembers ms) (hselector : "selector" ∈ ms.keys)
include h hselector

theorem isOlderForm_olderMembers : Rule.isOlderForm (olderMembers ms) = true := by
  obtain ⟨v, hv⟩ := Members.exists_get? hselector
  rw [Rule.isOlderForm, Members.has, get?_olderMembers h (k := "selector") (by decide), hv]
  rfl

theorem ownMembers_olderMembers :
    ownMembers (olderMembers ms) = (olderMembers ms).filter fun m => isReserved m.1 := by
  rw [ownMembers, if_pos (isOlderForm_olderMembers h hselector)]

theorem get?_own_olderMembers (hk : (k, o) ∈ olderNames) :
    (ownMembers (olderMembers ms)).get? o = ms.get? k := by
  rw [ownMembers_olderMembers h hselector, Members.get?_filter (isReserved_olderNames _ hk),
    get?_olderMembers h hk]

theorem mem_keys_own_olderMembers (hmem : o ∈ (ownMembers (olderMembers ms)).keys) :
    o ∈ olderNames.map (·.2) := by
  rw [ownMembers_olderMembers h hselector] at hmem
  obtain ⟨m, hm, rfl⟩ := List.mem_map.mp hmem
  obtain ⟨hm, hreserved⟩ := List.mem_filter.mp hm
  exact mem_olderNames_of_reserved h m hm hreserved

theorem get?_own_eq_none (ho : o ∉ olderNames.map (·.2)) :
    (ownMembers (olderMembers ms)).get? o = none :=
  Members.get?_eq_none_iff.mpr fun hmem => ho (mem_keys_own_olderMembers h hselector hmem)

theorem plainMembers_olderMembers (hnodup : ms.keys.Nodup) :
    plainMembers (olderMembers ms) = ((ms.get? "fields").map plainFields).getD [] := by
  rw [plainMembers, if_pos (isOlderForm_olderMembers h hselector), filter_olderMembers h hnodup]

/-- Each part but the fields has one name in either form. -/
theorem valueOf?_own_olderMembers : ∀ names ∈ partNames, names ≠ fieldsNames →
    valueOf? names (ownMembers (olderMembers ms)) = valueOf? names ms := by
  intro names hnames hfields
  have hone : ∀ names ∈ partNames, names ≠ fieldsNames → ∃ p ∈ olderNames,
      (p.1 ∈ names ∧ ∀ n ∈ names, n ≠ p.1 → n ∉ newerNames) ∧
        p.2 ∈ names ∧ ∀ n ∈ names, n ≠ p.2 → n ∉ olderNames.map (·.2) := by
    decide
  obtain ⟨p, hp, ⟨hk, hnewer⟩, ho, holder⟩ := hone names hnames hfields
  rw [Form.valueOf?_eq_get? hk fun n hn hne => get?_eq_none_of_newer h (hnewer n hn hne),
    Form.valueOf?_eq_get? ho fun n hn hne => get?_own_eq_none h hselector (holder n hn hne),
    get?_own_olderMembers h hselector hp]

end

theorem noExtras_of_newer (h : NewerMembers ms) : Rule.noExtras ms = .ok () := by
  have halone : ∀ k ∈ newerNames, ∃ names ∈ partNames, k ∈ names ∧
      ∀ n ∈ names, n ≠ k → n ∉ newerNames := by
    decide
  refine Rule.noExtras_of_alone fun k hk => ?_
  obtain ⟨names, hnames, hmem, hothers⟩ := halone k (mem_newerNames h k hk)
  exact ⟨names, hnames, hmem, fun n hn hne => get?_eq_none_of_newer h (hothers n hn hne)⟩

theorem noExtras_olderMembers (h : NewerMembers ms) (hselector : "selector" ∈ ms.keys) :
    Rule.noExtras (ownMembers (olderMembers ms)) = .ok () := by
  have halone : ∀ o ∈ olderNames.map (·.2), ∃ names ∈ partNames, o ∈ names ∧
      ∀ n ∈ names, n ≠ o → n ∉ olderNames.map (·.2) := by
    decide
  refine Rule.noExtras_of_alone fun o ho => ?_
  obtain ⟨names, hnames, hmem, hothers⟩ := halone o (mem_keys_own_olderMembers h hselector ho)
  exact ⟨names, hnames, hmem, fun n hn hne => get?_own_eq_none h hselector (hothers n hn hne)⟩

section

variable {r : Rule} (hmissing : ∀ k ∈ (olderMembers ms).keys, k ∉ Rule.selectorNames)
include hmissing

/-- Without a selector, or what passes for one, the older form is no rule. -/
theorem ofJson_olderMembers_ne_ok : Rule.ofJson (.map (olderMembers ms)) ≠ .ok r := by
  have hnone : ∀ name ∈ Rule.selectorNames, (olderMembers ms).get? name = none :=
    fun name hname => Members.get?_eq_none_iff.mpr fun hmem => hmissing name hmem hname
  have hform : Rule.isOlderForm (olderMembers ms) = false := by
    rw [Rule.isOlderForm, Members.has, hnone _ (by decide)]
    rfl
  refine Rule.ofJson_ne_ok_of_no_selector ?_
  rw [ownMembers, hform]
  exact Form.valueOf?_eq_none_iff.mpr hnone

theorem ofJson_ne_ok_of_newer (h : NewerMembers ms) : Rule.ofJson (.map ms) ≠ .ok r := by
  refine Rule.ofJson_ne_ok_of_no_selector ?_
  rw [ownMembers_of_newer h]
  refine Form.valueOf?_eq_none_iff.mpr fun name hname => ?_
  by_cases hselector : name = "selector"
  · have hsame := get?_olderMembers h (k := "selector") (o := "_xpath") (by decide)
    rw [hselector, ← hsame]
    exact Members.get?_eq_none_iff.mpr fun hmem => hmissing _ hmem (by decide)
  · have hnot : ∀ name ∈ Rule.selectorNames, name ≠ "selector" → name ∉ newerNames := by decide
    exact get?_eq_none_of_newer h (hnot name hname hselector)

end

/-- The fields of a rule that are given as plain members. -/
def FieldsOfPlain (ns : Members) (fs : Option Schema) : Prop :=
  (ns = [] ∧ fs = none) ∨ (ns ≠ [] ∧ ∃ qs, fs = some qs ∧ List.Forall₂ IsField ns qs)

/-- Both forms give the same fields, if the values of the fields are compiled alike. -/
theorem fieldsOfMap_olderMembers (fs : Option Schema) (h : NewerMembers ms)
    (hselector : "selector" ∈ ms.keys) (hnodup : ms.keys.Nodup)
    (hfields : ∀ v, ms.get? "fields" = some v →
      (FieldsOfPlain (plainFields v) fs ↔ Rule.fieldsIn v = .ok fs)) :
    fieldsOfMap (olderMembers ms) = .ok fs ↔ fieldsOfMap ms = .ok fs := by
  have hnone : valueOf? fieldsNames (ownMembers (olderMembers ms)) = none := by
    have hnot : ∀ n ∈ fieldsNames, n ∉ olderNames.map (·.2) := by decide
    exact Form.valueOf?_eq_none_iff.mpr fun n hn => get?_own_eq_none h hselector (hnot n hn)
  have hvalue : valueOf? fieldsNames (ownMembers ms) = ms.get? "fields" := by
    have hnot : ∀ n ∈ fieldsNames, n ≠ "fields" → n ∉ newerNames := by decide
    rw [ownMembers_of_newer h]
    exact Form.valueOf?_eq_get? (by decide) fun n hn hne => get?_eq_none_of_newer h (hnot n hn hne)
  rw [Rule.fieldsOfMap_of_not_listed hnone, plainMembers_olderMembers h hselector hnodup]
  cases hget : ms.get? "fields" with
  | none =>
      rw [Rule.fieldsOfMap_of_not_listed (hvalue.trans hget), plainMembers_of_newer h]
      rfl
  | some v =>
      rw [Rule.fieldsOfMap_of_listed (hvalue.trans hget)]
      exact hfields v hget

mutual

/-- A rule in the newer form is compiled as its older form is. -/
theorem ofJson_older_iff : ∀ (v : Json), v.Newer → ∀ r, Rule.ofJson v.older = .ok r ↔
    Rule.ofJson v = .ok r
  | .map ms, ⟨_, .inr hmissing, hms⟩, r => by
      exact iff_of_false (ofJson_olderMembers_ne_ok hmissing) (ofJson_ne_ok_of_newer hmissing hms)
  | .map ms, ⟨hnodup, .inl hselector, hms⟩, r => by
      have hhead := Rule.headOf_congr (h := r.head) (valueOf?_own_olderMembers hms hselector)
      have hfields := fieldsOfMap_olderMembers r.fields? hms hselector hnodup
        fun v hv => fieldsAt_older_iff ms hms v hv r.fields?
      rw [older, Rule.ofJson_map_eq_ok_iff, Rule.ofJson_map_eq_ok_iff, ownMembers_of_newer hms,
        hhead, hfields, noExtras_of_newer hms, noExtras_olderMembers hms hselector]
  | .null, _, _ => Iff.rfl
  | .bool _, _, _ => Iff.rfl
  | .int _, _, _ => Iff.rfl
  | .float _, _, _ => Iff.rfl
  | .str _, _, _ => Iff.rfl
  | .list _, _, _ => Iff.rfl

theorem fieldsAt_older_iff : ∀ (ms : List (String × Json)), NewerMembers ms →
    ∀ v, Members.get? ms "fields" = some v → ∀ fs,
      FieldsOfPlain (plainFields v) fs ↔ Rule.fieldsIn v = .ok fs
  | [], _, _, h, _ => by cases h
  | (k, w) :: ms, ⟨hk, hms⟩, v, h, fs => by
      rw [Members.get?_cons] at h
      split at h
      · obtain rfl := Option.some.inj h
        obtain hpart | ⟨_, hfields⟩ := hk
        · rename_i heq
          obtain ⟨o, ho⟩ := exists_olderName hpart
          exact (ne_fields_of_mem _ ho heq.symm).elim
        · exact fieldsIn_older_iff w hfields fs
      · exact fieldsAt_older_iff ms hms v h fs

theorem fieldsIn_older_iff : ∀ (v : Json), NewerFieldsIn v → ∀ fs,
    FieldsOfPlain (plainFields v) fs ↔ Rule.fieldsIn v = .ok fs
  | .null, _, fs => by simp [FieldsOfPlain, plainFields, Rule.fieldsIn_eq_ok_iff]
  | .map fields, ⟨hne, _, hfields⟩, fs => by
      have hne' : olderFields fields ≠ [] := by
        intro hnil
        have hmap := map_fst_olderFields fields
        rw [hnil, List.map_nil] at hmap
        exact hne (List.map_eq_nil_iff.mp hmap.symm)
      rw [plainFields, FieldsOfPlain, Rule.fieldsIn_eq_ok_iff]
      simp [hne', forall₂_olderFields_iff fields hfields]
  | .bool _, h, _ => h.elim
  | .int _, h, _ => h.elim
  | .float _, h, _ => h.elim
  | .str _, h, _ => h.elim
  | .list _, h, _ => h.elim

theorem forall₂_olderFields_iff : ∀ (fs : List (String × Json)), NewerFields fs → ∀ qs,
    List.Forall₂ IsField (olderFields fs) qs ↔ List.Forall₂ IsField fs qs
  | [], _, qs => Iff.rfl
  | (name, v) :: fs, ⟨hv, hfs⟩, qs => by
      rw [olderFields]
      constructor
      · rintro (_ | ⟨⟨hname, hr⟩, hrest⟩)
        exact .cons ⟨hname, (ofJson_older_iff v hv _).mp hr⟩
          ((forall₂_olderFields_iff fs hfs _).mp hrest)
      · rintro (_ | ⟨⟨hname, hr⟩, hrest⟩)
        exact .cons ⟨hname, (ofJson_older_iff v hv _).mpr hr⟩
          ((forall₂_olderFields_iff fs hfs _).mpr hrest)

end

end Json

namespace Schema

open Json (NewerFields olderFields)

/-- A schema in the newer form and its older form are compiled to the same rules, so that they give
the same from every document, or neither of them is accepted. -/
theorem compile_older {ms : Members} (h : NewerFields ms) :
    (∀ s, compile (.map (olderFields ms)) = .ok s ↔ compile (.map ms) = .ok s) ∧
      ∀ (x : Extractor) (source : Source),
        (compile (.map (olderFields ms))).toOption.map (x.extract · source) =
          (compile (.map ms)).toOption.map (x.extract · source) := by
  have hiff : ∀ s, compile (.map (olderFields ms)) = .ok s ↔ compile (.map ms) = .ok s := by
    intro s
    rw [compile, compile, ofMembers_eq_ok_iff, ofMembers_eq_ok_iff]
    exact Json.forall₂_olderFields_iff ms h s
  refine ⟨hiff, fun x source => ?_⟩
  have hsame : (compile (.map (olderFields ms))).toOption = (compile (.map ms)).toOption := by
    refine Option.ext fun s => ?_
    rw [toOption_eq_some_iff, toOption_eq_some_iff, hiff]
  rw [hsame]

/-- Cards, the parts of which are named like the parts of a rule. -/
def cards : Members := [("title", .str "//h1"), ("cards", .map [("selector", .str "//li"),
  ("forceArray", .bool true), ("fields", .map [("selector", .str "./a"), ("options", .map [
    ("selector", .str "./b"), ("options", .map [("format", .str "year")]), ("fields", .null),
    ("transform", .str "trim")]), ("fields", .map [("removeSelector", .str ".//i"),
      ("selector", .str "./p"), ("fields", .map [("xpath", .str "./a")])])])])]

theorem compile_older_cards : olderFields cards = [("title", .str "//h1"), ("cards", .map [
      ("_xpath", .str "//li"), ("_forceArray", .bool true), ("selector", .str "./a"),
      ("options", .map [("_xpath", .str "./b"), ("_options", .map [("format", .str "year")]),
        ("_transformations", .str "trim")]),
      ("fields", .map [("_removeXPath", .str ".//i"), ("_xpath", .str "./p"),
        ("xpath", .str "./a")])])] ∧
    NewerFields cards ∧
      ∃ s, compile (.map cards) = .ok s ∧ compile (.map (olderFields cards)) = .ok s := by
  have hnewer : NewerFields cards := by
    simp [cards, NewerFields, Json.Newer, Json.NewerMembers, Json.NewerFieldsIn, Rule.olderNames,
      Rule.isReserved]
  have hsome : (compile (.map cards)).toOption.isSome = true := by decide +kernel
  obtain ⟨s, hs⟩ := Option.isSome_iff_exists.mp hsome
  have hs := eq_ok_of_toOption hs
  exact ⟨rfl, hnewer, s, hs, ((compile_older hnewer).1 s).mpr hs⟩

end Schema

end Harvest
