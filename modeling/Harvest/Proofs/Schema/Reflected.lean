import Harvest.Proofs.Extract.Run
import Harvest.Proofs.Schema.Compiled

/-!
# What a compiled schema keeps

Every part that the mapping of a rule names is a part of the compiled rule.  The plain members of
the older form are its fields as well, but where fields are listed beside them: then they are
dropped with all that is in them, and nothing of it is checked.
-/

namespace Harvest

namespace Rule

open Form (valueOf?)

variable {ms ns : Members} {r q : Rule} {v : Json} {k : String} {names : List String}

/-! ## Parts -/

/-- Whether a part of a rule is what the value of each of its names stands for. -/
def Given {α : Type} (names : List String) (form : Json → Checked α) (ms : Members)
    (a : α) : Prop :=
  ∀ k ∈ names, ∀ v, ms.get? k = some v → form v = .ok a

/-- Whether a member names no part of a rule, or a part that another member names too. -/
def Spare (ms : Members) (k : String) : Prop :=
  k ∈ ms.keys ∧ ((∀ names ∈ partNames, k ∉ names) ∨
    ∃ names ∈ partNames, k ∈ names ∧ ∃ other ∈ names, other ≠ k ∧ other ∈ ms.keys)

/-- Whether every part that a mapping names is a part of a rule. -/
structure Reflects (ms : Members) (r : Rule) : Prop where
  used : ∀ k, ¬ Spare (ownMembers ms) k
  selector : Given selectorNames Selector.ofJson (ownMembers ms) r.head.selector
  forceArray : Given forceArrayNames Form.truth (ownMembers ms) r.head.forceArray
  removeSelector : Given removeSelectorNames (Form.optional Selector.ofJson) (ownMembers ms)
    r.head.removeSelector
  transform : Given transformNames Pipeline.ofJson (ownMembers ms) r.head.transform
  options : Given optionsNames Form.mapping (ownMembers ms) r.head.options
  fields : Given fieldsNames fieldsIn (ownMembers ms) r.fields?

theorem partNames_disjoint : ∀ a ∈ partNames, ∀ b ∈ partNames, ∀ k ∈ a, k ∈ b → a = b := by
  decide

/-- Where no member is left over, a part is read from whichever of its names is there. -/
theorem firstOf?_of_noExtras (h : noExtras ms = .ok ()) (hnames : names ∈ partNames)
    (hk : k ∈ names) (hget : ms.get? k = some v) : Form.firstOf? names ms = some (k, v) := by
  have hmem := noExtras_eq_ok_iff.mp h k (Members.mem_keys_of_get? hget)
  obtain ⟨names', hnames', w, hfirst⟩ := mem_usedNames.mp hmem
  obtain ⟨hk', hw⟩ := Form.firstOf?_eq_some hfirst
  obtain rfl := partNames_disjoint names' hnames' names hnames k hk' hk
  rw [hget] at hw
  obtain rfl := Option.some.inj hw
  exact hfirst

theorem valueOf?_of_noExtras (h : noExtras ms = .ok ()) (hnames : names ∈ partNames)
    (hk : k ∈ names) (hget : ms.get? k = some v) : valueOf? names ms = some v := by
  rw [valueOf?, firstOf?_of_noExtras h hnames hk hget]
  rfl

theorem not_spare_of_noExtras (h : noExtras ms = .ok ()) (k : String) : ¬ Spare ms k := by
  rintro ⟨hk, hunknown | ⟨names, hnames, hmem, other, hother, hne, hkey⟩⟩
  · obtain ⟨names, hnames, v, hfirst⟩ := mem_usedNames.mp (noExtras_eq_ok_iff.mp h k hk)
    exact hunknown names hnames (Form.firstOf?_eq_some hfirst).1
  · obtain ⟨v, hv⟩ := Members.exists_get? hk
    obtain ⟨w, hw⟩ := Members.exists_get? hkey
    have hfirst := firstOf?_of_noExtras h hnames hmem hv
    rw [firstOf?_of_noExtras h hnames hother hw] at hfirst
    exact hne (Prod.mk.inj (Option.some.inj hfirst)).1

section

variable {α : Type} {form : Json → Checked α} {a : α}

theorem given_of_required (h : noExtras ms = .ok ()) (hnames : names ∈ partNames)
    (hpart : Form.required names form ms = .ok a) : Given names form ms a := by
  intro k hk v hget
  obtain ⟨w, hw, hform⟩ := Form.required_eq_ok_iff.mp hpart
  rw [valueOf?_of_noExtras h hnames hk hget] at hw
  obtain rfl := Option.some.inj hw
  exact hform

theorem given_of_member {default : α} (h : noExtras ms = .ok ()) (hnames : names ∈ partNames)
    (hpart : Form.member names form default ms = .ok a) : Given names form ms a := by
  intro k hk v hget
  obtain ⟨w, hw, hform⟩ | ⟨hnone, _⟩ := Form.member_eq_ok_iff.mp hpart
  · rw [valueOf?_of_noExtras h hnames hk hget] at hw
    obtain rfl := Option.some.inj hw
    exact hform
  · rw [valueOf?_of_noExtras h hnames hk hget] at hnone
    cases hnone

end

theorem reflects_of_ofJson (h : ofJson (.map ms) = .ok r) : Reflects ms r := by
  obtain ⟨hhead, hfields, hextras⟩ := ofJson_map_eq_ok_iff.mp h
  obtain ⟨hselector, hforce, hremove, htransform, hoptions⟩ := headOf_eq_ok_iff.mp hhead
  refine ⟨not_spare_of_noExtras hextras, ?_, ?_, ?_, ?_, ?_, fun k hk v hget => ?_⟩
  · exact given_of_required hextras (by simp [partNames]) hselector
  · exact given_of_member hextras (by simp [partNames]) hforce
  · exact given_of_member hextras (by simp [partNames]) hremove
  · exact given_of_member hextras (by simp [partNames]) htransform
  · exact given_of_member hextras (by simp [partNames]) hoptions
  · have hvalue : valueOf? fieldsNames (ownMembers ms) = some v :=
      valueOf?_of_noExtras hextras (by simp [partNames]) hk hget
    exact (fieldsOfMap_of_listed hvalue).mp hfields

/-! ## Fields -/

/-- The members that a mapping lists as fields. -/
def listedFields (ms : Members) : Members :=
  match valueOf? fieldsNames (ownMembers ms) with
  | some (.map fs) => fs
  | _ => []

/-- The members that are meant to be fields: those listed, and the plain ones. -/
def writtenFields (ms : Members) : Members := listedFields ms ++ plainMembers ms

/-- The members that become fields: those listed, or else the plain ones. -/
def keptFields (ms : Members) : Members :=
  match valueOf? fieldsNames (ownMembers ms) with
  | some _ => listedFields ms
  | none => plainMembers ms

/-- Whether a rule has a field for every plain member of a mapping. -/
def KeepsPlain (ms : Members) (r : Rule) : Prop :=
  ∀ m ∈ plainMembers ms, ∃ q ∈ r.fields?.getD [], IsField m q

/-- Whether a plain member stands beside listed fields, and is not listed the same way among
them. -/
def Crowded (ms : Members) : Prop :=
  valueOf? fieldsNames (ownMembers ms) ≠ none ∧ ∃ m ∈ plainMembers ms,
    ∀ n ∈ listedFields ms, ¬ (n.1 = m.1 ∧ ofJson n.2 = ofJson m.2)

theorem exists_of_forall₂ {α β : Type} {R : α → β → Prop} {xs : List α} {ys : List β}
    (h : List.Forall₂ R xs ys) : ∀ x ∈ xs, ∃ y ∈ ys, R x y := by
  induction h with
  | nil => simp
  | @cons x y xs ys hxy _ ih =>
      intro x' hx
      obtain rfl | hx := List.mem_cons.mp hx
      · exact ⟨y, List.mem_cons_self, hxy⟩
      · obtain ⟨y', hy, hxy'⟩ := ih x' hx
        exact ⟨y', List.mem_cons_of_mem _ hy, hxy'⟩

/-- The fields of a compiled rule are those kept, in order. -/
theorem forall₂_keptFields (h : ofJson (.map ms) = .ok r) :
    List.Forall₂ IsField (keptFields ms) (r.fields?.getD []) := by
  obtain ⟨_, hfields, _⟩ := ofJson_map_eq_ok_iff.mp h
  unfold keptFields listedFields
  cases hvalue : valueOf? fieldsNames (ownMembers ms) with
  | some v =>
      obtain ⟨rfl, hnone⟩ | ⟨ns, qs, rfl, hsome, hqs⟩ :=
        fieldsIn_eq_ok_iff.mp ((fieldsOfMap_of_listed hvalue).mp hfields)
      · rw [hnone]
        exact .nil
      · rw [hsome]
        exact hqs
  | none =>
      obtain ⟨hnil, hnone⟩ | ⟨_, qs, hsome, hqs⟩ := (fieldsOfMap_of_not_listed hvalue).mp hfields
      · rw [hnone, hnil]
        exact .nil
      · rw [hsome]
        exact hqs

theorem mem_writtenFields_of_kept {m : String × Json} (h : m ∈ keptFields ms) :
    m ∈ writtenFields ms := by
  unfold keptFields at h
  split at h
  · exact List.mem_append_left _ h
  · exact List.mem_append_right _ h

/-- The plain members are fields of the rule just if none of them is crowded out by listed
fields. -/
theorem keepsPlain_iff (h : ofJson (.map ms) = .ok r) : KeepsPlain ms r ↔ ¬ Crowded ms := by
  have hkept := forall₂_keptFields h
  constructor
  · rintro hplain ⟨hlisted, m, hm, hnot⟩
    obtain ⟨v, hv⟩ := Option.ne_none_iff_exists'.mp hlisted
    obtain ⟨q, hq, hfield⟩ := hplain m hm
    obtain ⟨n, hn, hfield'⟩ := exists_of_forall₂ hkept.flip q hq
    rw [keptFields, hv] at hn
    exact hnot n hn ⟨hfield'.1.trans hfield.1.symm, hfield'.2.trans hfield.2.symm⟩
  · intro hroom m hm
    cases hvalue : valueOf? fieldsNames (ownMembers ms) with
    | none =>
        rw [keptFields, hvalue] at hkept
        exact exists_of_forall₂ hkept m hm
    | some v =>
        have hsome : valueOf? fieldsNames (ownMembers ms) ≠ none := by simp [hvalue]
        obtain ⟨n, hn, hname, hsame⟩ :
            ∃ n ∈ listedFields ms, n.1 = m.1 ∧ ofJson n.2 = ofJson m.2 := by
          by_contra hnot
          exact hroom ⟨hsome, m, hm, fun n hn hboth => hnot ⟨n, hn, hboth⟩⟩
        rw [keptFields, hvalue] at hkept
        obtain ⟨q, hq, hfield⟩ := exists_of_forall₂ hkept n hn
        exact ⟨q, hq, hname.symm.trans hfield.1, hsame.symm.trans hfield.2⟩

/-- Every field that is meant to be one is a field of the rule, where none is crowded out. -/
theorem exists_isField_of_written (h : ofJson (.map ms) = .ok r) (hroom : ¬ Crowded ms) :
    ∀ m ∈ writtenFields ms, ∃ q ∈ r.fields?.getD [], IsField m q := by
  intro m hm
  have hplain := (keepsPlain_iff h).mpr hroom
  obtain hm | hm := List.mem_append.mp hm
  · refine exists_of_forall₂ (forall₂_keptFields h) m ?_
    have hlisted : valueOf? fieldsNames (ownMembers ms) ≠ none := by
      intro hnone
      rw [listedFields, hnone] at hm
      cases hm
    obtain ⟨v, hv⟩ := Option.ne_none_iff_exists'.mp hlisted
    rw [keptFields, hv]
    exact hm
  · exact hplain m hm

/-! ## Depth -/

/-- The mappings of rules in a value, where it is told which members of a mapping are fields. -/
inductive Below (fields : Members → Members) : Json → Members → Prop
  | here (ms : Members) : Below fields (.map ms) ms
  | field {ms ns : Members} {m : String × Json} (hm : m ∈ fields ms) (h : Below fields m.2 ns) :
    Below fields (.map ms) ns

/-- The mappings in a value beside the rules that stand for them in the compiled rule. -/
inductive Meets : Json → Rule → Members → Rule → Prop
  | here (ms : Members) (r : Rule) : Meets (.map ms) r ms r
  | field {ms ns : Members} {r q : Rule} {m : String × Json} {p : String × Rule}
    (hm : m ∈ writtenFields ms) (hp : p ∈ r.fields?.getD []) (hfield : IsField m p)
    (h : Meets m.2 p.2 ns q) : Meets (.map ms) r ns q

theorem Meets.ofJson (h : Meets v r ns q) (hv : ofJson v = .ok r) : ofJson (.map ns) = .ok q := by
  induction h with
  | here ms r => exact hv
  | field hm hp hfield h ih => exact ih hfield.2

/-- A mapping is met by a rule, if on the way to it no field is dropped. -/
theorem exists_meets {fields : Members → Members} (hns : Below fields v ns)
    (hfields : ∀ ms, Below fields v ms → ∀ r, ofJson (.map ms) = .ok r →
      ∀ m ∈ fields ms, m ∈ writtenFields ms ∧ ∃ p ∈ r.fields?.getD [], IsField m p)
    (hr : ofJson v = .ok r) : ∃ q, Meets v r ns q := by
  induction hns generalizing r with
  | here ms => exact ⟨r, .here ms r⟩
  | field hm hns ih =>
      obtain ⟨hwritten, p, hp, hfield⟩ := hfields _ (.here _) r hr _ hm
      obtain ⟨q, hq⟩ := ih (fun ms hms => hfields ms (.field hm hms)) hfield.2
      exact ⟨q, .field hwritten hp hfield hq⟩

theorem exists_meets_of_kept (hns : Below keptFields v ns) (hr : ofJson v = .ok r) :
    ∃ q, Meets v r ns q :=
  exists_meets hns (fun _ _ _ hms m hm =>
    ⟨mem_writtenFields_of_kept hm, exists_of_forall₂ (forall₂_keptFields hms) m hm⟩) hr

theorem exists_meets_of_written (hns : Below writtenFields v ns)
    (hroom : ∀ ms, Below writtenFields v ms → ¬ Crowded ms) (hr : ofJson v = .ok r) :
    ∃ q, Meets v r ns q :=
  exists_meets hns (fun ms hbelow _ hms m hm =>
    ⟨hm, exists_isField_of_written hms (hroom ms hbelow) m hm⟩) hr

end Rule

/-! ## Schemas -/

namespace Schema

open Rule (Below Meets IsField Spare Reflects KeepsPlain Crowded ownMembers plainMembers keptFields
  writtenFields)

/-- The mappings of rules in a schema, at any depth. -/
def Holds (fields : Members → Members) (raw : Json) (ns : Members) : Prop :=
  ∃ ms m, raw = .map ms ∧ m ∈ ms ∧ Below fields m.2 ns

/-- The mappings of rules in a schema beside the rules that stand for them in the compiled one. -/
def CompiledTo (raw : Json) (s : Schema) (ns : Members) (r : Rule) : Prop :=
  ∃ ms m q, raw = .map ms ∧ m ∈ ms ∧ q ∈ s ∧ IsField m q ∧ Meets m.2 q.2 ns r

variable {raw : Json} {s : Schema} {ns : Members} {r : Rule}

theorem compile_eq_ok_iff :
    compile raw = .ok s ↔ ∃ ms, raw = .map ms ∧ List.Forall₂ IsField ms s := by
  cases raw with
  | map ms => simp [compile, ofMembers_eq_ok_iff]
  | _ => simp [compile]

theorem CompiledTo.ofJson (h : CompiledTo raw s ns r) : Rule.ofJson (.map ns) = .ok r := by
  obtain ⟨_, m, q, _, _, _, hfield, hmeets⟩ := h
  exact hmeets.ofJson hfield.2

theorem exists_compiledTo {fields : Members → Members} (h : compile raw = .ok s)
    (hmeets : ∀ ms m, raw = .map ms → m ∈ ms → Below fields m.2 ns → ∀ r, Rule.ofJson m.2 = .ok r →
      ∃ q, Meets m.2 r ns q)
    (hns : Holds fields raw ns) : ∃ r, CompiledTo raw s ns r := by
  obtain ⟨ms, hraw, hall⟩ := compile_eq_ok_iff.mp h
  obtain ⟨ms', m, hraw', hm, hbelow⟩ := hns
  obtain rfl := Json.map.inj (hraw.symm.trans hraw')
  obtain ⟨q, hq, hfield⟩ := Rule.exists_of_forall₂ hall m hm
  obtain ⟨r, hr⟩ := hmeets ms m hraw hm hbelow q.2 hfield.2
  exact ⟨r, ms, m, q, hraw, hm, hq, hfield, hr⟩

theorem exists_compiledTo_of_kept (h : compile raw = .ok s) (hns : Holds keptFields raw ns) :
    ∃ r, CompiledTo raw s ns r :=
  exists_compiledTo h (fun _ _ _ _ hbelow _ hr => Rule.exists_meets_of_kept hbelow hr) hns

theorem exists_compiledTo_of_written (h : compile raw = .ok s)
    (hroom : ∀ ms, Holds writtenFields raw ms → ¬ Crowded ms) (hns : Holds writtenFields raw ns) :
    ∃ r, CompiledTo raw s ns r :=
  exists_compiledTo h (fun ms m hraw hm hbelow _ hr =>
    Rule.exists_meets_of_written hbelow (fun _ h => hroom _ ⟨ms, m, hraw, hm, h⟩) hr) hns

/-- What a compiled schema keeps.  A mapping that is compiled, at any depth, may have no name that
is unknown or stands for a part that it names already.  In a compiled schema each such mapping has
its rule, which reflects every part that the mapping names and has the kept fields in order; it has
all the plain members too unless one is crowded out.  All of the schema is reflected just if nowhere
in it a plain member is crowded out. -/
theorem compile_reflects_iff (raw : Json) :
    (∀ ns, Holds keptFields raw ns → ∀ k, Spare (ownMembers ns) k → ∃ e, compile raw = .error e) ∧
      ∀ s, compile raw = .ok s →
        (∃ ms, raw = .map ms ∧ List.Forall₂ IsField ms s) ∧
        (∀ ns, Holds keptFields raw ns → ∃ r, CompiledTo raw s ns r) ∧
        (∀ ns r, CompiledTo raw s ns r → Reflects ns r ∧
          List.Forall₂ IsField (keptFields ns) (r.fields?.getD []) ∧
          (KeepsPlain ns r ↔ ¬ Crowded ns)) ∧
        ((∀ ns, Holds writtenFields raw ns → ∃ r, CompiledTo raw s ns r ∧ Reflects ns r ∧
            KeepsPlain ns r) ↔
          ∀ ns, Holds writtenFields raw ns → ¬ Crowded ns) := by
  have hreflects : ∀ s, ∀ ns r, CompiledTo raw s ns r → Reflects ns r ∧
      List.Forall₂ IsField (keptFields ns) (r.fields?.getD []) ∧
      (KeepsPlain ns r ↔ ¬ Crowded ns) := fun s ns r hr =>
    ⟨Rule.reflects_of_ofJson hr.ofJson, Rule.forall₂_keptFields hr.ofJson,
      Rule.keepsPlain_iff hr.ofJson⟩
  refine ⟨fun ns hns k hspare => ?_, fun s h =>
    ⟨compile_eq_ok_iff.mp h, fun ns => exists_compiledTo_of_kept h, hreflects s, ?_⟩⟩
  · cases h : compile raw with
    | error e => exact ⟨e, rfl⟩
    | ok s =>
        obtain ⟨r, hr⟩ := exists_compiledTo_of_kept h hns
        exact ((hreflects s ns r hr).1.used k hspare).elim
  · constructor
    · intro hall ns hns
      obtain ⟨r, hr, _, hplain⟩ := hall ns hns
      exact (hreflects s ns r hr).2.2.mp hplain
    · intro hroom ns hns
      obtain ⟨r, hr⟩ := exists_compiledTo_of_written h hroom hns
      obtain ⟨hkeys, _, hplain⟩ := hreflects s ns r hr
      exact ⟨r, hr, hkeys, hplain.mpr (hroom ns hns)⟩

/-- Links in a list, in the older form below the newer one. -/
def link : Members := [("_xpath", .str "./a"), ("_forceArray", .bool true), ("text", .str "."),
  ("selector", .str "./@href")]

def links : Members := [("selector", .str "//ul"), ("fields", .map [("link", .map link)])]

/-- Links whose selector is given twice. -/
def twiceSelected : Members := [("selector", .str "./a"), ("xpath", .str "./b")]

theorem not_crowded_links (h : Holds writtenFields (.map [("links", .map links)]) ns) :
    ¬ Crowded ns := by
  have hlinks : writtenFields links = [("link", .map link)] := rfl
  have hlink : writtenFields link = [("text", .str "."), ("selector", .str "./@href")] := rfl
  obtain ⟨ms, m, hraw, hm, hbelow⟩ := h
  obtain rfl := Json.map.inj hraw
  obtain rfl := List.mem_singleton.mp hm
  cases hbelow with
  | here =>
      rintro ⟨_, m, hm, _⟩
      rw [show plainMembers links = [] from rfl] at hm
      cases hm
  | field hm hbelow =>
      rw [hlinks] at hm
      obtain rfl := List.mem_singleton.mp hm
      cases hbelow with
      | here => exact fun h => h.1 rfl
      | field hm hbelow =>
          rw [hlink] at hm
          simp only [List.mem_cons, List.not_mem_nil, or_false] at hm
          obtain rfl | rfl := hm <;> cases hbelow

theorem compile_reflects_iff_links :
    (∃ e, compile (.map [("links", .map [("selector", .str "//ul"),
      ("fields", .map [("link", .map twiceSelected)])])]) = .error e) ∧
    ∃ s, compile (.map [("links", .map links)]) = .ok s ∧
      ∀ ns, Holds writtenFields (.map [("links", .map links)]) ns →
        ∃ r, CompiledTo (.map [("links", .map links)]) s ns r ∧ Reflects ns r ∧
          KeepsPlain ns r := by
  constructor
  · refine (compile_reflects_iff _).1 twiceSelected ⟨_, _, rfl, List.mem_cons_self, ?_⟩ "xpath" ?_
    · exact .field (m := ("link", .map twiceSelected)) List.mem_cons_self (.here _)
    · exact ⟨by decide, .inr ⟨Rule.selectorNames, by decide, by decide, "selector", by decide⟩⟩
  · have hsome : (compile (.map [("links", .map links)])).toOption.isSome = true := by
      decide +kernel
    obtain ⟨s, hs⟩ := Option.isSome_iff_exists.mp hsome
    have hs := eq_ok_of_toOption hs
    exact ⟨s, hs, ((compile_reflects_iff _).2 s hs).2.2.2.mpr fun _ => not_crowded_links⟩

/-- A link whose label is listed as a field, with a plain member beside it. -/
def crowdedLink : Members :=
  [("_xpath", .str "//a"), ("_fields", .map [("x", .str "./x")]), ("y", .str "./y")]

/-- Plain members beside listed fields are dropped, though the schema is accepted. -/
theorem compile_drops : ∃ s r, compile (.map [("f", .map crowdedLink)]) = .ok s ∧
    CompiledTo (.map [("f", .map crowdedLink)]) s crowdedLink r ∧
    ("y", .str "./y") ∈ plainMembers crowdedLink ∧ "y" ∉ r.fieldNames ∧
    ¬ KeepsPlain crowdedLink r := by
  have hnames : (compile (.map [("f", .map crowdedLink)])).toOption.map
      (fun s => s.map fun q => (q.1, q.2.fieldNames)) = some [("f", ["x"])] := by
    decide +kernel
  obtain ⟨s, hs, hnames⟩ := Option.map_eq_some_iff.mp hnames
  have hs := eq_ok_of_toOption hs
  obtain ⟨q, rfl⟩ : ∃ q, s = [q] :=
    List.length_eq_one_iff.mp (by simpa using congrArg List.length hnames)
  obtain ⟨hname, hfields⟩ := Prod.mk.inj (List.cons.inj hnames).1
  obtain ⟨ms, hraw, hall⟩ := compile_eq_ok_iff.mp hs
  obtain rfl := Json.map.inj hraw
  obtain ⟨p, hp, hfield⟩ := Rule.exists_of_forall₂ hall _ List.mem_cons_self
  obtain rfl := List.mem_singleton.mp hp
  have hplain : ("y", Json.str "./y") ∈ plainMembers crowdedLink := by
    rw [Rule.mem_plainMembers]
    exact ⟨by decide +kernel, by simp [crowdedLink], by decide⟩
  have hy : "y" ∉ p.2.fieldNames := by
    rw [hfields]
    decide
  have hcompiled : CompiledTo (.map [("f", .map crowdedLink)]) [p] crowdedLink p.2 :=
    ⟨_, _, p, rfl, List.mem_cons_self, List.mem_cons_self, hfield, .here _ _⟩
  refine ⟨_, p.2, hs, hcompiled, hplain, hy, ?_⟩
  intro hkeeps
  obtain ⟨q, hq, hsame, _⟩ := hkeeps _ hplain
  refine hy ?_
  rw [show "y" = q.1 from hsame]
  exact List.mem_map_of_mem hq

end Schema

end Harvest
