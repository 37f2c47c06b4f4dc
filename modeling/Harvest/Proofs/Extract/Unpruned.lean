import Harvest.Proofs.Extract.Conforms
import Harvest.Proofs.Extract.Settled
import Harvest.Proofs.Prune.Elements
import Harvest.Proofs.Schema.Reordered

/-!
# Fields that are read apart

Where no rule of a schema takes anything away, an extraction leaves the document as it is, and every
field is read as if there were no others.  The order of the fields only shows in the order of what
they give, and some of them alone give what they give among all.
-/

namespace Harvest

open Markup (Document idsOf Source)

/-- No rule of a schema takes anything away, at any depth. -/
def Schema.Unpruned (s : Schema) : Prop := ∀ r ∈ s.rules, r.head.removeSelector = none

namespace Schema.Unpruned

variable {name : String} {rule : Rule} {s s' : Schema}

theorem rest (h : Unpruned ((name, rule) :: s)) : s.Unpruned :=
  fun r hr => h r (List.mem_append_right _ hr)

theorem of_head (h : Unpruned ((name, rule) :: s)) : ∀ r ∈ rule.all, r.head.removeSelector = none :=
  fun r hr => h r (List.mem_append_left _ hr)

theorem nested {head : RuleHead} {fields : Schema}
    (h : Unpruned ((name, .nested head fields) :: s)) :
    head.removeSelector = none ∧ fields.Unpruned :=
  ⟨h.of_head _ List.mem_cons_self, fun r hr => h.of_head r (List.mem_cons_of_mem _ hr)⟩

theorem reordered (h : s.Unpruned) (hs : s.Reordered s') : s'.Unpruned :=
  hs.forall_rules (fun _ _ _ _ hrule => hrule) h

theorem sublist (h : s.Unpruned) (hs : s'.Sublist s) : s'.Unpruned :=
  fun r hr => h r (Schema.rules_subset hs hr)

end Schema.Unpruned

/-! ## Values in another order -/

/-- The same value of a nested rule, but for the order of members. -/
def Json.SameMap (v v' : Json) : Prop :=
  ∃ ms ms' : Members, v = .map ms ∧ v' = .map ms' ∧ ms.Reordered ms'

namespace Members.Reordered

theorem list (name : String) (before : List Json) {vs vs' : List Json}
    (h : List.Forall₂ Json.SameMap vs vs') (ms : Members) :
    Members.Reordered ((name, .list (before ++ vs)) :: ms)
      ((name, .list (before ++ vs')) :: ms) := by
  induction h generalizing before with
  | nil => exact .refl _
  | @cons v v' vs vs' hv _ ih =>
      obtain ⟨inside, inside', rfl, rfl, hinside⟩ := hv
      have hrest := ih (before ++ [.map inside'])
      rw [List.append_assoc, List.append_assoc] at hrest
      exact .trans (.item name before vs hinside ms) hrest

/-- A field whose values stand in another order inside. -/
theorem field (name : String) (forceArray : Bool) {vs vs' : List Json}
    (h : List.Forall₂ Json.SameMap vs vs') (ms : Members) : Members.Reordered
      (((Extractor.shape forceArray vs).map (name, ·)).toList ++ ms)
      (((Extractor.shape forceArray vs').map (name, ·)).toList ++ ms) := by
  have hlist := list name [] h ms
  cases h with
  | nil => exact .refl _
  | cons hv hvs =>
      cases hvs with
      | nil =>
          cases forceArray with
          | true => exact hlist
          | false =>
              obtain ⟨inside, inside', rfl, rfl, hinside⟩ := hv
              exact .inner name hinside ms
      | cons _ _ => exact hlist

end Members.Reordered

namespace Extractor

open Extraction (Settled)

variable {x : Extractor} {d : Document} {context : Nat} {s s' : Schema}

/-! ## Fields one after the other -/

/-- What a schema gives is what its first field gives and what the others give. -/
theorem walk_cons_eq_ok {name : String} {rule : Rule} (hs : Schema.Unpruned ((name, rule) :: s))
    (hc : context ∈ idsOf d.trees) {ms : Members} :
    ((walk x context ((name, rule) :: s)).run d).1 = .ok ms ↔
      ∃ v more, ((evaluate x context rule).run d).1 = .ok v ∧
        ((walk x context s).run d).1 = .ok more ∧ ms = (v.map (name, ·)).toList ++ more := by
  rw [walk_cons]
  exact (settled_evaluate hs.of_head hc).both_eq_ok (settled_walk hs.rest hc) _

/-! ## Nested rules -/

section
variable {head : RuleHead} {fields fields' : Schema}

theorem settled_valueOf_nested (hfields : fields.Unpruned) {m : Match}
    (hm : ∀ id, m = .node id → id ∈ idsOf d.trees) :
    (x.valueOf (.nested head fields) m).Settled d := by
  cases m with
  | node id => exact (settled_walk hfields (hm id rfl)).bind fun ms => .pure _
  | _ => exact .pure none

theorem settled_gather (hhead : head.removeSelector = none) (hfields : fields.Unpruned)
    {found : List Match} (hfound : ∀ id, .node id ∈ found → id ∈ idsOf d.trees) :
    (x.gather head (x.valueOf (.nested head fields)) found).Settled d := by
  induction found with
  | nil => exact .pure []
  | cons m ms ih =>
      rw [gather_cons_of_none hhead]
      have hm : ∀ id, m = .node id → id ∈ idsOf d.trees := fun id h =>
        hfound id (h ▸ List.mem_cons_self)
      have hms := ih fun id h => hfound id (List.mem_cons_of_mem m h)
      exact (settled_valueOf_nested hfields hm).both hms _

/-- A schema is read as another one that differs from it in the order of fields. -/
def SameWalk (x : Extractor) (s s' : Schema) : Prop :=
  ∀ (d : Document) (context : Nat) (ms : Members), context ∈ idsOf d.trees →
    ((walk x context s).run d).1 = .ok ms →
      ∃ ms', ((walk x context s').run d).1 = .ok ms' ∧ ms.Reordered ms'

theorem valueOf_reordered (hfields : fields.Unpruned) (hfields' : fields'.Unpruned)
    (hwalk : x.SameWalk fields fields') {m : Match} (hm : ∀ id, m = .node id → id ∈ idsOf d.trees)
    {v : Option Json} (hv : ((x.valueOf (.nested head fields) m).run d).1 = .ok v) :
    ∃ v', ((x.valueOf (.nested head fields') m).run d).1 = .ok v' ∧
      List.Forall₂ Json.SameMap v.toList v'.toList := by
  cases m with
  | node id =>
      have hid := hm id rfl
      have hsettled : (walk x id fields).Settled d := settled_walk hfields hid
      have hsettled' : (walk x id fields').Settled d := settled_walk hfields' hid
      obtain ⟨ms, hms, hv⟩ := (hsettled.bind_eq_ok fun ms => .pure _).mp hv
      obtain rfl := Except.ok.inj hv
      obtain ⟨ms', hms', hsame⟩ := hwalk d id ms hid hms
      refine ⟨some (.map ms'), (hsettled'.bind_eq_ok fun ms => .pure _).mpr ⟨ms', hms', rfl⟩, ?_⟩
      exact .cons ⟨ms, ms', rfl, rfl, hsame⟩ .nil
  | _ =>
      obtain rfl := Except.ok.inj hv
      exact ⟨none, rfl, .nil⟩

theorem gather_reordered (hhead : head.removeSelector = none) (hfields : fields.Unpruned)
    (hfields' : fields'.Unpruned) (hwalk : x.SameWalk fields fields') {found : List Match}
    (hfound : ∀ id, .node id ∈ found → id ∈ idsOf d.trees) {vs : List Json}
    (hvs : ((x.gather head (x.valueOf (.nested head fields)) found).run d).1 = .ok vs) :
    ∃ vs', ((x.gather head (x.valueOf (.nested head fields')) found).run d).1 = .ok vs' ∧
      List.Forall₂ Json.SameMap vs vs' := by
  induction found generalizing vs with
  | nil =>
      cases hvs
      exact ⟨[], rfl, .nil⟩
  | cons m ms ih =>
      have hm : ∀ id, m = .node id → id ∈ idsOf d.trees := fun id h =>
        hfound id (h ▸ List.mem_cons_self)
      have hms : ∀ id, .node id ∈ ms → id ∈ idsOf d.trees := fun id h =>
        hfound id (List.mem_cons_of_mem m h)
      have hsettled := settled_gather (x := x) hhead hfields hms
      have hsettled' := settled_gather (x := x) hhead hfields' hms
      rw [gather_cons_of_none hhead] at hvs ⊢
      obtain ⟨v, ws, hv, hws, rfl⟩ :=
        ((settled_valueOf_nested hfields hm).both_eq_ok hsettled _).mp hvs
      obtain ⟨v', hv', hsame⟩ := valueOf_reordered hfields hfields' hwalk hm hv
      obtain ⟨ws', hws', hsames⟩ := ih hms hws
      refine ⟨v'.toList ++ ws', ?_, List.rel_append hsame hsames⟩
      exact ((settled_valueOf_nested hfields' hm).both_eq_ok hsettled' _).mpr
        ⟨v', ws', hv', hws', rfl⟩

theorem evaluate_reordered (hhead : head.removeSelector = none) (hfields : fields.Unpruned)
    (hfields' : fields'.Unpruned) (hwalk : x.SameWalk fields fields') {v : Option Json}
    (hv : ((evaluate x context (.nested head fields)).run d).1 = .ok v) :
    ∃ vs vs', ((evaluate x context (.nested head fields')).run d).1 =
      .ok (shape head.forceArray vs') ∧
      v = shape head.forceArray vs ∧ List.Forall₂ Json.SameMap vs vs' := by
  rw [evaluate_eq, Rule.head, ruleValue_of_none hhead, Extraction.run_bind] at hv ⊢
  rcases hselect : d.select x.language context head.selector.query with e | ⟨found, d₁⟩
  · rw [run_select_of_error hselect] at hv
    cases hv
  · rw [run_select hselect] at hv ⊢
    have hfound : ∀ id, .node id ∈ found → id ∈ idsOf d₁.trees := fun id => mem_of_select hselect
    have hsettled := settled_gather (x := x) hhead hfields hfound
    have hsettled' := settled_gather (x := x) hhead hfields' hfound
    obtain ⟨vs, hvs, hv⟩ := (hsettled.bind_eq_ok fun vs => .pure _).mp hv
    obtain ⟨vs', hvs', hsame⟩ := gather_reordered hhead hfields hfields' hwalk hfound hvs
    refine ⟨vs, vs', ?_, (Except.ok.inj hv).symm, hsame⟩
    exact (hsettled'.bind_eq_ok fun vs => .pure _).mpr ⟨vs', hvs', rfl⟩

end

/-! ## Reordered schemas -/

theorem sameWalk_of_reordered (x : Extractor) (h : s.Reordered s') (hs : s.Unpruned) :
    x.SameWalk s s' := by
  induction h with
  | nil => exact fun d context ms _ hms => ⟨ms, hms, .refl ms⟩
  | cons field h ih =>
      obtain ⟨name, rule⟩ := field
      intro d context ms hc hms
      obtain ⟨v, more, hv, hmore, rfl⟩ := (walk_cons_eq_ok hs hc).mp hms
      obtain ⟨more', hmore', hsame⟩ := ih hs.rest d context more hc hmore
      refine ⟨(v.map (name, ·)).toList ++ more', ?_, hsame.append_left _⟩
      exact (walk_cons_eq_ok (hs.reordered (.cons _ h)) hc).mpr ⟨v, more', hv, hmore', rfl⟩
  -- neither field sees the other one, as nothing is taken out of the document in between
  | swap field other s =>
      obtain ⟨name, rule⟩ := field
      obtain ⟨name', rule'⟩ := other
      have hs' := hs.reordered (.swap _ _ s)
      intro d context ms hc hms
      obtain ⟨v, more, hv, hmore, rfl⟩ := (walk_cons_eq_ok hs hc).mp hms
      obtain ⟨v', ms, hv', hrest, rfl⟩ := (walk_cons_eq_ok hs.rest hc).mp hmore
      refine ⟨(v'.map (name', ·)).toList ++ ((v.map (name, ·)).toList ++ ms), ?_, ?_⟩
      · have hother := (walk_cons_eq_ok hs'.rest hc).mpr ⟨v, ms, hv, hrest, rfl⟩
        exact (walk_cons_eq_ok hs' hc).mpr ⟨v', _, hv', hother, rfl⟩
      · cases v with
        | none => exact .refl _
        | some v =>
            cases v' with
            | none => exact .refl _
            | some v' => exact .swap _ _ ms
  | @inner name head fields fields' hfields s ih =>
      have hs' := hs.reordered (.inner name head hfields s)
      intro d context ms hc hms
      obtain ⟨v, more, hv, hmore, rfl⟩ := (walk_cons_eq_ok hs hc).mp hms
      obtain ⟨vs, vs', hv', rfl, hsame⟩ :=
        evaluate_reordered hs.nested.1 hs.nested.2 hs'.nested.2 (ih hs.nested.2) hv
      refine ⟨((shape head.forceArray vs').map (name, ·)).toList ++ more, ?_,
        .field name _ hsame more⟩
      exact (walk_cons_eq_ok hs' hc).mpr ⟨_, more, hv', hmore, rfl⟩
  | trans h₁ _ ih₁ ih₂ =>
      intro d context ms hc hms
      obtain ⟨ms₁, hms₁, h₁'⟩ := ih₁ hs d context ms hc hms
      obtain ⟨ms₂, hms₂, h₂'⟩ := ih₂ (hs.reordered h₁) d context ms₁ hc hms₁
      exact ⟨ms₂, hms₂, .trans h₁' h₂'⟩

/-! ## Some of the fields -/

/-- The members of some fields among those of all. -/
def restrict (sub : Schema) (ms : Members) : Members :=
  ms.filter fun m => (sub.map (·.1)).contains m.1

theorem restrict_field {name : String} (rule : Rule) {sub : Schema} (v : Option Json) {ms : Members}
    (h : name ∉ ms.keys) : restrict ((name, rule) :: sub) ((v.map (name, ·)).toList ++ ms) =
      (v.map (name, ·)).toList ++ restrict sub ms := by
  have hms : restrict ((name, rule) :: sub) ms = restrict sub ms := by
    refine List.filter_congr fun m hm => ?_
    have hne : m.1 ≠ name := by
      rintro rfl
      exact h (List.mem_map_of_mem hm)
    simp [hne]
  rw [restrict, List.filter_append]
  refine congrArg₂ (· ++ ·) ?_ hms
  cases v with
  | none => rfl
  | some v => simp

theorem restrict_of_notMem {name : String} {sub : Schema} (v : Option Json) (ms : Members)
    (h : name ∉ sub.map (·.1)) : restrict sub ((v.map (name, ·)).toList ++ ms) =
      restrict sub ms := by
  cases v with
  | none => rfl
  | some v => simp [restrict, h]

theorem walk_sublist {sub : Schema} (h : sub.Sublist s) (hs : s.Unpruned) (hd : s.Distinct)
    (hc : context ∈ idsOf d.trees) {ms : Members} (hms : ((walk x context s).run d).1 = .ok ms) :
    ((walk x context sub).run d).1 = .ok (restrict sub ms) := by
  induction h generalizing ms with
  | slnil =>
      obtain rfl := Except.ok.inj hms
      rfl
  | @cons sub s field h ih =>
      obtain ⟨name, rule⟩ := field
      obtain ⟨v, more, _, hmore, rfl⟩ := (walk_cons_eq_ok hs hc).mp hms
      rw [restrict_of_notMem v more fun hname => hd.notMem ((h.map _).mem hname)]
      exact ih hs.rest hd.rest hmore
  | @cons_cons sub s field h ih =>
      obtain ⟨name, rule⟩ := field
      have hsub : Schema.Unpruned ((name, rule) :: sub) := hs.sublist (h.cons_cons _)
      obtain ⟨v, more, hv, hmore, rfl⟩ := (walk_cons_eq_ok hs hc).mp hms
      have hkeys : more.keys.Sublist (s.map (·.1)) :=
        (gives_walk x s hd.rest context d more _ (Prod.ext hmore rfl)).1
      rw [restrict_field rule v fun hname => hd.notMem (hkeys.mem hname)]
      exact (walk_cons_eq_ok hsub hc).mpr ⟨v, _, hv, ih hs.rest hd.rest hmore, rfl⟩

/-! ## Extractions -/

/-- The fields of a schema are read apart: if they are read at all, then in every other order the
same is read, and stands in that order, and some of the fields alone give what they give among
all. -/
def ReadApart (s : Schema) (read : Schema → Except ExtractError Members) : Prop :=
  ∀ ms, read s = .ok ms →
    (∀ s', s.Reordered s' → ∃ ms', read s' = .ok ms' ∧ ms.Reordered ms' ∧ s'.Conforms ms') ∧
      ∀ sub, sub.Sublist s → read sub = .ok (restrict sub ms)

theorem readApart_walk (x : Extractor) (hs : s.Unpruned) (hd : s.Distinct)
    (hc : context ∈ idsOf d.trees) : ReadApart s fun s => ((walk x context s).run d).1 := by
  intro ms hms
  refine ⟨fun s' h => ?_, fun sub h => walk_sublist h hs hd hc hms⟩
  obtain ⟨ms', hms', hsame⟩ := sameWalk_of_reordered x h hs d context ms hc hms
  exact ⟨ms', hms', hsame, gives_walk x s' (h.distinct hd) context d ms' _ (Prod.ext hms' rfl)⟩

theorem ReadApart.of_error {read : Schema → Except ExtractError Members} {e : ExtractError}
    (h : read s = .error e) : ReadApart s read := by
  intro ms hms
  rw [h] at hms
  cases hms

/-- The same where the transformations of the schema are looked up first. -/
theorem ReadApart.checked {registry : Registry} {read read' : Schema → Except ExtractError Members}
    (h : ReadApart s read) (hs : s.checkTransformations registry = .ok ())
    (hread : ∀ s, s.checkTransformations registry = .ok () → read' s = read s) :
    ReadApart s read' := by
  intro ms hms
  rw [hread s hs] at hms
  obtain ⟨horder, hsome⟩ := h ms hms
  refine ⟨fun s' h' => ?_, fun sub h' => ?_⟩
  · rw [hread s' (h'.checkTransformations hs)]
    exact horder s' h'
  · rw [hread sub (Schema.checkTransformations_sublist h' hs)]
    exact hsome sub h'

/-- Whatever the registry and the scope: where no rule takes anything away, an extraction changes
nothing in a live document, and the fields of the schema are read apart, from a live document as
from a source. -/
theorem extract_unpruned (x : Extractor) {s : Schema} (hs : s.Unpruned) (hd : s.Distinct) :
    (∀ (d : Document) (context : Nat), context ∈ idsOf d.trees →
      d.Grows ((x.extractAt s context).run d).2 ∧
        ((x.extractAt s context).run d).2.main = d.main ∧
        ReadApart s fun s => ((x.extractAt s context).run d).1) ∧
      ∀ source, ReadApart s fun s => x.extract s source := by
  constructor
  · intro d context hc
    cases hcheck : s.checkTransformations x.registry with
    | error e =>
        have hrun : (x.extractAt s context).run d = (.error (.schema e), d) := by
          rw [extractAt, hcheck]
          rfl
        rw [hrun]
        exact ⟨.refl d, rfl, .of_error (congrArg Prod.fst hrun)⟩
    | ok u =>
        have hwalk : ∀ s, s.checkTransformations x.registry = .ok () →
            x.extractAt s context = walk x context s := by
          intro s hs
          rw [extractAt, hs]
        have hgrows : d.Grows ((walk x context s).run d).2 := (settled_walk hs hc).grows
        rw [hwalk s hcheck]
        refine ⟨hgrows, hgrows.main (Document.ne_nil_of_mem hc), ?_⟩
        exact (readApart_walk x hs hd hc).checked hcheck fun s hs => by rw [hwalk s hs]
  · intro source
    cases hcheck : s.checkTransformations x.registry with
    | error e => exact .of_error (by rw [extract_eq, hcheck])
    | ok u =>
        cases hparse : source.parse x.language with
        | error e => exact .of_error (by rw [extract_eq, hcheck, hparse])
        | ok d =>
            have hfrom : ∀ s, s.checkTransformations x.registry = .ok () →
                x.extract s source = (x.extractFrom s d).1 := by
              intro s hs
              rw [extract_eq, hs, hparse]
            cases hroot : d.root? with
            | none => exact .of_error (by rw [hfrom s hcheck, extractFrom, hroot])
            | some root =>
                have hc : root ∈ idsOf d.trees := mem_of_hasElement (Document.hasElement_root hroot)
                refine (readApart_walk x hs hd hc).checked hcheck fun s hs => ?_
                rw [hfrom s hs, extractFrom, hroot]

/-! ## Scopes -/

theorem evaluate_scope {scope : PruneScope} {rule : Rule}
    (hhead : rule.head.removeSelector = none)
    (hvalue : ∀ m, valueOf { x with scope } rule m = x.valueOf rule m) (context : Nat) :
    evaluate { x with scope } context rule = evaluate x context rule := by
  have hgather : ∀ found, gather { x with scope } rule.head (valueOf { x with scope } rule) found =
      x.gather rule.head (x.valueOf rule) found := by
    intro found
    induction found with
    | nil => rw [gather, gather]
    | cons m ms ih => rw [gather_cons_of_none hhead, gather_cons_of_none hhead, hvalue, ih]
  have hselect : select { x with scope } context rule.head.selector =
      x.select context rule.head.selector := rfl
  rw [evaluate_eq, evaluate_eq, ruleValue_of_none hhead, ruleValue_of_none hhead, hselect]
  simp only [hgather]

mutual

/-- Where no rule takes anything away, the scope does not matter. -/
theorem walk_scope (x : Extractor) (scope : PruneScope) : ∀ (s : List (String × Rule)),
    (∀ r ∈ Rule.allOf s, r.head.removeSelector = none) → ∀ context,
      walk { x with scope } context s = walk x context s
  | [], _, _ => rfl
  | (name, rule) :: rest, h, context => by
      have hrule : ∀ r ∈ rule.all, r.head.removeSelector = none :=
        fun r hr => h r (List.mem_append_left _ hr)
      have hrest := walk_scope x scope rest (fun r hr => h r (List.mem_append_right _ hr)) context
      rw [walk_cons, walk_cons, hrest,
        evaluate_scope (hrule rule rule.mem_all) (valueOf_scope x scope rule hrule)]

theorem valueOf_scope (x : Extractor) (scope : PruneScope) : ∀ (rule : Rule),
    (∀ r ∈ rule.all, r.head.removeSelector = none) → ∀ m,
      valueOf { x with scope } rule m = x.valueOf rule m
  | .leaf head, _, m => rfl
  | .nested head fields, h, m => by
      cases m with
      | node id =>
          have hfields : ∀ r ∈ Rule.allOf fields, r.head.removeSelector = none :=
            fun r hr => h r (List.mem_cons_of_mem _ hr)
          rw [valueOf, valueOf, walk_scope x scope fields hfields id]
      | _ => rfl

end

theorem extract_scope (x : Extractor) (scope : PruneScope) {s : Schema} (hs : s.Unpruned)
    (source : Source) : extract { x with scope } s source = x.extract s source := by
  rw [extract_eq, extract_eq]
  simp only [extractFrom, walk_scope x scope s hs]

/-! ## A sample -/

/-- The fields of an item: its number and, found by a regular expression, its first word. -/
def itemFields : Schema :=
  [("word", .leaf { selector := readSelector "re:match(., '[a-z]+')" (by decide +kernel) }),
    ("id", .leaf { selector := readSelector "@id" (by decide +kernel) })]

def listing (fields : Schema) : Schema :=
  [("title", .leaf { selector := readSelector "*/b" (by decide +kernel) }),
    ("items", .nested { selector := readSelector "*/i" (by decide +kernel) } fields)]

theorem unpruned_listing : (listing itemFields).Unpruned := by
  intro r hr
  simp only [listing, itemFields, Schema.rules, Rule.allOf, Rule.all, List.append_nil,
    List.cons_append, List.nil_append, List.mem_cons, List.not_mem_nil, or_false] at hr
  rcases hr with rfl | rfl | rfl | rfl <;> rfl

theorem reordered_listing :
    (listing itemFields).Reordered (listing itemFields.reverse).reverse := by
  have hinner : (listing itemFields).Reordered (listing itemFields.reverse) :=
    .cons _ (.inner "items" _ (.of_perm (List.reverse_perm _).symm) [])
  exact hinner.trans (.of_perm (List.reverse_perm _).symm)

/-- A page with a title and an item. -/
def page : Source := .text "<b>T</b><i id='1'>ab</i>"

theorem extract_unpruned_sample : (listing itemFields).Unpruned ∧ (listing itemFields).Distinct ∧
    ∃ ms ms', ({} : Extractor).extract (listing itemFields) page = .ok ms ∧
      ({} : Extractor).extract (listing itemFields.reverse).reverse page = .ok ms' ∧
      (Json.map ms).inner = "\x7b'title': 'T', 'items': \x7b'word': 'ab', 'id': '1'\x7d\x7d" ∧
      ms.Reordered ms' := by
  have hdistinct : (listing itemFields).Distinct := by decide +kernel
  have hrun : (({} : Extractor).extract (listing itemFields) page).toOption.map
      (fun ms => (Json.map ms).inner) =
        some "\x7b'title': 'T', 'items': \x7b'word': 'ab', 'id': '1'\x7d\x7d" := by
    decide +kernel
  obtain ⟨ms, hms, hinner⟩ := Option.map_eq_some_iff.mp hrun
  have hms := eq_ok_of_toOption hms
  have hread := (extract_unpruned {} unpruned_listing hdistinct).2 page ms hms
  obtain ⟨ms', hms', hsame, _⟩ := hread.1 _ reordered_listing
  exact ⟨unpruned_listing, hdistinct, ms, ms', hms, hms', hinner, hsame⟩

end Extractor

end Harvest
