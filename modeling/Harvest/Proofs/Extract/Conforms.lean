import Harvest.Proofs.Extract.Run
import Harvest.Proofs.Schema.Names

/-!
# Results that conform

What an extraction gives has the form that its schema promises: at most the fields of the schema, in
their order, and in each of them the values of its rule, alone or in a list.
-/

namespace Harvest

/-! ## Members -/

namespace Members

variable {ms : Members} {name : String}

theorem get?_field (h : name ∉ ms.keys) (v : Option Json) :
    Members.get? ((v.map (name, ·)).toList ++ ms) name = v := by
  cases v with
  | some v => simp [get?]
  | none =>
      change ms.lookup name = none
      rw [List.lookup_eq_none_iff]
      rintro ⟨k, v⟩ hk
      have hne : name ≠ k := by
        rintro rfl
        exact h (List.mem_map_of_mem hk)
      simpa using hne

theorem get?_field_of_ne {k : String} (h : k ≠ name) (v : Option Json) :
    Members.get? ((v.map (name, ·)).toList ++ ms) k = ms.get? k := by
  cases v with
  | none => rfl
  | some v =>
      change List.lookup k ((name, v) :: ms) = ms.lookup k
      rw [List.lookup_cons, beq_eq_false_iff_ne.mpr h]

end Members

/-! ## Conforming -/

/-- How a field holds the values of a rule, in a list if the first argument says so. -/
inductive Held : Bool → List Json → Option Json → Prop
  | listed (vs : List Json) : Held true vs (some (.list vs))
  | absent : Held false [] none
  | alone (v : Json) : Held false [v] (some v)
  | several (v w : Json) (vs : List Json) : Held false (v :: w :: vs) (some (.list (v :: w :: vs)))

namespace Rule

mutual

/-- Whether a rule can give a value for a match. -/
def Admits : Rule → Json → Prop
  | .leaf head, v => v ≠ .null ∧ (head.transform.names = [] → ∃ s, v = .str s)
  | .nested _ fields, v => ∃ ms : Members, v = .map ms ∧
      ms.keys.Sublist (fields.map (·.1)) ∧ AdmitAll fields ms

/-- Whether each rule has its values in the member of its name. -/
def AdmitAll : List (String × Rule) → Members → Prop
  | [], _ => True
  | (name, rule) :: rest, ms => (∃ leaves, Held rule.head.forceArray leaves (ms.get? name) ∧
      ∀ leaf ∈ leaves, rule.Admits leaf) ∧ AdmitAll rest ms

end

end Rule

namespace Schema

/-- Whether members have the form that a schema promises. -/
def Conforms (s : Schema) (ms : Members) : Prop :=
  ms.keys.Sublist (s.map (·.1)) ∧ Rule.AdmitAll s ms

end Schema

theorem Rule.admitAll_congr {s : Schema} {ms ms' : Members}
    (h : ∀ name ∈ s.map (·.1), ms'.get? name = ms.get? name) (hs : AdmitAll s ms) :
    AdmitAll s ms' := by
  induction s with
  | nil => trivial
  | cons field rest ih =>
      obtain ⟨name, rule⟩ := field
      rw [AdmitAll] at hs ⊢
      rw [h name List.mem_cons_self]
      exact ⟨hs.1, ih (fun n hn => h n (List.mem_cons_of_mem _ hn)) hs.2⟩

namespace Extractor

open Extraction (Gives)

variable {x : Extractor} {context : Nat}

theorem held_shape (forceArray : Bool) (vs : List Json) :
    Held forceArray vs (shape forceArray vs) := by
  cases forceArray with
  | true =>
      match vs with
      | [] => exact .listed []
      | [v] => exact .listed [v]
      | v :: w :: vs => exact .listed (v :: w :: vs)
  | false =>
      match vs with
      | [] => exact .absent
      | [v] => exact .alone v
      | v :: w :: vs => exact .several v w vs

theorem gives_gather {P : Json → Prop} {head : RuleHead} {value : Match → Extraction (Option Json)}
    (hvalue : ∀ m, (value m).Gives fun v => ∀ leaf, v = some leaf → P leaf) (found : List Match) :
    (x.gather head value found).Gives fun vs => ∀ leaf ∈ vs, P leaf := by
  induction found with
  | nil => exact .pure (by simp)
  | cons m ms ih =>
      rw [gather_cons]
      refine Gives.after fun _ => (hvalue m).bind fun v hv => ih.bind fun vs hvs => .pure ?_
      intro leaf hleaf
      obtain hleaf | hleaf := List.mem_append.mp hleaf
      · exact hv leaf (Option.mem_toList.mp hleaf)
      · exact hvs leaf hleaf

theorem gives_evaluate {P : Json → Prop} {rule : Rule}
    (hvalue : ∀ m, (x.valueOf rule m).Gives fun v => ∀ leaf, v = some leaf → P leaf) :
    (evaluate x context rule).Gives fun v =>
      ∃ leaves, Held rule.head.forceArray leaves v ∧ ∀ leaf ∈ leaves, P leaf := by
  rw [evaluate_eq]
  refine Gives.after fun _ => Gives.after fun found =>
    (gives_gather hvalue found).bind fun vs hvs => ?_
  exact .pure ⟨vs, held_shape rule.head.forceArray vs, hvs⟩

theorem gives_leafValue (head : RuleHead) (m : Match) :
    (x.leafValue head m).Gives fun v => ∀ leaf, v = some leaf → Rule.Admits (.leaf head) leaf := by
  refine Gives.after fun d => ?_
  dsimp only
  split
  · exact .pure (by simp)
  · rename_i v hnull hchain
    refine .pure ?_
    intro leaf hleaf
    obtain rfl := Option.some.inj hleaf
    refine ⟨hnull, fun hnames => ?_⟩
    rw [hnames] at hchain
    exact ⟨m.read d, (Except.ok.inj hchain).symm⟩
  · exact .throw _

theorem conforms_cons {name : String} {rule : Rule} {s : Schema} {v : Option Json} {ms : Members}
    (hname : name ∉ s.map (·.1)) (hs : s.Conforms ms)
    (hv : ∃ leaves, Held rule.head.forceArray leaves v ∧ ∀ leaf ∈ leaves, rule.Admits leaf) :
    Schema.Conforms ((name, rule) :: s) ((v.map (name, ·)).toList ++ ms) := by
  obtain ⟨hkeys, hall⟩ := hs
  refine ⟨?_, ?_, Rule.admitAll_congr (fun k hk => ?_) hall⟩
  · cases v with
    | none => exact hkeys.cons name
    | some v => exact hkeys.cons_cons name
  · rw [Members.get?_field fun h => hname (hkeys.mem h)]
    exact hv
  · -- names are distinct, so that a field of the rest is what it was without this one
    apply Members.get?_field_of_ne
    rintro rfl
    exact hname hk

mutual

theorem gives_walk (x : Extractor) : ∀ (s : List (String × Rule)), Schema.Distinct s →
    ∀ context, (walk x context s).Gives (Schema.Conforms s)
  | [], _, _ => .pure ⟨.slnil, trivial⟩
  | (name, rule) :: rest, hs, context => by
      rw [walk_cons]
      refine (gives_evaluate (gives_valueOf x rule fun _ => hs.nested)).bind fun v hv => ?_
      refine (gives_walk x rest hs.rest context).bind fun ms hms => ?_
      exact .pure (conforms_cons hs.notMem hms hv)

theorem gives_valueOf (x : Extractor) : ∀ (rule : Rule),
    (∀ fields, rule.fields? = some fields → Schema.Distinct fields) →
    ∀ m, (x.valueOf rule m).Gives fun v => ∀ leaf, v = some leaf → rule.Admits leaf
  | .leaf head, _, m => gives_leafValue head m
  | .nested head fields, hfields, m => by
      cases m with
      | node id =>
          rw [valueOf]
          refine (gives_walk x fields (hfields fields rfl) id).bind fun ms hms => .pure ?_
          intro leaf hleaf
          obtain rfl := Option.some.inj hleaf
          exact ⟨ms, rfl, hms⟩
      | _ => exact .pure (by simp)

end

/-- Whatever the registry, the scope and the document: if an extraction gives anything, then it
conforms to the schema. -/
theorem extract_conforms {s : Schema} (hs : s.Distinct) :
    (∀ context d ms d₁, (walk x context s).run d = (.ok ms, d₁) → s.Conforms ms) ∧
      (∀ source ms, x.extract s source = .ok ms → s.Conforms ms) := by
  have hwalk := gives_walk x s hs
  refine ⟨fun context d ms d₁ h => hwalk context d ms d₁ h, fun source ms h => ?_⟩
  rw [extract_eq] at h
  split at h
  · cases h
  · split at h
    · cases h
    · rename_i d _
      rw [extractFrom] at h
      split at h
      · exact hwalk _ d ms _ (Prod.ext h rfl)
      · cases h

/-- Pages with a kind, and each paragraph with its text and what does not come. -/
def pageSchema : Json := .map [("kind", .str "'page'"), ("items", .map [("selector", .str "*/p"),
  ("forceArray", .bool true), ("fields", .map [("text", .str "text()"), ("more", .str "more")])])]

theorem distinct_pageSchema : pageSchema.Distinct := by
  simp [pageSchema, Json.Distinct, Json.DistinctMembers]

theorem extract_conforms_sample : ∃ s ms, Schema.compile pageSchema = .ok s ∧ s.Distinct ∧
    ({} : Extractor).extract s (.text "<p>1</p>") = .ok ms ∧ ms.keys = ["kind", "items"] ∧
    s.Conforms ms := by
  have hrun : ((Schema.compile pageSchema).toOption.bind fun s =>
      (({} : Extractor).extract s (.text "<p>1</p>")).toOption.map Members.keys) =
        some ["kind", "items"] := by
    decide +kernel
  obtain ⟨s, hs, hrest⟩ := Option.bind_eq_some_iff.mp hrun
  obtain ⟨ms, hms, hkeys⟩ := Option.map_eq_some_iff.mp hrest
  have hcompile := eq_ok_of_toOption hs
  have hextract := eq_ok_of_toOption hms
  have hdistinct := Schema.distinct_of_compile distinct_pageSchema hcompile
  exact ⟨s, ms, hcompile, hdistinct, hextract, hkeys, (extract_conforms hdistinct).2 _ ms hextract⟩

end Extractor

end Harvest
