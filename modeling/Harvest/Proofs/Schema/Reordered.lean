import Harvest.Proofs.Extract.Checked
import Harvest.Proofs.Schema.Names

/-!
# Fields in another order

A schema is reordered where two fields beside each other change places, at any depth, any number of
times.  The rules of the two schemas have the same heads, and the names of fields that stand beside
each other are the same.
-/

namespace Harvest

/-! ## Reordering -/

/-- A schema whose fields stand in another order, at any depth. -/
inductive Schema.Reordered : Schema → Schema → Prop
  | nil : Schema.Reordered [] []
  | cons (field : String × Rule) {s s' : Schema} (h : Schema.Reordered s s') :
      Schema.Reordered (field :: s) (field :: s')
  | swap (field other : String × Rule) (s : Schema) :
      Schema.Reordered (field :: other :: s) (other :: field :: s)
  /-- The fields of a nested rule stand in another order. -/
  | inner (name : String) (head : RuleHead) {fields fields' : Schema}
      (h : Schema.Reordered fields fields') (s : Schema) :
      Schema.Reordered ((name, .nested head fields) :: s) ((name, .nested head fields') :: s)
  | trans {s₁ s₂ s₃ : Schema} (h₁ : Schema.Reordered s₁ s₂) (h₂ : Schema.Reordered s₂ s₃) :
      Schema.Reordered s₁ s₃

/-- Members that stand in another order, at any depth to which mappings stand in members or in lists
of these. -/
inductive Members.Reordered : Members → Members → Prop
  | nil : Members.Reordered [] []
  | cons (member : String × Json) {ms ms' : Members} (h : Members.Reordered ms ms') :
      Members.Reordered (member :: ms) (member :: ms')
  | swap (member other : String × Json) (ms : Members) :
      Members.Reordered (member :: other :: ms) (other :: member :: ms)
  /-- The members of a mapping stand in another order. -/
  | inner (name : String) {inside inside' : Members} (h : Members.Reordered inside inside')
      (ms : Members) : Members.Reordered ((name, .map inside) :: ms) ((name, .map inside') :: ms)
  /-- The members of a mapping in a list stand in another order. -/
  | item (name : String) (before after : List Json) {inside inside' : Members}
      (h : Members.Reordered inside inside') (ms : Members) : Members.Reordered
        ((name, .list (before ++ .map inside :: after)) :: ms)
        ((name, .list (before ++ .map inside' :: after)) :: ms)
  | trans {ms₁ ms₂ ms₃ : Members} (h₁ : Members.Reordered ms₁ ms₂)
      (h₂ : Members.Reordered ms₂ ms₃) : Members.Reordered ms₁ ms₃

namespace Schema.Reordered

variable {s s' : Schema}

/-- Every permutation of the outermost fields is a reordering. -/
theorem of_perm (h : s.Perm s') : s.Reordered s' := by
  induction h with
  | nil => exact .nil
  | cons field _ ih => exact .cons field ih
  | swap field other s => exact .swap other field s
  | trans _ _ ih₁ ih₂ => exact .trans ih₁ ih₂

theorem names_perm (h : s.Reordered s') : (s.map (·.1)).Perm (s'.map (·.1)) := by
  induction h with
  | nil => exact .nil
  | cons field _ ih => exact ih.cons field.1
  | swap field other s => exact .swap other.1 field.1 _
  | inner name head _ s _ => exact .refl _
  | trans _ _ ih₁ ih₂ => exact ih₁.trans ih₂

/-- What holds of every rule of a schema holds of every rule of a reordered one, if it does not
depend on the order of fields. -/
theorem forall_rules {P : Rule → Prop}
    (hP : ∀ head fields fields', Schema.Reordered fields fields' →
      P (.nested head fields) → P (.nested head fields'))
    (h : s.Reordered s') (hs : ∀ r ∈ s.rules, P r) : ∀ r ∈ s'.rules, P r := by
  induction h with
  | nil => exact hs
  | cons field _ ih =>
      obtain ⟨name, rule⟩ := field
      intro r hr
      rcases List.mem_append.mp hr with hr | hr
      · exact hs r (List.mem_append_left _ hr)
      · exact ih (fun q hq => hs q (List.mem_append_right _ hq)) r hr
  | swap field other s =>
      intro r hr
      rcases List.mem_append.mp hr with hr | hr
      · exact hs r (List.mem_append_right _ (List.mem_append_left _ hr))
      · rcases List.mem_append.mp hr with hr | hr
        · exact hs r (List.mem_append_left _ hr)
        · exact hs r (List.mem_append_right _ (List.mem_append_right _ hr))
  | @inner name head fields fields' hfields s ih =>
      intro r hr
      rcases List.mem_append.mp hr with hr | hr
      · rcases List.mem_cons.mp hr with rfl | hr
        · exact hP head fields fields' hfields (hs _ (List.mem_append_left _ List.mem_cons_self))
        · have hinner : ∀ q ∈ Schema.rules fields, P q := fun q hq =>
            hs q (List.mem_append_left _ (List.mem_cons_of_mem _ hq))
          exact ih hinner r hr
      · exact hs r (List.mem_append_right _ hr)
  | trans _ _ ih₁ ih₂ => exact ih₂ (ih₁ hs)

theorem distinct (h : s.Reordered s') (hs : s.Distinct) : s'.Distinct := by
  refine ⟨(h.names_perm.nodup_iff).mp hs.1, h.forall_rules (fun _ _ _ hfields hrule => ?_) hs.2⟩
  exact (hfields.names_perm.nodup_iff).mp hrule

theorem checkTransformations {registry : Registry} (h : s.Reordered s')
    (hs : s.checkTransformations registry = .ok ()) :
    s'.checkTransformations registry = .ok () := by
  rw [Schema.checkTransformations_eq_ok_iff] at hs ⊢
  have hrules := h.forall_rules (P := fun r => ∀ name ∈ r.head.transform.names, ∀ e,
    ¬ registry.Refuses (name, r.head.options) e) (fun _ _ _ _ hrule => hrule)
  rintro ⟨name, options⟩ huse e
  obtain ⟨r, hr, hname, rfl⟩ := Schema.mem_usesIn.mp huse
  have hall : ∀ r ∈ s.rules, ∀ name ∈ r.head.transform.names, ∀ e,
      ¬ registry.Refuses (name, r.head.options) e :=
    fun r hr name hname => hs _ (Schema.mem_usesIn.mpr ⟨r, hr, hname, rfl⟩)
  exact hrules hall r hr name hname e

end Schema.Reordered

/-! ## Members -/

namespace Members.Reordered

theorem refl (ms : Members) : ms.Reordered ms := by
  induction ms with
  | nil => exact .nil
  | cons m ms ih => exact .cons m ih

theorem append_left (ms₀ : Members) {ms ms' : Members} (h : ms.Reordered ms') :
    Members.Reordered (ms₀ ++ ms) (ms₀ ++ ms') := by
  induction ms₀ with
  | nil => exact h
  | cons m ms₀ ih => exact .cons m ih

end Members.Reordered

/-! ## Some of the fields -/

namespace Schema

variable {s sub : Schema}

theorem rules_subset (h : sub.Sublist s) : sub.rules ⊆ s.rules := by
  induction h with
  | slnil => exact List.Subset.refl _
  | cons field _ ih => exact fun r hr => List.mem_append_right _ (ih hr)
  | cons_cons field _ ih =>
      intro r hr
      rcases List.mem_append.mp hr with hr | hr
      · exact List.mem_append_left _ hr
      · exact List.mem_append_right _ (ih hr)

theorem checkTransformations_sublist {registry : Registry} (h : sub.Sublist s)
    (hs : s.checkTransformations registry = .ok ()) :
    sub.checkTransformations registry = .ok () := by
  rw [checkTransformations_eq_ok_iff] at hs ⊢
  rintro ⟨name, options⟩ huse e
  obtain ⟨r, hr, hname, rfl⟩ := mem_usesIn.mp huse
  exact hs _ (mem_usesIn.mpr ⟨r, rules_subset h hr, hname, rfl⟩) e

end Schema

end Harvest
