import Harvest.Proofs.Batch.Room
import Mathlib

/-!
# Documents read alone

In whichever order a batch does its documents, and whatever it has done before, each result is the
one that the document gives when it is read alone, by the schema of the first item of its key.
-/

namespace Harvest.Batch

/-! ## Set-up -/

theorem run_nil (b : Batch) (order : List Nat) (w : Workplace) :
    ((b.run [] order).run w).1 = (.ok [], b) := rfl

/-- Whatever a run comes to, it leaves the batch with the schemas that it has loaded. -/
theorem setup_run_loaded (b : Batch) (items : List Item) (order : List Nat) (w : Workplace) :
    ((b.run items order).run w).1.2.setup = (b.loaded w items).setup := by
  by_cases hne : items = []
  · subst hne
    rw [run_nil, setup, setup, loaded, newSchemas]
    simp [schemasOf, firstItems]
  · obtain ⟨events, ⟨hrun, _⟩ | ⟨_, e, hrun⟩⟩ := b.run_eq_runLoaded hne w
    · obtain ⟨b₁, events₁, _, _, hloaded⟩ :=
        (b.loaded w items).run_runLoaded items { w with journal := events }
      obtain ⟨b₃, events₃, hrun', hsetup⟩ := hloaded order _ _ _ rfl
      rw [hrun, hrun']
      exact hsetup
    · rw [hrun]

theorem setup_run {b : Batch} {w₀ w : Workplace} {known items : List Item} (order : List Nat)
    (hb : b.schemas = schemasOf w₀ known)
    (hw : ∀ i ∈ items, Schema.describe w i.schema = Schema.describe w₀ i.schema) :
    ((b.run items order).run w).1.2.setup = (b.defaults, b.registry,
      schemasOf w₀ (known ++ newcomers w₀ known items)) := by
  rw [setup_run_loaded, ← schemas_newcomers hb hw]
  rfl

theorem setup_finish (b : Batch) (w : Workplace) : (b.finish.run w).1.2.setup = b.setup := by
  rw [finish, Work.run_bind]
  rcases b.store.finish.run w with ⟨⟨r, store⟩, w'⟩
  cases r with
  | ok u => rfl
  | error lost => exact setup_withdrawAll { b with store } lost.sources w'

/-! ## Sessions -/

/-- What the document of an item gives alone, by a schema source that is loaded for it. -/
def alone (b : Batch) (w : Workplace) (i : Item) (source : SchemaSource) :
    Except BatchError Members :=
  match Schema.ofSource w source with
  | .error e => .error (.schema e)
  | .ok schema => (b.extractDocument w.files i schema).mapError .document

/-- The batches that a session of runs leads to, from one that knows no schema, with the items whose
schemas they know.  A run finds the schema sources as they were at the beginning; whatever else
happens to the workplace, and whether the run breaks off, does not matter. -/
inductive Session (w₀ : Workplace) : Batch → List Item → Prop
  | start (b : Batch) (h : b.schemas = []) : Session w₀ b []
  | run {b : Batch} {known items : List Item} {order : List Nat} {w : Workplace}
      (h : Session w₀ b known)
      (hw : ∀ i ∈ items, Schema.describe w i.schema = Schema.describe w₀ i.schema) :
      Session w₀ ((b.run items order).run w).1.2 (known ++ newcomers w₀ known items)
  | finish {b : Batch} {known : List Item} {w : Workplace} (h : Session w₀ b known) :
      Session w₀ (b.finish.run w).1.2 known

/-- Through a whole session a batch keeps the schemas of the items that it knows, by their keys, as
they were at the beginning. -/
theorem Session.schemas_eq {w₀ : Workplace} {b : Batch} {known : List Item}
    (h : Session w₀ b known) : b.schemas = schemasOf w₀ known := by
  induction h with
  | start b h => simp [h, schemasOf]
  | run h hw ih => exact congrArg (·.2.2) (setup_run _ ih hw)
  | finish h ih => exact (congrArg (·.2.2) (setup_finish _ _)).trans ih

/-! ## Findings -/

theorem sublistForall₂_positions {items : List Item} {P : Finding → Item → Prop}
    {g : Nat → Option Finding} (h : ∀ n f, g n = some f → ∃ i, items[n]? = some i ∧ P f i) :
    ((List.range items.length).filterMap g).SublistForall₂ P items := by
  induction items generalizing g with
  | nil => exact .nil
  | cons i is ih =>
      have hrest := @ih (fun n => g (n + 1)) fun n f hf => by simpa using h (n + 1) f hf
      rw [List.length_cons, List.range_succ_eq_map, List.filterMap_cons, List.filterMap_map]
      cases hf : g 0 with
      | none => exact .cons_right hrest
      | some f =>
          obtain ⟨j, hj, hP⟩ := h 0 f hf
          obtain rfl : i = j := by simpa using hj
          exact .cons hP hrest

theorem sublistForall₂_mono {P Q : Finding → Item → Prop} (h : ∀ f i, P f i → Q f i)
    {found : List Finding} {items : List Item} (hP : found.SublistForall₂ P items) :
    found.SublistForall₂ Q items := by
  induction hP with
  | nil => exact .nil
  | cons hP _ ih => exact .cons (h _ _ hP) ih
  | cons_right _ ih => exact .cons_right ih

theorem sublistForall₂_of_sublist {P : Finding → Item → Prop} {found all : List Finding}
    {items : List Item} (hsub : found.Sublist all) (h : all.SublistForall₂ P items) :
    found.SublistForall₂ P items := by
  induction h generalizing found with
  | nil =>
      obtain rfl := List.sublist_nil.mp hsub
      exact .nil
  | cons hP _ ih =>
      cases hsub with
      | cons _ hsub => exact .cons_right (ih hsub)
      | cons_cons _ hsub => exact .cons hP (ih hsub)
  | cons_right _ ih => exact .cons_right (ih hsub)

/-- After whatever runs, and in whichever order the documents of a run are done, each finding
belongs to an item, in item order, and is what the document of the item gives by the schema of the
item's leader. -/
theorem run_gives {w₀ w : Workplace} {b : Batch} {known items : List Item} {order : List Nat}
    {found : List Finding} (h : Session w₀ b known)
    (hw : ∀ i ∈ items, Schema.describe w i.schema = Schema.describe w₀ i.schema)
    (hdocs : ∀ k, SameDocuments items ((b.run items (order.take k)).run w).2.files w₀.files)
    (hfound : ((b.run items order).run w).1.1 = .ok found) :
    found.SublistForall₂ (fun f i => ∃ j schema,
      leader? (known ++ newcomers w₀ known items) i = some j ∧
        Schema.ofSource w₀ j.schema = .ok schema ∧ b.Gives w₀.files i schema f) items := by
  by_cases hne : items = []
  · subst hne
    obtain rfl : [] = found := Except.ok.inj hfound
    exact .nil
  obtain ⟨events, ⟨hrun, _⟩ | ⟨_, e, hrun⟩⟩ := run_cases hne h.schemas_eq hw
  swap
  · rw [hrun] at hfound
    cases hfound
  obtain ⟨b₁, events₁, hsetup, _, hloaded⟩ :=
    (b.ready w₀ known items).run_runLoaded items { w with journal := events }
  -- the documents are as they were also while the items run behind the loading of schemas
  have hdocs₁ : ∀ k, SameDocuments items
      ((b₁.runItems items (order.take k)).run { w with journal := events₁ }).2.files w₀.files := by
    intro k
    obtain ⟨b₃, events₃, hrun', _⟩ := hloaded (order.take k) _ _ _ rfl
    have hk := hdocs k
    rw [hrun, hrun'] at hk
    exact hk
  rcases hitems : (b₁.runItems items order).run { w with journal := events₁ } with ⟨⟨r, b₂⟩, w₂⟩
  obtain ⟨b₃, events₃, hrun', _⟩ := hloaded order r b₂ w₂ hitems
  rw [hrun, hrun'] at hfound
  cases r with
  | error e => cases hfound
  | ok made =>
  obtain rfl := Except.ok.inj hfound
  obtain ⟨hdefaults, hregistry, hschemas⟩ := setup_eq_iff.mp hsetup
  have hmade : ((b₁.runItems items order).run { w with journal := events₁ }).1.1 = .ok made := by
    rw [hitems]
  refine sublistForall₂_of_sublist List.filter_sublist (sublistForall₂_positions fun n f hf => ?_)
  obtain ⟨i, schema, hi, hschema, hgives⟩ := gives_runItems hdocs₁ hmade (mem_of_lookup hf)
  rw [schemaOf?, hschemas, ready, lookup_schemasOf] at hschema
  obtain ⟨j, hj, hload⟩ := Option.map_eq_some_iff.mp hschema
  exact ⟨i, hi, j, schema, hj, hload, hgives.congr hdefaults.symm hregistry.symm rfl⟩

theorem alone_of_gives {b : Batch} {w : Workplace} {i j : Item} {schema : Schema} {f : Finding}
    (hschema : Schema.ofSource w j.schema = .ok schema) (h : b.Gives w.files i schema f) :
    b.alone w i j.schema = .ok f.record.result := by
  obtain ⟨_, _, hresult⟩ := h
  rw [alone, hschema]
  simp only [hresult]
  rfl

theorem alone_eq_ok_iff {b : Batch} {w : Workplace} {i : Item} {ms : Members} :
    b.alone w i i.schema = .ok ms ↔ ∃ schema s,
      Schema.ofSource w i.schema = .ok schema ∧
      w.files.readLossyText (Path.ofString i.path) = .ok s ∧
      (b.extractor i).extract schema (.text s) = .ok ms := by
  rw [alone]
  cases hschema : Schema.ofSource w i.schema with
  | error e => simp
  | ok schema =>
      dsimp only
      rw [extractDocument]
      cases hread : w.files.readLossyText (Path.ofString i.path) with
      | error e => simp [Except.mapError]
      | ok s =>
          dsimp only
          cases hresult : (b.extractor i).extract schema (.text s) with
          | error e => simp [Except.mapError, hresult]
          | ok result => simp [Except.mapError, hresult]

/-- After whatever runs, and in whichever order the documents of a run are done, each record belongs
to an item, in item order, and holds what the document of the item gives alone by the schema of the
item's leader, which differs from the item's own at most in the order of members.  So it holds what
the document gives alone by the schema of the item itself just if the leader's gives the same. -/
theorem run_alone_iff {w₀ w : Workplace} {b : Batch} {known items : List Item} {order : List Nat}
    {found : List Finding} (h : Session w₀ b known)
    (hw : ∀ i ∈ items, Schema.describe w i.schema = Schema.describe w₀ i.schema)
    (hdocs : ∀ k, SameDocuments items ((b.run items (order.take k)).run w).2.files w₀.files)
    (hfound : ((b.run items order).run w).1.1 = .ok found) :
    found.SublistForall₂ (fun f i => f.record.source = i.path ∧ f.record.name = i.outputName ∧
      ∃ j, leader? (known ++ newcomers w₀ known items) i = some j ∧ j.schema.Alike i.schema ∧
        b.alone w₀ i j.schema = .ok f.record.result ∧
        (b.alone w₀ i i.schema = .ok f.record.result ↔
          b.alone w₀ i i.schema = b.alone w₀ i j.schema)) items := by
  refine sublistForall₂_mono (fun f i hf => ?_) (run_gives h hw hdocs hfound)
  obtain ⟨j, schema, hj, hload, hgives⟩ := hf
  have hresult := alone_of_gives hload hgives
  refine ⟨hgives.1, hgives.2.1, j, hj, alike_of_leader? hj, hresult, ?_⟩
  rw [hresult]

/-! ## A sample -/

/-- A place with a page. -/
def samplePlace : Workplace :=
  { files := { here := [], entries := [(["page"], .file "<p>1</p>".toUTF8)] } }

/-- A batch that holds its records back. -/
def sampleBatch : Batch := { defaults := {}, store := .records { path := Path.ofString "found" } }

/-- The page, with a schema of two fields. -/
def kindFirst : Item :=
  { path := "page", schema := .inline [("kind", .str "'page'"), ("root", .str "name()")] }

/-- The page, with the same schema in another order. -/
def rootFirst : Item :=
  { path := "page", schema := .inline [("root", .str "name()"), ("kind", .str "'page'")] }

theorem key_rootFirst : rootFirst.schema.key = kindFirst.schema.key := by cbv

theorem read_page : samplePlace.files.readLossyText (Path.ofString "page") = .ok "<p>1</p>" := by
  cbv

theorem exists_result {w : Workplace} {i : Item} {key : String} {keys : List String}
    (hread : w.files.readLossyText (Path.ofString i.path) = .ok "<p>1</p>")
    (hscope : i.scope = none)
    (h : ((Schema.ofSource w i.schema).toOption.bind fun schema =>
      (({} : Extractor).extract schema (.text "<p>1</p>")).toOption.map Members.keys) =
        some (key :: keys)) :
    ∃ schema m ms, Schema.ofSource w i.schema = .ok schema ∧
      sampleBatch.extractDocument w.files i schema = .ok (m :: ms) ∧
      Members.keys (m :: ms) = key :: keys := by
  cases hschema : Schema.ofSource w i.schema with
  | error e => simp [hschema, Except.toOption] at h
  | ok schema =>
      simp only [hschema, Except.toOption, Option.bind_some] at h
      cases hresult : ({} : Extractor).extract schema (.text "<p>1</p>") with
      | error e => simp [hresult] at h
      | ok result =>
          cases result with
          | nil => simp [hresult, Members.keys] at h
          | cons m ms =>
              refine ⟨schema, m, ms, rfl, ?_, by simpa [hresult] using h⟩
              rw [extractDocument, hread]
              simp only [extractor, hscope]
              exact congrArg _ hresult

theorem exists_result_kindFirst : ∃ schema m ms,
    Schema.ofSource samplePlace kindFirst.schema = .ok schema ∧
      sampleBatch.extractDocument samplePlace.files kindFirst schema = .ok (m :: ms) ∧
      Members.keys (m :: ms) = ["kind", "root"] :=
  exists_result read_page rfl (by decide +kernel)

theorem exists_result_rootFirst : ∃ schema m ms,
    Schema.ofSource samplePlace rootFirst.schema = .ok schema ∧
      sampleBatch.extractDocument samplePlace.files rootFirst schema = .ok (m :: ms) ∧
      Members.keys (m :: ms) = ["root", "kind"] :=
  exists_result read_page rfl (by decide +kernel)

theorem newcomers_sample : newcomers samplePlace [] [kindFirst, rootFirst] = [kindFirst] := by
  obtain ⟨schema, _, _, hschema, _⟩ := exists_result_kindFirst
  simp [newcomers, firstItems, key_rootFirst, hschema, Schema.isKept]

theorem leader?_sample {i : Item} (hi : i ∈ [kindFirst, rootFirst]) :
    leader? ([] ++ newcomers samplePlace [] [kindFirst, rootFirst]) i = some kindFirst := by
  have hkey : i.schema.key = kindFirst.schema.key := by
    rcases List.mem_pair.mp hi with rfl | rfl
    · rfl
    · exact key_rootFirst
  simp [newcomers_sample, leader?, hkey]

theorem run_sample : ∃ found,
    ((sampleBatch.run [kindFirst, rootFirst] [0, 1]).run samplePlace).1.1 = .ok found ∧
      found.length = 2 := by
  obtain ⟨schema, m, ms, hschema, hread, _⟩ := exists_result_kindFirst
  obtain ⟨schema', _, _, hschema', _⟩ := exists_result_rootFirst
  have hkept : ∀ i ∈ [kindFirst, rootFirst],
      Schema.isKept (Schema.ofSource samplePlace i.schema) = true := by
    intro i hi
    rcases List.mem_pair.mp hi with rfl | rfl
    · rw [hschema]
      rfl
    · rw [hschema']
      rfl
  have horder : oneByOne [kindFirst, rootFirst] = [0, 1] := rfl
  obtain ⟨found, b₁, w₁, hrun, hlength⟩ := @exists_run_room sampleBatch samplePlace samplePlace []
    [kindFirst, rootFirst] (by simp) rfl (fun i hi => rfl) ⟨_, rfl, by decide⟩ hkept
    fun i hi => by
      refine ⟨kindFirst, schema, m, ms, leader?_sample hi, hschema, ?_⟩
      rcases List.mem_pair.mp hi with rfl | rfl
      · exact hread
      · exact hread
  refine ⟨found, ?_, hlength⟩
  rw [← horder, hrun]

theorem sameDocuments_sample (k : Nat) : SameDocuments [kindFirst, rootFirst]
    ((sampleBatch.run [kindFirst, rootFirst] ([0, 1].take k)).run samplePlace).2.files
    samplePlace.files := by
  have hroom : sampleBatch.HasRoom ([0, 1].take k).length := by
    refine HasRoom.mono ⟨_, rfl, ?_⟩ (List.length_take_le' k [0, 1])
    decide
  rw [@files_run_room sampleBatch samplePlace samplePlace [] _ _ rfl (fun i hi => rfl) hroom]
  exact fun i hi => rfl

theorem run_alone_iff_sample : ∃ found, Session samplePlace sampleBatch [] ∧
    (∀ k, SameDocuments [kindFirst, rootFirst]
      ((sampleBatch.run [kindFirst, rootFirst] ([0, 1].take k)).run samplePlace).2.files
      samplePlace.files) ∧
    ((sampleBatch.run [kindFirst, rootFirst] [0, 1]).run samplePlace).1.1 = .ok found ∧
    found.length = 2 ∧
    found.SublistForall₂ (fun f i => f.record.source = i.path ∧ f.record.name = i.outputName ∧
      ∃ j, leader? ([] ++ newcomers samplePlace [] [kindFirst, rootFirst]) i = some j ∧
        j.schema.Alike i.schema ∧
        sampleBatch.alone samplePlace i j.schema = .ok f.record.result ∧
        (sampleBatch.alone samplePlace i i.schema = .ok f.record.result ↔
          sampleBatch.alone samplePlace i i.schema = sampleBatch.alone samplePlace i j.schema))
      [kindFirst, rootFirst] := by
  obtain ⟨found, hfound, hlength⟩ := run_sample
  have hsession : Session samplePlace sampleBatch [] := .start sampleBatch rfl
  exact ⟨found, hsession, sameDocuments_sample, hfound, hlength,
    run_alone_iff hsession (fun i hi => rfl) sameDocuments_sample hfound⟩

/-- The second record has its fields in the order of the first item's schema. -/
theorem run_reorders : ∃ f₁ f₂ result, Session samplePlace sampleBatch [] ∧
    (∀ k, SameDocuments [kindFirst, rootFirst]
      ((sampleBatch.run [kindFirst, rootFirst] ([0, 1].take k)).run samplePlace).2.files
      samplePlace.files) ∧
    ((sampleBatch.run [kindFirst, rootFirst] [0, 1]).run samplePlace).1.1 = .ok [f₁, f₂] ∧
    f₂.record.result.keys = ["kind", "root"] ∧
    sampleBatch.alone samplePlace rootFirst rootFirst.schema = .ok result ∧
    result.keys = ["root", "kind"] := by
  obtain ⟨found, hfound, hlength⟩ := run_sample
  have hsession : Session samplePlace sampleBatch [] := .start sampleBatch rfl
  have hgives := run_gives hsession (fun i hi => rfl) sameDocuments_sample hfound
  obtain ⟨made, hmade, hsub⟩ := List.sublistForall₂_iff.mp hgives
  obtain rfl := hsub.eq_of_length (hmade.length_eq.symm.trans hlength)
  obtain ⟨f₁, _, _, hrest, rfl⟩ := List.forall₂_cons_right_iff.mp hmade
  obtain ⟨f₂, _, ⟨j, schema, hj, hschema, hf₂⟩, hnil, rfl⟩ := List.forall₂_cons_right_iff.mp hrest
  obtain rfl := List.forall₂_nil_right_iff.mp hnil
  obtain rfl : kindFirst = j := by
    rw [leader?_sample (by simp)] at hj
    exact Option.some.inj hj
  obtain ⟨schema₁, m₁, ms₁, hschema₁, hread₁, hkeys₁⟩ := exists_result_kindFirst
  obtain ⟨schema₂, m₂, ms₂, hschema₂, hread₂, hkeys₂⟩ := exists_result_rootFirst
  obtain rfl : schema = schema₁ := by
    rw [hschema₁] at hschema
    exact (Except.ok.inj hschema).symm
  refine ⟨f₁, f₂, m₂ :: ms₂, hsession, sameDocuments_sample, hfound, ?_, ?_, hkeys₂⟩
  · -- both items have the same document
    have hresult : sampleBatch.extractDocument samplePlace.files kindFirst schema =
        .ok f₂.record.result := hf₂.2.2
    rw [hread₁] at hresult
    rw [← Except.ok.inj hresult]
    exact hkeys₁
  · rw [alone, hschema₂]
    simp only [hread₂]
    rfl

end Harvest.Batch
