import Harvest.Proofs.Batch.Alone
import Harvest.Proofs.Config.Documents
import Harvest.Proofs.Extract.Unpruned

/-!
# Items that are dropped

An item is dropped where one in front of it names the same place and its schema comes from an alike
source.  The order of members in the schema and the scope in which it takes something away are not
looked at, so an item may be dropped whose document would have given something else.
-/

namespace Harvest

/-! ## Which items stay -/

namespace Item

variable {here : Place} {i j : Item} {items before after kept : List Item}
  {seen : List (Place × String)}

/-- Whether an item names the same place as another one, and its schema comes from an alike
source. -/
structure Repeats (here : Place) (i j : Item) : Prop where
  place :
    Path.resolveFrom here (Path.ofString i.path) = Path.resolveFrom here (Path.ofString j.path)
  source : i.schema.Alike j.schema

theorem repeats_iff : i.Repeats here j ↔ i.identity here = j.identity here := by
  rw [identity, identity, Prod.mk.injEq, SchemaSource.key_eq_iff]
  exact ⟨fun h => ⟨h.place, h.source⟩, fun h => ⟨h.1, h.2⟩⟩

theorem dropSeen_sublist (here : Place) (seen : List (Place × String)) (items : List Item) :
    (dropSeen here seen items).Sublist items := by
  induction items generalizing seen with
  | nil => exact .slnil
  | cons i items ih =>
      rw [dropSeen]
      split
      · exact (ih seen).cons i
      · exact (ih _).cons_cons i

theorem dropSeen_of_mem (h : ∀ j ∈ items, j.identity here ∈ seen) :
    dropSeen here seen items = [] := by
  induction items with
  | nil => rfl
  | cons j items ih =>
      rw [dropSeen, if_pos (by simpa using h j List.mem_cons_self)]
      exact ih fun k hk => h k (List.mem_cons_of_mem j hk)

/-- Nothing stays behind an item that all others repeat. -/
theorem dedupe_of_repeats (hwhole : ∀ j ∈ i :: items, (Path.ofString j.path).isBroken = false)
    (h : ∀ j ∈ items, i.Repeats here j) : dedupe here (i :: items) = .ok [i] := by
  refine dedupe_eq_ok_iff.mpr ⟨hwhole, ?_⟩
  rw [dropSeen, if_neg (by simp)]
  exact congrArg (i :: ·) (dropSeen_of_mem fun j hj => by simp [repeats_iff.mp (h j hj)]).symm

/-- Items behind others are dropped if they were seen before or among the others. -/
theorem exists_dropSeen_append (here : Place) (seen : List (Place × String))
    (before after : List Item) : ∃ seen', dropSeen here seen (before ++ after) =
        dropSeen here seen before ++ dropSeen here seen' after ∧
      ∀ p, p ∈ seen' ↔ p ∈ seen ∨ ∃ i ∈ before, i.identity here = p := by
  induction before generalizing seen with
  | nil => exact ⟨seen, rfl, fun p => by simp⟩
  | cons i before ih =>
      rw [List.cons_append, dropSeen, dropSeen]
      by_cases hi : i.identity here ∈ seen
      · have hcontains : seen.contains (i.identity here) = true := by simpa using hi
        obtain ⟨seen', heq, hseen⟩ := ih seen
        rw [if_pos hcontains, if_pos hcontains]
        refine ⟨seen', heq, fun p => ?_⟩
        rw [hseen, List.exists_mem_cons_iff]
        constructor
        · rintro (hp | hp)
          · exact Or.inl hp
          · exact Or.inr (Or.inr hp)
        · rintro (hp | rfl | hp)
          · exact Or.inl hp
          · exact Or.inl hi
          · exact Or.inr hp
      · have hcontains : ¬ seen.contains (i.identity here) = true := by simpa using hi
        obtain ⟨seen', heq, hseen⟩ := ih (i.identity here :: seen)
        rw [if_neg hcontains, if_neg hcontains]
        refine ⟨seen', by rw [heq, List.cons_append], fun p => ?_⟩
        rw [hseen, List.mem_cons, List.exists_mem_cons_iff, eq_comm, or_assoc]
        exact or_left_comm

/-- An item stays just if none in front of it names its place with an alike schema; otherwise the
first that does so has stayed. -/
theorem dropSeen_split (here : Place) (before after : List Item) (j : Item) : ∃ back,
    back.Sublist after ∧
      ((dropSeen here [] (before ++ j :: after) = dropSeen here [] before ++ j :: back ∧
          ∀ i ∈ before, ¬ i.Repeats here j) ∨
        (dropSeen here [] (before ++ j :: after) = dropSeen here [] before ++ back ∧
          ∃ i ∈ dropSeen here [] before, i.Repeats here j)) := by
  obtain ⟨seen', heq, hseen⟩ := exists_dropSeen_append here [] before (j :: after)
  rw [heq, dropSeen]
  by_cases hj : j.identity here ∈ seen'
  · have hcontains : seen'.contains (j.identity here) = true := by simpa using hj
    rw [if_pos hcontains]
    refine ⟨_, dropSeen_sublist here seen' after, Or.inr ⟨rfl, ?_⟩⟩
    obtain ⟨i, hi⟩ : ∃ i, before.find? (fun k => k.identity here == j.identity here) = some i := by
      obtain ⟨k, hk, hkj⟩ := ((hseen _).mp hj).resolve_left List.not_mem_nil
      rw [← Option.isSome_iff_exists, List.find?_isSome]
      exact ⟨k, hk, by simpa using hkj⟩
    have hidentity : i.identity here = j.identity here := by simpa using List.find?_some hi
    refine ⟨i, mem_dropSeen_iff.mpr ⟨List.not_mem_nil, ?_⟩, repeats_iff.mpr hidentity⟩
    rw [hidentity, hi]
  · have hcontains : ¬ seen'.contains (j.identity here) = true := by simpa using hj
    rw [if_neg hcontains]
    refine ⟨_, dropSeen_sublist here _ after, Or.inl ⟨rfl, fun i hi hrepeats => hj ?_⟩⟩
    exact (hseen _).mpr (Or.inr ⟨i, hi, repeats_iff.mp hrepeats⟩)

end Item

/-! ## What is lost with an item -/

namespace Batch

variable {b : Batch} {w : Workplace} {i j : Item} {ms : Members}

/-- How an item of a batch takes something away. -/
def scopeOf (b : Batch) (i : Item) : PruneScope := i.scope.getD b.defaults.scope

/-- Whether a schema is read in the scopes of two items alike: the scopes are the same, or the
schema takes nothing away. -/
def ScopesAgree (b : Batch) (w : Workplace) (i j : Item) : Prop :=
  b.scopeOf i = b.scopeOf j ∨ ∀ schema, Schema.ofSource w j.schema = .ok schema → schema.Unpruned

theorem extract_of_scopesAgree (h : b.ScopesAgree w i j) {schema : Schema}
    (hschema : Schema.ofSource w j.schema = .ok schema) (source : Markup.Source) :
    (b.extractor i).extract schema source = (b.extractor j).extract schema source := by
  rcases h with h | h
  · rw [extractor, extractor]
    unfold scopeOf at h
    rw [h]
  · exact (b.extractor j).extract_scope (b.scopeOf i) (h schema hschema) source

/-- An item gives what another one gives that names the same place and is read by the same schema in
an agreeing scope, just if its own path leads there. -/
theorem alone_of_place_eq (hplace : Path.resolveFrom w.files.here (Path.ofString i.path) =
      Path.resolveFrom w.files.here (Path.ofString j.path))
    (hschema : Schema.ofSource w i.schema = Schema.ofSource w j.schema)
    (hscope : b.ScopesAgree w i j) (hj : b.alone w j j.schema = .ok ms) :
    b.alone w i i.schema = .ok ms ↔ ∃ q, w.files.locate (Path.ofString i.path) = .ok q := by
  obtain ⟨schema, s, hload, hread, hresult⟩ := alone_eq_ok_iff.mp hj
  obtain ⟨q', content, hq', hat, htext⟩ := FileSystem.readLossyText_eq_ok_iff.mp hread
  rw [alone_eq_ok_iff]
  constructor
  · rintro ⟨_, _, _, hread', _⟩
    obtain ⟨q, _, hq, _⟩ := FileSystem.readLossyText_eq_ok_iff.mp hread'
    exact ⟨q, hq⟩
  · rintro ⟨q, hq⟩
    obtain rfl : q = q' := by
      rw [← FileSystem.resolveFrom_of_locate hq, hplace, FileSystem.resolveFrom_of_locate hq']
    refine ⟨schema, s, hschema.trans hload, ?_, ?_⟩
    · exact FileSystem.readLossyText_eq_ok_iff.mpr ⟨q, content, hq, hat, htext⟩
    · rw [extract_of_scopesAgree hscope hload]
      exact hresult

/-- Dropping fails just if a path is broken.  The items that stay are in their order; each item of
all stays just if none in front of it names its place with an alike schema source, and otherwise
there is such an item among those in front that have stayed.  By the same schema and in an agreeing
scope that one gives what the dropped one gives, if its path leads to the place; the order of
members in the schema and the scope are not looked at. -/
theorem dedupe_repeats (here : Place) (items : List Item) :
    ((∃ kept, Item.dedupe here items = .ok kept) ↔
      ∀ i ∈ items, (Path.ofString i.path).isBroken = false) ∧
    ∀ kept, Item.dedupe here items = .ok kept → kept.Sublist items ∧
      ∀ before j after, items = before ++ j :: after →
        ∃ front back, Item.dedupe here before = .ok front ∧ back.Sublist after ∧
          ((kept = front ++ j :: back ∧ ∀ i ∈ before, ¬ i.Repeats here j) ∨
            (kept = front ++ back ∧ ∃ i ∈ front, i.Repeats here j ∧
              ∀ (b : Batch) (w : Workplace) (ms : Members), w.files.here = here →
                b.alone w j j.schema = .ok ms →
                Schema.ofSource w i.schema = Schema.ofSource w j.schema → b.ScopesAgree w i j →
                  (b.alone w i i.schema = .ok ms ↔
                    ∃ q, w.files.locate (Path.ofString i.path) = .ok q))) := by
  refine ⟨by simp [Item.dedupe_eq_ok_iff], fun kept hkept => ?_⟩
  obtain ⟨hwhole, rfl⟩ := Item.dedupe_eq_ok_iff.mp hkept
  refine ⟨Item.dropSeen_sublist here [] items, ?_⟩
  rintro before j after rfl
  have hbefore : Item.dedupe here before = .ok (Item.dropSeen here [] before) :=
    Item.dedupe_eq_ok_iff.mpr ⟨fun i hi => hwhole i (List.mem_append_left _ hi), rfl⟩
  obtain ⟨back, hback, hstays | ⟨hdropped, i, hi, hrepeats⟩⟩ :=
    Item.dropSeen_split here before after j
  · exact ⟨_, back, hbefore, hback, Or.inl hstays⟩
  · refine ⟨_, back, hbefore, hback, Or.inr ⟨hdropped, i, hi, hrepeats, ?_⟩⟩
    rintro b w ms rfl hj hschema hscope
    exact alone_of_place_eq hrepeats.place hschema hscope hj

/-! ### Readings of a page -/

/-- The page, with its text and its paragraph; a paragraph directly in the context is taken away. -/
def textFirst : Item where
  path := "page"
  schema := .inline
    [("text", .map [("selector", .str "body"), ("removeSelector", .str "p")]),
      ("word", .str "body/p")]

/-- The same at another path of the page. -/
def textDotted : Item := { textFirst with path := "./page" }

/-- The same with paragraphs taken out of each match. -/
def textEach : Item := { textFirst with scope := some .eachMatch }

/-- The same with the fields in another order. -/
def wordFirst : Item where
  path := "page"
  schema := .inline
    [("word", .str "body/p"),
      ("text", .map [("selector", .str "body"), ("removeSelector", .str "p")])]

theorem repeats_textFirst {j : Item} (hj : j ∈ [textDotted, textEach, wordFirst]) :
    textFirst.Repeats [] j := by
  rw [List.mem_cons, List.mem_pair] at hj
  rcases hj with rfl | rfl | rfl
  · have hplace : Path.resolveFrom [] (Path.ofString "page") =
        Path.resolveFrom [] (Path.ofString "./page") := by cbv
    exact ⟨hplace, SchemaSource.key_eq_iff.mp rfl⟩
  · exact ⟨rfl, SchemaSource.key_eq_iff.mp rfl⟩
  · exact ⟨rfl, SchemaSource.alike_of_perm (List.Perm.swap _ _ _) (by decide)⟩

theorem dedupe_textFirst (items : List Item) (h : items.Sublist [textDotted, textEach, wordFirst]) :
    Item.dedupe [] (textFirst :: items) = .ok [textFirst] := by
  refine Item.dedupe_of_repeats (fun j hj => ?_) fun j hj => repeats_textFirst (h.mem hj)
  have hpath : j.path ∈ ["page", "./page"] := by
    have hmem : j ∈ [textFirst, textDotted, textEach, wordFirst] := (h.cons_cons _).mem hj
    simp only [List.mem_cons, List.not_mem_nil, or_false] at hmem
    rcases hmem with rfl | rfl | rfl | rfl <;> simp [textFirst, textDotted, textEach, wordFirst]
  rcases List.mem_pair.mp hpath with h | h <;> rw [h] <;> cbv

theorem exists_alone {i : Item} {keys : List String}
    (hread : samplePlace.files.readLossyText (Path.ofString i.path) = .ok "<p>1</p>")
    (h : ((Schema.ofSource samplePlace i.schema).toOption.bind fun schema =>
      ((sampleBatch.extractor i).extract schema (.text "<p>1</p>")).toOption.map Members.keys) =
        some keys) :
    ∃ ms, sampleBatch.alone samplePlace i i.schema = .ok ms ∧ ms.keys = keys := by
  obtain ⟨schema, hschema, hrest⟩ := Option.bind_eq_some_iff.mp h
  obtain ⟨ms, hms, hkeys⟩ := Option.map_eq_some_iff.mp hrest
  have hschema := eq_ok_of_toOption hschema
  have hms := eq_ok_of_toOption hms
  exact ⟨ms, alone_eq_ok_iff.mpr ⟨schema, _, hschema, hread, hms⟩, hkeys⟩

theorem dedupe_repeats_dotted : ∃ ms,
    Item.dedupe samplePlace.files.here [textFirst, textDotted] = .ok [textFirst] ∧
    sampleBatch.alone samplePlace textDotted textDotted.schema = .ok ms ∧
    sampleBatch.alone samplePlace textFirst textFirst.schema = .ok ms ∧
    ms.keys = ["text", "word"] := by
  have hread : samplePlace.files.readLossyText (Path.ofString "./page") = .ok "<p>1</p>" := by cbv
  obtain ⟨ms, hms, hkeys⟩ := @exists_alone textDotted ["text", "word"] hread (by decide +kernel)
  have hdedupe := dedupe_textFirst [textDotted] (by simp)
  have hbefore := dedupe_textFirst [] (List.nil_sublist _)
  obtain ⟨front, back, hfront, hback, h⟩ :=
    ((dedupe_repeats [] [textFirst, textDotted]).2 _ hdedupe).2 [textFirst] textDotted [] rfl
  obtain rfl := Except.ok.inj (hbefore.symm.trans hfront)
  obtain rfl := List.sublist_nil.mp hback
  obtain ⟨hstays, _⟩ | ⟨_, i, hi, _, hgives⟩ := h
  · cases hstays
  · obtain rfl := List.mem_singleton.mp hi
    have hlocate : samplePlace.files.locate (Path.ofString "page") = .ok ["page"] := by cbv
    have hfirst := (hgives sampleBatch samplePlace ms rfl hms rfl (Or.inl rfl)).mpr ⟨_, hlocate⟩
    exact ⟨ms, hdedupe, hms, hfirst, hkeys⟩

/-- Of three items with different results only the first stays: the second has another scope, and
the third its fields in another order. -/
theorem dedupe_drops_results : ∃ text each word,
    Item.dedupe samplePlace.files.here [textFirst, textEach, wordFirst] = .ok [textFirst] ∧
    sampleBatch.alone samplePlace textFirst textFirst.schema = .ok text ∧
    sampleBatch.alone samplePlace textEach textEach.schema = .ok each ∧
    sampleBatch.alone samplePlace wordFirst wordFirst.schema = .ok word ∧
    text.keys = ["text", "word"] ∧ each.keys = ["text"] ∧ word.keys = ["word", "text"] := by
  obtain ⟨text, htext, hkeys₁⟩ :=
    @exists_alone textFirst ["text", "word"] read_page (by decide +kernel)
  obtain ⟨each, heach, hkeys₂⟩ := @exists_alone textEach ["text"] read_page (by decide +kernel)
  obtain ⟨word, hword, hkeys₃⟩ :=
    @exists_alone wordFirst ["word", "text"] read_page (by decide +kernel)
  have hdedupe := dedupe_textFirst [textEach, wordFirst] (List.sublist_cons_self _ _)
  exact ⟨text, each, word, hdedupe, htext, heach, hword, hkeys₁, hkeys₂, hkeys₃⟩

end Batch

end Harvest
