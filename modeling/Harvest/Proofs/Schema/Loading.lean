import Harvest.Proofs.Json.Limits
import Harvest.Proofs.Text.Decoded
import Harvest.Schema.Load
import Mathlib

/-!
# Loading schemas

What loading a schema comes to, from whichever source: a schema, if the source gives a value that
describes one; an error of the file system, if the file of the schema cannot be read; and an error
that loading does not expect, if the bytes of the file are no text or an integer in it is too long.
In all other cases it is a fault of the schema.
-/

namespace Harvest

/-- The path of a schema file; sources of other kinds have none. -/
def SchemaSource.filePath? : SchemaSource → Option Path
  | .inline _ => none
  | .named name => if isAddress name then none else some (Path.ofString name)

namespace Schema

/-- The value that a source gives: members as they are, what the text of a file writes, or what the
page of an address writes. -/
inductive Gives (w : Workplace) : SchemaSource → Json → Prop
  | inline (ms : Members) : Gives w (.inline ms) (.map ms)
  | file {source : SchemaSource} {p : Path} {s : String} {v : Json}
      (hp : source.filePath? = some p) (hread : w.files.read p = .ok s.toUTF8)
      (hv : Json.read (Text.unifyLines s) = .ok v) : Gives w source v
  | page {name : String} {page : Page} {v : Json} (hname : SchemaSource.isAddress name = true)
      (hpage : w.pages.lookup name = some page) (hstatus : isFailure page.status = false)
      (hv : Json.read page.body = .ok v) : Gives w (.named name) v

/-- What loading does not expect of a schema file: bytes that are no text, or a text with an integer
of more digits than are read. -/
inductive Unforeseen (content : ByteArray) : JsonFileError → Prop
  | bytes (h : ∀ s : String, content ≠ s.toUTF8) : Unforeseen content .undecodable
  | integer {s : String} {n : Nat} (hs : content = s.toUTF8) (hn : Json.maxIntegerDigits < n)
      (h : Json.read (Text.unifyLines s) = .error (.longInteger n)) :
      Unforeseen content (.longInteger n)

/-! ## Files -/

section
variable {fs : FileSystem} {p : Path}

theorem readFile_of_error {e : FileError} (h : fs.read p = .error e) :
    readFile fs p = .error (.file p.toString (if e.isAbsence then .absent else .unreadable e)) := by
  rw [readFile, FileSystem.readJson, FileSystem.readText, h]
  dsimp only
  cases e.isAbsence <;> rfl

theorem readFile_of_text {s : String} (h : fs.read p = .ok s.toUTF8) :
    readFile fs p = match Json.read (Text.unifyLines s) with
      | .ok v => .ok v
      | .error .malformed => .error (.schema (.notJson p.toString))
      | .error (.longInteger n) => .error (.file p.toString (.longInteger n)) := by
  rw [readFile, FileSystem.readJson, FileSystem.readText, h]
  dsimp only
  rw [Text.readUtf8?_toUTF8]
  dsimp only
  rcases Json.read (Text.unifyLines s) with (_ | n) | v <;> rfl

theorem readFile_of_unforeseen {content : ByteArray} {e : JsonFileError}
    (h : fs.read p = .ok content) (he : Unforeseen content e) :
    readFile fs p = .error (.file p.toString e) := by
  cases he with
  | bytes hbytes =>
      rw [readFile, FileSystem.readJson, FileSystem.readText, h]
      dsimp only
      rw [Text.readUtf8?_eq_none_iff.mpr hbytes]
  | integer hs _ hlong =>
      rw [hs] at h
      rw [readFile_of_text h, hlong]

/-- A file that can be read is no text or a text, which is JSON or not, or has an integer that is
too long. -/
theorem readFile_cases {content : ByteArray} (h : fs.read p = .ok content) :
    (∃ s v, content = s.toUTF8 ∧ Json.read (Text.unifyLines s) = .ok v) ∨
      readFile fs p = .error (.schema (.notJson p.toString)) ∨ ∃ e, Unforeseen content e := by
  cases htext : Text.readUtf8? content with
  | none => exact Or.inr (Or.inr ⟨_, .bytes (Text.readUtf8?_eq_none_iff.mp htext)⟩)
  | some s =>
      have hs := Text.readUtf8?_eq_some_iff.mp htext
      cases hread : Json.read (Text.unifyLines s) with
      | ok v => exact Or.inl ⟨s, v, hs, hread⟩
      | error e =>
          cases e with
          | malformed =>
              rw [hs] at h
              refine Or.inr (Or.inl ?_)
              rw [readFile_of_text h, hread]
          | longInteger n =>
              exact Or.inr (Or.inr ⟨_, .integer hs (Json.lt_of_read_longInteger hread) hread⟩)

end

/-! ## Sources -/

section
variable {w : Workplace} {source : SchemaSource} {p : Path}

theorem describe_of_filePath? (h : source.filePath? = some p) :
    describe w source = readFile w.files p := by
  cases source with
  | inline ms => cases h
  | named name =>
      rw [SchemaSource.filePath?] at h
      split at h
      · cases h
      · next hname =>
        obtain rfl := Option.some.inj h
        rw [describe, if_neg hname]

theorem ofSource_of_describe {e : LoadError} (h : describe w source = .error e) :
    ofSource w source = .error e := by
  rw [ofSource, h]

theorem ofSource_of_error {trouble : FileError} (hp : source.filePath? = some p)
    (hread : w.files.read p = .error trouble) : ofSource w source =
      .error (.file p.toString (if trouble.isAbsence then .absent else .unreadable trouble)) := by
  refine ofSource_of_describe ?_
  rw [describe_of_filePath? hp, readFile_of_error hread]

theorem ofSource_of_unforeseen {content : ByteArray} {lost : JsonFileError}
    (hp : source.filePath? = some p) (hread : w.files.read p = .ok content)
    (hlost : Unforeseen content lost) : ofSource w source = .error (.file p.toString lost) := by
  refine ofSource_of_describe ?_
  rw [describe_of_filePath? hp, readFile_of_unforeseen hread hlost]

/-- A source that gives a value is loaded as what the value describes. -/
theorem Gives.ofSource {v : Json} (h : Gives w source v) :
    ofSource w source = (compile v).mapError .schema := by
  have hdescribe : describe w source = .ok v := by
    cases h with
    | inline ms => rfl
    | file hp hread hv => rw [describe_of_filePath? hp, readFile_of_text hread, hv]
    | page hname hpage hstatus hv =>
        rw [describe, if_pos hname, fetch, hpage]
        dsimp only
        rw [hstatus, hv]
        rfl
  rw [Schema.ofSource, hdescribe]

/-- A page that gives no value is a fault of the schema. -/
theorem fetch_cases (pages : List (String × Page)) (name : String) :
    (∃ page v, pages.lookup name = some page ∧ isFailure page.status = false ∧
        Json.read page.body = .ok v) ∨ fetch pages name = .error (.notFetched name) := by
  unfold fetch
  cases hpage : pages.lookup name with
  | none => exact Or.inr rfl
  | some page =>
      dsimp only
      cases hstatus : isFailure page.status with
      | true => exact Or.inr rfl
      | false =>
          cases hread : Json.read page.body with
          | ok v => exact Or.inl ⟨page, v, rfl, hstatus, hread⟩
          | error e => exact Or.inr rfl

/-- A source gives a value, or has a fault, or is a file that cannot be read or is not foreseen. -/
theorem source_cases (w : Workplace) (source : SchemaSource) :
    (∃ v, Gives w source v) ∨ (∃ fault, ofSource w source = .error (.schema fault)) ∨
      ∃ p, source.filePath? = some p ∧ ((∃ trouble, w.files.read p = .error trouble) ∨
        ∃ content e, w.files.read p = .ok content ∧ Unforeseen content e) := by
  cases hpath : source.filePath? with
  | some p =>
      cases hread : w.files.read p with
      | error trouble => exact Or.inr (Or.inr ⟨p, rfl, Or.inl ⟨trouble, hread⟩⟩)
      | ok content =>
          obtain ⟨s, v, rfl, hv⟩ | hfault | ⟨e, he⟩ := readFile_cases hread
          · exact Or.inl ⟨v, .file hpath hread hv⟩
          · rw [← describe_of_filePath? hpath] at hfault
            exact Or.inr (Or.inl ⟨_, ofSource_of_describe hfault⟩)
          · exact Or.inr (Or.inr ⟨p, rfl, Or.inr ⟨content, e, hread, he⟩⟩)
  | none =>
      cases source with
      | inline ms => exact Or.inl ⟨_, .inline ms⟩
      | named name =>
          have hname : SchemaSource.isAddress name = true := by
            by_contra hfile
            rw [SchemaSource.filePath?, if_neg hfile] at hpath
            cases hpath
          obtain ⟨page, v, hpage, hstatus, hv⟩ | hfault := fetch_cases w.pages name
          · exact Or.inl ⟨v, .page hname hpage hstatus hv⟩
          · refine Or.inr (Or.inl ⟨.notFetched name, ofSource_of_describe ?_⟩)
            rw [describe, if_pos hname, hfault]
            rfl

theorem not_isExpected_of_unforeseen {content : ByteArray} {e : JsonFileError}
    (h : Unforeseen content e) (path : String) : (LoadError.file path e).isExpected = false := by
  cases h <;> rfl

/-- The error of a file that cannot be read is one of the file system. -/
theorem isExpected_of_error (path : String) (e : FileError) :
    (LoadError.file path (if e.isAbsence then .absent else .unreadable e)).isExpected = true := by
  cases e with
  | brokenPath => rfl
  | trouble t path => cases t <;> rfl

/-- A schema that is loaded is described by the value that its source gives. -/
theorem exists_gives_of_ok {schema : Schema} (h : ofSource w source = .ok schema) :
    ∃ v, Gives w source v ∧ compile v = .ok schema := by
  obtain ⟨v, hv⟩ | ⟨fault, hfault⟩ | ⟨p, hp, ⟨trouble, hread⟩ | ⟨content, lost, hread, hlost⟩⟩ :=
    source_cases w source
  · rw [hv.ofSource] at h
    cases hcompile : compile v with
    | error fault =>
        rw [hcompile] at h
        cases h
    | ok found =>
        rw [hcompile] at h
        exact ⟨v, hv, hcompile.trans (congrArg Except.ok (Except.ok.inj h))⟩
  · rw [hfault] at h
    cases h
  · rw [ofSource_of_error hp hread] at h
    cases h
  · rw [ofSource_of_unforeseen hp hread hlost] at h
    cases h

/-- An error is a fault of the schema, or that of a file that cannot be read or is not foreseen. -/
theorem error_cases {e : LoadError} (h : ofSource w source = .error e) :
    (∃ fault, e = .schema fault) ∨ ∃ p, source.filePath? = some p ∧
      ((∃ trouble, w.files.read p = .error trouble ∧
          e = .file p.toString (if trouble.isAbsence then .absent else .unreadable trouble)) ∨
        ∃ content lost, w.files.read p = .ok content ∧ Unforeseen content lost ∧
          e = .file p.toString lost) := by
  obtain ⟨v, hv⟩ | ⟨fault, hfault⟩ | ⟨p, hp, ⟨trouble, hread⟩ | ⟨content, lost, hread, hlost⟩⟩ :=
    source_cases w source
  · rw [hv.ofSource] at h
    cases hcompile : compile v with
    | error fault =>
        rw [hcompile] at h
        exact Or.inl ⟨fault, (Except.error.inj h).symm⟩
    | ok found =>
        rw [hcompile] at h
        cases h
  · rw [hfault] at h
    exact Or.inl ⟨fault, (Except.error.inj h).symm⟩
  · rw [ofSource_of_error hp hread] at h
    exact Or.inr ⟨p, hp, Or.inl ⟨trouble, hread, (Except.error.inj h).symm⟩⟩
  · rw [ofSource_of_unforeseen hp hread hlost] at h
    exact Or.inr ⟨p, hp, Or.inr ⟨content, lost, hread, hlost, (Except.error.inj h).symm⟩⟩

end

/-- Loading gives a schema just if the source gives a value that describes it; an error of the file
system just if the source is a file that cannot be read, and says that the file is absent just where
the path leads nowhere; and an error that loading does not expect just if the source is a file that
can be read, but whose bytes are no text or in whose text an integer is too long.  What is left is a
fault of the schema. -/
theorem ofSource_outcomes (w : Workplace) (source : SchemaSource) :
    (∀ schema, ofSource w source = .ok schema ↔
      ∃ v, Gives w source v ∧ compile v = .ok schema) ∧
    (∀ path e, ofSource w source = .error (.file path e) ∧
        (LoadError.file path e).isExpected = true ↔
      ∃ p trouble, source.filePath? = some p ∧ w.files.read p = .error trouble ∧
        path = p.toString ∧ e = if trouble.isAbsence then .absent else .unreadable trouble) ∧
    ∀ e, ofSource w source = .error e ∧ e.isExpected = false ↔
      ∃ p content lost, source.filePath? = some p ∧ w.files.read p = .ok content ∧
        Unforeseen content lost ∧ e = .file p.toString lost := by
  refine ⟨fun schema => ⟨exists_gives_of_ok, ?_⟩, fun path e => ⟨?_, ?_⟩, fun e => ⟨?_, ?_⟩⟩
  · rintro ⟨v, hv, hcompile⟩
    rw [hv.ofSource, hcompile]
    rfl
  · rintro ⟨h, hexpected⟩
    obtain ⟨fault, hfault⟩ | ⟨p, hp, ⟨trouble, hread, he⟩ | ⟨content, lost, hread, hlost, he⟩⟩ :=
      error_cases h
    · cases hfault
    · obtain ⟨rfl, rfl⟩ := LoadError.file.inj he
      exact ⟨p, trouble, hp, hread, rfl, rfl⟩
    · rw [he, not_isExpected_of_unforeseen hlost] at hexpected
      cases hexpected
  · rintro ⟨p, trouble, hp, hread, rfl, rfl⟩
    exact ⟨ofSource_of_error hp hread, isExpected_of_error _ trouble⟩
  · rintro ⟨h, hexpected⟩
    obtain ⟨fault, rfl⟩ | ⟨p, hp, ⟨trouble, hread, rfl⟩ | ⟨content, lost, hread, hlost, rfl⟩⟩ :=
      error_cases h
    · cases hexpected
    · rw [isExpected_of_error] at hexpected
      cases hexpected
    · exact ⟨p, content, lost, hp, hread, hlost, rfl⟩
  · rintro ⟨p, content, lost, hp, hread, hlost, rfl⟩
    exact ⟨ofSource_of_unforeseen hp hread hlost, not_isExpected_of_unforeseen hlost _⟩

/-- A place with a schema file of one byte, which is no text. -/
def brokenPlace : Workplace :=
  { files := { here := [], entries := [(["s.json"], .file ⟨#[0xff]⟩)] } }

/-- The bytes of a schema file cannot be decoded, and the error is no fault of the schema. -/
theorem ofSource_undecodable :
    brokenPlace.files.read (Path.ofString "s.json") = .ok ⟨#[0xff]⟩ ∧
      (∀ s : String, (⟨#[0xff]⟩ : ByteArray) ≠ s.toUTF8) ∧
      ofSource brokenPlace (.named "s.json") = .error (.file "s.json" .undecodable) ∧
      (LoadError.file "s.json" .undecodable).isExpected = false := by
  have hread : brokenPlace.files.read (Path.ofString "s.json") = .ok ⟨#[0xff]⟩ := by cbv
  have hbytes : Text.readUtf8? ⟨#[0xff]⟩ = none := by cbv
  have hnone := Text.readUtf8?_eq_none_iff.mp hbytes
  have hpath : (SchemaSource.named "s.json").filePath? = some (Path.ofString "s.json") := by
    rw [SchemaSource.filePath?, if_neg (by decide)]
  have hname : (Path.ofString "s.json").toString = "s.json" := by decide +kernel
  refine ⟨hread, hnone, ?_, rfl⟩
  rw [ofSource_of_unforeseen hpath hread (.bytes hnone), hname]

end Schema

end Harvest
