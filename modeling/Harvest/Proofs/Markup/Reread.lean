import Harvest.Proofs.Markup.Page
import Harvest.Proofs.Text.Utf8

/-!
# Text that is read again

Text with a declaration is written as bytes and read again in the encoding that it declares.  It
comes back as it was if that is the encoding it was written in; one byte for each character leaves
nothing but ASCII as it was.
-/

namespace Harvest.Markup

/-! ## One byte for each character -/

namespace Encoding

/-- How bytes are read of which each is a character by itself. -/
def byBytes (table : Nat → Char) (bs : ByteArray) : String :=
  String.ofList ((Text.byteValues bs).map table)

/-- Whether a table of characters has ASCII at its place and nowhere else. -/
structure ExtendsAscii (table : Nat → Char) : Prop where
  low : ∀ n, 0 < n → n < 0x80 → table n = Char.ofNat n
  high : ∀ n, 0x80 ≤ n → n < 0x100 → 0x80 ≤ (table n).toNat

theorem decode_latin (bs : ByteArray) : Encoding.latin.decode bs = byBytes Char.ofNat bs := rfl

theorem decode_western (bs : ByteArray) :
    Encoding.western.decode bs = byBytes (fun n => Html.characterOf (Char.ofNat n).toNat) bs := by
  rw [decode, byBytes, Text.readLatin, ← String.toList_inj, String.toList_map, String.toList_ofList,
    String.toList_ofList, List.map_map]
  rfl

theorem toNat_ofNat_of_lt {n : Nat} (h : n < 0x100) : (Char.ofNat n).toNat = n := by
  have hvalid : n.isValidChar := .inl (by omega)
  rw [Char.ofNat, dif_pos hvalid]
  rfl

theorem extendsAscii_latin : ExtendsAscii Char.ofNat where
  low := fun n _ _ => rfl
  high := fun n h hn => by rwa [toNat_ofNat_of_lt hn]

theorem le_toNat_characterOf {n : Nat} (h : 0x80 ≤ n) (hn : n < 0x100) :
    0x80 ≤ (Html.characterOf n).toNat := by
  have hcodes :
      (Html.controlCodes.all fun code => Nat.ble 0x80 (Char.ofNat code).toNat) = true := by
    decide
  unfold Html.characterOf
  split
  · rw [List.getD_eq_getElem?_getD]
    cases hcode : Html.controlCodes[n - 0x80]? with
    | none => rwa [Option.getD_none, toNat_ofNat_of_lt hn]
    | some code =>
        exact Nat.le_of_ble_eq_true
          (List.all_eq_true.mp hcodes code (List.mem_of_getElem? hcode))
  · rwa [if_neg (by omega), toNat_ofNat_of_lt hn]

theorem extendsAscii_western : ExtendsAscii fun n => Html.characterOf (Char.ofNat n).toNat where
  low := fun n h hn => by
    rw [toNat_ofNat_of_lt (by omega), Html.characterOf, if_neg (by omega), if_neg (by omega)]
  high := fun n h hn => by
    rw [toNat_ofNat_of_lt hn]
    exact le_toNat_characterOf h hn

end Encoding

/-! ## Characters that come back -/

variable {table : Nat → Char} {cs ds : List Char} {c : Char}

/-- What characters become that are written as bytes and read again by a table. -/
def respell (table : Nat → Char) (cs : List Char) : List Char :=
  (cs.flatMap Text.charBytes).map table

theorem byBytes_toUTF8 (s : String) :
    Encoding.byBytes table s.toUTF8 = String.ofList (respell table s.toList) := by
  rw [Encoding.byBytes, Text.byteValues_toUTF8, respell]

theorem respell_append : respell table (cs ++ ds) = respell table cs ++ respell table ds := by
  rw [respell, List.flatMap_append, List.map_append]
  rfl

theorem respell_cons : respell table (c :: cs) =
    (Text.charBytes c).map table ++ respell table cs := by
  rw [respell, List.flatMap_cons, List.map_append]
  rfl

theorem map_charBytes_of_ascii (h : Encoding.ExtendsAscii table) (hzero : c ≠ '\x00')
    (hc : c.toNat < 0x80) : (Text.charBytes c).map table = [c] := by
  have hpos : 0 < c.toNat := by
    refine Nat.pos_of_ne_zero fun hc => hzero ?_
    rw [← Char.ofNat_toNat c, hc]
  rw [Text.charBytes_eq, if_pos (by omega), List.map_singleton, h.low _ hpos hc, Char.ofNat_toNat]

theorem mem_charBytes (hc : 0x80 ≤ c.toNat) {b : Nat} (hb : b ∈ Text.charBytes c) :
    0x80 ≤ b ∧ b < 0x100 := by
  have hvalid : c.toNat < 0xD800 ∨ (0xDFFF < c.toNat ∧ c.toNat < 0x110000) := c.valid
  rw [Text.charBytes_eq, if_neg (by omega)] at hb
  split at hb
  · simp only [List.mem_cons, List.not_mem_nil, or_false] at hb
    omega
  split at hb
  · simp only [List.mem_cons, List.not_mem_nil, or_false] at hb
    omega
  · simp only [List.mem_cons, List.not_mem_nil, or_false] at hb
    omega

theorem two_le_length_charBytes (hc : 0x80 ≤ c.toNat) : 2 ≤ (Text.charBytes c).length := by
  rw [Text.charBytes_eq, if_neg (by omega)]
  split
  · exact Nat.le_refl 2
  split <;> simp

theorem respell_of_ascii (h : Encoding.ExtendsAscii table) (hzero : '\x00' ∉ cs)
    (hcs : ∀ c ∈ cs, c.toNat < 0x80) : respell table cs = cs := by
  induction cs with
  | nil => rfl
  | cons c cs ih =>
      rw [List.mem_cons, not_or] at hzero
      rw [respell_cons, map_charBytes_of_ascii h (Ne.symm hzero.1) (hcs c List.mem_cons_self),
        ih hzero.2 fun c hc => hcs c (List.mem_cons_of_mem _ hc), List.singleton_append]

theorem length_le_respell (cs : List Char) : cs.length ≤ (respell table cs).length := by
  induction cs with
  | nil => exact Nat.le_refl 0
  | cons c cs ih =>
      have hone : 1 ≤ (Text.charBytes c).length := by
        obtain ⟨b, bs, hbytes, _⟩ := Text.firstChar_charBytes c []
        simp [hbytes]
      rw [respell_cons, List.length_append, List.length_map, List.length_cons]
      omega

/-- Nothing but ASCII comes back as it was: any other character comes back as several. -/
theorem respell_eq_iff (h : Encoding.ExtendsAscii table) (hzero : '\x00' ∉ cs) :
    respell table cs = cs ↔ ∀ c ∈ cs, c.toNat < 0x80 := by
  refine ⟨fun heq c hc => ?_, respell_of_ascii h hzero⟩
  obtain ⟨before, behind, rfl⟩ := List.append_of_mem hc
  by_contra hhigh
  have hlength := congrArg List.length heq
  have hbefore : before.length ≤ (respell table before).length := length_le_respell before
  have hbehind : behind.length ≤ (respell table behind).length := length_le_respell behind
  have htwo := two_le_length_charBytes (Nat.le_of_not_lt hhigh)
  rw [respell_append, respell_cons] at hlength
  simp only [List.length_append, List.length_map, List.length_cons] at hlength
  omega

/-- No further characters of ASCII come about. -/
theorem mem_of_mem_respell (h : Encoding.ExtendsAscii table) (hzero : '\x00' ∉ cs)
    (hc : c ∈ respell table cs) (hascii : c.toNat < 0x80) : c ∈ cs := by
  obtain ⟨b, hb, rfl⟩ := List.mem_map.mp hc
  obtain ⟨d, hd, hb⟩ := List.mem_flatMap.mp hb
  by_cases hlow : d.toNat < 0x80
  · have hsame : (Text.charBytes d).map table = [d] :=
      map_charBytes_of_ascii h (fun hzero' => hzero (hzero' ▸ hd)) hlow
    have hmem : table b ∈ [d] := hsame ▸ List.mem_map_of_mem hb
    rwa [List.mem_singleton.mp hmem]
  · obtain ⟨hle, hlt⟩ := mem_charBytes (Nat.le_of_not_lt hlow) hb
    have hhigh := h.high b hle hlt
    omega

/-! ## Text with a declaration -/

namespace Xml.Declaration

variable (d : Declaration)

theorem ascii_of_isInsideChar {c : Char} (hc : isInsideChar c = true) :
    c ≠ '\x00' ∧ c.toNat < 0x80 := by
  refine ⟨?_, ?_⟩
  · rintro rfl
    exact absurd hc (by decide)
  · simp only [isInsideChar, isSpace, isValueChar, Text.isAsciiAlphanumeric, Bool.or_eq_true,
      Bool.and_eq_true, Nat.ble_eq, beq_iff_eq] at hc
    obtain (((((((rfl | rfl) | rfl) | rfl) | (((((h | h) | h) | rfl) | rfl) | rfl)) | rfl) | rfl) |
      rfl) := hc
    all_goals first | omega | decide

theorem ascii_of_mem_chars {c : Char} (hc : c ∈ d.chars) : c ≠ '\x00' ∧ c.toNat < 0x80 := by
  have hword : "<?xml".toList = ['<', '?', 'x', 'm', 'l'] := rfl
  have hmarks : ∀ c ∈ "<?xml".toList ++ ['?', '>'], c ≠ '\x00' ∧ c.toNat < 0x80 := by
    simp [hword]
  rcases List.mem_append.mp hc with hc | hc
  · exact hmarks c (List.mem_append_left _ hc)
  · rcases List.mem_append.mp hc with hc | hc
    · exact ascii_of_isInsideChar (d.isInsideChar_of_mem hc)
    · exact hmarks c (List.mem_append_right _ hc)

theorem respell_append (h : Encoding.ExtendsAscii table) (cs : List Char) :
    respell table (d.chars ++ cs) = d.chars ++ respell table cs := by
  rw [Markup.respell_append, respell_of_ascii h (fun hzero => (d.ascii_of_mem_chars hzero).1 rfl)
    fun c hc => (d.ascii_of_mem_chars hc).2]

theorem declares_text_append (s : String) : Source.declares (d.text ++ s) = true := by
  rw [Source.declares, d.toList_text_append, d.chars_append,
    List.dropWhile_cons_of_neg (by decide)]
  simp [List.isPrefixOf]

theorem hasMark_toUTF8 (s : String) : hasMark (d.text ++ s).toUTF8 = false := by
  obtain ⟨rest, hrest⟩ : ∃ rest, (d.text ++ s).toList = '<' :: rest := by
    rw [d.toList_text_append]
    exact ⟨_, rfl⟩
  have hfirst : Text.charBytes '<' = [0x3C] := by decide
  have hbytes : (d.text ++ s).toUTF8.toList.map UInt8.toNat =
      0x3C :: rest.flatMap Text.charBytes := by
    rw [← Text.byteValues, Text.byteValues_toUTF8, hrest, List.flatMap_cons, hfirst]
    rfl
  rw [hasMark, List.map_take, hbytes]
  rfl

end Xml.Declaration

namespace Source

variable (known : Encodings) (d : Xml.Declaration) (s : String)

/-- Text with a declaration is read again in the encoding that it declares. -/
theorem characters_declared : characters known (.text (d.text ++ s)) .xml =
    readerOf known d.name? (d.text ++ s).toUTF8 := by
  have hlatin : (Text.readLatin (d.text ++ s).toUTF8).toList =
      d.chars ++ respell Char.ofNat s.toList := by
    rw [← Encoding.decode, Encoding.decode_latin, byBytes_toUTF8, String.toList_ofList,
      d.toList_text_append, d.respell_append Encoding.extendsAscii_latin]
  rw [characters, if_pos (d.declares_text_append s), decodeBytes, d.hasMark_toUTF8 s,
    if_neg Bool.false_ne_true, hlatin]
  dsimp only
  rw [d.declaredEncoding?_append]

theorem parseWith_declared : parseWith known (.text (d.text ++ s)) .xml =
    written (readerOf known d.name? (d.text ++ s).toUTF8) .xml := by
  rw [parseWith, characters_declared]

theorem readerOf_of_unknown {name? : Option String} (h : name?.bind known = none) :
    readerOf known name? s.toUTF8 = s := by
  have hread : String.fromUTF8? s.toUTF8 = some s := by
    rw [String.fromUTF8?, String.toUTF8_eq_toByteArray, dif_pos s.isValidUTF8]
    rfl
  rw [readerOf, h]
  exact congrArg (Option.getD · _) hread

theorem parseWith_bare : parseWith known (.text (d.bare.text ++ s)) .xml =
    written (d.bare.text ++ s) .xml := by
  rw [parseWith_declared, readerOf_of_unknown]
  rfl

/-- Where a declaration is read as itself, the tree is that of what the rest is read as. -/
theorem parseWith_of_readerOf {known : Encodings} {d : Xml.Declaration} {s s' : String}
    (h : readerOf known d.name? (d.text ++ s).toUTF8 = d.text ++ s') :
    parseWith known (.text (d.text ++ s)) .xml =
      parseWith known (.text (d.bare.text ++ s')) .xml := by
  rw [parseWith_declared, h, parseWith_bare, written_declared d d.bare s']

end Source

/-! ## A page of one element -/

theorem respell_pageChars (h : Encoding.ExtendsAscii table) (v t : List Char) :
    respell table (pageChars v t) = pageChars (respell table v) (respell table t) := by
  have hopen : respell table ['<', 'a', ' ', 'b', '=', '"'] = ['<', 'a', ' ', 'b', '=', '"'] :=
    respell_of_ascii h (by decide) (by simp)
  have hmiddle : respell table ['"', '>'] = ['"', '>'] :=
    respell_of_ascii h (by decide) (by simp)
  have hclose : respell table ['<', '/', 'a', '>'] = ['<', '/', 'a', '>'] :=
    respell_of_ascii h (by decide) (by simp)
  rw [pageChars, respell_append, respell_append, respell_append, respell_append, hopen, hmiddle,
    hclose, pageChars]

theorem Verbatim.respell (hcs : Verbatim cs) (h : Encoding.ExtendsAscii table) :
    Verbatim (respell table cs) := by
  intro c hc hsign
  have hsigns : ∀ c ∈ ['\x00', '\t', '\n', '\r', '"', '&', '<'], c.toNat < 0x80 := by simp
  have hzero : '\x00' ∉ cs := hcs.not_mem (by decide)
  exact hcs c (mem_of_mem_respell h hzero hc (hsigns c hsign)) hsign

namespace Source

variable {known : Encodings} {d : Xml.Declaration} {v t : List Char}

/-- An element behind a declaration is read as the element of what its characters become. -/
theorem readerOf_page (h : Encoding.ExtendsAscii table)
    (hknown : d.name?.bind known = some (Encoding.byBytes table)) (v t : List Char) :
    readerOf known d.name? (d.text ++ page v t).toUTF8 =
      d.text ++ page (respell table v) (respell table t) := by
  rw [readerOf, hknown]
  change Encoding.byBytes table _ = _
  rw [byBytes_toUTF8, d.toList_text_append, d.respell_append h, page, String.toList_ofList,
    respell_pageChars h, String.ofList_append]
  rfl

/-- Declared in an encoding of one byte for each character, an element keeps its value and its text
just if they are ASCII. -/
theorem parseWith_page_iff (h : Encoding.ExtendsAscii table)
    (hknown : d.name?.bind known = some (Encoding.byBytes table)) (hv : Verbatim v)
    (ht : Verbatim t) : parseWith known (.text (d.text ++ page v t)) .xml =
      parseWith known (.text (d.bare.text ++ page v t)) .xml ↔ ∀ c ∈ v ++ t, c.toNat < 0x80 := by
  rw [parseWith_of_readerOf (readerOf_page h hknown v t), parseWith_bare, parseWith_bare,
    written_page_inj (hv.respell h) (ht.respell h) hv ht, respell_eq_iff h (hv.not_mem (by decide)),
    respell_eq_iff h (ht.not_mem (by decide)), List.forall_mem_append]

/-- Text with a declaration makes the tree of the characters that its bytes are in the encoding that
it declares; without its encoding it makes the tree of its own characters.  If the declaration is
read as itself, only the rest counts, and it counts as what it is read as: as itself if the encoding
is not known, but in an encoding of one byte for each character an element keeps its value and its
text just if they are ASCII. -/
theorem parseWith_declared_cases (known : Encodings) (d : Xml.Declaration) (s : String) :
    parseWith known (.text (d.text ++ s)) .xml =
        written (readerOf known d.name? (d.text ++ s).toUTF8) .xml ∧
      parseWith known (.text (d.bare.text ++ s)) .xml = written (d.bare.text ++ s) .xml ∧
      (∀ s', readerOf known d.name? (d.text ++ s).toUTF8 = d.text ++ s' →
        parseWith known (.text (d.text ++ s)) .xml =
          parseWith known (.text (d.bare.text ++ s')) .xml) ∧
      (d.name?.bind known = none → readerOf known d.name? (d.text ++ s).toUTF8 = d.text ++ s) ∧
      ∀ table, Encoding.ExtendsAscii table → d.name?.bind known = some (Encoding.byBytes table) →
        ∀ v t, Verbatim v → Verbatim t →
          (parseWith known (.text (d.text ++ page v t)) .xml =
              parseWith known (.text (d.bare.text ++ page v t)) .xml ↔
            ∀ c ∈ v ++ t, c.toNat < 0x80) :=
  ⟨parseWith_declared known d s, parseWith_bare known d s, fun _ h => parseWith_of_readerOf h,
    fun h => readerOf_of_unknown known (d.text ++ s) h,
    fun _ h hknown _ _ hv ht => parseWith_page_iff h hknown hv ht⟩

/-! ### A page in an older encoding -/

/-- A value in double quotes behind one space. -/
def settingOf (value : String) (plain : value.toList.all Xml.isValueChar = true) :
    Xml.Setting where
  gap := [' ']
  quote := '"'
  value := value.toList
  gap_ne := by decide
  spaces := List.all_eq_true.mp rfl
  quoted := Or.inl rfl
  plain := List.all_eq_true.mp plain

/-- A declaration of `ISO-8859-1`. -/
def latinDeclaration : Xml.Declaration where
  version := settingOf "1.0" (by decide)
  encoding := some (settingOf "ISO-8859-1" (by decide))
  number := by simp [settingOf, Text.isAsciiDigit]
  answer := by simp
  spaces := by simp

theorem known_latin : latinDeclaration.name?.bind Encoding.known =
    some (Encoding.byBytes Char.ofNat) := by
  have hname : latinDeclaration.name? = some "ISO-8859-1" := rfl
  have hlower : "ISO-8859-1".map Char.toLower = "iso-8859-1" := by
    rw [← String.toList_inj, String.toList_map]
    rfl
  have hlookup : Encoding.named.lookup "iso-8859-1" = some .latin := rfl
  rw [hname, Option.bind_some, Encoding.known, hlower, hlookup]
  rfl

/-- A declaration of `windows-1252`. -/
def westernDeclaration : Xml.Declaration :=
  { latinDeclaration with encoding := some (settingOf "windows-1252" (by decide)) }

theorem known_western : westernDeclaration.name?.bind Encoding.known =
    some (Encoding.byBytes fun n => Html.characterOf (Char.ofNat n).toNat) := by
  have hname : westernDeclaration.name? = some "windows-1252" := rfl
  have hlower : "windows-1252".map Char.toLower = "windows-1252" := by
    rw [← String.toList_inj, String.toList_map]
    rfl
  have hlookup : Encoding.named.lookup "windows-1252" = some .western := rfl
  rw [hname, Option.bind_some, Encoding.known, hlower, hlookup]
  exact congrArg some (funext Encoding.decode_western)

theorem verbatim_acute : Verbatim ['é'] := by
  simp [Verbatim]

theorem respell_acute : respell Char.ofNat ['é'] = ['Ã', '©'] := by
  decide

theorem readerOf_acute :
    readerOf Encoding.known latinDeclaration.name?
        (latinDeclaration.text ++ page ['é'] ['é']).toUTF8 =
      latinDeclaration.text ++ page ['Ã', '©'] ['Ã', '©'] := by
  rw [readerOf_page Encoding.extendsAscii_latin known_latin, respell_acute]

theorem parseWith_declared_cases_acute :
    (readerOf Encoding.known latinDeclaration.name?
          (latinDeclaration.text ++ page ['é'] ['é']).toUTF8 =
        latinDeclaration.text ++ page ['Ã', '©'] ['Ã', '©'] ∧
      parse (.text (latinDeclaration.text ++ page ['é'] ['é'])) .xml =
        parse (.text (latinDeclaration.bare.text ++ page ['Ã', '©'] ['Ã', '©'])) .xml) ∧
    (latinDeclaration.bare.name?.bind Encoding.known = none ∧
      readerOf Encoding.known latinDeclaration.bare.name?
          (latinDeclaration.bare.text ++ page ['é'] ['é']).toUTF8 =
        latinDeclaration.bare.text ++ page ['é'] ['é']) ∧
    Encoding.ExtendsAscii Char.ofNat ∧
      latinDeclaration.name?.bind Encoding.known = some (Encoding.byBytes Char.ofNat) ∧
      Verbatim ['é'] ∧
      (parse (.text (latinDeclaration.text ++ page ['é'] ['é'])) .xml =
          parse (.text (latinDeclaration.bare.text ++ page ['é'] ['é'])) .xml ↔
        ∀ c ∈ ['é'] ++ ['é'], c.toNat < 0x80) ∧
      (parse (.text (westernDeclaration.text ++ page ['é'] ['é'])) .xml =
          parse (.text (westernDeclaration.bare.text ++ page ['é'] ['é'])) .xml ↔
        ∀ c ∈ ['é'] ++ ['é'], c.toNat < 0x80) := by
  obtain ⟨_, _, hread, _, hpage⟩ :=
    parseWith_declared_cases Encoding.known latinDeclaration (page ['é'] ['é'])
  obtain ⟨_, _, _, hunknown, _⟩ :=
    parseWith_declared_cases Encoding.known latinDeclaration.bare (page ['é'] ['é'])
  obtain ⟨_, _, _, _, hwestern⟩ :=
    parseWith_declared_cases Encoding.known westernDeclaration (page ['é'] ['é'])
  exact ⟨⟨readerOf_acute, hread _ readerOf_acute⟩, ⟨rfl, hunknown rfl⟩,
    Encoding.extendsAscii_latin, known_latin, verbatim_acute,
    hpage Char.ofNat Encoding.extendsAscii_latin known_latin _ _ verbatim_acute verbatim_acute,
    hwestern _ Encoding.extendsAscii_western known_western _ _ verbatim_acute verbatim_acute⟩

/-- With its encoding declared the page makes another tree than without. -/
theorem parse_rereads :
    parse (.text "<?xml version=\"1.0\" encoding=\"ISO-8859-1\"?><a b=\"é\">é</a>") .xml ≠
      parse (.text "<?xml version=\"1.0\"?><a b=\"é\">é</a>") .xml := by
  have hdeclared : "<?xml version=\"1.0\" encoding=\"ISO-8859-1\"?><a b=\"é\">é</a>" =
      latinDeclaration.text ++ page ['é'] ['é'] := by
    rw [← String.toList_inj, latinDeclaration.toList_text_append, page, String.toList_ofList]
    rfl
  have hbare : "<?xml version=\"1.0\"?><a b=\"é\">é</a>" =
      latinDeclaration.bare.text ++ page ['é'] ['é'] := by
    rw [← String.toList_inj, latinDeclaration.bare.toList_text_append, page, String.toList_ofList]
    rfl
  rw [hdeclared, hbare]
  intro h
  have hascii := (parseWith_page_iff Encoding.extendsAscii_latin known_latin verbatim_acute
    verbatim_acute).mp h
  exact absurd (hascii 'é' List.mem_cons_self) (by decide)

end Source

end Harvest.Markup
