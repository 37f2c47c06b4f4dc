import Harvest.Markup.Html.Tree
import Harvest.Markup.Xml.Tree
import Harvest.Text.Blank
import Harvest.Text.Utf8

/-!
# Markup

Markup as it comes, as text or as bytes, and the document it writes.  Text with a declaration of its
own is taken for the bytes of it, so that the declaration decides how these are read.
-/

namespace Harvest.Markup

/-- Markup as text or as bytes. -/
inductive Source
  | text (s : String)
  | bytes (bs : ByteArray)
deriving Inhabited

inductive Language
  | html
  | xml
deriving DecidableEq, Repr, Inhabited

namespace Language

def named : List (String × Language) := [("html", html), ("xml", xml)]

def name : Language → String
  | html => "html"
  | xml => "xml"

end Language

inductive MarkupError
  /-- There is no root element. -/
  | empty
  /-- There is nothing at all. -/
  | nothing
deriving DecidableEq, Repr

def MarkupError.message : MarkupError → String
  | empty => "Document is empty"
  | nothing => ""

/-! ## Encodings -/

/-- How bytes stand for characters: by one to four bytes, by code points, or by code points with
letters and signs in place of the upper controls. -/
inductive Encoding
  | utf8
  | latin
  | western
deriving DecidableEq, Repr

/-- How bytes are read in the encodings that are known, by the names of these. -/
abbrev Encodings := String → Option (ByteArray → String)

namespace Encoding

/-- The encodings by name in small letters, those that are read by bytes. -/
def named : List (String × Encoding) :=
  [("iso-8859-1", latin), ("iso_8859-1", latin), ("iso-latin-1", latin), ("latin1", latin),
    ("latin-1", latin), ("l1", latin), ("iso8859-1", latin), ("us-ascii", latin), ("ascii", latin),
    ("windows-1252", western), ("cp1252", western), ("cp-1252", western)]

/-- The encoding of a name; an unknown one counts as `utf8`. -/
def ofName (name : String) : Encoding := (named.lookup (name.map Char.toLower)).getD utf8

def decode (bs : ByteArray) : Encoding → String
  | utf8 => (String.fromUTF8? bs).getD (Text.readLossy bs)
  | latin => Text.readLatin bs
  | western => (Text.readLatin bs).map fun c => Html.characterOf c.toNat

/-- The encodings that are known, by name; capital letters do not matter. -/
def known : Encodings := fun name =>
  (named.lookup (name.map Char.toLower)).map fun encoding bs => encoding.decode bs

end Encoding

/-- The text without a byte order mark at its start. -/
def dropMark (s : String) : String :=
  match s.toList with
  | '\uFEFF' :: r => String.ofList r
  | _ => s

/-- Whether bytes start with a byte order mark. -/
def hasMark (bs : ByteArray) : Bool := (bs.toList.take 3).map UInt8.toNat == [0xEF, 0xBB, 0xBF]

/-! ## Declared encodings -/

/-- The name behind `encoding=` in a text, in quotes. -/
def declaredName? : List Char → Option String
  | [] => none
  | c :: r =>
    if "encoding".toList.isPrefixOf (c :: r) then
      match skipSpace (r.drop 7) with
      | '=' :: v => (Xml.takeQuoted? (skipSpace v)).map fun (name, _) => String.ofList name
      | _ => declaredName? r
    else declaredName? r

/-- The encoding that the declaration at the start of a text declares. -/
def Xml.declaredEncoding? (cs : List Char) : Option String :=
  match cs with
  | '<' :: '?' :: 'x' :: 'm' :: 'l' :: c :: r =>
    if isSpace c then ((takeUntil? ['?', '>'] r).bind fun (body, _) => declaredName? body) else none
  | _ => none

/-- The name behind `charset=` in a text. -/
def charsetName? : List Char → Option String
  | [] => none
  | c :: r =>
    if "charset".toList.isPrefixOf (c :: r) then
      match skipSpace (r.drop 6) with
      | '=' :: v =>
        let stop (c : Char) : Bool := isSpace c || c == ';' || c == '"' || c == '\x27'
        some (String.ofList ((skipSpace v).takeWhile (! stop ·)))
      | _ => charsetName? r
    else charsetName? r

def Html.tokenEncoding? : Html.Token → Option String
  | .startTag "meta" attributes _ =>
    match (attributes.lookup "charset").join with
    | some name => some name
    | none => (attributes.lookup "content").join.bind fun v =>
      charsetName? (v.map Char.toLower).toList
  | _ => none

/-- The encoding that a text declares in one of its tags. -/
def Html.declaredEncoding? (cs : List Char) : Option String :=
  (Html.tokens cs).findSome? Html.tokenEncoding?

/-- How bytes of XML are read that declare an encoding or none.  One that is not known counts as
`utf8`. -/
def readerOf (known : Encodings) (declared : Option String) : ByteArray → String :=
  (declared.bind known).getD fun bs => Encoding.utf8.decode bs

/-- The text of bytes of a language.  A mark counts first, then what the bytes declare.  Hypertext
that declares nothing counts as `utf8` if it can be read so. -/
def decodeBytes (known : Encodings) (bs : ByteArray) (language : Language) : String :=
  if hasMark bs then dropMark (Encoding.utf8.decode bs)
  else
    let cs := (Text.readLatin bs).toList
    match language with
    | .xml => readerOf known (Xml.declaredEncoding? cs) bs
    | .html => match (Html.declaredEncoding? cs).map Encoding.ofName with
      | some .utf8 => Encoding.utf8.decode bs
      | some _ => Encoding.western.decode bs
      | none => (String.fromUTF8? bs).getD (Encoding.western.decode bs)

namespace Source

/-- Whether a text starts with a declaration, blanks aside. -/
def declares (s : String) : Bool :=
  "<?xml".toList.isPrefixOf (s.toList.dropWhile Text.isBlank)

def characters (known : Encodings) (source : Source) (language : Language) : String :=
  match source with
  | .text s => if declares s then decodeBytes known s.toUTF8 language else dropMark s
  | .bytes bs => decodeBytes known bs language

def documentOf (s : String) : Language → Document
  | .html => Html.parse s.toList
  | .xml => Xml.parse s.toList

/-- The document that characters write.  It has a root element. -/
def written (s : String) (language : Language) : Except MarkupError Document :=
  if s.isEmpty && language == .xml then .error .nothing
  else
    let d := documentOf s language
    match d.root? with
    | some _ => .ok d
    | none => .error .empty

/-- The document that markup writes, where some encodings are known. -/
def parseWith (known : Encodings) (source : Source) (language : Language) :
    Except MarkupError Document :=
  written (source.characters known language) language

/-- The document that markup writes. -/
def parse (source : Source) (language : Language) : Except MarkupError Document :=
  source.parseWith Encoding.known language

end Source

end Harvest.Markup
