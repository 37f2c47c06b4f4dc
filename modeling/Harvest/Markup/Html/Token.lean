import Harvest.Markup.Html.Entity
import Harvest.Text.Digit
import Harvest.Text.Word

/-!
# Tokens of hypertext

Tags, comments and text.  Whatever does not form a tag or a comment is text; what starts like a
declaration or an instruction is a comment.  The content of some elements is text up to their end
tag.
-/

namespace Harvest.Markup.Html

open Harvest.Text (isAsciiDigit isAsciiAlphanumeric)

/-- A token.  An attribute without a value has none. -/
inductive Token
  | startTag (name : String) (attributes : List (String × Option String)) (closed : Bool)
  | endTag (name : String)
  | text (value : String)
  /-- Text in which nothing but the end tag of its element counts. -/
  | rawText (value : String)
  | comment (value : String)
deriving DecidableEq, Repr

/-- White space between parts of a tag. -/
def isGap (c : Char) : Bool := c == ' ' || c == '\t' || c == '\n' || c == '\x0c' || c == '\r'

/-! ## References to characters -/

/-- A number behind its mark: the digits of a class and an optional semicolon. -/
def takeCode? (base : Nat) (isDigit : Char → Bool) (cs : List Char) :
    Option (List Char × List Char) :=
  match cs.takeWhile isDigit with
  | [] => none
  | ds =>
    let n := ds.foldl (fun n c => min 0x110000 (base * n + (Json.hexValue? c).getD 0)) 0
    let rest := match cs.dropWhile isDigit with
      | ';' :: r => r
      | r => r
    some ([characterOf n], rest)

/-- Whether a name without a semicolon in an attribute value is no reference, because of what
follows. -/
def isPlainInValue (name rest : List Char) : Bool :=
  name.getLast? != some ';' &&
    match rest with
    | c :: _ => c == '=' || isAsciiAlphanumeric c
    | [] => false

/-- The characters that a reference behind its ampersand stands for. -/
def takeReference? (inValue : Bool) : List Char → Option (List Char × List Char)
  | '#' :: c :: r =>
    if c == 'x' || c == 'X' then takeCode? 16 (fun c => (Json.hexValue? c).isSome) r
    else takeCode? 10 isAsciiDigit (c :: r)
  | cs => match longestEntity? cs with
    | none => none
    | some (name, value) =>
      let rest := cs.drop name.length
      if inValue && isPlainInValue name rest then none else some (value, rest)

/-- A text with its references replaced.  The bound is its length. -/
def decode (inValue : Bool) : Nat → List Char → List Char
  | n + 1, '&' :: r => match takeReference? inValue r with
    | some (value, rest) => value ++ decode inValue n rest
    | none => '&' :: decode inValue n r
  | n + 1, c :: r => c :: decode inValue n r
  | _, _ => []

def decodeText (inValue : Bool) (cs : List Char) : String :=
  String.ofList (decode inValue cs.length cs)

/-! ## Tags -/

def endsName (c : Char) : Bool := isGap c || c == '/' || c == '>'

def smallName (cs : List Char) : String := String.ofList (cs.map Char.toLower)

/-- The rest after gaps and slashes that close no tag. -/
def skipGaps : List Char → List Char
  | [] => []
  | '/' :: '>' :: r => '/' :: '>' :: r
  | c :: r => if isGap c || c == '/' then skipGaps r else c :: r

/-- The name of an attribute; its first character may be an equals sign. -/
def takeAttributeName : List Char → List Char × List Char
  | [] => ([], [])
  | c :: r =>
    let stop (c : Char) : Bool := endsName c || c == '='
    (c :: r.takeWhile (! stop ·), r.dropWhile (! stop ·))

/-- The value of an attribute behind its equals sign. -/
def takeValue (cs : List Char) : String × List Char :=
  match cs.dropWhile isGap with
  | [] => ("", [])
  | q :: r =>
    if q == '"' || q == '\x27' then
      (decodeText true (r.takeWhile (· != q)), (r.dropWhile (· != q)).drop 1)
    else
      let stop (c : Char) : Bool := isGap c || c == '>'
      (decodeText true ((q :: r).takeWhile (! stop ·)), (q :: r).dropWhile (! stop ·))

def takeAttribute (cs : List Char) : (String × Option String) × List Char :=
  let (name, r) := takeAttributeName cs
  match r.dropWhile isGap with
  | '=' :: r => let (value, r) := takeValue r; ((smallName name, some value), r)
  | _ => ((smallName name, none), r)

/-- The attributes of a tag up to its end, whether the tag is closed, and the rest; nothing if the
tag has no end.  Of attributes with one name the first counts.  The bound is the length. -/
def takeAttributes? : Nat → List Char →
    Option (List (String × Option String) × Bool × List Char)
  | 0, _ => none
  | n + 1, cs => match skipGaps cs with
    | [] => none
    | '>' :: r => some ([], false, r)
    | '/' :: '>' :: r => some ([], true, r)
    | cs =>
      let (a, r) := takeAttribute cs
      (takeAttributes? n r).map fun (as, closed, r) =>
        (a :: as.filter (·.1 != a.1), closed, r)

/-- A start tag behind its opening bracket. -/
def takeStartTag? (cs : List Char) : Option (Token × List Char) :=
  let name := cs.takeWhile (! endsName ·)
  (takeAttributes? (cs.length + 1) (cs.drop name.length)).map fun (as, closed, r) =>
    (.startTag (smallName name) as closed, r)

/-- An end tag behind its slash; its attributes mean nothing. -/
def takeEndTag? (cs : List Char) : Option (Token × List Char) :=
  let name := cs.takeWhile (! endsName ·)
  (takeAttributes? (cs.length + 1) (cs.drop name.length)).map fun (_, _, r) =>
    (.endTag (smallName name), r)

/-! ## Comments -/

/-- The text of a comment behind its opening mark, and the rest. -/
def takeCommentBody : List Char → List Char × List Char
  | [] => ([], [])
  | '-' :: '-' :: '>' :: r => ([], r)
  | '-' :: '-' :: '!' :: '>' :: r => ([], r)
  | ['-'] => ([], [])
  | ['-', '-'] => ([], [])
  | ['-', '-', '!'] => ([], [])
  | c :: r => let (body, rest) := takeCommentBody r; (c :: body, rest)

def takeComment : List Char → Token × List Char
  | '>' :: r => (.comment "", r)
  | '-' :: '>' :: r => (.comment "", r)
  | cs => let (body, rest) := takeCommentBody cs; (.comment (String.ofList body), rest)

/-- A comment up to the next closing bracket. -/
def takeBogusComment (cs : List Char) : Token × List Char :=
  (.comment (String.ofList (cs.takeWhile (· != '>'))), (cs.dropWhile (· != '>')).drop 1)

/-- The rest after a word in letters of either case. -/
def dropWord? : List Char → List Char → Option (List Char)
  | [], cs => some cs
  | w :: ws, c :: cs => if w == c.toLower then dropWord? ws cs else none
  | _ :: _, [] => none

/-! ## Texts -/

inductive Reading
  /-- Tags, comments and references count. -/
  | full
  /-- References count. -/
  | references
  /-- Nothing counts. -/
  | raw
deriving DecidableEq, Repr

def textElements : List (String × Reading) :=
  [("script", .raw), ("style", .raw), ("xmp", .raw), ("iframe", .raw), ("noembed", .raw),
    ("noframes", .raw), ("title", .references), ("textarea", .references)]

/-- How the content of an element is read. -/
def readingOf (name : String) : Reading := (textElements.lookup name).getD .full

/-- Whether a text starts with the end tag of an element. -/
def startsEndTag (name : List Char) : List Char → Bool
  | '<' :: '/' :: r => match dropWord? name r with
    | some (c :: _) => endsName c
    | _ => false
  | _ => false

/-- The text up to the end tag of an element, and the rest. -/
def takeUntilEnd (name : List Char) : List Char → List Char × List Char
  | [] => ([], [])
  | c :: r =>
    if startsEndTag name (c :: r) then ([], c :: r)
    else let (body, rest) := takeUntilEnd name r; (c :: body, rest)

/-- The content of an element that is text only, if there is some, and the rest. -/
def takeContent (name : String) (cs : List Char) : List Token × List Char :=
  match readingOf name with
  | .full => ([], cs)
  | .references =>
    let (body, rest) := takeUntilEnd name.toList cs
    (if body.isEmpty then [] else [.text (decodeText false body)], rest)
  | .raw =>
    let (body, rest) := takeUntilEnd name.toList cs
    (if body.isEmpty then [] else [.rawText (String.ofList body)], rest)

/-- The markup behind an opening bracket; nothing if the bracket is text. -/
def takeMarkup? (cs : List Char) : Option (List Token × List Char) :=
  match cs with
  | '!' :: '-' :: '-' :: r => let (t, rest) := takeComment r; some ([t], rest)
  | '!' :: r => match dropWord? "doctype".toList r with
    | some r => some ([], (r.dropWhile (· != '>')).drop 1)
    | none => let (t, rest) := takeBogusComment r; some ([t], rest)
  | '?' :: _ => let (t, rest) := takeBogusComment cs; some ([t], rest)
  | '/' :: '>' :: r => some ([], r)
  | ['/'] => none
  | '/' :: c :: r =>
    if c.isAlpha then match takeEndTag? (c :: r) with
      | some (t, rest) => some ([t], rest)
      | none => some ([], [])
    else let (t, rest) := takeBogusComment (c :: r); some ([t], rest)
  | c :: _ =>
    if c.isAlpha then match takeStartTag? cs with
      | some (.startTag name as closed, rest) =>
        if closed then some ([.startTag name as closed], rest)
        else
          let (content, rest) := takeContent name rest
          some (.startTag name as closed :: content, rest)
      | _ => some ([], [])
    else none
  | [] => none

/-- The tokens of a text.  The bound is its length. -/
def tokenize : Nat → List Char → List Token
  | _, [] => []
  | 0, _ :: _ => []
  | n + 1, c :: r =>
    if c == '<' then match takeMarkup? r with
      | some (ts, rest) => ts ++ tokenize n rest
      | none => .text "<" :: tokenize n r
    else
      let body := c :: r.takeWhile (· != '<')
      .text (decodeText false body) :: tokenize n (r.dropWhile (· != '<'))

/-- A text with single line feeds at the ends of lines. -/
def unifyLines : List Char → List Char
  | [] => []
  | '\r' :: '\n' :: r => '\n' :: unifyLines r
  | '\r' :: r => '\n' :: unifyLines r
  | c :: r => c :: unifyLines r

def tokens (cs : List Char) : List Token :=
  let cs := unifyLines cs
  tokenize cs.length cs

end Harvest.Markup.Html
