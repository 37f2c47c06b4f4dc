import Harvest.Markup.Source

/-!
# Declarations of XML

How the declaration at the start of XML is written.  The name of its encoding is found whatever
stands behind the declaration, and nothing of the declaration becomes part of the document.
-/

namespace Harvest.Markup

namespace Xml

open Harvest.Text (isAsciiDigit isAsciiAlphanumeric)

/-! ## How a declaration is written -/

/-- Whether a character may stand in a value of a declaration. -/
def isValueChar (c : Char) : Bool := isAsciiAlphanumeric c || c == '.' || c == '_' || c == '-'

/-- How one of the settings of a declaration is written, up to its name. -/
structure Setting where
  /-- White space in front of the name. -/
  gap : List Char
  /-- White space on both sides of the equals sign. -/
  before : List Char := []
  behind : List Char := []
  quote : Char
  value : List Char
  gap_ne : gap ≠ []
  spaces : ∀ c ∈ gap ++ before ++ behind, isSpace c = true
  quoted : quote = '"' ∨ quote = '\x27'
  plain : ∀ c ∈ value, isValueChar c = true

/-- A declaration: the version, the encoding and whether the document stands alone. -/
structure Declaration where
  version : Setting
  encoding : Option Setting := none
  standalone : Option Setting := none
  /-- White space at the end. -/
  trail : List Char := []
  number : ∀ c ∈ version.value, isAsciiDigit c = true ∨ c = '.'
  answer : ∀ s ∈ standalone, s.value = ['y', 'e', 's'] ∨ s.value = ['n', 'o']
  spaces : ∀ c ∈ trail, isSpace c = true

/-- A setting with its name. -/
def Setting.chars (s : Setting) (name : List Char) : List Char :=
  s.gap ++ (name ++ (s.before ++ '=' :: (s.behind ++ s.quote :: (s.value ++ [s.quote]))))

namespace Declaration

variable (d : Declaration)

/-- What the encoding is written as, and what stands behind it. -/
def encodingChars : List Char :=
  match d.encoding with
  | some s => s.chars "encoding".toList
  | none => []

def standaloneChars : List Char :=
  match d.standalone with
  | some s => s.chars "standalone".toList
  | none => []

/-- What stands between the marks at both ends. -/
def inside : List Char :=
  d.version.chars "version".toList ++ (d.encodingChars ++ (d.standaloneChars ++ d.trail))

def chars : List Char := "<?xml".toList ++ (d.inside ++ ['?', '>'])

def text : String := String.ofList d.chars

/-- The name of the encoding. -/
def name? : Option String := d.encoding.map fun s => String.ofList s.value

/-- The declaration without its encoding. -/
def bare : Declaration := { d with encoding := none }

theorem chars_append (rest : List Char) :
    d.chars ++ rest = '<' :: '?' :: 'x' :: 'm' :: 'l' :: (d.inside ++ '?' :: '>' :: rest) := by
  have hword : "<?xml".toList = ['<', '?', 'x', 'm', 'l'] := rfl
  have hchars : d.chars = ['<', '?', 'x', 'm', 'l'] ++ (d.inside ++ ['?', '>']) :=
    congrArg (· ++ (d.inside ++ ['?', '>'])) hword
  rw [hchars]
  simp only [List.cons_append, List.nil_append, List.append_assoc]

end Declaration

/-! ## The characters of a declaration -/

/-- Whether a character may stand between the marks of a declaration. -/
def isInsideChar (c : Char) : Bool :=
  isSpace c || isValueChar c || c == '=' || c == '"' || c == '\x27'

theorem isInsideChar_of_mem_setting {s : Setting} {name : List Char}
    (hname : name.all isValueChar = true) {c : Char} (hc : c ∈ s.chars name) :
    isInsideChar c = true := by
  have hspace : ∀ c ∈ s.gap ++ s.before ++ s.behind, isInsideChar c = true := by
    intro c hc
    simp [isInsideChar, s.spaces c hc]
  have hquote : isInsideChar s.quote = true := by
    rcases s.quoted with h | h <;> rw [h] <;> decide
  simp only [Setting.chars, List.mem_append, List.mem_cons, List.not_mem_nil, or_false] at hc hspace
  rcases hc with hc | hc | hc | rfl | hc | rfl | hc | rfl
  · exact hspace c (Or.inl (Or.inl hc))
  · simp [isInsideChar, List.all_eq_true.mp hname c hc]
  · exact hspace c (Or.inl (Or.inr hc))
  · decide
  · exact hspace c (Or.inr hc)
  · exact hquote
  · simp [isInsideChar, s.plain c hc]
  · exact hquote

theorem Declaration.isInsideChar_of_mem (d : Declaration) {c : Char} (hc : c ∈ d.inside) :
    isInsideChar c = true := by
  simp only [inside, List.mem_append] at hc
  rcases hc with hc | hc | hc | hc
  · exact isInsideChar_of_mem_setting (by decide) hc
  · unfold encodingChars at hc
    split at hc
    · exact isInsideChar_of_mem_setting (by decide) hc
    · cases hc
  · unfold standaloneChars at hc
    split at hc
    · exact isInsideChar_of_mem_setting (by decide) hc
    · cases hc
  · simp [isInsideChar, d.spaces c hc]

theorem Declaration.exists_space (d : Declaration) :
    ∃ c cs, d.inside = c :: cs ∧ isSpace c = true := by
  obtain ⟨c, cs, hgap⟩ := List.exists_cons_of_ne_nil d.version.gap_ne
  refine ⟨c, d.inside.tail, ?_, d.version.spaces c (by simp [hgap])⟩
  rw [inside, Setting.chars, hgap]
  rfl

/-! ## Finding the encoding -/

theorem takeUntil?_append {cs : List Char} (h : '?' ∉ cs) (rest : List Char) :
    takeUntil? ['?', '>'] (cs ++ '?' :: '>' :: rest) = some (cs, rest) := by
  induction cs with
  | nil => simp [takeUntil?]
  | cons c cs ih =>
      rw [List.mem_cons, not_or] at h
      have hc : ('?' == c) = false := by simpa using h.1
      rw [List.cons_append, takeUntil?, if_neg (by simp [List.isPrefixOf, hc]), ih h.2]
      rfl

theorem skipSpace_append {cs rest : List Char} (h : ∀ c ∈ cs, isSpace c = true)
    (hrest : ∀ c ∈ rest.head?, isSpace c = false) : skipSpace (cs ++ rest) = rest := by
  rw [skipSpace, List.dropWhile_append_of_pos h]
  cases rest with
  | nil => rfl
  | cons c rest => rw [List.dropWhile_cons_of_neg (by simp [hrest c rfl])]

theorem takeQuoted?_append {q : Char} (hq : q = '"' ∨ q = '\x27') {value : List Char}
    (h : q ∉ value) (rest : List Char) :
    takeQuoted? (q :: (value ++ q :: rest)) = some (value, rest) := by
  have hne : ∀ c ∈ value, (c != q) = true := by
    intro c hc
    rw [bne_iff_ne]
    rintro rfl
    exact h hc
  have hquote : (q == '"' || q == '\x27') = true := by
    rcases hq with rfl | rfl <;> rfl
  rw [takeQuoted?, if_pos hquote, List.dropWhile_append_of_pos hne,
    List.takeWhile_append_of_pos hne]
  simp

theorem toList_encoding : "encoding".toList = ['e', 'n', 'c', 'o', 'd', 'i', 'n', 'g'] := rfl

/-- Whether no name of an encoding starts in some characters. -/
def Silent (cs : List Char) : Prop := ∀ rest, declaredName? (cs ++ rest) = declaredName? rest

theorem Silent.append {cs ds : List Char} (hcs : Silent cs) (hds : Silent ds) :
    Silent (cs ++ ds) := by
  intro rest
  rw [List.append_assoc, hcs, hds]

theorem Silent.cons {c : Char} {cs : List Char} (hc : c ≠ 'e') (hcs : Silent cs) :
    Silent (c :: cs) := by
  intro rest
  have hne : ('e' == c) = false := by simpa using Ne.symm hc
  have hstarts : "encoding".toList.isPrefixOf (c :: (cs ++ rest)) = false := by
    rw [toList_encoding, List.isPrefixOf, hne, Bool.false_and]
  rw [List.cons_append, declaredName?, hstarts, if_neg Bool.false_ne_true, hcs]

theorem silent_of_forall_ne {cs : List Char} (h : ∀ c ∈ cs, c ≠ 'e') : Silent cs := by
  induction cs with
  | nil => exact fun rest => rfl
  | cons c cs ih =>
      exact .cons (h c List.mem_cons_self) (ih fun c hc => h c (List.mem_cons_of_mem _ hc))

/-- The second letter of the name's mark sets it apart. -/
theorem Silent.cons_e {c : Char} {cs : List Char} (hc : c ≠ 'n') (hcs : Silent (c :: cs)) :
    Silent ('e' :: c :: cs) := by
  intro rest
  have hne : ('n' == c) = false := by simpa using Ne.symm hc
  have hstarts : "encoding".toList.isPrefixOf ('e' :: c :: (cs ++ rest)) = false := by
    rw [toList_encoding, List.isPrefixOf, List.isPrefixOf, hne, Bool.false_and, Bool.and_false]
  rw [List.cons_append, List.cons_append, declaredName?, hstarts, if_neg Bool.false_ne_true]
  exact hcs rest

theorem ne_of_isSpace {c d : Char} (h : isSpace c = true) (hd : isSpace d = false) : c ≠ d := by
  rintro rfl
  rw [h] at hd
  cases hd

namespace Setting

variable (s : Setting)

theorem ne_of_mem_gap {c d : Char} (hc : c ∈ s.gap) (hd : isSpace d = false) : c ≠ d :=
  ne_of_isSpace (s.spaces c (by simp [hc])) hd

theorem quote_not_mem : s.quote ∉ s.value := by
  intro h
  have hplain := s.plain _ h
  rcases s.quoted with hq | hq <;> rw [hq] at hplain <;> exact absurd hplain (by decide)

theorem isSpace_quote : isSpace s.quote = false := by
  rcases s.quoted with hq | hq <;> rw [hq] <;> rfl

/-- A setting for an encoding names it. -/
theorem declaredName?_encoding (rest : List Char) :
    declaredName? (s.chars "encoding".toList ++ rest) = some (String.ofList s.value) := by
  have hgap : Silent s.gap := silent_of_forall_ne fun c hc => s.ne_of_mem_gap hc rfl
  have hequals :
      skipSpace (s.before ++ '=' :: (s.behind ++ s.quote :: (s.value ++ s.quote :: rest))) =
        '=' :: (s.behind ++ s.quote :: (s.value ++ s.quote :: rest)) := by
    refine skipSpace_append (fun c hc => s.spaces c (by simp [hc])) ?_
    simp
    rfl
  have hquoted : skipSpace (s.behind ++ s.quote :: (s.value ++ s.quote :: rest)) =
      s.quote :: (s.value ++ s.quote :: rest) := by
    refine skipSpace_append (fun c hc => s.spaces c (by simp [hc])) ?_
    simpa using s.isSpace_quote
  have hchars : s.chars "encoding".toList ++ rest =
      s.gap ++ ('e' :: (['n', 'c', 'o', 'd', 'i', 'n', 'g'] ++
        (s.before ++ '=' :: (s.behind ++ s.quote :: (s.value ++ s.quote :: rest))))) := by
    simp [chars, toList_encoding]
  have hstarts : ∀ rest, "encoding".toList.isPrefixOf
      ('e' :: (['n', 'c', 'o', 'd', 'i', 'n', 'g'] ++ rest)) = true := by
    intro rest
    simp [toList_encoding, List.isPrefixOf]
  have hdrop : ∀ rest : List Char, (['n', 'c', 'o', 'd', 'i', 'n', 'g'] ++ rest).drop 7 = rest :=
    fun rest => rfl
  rw [hchars, hgap, declaredName?, if_pos (hstarts _), hdrop, hequals]
  change (takeQuoted? (skipSpace (s.behind ++ s.quote :: (s.value ++ s.quote :: rest)))).map
    (fun q => String.ofList q.1) = _
  rw [hquoted, takeQuoted?_append s.quoted s.quote_not_mem]
  rfl

theorem quote_ne {c : Char} (h : isAsciiAlphanumeric c = true) : s.quote ≠ c := by
  rintro rfl
  rcases s.quoted with hq | hq <;> rw [hq] at h <;> exact absurd h (by decide)

/-- A setting names no encoding if neither its name nor its value does. -/
theorem silent_chars {name : List Char} (hname : Silent (name ++ (s.before ++ ['='])))
    (hvalue : Silent (s.value ++ [s.quote])) : Silent (s.chars name) := by
  have hgap : Silent s.gap := silent_of_forall_ne fun c hc => s.ne_of_mem_gap hc rfl
  have hbehind : Silent (s.behind ++ [s.quote]) := by
    refine silent_of_forall_ne fun c hc => ?_
    rcases List.mem_append.mp hc with hc | hc
    · exact ne_of_isSpace (s.spaces c (by simp [hc])) rfl
    · rw [List.mem_singleton.mp hc]
      exact s.quote_ne rfl
  have hchars : s.chars name = s.gap ++ ((name ++ (s.before ++ ['='])) ++
      ((s.behind ++ [s.quote]) ++ (s.value ++ [s.quote]))) := by
    simp [chars]
  rw [hchars]
  exact hgap.append (hname.append (hbehind.append hvalue))

/-- Behind a name there is white space or the equals sign. -/
theorem exists_before : ∃ c cs, s.before ++ ['='] = c :: cs ∧ c ≠ 'n' ∧ Silent (c :: cs) := by
  have hsilent : Silent (s.before ++ ['=']) := by
    refine silent_of_forall_ne fun c hc => ?_
    rcases List.mem_append.mp hc with hc | hc
    · exact ne_of_isSpace (s.spaces c (by simp [hc])) rfl
    · rw [List.mem_singleton.mp hc]
      decide
  cases hbefore : s.before with
  | nil =>
      rw [hbefore] at hsilent
      exact ⟨'=', [], rfl, by decide, hsilent⟩
  | cons c cs =>
      rw [hbefore] at hsilent
      exact ⟨c, _, rfl, ne_of_isSpace (s.spaces c (by simp [hbefore])) rfl, hsilent⟩

end Setting

namespace Declaration

variable (d : Declaration)

theorem silent_version : Silent (d.version.chars "version".toList) := by
  refine d.version.silent_chars ?_ (silent_of_forall_ne fun c hc => ?_)
  · obtain ⟨c, cs, hbefore, _, hsilent⟩ := d.version.exists_before
    have hword : "version".toList = 'v' :: 'e' :: 'r' :: ['s', 'i', 'o', 'n'] := rfl
    rw [hword, hbefore]
    have hrest : Silent (['r', 's', 'i', 'o', 'n'] ++ c :: cs) :=
      (silent_of_forall_ne (by simp)).append hsilent
    exact .cons (by decide) (hrest.cons_e (by decide))
  · rcases List.mem_append.mp hc with hc | hc
    · rintro rfl
      exact absurd (d.number 'e' hc) (by decide)
    · rw [List.mem_singleton.mp hc]
      exact d.version.quote_ne rfl

theorem silent_standalone : Silent d.standaloneChars := by
  unfold standaloneChars
  cases hstandalone : d.standalone with
  | none => exact fun rest => rfl
  | some s =>
      refine s.silent_chars ?_ ?_
      · obtain ⟨c, cs, hbefore, hc, hsilent⟩ := s.exists_before
        have hword : "standalone".toList =
            ['s', 't', 'a', 'n', 'd', 'a', 'l', 'o', 'n'] ++ ['e'] := rfl
        rw [hword, hbefore, List.append_assoc]
        exact (silent_of_forall_ne (by simp)).append (hsilent.cons_e hc)
      · have hquote : Silent [s.quote] :=
          silent_of_forall_ne fun c hc => List.mem_singleton.mp hc ▸ s.quote_ne rfl
        rcases d.answer s hstandalone with hanswer | hanswer <;> rw [hanswer]
        · have hrest : Silent ('s' :: [s.quote]) := hquote.cons (by decide)
          exact .cons (by decide) (hrest.cons_e (by decide))
        · exact (silent_of_forall_ne (by simp)).append hquote

/-- The name of the encoding is found between the marks of a declaration. -/
theorem declaredName?_inside : declaredName? d.inside = d.name? := by
  rw [inside, d.silent_version]
  unfold encodingChars name?
  cases d.encoding with
  | some s => exact s.declaredName?_encoding _
  | none =>
      have htrail : Silent d.trail :=
        silent_of_forall_ne fun c hc => ne_of_isSpace (d.spaces c hc) rfl
      have hrest := (d.silent_standalone.append htrail) []
      rw [List.append_nil] at hrest
      exact hrest

theorem not_mem_inside : '?' ∉ d.inside := by
  intro h
  exact absurd (d.isInsideChar_of_mem h) (by decide)

/-- Whatever stands behind a declaration, it declares its encoding. -/
theorem declaredEncoding?_append (rest : List Char) :
    declaredEncoding? (d.chars ++ rest) = d.name? := by
  obtain ⟨c, cs, hinside, hspace⟩ := d.exists_space
  have hmem := d.not_mem_inside
  have hname := d.declaredName?_inside
  have hfirst : Silent [c] := silent_of_forall_ne fun e he =>
    ne_of_isSpace (List.mem_singleton.mp he ▸ hspace) rfl
  rw [hinside] at hmem hname
  rw [d.chars_append, hinside, List.cons_append, declaredEncoding?, if_pos hspace,
    takeUntil?_append fun h => hmem (List.mem_cons_of_mem c h), ← hname]
  exact (hfirst cs).symm

end Declaration

/-! ## Leaving a declaration out -/

theorem unifyLines_cons {c : Char} (hc : c ≠ '\r') (cs : List Char) :
    unifyLines (c :: cs) = c :: unifyLines cs := by
  rw [unifyLines]
  · exact fun _ h => absurd h hc
  · exact hc

theorem unifyLines_append {c : Char} (hc : c ≠ '\r') (hn : c ≠ '\n') (cs rest : List Char) :
    unifyLines (cs ++ c :: rest) = unifyLines cs ++ c :: unifyLines rest := by
  fun_induction unifyLines cs with
  | case1 => exact unifyLines_cons hc rest
  | case2 r ih => rw [List.cons_append, List.cons_append, unifyLines, ih, List.cons_append]
  | case3 r hr ih =>
      rw [List.cons_append, unifyLines, ih, List.cons_append]
      intro r' heq
      cases r with
      | nil => exact hn (List.cons.inj heq).1
      | cons d r => exact hr r (congrArg (· :: r) (List.cons.inj heq).1)
  | case4 d r _ hd ih => rw [List.cons_append, unifyLines_cons hd, ih, List.cons_append]

theorem mem_unifyLines {c : Char} {cs : List Char} (h : c ∈ unifyLines cs) : c ∈ cs ∨ c = '\n' := by
  fun_induction unifyLines cs with
  | case1 => cases h
  | case2 r ih =>
      rcases List.mem_cons.mp h with rfl | h
      · exact Or.inr rfl
      · exact (ih h).imp_left fun h => List.mem_cons_of_mem _ (List.mem_cons_of_mem _ h)
  | case3 r hr ih =>
      rcases List.mem_cons.mp h with rfl | h
      · exact Or.inr rfl
      · exact (ih h).imp_left fun h => List.mem_cons_of_mem _ h
  | case4 d r hd hd' ih =>
      rcases List.mem_cons.mp h with rfl | h
      · exact Or.inl List.mem_cons_self
      · exact (ih h).imp_left fun h => List.mem_cons_of_mem _ h

/-- White space stays white space where lines are ended alike. -/
theorem exists_unifyLines_cons {c : Char} (h : isSpace c = true) (cs : List Char) :
    ∃ d ds, unifyLines (c :: cs) = d :: ds ∧ isSpace d = true := by
  by_cases hc : c = '\r'
  · subst hc
    cases cs with
    | nil => exact ⟨'\n', [], rfl, rfl⟩
    | cons d ds =>
        by_cases hd : d = '\n'
        · exact ⟨'\n', unifyLines ds, by rw [hd, unifyLines], rfl⟩
        · refine ⟨'\n', unifyLines (d :: ds), ?_, rfl⟩
          rw [unifyLines]
          exact fun r heq => hd (List.cons.inj heq).1
  · exact ⟨c, _, unifyLines_cons hc cs, h⟩

/-- Nothing of a declaration becomes part of the document. -/
theorem dropDeclaration_append (d : Declaration) (rest : List Char) :
    dropDeclaration (unifyLines (d.chars ++ rest)) = unifyLines rest := by
  obtain ⟨c, cs, hinside, hspace⟩ := d.exists_space
  obtain ⟨e, es, hunify, hspace'⟩ := exists_unifyLines_cons hspace cs
  have hmem : '?' ∉ es := by
    intro h
    have hunified : '?' ∈ unifyLines (c :: cs) := hunify ▸ List.mem_cons_of_mem e h
    rcases mem_unifyLines hunified with h | h
    · exact d.not_mem_inside (hinside ▸ h)
    · exact absurd h (by decide)
  have hunified : unifyLines (d.chars ++ rest) =
      '<' :: '?' :: 'x' :: 'm' :: 'l' :: e :: (es ++ '?' :: '>' :: unifyLines rest) := by
    rw [d.chars_append, hinside, unifyLines_cons (by decide), unifyLines_cons (by decide),
      unifyLines_cons (by decide), unifyLines_cons (by decide), unifyLines_cons (by decide),
      unifyLines_append (by decide) (by decide), hunify, unifyLines_cons (by decide),
      List.cons_append]
  rw [hunified, dropDeclaration, if_pos hspace', takeUntil?_append hmem]
  rfl

theorem parse_append (d : Declaration) (rest : List Char) :
    parse (d.chars ++ rest) =
      ((tokenize (unifyLines rest).length true (unifyLines rest)).foldl
        Growth.add {}).builder.finish := by
  rw [parse, tokens, dropDeclaration_append]

theorem Declaration.toList_text_append (d : Declaration) (s : String) :
    (d.text ++ s).toList = d.chars ++ s.toList := by
  rw [String.toList_append, text, String.toList_ofList]

theorem Declaration.isEmpty_text_append (d : Declaration) (s : String) :
    (d.text ++ s).isEmpty = false := by
  rw [Bool.eq_false_iff, ne_eq, String.isEmpty_iff, ← String.toList_eq_nil_iff,
    d.toList_text_append]
  exact List.cons_ne_nil _ _

end Xml

/-- What stands behind a declaration makes the document, however the declaration is written. -/
theorem Source.written_declared (d d' : Xml.Declaration) (s : String) :
    written (d.text ++ s) .xml = written (d'.text ++ s) .xml := by
  rw [written, written, d.isEmpty_text_append, d'.isEmpty_text_append, documentOf, documentOf,
    d.toList_text_append, d'.toList_text_append, Xml.parse_append, Xml.parse_append]

end Harvest.Markup
