import Harvest.Proofs.Markup.Declaration

/-!
# A page of one element

The tree of an element with one value and one text, whatever these are: each character of them
stands in the tree as it was written.
-/

namespace Harvest.Markup

variable {cs v t : List Char}

/-- Whether characters stand for themselves, in a value as well as in a text. -/
def Verbatim (cs : List Char) : Prop :=
  ∀ c ∈ cs, c ∉ ['\x00', '\t', '\n', '\r', '"', '&', '<']

theorem Verbatim.not_mem (h : Verbatim cs) {c : Char}
    (hc : c ∈ ['\x00', '\t', '\n', '\r', '"', '&', '<']) : c ∉ cs := fun hmem => h c hmem hc

/-- An element with a value and a text. -/
def pageChars (v t : List Char) : List Char :=
  ['<', 'a', ' ', 'b', '=', '"'] ++ (v ++ (['"', '>'] ++ (t ++ ['<', '/', 'a', '>'])))

def page (v t : List Char) : String := String.ofList (pageChars v t)

/-- What the element is in a tree. -/
def pageContent (v t : List Char) : Content :=
  .node "" 0 (.element (.plain "a") [⟨.plain "b", String.ofList v⟩] []) (.text (String.ofList t))
    .empty

theorem pageContent_inj {v' t' : List Char} (h : pageContent v t = pageContent v' t') :
    v = v' ∧ t = t' := by
  simpa [pageContent, String.ofList_inj] using h

/-! ## Its tokens -/

namespace Xml

theorem unifyLines_of_not_mem (h : '\r' ∉ cs) : unifyLines cs = cs := by
  induction cs with
  | nil => rfl
  | cons c cs ih =>
      rw [List.mem_cons, not_or] at h
      rw [unifyLines_cons (Ne.symm h.1), ih h.2]

theorem takeColonName?_cons {c d : Char} (hc : isNameStart c = true)
    (hd : isColonNameChar d = false) (rest : List Char) :
    takeColonName? (c :: d :: rest) = some ([c], d :: rest) := by
  simp [takeColonName?, hc, hd]

theorem takeAttributes_end (n : Nat) (rest : List Char) :
    takeAttributes (n + 1) ('>' :: rest) = ([], false, true, rest) := by
  simp [takeAttributes]

theorem takeAttributes_value (hv : Verbatim v) (n : Nat) (rest : List Char) :
    takeAttributes (n + 2) ('b' :: '=' :: '"' :: (v ++ '"' :: '>' :: rest)) =
      ([("b", v)], false, true, rest) := by
  have hname : ∀ r, takeColonName? ('b' :: '=' :: r) = some (['b'], '=' :: r) :=
    takeColonName?_cons (by decide) (by decide)
  have hquoted := takeQuoted?_append (Or.inl rfl) (hv.not_mem (by decide)) ('>' :: rest)
  have hequals : ∀ r : List Char, skipSpace ('=' :: r) = '=' :: r := fun r => rfl
  have hquote : ∀ r : List Char, skipSpace ('"' :: r) = '"' :: r := fun r => rfl
  have hend : skipSpace ('>' :: rest) = '>' :: rest := rfl
  have hopen : v.contains '<' = false := by simpa using hv.not_mem (by decide)
  rw [takeAttributes]
  · simp only [hname, hequals, hquote, hquoted, hopen, hend, takeAttributes_end]
    simp
  all_goals simp

theorem takeMarkup_start (hv : Verbatim v) (rest : List Char) :
    takeMarkup true ('a' :: ' ' :: 'b' :: '=' :: '"' :: (v ++ '"' :: '>' :: rest)) =
      ([.startTag "a" [("b", v)] false], rest) := by
  have hskip : ∀ r : List Char, skipSpace (' ' :: 'b' :: r) = 'b' :: r := fun r => rfl
  rw [takeMarkup]
  · rw [takeColonName?_cons (by decide) (by decide)]
    dsimp only
    rw [takeStartTag, hskip, List.length_cons, List.length_cons, takeAttributes_value hv]
    rfl
  all_goals simp

theorem takeMarkup_end (prolog : Bool) :
    takeMarkup prolog ['/', 'a', '>'] = ([.endTag "a"], []) := by
  rw [takeMarkup, takeEndTag, takeColonName?_cons (by decide) (by decide)]
  rfl

theorem tokenize_end (n : Nat) (prolog : Bool) :
    tokenize (n + 1) prolog ['<', '/', 'a', '>'] = [.endTag "a"] := by
  rw [tokenize, if_pos (by decide), takeMarkup_end]
  cases n <;> rfl

theorem tokenize_text (ht : Verbatim t) (n : Nat) :
    tokenize (n + 2) false (t ++ ['<', '/', 'a', '>']) =
      (if t = [] then [] else [.text (String.ofList t)]) ++ [.endTag "a"] := by
  cases t with
  | nil => exact tokenize_end (n + 1) false
  | cons c t =>
      have hne : ∀ d ∈ c :: t, (d != '<' && d != '&') = true := by
        intro d hd
        have hd := ht d hd
        simp only [List.mem_cons, not_or] at hd
        simp [hd]
      have hc := hne c List.mem_cons_self
      have htail : ∀ d ∈ t, (d != '<' && d != '&') = true :=
        fun d hd => hne d (List.mem_cons_of_mem c hd)
      rw [Bool.and_eq_true, bne_iff_ne, bne_iff_ne] at hc
      have hstop : (['<', '/', 'a', '>'].takeWhile fun d => d != '<' && d != '&') = [] := rfl
      have hrest : (['<', '/', 'a', '>'].dropWhile fun d => d != '<' && d != '&') =
        ['<', '/', 'a', '>'] := rfl
      rw [List.cons_append, tokenize, if_neg (by simpa using hc.1), if_neg (by simpa using hc.2)]
      dsimp only
      rw [List.takeWhile_append_of_pos htail, List.dropWhile_append_of_pos htail, hstop, hrest,
        tokenize_end, List.append_nil, if_neg (List.cons_ne_nil c t)]
      rfl

theorem tokenize_pageChars (hv : Verbatim v) (ht : Verbatim t) (n : Nat) :
    tokenize (n + 3) true (pageChars v t) = .startTag "a" [("b", v)] false ::
      ((if t = [] then [] else [.text (String.ofList t)]) ++ [.endTag "a"]) := by
  have hpage : pageChars v t = '<' :: 'a' :: ' ' :: 'b' :: '=' :: '"' ::
      (v ++ '"' :: '>' :: (t ++ ['<', '/', 'a', '>'])) := rfl
  rw [hpage, tokenize, if_pos (by decide), takeMarkup_start hv]
  exact congrArg (Token.startTag "a" [("b", v)] false :: ·) (tokenize_text ht n)

/-! ## Its tree -/

theorem attributeText_of_verbatim (hv : Verbatim v) (depth : Nat) :
    attributeText [] depth v.length v = v := by
  induction v with
  | nil => simp [attributeText]
  | cons c v ih =>
      have hc := hv c List.mem_cons_self
      simp only [List.mem_cons, not_or] at hc
      have hsame : (if isSpace c then ' ' else c) = c := by
        split
        · rename_i hspace
          simp only [isSpace, hc, Bool.or_eq_true, beq_iff_eq, or_false] at hspace
          exact hspace.symm
        · rfl
      rw [List.length_cons, attributeText, hsame, ih fun c hc => hv c (List.mem_cons_of_mem _ hc)]
      exact hc.2.2.2.2.2.1

/-- The tree under construction behind the start tag. -/
theorem add_startTag (hv : Verbatim v) : Growth.add {} (.startTag "a" [("b", v)] false) =
    { builder := Builder.fresh.push (.element (.plain "a") [⟨.plain "b", String.ofList v⟩] [])
      stage := .content, scopes := [[]], names := ["a"] } := by
  have hname : splitName "a" = (none, "a") := by cbv
  have hvalue : splitName "b" = (none, "b") := by cbv
  change Growth.startTag {} "a" [("b", v)] false = _
  simp [Growth.startTag, hname, hvalue, declaration?, attributeText_of_verbatim hv, attributeOf,
    dropRepeated, resolve, spaceOf?]

theorem main_parse_page (hv : Verbatim v) (ht : Verbatim t) (d : Declaration) :
    (parse (d.chars ++ pageChars v t)).main = pageContent v t := by
  have hreturn : '\r' ∉ pageChars v t := by
    simp [pageChars, hv.not_mem, ht.not_mem]
  obtain ⟨n, hn⟩ : ∃ n, (pageChars v t).length = n + 3 := by
    refine ⟨v.length + t.length + 9, ?_⟩
    simp [pageChars]
    omega
  rw [parse_append, unifyLines_of_not_mem hreturn, hn, tokenize_pageChars hv ht, List.foldl_cons,
    add_startTag hv]
  by_cases hnil : t = []
  · rw [if_pos hnil, hnil]
    rfl
  · rw [if_neg hnil]
    rfl

end Xml

namespace Source

/-- A declared element is a document, whatever the declaration. -/
theorem written_page (hv : Verbatim v) (ht : Verbatim t) (d : Xml.Declaration) :
    ∃ doc, written (d.text ++ page v t) .xml = .ok doc ∧ doc.main = pageContent v t := by
  have hmain : (documentOf (d.text ++ page v t) .xml).main = pageContent v t := by
    rw [documentOf, d.toList_text_append, page, String.toList_ofList]
    exact Xml.main_parse_page hv ht d
  have hroot : (documentOf (d.text ++ page v t) .xml).root? = some 0 := by
    rw [Document.root?, hmain]
    rfl
  refine ⟨_, ?_, hmain⟩
  rw [written, d.isEmpty_text_append, if_neg (by decide)]
  dsimp only
  rw [hroot]

theorem written_page_inj {v' t' : List Char} (hv : Verbatim v) (ht : Verbatim t)
    (hv' : Verbatim v') (ht' : Verbatim t') (d : Xml.Declaration) :
    written (d.text ++ page v t) .xml = written (d.text ++ page v' t') .xml ↔ v = v' ∧ t = t' := by
  constructor
  · intro h
    obtain ⟨doc, hdoc, hmain⟩ := written_page hv ht d
    obtain ⟨doc', hdoc', hmain'⟩ := written_page hv' ht' d
    obtain rfl := Except.ok.inj (hdoc.symm.trans (h.trans hdoc'))
    exact pageContent_inj (hmain.symm.trans hmain')
  · rintro ⟨rfl, rfl⟩
    rfl

end Source

end Harvest.Markup
