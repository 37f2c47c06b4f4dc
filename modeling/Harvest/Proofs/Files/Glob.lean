import Harvest.Files.Glob
import Harvest.Proofs.Files.Names

/-!
# Where path patterns look

A pattern is taken apart in front of its first part with a wildcard.  Whatever it finds is written
as an absolute path is, if the pattern is.
-/

namespace Harvest

open Wildcard (isSign hasSigns)

variable {anchor : Anchor} {front back : List String} {part name dir text : String} {q : Path}
  {fs : FileSystem}

/-! ## Taking a pattern apart -/

namespace Glob

theorem intercalate_append_cons {mark : Char} {pieces : List (List Char)} (piece : List Char)
    (rest : List (List Char)) : [mark].intercalate (pieces ++ piece :: rest) =
      pieces.flatMap (· ++ [mark]) ++ [mark].intercalate (piece :: rest) := by
  induction pieces with
  | nil => rfl
  | cons first pieces ih =>
      rw [List.cons_append, List.intercalate_cons_of_ne_nil (by simp), ih, List.flatMap_cons,
        List.append_assoc, List.append_assoc, List.append_assoc]

/-- The text of a directory with a slash behind it. -/
def opened (anchor : Anchor) (front : List String) : List Char :=
  anchor.text.toList ++ (front.map String.toList).flatMap (· ++ ['/'])

theorem opened_concat (front : List String) (part : String) :
    opened anchor (front ++ [part]) = opened anchor front ++ part.toList ++ ['/'] := by
  simp [opened]

theorem toList_toString_append (anchor : Anchor) (front : List String) (part : String)
    (back : List String) : (Path.toString ⟨anchor, front ++ part :: back⟩).toList =
      opened anchor front ++ ['/'].intercalate ((part :: back).map String.toList) := by
  rw [Path.toList_toString (Or.inl (by simp)), List.map_append, List.map_cons,
    intercalate_append_cons, opened, List.append_assoc]

/-- The slash behind a directory is the last one in front of what comes there. -/
theorem exists_opened (habsolute : anchor ≠ .relative) (front : List String) :
    ∃ cs, opened anchor front = cs ++ ['/'] := by
  rcases List.eq_nil_or_concat front with rfl | ⟨front, part, rfl⟩
  · cases anchor with
    | relative => exact absurd rfl habsolute
    | root => exact ⟨[], rfl⟩
    | doubleRoot => exact ⟨['/'], rfl⟩
  · rw [List.concat_eq_append, opened_concat]
    exact ⟨_, rfl⟩

theorem dropSlashes_opened (hq : Path.Proper ⟨anchor, front⟩) (habsolute : anchor ≠ .relative) :
    String.ofList (dropSlashes (opened anchor front)) = Path.toString ⟨anchor, front⟩ := by
  rcases List.eq_nil_or_concat front with rfl | ⟨front, part, rfl⟩
  · cases anchor <;> first | exact absurd rfl habsolute | decide
  · rw [List.concat_eq_append] at hq ⊢
    have hpart := hq part (by simp)
    have htext : (Path.toString ⟨anchor, front ++ [part]⟩).toList =
        opened anchor front ++ part.toList := by
      rw [toList_toString_append]
      simp
    obtain ⟨c, cs, hc⟩ : ∃ c cs, part.toList.reverse = c :: cs :=
      List.exists_cons_of_ne_nil (by simpa using hpart.ne_nil)
    have hslash : c ≠ '/' := by
      rintro rfl
      exact hpart.slash (List.mem_reverse.mp (hc ▸ List.mem_cons_self))
    have hkept : ((opened anchor (front ++ [part])).reverse.dropWhile (· == '/')).reverse =
        opened anchor front ++ part.toList := by
      rw [opened_concat, List.reverse_append, List.reverse_singleton, List.singleton_append,
        List.reverse_append, hc, List.cons_append, List.dropWhile_cons_of_pos rfl,
        List.dropWhile_cons_of_neg (by simpa using hslash), ← List.cons_append, ← hc,
        List.reverse_append, List.reverse_reverse, List.reverse_reverse]
    rw [dropSlashes, hkept, ← htext, if_neg]
    · exact String.ofList_toList
    · rw [htext]
      simp [hpart.ne_nil]

theorem dropEmpty_of_ne_nil {pieces : List (List Char)} (h : ∀ piece ∈ pieces, piece ≠ []) :
    dropEmpty pieces = pieces := by
  induction pieces with
  | nil => rfl
  | cons piece pieces ih =>
      cases pieces with
      | nil => rfl
      | cons next pieces =>
          rw [dropEmpty, ih fun p hp => h p (List.mem_cons_of_mem _ hp)]
          · simp [h piece List.mem_cons_self]
          · simp

theorem splitBase_append {cs fixed rest : List Char} {sign : Char}
    (hcs : ∀ c ∈ cs ++ ['/'], isSign c = false) (hfixed : ∀ c ∈ fixed, isSign c = false)
    (hslash : '/' ∉ fixed) (hsign : isSign sign = true) :
    splitBase (cs ++ ['/'] ++ (fixed ++ sign :: rest)) = (cs ++ ['/'], fixed ++ sign :: rest) := by
  have hplain : ((cs ++ ['/'] ++ (fixed ++ sign :: rest)).takeWhile (!isSign ·)) =
      cs ++ ['/'] ++ fixed := by
    rw [List.takeWhile_append_of_pos fun c hc => by simp [hcs c hc],
      List.takeWhile_append_of_pos fun c hc => by simp [hfixed c hc]]
    simp [hsign]
  have hname : ((cs ++ ['/'] ++ fixed).reverse.takeWhile (· != '/')).reverse = fixed := by
    have hne : ∀ c ∈ fixed.reverse, (c != '/') = true := by
      intro c hc
      rw [bne_iff_ne]
      rintro rfl
      exact hslash (List.mem_reverse.mp hc)
    rw [List.reverse_append, List.takeWhile_append_of_pos hne]
    simp
  have htake : (cs ++ ['/'] ++ fixed).take ((cs ++ ['/'] ++ fixed).length - fixed.length) =
      cs ++ ['/'] := by
    rw [List.length_append, Nat.add_sub_cancel, List.take_left]
  have hdrop : (cs ++ ['/'] ++ (fixed ++ sign :: rest)).drop (cs ++ ['/'] ++ fixed).length =
      sign :: rest := by
    rw [← List.append_assoc, List.drop_left]
  rw [splitBase, hplain, hname, htake, hdrop]

theorem isSign_of_mem_opened (hfront : ∀ p ∈ front, hasSigns p = false) {c : Char}
    (hc : c ∈ opened anchor front) : isSign c = false := by
  rcases List.mem_append.mp hc with hc | hc
  · cases anchor
    · exact absurd hc List.not_mem_nil
    · obtain rfl := List.mem_singleton.mp hc
      rfl
    · rcases List.mem_pair.mp hc with rfl | rfl <;> rfl
  · obtain ⟨piece, hpiece, hc⟩ := List.mem_flatMap.mp hc
    obtain ⟨p, hp, rfl⟩ := List.mem_map.mp hpiece
    rcases List.mem_append.mp hc with hc | hc
    · have hplain := hfront p hp
      rw [hasSigns, List.any_eq_false] at hplain
      simpa using hplain c hc
    · obtain rfl := List.mem_singleton.mp hc
      rfl

/-- A part with a wildcard is split at the first one. -/
theorem exists_sign (h : hasSigns part = true) : ∃ fixed sign rest,
    part.toList = fixed ++ sign :: rest ∧ isSign sign = true ∧ ∀ c ∈ fixed, isSign c = false := by
  obtain ⟨sign, hfind⟩ : ∃ sign, part.toList.find? isSign = some sign := by
    rwa [← Option.isSome_iff_exists, List.find?_isSome, ← List.any_eq_true]
  obtain ⟨hsign, fixed, rest, hpart, hfixed⟩ := List.find?_eq_some_iff_append.mp hfind
  exact ⟨fixed, sign, rest, hpart, hsign, fun c hc => by simpa using hfixed c hc⟩

theorem exists_intercalate_cons (part : String) (back : List String) : ∃ rest,
    ['/'].intercalate ((part :: back).map String.toList) = part.toList ++ rest := by
  cases back with
  | nil => exact ⟨[], by simp⟩
  | cons next back =>
      rw [List.map_cons, List.map_cons, List.intercalate_cons_cons, List.append_assoc]
      exact ⟨_, rfl⟩

theorem levelsOf_intercalate (h : ∀ p ∈ back, Path.IsName p) (hne : back ≠ []) :
    levelsOf (['/'].intercalate (back.map String.toList)) = back.map levelOf := by
  have hslash : ∀ piece ∈ back.map String.toList, '/' ∉ piece := by
    intro piece hpiece
    obtain ⟨p, hp, rfl⟩ := List.mem_map.mp hpiece
    exact (h p hp).slash
  have hpieces : ∀ piece ∈ back.map String.toList, piece ≠ [] := by
    intro piece hpiece
    obtain ⟨p, hp, rfl⟩ := List.mem_map.mp hpiece
    exact (h p hp).ne_nil
  rw [levelsOf, Path.splitSlashes_intercalate (by simpa using hne) hslash,
    dropEmpty_of_ne_nil hpieces, List.map_map]
  simp

/-- A pattern looks below the parts in front of the first one with a wildcard. -/
theorem ofString_toString (hq : Path.Proper ⟨anchor, front ++ part :: back⟩)
    (habsolute : anchor ≠ .relative) (hfront : ∀ p ∈ front, hasSigns p = false)
    (hpart : hasSigns part = true) :
    Glob.ofString (Path.toString ⟨anchor, front ++ part :: back⟩) =
      ⟨Path.toString ⟨anchor, front⟩, (part :: back).map levelOf⟩ := by
  have hbase : Path.Proper ⟨anchor, front⟩ := fun p hp => hq p (List.mem_append_left _ hp)
  have hbelow : ∀ p ∈ part :: back, Path.IsName p := fun p hp => hq p (List.mem_append_right _ hp)
  obtain ⟨cs, hcs⟩ := exists_opened habsolute front
  obtain ⟨fixed, sign, rest, hchars, hsign, hfixed⟩ := exists_sign hpart
  obtain ⟨behind, hbehind⟩ := exists_intercalate_cons part back
  have hslash : '/' ∉ fixed := by
    have hslash := (hbelow part List.mem_cons_self).slash
    rw [hchars] at hslash
    exact fun h => hslash (List.mem_append_left _ h)
  have hrest : ['/'].intercalate ((part :: back).map String.toList) =
      fixed ++ sign :: (rest ++ behind) := by
    rw [hbehind, hchars, List.append_assoc, List.cons_append]
  have hsplit : splitBase (Path.toString ⟨anchor, front ++ part :: back⟩).toList =
      (opened anchor front, ['/'].intercalate ((part :: back).map String.toList)) := by
    rw [toList_toString_append, hrest, hcs]
    refine splitBase_append (fun c hc => ?_) hfixed hslash hsign
    exact isSign_of_mem_opened hfront (hcs ▸ hc)
  rw [Glob.ofString, hsplit]
  dsimp only
  rw [dropSlashes_opened hbase habsolute, levelsOf_intercalate hbelow (by simp)]

end Glob

/-! ## What a pattern finds -/

/-- Whether all names in a file system can be parts of paths. -/
def FileSystem.Named (fs : FileSystem) : Prop := ∀ e ∈ fs.entries, ∀ name ∈ e.1, Path.IsName name

theorem FileSystem.Named.isName_of_mem_list (h : fs.Named) (hname : name ∈ fs.list q) :
    Path.IsName name := by
  unfold list at hname
  split at hname
  · split at hname
    · obtain ⟨e, he, hlast⟩ := List.mem_filterMap.mp hname
      split at hlast
      · exact h e he name (List.mem_of_getLast? hlast)
      · cases hlast
    · cases hname
  · cases hname

/-- Whether a level that stands for one name can be a part of a path. -/
def Level.Proper : Level → Prop
  | .named name => Path.IsName name
  | _ => True

namespace Glob

variable {level : Level} {levels : List Level} {found : String}

theorem proper_levelOf (h : Path.IsName part) : (levelOf part).Proper := by
  unfold levelOf
  split
  · trivial
  · split
    · trivial
    · exact h

theorem within_toString (hq : q.Proper) (habsolute : q.isAbsolute = true)
    (hname : Path.IsName name) :
    within q.toString name = Path.toString ⟨q.anchor, q.parts ++ [name]⟩ := by
  obtain ⟨anchor, parts⟩ := q
  have hwhole : (Path.toString ⟨anchor, parts ++ [name]⟩).toList =
      opened anchor parts ++ name.toList := by
    rw [toList_toString_append]
    simp
  have hanchor : anchor ≠ .relative := by
    rintro rfl
    cases habsolute
  have hempty : name.isEmpty = false := by
    rw [Bool.eq_false_iff, ne_eq, String.isEmpty_iff, ← String.toList_eq_nil_iff]
    exact hname.ne_nil
  rw [← String.toList_inj, hwhole]
  rcases List.eq_nil_or_concat parts with rfl | ⟨front, part, rfl⟩
  · -- a root has its slash already
    cases anchor with
    | relative => exact absurd rfl hanchor
    | root => simp [within, hempty, Path.toString, opened, Anchor.text]
    | doubleRoot => simp [within, hempty, Path.toString, opened, Anchor.text]
  · rw [List.concat_eq_append] at hq ⊢
    have hpart := hq part (by simp)
    have hdir : (Path.toString ⟨anchor, front ++ [part]⟩).toList =
        opened anchor front ++ part.toList := by
      rw [toList_toString_append]
      simp
    have hopen : (Path.toString ⟨anchor, front ++ [part]⟩).isEmpty = false := by
      rw [Bool.eq_false_iff, ne_eq, String.isEmpty_iff, ← String.toList_eq_nil_iff, hdir]
      simp [hpart.ne_nil]
    have hlast : (Path.toString ⟨anchor, front ++ [part]⟩).toList.getLast? ≠ some '/' := by
      rw [hdir, List.getLast?_append_of_ne_nil _ hpart.ne_nil]
      exact fun h => hpart.slash (List.mem_of_getLast? h)
    rw [within, if_neg (by simp [hopen]), if_neg (by simp [hempty]), if_neg (by simpa using hlast),
      String.toList_append, String.toList_append, hdir, opened_concat]
    rfl

theorem isWritten_within (hdir : Path.IsWritten dir) (hname : Path.IsName name) :
    Path.IsWritten (within dir name) := by
  obtain ⟨q, hq, habsolute, rfl⟩ := hdir
  refine ⟨_, ?_, ?_, (within_toString hq habsolute hname).symm⟩
  · intro part hpart
    rcases List.mem_append.mp hpart with hpart | hpart
    · exact hq part hpart
    · rwa [List.mem_singleton.mp hpart]
  · exact habsolute

theorem isWritten_below (hfs : fs.Named) {depth : Nat} (hdir : Path.IsWritten dir)
    (h : found ∈ below fs depth dir) : Path.IsWritten found := by
  induction depth generalizing dir with
  | zero => rwa [List.mem_singleton.mp h]
  | succ depth ih =>
      rcases List.mem_cons.mp h with rfl | h
      · exact hdir
      · obtain ⟨name, hname, h⟩ := List.mem_flatMap.mp h
        have hlisted := List.mem_of_mem_filter hname
        exact ih (isWritten_within hdir (hfs.isName_of_mem_list hlisted)) h

theorem isWritten_step (hfs : fs.Named) (hlevel : level.Proper) (hdir : Path.IsWritten dir)
    (h : found ∈ step fs dir level) : Path.IsWritten found := by
  cases level with
  | named name =>
      rw [step] at h
      split at h
      · rw [List.mem_singleton.mp h]
        exact isWritten_within hdir hlevel
      · cases h
  | wild hidden pattern =>
      obtain ⟨name, hname, rfl⟩ := List.mem_map.mp h
      have hlisted := List.mem_of_mem_filter hname
      exact isWritten_within hdir (hfs.isName_of_mem_list hlisted)
  | anyDepth => exact isWritten_below hfs hdir h

theorem isWritten_search (hfs : fs.Named) (hlevels : ∀ level ∈ levels, level.Proper)
    (hdir : Path.IsWritten dir) (h : found ∈ search fs levels dir) : Path.IsWritten found := by
  induction levels generalizing dir with
  | nil => rwa [List.mem_singleton.mp h]
  | cons level levels ih =>
      rw [search] at h
      split at h
      · obtain ⟨next, hnext, h⟩ := List.mem_flatMap.mp h
        have hlevel := hlevels level List.mem_cons_self
        exact ih (fun level hlevel => hlevels level (List.mem_cons_of_mem _ hlevel))
          (isWritten_step hfs hlevel hdir hnext) h
      · cases h

/-- Files that an absolute pattern finds are written as absolute paths are. -/
theorem isWritten_files (hfs : fs.Named) (hq : Path.Proper ⟨anchor, front ++ part :: back⟩)
    (habsolute : anchor ≠ .relative) (hfront : ∀ p ∈ front, hasSigns p = false)
    (hpart : hasSigns part = true)
    (h : found ∈ (Glob.ofString (Path.toString ⟨anchor, front ++ part :: back⟩)).files fs) :
    Path.IsWritten found := by
  rw [ofString_toString hq habsolute hfront hpart] at h
  have hfound := List.mem_of_mem_filter (List.mem_mergeSort.mp h)
  refine isWritten_search hfs ?_ ?_ hfound
  · intro level hlevel
    obtain ⟨p, hp, rfl⟩ := List.mem_map.mp hlevel
    exact proper_levelOf (hq p (List.mem_append_right _ hp))
  · exact ⟨⟨anchor, front⟩, fun p hp => hq p (List.mem_append_left _ hp),
      by simpa [Path.isAbsolute] using habsolute, rfl⟩

end Glob

end Harvest
