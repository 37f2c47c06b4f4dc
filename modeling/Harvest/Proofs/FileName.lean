import Harvest.FileName
import Mathlib

/-!
# File names

Every name of a result file is a stem of safe characters with an extension, and so is one part of a
path.
-/

namespace Harvest

/-! ## Tags -/

namespace Digest

theorem length_lowBytes (count n : Nat) : (lowBytes count n).length = count := by
  simp [lowBytes]

theorem length_md5 (message : List UInt8) : (md5 message).length = 16 := by
  simp [md5, length_lowBytes]

theorem toList_ofText (s : String) : ∃ bytes : List UInt8, bytes.length = 16 ∧
    (ofText s).toList = bytes.flatMap fun b =>
      [Nat.digitChar (b.toNat / 16), Nat.digitChar (b.toNat % 16)] := by
  refine ⟨md5 s.toUTF8.toList, length_md5 _, ?_⟩
  rw [ofText, hexText, String.toList_ofList]

end Digest

namespace FileName

theorem isSafe_digitChar {n : Nat} (h : n < 16) : isSafe (Nat.digitChar n) = true := by
  interval_cases n <;> rfl

theorem length_tag (source : String) : (tag source).toList.length = 8 := by
  obtain ⟨bytes, hbytes, htext⟩ := Digest.toList_ofText source
  rw [tag, String.toList_ofList, htext, List.length_take, List.length_flatMap]
  simp [hbytes]

theorem isSafe_of_mem_tag {source : String} {c : Char} (h : c ∈ (tag source).toList) :
    isSafe c = true := by
  obtain ⟨bytes, _, htext⟩ := Digest.toList_ofText source
  rw [tag, String.toList_ofList, htext] at h
  obtain ⟨b, _, hc⟩ := List.mem_flatMap.mp (List.mem_of_mem_take h)
  have hb : b.toNat < 256 := b.toNat_lt
  rcases List.mem_pair.mp hc with rfl | rfl
  · exact isSafe_digitChar (by omega)
  · exact isSafe_digitChar (by omega)

/-! ## Safe names -/

theorem isSafe_of_mem_replaceUnsafe {cs : List Char} {c : Char} (h : c ∈ replaceUnsafe cs) :
    isSafe c = true := by
  obtain ⟨d, _, rfl⟩ := List.mem_map.mp h
  split
  · assumption
  · rfl

theorem mem_of_mem_squeeze {cs : List Char} {c : Char} (h : c ∈ squeeze cs) : c ∈ cs := by
  fun_induction squeeze cs with
  | case1 r ih => exact List.mem_cons_of_mem _ (ih h)
  | case2 d r hd ih =>
      rcases List.mem_cons.mp h with rfl | h
      · exact List.mem_cons_self
      · exact List.mem_cons_of_mem _ (ih h)
  | case3 => exact h

theorem mem_of_mem_cut {n : Int} {cs : List Char} {c : Char} (h : c ∈ cut n cs) : c ∈ cs := by
  unfold cut at h
  split at h <;> exact List.mem_of_mem_take h

theorem isSafe_of_mem_cleanChars {cs : List Char} {c : Char} (h : c ∈ cleanChars cs) :
    isSafe c = true := by
  have hmem : c ∈ squeeze (replaceUnsafe cs) := by
    have hdrop := (List.dropWhile_sublist _).mem (List.mem_reverse.mp h)
    exact (List.dropWhile_sublist _).mem (List.mem_reverse.mp hdrop)
  exact isSafe_of_mem_replaceUnsafe (mem_of_mem_squeeze hmem)

theorem isSafe_of_mem_unnamed {c : Char} (h : c ∈ "unnamed".toList) : isSafe c = true := by
  have hall : "unnamed".toList.all isSafe = true := rfl
  exact List.all_eq_true.mp hall c h

theorem isSafe_of_mem_sanitizeChars {limit : Int} {cs : List Char} {c : Char}
    (h : c ∈ sanitizeChars limit cs) : isSafe c = true := by
  unfold sanitizeChars at h
  dsimp only at h
  by_cases hlimit : limit < (cleanChars cs).length
  · rw [if_pos hlimit] at h
    split at h
    · exact isSafe_of_mem_unnamed h
    · exact isSafe_of_mem_cleanChars (mem_of_mem_cut h)
  · rw [if_neg hlimit] at h
    split at h
    · exact isSafe_of_mem_unnamed h
    · exact isSafe_of_mem_cleanChars h

theorem sanitizeChars_ne_nil (limit : Int) (cs : List Char) : sanitizeChars limit cs ≠ [] := by
  unfold sanitizeChars
  dsimp only
  generalize (if limit < (cleanChars cs).length then cut limit (cleanChars cs)
    else cleanChars cs) = short
  by_cases hshort : short.isEmpty = true
  · rw [if_pos hshort]
    exact List.cons_ne_nil 'u' _
  · rw [if_neg hshort]
    simpa using hshort

/-- The name of a result file is a stem of safe characters with the extension. -/
theorem exists_stem (name source extension : String) :
    ∃ stem : List Char, stem ≠ [] ∧ (∀ c ∈ stem, isSafe c = true) ∧
      build name source extension = String.ofList stem ++ extension := by
  have hsafe : ∀ c ∈ sanitizeChars maxLength name.toList, isSafe c = true :=
    fun c hc => isSafe_of_mem_sanitizeChars hc
  have hne := sanitizeChars_ne_nil maxLength name.toList
  unfold build
  dsimp only
  generalize sanitizeChars maxLength name.toList = clean at hsafe hne ⊢
  by_cases hlong : (maxLength : Int) - extension.length < clean.length
  · rw [if_pos hlong]
    refine ⟨_, List.append_ne_nil_of_right_ne_nil _ (List.cons_ne_nil _ _), ?_, rfl⟩
    intro c hc
    rcases List.mem_append.mp hc with hc | hc
    · exact hsafe c (mem_of_mem_cut hc)
    · rcases List.mem_cons.mp hc with rfl | hc
      · rfl
      · exact isSafe_of_mem_tag hc
  · rw [if_neg hlong]
    exact ⟨clean, hne, hsafe, rfl⟩

/-! ## Lengths -/

/-- Whether the safe form of a name leaves room for an extension. -/
def Fits (name extension : String) : Prop :=
  (sanitizeChars maxLength name.toList).length + extension.length ≤ maxLength

theorem build_of_fits {name extension : String} (h : Fits name extension) (source : String) :
    build name source extension =
      String.ofList (sanitizeChars maxLength name.toList) ++ extension := by
  unfold Fits at h
  rw [build]
  dsimp only
  rw [if_neg (by omega)]

theorem build_of_not_fits {name extension : String} (h : ¬ Fits name extension) (source : String) :
    build name source extension =
      String.ofList (cut ((maxLength : Int) - extension.length - 8 - 1)
        (sanitizeChars maxLength name.toList) ++ '_' :: (tag source).toList) ++ extension := by
  unfold Fits at h
  rw [build]
  dsimp only
  rw [if_pos (by omega), length_tag]
  rfl

theorem length_cut {n : Int} (h : 0 ≤ n) (cs : List Char) :
    (cut n cs).length = min n.toNat cs.length := by
  rw [cut, if_pos h, List.length_take]

/-- A name that is cut fills all the room there is. -/
theorem length_build {name extension : String} (hroom : extension.length + 9 ≤ maxLength)
    (source : String) :
    (build name source extension).length =
      min ((sanitizeChars maxLength name.toList).length + extension.length) maxLength := by
  by_cases h : Fits name extension
  · rw [build_of_fits h, String.length_append, String.length_ofList]
    exact (min_eq_left h).symm
  · have hcut : 0 ≤ (maxLength : Int) - extension.length - 8 - 1 := by omega
    rw [build_of_not_fits h, String.length_append, String.length_ofList, List.length_append,
      List.length_cons, length_tag, length_cut hcut]
    unfold Fits at h
    omega

/-! ## Names of results -/

theorem resultName_some (source n : String) : resultName source (some n) =
    if n.isEmpty then (Path.ofString source).stem else n := rfl

/-- A result goes by its name whether that is given once more or not. -/
theorem resultName_resultName (source : String) (name : Option String) :
    resultName source (some (resultName source name)) = resultName source name := by
  have hstem : resultName source (some (Path.ofString source).stem) =
      (Path.ofString source).stem := by
    rw [resultName_some]
    exact ite_self _
  cases name with
  | none => exact hstem
  | some n =>
      rw [resultName_some source n]
      split
      · exact hstem
      · rename_i hn
        rw [resultName_some, if_neg hn]

end FileName

/-! ## Names as parts of paths -/

namespace Path

theorem splitSlashes_of_not_mem {cs : List Char} (h : '/' ∉ cs) : splitSlashes cs = [cs] := by
  induction cs with
  | nil => rfl
  | cons c cs ih =>
      have hc : c ≠ '/' := fun hc => h (hc ▸ List.mem_cons_self)
      rw [splitSlashes, ih fun hcs => h (List.mem_cons_of_mem c hcs)]
      exact hc

theorem anchorOf_of_not_mem {cs : List Char} (h : '/' ∉ cs) : anchorOf cs = .relative := by
  unfold anchorOf
  split <;> simp_all

/-- A text with no slash in it is a path of one part. -/
theorem ofString_part {s : String} (hslash : '/' ∉ s.toList) (hpart : isPart s.toList = true) :
    ofString s = ⟨.relative, [s]⟩ := by
  rw [ofString, anchorOf_of_not_mem hslash, splitSlashes_of_not_mem hslash]
  simp [hpart]

/-- The extension of a name is behind its last dot. -/
theorem stemLength?_append {stem ext : List Char} (hstem : stem ≠ []) (hext : ext ≠ [])
    (hdot : '.' ∉ ext) : stemLength? (stem ++ '.' :: ext) = some stem.length := by
  have hafter : (stem ++ '.' :: ext).reverse.takeWhile (· != '.') = ext.reverse := by
    have hne : ∀ c ∈ ext.reverse, (c != '.') = true := by
      intro c hc
      have hc' : c ∈ ext := List.mem_reverse.mp hc
      simp only [bne_iff_ne]
      rintro rfl
      exact hdot hc'
    simp only [List.reverse_append, List.reverse_cons, List.append_assoc]
    rw [List.takeWhile_append_of_pos hne]
    simp
  have hstem' : 0 < stem.length := List.length_pos_iff.mpr hstem
  have hext' : 0 < ext.length := List.length_pos_iff.mpr hext
  unfold stemLength?
  dsimp only
  rw [hafter]
  simp only [List.length_append, List.length_cons, List.length_reverse]
  rw [if_neg]
  · congr 1
    omega
  · simp only [Bool.or_eq_true, decide_eq_true_eq]
    omega

end Path

/-! ## Places of result files -/

namespace FileName

variable {extension name name' source source' : String} {letters : List Char}

/-- A result file is directly in its directory. -/
theorem outputPath_child (hext : extension ≠ "") (hsafe : ∀ c ∈ extension.toList, isSafe c = true)
    (dir : Path) (name source : String) : outputPath dir name source extension =
      ⟨dir.anchor, dir.parts ++ [build name source extension]⟩ := by
  obtain ⟨stem, hne, hstem, hbuild⟩ := exists_stem name source extension
  have hchars : (build name source extension).toList = stem ++ extension.toList := by
    rw [hbuild, String.toList_append, String.toList_ofList]
  have hslash : '/' ∉ (build name source extension).toList := by
    intro hmem
    rw [hchars, List.mem_append] at hmem
    have hslash : isSafe '/' = true := hmem.elim (hstem '/') (hsafe '/')
    revert hslash
    decide
  have hpart : Path.isPart (build name source extension).toList = true := by
    have hlength : 2 ≤ (stem ++ extension.toList).length := by
      have hstem := List.length_pos_iff.mpr hne
      have hrest := List.length_pos_iff.mpr (mt String.toList_eq_nil_iff.mp hext)
      rw [List.length_append]
      omega
    rw [hchars, Path.isPart, Bool.and_eq_true, bne_iff_ne, bne_iff_ne]
    constructor
    · intro h
      rw [h] at hlength
      exact absurd hlength (by decide)
    · intro h
      rw [h] at hlength
      exact absurd hlength (by decide)
  rw [outputPath, Path.ofString_part hslash hpart]
  rfl

/-- Names that do not fit are told apart by the tags of their sources. -/
theorem build_ne_of_tag_ne (h : ¬ Fits name extension) (h' : ¬ Fits name' extension)
    (htag : tag source ≠ tag source') :
    build name source extension ≠ build name' source' extension := by
  intro heq
  rw [build_of_not_fits h, build_of_not_fits h', ← String.toList_inj, String.toList_append,
    String.toList_append] at heq
  have hstems := List.append_cancel_right heq
  rw [String.toList_ofList, String.toList_ofList] at hstems
  have hlength : ('_' :: (tag source).toList).length = ('_' :: (tag source').toList).length := by
    rw [List.length_cons, List.length_cons, length_tag, length_tag]
  obtain ⟨_, htags⟩ := List.append_inj' hstems hlength
  exact htag (String.toList_inj.mp (List.cons_injective htags))

/-- A result file with a plain extension is directly in its directory, whatever its name and source
are, under a name of safe characters that is no dots alone and not too long.  Where the names leave
no room for the extension, files of sources with different tags have different names. -/
theorem outputPath_confined (hne : letters ≠ []) (hlength : letters.length ≤ 110)
    (hletters : ∀ c ∈ letters, Text.isAsciiAlphanumeric c = true) (dir : Path)
    (name source : String) :
    let extension := String.ofList ('.' :: letters)
    (∃ file, outputPath dir name source extension = ⟨dir.anchor, dir.parts ++ [file]⟩ ∧
        file ≠ "." ∧ file ≠ ".." ∧ (∀ c ∈ file.toList, isSafe c = true) ∧
        file.length ≤ maxLength) ∧
      ∀ (dir' : Path) (name' source' : String), ¬ Fits name extension → ¬ Fits name' extension →
        tag source ≠ tag source' →
        (outputPath dir name source extension).name ≠
          (outputPath dir' name' source' extension).name := by
  intro extension
  have hchars : extension.toList = '.' :: letters := String.toList_ofList
  have hext : extension ≠ "" := by
    intro h
    rw [h] at hchars
    cases hchars
  have hsafe : ∀ c ∈ extension.toList, isSafe c = true := by
    intro c hc
    rw [hchars] at hc
    rcases List.mem_cons.mp hc with rfl | hc
    · rfl
    · rw [isSafe, hletters c hc]
      rfl
  have hroom : extension.length + 9 ≤ maxLength := by
    rw [← String.length_toList, hchars, List.length_cons, maxLength]
    omega
  refine ⟨⟨_, outputPath_child hext hsafe dir name source, ?_⟩, ?_⟩
  · obtain ⟨stem, _, hstem, hbuild⟩ := exists_stem name source extension
    have hfile : (build name source extension).toList = stem ++ '.' :: letters := by
      rw [hbuild, String.toList_append, String.toList_ofList, hchars]
    -- a letter at the end sets the name apart from dots
    have hlast : (build name source extension).toList.getLast? ≠ some '.' := by
      rw [hfile, List.getLast?_append_of_ne_nil _ (List.cons_ne_nil _ _),
        List.getLast?_cons_of_ne_nil hne]
      intro h
      have hdot := hletters '.' (List.mem_of_getLast? h)
      revert hdot
      decide
    refine ⟨?_, ?_, ?_, ?_⟩
    · intro h
      rw [h] at hlast
      exact hlast rfl
    · intro h
      rw [h] at hlast
      exact hlast rfl
    · intro c hc
      rw [hbuild, String.toList_append, String.toList_ofList, List.mem_append] at hc
      exact hc.elim (hstem c) (hsafe c)
    · rw [length_build hroom]
      exact min_le_right _ _
  · intro dir' name' source' h h' htag
    rw [outputPath_child hext hsafe, outputPath_child hext hsafe]
    simpa [Path.name] using build_ne_of_tag_ne h h' htag

/-- A name that climbs out of its directory and has no room for an extension. -/
def climbing : String := String.ofList (['.', '.', '/', 'é'] ++ List.replicate 120 'x')

theorem outputPath_confined_climbing :
    "json".toList ≠ [] ∧ "json".toList.length ≤ 110 ∧
      (∀ c ∈ "json".toList, Text.isAsciiAlphanumeric c = true) ∧
      ¬ Fits climbing ".json" ∧ tag "a.html" ≠ tag "b.html" ∧
      (∃ file, outputPath (Path.ofString "out") climbing "a.html" ".json" =
          ⟨.relative, ["out", file]⟩ ∧ file ≠ ".." ∧ '/' ∉ file.toList ∧ file.length ≤ maxLength) ∧
      (outputPath (Path.ofString "out") climbing "a.html" ".json").name ≠
        (outputPath (Path.ofString "out") climbing "b.html" ".json").name := by
  have hall : "json".toList.all Text.isAsciiAlphanumeric = true := rfl
  have hletters := List.all_eq_true.mp hall
  have hfits : ¬ Fits climbing ".json" := by
    unfold Fits
    decide +kernel
  have htags : tag "a.html" ≠ tag "b.html" := by decide +kernel
  have hext : String.ofList ('.' :: "json".toList) = ".json" := rfl
  have hconfined :=
    outputPath_confined (by decide) (by decide) hletters (Path.ofString "out") climbing "a.html"
  simp only [hext] at hconfined
  obtain ⟨⟨file, hpath, _, hdots, hsafe, hlength⟩, hapart⟩ := hconfined
  refine ⟨by decide, by decide, hletters, hfits, htags, ⟨file, hpath, hdots, ?_, hlength⟩, ?_⟩
  · intro h
    have hslash := hsafe '/' h
    revert hslash
    decide
  · exact hapart (Path.ofString "out") climbing "b.html" hfits hfits htags

end FileName

end Harvest
