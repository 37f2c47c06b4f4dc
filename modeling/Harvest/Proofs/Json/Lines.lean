import Harvest.Proofs.Json.Decoded

/-!
# Lines of JSON text

JSON text has no control characters but the line feeds of its layout: on one line there is none.
-/

namespace Harvest.Json

/-- Whether a character is no control character, or a line feed where the layout has lines. -/
def Printable (style : Style) (c : Char) : Prop :=
  0x20 ≤ c.toNat ∨ (c = '\n' ∧ style.indent ≠ none)

theorem printable_digitChar : ∀ d < 16, 0x20 ≤ d.digitChar.toNat := by decide

theorem printable_escapeUnit {n : Nat} (hn : n < 65536) : ∀ c ∈ escapeUnit n, 0x20 ≤ c.toNat := by
  rw [escapeUnit, hex_four hn]
  simp only [List.forall_mem_cons]
  refine ⟨by decide, by decide, ?_, ?_, ?_, ?_, by simp⟩ <;> exact printable_digitChar _ (by omega)

theorem printable_escaped {x : Char} {cs : List Char} (h : Escaped x cs) :
    ∀ c ∈ cs, 0x20 ≤ c.toNat := by
  cases h with
  | letter d hd h =>
      simp only [List.forall_mem_cons]
      refine ⟨by decide, ?_, by simp⟩
      unfold simpleEscape? at h
      split at h
      all_goals first | decide | cases h
  | unit h => exact printable_escapeUnit h
  | pair high low hhigh hlow h =>
      rw [List.forall_mem_append]
      exact ⟨printable_escapeUnit (by omega), printable_escapeUnit (by omega)⟩
  | itself hquote hslash h =>
      simp only [List.mem_singleton, forall_eq]
      omega

theorem printable_renderString (asciiOnly : Bool) (s : String) :
    ∀ c ∈ renderString asciiOnly s, 0x20 ≤ c.toNat := by
  simp only [renderString, List.cons_append, List.forall_mem_cons, List.forall_mem_append,
    List.mem_flatMap]
  refine ⟨by decide, ?_, by decide, by simp⟩
  rintro c ⟨x, _, hc⟩
  exact printable_escaped (escaped_escapeChar asciiOnly x) c hc

variable {style : Style}

theorem printable_marks {cs : List Char} (h : cs ⊆ marks) : ∀ c ∈ cs, Printable style c := by
  intro c hc
  have hall : ∀ c ∈ marks, 0x20 ≤ c.toNat := by simp [marks]
  exact .inl (hall c (h hc))

theorem printable_newline (level : Nat) : ∀ c ∈ style.newline level, Printable style c := by
  unfold Style.newline
  split
  · simp
  · rename_i width hindent
    simp only [List.forall_mem_cons]
    refine ⟨.inr ⟨rfl, by simp [hindent]⟩, fun c hc => ?_⟩
    rw [List.eq_of_mem_replicate hc]
    exact .inl (by decide)

theorem printable_separator (level : Nat) : ∀ c ∈ style.separator level, Printable style c := by
  unfold Style.separator
  split
  · exact printable_marks (by decide)
  · rw [List.forall_mem_cons]
    exact ⟨.inl (by decide), printable_newline level⟩

theorem printable_string (asciiOnly : Bool) (s : String) :
    ∀ c ∈ renderString asciiOnly s, Printable style c :=
  fun c hc => .inl (printable_renderString asciiOnly s c hc)

mutual

theorem printable_renderAt : ∀ (v : Json) (level : Nat), ∀ c ∈ renderAt style level v,
    Printable style c
  | .null, level => fun c hc => .inl (printable_scalarText? (v := .null) rfl c hc)
  | .bool true, level => fun c hc => .inl (printable_scalarText? (v := .bool true) rfl c hc)
  | .bool false, level => fun c hc => .inl (printable_scalarText? (v := .bool false) rfl c hc)
  | .int i, level => fun c hc => .inl (printable_scalarText? (v := .int i) rfl c hc)
  | .float x, level => fun c hc => .inl (printable_scalarText? (v := .float x) rfl c hc)
  | .str s, level => fun c hc => .inl (printable_renderString _ s c hc)
  | .list [], level => by
      rw [renderAt]
      exact printable_marks (by decide)
  | .list (x :: xs), level => by
      rw [← List.append_nil (renderAt _ _ _), renderAt_list_append]
      simp only [List.forall_mem_cons, List.forall_mem_append]
      exact ⟨.inl (by decide), printable_newline _, printable_renderAt x _,
        printable_renderItems xs _, printable_newline _, .inl (by decide), by simp⟩
  | .map [], level => by
      rw [renderAt]
      exact printable_marks (by decide)
  | .map ((k, v) :: ms), level => by
      rw [← List.append_nil (renderAt _ _ _), renderAt_map_append]
      simp only [List.forall_mem_cons, List.forall_mem_append]
      exact ⟨.inl (by decide), printable_newline _, printable_string _ k, .inl (by decide),
        .inl (by decide), printable_renderAt v _, printable_renderMembers ms _,
        printable_newline _, .inl (by decide), by simp⟩

theorem printable_renderItems : ∀ (xs : List Json) (level : Nat),
    ∀ c ∈ renderItems style level xs, Printable style c
  | [], level => by simp [renderItems]
  | x :: xs, level => by
      rw [renderItems, List.forall_mem_append, List.forall_mem_append]
      exact ⟨⟨printable_separator _, printable_renderAt x _⟩, printable_renderItems xs _⟩

theorem printable_renderMembers : ∀ (ms : List (String × Json)) (level : Nat),
    ∀ c ∈ renderMembers style level ms, Printable style c
  | [], level => by simp [renderMembers]
  | (k, v) :: ms, level => by
      rw [renderMembers]
      simp only [List.forall_mem_cons, List.forall_mem_append]
      exact ⟨⟨⟨⟨printable_separator _, printable_string _ k⟩, .inl (by decide), .inl (by decide),
        by simp⟩, printable_renderAt v _⟩, printable_renderMembers ms _⟩

end

/-- The text of a value has no carriage returns. -/
theorem return_notMem_render (style : Style) (v : Json) : '\r' ∉ (render style v).toList := by
  rw [render, String.toList_ofList]
  intro hmem
  obtain h | ⟨h, _⟩ := printable_renderAt v 0 _ hmem
  · exact absurd h (by decide)
  · exact absurd h (by decide)

end Harvest.Json
