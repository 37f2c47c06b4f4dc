import Harvest.Proofs.XPath.Moved

/-!
# Values behind a gap

Whatever is computed from values of selectors is the same in an outline that has further trees in a
gap.
-/

namespace Harvest.XPath

open Markup (Outline Gap)

namespace Value

/-- The value in an outline with a gap. -/
def move (g : Gap) : Value → Value
  | nodes ns => nodes (ns.map (·.move g))
  | v => v

/-- The nodes of a value belong to entries that are there. -/
def Within (size : Nat) : Value → Prop
  | nodes ns => ∀ n ∈ ns, n.Within size
  | _ => True

variable {g : Gap}

@[simp] theorem move_nodes (ns : List Node) : (nodes ns).move g = nodes (ns.map (·.move g)) := rfl

@[simp] theorem move_boolean (b : Bool) : (boolean b).move g = boolean b := rfl

@[simp] theorem move_number (x : Binary64) : (number x).move g = number x := rfl

@[simp] theorem move_text (s : String) : (text s).move g = text s := rfl

theorem move_eq_nodes_iff {v : Value} {ms : List Node} :
    v.move g = nodes ms ↔ ∃ ns, v = nodes ns ∧ ns.map (·.move g) = ms := by
  cases v <;> simp

theorem Within.mono {size size' : Nat} {v : Value} (h : v.Within size) (hle : size ≤ size') :
    v.Within size' := by
  cases v with
  | nodes ns => exact fun n hn => (h n hn).mono hle
  | _ => trivial

@[simp] theorem truth_move (v : Value) : (v.move g).truth = v.truth := by
  cases v with
  | nodes ns => simp [move, truth]
  | _ => rfl

theorem chooses_move (position : Nat) (v : Value) :
    chooses position (v.move g) = chooses position v := by
  cases v with
  | nodes ns => exact truth_move (nodes ns)
  | _ => rfl

section
variable {o o' : Outline} (h : o.Beside g o')

include h

theorem string_move (v : Value) : (v.move g).string o' = v.string o := by
  cases v with
  | nodes ns =>
      cases ns with
      | nil => rfl
      | cons n ns => exact Node.string_move h n
  | _ => rfl

theorem toNumber_move (v : Value) : (v.move g).toNumber o' = v.toNumber o := by
  cases v with
  | nodes ns => exact congrArg numberOfText (string_move h (nodes ns))
  | _ => rfl

/-- What holds of some node by its text. -/
theorem any_move (ns : List Node) (p : String → Bool) :
    (ns.map (·.move g)).any (fun n => p (n.string o')) = ns.any fun n => p (n.string o) := by
  rw [List.any_map]
  congr 1
  funext n
  rw [Function.comp, Node.string_move h]

theorem someSame_move (ns : List Node) (equal : Bool) (v : Value) :
    someSame o' (ns.map (·.move g)) equal (v.move g) = someSame o ns equal v := by
  cases v with
  | nodes ms =>
      rw [move, someSame, someSame, any_move h ns fun s =>
        (ms.map (·.move g)).any fun m => (s == m.string o') == equal]
      congr 1
      funext n
      exact any_move h ms fun s => (n.string o == s) == equal
  | boolean b => simp [move, someSame]
  | number x => exact any_move h ns fun s => (numberOfText s).eq x == equal
  | text s => exact any_move h ns fun t => (t == s) == equal

theorem same_move (equal : Bool) (v w : Value) :
    same o' equal (v.move g) (w.move g) = same o equal v w := by
  cases v with
  | nodes ns => exact someSame_move h ns equal w
  | boolean b =>
      cases w with
      | nodes ms => exact someSame_move h ms equal (boolean b)
      | _ => rfl
  | number x =>
      cases w with
      | nodes ms => exact someSame_move h ms equal (number x)
      | _ => rfl
  | text s =>
      cases w with
      | nodes ms => exact someSame_move h ms equal (text s)
      | _ => rfl

theorem compare_move (op : Operator) (v w : Value) :
    compare o' op (v.move g) (w.move g) = compare o op v w := by
  cases v with
  | nodes ns =>
      cases w with
      | nodes ms =>
          rw [move, move, compare, compare, any_move h ns fun s => (ms.map (·.move g)).any fun m =>
            ordered op (numberOfText s) (numberOfText (m.string o'))]
          congr 1
          funext n
          exact any_move h ms fun s => ordered op (numberOfText (n.string o)) (numberOfText s)
      | boolean b =>
          have htruth := truth_move (g := g) (nodes ns)
          rw [move] at htruth
          simp only [move, compare, htruth]
          rfl
      | _ => exact any_move h ns fun s => ordered op (numberOfText s) _
  | boolean b =>
      cases w with
      | nodes ms =>
          have htruth := truth_move (g := g) (nodes ms)
          rw [move] at htruth
          simp only [move, compare, htruth]
          rfl
      | _ => rfl
  | _ =>
      cases w with
      | nodes ms => exact any_move h ms fun s => ordered op _ (numberOfText s)
      | _ => rfl

end

end Value

/-- The focus in an outline with a gap. -/
def Focus.move (g : Gap) (f : Focus) : Focus := ⟨f.node.move g, f.among⟩

section
variable {g : Gap}

/-- A function of the first of the nodes that are asked for. -/
theorem named_move {f f' : Node → String} (hf : ∀ n, f' (n.move g) = f n) (focus : Focus)
    (args : List Value) :
    ((nodesOrFocus (focus.move g) (args.map (·.move g))).map fun ns =>
        Value.text ((ns.head?.map f').getD "")) =
      ((nodesOrFocus focus args).map fun ns => Value.text ((ns.head?.map f).getD "")).map
        (·.move g) := by
  have hnodes : nodesOrFocus (focus.move g) (args.map (·.move g)) =
      (nodesOrFocus focus args).map fun ns => ns.map (·.move g) := by
    rcases args with _ | ⟨v, _ | ⟨w, vs⟩⟩
    · rfl
    · cases v <;> rfl
    · cases v <;> rfl
  rw [hnodes, Option.map_map, Option.map_map]
  congr 1
  funext ns
  cases ns with
  | nil => rfl
  | cons n ns => simp [hf]

/-- A function of the value that is asked for. -/
theorem valued_move {f f' : Value → Value} (hf : ∀ v, f' (v.move g) = (f v).move g) (focus : Focus)
    (args : List Value) :
    (valueOrFocus (focus.move g) (args.map (·.move g))).map f' =
      ((valueOrFocus focus args).map f).map (·.move g) := by
  have hvalue : valueOrFocus (focus.move g) (args.map (·.move g)) =
      (valueOrFocus focus args).map (·.move g) := by
    rcases args with _ | ⟨v, _ | ⟨w, vs⟩⟩ <;> rfl
  rw [hvalue, Option.map_map, Option.map_map]
  congr 1
  funext v
  exact hf v

variable {o o' : Outline} (h : o.Beside g o')

include h

theorem operate_move (op : Operator) (v w : Value) :
    operate o' op (v.move g) (w.move g) = operate o op v w := by
  rw [operate, operate, Value.same_move h, Value.same_move h, Value.compare_move h,
    Value.toNumber_move h, Value.toNumber_move h]

/-! ## Functions -/

theorem languageOf?_move (n : Node) : languageOf? o' (n.move g) = languageOf? o n := by
  rw [languageOf?, languageOf?, Node.owner?_move]
  cases n.owner? with
  | none => rfl
  | some i =>
      dsimp only [Option.map_some]
      rw [h.ancestors_place, ← List.map_cons, List.findSome?_map]
      congr 1
      funext j
      rw [Function.comp, Node.attributesOf_place h]

theorem hasIdentifier_place (html : Bool) (identifier : String) (i : Nat) :
    hasIdentifier o' html identifier (g.place i) = hasIdentifier o html identifier i := by
  have hlocal := Node.localName_move h (.entry i)
  rw [Node.move] at hlocal
  rw [hasIdentifier, hasIdentifier, Node.attributesOf_place h, hlocal]

theorem identifiedBy_move (html : Bool) (v : Value) :
    identifiedBy o' html (v.move g) = (identifiedBy o html v).map (·.move g) := by
  have hidentified : ∀ identifier, identified? o' html identifier =
      (identified? o html identifier).map (·.move g) := by
    intro identifier
    have hfits : hasIdentifier o' html identifier ∘ g.place = hasIdentifier o html identifier := by
      funext i
      exact hasIdentifier_place h html identifier i
    rw [identified?, identified?, h.range_main, List.find?_map, hfits, Option.map_map,
      Option.map_map]
    rfl
  cases v with
  | nodes ns =>
      simp only [Value.move_nodes, identifiedBy, ← Node.inOrder_move,
        List.map_filterMap, hidentified, List.map_map, Function.comp_def, Node.string_move h]
  | _ =>
      simp only [Value.move, identifiedBy, ← Node.inOrder_move, List.map_filterMap, hidentified,
        Value.string]

theorem callFunction_move (html : Bool) (focus : Focus) (name : String) (args : List Value) :
    callFunction o' html (focus.move g) name (args.map (·.move g)) =
      (callFunction o html focus name args).map (·.move g) := by
  have hstring := Value.string_move h
  have hnumber := Value.toNumber_move h
  rw [callFunction.eq_def o html focus name args]
  split
  case h_29 =>
    -- what fits no function does not fit one in the outline with the gap either
    rw [callFunction.eq_def]
    split
    case h_29 => rfl
    all_goals simp_all [List.map_eq_cons_iff, Value.move_eq_nodes_iff]
  case h_3 v w vs =>
    have hstrings : (fun v => v.string o') ∘ (·.move g) = fun v : Value => v.string o :=
      funext hstring
    change some (Value.text (String.join (((v :: w :: vs).map (·.move g)).map (·.string o')))) = _
    rw [List.map_map, hstrings]
    rfl
  case h_8 => simp [callFunction, identifiedBy_move h]
  case h_9 => simp [callFunction, hstring, Focus.move, languageOf?_move h]
  case h_10 => cases hamong : focus.among <;> simp [callFunction, Focus.move, hamong]
  case h_17 => cases hamong : focus.among <;> simp [callFunction, Focus.move, hamong]
  case h_11 => exact named_move (Node.localName_move h) focus args
  case h_12 => exact named_move (Node.writtenName_move h) focus args
  case h_13 => exact named_move (Node.nameSpace_move h) focus args
  case h_14 => exact valued_move (fun v => by rw [hstring, Value.move_text]) focus args
  case h_16 => exact valued_move (fun v => by rw [hnumber, Value.move_number]) focus args
  case h_20 => exact valued_move (fun v => by rw [hstring, Value.move_text]) focus args
  case h_21 => exact valued_move (fun v => by rw [hstring, Value.move_number]) focus args
  case h_26 => simp [callFunction, List.foldl_map, Node.string_move h]
  all_goals simp [callFunction, hstring, hnumber]

theorem patternText_move (v : Value) : patternText o' (v.move g) = patternText o v := by
  cases v with
  | nodes ns =>
      have hfilter : (ns.map (·.move g)).filter (· != .document) =
          (ns.filter (· != .document)).map (·.move g) := by
        rw [List.filter_map]
        congr 2
        funext n
        cases n <;> rfl
      rw [Value.move_nodes, patternText, patternText, hfilter]
      cases ns.filter (· != .document) with
      | nil => rfl
      | cons n ns => exact Node.string_move h n
  | _ => rfl

end

/-- The nodes that a function gives are there. -/
theorem within_of_callFunction {o : Outline} {html : Bool} {focus : Focus} {name : String}
    {args : List Value} {v : Value} (hv : callFunction o html focus name args = some v) :
    v.Within o.entries.size := by
  unfold callFunction at hv
  split at hv
  case h_8 =>
    -- the elements of identifiers are the only nodes that a function gives
    obtain rfl := Option.some.inj hv
    intro n hn
    unfold identifiedBy at hn
    rw [Node.mem_inOrder, List.mem_filterMap] at hn
    obtain ⟨w, _, hw⟩ := hn
    obtain ⟨i, hi, rfl⟩ := Option.map_eq_some_iff.mp hw
    have hfits : hasIdentifier o html (String.ofList w) i = true := List.find?_some hi
    obtain ⟨a, ha, _⟩ := List.any_eq_true.mp hfits
    intro j hj
    obtain rfl : i = j := Option.some.inj hj
    exact Node.lt_size_of_mem_attributesOf ha
  case h_29 => cases hv
  all_goals
    first
    | (simp only [Option.some.injEq] at hv; subst hv; trivial)
    | (simp only [Option.map_eq_some_iff] at hv; obtain ⟨_, _, rfl⟩ := hv; trivial)

end Harvest.XPath
