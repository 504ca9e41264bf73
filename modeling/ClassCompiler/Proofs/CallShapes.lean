import ClassCompiler.Proofs.KindWalk

/-! Descriptors read back: the text of a call target names the kinds of the types that the
descriptor was made of, whatever stands in front of it. -/
namespace ClassCompiler
namespace CallShape

theorem behindBracketAppend (front : List Char) {rest : List Char} (none : '(' ∉ rest) :
    behindBracket (front ++ '(' :: rest) = rest := by
  have passed : ∀ c ∈ rest.reverse, decide (c ≠ '(') = true := by
    intro c member
    have other : c ≠ '(' := fun same => none (same ▸ List.mem_reverse.mp member)
    simpa using other
  rw [behindBracket, List.reverse_append, List.reverse_cons, List.append_assoc,
    List.takeWhile_append_of_pos passed]
  simp

theorem readParam {type : DataType} {kind : ValueKind} {d : String} (value : type.isValue = true)
    (known : ValueKind.of? type = some kind) (made : type.descriptor = .ok d) (rest : List Char) :
    readParams false (d.toList ++ rest) =
      (readParams false rest).map fun r => (kind :: r.1, r.2) := by
  cases type with
  | void | self => simp [DataType.isValue] at value
  | _ =>
    cases made
    cases known
    rfl

theorem readDescriptors {types : List DataType} (values : ∀ type ∈ types, type.isValue = true) :
    ∃ d, DataType.descriptors types = .ok d ∧ '(' ∉ d.toList ∧
      ∀ rest, readParams false (d.toList ++ ')' :: rest) =
        some (types.filterMap ValueKind.of?, rest) := by
  induction types with
  | nil => exact ⟨"", rfl, by simp, fun rest => rfl⟩
  | cons type types ih =>
    obtain ⟨others, madeOthers, clear, reads⟩ :=
      ih fun other member => values other (List.mem_cons_of_mem _ member)
    have value := values type (List.mem_cons_self ..)
    obtain ⟨solid, named⟩ := DataType.isValueIff.mp value
    obtain ⟨first, made⟩ := DataType.descriptorOkIff.mpr named
    obtain ⟨kind, known⟩ : ∃ kind, ValueKind.of? type = some kind :=
      Option.ne_none_iff_exists'.mp fun none => solid (ValueKind.ofNoneIff.mp none)
    refine ⟨first ++ others, by simp [DataType.descriptors, made, madeOthers, bind, Except.bind, pure,
      Except.pure], ?_, fun rest => ?_⟩
    · have clearFirst : '(' ∉ first.toList := by
        cases type <;> cases made <;> decide
      simp [clear, clearFirst]
    · rw [String.toList_append, List.append_assoc, readParam value known made, reads]
      simp [known]

theorem readReturn {type : DataType} (named : type ≠ .self) :
    ∃ d, type.descriptor = .ok d ∧ '(' ∉ d.toList ∧ readResult d.toList = some (ValueKind.of? type) := by
  cases type with
  | self => contradiction
  | _ => exact ⟨_, rfl, by decide, rfl⟩

theorem readMethod {params : List DataType} {returns : DataType}
    (values : ∀ type ∈ params, type.isValue = true) (named : returns ≠ .self) :
    ∃ d, methodDescriptor params returns = .ok d ∧ ∀ front : String,
      read? (front ++ d) = some ⟨params.filterMap ValueKind.of?, ValueKind.of? returns⟩ := by
  obtain ⟨inside, madeInside, clearInside, reads⟩ := readDescriptors values
  obtain ⟨result, madeResult, clearResult, last⟩ := readReturn named
  refine ⟨"(" ++ inside ++ ")" ++ result, by simp [methodDescriptor, madeInside, madeResult, bind,
    Except.bind, pure, Except.pure], fun front => ?_⟩
  have text : (front ++ ("(" ++ inside ++ ")" ++ result)).toList =
      front.toList ++ '(' :: (inside.toList ++ ')' :: result.toList) := by
    simp [String.toList_append]
  have clear : '(' ∉ inside.toList ++ ')' :: result.toList := by
    simp [clearInside, clearResult]
  rw [read?, text, behindBracketAppend _ clear, reads]
  simp [last]

end CallShape

theorem Instruction.callRead {target : String} {shape : CallShape} {args : Nat} {gives : Bool}
    (known : CallShape.read? target = some shape) (count : shape.params.length = args)
    (result : shape.result.isSome = gives) (stack : List ValueKind) :
    Instruction.callKinds target args gives (shape.params.reverse ++ .reference :: stack) =
      some (shape.result.toList ++ stack) := by
  have taken := takeKindsAppend (shape.params.reverse ++ [.reference]) [] stack
  simp only [List.append_nil, List.append_assoc, List.singleton_append] at taken
  simp [Instruction.callKinds, known, count, result, taken, takeKinds]

theorem ValueKind.filterLength {types : List DataType}
    (values : ∀ type ∈ types, type.isValue = true) :
    (types.filterMap ValueKind.of?).length = types.length := by
  induction types with
  | nil => rfl
  | cons type types ih =>
    have value := values type (List.mem_cons_self ..)
    have rest := ih fun other member => values other (List.mem_cons_of_mem _ member)
    cases type <;> simp_all [ValueKind.of?, DataType.isValue]

end ClassCompiler
