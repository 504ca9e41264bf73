import ClassCompiler.Proofs.Compilation

/-! Descriptors tell their types apart. The types of a method are written one behind the other
without separators, but no type is written like the beginning of another, and none begins with the
closing bracket. So the text of a descriptor has one reading only, and it is missing exactly when a
type is that of the object itself. -/
namespace ClassCompiler

theorem bindError {ε α β : Type} {x : Except ε α} {f : α → Except ε β} {fault : ε}
    (failed : (x >>= f) = .error fault) :
    x = .error fault ∨ ∃ value, x = .ok value ∧ f value = .error fault := by
  cases x with
  | error e =>
    have same : e = fault := by simpa [bind, Except.bind] using failed
    exact .inl (congrArg _ same)
  | ok value => exact .inr ⟨value, rfl, failed⟩

namespace DataType

def undescribed : Fault := .noInstruction .self "descriptor"

theorem descriptorFault {type : DataType} {fault : Fault} (failed : type.descriptor = .error fault) :
    type = .self ∧ fault = undescribed := by
  cases type <;> cases failed
  exact ⟨rfl, rfl⟩

theorem descriptorsFault {types : List DataType} {fault : Fault}
    (failed : descriptors types = .error fault) : .self ∈ types ∧ fault = undescribed := by
  induction types with
  | nil => cases failed
  | cons type rest ih =>
    rcases bindError failed with here | ⟨first, _, failed⟩
    · obtain ⟨rfl, known⟩ := descriptorFault here
      exact ⟨List.mem_cons_self .., known⟩
    · rcases bindError failed with later | ⟨others, _, failed⟩
      · obtain ⟨member, known⟩ := ih later
        exact ⟨List.mem_cons_of_mem _ member, known⟩
      · cases failed

theorem descriptorFront {a b : DataType} {c d : String} {x y : List Char}
    (here : a.descriptor = .ok c) (there : b.descriptor = .ok d)
    (same : c.toList ++ x = d.toList ++ y) : a = b ∧ x = y := by
  cases a <;> cases here <;> cases b <;> cases there <;> simp_all

theorem descriptorOpens {a : DataType} {c : String} (here : a.descriptor = .ok c) (x y : List Char) :
    c.toList ++ x ≠ ')' :: y := by
  cases a <;> cases here <;> simp

theorem descriptorsParts {type : DataType} {rest : List DataType} {d : String}
    (made : descriptors (type :: rest) = .ok d) :
    ∃ first others, type.descriptor = .ok first ∧ descriptors rest = .ok others ∧
      d.toList = first.toList ++ others.toList := by
  obtain ⟨first, here, made⟩ := bindOk.mp made
  obtain ⟨others, behind, made⟩ := bindOk.mp made
  cases made
  exact ⟨first, others, here, behind, String.toList_append⟩

/-- The bracket ends the parameters, since no descriptor begins with it. -/
theorem descriptorsFront {types others : List DataType} {c d : String} {x y : List Char}
    (here : descriptors types = .ok c) (there : descriptors others = .ok d)
    (same : c.toList ++ ')' :: x = d.toList ++ ')' :: y) : types = others ∧ x = y := by
  induction types generalizing others c d with
  | nil =>
    cases here
    cases others with
    | nil =>
      cases there
      exact ⟨rfl, by simpa using same⟩
    | cons other rest =>
      obtain ⟨first, behind, made, _, text⟩ := descriptorsParts there
      rw [text, List.append_assoc] at same
      exact absurd same.symm (descriptorOpens made _ x)
  | cons type rest ih =>
    obtain ⟨first, behind, made, madeBehind, text⟩ := descriptorsParts here
    rw [text, List.append_assoc] at same
    cases others with
    | nil =>
      cases there
      exact absurd same (descriptorOpens made _ y)
    | cons other others =>
      obtain ⟨first', behind', made', madeBehind', text'⟩ := descriptorsParts there
      rw [text', List.append_assoc] at same
      obtain ⟨rfl, tails⟩ := descriptorFront made made' same
      obtain ⟨rfl, ends⟩ := ih madeBehind madeBehind' tails
      exact ⟨rfl, ends⟩

end DataType

theorem methodDescriptorParts {params : List DataType} {returns : DataType} {d : String}
    (made : methodDescriptor params returns = .ok d) :
    ∃ inside result, DataType.descriptors params = .ok inside ∧ returns.descriptor = .ok result ∧
      d.toList = '(' :: (inside.toList ++ ')' :: result.toList) := by
  obtain ⟨inside, described, made⟩ := bindOk.mp made
  obtain ⟨result, returned, made⟩ := bindOk.mp made
  cases made
  exact ⟨inside, result, described, returned, by simp⟩

theorem methodDescriptorInjective {params others : List DataType} {returns result : DataType}
    {d : String} (here : methodDescriptor params returns = .ok d)
    (there : methodDescriptor others result = .ok d) : params = others ∧ returns = result := by
  obtain ⟨inside, last, described, returned, text⟩ := methodDescriptorParts here
  obtain ⟨inside', last', described', returned', text'⟩ := methodDescriptorParts there
  have same := (List.cons.inj (text.symm.trans text')).2
  obtain ⟨sameParams, ends⟩ := DataType.descriptorsFront described described' same
  have sameResult := DataType.descriptorFront returned returned' (congrArg (· ++ []) ends)
  exact ⟨sameParams, sameResult.1⟩

theorem methodDescriptorFault {params : List DataType} {returns : DataType} {fault : Fault}
    (failed : methodDescriptor params returns = .error fault) :
    (.self ∈ params ∨ returns = .self) ∧ fault = DataType.undescribed := by
  rcases bindError failed with inside | ⟨_, _, failed⟩
  · obtain ⟨member, known⟩ := DataType.descriptorsFault inside
    exact ⟨.inl member, known⟩
  · rcases bindError failed with last | ⟨_, _, failed⟩
    · obtain ⟨object, known⟩ := DataType.descriptorFault last
      exact ⟨.inr object, known⟩
    · cases failed

theorem methodDescriptorFails {params : List DataType} {returns : DataType}
    (object : .self ∈ params ∨ returns = .self) :
    ∃ fault, methodDescriptor params returns = .error fault := by
  cases made : methodDescriptor params returns with
  | error fault => exact ⟨fault, rfl⟩
  | ok d =>
    obtain ⟨named, result⟩ := methodDescriptorNamed made
    exact object.elim (fun member => absurd rfl (named _ member)) fun same => absurd same result

/-- The types of a method can be read off its descriptor, and it has one unless the type of the
object occurs among them. -/
theorem methodDescriptorUnambiguous (params others : List DataType) (returns result : DataType) :
    (∀ d, methodDescriptor params returns = .ok d → methodDescriptor others result = .ok d →
      params = others ∧ returns = result) ∧
    ((∃ fault, methodDescriptor params returns = .error fault) ↔
      .self ∈ params ∨ returns = .self) ∧
    ∀ fault, methodDescriptor params returns = .error fault → fault = DataType.undescribed := by
  refine ⟨fun d => methodDescriptorInjective, ⟨?_, methodDescriptorFails⟩, fun fault failed => ?_⟩
  · rintro ⟨fault, failed⟩
    exact (methodDescriptorFault failed).1
  · exact (methodDescriptorFault failed).2

theorem mixedDescriptorRead :
    methodDescriptor [.int, .string, .bool] .float = .ok "(ILjava/lang/String;Z)F" ∧
    (∀ others result, methodDescriptor others result = .ok "(ILjava/lang/String;Z)F" →
      [.int, .string, .bool] = others ∧ .float = result) ∧
    ∃ fault, methodDescriptor [.int, .self] .float = .error fault := by
  refine ⟨rfl, fun others result => ?_, ?_⟩
  · exact (methodDescriptorUnambiguous [.int, .string, .bool] others .float result).1 _ rfl
  · exact (methodDescriptorUnambiguous [.int, .self] [] .float .void).2.1.mpr (.inl (by decide))

end ClassCompiler
