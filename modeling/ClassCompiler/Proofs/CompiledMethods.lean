import ClassCompiler.Proofs.CodeKinds
import ClassCompiler.Proofs.Fitting
import Mathlib.Data.List.Forall2

/-! The methods of a class. Each has the limit that its code needs, and its code takes the kinds that
stand on the stack. -/
namespace ClassCompiler

def CompiledMethod.Checked (gives : Option ValueKind) (c : CompiledMethod) : Prop :=
  ∃ w, KindWalk.walk gives {} c.code = some w ∧ w.deepest = c.maxStack

theorem CompiledMethod.Checked.safe {gives : Option ValueKind} {c : CompiledMethod}
    (checked : c.Checked gives) : KindSafe gives c.code := by
  obtain ⟨w, walked, _⟩ := checked
  exact Option.isSome_iff_exists.mpr ⟨w, walked⟩

theorem CompiledMethod.Checked.depth {gives : Option ValueKind} {c : CompiledMethod}
    (checked : c.Checked gives) : maxStackDepth c.code = .ok c.maxStack := by
  obtain ⟨w, walked, deepest⟩ := checked
  rw [KindWalk.deepestDepth walked, deepest]

theorem Runs.checked {gives : Option ValueKind} {c : CompiledMethod} {n n' : Nat}
    {after : List ValueKind} (runs : Runs gives c.code n n' [] after c.maxStack) : c.Checked gives := by
  obtain ⟨w, walked, gains⟩ := runs.walks {} rfl fun _ _ => rfl
  exact ⟨w, walked, gains.deepest.trans (Nat.max_eq_right (Nat.zero_le _))⟩

theorem initMethodChecked : initMethod.Checked none := ⟨_, rfl, rfl⟩

theorem CallShape.readPlain (front : String) : read? (front ++ "()V") = some ⟨[], none⟩ := by
  obtain ⟨d, made, reads⟩ := @readMethod [] .void (by simp) (by simp)
  cases made
  exact reads front

theorem mainMethodChecked (className : String) : (mainMethod className).Checked none := by
  have init : CallShape.read? s!"{className}.<init>()V" = some ⟨[], none⟩ := by
    rw [← CallShape.readPlain (className ++ ".<init>"), String.append_assoc]
    rfl
  have main : CallShape.read? s!"{className}.Main()V" = some ⟨[], none⟩ := by
    rw [← CallShape.readPlain (className ++ ".Main"), String.append_assoc]
    rfl
  have made : (Instruction.invokeSpecial s!"{className}.<init>()V" 0).kinds none
      [.reference, .reference] = some [.reference] := Instruction.callRead init rfl rfl _
  have called : (Instruction.invokeVirtual s!"{className}.Main()V" 0 false).kinds none
      [.reference] = some [] := Instruction.callRead main rfl rfl _
  have new : (Instruction.new className).kinds none [] = some [.reference] := rfl
  have copied : Instruction.dup.kinds none [.reference] = some [.reference, .reference] := rfl
  have stored : (Instruction.store .reference 1).kinds none [.reference] = some [] := rfl
  have loaded : (Instruction.load .reference 1).kinds none [] = some [.reference] := rfl
  exact Runs.checked (c := mainMethod className) ((Runs.plain 0 rfl new).append
    ((Runs.plain 0 rfl copied).append ((Runs.plain 0 rfl made).append ((Runs.plain 0 rfl
      stored).append ((Runs.plain 0 rfl loaded).append ((Runs.plain 0 rfl called).append
        (.ret 0)))))))

structure Method.Compiled (a : Analysis) (m : Method NodeId) (c : CompiledMethod) : Prop where
  name : c.name = m.name
  counted : ∃ id, a.scopeIds.get? m.tag = some id ∧ c.maxStack = (a.scopes.scope id).maxStack
  checked : c.Checked (ValueKind.of? m.returnType)

theorem Method.Fits.compiles {a : Analysis} {m : Method NodeId} (callable : a.Callable)
    (fits : m.Fits a) (values : ∀ param ∈ m.params, param.type.isValue = true)
    (named : m.returnType ≠ .self) (className : String) (n : Nat) :
    ∃ c n', m.compile a className n = .ok (c, n') ∧ m.Compiled a c := by
  obtain ⟨outer, inner, scope, bodyScope, all, limit⟩ := fits.fits
  have types : ∀ type ∈ m.paramTypes, type.isValue = true := by
    intro type member
    obtain ⟨param, given, rfl⟩ := List.mem_map.mp member
    exact values param given
  obtain ⟨descriptor, described, _⟩ := CallShape.readMethod types named
  obtain ⟨code, n', made, runs⟩ : Makes (ValueKind.of? m.returnType)
      (Stmt.codeAll a className m.body.stmts inner n) n [] [] (Stmt.needAll m.body.stmts) :=
    Stmt.codeAllMakes callable named m.body.stmts all n
  have whole : Runs (ValueKind.of? m.returnType)
      (code ++ if m.returnType = .void then [.ret none] else []) n n' [] []
      (a.scopes.scope outer).maxStack := by
    rw [limit]
    split
    · rename_i void
      rw [void] at runs ⊢
      exact (runs.append (.ret n')).resize (Nat.max_eq_left (Nat.zero_le _))
    · exact (runs.append (.nil n')).resize (Nat.max_eq_left (Nat.zero_le _))
  refine ⟨⟨.member, m.name, descriptor, (a.scopes.scope outer).maxStack, a.scopes.maxLocals outer,
    code ++ if m.returnType = .void then [.ret none] else []⟩, n', ?_, rfl, ⟨outer, scope, rfl⟩,
    Runs.checked whole⟩
  simp only [Method.compile, Analysis.scopeOfOk.mpr scope, described,
    Analysis.scopeOfOk.mpr bodyScope, made, okBind]
  rfl

theorem Method.compilesAll {a : Analysis} (callable : a.Callable) (className : String)
    {ms : List (Method NodeId)} (fits : ∀ m ∈ ms, m.Fits a)
    (values : ∀ m ∈ ms, ∀ param ∈ m.params, param.type.isValue = true)
    (named : ∀ m ∈ ms, m.returnType ≠ .self) (n : Nat) :
    ∃ cs n', Method.compileAll a className ms n = .ok (cs, n') ∧
      List.Forall₂ (Method.Compiled a) ms cs := by
  induction ms generalizing n with
  | nil => exact ⟨[], n, rfl, .nil⟩
  | cons m rest ih =>
    have here : m ∈ m :: rest := List.mem_cons_self ..
    have behind {other : Method NodeId} (member : other ∈ rest) : other ∈ m :: rest :=
      List.mem_cons_of_mem _ member
    obtain ⟨c, k, made, compiled⟩ :=
      (fits m here).compiles callable (values m here) (named m here) className n
    obtain ⟨cs, n', madeRest, compiledRest⟩ := ih (fun other member => fits other (behind member))
      (fun other member => values other (behind member))
      (fun other member => named other (behind member)) k
    refine ⟨c :: cs, n', ?_, .cons compiled compiledRest⟩
    simp only [Method.compileAll, made, madeRest, okBind]
    rfl

namespace Program

def Describable (p : Program NodeId) : Prop :=
  ∀ m ∈ p.methods, (∀ param ∈ m.params, param.type.isValue = true) ∧ m.returnType ≠ .self

theorem callable {p : Program NodeId} {a : Analysis} (describable : p.Describable)
    (methods : a.methods = p.annotated.methods) : a.Callable := by
  intro x use found
  rw [methods] at found
  obtain ⟨m, member, rfl⟩ := annotatedUses found
  refine ⟨(describable m member).2, fun type inside => ?_⟩
  obtain ⟨param, given, rfl⟩ := List.mem_map.mp inside
  exact (describable m member).1 param given

theorem generates {p : Program NodeId} {a : Analysis} (unique : p.tags.Nodup)
    (describable : p.Describable) (done : p.analyze = .ok a) (options : Options) :
    ∃ cs, a.generate options p = .ok ⟨options.className, options.version,
        initMethod :: mainMethod options.className :: cs⟩ ∧
      List.Forall₂ (Method.Compiled a) p.methods cs := by
  have values : ∀ m ∈ p.methods, ∀ param ∈ m.params, param.type.isValue = true :=
    fun m member => (describable m member).1
  obtain ⟨methods, fits⟩ := analyzeFits unique values done
  obtain ⟨cs, n, made, compiled⟩ := Method.compilesAll (callable describable methods)
    options.className fits values (fun m member => (describable m member).2) 0
  refine ⟨cs, ?_, compiled⟩
  simp only [Analysis.generate, made, okBind]
  rfl

end Program
end ClassCompiler
