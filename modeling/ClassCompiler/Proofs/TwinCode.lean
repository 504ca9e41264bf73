import ClassCompiler.Proofs.Emission
import ClassCompiler.Proofs.Fitting
import ClassCompiler.Proofs.TwinWalks

/-! The code of the same method at two places. Apart from the labels it is read off what the analyses say
about the method; the labels are numbered through the class, so those of the method are moved by what the
methods before it have used. -/
namespace ClassCompiler

def Instruction.shift (k : Nat) : Instruction → Instruction
  | .branch cond l => .branch cond ⟨l.index + k⟩
  | .branchInt cond l => .branchInt cond ⟨l.index + k⟩
  | .branchRef cond l => .branchRef cond ⟨l.index + k⟩
  | .goto l => .goto ⟨l.index + k⟩
  | .label l => .label ⟨l.index + k⟩
  | i => i

theorem Instruction.shiftStraight {i : Instruction} (straight : i.isStraight = true) (k : Nat) :
    i.shift k = i := by
  cases i <;> first | rfl | contradiction

def CompiledMethod.shift (k : Nat) (m : CompiledMethod) : CompiledMethod :=
  { m with code := m.code.map (Instruction.shift k) }

def Shifted (k k' : Nat) (code code' : List Instruction) : Prop :=
  code.map (Instruction.shift k) = code'.map (Instruction.shift k')

namespace Shifted
variable {k k' n n' : Nat} {front front' rest rest' : List Instruction} {i : Instruction}

theorem nil : Shifted k k' [] [] := rfl

theorem append (first : Shifted k k' front front') (second : Shifted k k' rest rest') :
    Shifted k k' (front ++ rest) (front' ++ rest') := by
  unfold Shifted at *
  rw [List.map_append, first, second, List.map_append]

theorem cons {i' : Instruction} (first : i.shift k = i'.shift k') (second : Shifted k k' rest rest') :
    Shifted k k' (i :: rest) (i' :: rest') := by
  unfold Shifted at *
  rw [List.map_cons, first, second, List.map_cons]

theorem straight (none : rest.all Instruction.isStraight = true) : Shifted k k' rest rest := by
  induction rest with
  | nil => rfl
  | cons i rest ih =>
    simp only [List.all_cons, Bool.and_eq_true] at none
    exact cons (by rw [i.shiftStraight none.1, i.shiftStraight none.1]) (ih none.2)

theorem branch (cond : Condition) (moved : n + k = n' + k') :
    Shifted k k' [.branch cond ⟨n⟩] [.branch cond ⟨n'⟩] := by
  simp only [Shifted, List.map_cons, List.map_nil, Instruction.shift, moved]

theorem label (moved : n + k = n' + k') : Shifted k k' [.label ⟨n⟩] [.label ⟨n'⟩] := by
  simp only [Shifted, List.map_cons, List.map_nil, Instruction.shift, moved]

theorem jump (moved : n + k = n' + k') {m m' : Nat} (place : m + k = m' + k') :
    Shifted k k' [.goto ⟨n⟩, .label ⟨m⟩] [.goto ⟨n'⟩, .label ⟨m'⟩] := by
  simp only [Shifted, List.map_cons, List.map_nil, Instruction.shift, moved, place]

theorem selectBool (b : Bool) (moved : n + k = n' + k') {m m' : Nat} (done : m + k = m' + k') :
    Shifted k k' (Instruction.selectBool b ⟨n⟩ ⟨m⟩) (Instruction.selectBool b ⟨n'⟩ ⟨m'⟩) := by
  simp only [Shifted, Instruction.selectBool, List.map_cons, List.map_nil, Instruction.shift, moved, done]
  cases b <;> rfl

end Shifted

theorem compareShifted {cond : Condition} {n n' k k' : Nat} {type : DataType}
    {test test' : List Instruction} (here : compareCode cond ⟨n⟩ type = .ok test)
    (there : compareCode cond ⟨n'⟩ type = .ok test') (moved : n + k = n' + k') :
    Shifted k k' test test' := by
  cases type <;> cases here <;> cases there <;>
    simp only [Shifted, List.map_cons, List.map_nil, Instruction.shift, moved]

/-- What the code of a method is made from is the same in both analyses. -/
structure Analysis.SameCode (c : Renumbering) (limit : Nat) (a b : Analysis) : Prop where
  locals : ∀ {i j x purpose s s'}, c.Within limit i j → a.localSlot i x purpose = .ok s →
    b.localSlot j x purpose = .ok s' → s' = s
  types : ∀ n ∈ c.nodes, b.typeOf? (c.number n) = a.typeOf? n
  bound : ∀ n ∈ c.nodes, ∀ {i j}, a.scopeOf n = .ok i → b.scopeOf (c.number n) = .ok j →
    c.Within limit i j
  uses : b.methods.uses = a.methods.uses
  limits : ∀ {i j}, c.Within limit i j → i ≠ ScopeTree.root →
    (b.scopes.scope j).maxStack = (a.scopes.scope i).maxStack ∧
      b.scopes.maxLocals j = a.scopes.maxLocals i

section
variable {c : Renumbering} {limit i j k k' : Nat} {a b : Analysis} {className : String}

theorem Analysis.SameCode.typed (same : a.SameCode c limit b) {n : NodeId} (member : n ∈ c.nodes)
    {type type' : DataType} (here : a.typeOf n = .ok type) (there : b.typeOf (c.number n) = .ok type') :
    type' = type := by
  have both := same.types n member
  rw [Analysis.typeOfOk.mp here, Analysis.typeOfOk.mp there] at both
  exact Option.some.inj both

mutual

theorem Expr.emitsShifted (same : a.SameCode c limit b) (within : c.Within limit i j) :
    ∀ (e : Expr NodeId) {n m n' m' : Nat} {code code' : List Instruction}, e.tags ⊆ c.nodes →
      e.Emits a className i n code m → (e.retag c.number).Emits b className j n' code' m' →
        n + k = n' + k' → Shifted k k' code code' ∧ m + k = m' + k'
  | .literal _ value _, _, _, _, _, _, _, _, .literal, there, moved => by
    cases there
    exact ⟨.straight (value.codeCases (fun _ => rfl) (fun _ => rfl) (fun _ => rfl) fun _ => rfl), moved⟩
  | .var .., _, _, _, _, _, _, _, .var home, there, moved => by
    cases there with
    | var home' =>
      rw [same.locals within home home']
      exact ⟨.straight rfl, moved⟩
  | .binary node op left right, _, _, _, _, _, _, sub, here, there, moved => by
    simp only [tagsBinary, List.cons_subset, List.append_subset] at sub
    cases here with
    | arith action one other typed family =>
      cases there with
      | arith action' one' other' typed' family' =>
        obtain ⟨first, middle⟩ := left.emitsShifted same within sub.2.1 one one' moved
        obtain ⟨second, last⟩ := right.emitsShifted same within sub.2.2 other other' middle
        cases action.symm.trans action'
        rw [same.typed sub.1 typed typed', family] at family'
        cases family'
        exact ⟨(first.append second).append (.straight rfl), last⟩
      | compare action' | logical action' => cases action.symm.trans action'
    | compare action one other typed tested =>
      cases there with
      | compare action' one' other' typed' tested' =>
        obtain ⟨first, middle⟩ := left.emitsShifted same within sub.2.1 one one' moved
        obtain ⟨second, last⟩ := right.emitsShifted same within sub.2.2 other other' middle
        cases action.symm.trans action'
        rw [same.typed sub.1 typed typed'] at tested'
        exact ⟨((first.append second).append (compareShifted tested tested' last)).append
          (.selectBool true last (by omega)), by omega⟩
      | arith action' | logical action' => cases action.symm.trans action'
    | logical action one other =>
      cases there with
      | logical action' one' other' =>
        obtain ⟨first, middle⟩ := left.emitsShifted same within sub.2.1 one one' (by omega)
        obtain ⟨second, last⟩ := right.emitsShifted same within sub.2.2 other other' middle
        cases action.symm.trans action'
        exact ⟨(((first.append (.branch _ moved)).append second).append (.branch _ moved)).append
          (.selectBool _ moved (by omega)), last⟩
      | arith action' | compare action' => cases action.symm.trans action'
  | .not _ operand _, _, _, _, _, _, _, sub, .not within', there, moved => by
    simp only [tags, nodes, List.map_cons, List.cons_subset] at sub
    cases there with
    | not inner' =>
      obtain ⟨first, last⟩ := operand.emitsShifted same within sub.2 within' inner' moved
      exact ⟨(first.append (.branch .ne last)).append (.selectBool true last (by omega)), by omega⟩
  | .assign _ (.var ..) value, _, _, _, _, _, _, sub, .assign inner home, there, moved => by
    simp only [tags, nodes, List.map_cons, List.map_append, List.cons_subset, List.append_subset] at sub
    cases there with
    | assign inner' home' =>
      obtain ⟨first, last⟩ := value.emitsShifted same within sub.2.2 inner inner' moved
      rw [same.locals within home home']
      exact ⟨(first.append (.straight rfl)).append (.straight rfl), last⟩
  | .call _ m args _, _, _, _, _, _, _, sub, .call found given described, there, moved => by
    simp only [tagsCall, List.cons_subset] at sub
    cases there with
    | call found' given' described' =>
      obtain ⟨first, last⟩ := Expr.emitAllShifted same within args sub.2 given given' moved
      have use := congrFun same.uses m
      simp only [MethodTable.uses, found, found', Option.map_some, Option.some.injEq,
        MethodUse.mk.injEq] at use
      rw [use.1, use.2, described] at described'
      cases described'
      rw [Expr.lengthRetag, use.1]
      exact ⟨((Shifted.straight rfl).append first).append (.straight rfl), last⟩
  | .writeLine _ value _, _, _, _, _, _, _, sub, .writeLine inner typed printed, there, moved => by
    simp only [tags, nodes, List.map_cons, List.cons_subset] at sub
    cases there with
    | writeLine inner' typed' printed' =>
      obtain ⟨first, last⟩ := value.emitsShifted same within sub.2 inner inner' moved
      rw [same.typed sub.1 typed typed', printed] at printed'
      cases printed'
      exact ⟨((Shifted.straight rfl).append first).append (.straight (printCases printed fun _ => rfl)), last⟩
  | .read .., _, _, _, _, _, _, _, .read, there, moved => by
    cases there
    exact ⟨.straight rfl, moved⟩
  | .random .., _, _, _, _, _, _, _, .random, there, moved => by
    cases there
    exact ⟨.straight rfl, moved⟩
  | .randomBelow _ bound _, _, _, _, _, _, _, sub, .randomBelow inner, there, moved => by
    simp only [tags, nodes, List.map_cons, List.cons_subset] at sub
    cases there with
    | randomBelow inner' =>
      obtain ⟨first, last⟩ := bound.emitsShifted same within sub.2 inner inner' moved
      exact ⟨((Shifted.straight rfl).append first).append (.straight rfl), last⟩
termination_by structural e => e

theorem Expr.emitAllShifted (same : a.SameCode c limit b) (within : c.Within limit i j) :
    ∀ (es : List (Expr NodeId)) {n m n' m' : Nat} {code code' : List Instruction},
      Expr.tagsAll es ⊆ c.nodes → Expr.EmitAll a className i es n code m →
        Expr.EmitAll b className j (Expr.retagAll c.number es) n' code' m' →
          n + k = n' + k' → Shifted k k' code code' ∧ m + k = m' + k'
  | [], _, _, _, _, _, _, _, .nil, there, moved => by
    cases there
    exact ⟨.nil, moved⟩
  | e :: rest, _, _, _, _, _, _, sub, .cons one more, there, moved => by
    rw [tagsAllCons] at sub
    obtain ⟨own, others⟩ := List.append_subset.mp sub
    cases there with
    | cons one' more' =>
      obtain ⟨first, middle⟩ := e.emitsShifted same within own one one' moved
      obtain ⟨second, last⟩ := Expr.emitAllShifted same within rest others more more' middle
      exact ⟨first.append second, last⟩
termination_by structural es => es

end

theorem Expr.droppedShifted (same : a.SameCode c limit b) (within : c.Within limit i j) {node : NodeId}
    (member : node ∈ c.nodes) (e : Expr NodeId) (sub : e.tags ⊆ c.nodes) {n m n' m' : Nat}
    {code code' : List Instruction} (here : e.EmitsDropped a className i node n code m)
    (there : (e.retag c.number).EmitsDropped b className j (c.number node) n' code' m')
    (moved : n + k = n' + k') : Shifted k k' code code' ∧ m + k = m' + k' := by
  have kept := same.types node member
  cases here with
  | assign inner home =>
    simp only [tags, nodes, List.map_cons, List.map_append, List.cons_subset, List.append_subset] at sub
    cases there with
    | assign inner' home' =>
      obtain ⟨first, last⟩ := Expr.emitsShifted same within _ sub.2.2 inner inner' moved
      rw [same.locals within home home']
      exact ⟨first.append (.straight rfl), last⟩
    | silent plain | popped plain => exact absurd rfl (plain _ _ _)
  | silent plain inner nothing =>
    generalize known : e.retag c.number = e' at there
    cases there with
    | assign =>
      cases e with
      | assign => exact absurd rfl (plain _ _ _)
      | _ => cases known
    | silent _ inner' => exact e.emitsShifted same within sub inner (known ▸ inner') moved
    | popped _ _ left solid => exact absurd (nothing _ (kept.symm.trans left)) solid
  | popped plain inner left solid =>
    generalize known : e.retag c.number = e' at there
    cases there with
    | assign =>
      cases e with
      | assign => exact absurd rfl (plain _ _ _)
      | _ => cases known
    | silent _ _ nothing => exact absurd (nothing _ (kept.trans left)) solid
    | popped _ inner' =>
      obtain ⟨first, last⟩ := e.emitsShifted same within sub inner (known ▸ inner') moved
      exact ⟨first.append (.straight rfl), last⟩

theorem Declarator.emitAllShifted (same : a.SameCode c limit b) (within : c.Within limit i j)
    {ds : List (Declarator NodeId)} {n m n' m' : Nat} {code code' : List Instruction}
    (sub : ds.flatMap Declarator.tags ⊆ c.nodes) (here : Declarator.EmitAll a className i ds n code m)
    (there : Declarator.EmitAll b className j (ds.map (Declarator.retag c.number)) n' code' m')
    (moved : n + k = n' + k') : Shifted k k' code code' ∧ m + k = m' + k' := by
  induction here generalizing n' code' with
  | nil =>
    cases there
    exact ⟨.nil, moved⟩
  | bare missing _ ih =>
    simp only [List.flatMap_cons, List.append_subset] at sub
    cases there with
    | bare _ more' => exact ih sub.2 more' moved
    | initial given => simp [retag, missing] at given
  | initial given inner home _ ih =>
    simp only [List.flatMap_cons, List.append_subset, Declarator.tagsInit given, List.cons_subset] at sub
    cases there with
    | bare missing => simp [retag, given] at missing
    | initial given' inner' home' more' =>
      simp only [retag, given, Option.map_some, Option.some.injEq] at given'
      subst given'
      obtain ⟨first, middle⟩ := Expr.emitsShifted same within _ sub.1.2 inner inner' moved
      obtain ⟨second, last⟩ := ih sub.2 more' middle
      rw [same.locals within home home']
      exact ⟨(first.append (.straight rfl)).append second, last⟩

mutual

theorem Stmt.emitsShifted (same : a.SameCode c limit b) :
    ∀ (s : Stmt NodeId) {i j n m n' m' : Nat} {code code' : List Instruction}, s.tags ⊆ c.nodes →
      c.Within limit i j → s.Emits a className i n code m →
        (s.retag c.number).Emits b className j n' code' m' →
          n + k = n' + k' → Shifted k k' code code' ∧ m + k = m' + k'
  | .expr _ e _, _, _, _, _, _, _, _, _, sub, within, .expr inner, there, moved => by
    simp only [tags, nodes, List.map_cons, List.cons_subset] at sub
    cases there with
    | expr inner' => exact e.droppedShifted same within sub.1 sub.2 inner inner' moved
  | .declare .., _, _, _, _, _, _, _, _, sub, within, .declare inner, there, moved => by
    simp only [tags, nodes, List.map_cons, List.cons_subset, List.map_flatMap] at sub
    cases there with
    | declare inner' => exact Declarator.emitAllShifted same within sub.2 inner inner' moved
  | .ret _ (some e) _, _, _, _, _, _, _, _, _, sub, within, .ret inner typed, there, moved => by
    simp only [tags, nodes, Expr.nodesOption, List.map_cons, List.cons_subset] at sub
    cases there with
    | ret inner' typed' =>
      obtain ⟨first, last⟩ := e.emitsShifted same within sub.2 inner inner' moved
      rw [same.typed sub.1 typed typed']
      exact ⟨first.append (.straight rfl), last⟩
  | .ret _ none _, _, _, _, _, _, _, _, _, sub, _, .leave typed, there, moved => by
    simp only [tags, nodes, List.map_cons, List.cons_subset] at sub
    cases there with
    | leave typed' =>
      rw [same.typed sub.1 typed typed']
      exact ⟨.straight rfl, moved⟩
  | .block _ body _, _, _, _, _, _, _, _, _, sub, _, .block scope inside, there, moved => by
    simp only [tags, nodes, List.map_cons, List.cons_subset] at sub
    cases there with
    | block scope' inside' =>
      exact Stmt.emitAllShifted same body sub.2 (same.bound _ sub.1 scope scope') inside inside' moved
  | .ifThen _ cond yes _, _, _, _, _, _, _, _, _, sub, _, .ifThen scope tested inside, there, moved => by
    simp only [tags, nodes, List.map_cons, List.map_append, List.cons_subset, List.append_subset] at sub
    cases there with
    | ifThen scope' tested' inside' =>
      have inner := same.bound _ sub.1 scope scope'
      obtain ⟨first, middle⟩ := cond.emitsShifted same inner sub.2.1 tested tested' moved
      obtain ⟨second, last⟩ := yes.emitsShifted same sub.2.2 inner inside inside' (by omega)
      exact ⟨((first.append (.branch .eq middle)).append second).append (.label middle), last⟩
  | .ifElse _ cond yes _ no _, _, _, _, _, _, _, _, _, sub, _,
      .ifElse scope tested inside beside otherwise, there, moved => by
    simp only [tags, nodes, List.map_cons, List.map_append, List.cons_subset, List.append_subset] at sub
    obtain ⟨own, ⟨test, one⟩, other, two⟩ := sub
    cases there with
    | ifElse scope' tested' inside' beside' otherwise' =>
      have inner := same.bound _ own scope scope'
      obtain ⟨first, middle⟩ := cond.emitsShifted same inner test tested tested' moved
      obtain ⟨second, next⟩ := yes.emitsShifted same one inner inside inside' (by omega)
      obtain ⟨third, last⟩ := no.emitsShifted same two (same.bound _ other beside beside') otherwise
        otherwise' (by omega)
      exact ⟨((((first.append (.branch .eq middle)).append second).append (.jump next middle)).append
        third).append (.label next), last⟩
  | .loop _ cond body _, _, _, n, _, n', _, _, _, sub, _, .loop scope tested inside, there, moved => by
    simp only [tags, nodes, List.map_cons, List.map_append, List.cons_subset, List.append_subset] at sub
    cases there with
    | loop scope' tested' inside' =>
      have inner := same.bound _ sub.1 scope scope'
      have next : n + 1 + k = n' + 1 + k' := by omega
      obtain ⟨first, middle⟩ := cond.emitsShifted same inner sub.2.1 tested tested'
        (show n + 2 + k = n' + 2 + k' by omega)
      obtain ⟨second, last⟩ := body.emitsShifted same sub.2.2 inner inside inside' middle
      exact ⟨((((Shifted.label moved).append first).append (.branch .eq next)).append second).append
        (.jump moved next), last⟩
termination_by structural s => s

theorem Stmt.emitAllShifted (same : a.SameCode c limit b) :
    ∀ (ss : List (Stmt NodeId)) {i j n m n' m' : Nat} {code code' : List Instruction},
      Stmt.tagsAll ss ⊆ c.nodes → c.Within limit i j → Stmt.EmitAll a className ss i n code m →
        Stmt.EmitAll b className (Stmt.retagAll c.number ss) j n' code' m' →
          n + k = n' + k' → Shifted k k' code code' ∧ m + k = m' + k'
  | [], _, _, _, _, _, _, _, _, _, _, .nil, there, moved => by
    cases there
    exact ⟨.nil, moved⟩
  | s :: rest, _, _, _, _, _, _, _, _, sub, within, .cons one more, there, moved => by
    simp only [tagsAll, nodesAll, List.map_append, List.append_subset] at sub
    cases there with
    | cons one' more' =>
      obtain ⟨first, middle⟩ := s.emitsShifted same sub.1 within one one' moved
      obtain ⟨second, last⟩ := Stmt.emitAllShifted same rest sub.2 within more more' middle
      exact ⟨first.append second, last⟩
termination_by structural ss => ss

end

theorem Method.emitsShifted (same : a.SameCode c limit b) {m : Method NodeId} (sub : m.tags ⊆ c.nodes)
    (inner : ∀ id, a.scopeOf m.tag = .ok id → id ≠ ScopeTree.root) {n n' e e' : Nat}
    {made made' : CompiledMethod} (here : m.Emits a className n made e)
    (there : (m.retag c.number).Emits b className n' made' e') (moved : n + k = n' + k') :
    made.shift k = made'.shift k' := by
  simp only [m.tagsEq, List.cons_subset, List.append_subset] at sub
  obtain ⟨own, _, body, stmts⟩ := sub
  have types : (m.retag c.number).paramTypes = m.paramTypes := by
    simp [paramTypes, retag, Param.retag, Function.comp_def]
  cases here with
  | compile scope described within code =>
    cases there with
    | compile scope' described' within' code' =>
      obtain ⟨shifted, _⟩ := Stmt.emitAllShifted same m.body.stmts stmts
        (same.bound _ body within within') code code' moved
      obtain ⟨stack, locals⟩ := same.limits (same.bound _ own scope scope') (inner _ scope)
      have last : Shifted k k' (if m.returnType = .void then [.ret none] else [])
          (if m.returnType = .void then [.ret none] else []) := .straight (by split <;> rfl)
      have text := described.symm.trans (types ▸ described')
      cases text
      simp only [CompiledMethod.shift, stack, locals, CompiledMethod.mk.injEq, true_and]
      exact ⟨rfl, shifted.append last⟩

theorem Analysis.Twin.sameCode {F G : Analysis} (twin : F.Twin c limit G) (here : a.Alike F)
    (there : b.Alike G) : a.SameCode c limit b where
  locals {i j x purpose s s'} within slot slot' := by
    obtain ⟨v, found, kind, place⟩ := Analysis.localSlotOf slot
    obtain ⟨w, found', kind', place'⟩ := Analysis.localSlotOf slot'
    obtain ⟨_, first⟩ := ScopeTree.lookupVariable here.marks found
    have second := twin.scopes.lookup within x
    rw [first] at second
    obtain ⟨_, third⟩ := ScopeTree.lookupVariable there.marks.symm second
    cases found'.symm.trans third
    have same : s'.1 = s.1 := Option.some.inj (kind'.symm.trans kind)
    exact Prod.ext same (place'.symm.trans place)
  types n member := by
    rw [Analysis.typeOf?, there.types, Analysis.typeOf?, here.types]
    exact twin.types n member
  bound n member {i j} scope scope' := by
    rw [Analysis.scopeOfOk, here.scopeIds] at scope
    rw [Analysis.scopeOfOk, there.scopeIds] at scope'
    have both := twin.bound n member
    rw [scope, scope'] at both
    cases both with
    | some within => exact within
  uses := by rw [there.methods, here.methods, twin.uses]
  limits {i j} within inner := by
    have counts := twin.scopes.counts within inner
    rw [ScopeTree.blankLimit there.marks, ScopeTree.blankLimit here.marks,
      ScopeTree.blankLocals there.marks, ScopeTree.blankLocals here.marks, ScopeTree.maxLocals,
      ScopeTree.maxLocals, twin.scopes.visibleCount within, counts.maxLocals]
    exact ⟨counts.maxStack, rfl⟩

end

end ClassCompiler
