import ClassCompiler.Proofs.Siting

/-! Code runs as the program does. The variables of a program have their values in slots, as far as they
have one. Expressions and statements that are run keep it that way, and at the end of a scope the slots
of its variables are forgotten. So the code of a body returns whenever the body does, with the same
result and in the same world. -/
namespace ClassCompiler
variable {ρ W : Type} {p : Program NodeId} {final : Analysis} {id : Nat} {env : Bindings}

namespace Bindings

structure Framed (p : Program NodeId) (env : Bindings) : Prop where
  apart : (env.map Binding.node).Nodup
  object : ∃ b, env.inSlot 0 = some b ∧ b.node = p.tag

structure Holds (env : Bindings) (s : Memory NodeId ρ W) (t : Memory Nat ρ W) : Prop where
  world : t.world = s.world
  vars : ∀ k b v, env.inSlot k = some b → s.vars b.node = some v → t.vars k = some v

inductive Grown (env : Bindings) : Bindings → Prop where
  | refl : Grown env env
  | add {after b} (grown : Grown env after) (new : ∀ c ∈ after, c.node ≠ b.node) :
      Grown env (b :: after)

theorem Framed.add (framed : env.Framed p) {b : Binding} (new : ∀ c ∈ env, c.node ≠ b.node) :
    Framed p (b :: env) where
  apart := by
    refine List.nodup_cons.mpr ⟨fun member => ?_, framed.apart⟩
    obtain ⟨c, inside, same⟩ := List.mem_map.mp member
    exact new c inside same
  object := by
    obtain ⟨object, first, node⟩ := framed.object
    exact ⟨object, inSlotOlder first, node⟩

theorem Framed.slot (framed : env.Framed p) {j k : Nat} {b c : Binding} (first : inSlot env j = some b)
    (second : inSlot env k = some c) (same : b.node = c.node) : j = k := by
  have apart : (env.reverse.map Binding.node).Nodup := by
    rw [List.map_reverse]
    exact List.nodup_reverse.mpr framed.apart
  have bound := (List.getElem?_eq_some_iff.mp first).1
  refine (List.getElem?_inj (by simpa using bound) apart).mp ?_
  rw [List.getElem?_map, List.getElem?_map, ← inSlot, ← inSlot, first, second]
  exact congrArg some same

namespace Grown
variable {after : Bindings}

theorem trans {last : Bindings} (first : Grown env after) (second : Grown after last) :
    Grown env last := by
  induction second with
  | refl => exact first
  | add _ new ih => exact ih.add new

theorem framed (grown : Grown env after) (framed : env.Framed p) : after.Framed p := by
  induction grown with
  | refl => exact framed
  | add _ new ih => exact ih.add new

theorem holds (grown : Grown env after) {s : Memory NodeId ρ W} {t : Memory Nat ρ W}
    (holds : after.Holds s t) : env.Holds s t := by
  induction grown with
  | refl => exact holds
  | add _ _ ih => exact ih ⟨holds.world, fun k b v found => holds.vars k b v (inSlotOlder found)⟩

end Grown

namespace Holds
variable {s : Memory NodeId ρ W} {t : Memory Nat ρ W}

theorem changed (holds : env.Holds s t) (w : W) :
    env.Holds { s with world := w } { t with world := w } := ⟨rfl, holds.vars⟩

theorem assigned (holds : env.Holds s t) (framed : env.Framed p) {k : Nat} {b : Binding}
    (slot : env.inSlot k = some b) (v : Value ρ) :
    env.Holds (s.set b.node (some v)) (t.set k (some v)) where
  world := holds.world
  vars j c u found given := by
    simp only [Memory.set] at given ⊢
    by_cases same : c.node = b.node
    · rw [same, Function.update_self] at given
      rw [framed.slot found slot same, Function.update_self]
      exact given
    · have other : j ≠ k := by
        rintro rfl
        exact same (congrArg Binding.node (Option.some.inj (found.symm.trans slot)))
      rw [Function.update_of_ne same] at given
      rw [Function.update_of_ne other]
      exact holds.vars j c u found given

theorem declared (holds : env.Holds s t) {b : Binding} (new : ∀ c ∈ env, c.node ≠ b.node) :
    Holds (b :: env) (s.set b.node none) t where
  world := holds.world
  vars k c v found given := by
    rcases inSlotCons found with ⟨_, rfl⟩ | older
    · -- The new variable has no value yet, so its slot may have anything in it.
      simp [Memory.set] at given
    · simp only [Memory.set] at given
      rw [Function.update_of_ne (new c (inSlotMem older))] at given
      exact holds.vars k c v older given

end Holds
end Bindings

theorem Bindings.Shows.types {vars : String → Option DataType} (shows : env.Shows final id vars)
    (x : String) (type : DataType) (known : vars x = some type) : env.types x = some type := by
  obtain ⟨_, b, _, found, same, _⟩ := shows x type known
  rw [Bindings.types, found, Option.map_some, same]

theorem Expr.HasType.agree {methods : String → Option MethodUse}
    {vars more : String → Option DataType}
    (wider : ∀ x type, vars x = some type → more x = some type) :
    ∀ {e : Expr NodeId} {type other : DataType}, e.HasType methods vars type →
      e.HasType methods more other → type = other
  | _, _, _, .literal, .literal => rfl
  | _, _, _, .var known, .var found => Option.some.inj ((wider _ _ known).symm.trans found)
  | _, _, _, .binary first _ _, .binary second _ _ => by rw [first.agree wider second]
  | _, _, _, .not _, .not _ => rfl
  | _, _, _, .assign known _, .assign found _ => Option.some.inj ((wider _ _ known).symm.trans found)
  | _, _, _, .call known _, .call found _ =>
    congrArg MethodUse.returns (Option.some.inj (known.symm.trans found))
  | _, _, _, .writeLine _ _, .writeLine _ _ => rfl
  | _, _, _, .read, .read => rfl
  | _, _, _, .random, .random => rfl
  | _, _, _, .randomBelow _, .randomBelow _ => rfl

section
variable [DecidableEq ρ] {I : Interpretation ρ W} {vars : String → Option DataType}

theorem Expr.evaluatesShape {κ : Type} [DecidableEq κ] {V : View κ}
    (solid : ∀ x type, vars x = some type → type ≠ .void) {e : Expr NodeId} {type : DataType}
    (typed : e.HasType V.methods vars type) {s s' : Memory κ ρ W} {r : Option (Value ρ)}
    (evaluated : e.Evaluates I V s r s') : r.isSome = (type != .void) := by
  cases typed with
  | @literal _ value =>
    cases evaluated
    cases value <;> rfl
  | var known =>
    cases evaluated
    simpa using solid _ _ known
  | @binary _ op _ _ type _ _ admitted =>
    have solid : (op.yields type != .void) = true := by
      have value := BinaryOp.admitsValue admitted
      unfold BinaryOp.yields
      split
      · cases type <;> first | rfl | contradiction
      all_goals rfl
    rw [solid]
    cases evaluated <;> rfl
  | assign known =>
    cases evaluated
    simpa using solid _ _ known
  | call found =>
    cases evaluated with
    | call again _ _ _ shaped =>
      rw [found] at again
      cases again
      exact shaped
  | @read _ input =>
    cases evaluated
    cases input <;> rfl
  | not | writeLine | random | randomBelow =>
    cases evaluated
    rfl

mutual

theorem Expr.evaluatesInSlots (uses : final.methods.uses = p.methodUses) (framed : env.Framed p)
    (shows : env.Shows final id vars) : ∀ (e : Expr NodeId) {type : DataType}
    {s s' : Memory NodeId ρ W} {r : Option (Value ρ)} {t : Memory Nat ρ W},
    e.HasType final.methods.uses vars type →
      e.Recorded final.typeOf? (Expr.HasType final.methods.uses vars) →
      e.Evaluates I (p.view env) s r s' → env.Holds s t →
        ∃ t', e.Evaluates I (final.view id) t r t' ∧ env.Holds s' t'
  | .literal .., _, _, _, _, t, _, _, .literal, holds => ⟨t, .literal, holds⟩
  | .var .., _, _, _, _, t, .var known, _, .var meant given, holds => by
    obtain ⟨_, b, k, found, _, slot, cell⟩ := shows _ _ known
    obtain rfl : b.node = _ := by simpa [Program.view, found] using meant
    exact ⟨t, .var cell (holds.vars k b _ slot given), holds⟩
  | .binary n op left right, _, _, _, _, t, .binary leftTyped rightTyped _, recorded, evaluated,
      holds => by
    obtain ⟨noted, leftRecorded, rightRecorded⟩ := recorded
    have operand {type : DataType} (typed : (p.view env).operand (.binary n op left right) type) :
        (final.view id).operand (.binary n op left right) type := by
      have again : left.HasType final.methods.uses env.types type := by
        rw [uses]
        exact typed
      obtain rfl := leftTyped.agree shows.types again
      exact noted _ leftTyped
    cases evaluated with
    | arith action first second typed kinds result =>
      obtain ⟨t₁, one, holds⟩ := left.evaluatesInSlots uses framed shows leftTyped leftRecorded first holds
      obtain ⟨t₂, two, holds⟩ :=
        right.evaluatesInSlots uses framed shows rightTyped rightRecorded second holds
      exact ⟨t₂, .arith action one two (operand typed) kinds result, holds⟩
    | compare action first second typed result =>
      obtain ⟨t₁, one, holds⟩ := left.evaluatesInSlots uses framed shows leftTyped leftRecorded first holds
      obtain ⟨t₂, two, holds⟩ :=
        right.evaluatesInSlots uses framed shows rightTyped rightRecorded second holds
      exact ⟨t₂, .compare action one two (operand typed) result, holds⟩
    | decided action first decides =>
      obtain ⟨t₁, one, holds⟩ := left.evaluatesInSlots uses framed shows leftTyped leftRecorded first holds
      exact ⟨t₁, .decided action one decides, holds⟩
    | joined action first leaves second =>
      obtain ⟨t₁, one, holds⟩ := left.evaluatesInSlots uses framed shows leftTyped leftRecorded first holds
      obtain ⟨t₂, two, holds⟩ :=
        right.evaluatesInSlots uses framed shows rightTyped rightRecorded second holds
      exact ⟨t₂, .joined action one leaves two, holds⟩
  | .not _ operand _, _, _, _, _, t, .not typed, recorded, .not inner, holds => by
    obtain ⟨t₁, one, holds⟩ := operand.evaluatesInSlots uses framed shows typed recorded inner holds
    exact ⟨t₁, .not one, holds⟩
  | .assign _ _ value, _, _, _, _, t, .assign known typed, recorded, .assign assigned meant, holds => by
    obtain ⟨t₁, one, holds⟩ := value.evaluatesInSlots uses framed shows typed recorded assigned holds
    obtain ⟨_, b, k, found, _, slot, cell⟩ := shows _ _ known
    obtain rfl : b.node = _ := by simpa [Program.view, found] using meant
    exact ⟨_, .assign one cell, holds.assigned framed slot _⟩
  | .call _ m args _, _, _, _, _, t, .call known typed, recorded,
      .call found receiver given called shaped, holds => by
    obtain ⟨object, first, node⟩ := framed.object
    obtain ⟨t₁, all, after⟩ := Expr.evaluateAllInSlots uses framed shows args typed recorded given holds
    have receives := holds.vars 0 object _ first ((congrArg (Memory.vars _) node).trans receiver)
    rw [← after.world] at called
    exact ⟨_, .call ((congrFun uses m).trans found) receives all called shaped, after.changed _⟩
  | .writeLine n value span, _, _, _, _, t, .writeLine valueTyped _, recorded,
      @Expr.Evaluates.writeLine _ _ _ _ _ _ _ _ _ _ _ _ _ type _ printed typed written, holds => by
    obtain ⟨noted, inner⟩ := recorded
    obtain ⟨t₁, one, after⟩ := value.evaluatesInSlots uses framed shows valueTyped inner printed holds
    have again : value.HasType final.methods.uses env.types type := by
      rw [uses]
      exact typed
    obtain rfl := valueTyped.agree shows.types again
    rw [← after.world] at written
    exact ⟨_, .writeLine one (noted _ valueTyped) written, after.changed _⟩
  | .read .., _, _, _, _, t, _, _, .read got, holds => by
    rw [← holds.world] at got
    exact ⟨_, .read got, holds.changed _⟩
  | .random .., _, _, _, _, t, _, _, .random got, holds => by
    rw [← holds.world] at got
    exact ⟨_, .random got, holds.changed _⟩
  | .randomBelow _ bound _, _, _, _, _, t, .randomBelow typed, recorded, .randomBelow limit got,
      holds => by
    obtain ⟨t₁, one, after⟩ := bound.evaluatesInSlots uses framed shows typed recorded limit holds
    rw [← after.world] at got
    exact ⟨_, .randomBelow one got, after.changed _⟩
termination_by structural e => e

theorem Expr.evaluateAllInSlots (uses : final.methods.uses = p.methodUses) (framed : env.Framed p)
    (shows : env.Shows final id vars) : ∀ (es : List (Expr NodeId)) {types : List DataType}
    {s s' : Memory NodeId ρ W} {vs : List (Value ρ)} {t : Memory Nat ρ W},
    Expr.HaveTypes final.methods.uses vars es types →
      Expr.RecordedAll final.typeOf? (Expr.HasType final.methods.uses vars) es →
      Expr.EvaluateAll I (p.view env) s es vs s' → env.Holds s t →
        ∃ t', Expr.EvaluateAll I (final.view id) t es vs t' ∧ env.Holds s' t'
  | [], _, _, _, _, t, _, _, .nil, holds => ⟨t, .nil, holds⟩
  | e :: rest, _, _, _, _, t, .cons typed restTyped, recorded, .cons first others, holds => by
    obtain ⟨t₁, one, holds⟩ := e.evaluatesInSlots uses framed shows typed recorded.1 first holds
    obtain ⟨t₂, all, holds⟩ :=
      Expr.evaluateAllInSlots uses framed shows rest restTyped recorded.2 others holds
    exact ⟨t₂, .cons one all, holds⟩
termination_by structural es => es

end
end

structure Program.Links (p : Program NodeId) (a : Analysis) (className : String)
    (link : String → Option String) : Prop where
  uses : a.methods.uses = p.methodUses
  calls : Linking link a.methods className

section
variable {after : Bindings} {type : Option DataType}

theorem Declarator.Sited.grown {d : Declarator NodeId} (sited : d.Sited final id type env after) :
    env.Grown after := by
  cases sited with
  | bare _ _ new => exact .add .refl new
  | initial _ _ _ new _ => exact .add .refl new

theorem Declarator.AllSited.grown {ds : List (Declarator NodeId)}
    (sited : Declarator.AllSited final id type env ds after) : env.Grown after := by
  induction sited with
  | nil => exact .refl
  | cons first _ ih => exact first.grown.trans ih

theorem Stmt.Sited.grown {returns : DataType} {s : Stmt NodeId}
    (sited : Stmt.Sited final returns id env s after) : env.Grown after := by
  cases sited with
  | declare declared => exact declared.grown
  | _ => exact .refl

theorem Stmt.AllSited.grown {returns : DataType} : ∀ {ss : List (Stmt NodeId)} {env : Bindings},
    Stmt.AllSited final returns id env ss after → env.Grown after
  | _, _, .nil => .refl
  | _, _, .cons first others => first.grown.trans others.grown

end

theorem Analysis.scopeOfBound {a : Analysis} {node : NodeId} {found inner : Nat}
    (bound : a.scopeOf node = .ok found) (scope : a.scopeIds.get? node = some inner) : found = inner :=
  Option.some.inj ((Analysis.scopeOfOk.mp bound).symm.trans scope)

namespace Stmt
variable {a : Analysis} {className : String} {node other : NodeId} {cond : Expr NodeId}
  {yes no : Stmt NodeId} {span : Span} {id n n' inner beside : Nat} {code : List Instruction}

theorem emitsIfThen (scope : a.scopeIds.get? node = some inner)
    (emits : (Stmt.ifThen node cond yes span).Emits a className id n code n') :
    ∃ m test body, cond.Emits a className inner n test m ∧
      yes.Emits a className inner (m + 1) body n' ∧
      code = test ++ [.branch .eq ⟨m⟩] ++ body ++ [.label ⟨m⟩] := by
  cases emits with
  | ifThen bound tested inside =>
    obtain rfl := Analysis.scopeOfBound bound scope
    exact ⟨_, _, _, tested, inside, rfl⟩

theorem emitsIfElse (scope : a.scopeIds.get? node = some inner)
    (scopeElse : a.scopeIds.get? other = some beside)
    (emits : (Stmt.ifElse node cond yes other no span).Emits a className id n code n') :
    ∃ m k test body rest, cond.Emits a className inner n test m ∧
      yes.Emits a className inner (m + 1) body k ∧ no.Emits a className beside (k + 1) rest n' ∧
      code = test ++ [.branch .eq ⟨m⟩] ++ body ++ [.goto ⟨k⟩, .label ⟨m⟩] ++ rest ++ [.label ⟨k⟩] := by
  cases emits with
  | ifElse bound tested inside boundElse otherwise =>
    obtain rfl := Analysis.scopeOfBound bound scope
    obtain rfl := Analysis.scopeOfBound boundElse scopeElse
    exact ⟨_, _, _, _, _, tested, inside, otherwise, rfl⟩

theorem emitsLoop (scope : a.scopeIds.get? node = some inner)
    (emits : (Stmt.loop node cond yes span).Emits a className id n code n') :
    ∃ m test body, cond.Emits a className inner (n + 2) test m ∧
      yes.Emits a className inner m body n' ∧
      code = [.label ⟨n⟩] ++ test ++ [.branch .eq ⟨n + 1⟩] ++ body ++
        [.goto ⟨n⟩, .label ⟨n + 1⟩] := by
  cases emits with
  | loop bound tested inside =>
    obtain rfl := Analysis.scopeOfBound bound scope
    exact ⟨_, _, _, tested, inside, rfl⟩

end Stmt

section
variable [DecidableEq ρ] {I : Interpretation ρ W} {link : String → Option String}
  {className : String} {s s' : Memory NodeId ρ W} {t : Memory Nat ρ W} {r : Option (Value ρ)}

theorem returnDoes {type : DataType} (shaped : r.isSome = (type != .void)) (t : Memory Nat ρ W) :
    Does I link [.ret (ValueKind.of? type)] (t.on (r.map Cell.value).toList)
      (.returned r t.world) := by
  cases r with
  | none =>
    obtain rfl : type = .void := by simpa using shaped.symm
    exact .stop rfl
  | some v =>
    cases type with
    | void => contradiction
    | _ => exact .stop rfl

namespace Expr.Sited
variable {e : Expr NodeId} {type : DataType} {n n' : Nat} {code : List Instruction}

theorem shape (links : p.Links final className link) (sited : e.Sited final id env type)
    (evaluated : e.Evaluates I (p.view env) s r s') : r.isSome = (type != .void) := by
  obtain ⟨vars, typed, _, shows⟩ := sited
  rw [links.uses] at typed
  exact evaluatesShape (V := p.view env) (fun x type known => (shows x type known).1) typed evaluated

theorem runs (links : p.Links final className link) (framed : env.Framed p)
    (sited : e.Sited final id env type) (emits : e.Emits final className id n code n')
    (holds : env.Holds s t) (evaluated : e.Evaluates I (p.view env) s r s') :
    ∃ t', Does I link code (t.on []) (.through (t'.on (r.map Cell.value).toList)) ∧
      env.Holds s' t' := by
  obtain ⟨vars, typed, recorded, shows⟩ := sited
  obtain ⟨t', again, after⟩ :=
    e.evaluatesInSlots links.uses framed shows typed recorded evaluated holds
  have run := e.emitsDoes links.calls [] emits again
  rw [List.append_nil] at run
  exact ⟨t', run, after⟩

theorem drops (links : p.Links final className link) (framed : env.Framed p) {node : NodeId}
    (sited : e.Sited final id env type)
    (recorded : (∃ m target value, e = .assign m target value) ∨ final.typeOf? node = some type)
    (emits : e.EmitsDropped final className id node n code n') (holds : env.Holds s t)
    (evaluated : e.Evaluates I (p.view env) s r s') :
    ∃ t', Does I link code (t.on []) (.through (t'.on [])) ∧ env.Holds s' t' := by
  have noted (plain : ∀ m target value, e ≠ .assign m target value) : final.typeOf? node = some type :=
    recorded.resolve_left fun ⟨m, target, value, same⟩ => plain m target value same
  have shaped := sited.shape links evaluated
  cases emits with
  | assign inner home =>
    obtain ⟨vars, typed, noted, shows⟩ := sited
    obtain ⟨t', again, after⟩ :=
      evaluatesInSlots links.uses framed shows _ typed noted evaluated holds
    cases again with
    | assign assigned meant =>
      obtain rfl := Analysis.localSlotMeant home meant
      exact ⟨_, (Expr.emitsDoes links.calls _ [] inner assigned).append storeDoes, after⟩
  | silent plain inner nothing =>
    obtain ⟨t', run, after⟩ := sited.runs links framed inner holds evaluated
    obtain rfl := nothing type (noted plain)
    obtain rfl : r = none := by simpa using shaped
    exact ⟨t', run, after⟩
  | popped plain inner left solid =>
    obtain ⟨t', run, after⟩ := sited.runs links framed inner holds evaluated
    obtain rfl := Option.some.inj ((noted plain).symm.trans left)
    cases r with
    | none => exact absurd (by simpa using shaped.symm) solid
    | some v => exact ⟨t', run.append (.one rfl), after⟩

theorem passes (links : p.Links final className link) (framed : env.Framed p)
    (sited : e.Sited final id env .bool) (emits : e.Emits final className id n code n')
    (holds : env.Holds s t) {l : Int} (evaluated : e.Evaluates I (p.view env) s (some (.int l)) s')
    (truth : l ≠ 0) (target : Label) :
    ∃ t', Does I link (code ++ [.branch .eq target]) (t.on []) (.through (t'.on [])) ∧
      env.Holds s' t' := by
  obtain ⟨t', run, after⟩ := sited.runs links framed emits holds evaluated
  have tested := Instruction.decideEffect I link true target t' l []
  rw [beq_false_of_ne truth] at tested
  exact ⟨t', run.append (.one tested), after⟩

theorem skips (links : p.Links final className link) (framed : env.Framed p)
    (sited : e.Sited final id env .bool) (emits : e.Emits final className id n code n')
    (holds : env.Holds s t) (evaluated : e.Evaluates I (p.view env) s (some (.int 0)) s')
    (target : Label) : ∃ t', env.Holds s' t' ∧ ∀ between back exit, Does I link back (t'.on []) exit →
      Does I link (code ++ ([.branch .eq target] ++ between ++ [.label target] ++ back))
        (t.on []) exit := by
  obtain ⟨t', run, after⟩ := sited.runs links framed emits holds evaluated
  have tested := Instruction.decideEffect I link true target t' 0 []
  exact ⟨t', after, fun between back exit rest => run.append (.jump between tested rest)⟩

end Expr.Sited

theorem Declarator.Sited.bareHolds {d : Declarator NodeId} {type : Option DataType}
    {after found : Bindings} (missing : d.init = none) (sited : d.Sited final id type env after)
    (holds : env.Holds s t) (executed : d.Executes I p type env s found s') :
    found = after ∧ after.Holds s' t := by
  cases sited with
  | bare _ given new =>
    cases executed with
    | bare _ again =>
      obtain rfl := Option.some.inj (given.symm.trans again)
      exact ⟨rfl, holds.declared new⟩
    | initial given => simp [missing] at given
  | initial given => simp [missing] at given

theorem Declarator.Sited.initialRuns (links : p.Links final className link) (framed : env.Framed p)
    {d : Declarator NodeId} {e : Expr NodeId} {type : Option DataType} {after found : Bindings}
    {n n' : Nat} {code : List Instruction} {slot : ValueKind × Nat} (given : d.init = some e)
    (emits : e.Emits final className id n code n') (home : final.localSlot id d.name "store" = .ok slot)
    (sited : d.Sited final id type env after) (holds : env.Holds s t)
    (executed : d.Executes I p type env s found s') : found = after ∧
      ∃ t', Does I link (code ++ [.store slot.1 slot.2]) (t.on []) (.through (t'.on [])) ∧
        after.Holds s' t' := by
  cases sited with
  | bare missing => simp [missing] at given
  | @initial _ known again value agrees new cell =>
    obtain rfl := Option.some.inj (given.symm.trans again)
    cases executed with
    | bare missing => simp [missing] at given
    | @initial _ wide v s₁ again typed evaluated =>
      obtain rfl := Option.some.inj (given.symm.trans again)
      obtain ⟨t₁, run, held⟩ := value.runs links framed emits holds evaluated
      obtain ⟨vars, narrow, _, shows⟩ := value
      rw [← links.uses] at typed
      obtain rfl := narrow.agree shows.types typed
      have same : type.getD known = known := by
        cases type with
        | none => rfl
        | some expected => exact (agrees expected rfl).symm
      rw [same, Analysis.localSlotMeant home cell]
      -- The variable is declared without a value, and the store is its first assignment.
      have last := (held.declared (b := ⟨d.name, d.tag, known⟩) new).assigned (framed.add new)
        (Bindings.inSlotLast _ env) v
      simp only [Memory.set, Function.update_idem] at last
      exact ⟨rfl, _, run.append storeDoes, last⟩

theorem Declarator.AllSited.runs (links : p.Links final className link) {type : Option DataType}
    {ds : List (Declarator NodeId)} {after found : Bindings} {n n' : Nat} {code : List Instruction}
    (sited : Declarator.AllSited final id type env ds after) (framed : env.Framed p)
    (emits : Declarator.EmitAll final className id ds n code n') (holds : env.Holds s t)
    (executed : Declarator.ExecuteAll I p type env s ds found s') : found = after ∧
      ∃ t', Does I link code (t.on []) (.through (t'.on [])) ∧ after.Holds s' t' := by
  induction executed generalizing n code t with
  | nil =>
    cases sited
    cases emits
    exact ⟨rfl, t, .nil, holds⟩
  | cons first _ ih =>
    cases sited with
    | cons here behind =>
      cases emits with
      | bare missing more =>
        obtain ⟨rfl, held⟩ := here.bareHolds missing holds first
        exact ih behind (here.grown.framed framed) more held
      | initial given inner home more =>
        obtain ⟨rfl, t₁, run, held⟩ := here.initialRuns links framed given inner home holds first
        obtain ⟨same, t₂, rest, last⟩ := ih behind (here.grown.framed framed) more held
        exact ⟨same, t₂, run.append rest, last⟩

variable (I link) in
/-- Code does what a run does: it comes to its end where the run goes on, with the variables that have
been foreseen, or it returns. -/
def Flow.Followed (code : List Instruction) (t : Memory Nat ρ W) (after found : Bindings)
    (s : Memory NodeId ρ W) : Flow ρ → Prop
  | .onward => found = after ∧
      ∃ t', Does I link code (t.on []) (.through (t'.on [])) ∧ after.Holds s t'
  | .returned r => Does I link code (t.on []) (.returned r s.world)

namespace Flow.Followed
variable {flow : Flow ρ} {code : List Instruction} {after found : Bindings}

theorem lift {u : Memory Nat ρ W} {whole : List Instruction}
    (followed : flow.Followed I link code t after found s)
    (lifts : ∀ exit, Does I link code (t.on []) exit → Does I link whole (u.on []) exit) :
    flow.Followed I link whole u after found s := by
  cases flow with
  | onward =>
    obtain ⟨same, t', run, holds⟩ := followed
    exact ⟨same, t', lifts _ run, holds⟩
  | returned r => exact lifts _ followed

theorem leave (followed : flow.Followed I link code t after found s) (grown : env.Grown after) :
    flow.Followed I link code t env env s := by
  cases flow with
  | onward =>
    obtain ⟨_, t', run, holds⟩ := followed
    exact ⟨rfl, t', run, grown.holds holds⟩
  | returned r => exact followed

theorem close {back : List Instruction} (followed : flow.Followed I link code t after found s)
    (idle : ∀ t : Memory Nat ρ W, Does I link back (t.on []) (.through (t.on []))) :
    flow.Followed I link (code ++ back) t after found s := by
  cases flow with
  | onward =>
    obtain ⟨same, t', run, holds⟩ := followed
    exact ⟨same, t', run.append (idle t'), holds⟩
  | returned r => exact followed.early

end Flow.Followed

mutual

-- The recursion is on the run and not on the statement: a loop that goes round is run again.
theorem Stmt.emitsFollows (links : p.Links final className link) :
    ∀ {env found : Bindings} {s s' : Memory NodeId ρ W} {x : Stmt NodeId} {flow : Flow ρ},
      Stmt.Executes I p env s x flow found s' →
    ∀ {returns : DataType} {id n n' : Nat} {after : Bindings} {t : Memory Nat ρ W}
      {code : List Instruction}, Stmt.Sited final returns id env x after → env.Framed p →
      env.Holds s t → x.Emits final className id n code n' →
        flow.Followed I link code t after found s'
  | _, _, _, _, _, _, .expr evaluated, _, _, _, _, _, _, _, .expr value recorded, framed, holds,
      .expr emits => by
    obtain ⟨t', run, held⟩ := value.drops links framed recorded emits holds evaluated
    exact ⟨rfl, t', run, held⟩
  | _, _, _, _, _, _, .declare declared, _, _, _, _, _, _, _, .declare sited, framed, holds,
      .declare emits => sited.runs links framed emits holds declared
  | _, _, _, _, _, _, .ret evaluated, _, _, _, _, _, _, _, .ret value recorded, framed, holds,
      .ret emits known => by
    obtain rfl := Analysis.typeOfNoted known recorded
    obtain ⟨t', run, held⟩ := value.runs links framed emits holds evaluated
    have last := run.append (returnDoes (value.shape links evaluated) t')
    rw [held.world] at last
    exact last
  | _, _, _, _, _, _, .leave, _, _, _, _, _, t, _, .leave recorded, framed, holds, .leave known => by
    obtain rfl := Analysis.typeOfNoted known recorded
    have last : Does I link [.ret (ValueKind.of? .void)] (t.on []) (.returned none t.world) := .stop rfl
    rw [holds.world] at last
    exact last
  | _, _, _, _, _, _, .block inside, _, _, _, _, _, _, _, .block scope sited, framed, holds,
      .block bound emits => by
    obtain rfl := Analysis.scopeOfBound bound scope
    exact (Stmt.emitAllFollows links inside sited framed holds emits).leave sited.grown
  | _, _, _, _, _, _, .ifTrue condition truth inside, _, _, _, _, _, _, _, .ifThen scope tested sited,
      framed, holds, emits => by
    obtain ⟨m, test, code, emitsCond, emitsYes, rfl⟩ := Stmt.emitsIfThen scope emits
    obtain ⟨t₁, front, held⟩ := tested.passes links framed emitsCond holds condition truth ⟨m⟩
    have body := (Stmt.emitsFollows links inside sited framed held emitsYes).leave sited.grown
    exact (body.lift fun exit run => front.append run).close fun t => .one rfl
  | _, _, _, _, _, _, .ifFalse condition, _, _, _, _, _, _, _, .ifThen scope tested sited, framed,
      holds, emits => by
    obtain ⟨m, test, code, emitsCond, _, rfl⟩ := Stmt.emitsIfThen scope emits
    obtain ⟨t₁, held, skip⟩ := tested.skips links framed emitsCond holds condition ⟨m⟩
    have run := skip code [] _ .nil
    simp only [← List.append_assoc, List.append_nil] at run
    exact ⟨rfl, t₁, run, held⟩
  | _, _, _, _, _, _, .elseTrue condition truth inside, _, _, _, _, _, _, _,
      .ifElse scope tested sited beside _, framed, holds, emits => by
    obtain ⟨m, k, test, code, rest, emitsCond, emitsYes, _, rfl⟩ := Stmt.emitsIfElse scope beside emits
    obtain ⟨t₁, front, held⟩ := tested.passes links framed emitsCond holds condition truth ⟨m⟩
    have body := (Stmt.emitsFollows links inside sited framed held emitsYes).leave sited.grown
    have past (t : Memory Nat ρ W) : Does I link
        ([.goto ⟨k⟩] ++ ([.label ⟨m⟩] ++ rest) ++ [.label ⟨k⟩] ++ []) (t.on []) (.through (t.on [])) :=
      .jump _ rfl .nil
    simpa using (body.lift fun exit run => front.append run).close past
  | _, _, _, _, _, _, .elseFalse condition inside, _, _, _, _, _, _, _,
      .ifElse scope tested _ beside sited, framed, holds, emits => by
    obtain ⟨m, k, test, code, rest, emitsCond, _, emitsNo, rfl⟩ := Stmt.emitsIfElse scope beside emits
    obtain ⟨t₁, held, skip⟩ := tested.skips links framed emitsCond holds condition ⟨m⟩
    have body := (Stmt.emitsFollows links inside sited framed held emitsNo).leave sited.grown
    have last (t : Memory Nat ρ W) : Does I link [.label ⟨k⟩] (t.on []) (.through (t.on [])) := .one rfl
    have whole := (body.close last).lift (skip (code ++ [.goto ⟨k⟩]) _)
    simp only [List.append_assoc, List.cons_append, List.nil_append] at whole ⊢
    exact whole
  | _, _, _, _, _, _, .loopEnds condition, _, _, n, _, _, t, _, .loop scope tested sited, framed, holds,
      emits => by
    obtain ⟨m, test, code, emitsCond, _, rfl⟩ := Stmt.emitsLoop scope emits
    obtain ⟨t₁, held, skip⟩ := tested.skips links framed emitsCond holds condition ⟨n + 1⟩
    have run : Does I link ([.label ⟨n⟩] ++ _) (t.on []) _ :=
      .append (.one rfl) (skip (code ++ [.goto ⟨n⟩]) [] _ .nil)
    exact ⟨rfl, t₁, by simpa using run, held⟩
  | _, _, _, _, _, _, .loopReturns condition truth inside, _, _, n, _, _, t, _, .loop scope tested sited,
      framed, holds, emits => by
    obtain ⟨m, test, code, emitsCond, emitsBody, rfl⟩ := Stmt.emitsLoop scope emits
    obtain ⟨t₁, front, held⟩ := tested.passes links framed emitsCond holds condition truth ⟨n + 1⟩
    have body := Stmt.emitsFollows links inside sited framed held emitsBody
    have run : Does I link ([.label ⟨n⟩] ++ _) (t.on []) _ := .append (.one rfl) (front.append body)
    exact run.early
  | _, _, _, _, _, _, .loopAgain condition truth inside again, _, _, n, _, _, t, _,
      .loop scope tested sited, framed, holds, emits => by
    obtain ⟨m, test, code, emitsCond, emitsBody, rfl⟩ := Stmt.emitsLoop scope emits
    obtain ⟨t₁, front, held⟩ := tested.passes links framed emitsCond holds condition truth ⟨n + 1⟩
    obtain ⟨_, t₂, body, after⟩ := Stmt.emitsFollows links inside sited framed held emitsBody
    have rest := Stmt.emitsFollows links again (.loop scope tested sited) framed
      (sited.grown.holds after) emits
    refine rest.lift fun exit run => ?_
    have more : Does I link ([.label ⟨n⟩] ++ (test ++ [.branch .eq ⟨n + 1⟩] ++ code) ++ [.goto ⟨n⟩] ++
        [.label ⟨n + 1⟩]) (t.on []) exit := .again (front.append body) (by simpa using run)
    simpa using more

theorem Stmt.emitAllFollows (links : p.Links final className link) :
    ∀ {env found : Bindings} {s s' : Memory NodeId ρ W} {ss : List (Stmt NodeId)} {flow : Flow ρ},
      Stmt.ExecuteAll I p env s ss flow found s' →
    ∀ {returns : DataType} {id n n' : Nat} {after : Bindings} {t : Memory Nat ρ W}
      {code : List Instruction}, Stmt.AllSited final returns id env ss after → env.Framed p →
      env.Holds s t → Stmt.EmitAll final className ss id n code n' →
        flow.Followed I link code t after found s'
  | _, _, _, _, _, _, .nil, _, _, _, _, _, t, _, .nil, _, holds, .nil => ⟨rfl, t, .nil, holds⟩
  | _, _, _, _, _, _, .returned first, _, _, _, _, _, _, _, .cons sited _, framed, holds, .cons one _ =>
    Does.early (Stmt.emitsFollows links first sited framed holds one)
  | _, _, _, _, _, _, .cons first rest, _, _, _, _, _, _, _, .cons sited later, framed, holds,
      .cons one more => by
    obtain ⟨rfl, t₁, run, held⟩ := Stmt.emitsFollows links first sited framed holds one
    exact (Stmt.emitAllFollows links rest later (sited.grown.framed framed) held more).lift
      fun exit behind => run.append behind

end
end
end ClassCompiler
