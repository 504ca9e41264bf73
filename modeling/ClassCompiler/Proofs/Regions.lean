import ClassCompiler.Numbering
import ClassCompiler.Proofs.Gathering
import ClassCompiler.Proofs.Openers

/-! The scope tree as a picture of the text. A region is a part of a program that has variables of its
own, and the first walk makes one scope for each region, in the order in which the regions stand in
the text. The scope says what the text says: which scope is around it, where its variables were
declared last and how often, and whether it returns. -/
namespace ClassCompiler

/-- The node that opens a region and the node that opens the region around it, the variables that are
declared directly in the region, in the order of the text, and whether it returns directly. -/
structure Region (τ : Type) where
  node : τ
  outer : Option τ
  declared : List (String × τ)
  returns : Bool
  deriving DecidableEq, Repr

section
variable {τ : Type}

def Stmt.declared : Stmt τ → List (String × τ)
  | .declare _ _ vars _ => vars.map fun d => (d.name, d.tag)
  | _ => []

def Region.ofStmts (n outer : τ) (body : List (Stmt τ)) : Region τ :=
  ⟨n, some outer, body.flatMap Stmt.declared, body.any Stmt.isReturn⟩

mutual

/-- The regions of a statement in pre-order. An else clause stands beside its conditional. -/
def Stmt.regions : Stmt τ → τ → List (Region τ)
  | .expr .., _ | .declare .., _ | .ret .., _ => []
  | .block n body _, outer => .ofStmts n outer body :: Stmt.regionsAll body n
  | .ifThen n _ yes _, outer => .ofStmts n outer [yes] :: yes.regions n
  | .ifElse n _ yes m no _, outer =>
    .ofStmts n outer [yes] :: (yes.regions n ++ .ofStmts m outer [no] :: no.regions m)
  | .loop n _ body _, outer => .ofStmts n outer [body] :: body.regions n

def Stmt.regionsAll : List (Stmt τ) → τ → List (Region τ)
  | [], _ => []
  | s :: rest, outer => s.regions outer ++ Stmt.regionsAll rest outer

end

def Method.regions (m : Method τ) (outer : τ) : List (Region τ) :=
  ⟨m.tag, some outer, m.params.map fun param => (param.name, param.tag), false⟩ ::
    .ofStmts m.body.tag m.tag m.body.stmts :: Stmt.regionsAll m.body.stmts m.body.tag

def Program.regions (p : Program τ) : List (Region τ) :=
  ⟨p.tag, none, [(selfName, p.tag)], false⟩ :: p.methods.flatMap fun m => m.regions p.tag

mutual

theorem Stmt.regionNodes : ∀ (s : Stmt τ) (outer : τ),
    (s.regions outer).map Region.node = openers s.nodes
  | .expr .., _ | .declare .., _ | .ret .., _ => by
    simp [Stmt.regions, Stmt.nodes, NodeKind.opensScope]
  | .block n body _, _ => by
    simp [Stmt.regions, Stmt.nodes, NodeKind.opensScope, Region.ofStmts, Stmt.regionNodesAll body]
  | .ifThen n _ yes _, _ => by
    simp [Stmt.regions, Stmt.nodes, NodeKind.opensScope, Region.ofStmts, yes.regionNodes]
  | .ifElse n _ yes m no _, _ => by
    simp [Stmt.regions, Stmt.nodes, NodeKind.opensScope, Region.ofStmts, yes.regionNodes,
      no.regionNodes]
  | .loop n _ body _, _ => by
    simp [Stmt.regions, Stmt.nodes, NodeKind.opensScope, Region.ofStmts, body.regionNodes]

theorem Stmt.regionNodesAll : ∀ (ss : List (Stmt τ)) (outer : τ),
    (Stmt.regionsAll ss outer).map Region.node = openers (Stmt.nodesAll ss)
  | [], _ => rfl
  | s :: rest, _ => by
    simp [Stmt.regionsAll, Stmt.nodesAll, s.regionNodes, Stmt.regionNodesAll rest]

end

theorem Method.regionNodes (m : Method τ) (outer : τ) :
    (m.regions outer).map Region.node = openers m.nodes := by
  simp [Method.regions, Method.nodes, Block.nodes, NodeKind.opensScope, Region.ofStmts,
    Stmt.regionNodesAll]

theorem Program.regionNodes (p : Program τ) : p.regions.map Region.node = openers p.nodes := by
  have methods (ms : List (Method τ)) : (ms.flatMap fun m => m.regions p.tag).map Region.node =
      openers (ms.flatMap Method.nodes) := by
    induction ms with
    | nil => rfl
    | cons m rest ih => simp [ih, m.regionNodes]
  simp [Program.regions, Program.nodes, NodeKind.opensScope, methods]

theorem Stmt.declaredNames (s : Stmt τ) : s.declared.map Prod.fst = s.names := by
  cases s <;> simp [Stmt.declared, Stmt.names]

theorem Stmt.declaredAllNames (ss : List (Stmt τ)) :
    (ss.flatMap Stmt.declared).map Prod.fst = ss.flatMap Stmt.names := by
  induction ss with
  | nil => rfl
  | cons s rest ih => simp [ih, s.declaredNames]

end

def Symbol.declaredAt? : Symbol → Option NodeId
  | .var v => some v.declaredAt
  | .method _ => none

namespace Region

structure Describes (r : Region NodeId) (a : Analysis) (s : Scope) : Prop where
  outermost : r.outer = none → s.parent = none
  around : ∀ n, r.outer = some n → ∃ id, a.scopeIds.get? n = some id ∧ s.parent = some id
  symbols : ∀ x, (s.symbols.get? x).bind Symbol.declaredAt? = r.declared.reverse.lookup x
  count : ∀ x, s.declarationCount x = (r.declared.map Prod.fst).count x
  returns : s.hasReturn = r.returns

end Region

namespace Analysis

def declaredAt? (a : Analysis) (id : Nat) (x : String) : Option NodeId :=
  (a.scopes.symbol? id x).bind Symbol.declaredAt?

/-- From `a` to `b` the scope gets these variables, and each name stands at its last declaration. -/
def Latest (id : Nat) (declared : List (String × NodeId)) (a b : Analysis) : Prop :=
  ∀ x, b.declaredAt? id x = (declared.reverse.lookup x).or (a.declaredAt? id x)

namespace Latest
variable {id : Nat} {a b c : Analysis}

theorem same (scopes : b.scopes = a.scopes) : a.Latest id [] b := by
  intro x
  simp [declaredAt?, scopes]

theorem trans {first second : List (String × NodeId)} (left : a.Latest id first b)
    (right : b.Latest id second c) : a.Latest id (first ++ second) c := by
  intro x
  rw [right x, left x, List.reverse_append, List.lookup_append, Option.or_assoc]

theorem quiet {fresh passed : List NodeId} {returned : Bool} {used : List String}
    (walks : a.Walks id fresh passed b) (gathers : a.Gathers id [] returned used b)
    (inside : id < a.scopes.size) : a.Latest id [] b := by
  intro x
  -- A name that the scope does not count again can only have become that of a method.
  have still := gathers.count x
  simp only [List.count_nil, Nat.add_zero] at still
  simp only [List.reverse_nil, List.lookup_nil, Option.none_or, declaredAt?, ScopeTree.symbol?]
  rcases (walks.scope id inside).symbol x with kept | ⟨_, _, _, more⟩ | ⟨absent, m, planted⟩
  · rw [kept]
  · omega
  · simp [absent, planted, Symbol.declaredAt?]

theorem declareVariable (inside : id < a.scopes.size) (name : String) (type : Option DataType)
    (initialized : Bool) (node : NodeId) :
    a.Latest id [(name, node)] (a.mapScopes fun t =>
      t.declareVariable id name type initialized node) := by
  intro x
  simp only [declaredAt?, mapScopes, ScopeTree.declaredSymbol, inside, true_and]
  by_cases here : name = x
  · simp [here, Symbol.declaredAt?]
  · have away : (x == name) = false := by simpa using fun same => here same.symm
    simp [here, away, List.lookup_cons]

end Latest
end Analysis

open Analysis (Latest)

theorem Declarator.annotateLatest (type : Option DataType) {id : Nat} (d : Declarator NodeId)
    {a : Analysis} (inside : id < a.scopes.size) :
    a.Latest id [(d.name, d.tag)] (d.annotate type id a) := by
  unfold Declarator.annotate
  split
  · rename_i e given
    have within : id < ((e.annotate id a).2.pop id 1).scopes.size := by
      simpa [Expr.annotateSize] using inside
    have walked : a.Latest id [] ((e.annotate id a).2.pop id 1) :=
      .quiet (e.conditionWalks id a) (e.conditionGathers id a) inside
    exact (walked.trans (.declareVariable within d.name (type.or (e.annotate id a).1) true
      d.tag)).trans (.same (Analysis.setTypeScopes ..))
  · exact (Latest.declareVariable inside d.name type false d.tag).trans
      (.same (Analysis.setTypeScopes ..))

theorem Declarator.annotateAllLatest (type : Option DataType) {id : Nat}
    (ds : List (Declarator NodeId)) {a : Analysis} (inside : id < a.scopes.size) :
    a.Latest id (ds.map fun d => (d.name, d.tag)) (Declarator.annotateAll type id ds a) := by
  induction ds generalizing a with
  | nil => exact .same rfl
  | cons d rest ih =>
    have size := Declarator.annotateSize type id d a
    exact (d.annotateLatest type inside).trans (ih (show id < _ from size ▸ inside))

theorem Param.annotateAllLatest {id : Nat} (ps : List (Param NodeId)) {a : Analysis}
    (inside : id < a.scopes.size) :
    a.Latest id (ps.map fun param => (param.name, param.tag)) (Param.annotateAll id ps a) := by
  induction ps generalizing a with
  | nil => exact .same rfl
  | cons param rest ih =>
    have within : id < (a.mapScopes fun t =>
        t.declareVariable id param.name (some param.type) true param.tag).scopes.size := by
      simpa [Analysis.mapScopes, ScopeTree.declareVariable] using inside
    exact (Latest.declareVariable inside param.name (some param.type) true param.tag).trans
      (ih within)

theorem Stmt.annotateLatest (s : Stmt NodeId) {id : Nat} {a : Analysis}
    (inside : id < a.scopes.size) : a.Latest id s.declared (s.annotate id a) := by
  have walks := s.annotateWalks id a inside
  have gathers := s.annotateGathers inside
  cases s with
  | declare n type vars span => exact Declarator.annotateAllLatest type vars inside
  | _ => exact .quiet walks gathers inside

theorem Stmt.annotateAllLatest (ss : List (Stmt NodeId)) {id : Nat} {a : Analysis}
    (inside : id < a.scopes.size) :
    a.Latest id (ss.flatMap Stmt.declared) (Stmt.annotateAll ss id a) := by
  induction ss generalizing a with
  | nil => exact .same rfl
  | cons s rest ih =>
    have later := Nat.lt_of_lt_of_le inside (s.annotateWalks id a inside).size
    simpa [Stmt.annotateAll] using (s.annotateLatest inside).trans (ih later)

theorem Analysis.Inner.describes {F a b : Analysis} {id : Nat} {n outer : NodeId}
    {declared : List (String × NodeId)} {names : List String} {returned : Bool} {nodes : List NodeId}
    (inner : F.Inner id a.scopes.size names returned nodes)
    (closed : F.scopes.scope a.scopes.size = b.scopes.scope a.scopes.size)
    (latest : (a.entered id n).Latest a.scopes.size declared b)
    (named : declared.map Prod.fst = names) (around : F.scopeIds.get? outer = some id) :
    Region.Describes ⟨n, some outer, declared, returned⟩ F (F.scopes.scope a.scopes.size) where
  outermost none := by contradiction
  around m same := by
    obtain rfl := Option.some.inj same
    exact ⟨id, around, inner.parent⟩
  symbols x := by
    have last := latest x
    simp only [declaredAt?, ScopeTree.symbol?, ← closed, enteredNew] at last
    simpa using last
  count x := by rw [inner.count, named]
  returns := inner.returns

namespace Analysis

def Lists (F : Analysis) : Nat → List (Region NodeId) → Prop
  | _, [] => True
  | id, r :: rest =>
    F.scopeIds.get? r.node = some id ∧ r.Describes F (F.scopes.scope id) ∧ F.Lists (id + 1) rest

theorem listsAppend {F : Analysis} {id : Nat} {first second : List (Region NodeId)} :
    F.Lists id (first ++ second) ↔ F.Lists id first ∧ F.Lists (id + first.length) second := by
  induction first generalizing id with
  | nil => simp [Lists]
  | cons r rest ih =>
    have next : id + 1 + rest.length = id + (rest.length + 1) := by omega
    simp only [List.cons_append, Lists, ih, List.length_cons, next, and_assoc]

theorem Lists.get {F : Analysis} {id k : Nat} {rs : List (Region NodeId)} {r : Region NodeId}
    (lists : F.Lists id rs) (found : rs[k]? = some r) :
    F.scopeIds.get? r.node = some (id + k) ∧ r.Describes F (F.scopes.scope (id + k)) := by
  induction rs generalizing id k with
  | nil => simp at found
  | cons first rest ih =>
    cases k with
    | zero =>
      obtain rfl : first = r := by simpa using found
      exact ⟨lists.1, lists.2.1⟩
    | succ k =>
      have next : id + (k + 1) = id + 1 + k := by omega
      rw [next]
      exact ih lists.2.2 (by simpa using found)

end Analysis

mutual

theorem Stmt.annotateRegions : ∀ (s : Stmt NodeId) (outer : NodeId) (id : Nat) (a : Analysis),
    (s.annotate id a).scopes.size = a.scopes.size + (s.regions outer).length
  | .expr n e _, _, id, a => e.droppedSize id n a
  | .declare _ type vars _, _, id, a => by
    simp only [Stmt.annotate, Stmt.regions, List.length_nil, Nat.add_zero]
    induction vars generalizing a with
    | nil => rfl
    | cons d rest ih => rw [Declarator.annotateAll, ih, Declarator.annotateSize]
  | .ret _ (some e) _, _, id, a => by
    simp [Stmt.annotate, Stmt.regions, Analysis.mapScopes, ScopeTree.markReturn, Expr.annotateSize]
  | .ret _ none _, _, id, a => by
    simp [Stmt.annotate, Stmt.regions, Analysis.mapScopes, ScopeTree.markReturn]
  | .block n body _, _, id, a => by
    rw [Stmt.annotate, Analysis.inScopeSize, Stmt.annotateAllRegions body n, Analysis.enteredSize,
      Stmt.regions, List.length_cons]
    omega
  | .ifThen n cond yes _, _, id, a => by
    rw [Stmt.annotate, Analysis.inScopeSize, yes.annotateRegions n, Analysis.popSize,
      Expr.annotateSize, Analysis.enteredSize, Stmt.regions, List.length_cons]
    omega
  | .ifElse n cond yes m no _, _, id, a => by
    rw [Stmt.annotate, Analysis.inScopeSize, no.annotateRegions m, Analysis.enteredSize,
      Analysis.inScopeSize, yes.annotateRegions n, Analysis.popSize, Expr.annotateSize,
      Analysis.enteredSize, Stmt.regions, List.length_cons, List.length_append, List.length_cons]
    omega
  | .loop n cond body _, _, id, a => by
    rw [Stmt.annotate, Analysis.inScopeSize, body.annotateRegions n, Analysis.popSize,
      Expr.annotateSize, Analysis.enteredSize, Stmt.regions, List.length_cons]
    omega

theorem Stmt.annotateAllRegions : ∀ (ss : List (Stmt NodeId)) (outer : NodeId) (id : Nat)
    (a : Analysis),
    (Stmt.annotateAll ss id a).scopes.size = a.scopes.size + (Stmt.regionsAll ss outer).length
  | [], _, id, a => rfl
  | s :: rest, outer, id, a => by
    rw [Stmt.annotateAll, Stmt.annotateAllRegions rest outer, s.annotateRegions outer,
      Stmt.regionsAll, List.length_append, Nat.add_assoc]

end

section
variable {F : Analysis}

theorem Stmt.conditionalLists {a : Analysis} {id : Nat} {n outer : NodeId} {cond : Expr NodeId}
    {body : Stmt NodeId} (bound : F.scopeIds.get? n = some a.scopes.size)
    (around : F.scopeIds.get? outer = some id)
    (closed : F.scopes.scope a.scopes.size =
      (body.annotate a.scopes.size ((cond.annotate a.scopes.size (a.entered id n)).2.pop
        a.scopes.size 1)).scopes.scope a.scopes.size)
    (rest : F.Lists ((cond.annotate a.scopes.size (a.entered id n)).2.pop
      a.scopes.size 1).scopes.size (body.regions n)) :
    F.Lists a.scopes.size (.ofStmts n outer [body] :: body.regions n) := by
  have entered := a.enteredIn id n
  have first : (a.entered id n).Latest a.scopes.size []
      ((cond.annotate a.scopes.size (a.entered id n)).2.pop a.scopes.size 1) :=
    .quiet (cond.conditionWalks _ _) (cond.conditionGathers _ _) entered
  have within := Nat.lt_of_lt_of_le entered (cond.conditionWalks a.scopes.size (a.entered id n)).size
  have describes := (conditionalInner closed).describes closed
    (first.trans (body.annotateLatest within)) body.declaredNames around
  refine ⟨bound, by simpa [Region.ofStmts] using describes, ?_⟩
  simpa [Expr.annotateSize, Analysis.enteredSize] using rest

mutual

theorem Stmt.regionsList : ∀ (s : Stmt NodeId) {kept : List NodeId} {id : Nat} {outer : NodeId}
    {a : Analysis}, s.Run F kept id a → F.scopeIds.get? outer = some id →
      F.Lists a.scopes.size (s.regions outer)
  | .expr .., _, _, _, _, _, _ => trivial
  | .declare .., _, _, _, _, _, _ => trivial
  | .ret .., _, _, _, _, _, _ => trivial
  | .block n body _, kept, id, outer, a, run, around => by
    obtain ⟨bound, inner⟩ := run.block
    have rest := Stmt.regionsAllList body inner bound
    rw [Analysis.enteredSize] at rest
    exact ⟨bound, run.blockInner.describes run.blockClosed
      (Stmt.annotateAllLatest body (a.enteredIn id n)) (Stmt.declaredAllNames body) around, rest⟩
  | .ifThen n cond yes _, kept, id, outer, a, run, around => by
    obtain ⟨bound, _, inner⟩ := run.ifThen
    exact Stmt.conditionalLists bound around (Stmt.conditionalClosed run.closed run.inside)
      (yes.regionsList inner bound)
  | .ifElse n cond yes m no span, kept, id, outer, a, run, around => by
    obtain ⟨first, still, beside, otherwise⟩ := run.ifElse
    obtain ⟨bound, _, inner⟩ := first.ifThen
    have before := Stmt.conditionalLists bound around
      (Stmt.conditionalClosed first.closed first.inside) (yes.regionsList inner bound)
    have rest := no.regionsList otherwise beside
    have entered := ((Stmt.ifThen n cond yes span).annotate id a).enteredIn id m
    have describes := run.elseInner.describes run.elseClosed (no.annotateLatest entered)
      no.declaredNames around
    have size := (Stmt.ifThen n cond yes span).annotateRegions outer id a
    rw [Analysis.enteredSize] at rest
    rw [size] at beside rest describes
    have after : F.Lists (a.scopes.size + ((Stmt.ifThen n cond yes span).regions outer).length)
        (.ofStmts m outer [no] :: no.regions m) :=
      ⟨beside, by simpa [Region.ofStmts] using describes, rest⟩
    exact Analysis.listsAppend.mpr ⟨before, after⟩
  | .loop n cond body _, kept, id, outer, a, run, around => by
    obtain ⟨bound, _, inner⟩ := run.loop
    exact Stmt.conditionalLists bound around (Stmt.conditionalClosed run.closed run.inside)
      (body.regionsList inner bound)

theorem Stmt.regionsAllList : ∀ (ss : List (Stmt NodeId)) {kept : List NodeId} {id : Nat}
    {outer : NodeId} {a : Analysis}, Stmt.RunAll F kept id ss a → F.scopeIds.get? outer = some id →
      F.Lists a.scopes.size (Stmt.regionsAll ss outer)
  | [], _, _, _, _, _, _ => trivial
  | s :: rest, kept, id, outer, a, run, around => by
    obtain ⟨first, others⟩ := run.cons
    have later := Stmt.regionsAllList rest others around
    rw [s.annotateRegions outer] at later
    exact Analysis.listsAppend.mpr ⟨s.regionsList first around, later⟩

end

namespace Method
variable {a : Analysis} {kept : List NodeId} {outer : NodeId}

theorem openedSize (m : Method NodeId) (a : Analysis) :
    (opened a m).scopes.size = a.scopes.size + 1 := by
  have params (ps : List (Param NodeId)) (b : Analysis) :
      (Param.annotateAll a.scopes.size ps b).scopes.size = b.scopes.size := by
    induction ps generalizing b with
    | nil => rfl
    | cons param rest ih =>
      rw [Param.annotateAll, ih]
      simp [Analysis.mapScopes, ScopeTree.declareVariable]
  rw [opened, params, Analysis.enteredSize]

theorem annotateRegions (m : Method NodeId) (outer : NodeId) (a : Analysis) :
    (m.annotate a).scopes.size = a.scopes.size + (m.regions outer).length := by
  rw [m.annotateSize, Stmt.annotateAllRegions m.body.stmts m.body.tag, Analysis.enteredSize,
    openedSize, regions, List.length_cons, List.length_cons]
  omega

theorem Run.regionsList {m : Method NodeId} (run : m.Run F kept a)
    (around : F.scopeIds.get? outer = some ScopeTree.root) :
    F.Lists a.scopes.size (m.regions outer) := by
  obtain ⟨bound, within, inside, body⟩ := run.body
  obtain ⟨outerInner, bodyInner⟩ := run.inner
  obtain ⟨outerClosed, bodyClosed⟩ := run.bothClosed
  have start := a.enteredIn ScopeTree.root m.tag
  have entered := (opened a m).enteredIn a.scopes.size m.body.tag
  have walks := Stmt.annotateAllWalks m.body.stmts _ _ entered
  have params : (a.entered ScopeTree.root m.tag).Latest a.scopes.size
      (m.params.map fun param => (param.name, param.tag)) (opened a m) :=
    Param.annotateAllLatest m.params start
  have behind : (opened a m).Latest a.scopes.size [] (m.body.annotate a.scopes.size (opened a m)) :=
    .quiet ((opened a m).inScopeWalks (fun inner a => Stmt.annotateAll m.body.stmts inner a) within
        walks)
      (.inScope (fun inner a => Stmt.annotateAll m.body.stmts inner a) within walks
        (Stmt.annotateAllGathers m.body.stmts entered)) within
  have whole := outerInner.describes outerClosed (params.trans behind) (by simp) around
  have describes := bodyInner.describes bodyClosed (Stmt.annotateAllLatest m.body.stmts entered)
    (Stmt.declaredAllNames m.body.stmts) bound
  have rest := Stmt.regionsAllList m.body.stmts body inside
  rw [Analysis.enteredSize] at rest
  rw [openedSize] at inside describes rest
  exact ⟨bound, by simpa using whole, inside, describes, rest⟩

theorem RunAll.regionsList {ms : List (Method NodeId)} (run : Method.RunAll F kept ms a)
    (around : F.scopeIds.get? outer = some ScopeTree.root) :
    F.Lists a.scopes.size (ms.flatMap fun m => m.regions outer) := by
  induction ms generalizing a kept with
  | nil => trivial
  | cons m rest ih =>
    obtain ⟨first, others⟩ := run.cons
    have later := ih others
    rw [m.annotateRegions outer] at later
    exact Analysis.listsAppend.mpr ⟨first.regionsList around, later⟩

end Method
end

namespace Program

theorem annotatedRegions (p : Program NodeId) : p.annotated.scopes.size = p.regions.length := by
  have methods (ms : List (Method NodeId)) (a : Analysis) :
      (Method.annotateAll ms a).scopes.size =
        a.scopes.size + (ms.flatMap fun m => m.regions p.tag).length := by
    induction ms generalizing a with
    | nil => rfl
    | cons m rest ih =>
      rw [Method.annotateAll, ih, m.annotateRegions, List.flatMap_cons, List.length_append,
        Nat.add_assoc]
  have start : p.begun.scopes.size = 1 := rfl
  rw [annotatedEq, methods, start, regions, List.length_cons]
  omega

theorem rootDescribed (p : Program NodeId) :
    Region.Describes ⟨p.tag, none, [(selfName, p.tag)], false⟩ p.annotated
      (p.annotated.scopes.scope ScopeTree.root) := by
  let fresh := (({} : Analysis).declareMethods p).bindScope p.tag ScopeTree.root
  have inside : ScopeTree.root < fresh.scopes.size := Nat.zero_lt_one
  have methods := Method.annotateAllGathers p.methods
    (show ScopeTree.root < p.begun.scopes.size from Nat.zero_lt_one)
  have gathers : fresh.Gathers ScopeTree.root [selfName] false _ p.annotated :=
    (Analysis.Gathers.declareVariable inside selfName (some .self) true p.tag).trans methods
  -- The walks over the methods declare nothing in the root scope.
  have latest : fresh.Latest ScopeTree.root [(selfName, p.tag)] p.annotated :=
    (Latest.declareVariable inside selfName (some .self) true p.tag).trans
      (.quiet p.annotatedWalks methods Nat.zero_lt_one)
  refine ⟨fun _ => (p.annotatedWalks.scope ScopeTree.root Nat.zero_lt_one).parent, by simp,
    fun x => (latest x).trans (Option.or_none ..), fun x => ?_, gathers.returns⟩
  have count := gathers.count x
  have none : (fresh.scopes.scope ScopeTree.root).declarationCount x = 0 := rfl
  rw [count, none, Nat.zero_add]
  rfl

theorem regionsList {p : Program NodeId} (unique : p.tags.Nodup) : p.annotated.Lists 0 p.regions :=
  ⟨p.annotatedBound unique, p.rootDescribed,
    (annotatedRuns unique).regionsList (p.annotatedBound unique)⟩

end Program

/-- The scopes of an analysis are the regions of a program, under the same numbers. -/
structure Analysis.Mirrors (a : Analysis) (p : Program NodeId) : Prop where
  size : a.scopes.size = p.regions.length
  bound : ∀ n id, a.scopeIds.get? n = some id ↔ ∃ r, p.regions[id]? = some r ∧ r.node = n
  scope : ∀ (id : Nat) (r : Region NodeId), p.regions[id]? = some r →
    r.Describes a (a.scopes.scope id)

namespace Program

theorem scopesMirror {p : Program NodeId} (unique : p.tags.Nodup) :
    p.regions.map Region.node = openers p.nodes ∧ p.annotated.Mirrors p := by
  have lists := regionsList unique
  refine ⟨p.regionNodes, p.annotatedRegions, fun n id => ⟨fun bound => ?_, ?_⟩, fun id r found => ?_⟩
  · -- No other node has a scope, and the region of the node stands where its scope does.
    rcases ((p.annotateOpens {}).binds n).mp ⟨id, bound⟩ with ⟨_, none⟩ | opener
    · simp at none
    · rw [← p.regionNodes] at opener
      obtain ⟨r, member, rfl⟩ := List.mem_map.mp opener
      obtain ⟨k, found⟩ := List.mem_iff_getElem?.mp member
      have known := (lists.get found).1
      rw [Nat.zero_add] at known
      obtain rfl := Option.some.inj (bound.symm.trans known)
      exact ⟨r, found, rfl⟩
  · rintro ⟨r, found, rfl⟩
    simpa using (lists.get found).1
  · simpa using (lists.get found).2

def redeclared : Program NodeId :=
  let x : Declarator Unit := ⟨(), "x", none, {}⟩
  let int (vars : List (Declarator Unit)) : Stmt Unit := .declare () (some .int) vars {}
  let b : Expr Unit := .var () "b" {}
  let again : Stmt Unit := .ret () (some (.call () "Again" [b] {})) {}
  let body : List (Stmt Unit) :=
    [int [x], .ifElse () b (int [x, x]) () (.block () [again] {}) {}, .loop () b again {}, int [x]]
  (Program.number ⟨(), [⟨(), "Again", none, [⟨(), .bool, "b", {}⟩, ⟨(), .int, "x", {}⟩], ⟨(), body, {}⟩,
    {}⟩]⟩ 0).1

theorem redeclaredMirrored :
    redeclared.regions.map (fun r => (r.node.index, r.outer.map NodeId.index, r.declared.length)) =
        [(23, none, 1), (22, some 23, 2), (21, some 22, 2), (13, some 21, 2), (12, some 21, 0),
          (11, some 12, 0), (18, some 21, 0)] ∧
      redeclared.regions.map Region.node = openers redeclared.nodes ∧
      redeclared.annotated.Mirrors redeclared :=
  ⟨by decide +kernel, scopesMirror (by decide +kernel)⟩

end Program
end ClassCompiler
