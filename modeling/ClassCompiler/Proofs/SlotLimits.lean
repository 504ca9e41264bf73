import ClassCompiler.Proofs.CallLinks
import ClassCompiler.Proofs.RuleDecision
import ClassCompiler.Proofs.SlotDensity

/-! The locals of a method. Its parameters stand in the slots behind the object, and the limit that the
analysis hands to the code is the number of slots that are in use, so every instruction keeps below it
and no slot is wasted. -/
namespace ClassCompiler

section
variable {τ : Type}

theorem Stmt.tagsBlock (n : τ) (body : List (Stmt τ)) (span : Span) :
    (Stmt.block n body span).tags = n :: Stmt.tagsAll body := by
  simp [Stmt.tags, Stmt.nodes, Stmt.tagsAll]

theorem Stmt.tagsIfThen (n : τ) (cond : Expr τ) (yes : Stmt τ) (span : Span) :
    (Stmt.ifThen n cond yes span).tags = n :: (cond.tags ++ yes.tags) := by
  simp [Stmt.tags, Stmt.nodes, Expr.tags]

theorem Stmt.tagsIfElse (n : τ) (cond : Expr τ) (yes : Stmt τ) (m : τ) (no : Stmt τ) (span : Span) :
    (Stmt.ifElse n cond yes m no span).tags = n :: (cond.tags ++ yes.tags ++ m :: no.tags) := by
  simp [Stmt.tags, Stmt.nodes, Expr.tags]

theorem Stmt.tagsLoop (n : τ) (cond : Expr τ) (body : Stmt τ) (span : Span) :
    (Stmt.loop n cond body span).tags = n :: (cond.tags ++ body.tags) := by
  simp [Stmt.tags, Stmt.nodes, Expr.tags]

theorem Stmt.tagsAllCons (s : Stmt τ) (rest : List (Stmt τ)) :
    Stmt.tagsAll (s :: rest) = s.tags ++ Stmt.tagsAll rest := by
  simp [Stmt.tags, Stmt.tagsAll, Stmt.nodesAll]

end

theorem Param.annotateAllOther (id i : Nat) {ps : List (Param NodeId)} {a : Analysis} {x : String}
    (other : x ∉ ps.map Param.name) :
    (Param.annotateAll id ps a).scopes.symbol? i x = a.scopes.symbol? i x := by
  induction ps generalizing a with
  | nil => rfl
  | cons param rest ih =>
    rw [List.map_cons, List.mem_cons, not_or] at other
    rw [Param.annotateAll, ih other.2]
    exact (ScopeTree.declaredSymbol ..).trans (if_neg fun all => other.1 all.2.2.symm)

structure Param.Placed (id : Nat) (ps : List (Param NodeId)) (a : Analysis) : Prop where
  distinct : (ps.map Param.name).Nodup
  tidy : a.Tidy
  inside : id < a.scopes.size
  absent : ∀ param ∈ ps, a.scopes.symbol? id param.name = none
  dense : a.scopes.Dense id
  exact : a.localLimit id = a.scopes.visibleVariableCount id

namespace Param.Placed
variable {id : Nat} {a : Analysis} {param : Param NodeId} {ps : List (Param NodeId)}

theorem tail (placed : Param.Placed id (param :: ps) a) : Param.Placed id ps
    (a.mapScopes fun t => t.declareVariable id param.name (some param.type) true param.tag) := by
  have missing := placed.absent param (List.mem_cons_self ..)
  have walks := Analysis.Walks.declareVariable a id param.name (some param.type) true param.tag
  have count := ScopeTree.visibleDeclare placed.tidy.ordered placed.inside missing (some param.type) true
    param.tag
  obtain ⟨apart, others⟩ := List.nodup_cons.mp placed.distinct
  refine ⟨others, walks.tidy placed.tidy, Nat.lt_of_lt_of_le placed.inside walks.size, ?_,
    placed.dense.declare placed.tidy.ordered placed.inside missing _ _ _, ?_⟩
  · intro other member
    refine (ScopeTree.declaredSymbol ..).trans ((if_neg fun all => ?_).trans
      (placed.absent other (List.mem_cons_of_mem _ member)))
    exact apart (all.2.2 ▸ List.mem_map_of_mem member)
  · have raised : (a.mapScopes fun t => t.declareVariable id param.name (some param.type) true
        param.tag).localLimit id = max (a.localLimit id) (a.scopes.visibleVariableCount id + 1) := by
      simp only [Analysis.localLimit, Analysis.mapScopes, ScopeTree.declareVariable,
        ScopeTree.scopeModify, placed.inside, and_self, if_true, Scope.declareVariable,
        ScopeTree.nextSlot]
    rw [raised, placed.exact, Analysis.mapScopes, count]
    omega

theorem head (placed : Param.Placed id (param :: ps) a) :
    (Param.annotateAll id (param :: ps) a).scopes.symbol? id param.name =
      some (.var ⟨some param.type, a.scopes.visibleVariableCount id, true, param.tag⟩) := by
  obtain ⟨apart, _⟩ := List.nodup_cons.mp placed.distinct
  rw [Param.annotateAll, Param.annotateAllOther id id apart]
  exact (ScopeTree.declaredSymbol ..).trans (if_pos ⟨rfl, placed.inside, rfl⟩)

theorem last (placed : Param.Placed id ps a) : Param.Placed id [] (Param.annotateAll id ps a) ∧
    (Param.annotateAll id ps a).scopes.visibleVariableCount id =
      a.scopes.visibleVariableCount id + ps.length := by
  induction ps generalizing a with
  | nil => exact ⟨placed, rfl⟩
  | cons param rest ih =>
    obtain ⟨all, count⟩ := ih placed.tail
    have one := ScopeTree.visibleDeclare placed.tidy.ordered placed.inside
      (placed.absent param (List.mem_cons_self ..)) (some param.type) true param.tag
    refine ⟨all, ?_⟩
    rw [Param.annotateAll, count, Analysis.mapScopes, one, List.length_cons]
    omega

theorem slot (placed : Param.Placed id ps a) {i : Nat} (found : ps[i]? = some param) :
    (Param.annotateAll id ps a).scopes.symbol? id param.name =
      some (.var ⟨some param.type, a.scopes.visibleVariableCount id + i, true, param.tag⟩) := by
  induction ps generalizing a i with
  | nil => contradiction
  | cons first rest ih =>
    cases i with
    | zero =>
      cases found
      exact placed.head
    | succ i =>
      have one := ScopeTree.visibleDeclare placed.tidy.ordered placed.inside
        (placed.absent first (List.mem_cons_self ..)) (some first.type) true first.tag
      rw [Param.annotateAll, ih placed.tail found, Analysis.mapScopes, one, Nat.add_right_comm]
      rfl

theorem visits {F : Analysis} (placed : Param.Placed id ps a) (q : Progress)
    (kept : ∀ x, F.scopes.symbol? id x = (Param.annotateAll id ps a).scopes.symbol? id x) :
    ∀ v ∈ Param.visitsAll id id ps a q, v.Packed F := by
  induction ps generalizing a q with
  | nil => simp [Param.visitsAll]
  | cons param rest ih =>
    intro v member
    rcases List.mem_cons.mp member with rfl | later
    · refine ⟨placed.dense, fun x named => ?_⟩
      cases named
      exact ⟨fun type ready => placed.dense.declare placed.tidy.ordered placed.inside
        (placed.absent param (List.mem_cons_self ..)) type ready param.tag, _,
        (kept param.name).trans placed.head, rfl, rfl⟩
    · exact ih placed.tail _ kept v later

end Param.Placed

theorem ScopeTree.rootTop {t : ScopeTree} (ordered : t.Ordered) : (t.scope root).parent = none := by
  cases parent : (t.scope root).parent with
  | none => rfl
  | some out => exact absurd (ordered root out parent) (Nat.not_lt_zero out)

structure Analysis.Rooted (a : Analysis) : Prop where
  dense : a.scopes.Dense ScopeTree.root
  one : a.scopes.visibleVariableCount ScopeTree.root = 1

theorem Analysis.Rooted.leads {a b : Analysis} {passed : List NodeId} (rooted : a.Rooted)
    (leads : a.Leads [] passed b) (tidy : a.Tidy) (inside : ScopeTree.root < a.scopes.size) :
    b.Rooted where
  dense := rooted.dense.leads leads tidy inside
  one := (leads.visible tidy inside).trans rooted.one

theorem Program.begunRooted (p : Program NodeId) : p.begun.Rooted where
  dense := by
    have top : p.begun.scopes.ancestors ScopeTree.root = [ScopeTree.root] := rfl
    have object : p.begun.scopes.symbol? ScopeTree.root selfName =
        some (.var ⟨some .self, 0, true, p.tag⟩) := by
      rw [p.begunSymbol, if_pos ⟨rfl, rfl⟩]
    have only (x : String) (v : Variable)
        (found : p.begun.scopes.symbol? ScopeTree.root x = some (.var v)) :
        x = selfName ∧ v.slot = 0 := by
      rw [p.begunSymbol] at found
      split at found
      · rename_i here
        cases found
        exact ⟨here.2, rfl⟩
      · contradiction
    constructor
    · rw [top]
      intro i member x v found
      obtain rfl := List.mem_singleton.mp member
      rw [(only x v found).2]
      exact Nat.zero_lt_one
    · intro k low
      obtain rfl : k = 0 := Nat.lt_one_iff.mp low
      exact ⟨_, p.begun.scopes.ancestorsSelf _, _, _, object, rfl⟩
    · rw [top]
      intro i here j there x y v w first second _
      obtain rfl := List.mem_singleton.mp here
      obtain rfl := List.mem_singleton.mp there
      exact ⟨rfl, (only x v first).1.trans (only y w second).1.symm⟩
  one := rfl

namespace Method
variable {p : Program NodeId} {m : Method NodeId} {a F : Analysis} {kept : List NodeId}

theorem Run.placed (run : m.Run F kept a) (distinct : (m.params.map Param.name).Nodup)
    (rooted : a.Rooted) : Param.Placed a.scopes.size m.params (a.entered ScopeTree.root m.tag) where
  distinct := distinct
  tidy := (Analysis.Leads.entered a run.rooted m.tag).tidy run.tidy
  inside := a.enteredIn ScopeTree.root m.tag
  absent param _ := by
    rw [ScopeTree.symbol?, Analysis.enteredNew]
    rfl
  dense := rooted.dense.entered run.tidy run.rooted m.tag
  exact := by
    rw [Analysis.enteredVisible run.tidy run.rooted, Analysis.localLimit, Analysis.enteredNew]

theorem Run.packed (run : m.Run F kept a) (distinct : (m.params.map Param.name).Nodup)
    (rooted : a.Rooted) : (opened a m).Tidy ∧ (opened a m).Packed a.scopes.size ∧
      (opened a m).localLimit a.scopes.size = m.params.length + 1 ∧
      (opened a m).scopes.visibleVariableCount a.scopes.size = m.params.length + 1 := by
  obtain ⟨last, count⟩ := (run.placed distinct rooted).last
  rw [Analysis.enteredVisible run.tidy run.rooted, rooted.one, Nat.add_comm] at count
  exact ⟨last.tidy, ⟨last.dense, Nat.le_of_eq last.exact.symm⟩, last.exact.trans count, count⟩

theorem Run.scope (run : m.Run F kept a) : F.scopes.scope a.scopes.size =
    (m.body.annotate a.scopes.size (opened a m)).scopes.scope a.scopes.size := by
  obtain ⟨_, walks, _⟩ := m.innerGathers a
  have start := a.enteredIn ScopeTree.root m.tag
  have last : a.scopes.size < (m.body.annotate a.scopes.size (opened a m)).scopes.size :=
    Nat.lt_of_lt_of_le start walks.size
  have left := (Analysis.Walks.leave _ walks.enteredParent).only a.scopes.size last
    (Nat.ne_of_gt (Nat.zero_lt_of_lt run.rooted))
  refine (run.closed _ (Nat.le_refl _) ?_).trans left
  rw [Method.annotate, Analysis.inScopeSize]
  exact last

theorem Run.limit (run : m.Run F kept a) (distinct : (m.params.map Param.name).Nodup)
    (rooted : a.Rooted) (last : F.Rooted) (ordered : F.scopes.Ordered)
    (allowed : ∀ i d, (i, d) ∈ Program.bodyPlaced F m → d.Allowed F i) (k : Nat) :
    k < F.scopes.maxLocals a.scopes.size ↔
      k < m.params.length + 1 ∨ F.Takes (Program.bodyPlaced F m) k := by
  obtain ⟨_, within, bound, body⟩ := run.body
  obtain ⟨tidy, packed, start, _⟩ := run.packed distinct rooted
  obtain ⟨outer, _⟩ := run.inner
  obtain ⟨_, walks, _⟩ := m.innerGathers a
  rw [Program.bodyPlaced, F.scopeAtBound bound] at allowed ⊢
  have packs : (opened a m).Packs F a.scopes.size
      (Stmt.placedAll F m.body.stmts (opened a m).scopes.size)
      (m.body.annotate a.scopes.size (opened a m)) := by
    refine .inScope (fun inner a => Stmt.annotateAll m.body.stmts inner a) packed tidy within
      (Stmt.annotateAllWalks m.body.stmts _ _ body.inside) ?_
    exact Stmt.RunAll.packs m.body.stmts body (Nat.ne_of_gt (Nat.zero_lt_of_lt within)) allowed
      (packed.entered tidy within m.body.tag)
  have same : F.localLimit a.scopes.size =
      (m.body.annotate a.scopes.size (opened a m)).localLimit a.scopes.size :=
    congrArg Scope.maxLocals run.scope
  -- What is visible in the end from the scope of the method was visible behind its body.
  have visible : F.scopes.visibleVariableCount a.scopes.size =
      (m.body.annotate a.scopes.size (opened a m)).scopes.visibleVariableCount a.scopes.size := by
    have entered := (Analysis.Leads.entered a run.rooted m.tag).tidy run.tidy
    have after := (walks.tidy entered).ordered
    have child : ((m.body.annotate a.scopes.size (opened a m)).scopes.scope
        a.scopes.size).parent = some ScopeTree.root := by
      rw [← run.scope, outer.parent]
    have top := walks.enteredAround run.rooted
    have object : (m.body.annotate a.scopes.size (opened a m)).scopes.visibleVariableCount
        ScopeTree.root = 1 := by
      rw [ScopeTree.visibleTop (ScopeTree.rootTop after), top,
        ← ScopeTree.visibleTop (ScopeTree.rootTop run.tidy.ordered), rooted.one]
    rw [ScopeTree.visibleChild ordered outer.parent, ScopeTree.visibleChild after child, run.scope,
      last.one, object]
  have covered := packs.packed.covered
  rw [← same, ← visible] at covered
  rw [← start, ← packs.limit, ← same, ScopeTree.maxLocals]
  exact Iff.of_eq (congrArg (k < ·) (Nat.max_eq_left covered))

theorem Run.visitsPacked (run : m.Run F kept a) (distinct : (m.params.map Param.name).Nodup)
    (rooted : a.Rooted) (allowed : ∀ i d, (i, d) ∈ Program.bodyPlaced F m → d.Allowed F i)
    (q : Progress) : ∀ v ∈ m.visits F a q, v.Packed F := by
  obtain ⟨outer, within, bound, body⟩ := run.body
  obtain ⟨tidy, packed, _⟩ := run.packed distinct rooted
  rw [Program.bodyPlaced, F.scopeAtBound bound] at allowed
  intro v member
  rw [Method.visits, F.scopeAtBound outer, F.scopeAtBound bound, List.mem_cons, List.mem_append,
    List.mem_cons] at member
  rcases member with rfl | given | rfl | inside
  · exact Visit.plainPacked rooted.dense rfl
  · exact (run.placed distinct rooted).visits q run.given v given
  · exact Visit.plainPacked packed.dense rfl
  · exact Stmt.RunAll.visitsPacked m.returnType m.body.stmts _ body
      (Nat.ne_of_gt (Nat.zero_lt_of_lt within)) allowed (packed.entered tidy within m.body.tag) v inside

end Method

namespace Program
variable {p : Program NodeId} {m : Method NodeId} {F final : Analysis}

def Takes (p : Program NodeId) (final : Analysis) (m : Method NodeId) (k : Nat) : Prop :=
  ∃ i x v, final.scopes.symbol? i x = some (.var v) ∧ (v.declaredAt = p.tag ∨ v.declaredAt ∈ m.tags) ∧
    v.slot = k

theorem methodOfNode (unique : p.tags.Nodup) (member : m ∈ p.methods) {other : Method NodeId}
    (beside : other ∈ p.methods) {n : NodeId} (inside : n ∈ other.tags)
    (node : n = p.tag ∨ n ∈ m.tags) : m = other := by
  rcases node with rfl | own
  · exact absurd inside (tagOutside unique beside)
  · rw [p.tagsEq, List.nodup_cons] at unique
    exact Method.tagOnce unique.2 member beside own inside

theorem annotatedRooted (p : Program NodeId) : p.annotated.Rooted :=
  p.begunRooted.leads p.annotatedWalks.toLeads p.begunTidy Nat.zero_lt_one

theorem takesIff (unique : p.tags.Nodup) (member : m ∈ p.methods) {a : Analysis} {kept : List NodeId}
    (run : m.Run p.annotated kept a) (distinct : (m.params.map Param.name).Nodup) (rooted : a.Rooted)
    (k : Nat) : p.Takes p.annotated m k ↔
      k < m.params.length + 1 ∨ p.annotated.Takes (bodyPlaced p.annotated m) k := by
  have placed := run.placed distinct rooted
  have start := Analysis.enteredVisible run.tidy run.rooted m.tag
  rw [rooted.one] at start
  have object := p.annotatedRooted
  constructor
  · rintro ⟨i, x, v, found, node, rfl⟩
    cases origin unique found with
    | object root _ _ _ =>
      subst root
      have low := object.dense.below _ (ScopeTree.ancestorsSelf _ _) x v found
      rw [object.one] at low
      exact .inl (by omega)
    | @param other param inner method home given name tag _ =>
      have own := other.paramTags (List.mem_map_of_mem given)
      obtain rfl := methodOfNode unique member method (tag ▸ own) node
      obtain rfl : a.scopes.size = i := by simpa [run.body.1] using home
      obtain ⟨j, found_j⟩ := List.mem_iff_getElem?.mp given
      have slot := placed.slot found_j
      rw [name] at slot
      rw [run.given, Method.opened, slot] at found
      cases found
      have below := (List.getElem?_eq_some_iff.mp found_j).1
      exact .inl (by simp only [start]; omega)
    | @declared other d inner method given name tag _ =>
      have own := other.bodyTags (Stmt.placedAllTags other.body.stmts given)
      obtain rfl := methodOfNode unique member method (tag ▸ own) node
      exact .inr ⟨i, d, v, given, name ▸ found, tag.symm, rfl⟩
  · rintro (low | ⟨i, d, v, given, found, node, slot⟩)
    · cases k with
      | zero =>
        obtain ⟨i, inside, x, v, found, slot⟩ := object.dense.filled 0 (by rw [object.one]; omega)
        have top := ScopeTree.ancestorsLe p.annotatedTidy.ordered _ i inside
        cases origin unique found with
        | object _ _ _ node => exact ⟨i, x, v, found, .inl node, slot⟩
        | param inner | declared inner => exact absurd (Nat.le_zero.mp top) inner
      | succ j =>
        have found : m.params[j]? = some m.params[j] := List.getElem?_eq_getElem (by omega)
        have slot := placed.slot found
        exact ⟨_, _, _, (run.given _).trans slot,
          .inr (m.paramTags (List.mem_map_of_mem (List.mem_of_getElem? found))),
          by simp only [start]; omega⟩
    · exact ⟨i, d.name, v, found,
        .inr (node ▸ m.bodyTags (Stmt.placedAllTags m.body.stmts given)), slot⟩

end Program

def Instruction.local? : Instruction → Option Nat
  | .load _ slot | .store _ slot => some slot
  | _ => none

def Below (limit : Nat) (code : List Instruction) : Prop :=
  ∀ k ∈ code.filterMap Instruction.local?, k < limit

namespace Below
variable {limit : Nat}

theorem append {first second : List Instruction} (left : Below limit first)
    (right : Below limit second) : Below limit (first ++ second) := by
  intro k member
  rw [List.filterMap_append] at member
  rcases List.mem_append.mp member with early | late
  · exact left k early
  · exact right k late

theorem plain {code : List Instruction} (none : code.filterMap Instruction.local? = []) :
    Below limit code := by
  intro k member
  simp [none] at member

theorem follow {code rest : List Instruction} (below : Below limit code)
    (none : rest.filterMap Instruction.local? = []) : Below limit (code ++ rest) :=
  below.append (plain none)

theorem lead {code rest : List Instruction} (none : code.filterMap Instruction.local? = [])
    (below : Below limit rest) : Below limit (code ++ rest) :=
  (plain none).append below

theorem one {code : List Instruction} {k : Nat} (only : code.filterMap Instruction.local? = [k])
    (low : k < limit) : Below limit code := by
  intro other member
  rw [only] at member
  exact List.mem_singleton.mp member ▸ low

end Below

structure Analysis.Bounded (a : Analysis) (limit id : Nat) : Prop where
  vars : ∀ x v, a.scopes.lookup id x = some (.var v) → v.slot < limit
  object : 0 < limit

section
variable {a : Analysis} {className : String} {limit id : Nat}

theorem Analysis.Bounded.slot (bounded : a.Bounded limit id) {x purpose : String} {s : ValueKind × Nat}
    (found : a.localSlot id x purpose = .ok s) : s.2 < limit := by
  obtain ⟨v, there, _, slot⟩ := Analysis.localSlotOf found
  exact slot ▸ bounded.vars x v there

theorem Analysis.Bounded.store (bounded : a.Bounded limit id) {x : String} {s : ValueKind × Nat}
    (home : a.localSlot id x "store" = .ok s) : Below limit [.store s.1 s.2] :=
  .one rfl (bounded.slot home)

mutual

theorem Expr.emitsBelow (bounded : a.Bounded limit id) : ∀ (e : Expr NodeId) {n n' : Nat}
    {code : List Instruction}, e.Emits a className id n code n' → Below limit code
  | .literal _ value _, _, _, _, .literal =>
    .plain (value.codeCases (fun _ => rfl) (fun _ => rfl) (fun _ => rfl) fun _ => rfl)
  | .var .., _, _, _, .var home => .one rfl (bounded.slot home)
  | .binary _ _ left right, _, _, _, .arith _ one other _ _ =>
    ((left.emitsBelow bounded one).append (right.emitsBelow bounded other)).follow rfl
  | .binary _ _ left right, _, _, _, .compare _ one other _ tested =>
    (((left.emitsBelow bounded one).append (right.emitsBelow bounded other)).follow
      (by exact compareCases tested rfl rfl rfl)).follow rfl
  | .binary _ _ left right, _, _, _, .logical (b := b) _ one other =>
    ((((left.emitsBelow bounded one).follow rfl).append (right.emitsBelow bounded other)).follow
      rfl).follow (by cases b <;> rfl)
  | .not _ operand _, _, _, _, .not inner => ((operand.emitsBelow bounded inner).follow rfl).follow rfl
  | .assign _ _ value, _, _, _, .assign inner home =>
    ((value.emitsBelow bounded inner).follow rfl).append (bounded.store home)
  | .call _ _ args _, _, _, _, .call _ given _ => by
    have object : Below limit [Instruction.load .reference 0] := .one rfl bounded.object
    exact (object.append (Expr.emitAllBelow bounded args given)).follow rfl
  | .writeLine _ value _, _, _, _, .writeLine inner _ printed =>
    (Below.lead rfl (value.emitsBelow bounded inner)).follow (printCases printed fun _ => rfl)
  | .read .., _, _, _, .read => .plain rfl
  | .random .., _, _, _, .random => .plain rfl
  | .randomBelow _ bound _, _, _, _, .randomBelow inner =>
    (Below.lead rfl (bound.emitsBelow bounded inner)).follow rfl
termination_by structural e => e

theorem Expr.emitAllBelow (bounded : a.Bounded limit id) : ∀ (es : List (Expr NodeId)) {n n' : Nat}
    {code : List Instruction}, Expr.EmitAll a className id es n code n' → Below limit code
  | [], _, _, _, .nil => .plain rfl
  | e :: rest, _, _, _, .cons one more =>
    (e.emitsBelow bounded one).append (Expr.emitAllBelow bounded rest more)
termination_by structural es => es

end

theorem Expr.droppedBelow (bounded : a.Bounded limit id) {node : NodeId} {e : Expr NodeId} {n n' : Nat}
    {code : List Instruction} (emits : e.EmitsDropped a className id node n code n') :
    Below limit code := by
  cases emits with
  | assign inner home => exact (Expr.emitsBelow bounded _ inner).append (bounded.store home)
  | silent _ inner _ => exact e.emitsBelow bounded inner
  | popped _ inner _ _ => exact (e.emitsBelow bounded inner).follow rfl

theorem Declarator.emitAllBelow (bounded : a.Bounded limit id) {ds : List (Declarator NodeId)}
    {n n' : Nat} {code : List Instruction} (emits : Declarator.EmitAll a className id ds n code n') :
    Below limit code := by
  induction emits with
  | nil => exact .plain rfl
  | bare _ _ ih => exact ih
  | initial _ inner home _ ih =>
    exact ((Expr.emitsBelow bounded _ inner).append (bounded.store home)).append ih

end

section
variable {F a : Analysis} {className : String} {limit : Nat} {nodes : List NodeId}

theorem Analysis.Inner.bounded {id inner : Nat} {names : List String} {returned : Bool}
    {own : List NodeId} (here : F.Inner id inner names returned own) (alike : a.Alike F)
    (ordered : F.scopes.Ordered) (sub : own ⊆ nodes)
    (low : ∀ i x v, F.scopes.symbol? i x = some (.var v) → v.declaredAt ∈ nodes → v.slot < limit)
    (bounded : a.Bounded limit id) : a.Bounded limit inner where
  vars x v found := by
    have parent := (ScopeTree.blankParent alike.marks inner).trans here.parent
    rw [ScopeTree.lookupChild (ScopeTree.blankOrdered alike.marks ordered) parent] at found
    cases symbol : a.scopes.symbol? inner x with
    | none =>
      rw [symbol, Option.none_or] at found
      exact bounded.vars x v found
    | some s =>
      rw [symbol, Option.some_or] at found
      cases found
      obtain ⟨marked, there⟩ := ScopeTree.symbolVariable alike.marks symbol
      have own := low inner x _ there (sub (here.vars x _ there))
      exact own
  object := bounded.object

theorem Analysis.Alike.scopeOf (alike : a.Alike F) {n : NodeId} {id inner : Nat}
    (found : a.scopeOf n = .ok inner) (bound : F.scopeIds.get? n = some id) : inner = id := by
  have known := Analysis.scopeOfOk.mp found
  rw [alike.scopeIds, bound] at known
  exact (Option.some.inj known).symm

mutual

theorem Stmt.emitsBelow (alike : a.Alike F) (ordered : F.scopes.Ordered)
    (low : ∀ i x v, F.scopes.symbol? i x = some (.var v) → v.declaredAt ∈ nodes → v.slot < limit) :
    ∀ (s : Stmt NodeId) {kept : List NodeId} {id : Nat} {b : Analysis} {n n' : Nat}
      {code : List Instruction}, s.Run F kept id b → s.tags ⊆ nodes → a.Bounded limit id →
        s.Emits a className id n code n' → Below limit code
  | .expr .., _, _, _, _, _, _, _, _, bounded, .expr inner => Expr.droppedBelow bounded inner
  | .declare .., _, _, _, _, _, _, _, _, bounded, .declare inner =>
    Declarator.emitAllBelow bounded inner
  | .ret _ (some e) _, _, _, _, _, _, _, _, _, bounded, .ret inner _ =>
    (e.emitsBelow bounded inner).follow rfl
  | .ret _ none _, _, _, _, _, _, _, _, _, _, .leave _ => .plain rfl
  | .block node body _, _, _, _, _, _, _, run, sub, bounded, .block scope within => by
    obtain ⟨bound, runs⟩ := run.block
    obtain rfl := alike.scopeOf scope bound
    have inside : Stmt.tagsAll body ⊆ nodes := fun k member => sub (by simp [Stmt.tagsBlock, member])
    exact Stmt.emitAllBelow alike ordered low body runs inside
      (run.blockInner.bounded alike ordered inside low bounded) within
  | .ifThen node cond yes _, _, _, _, _, _, _, run, sub, bounded, .ifThen scope tested within => by
    obtain ⟨bound, _, runs⟩ := run.ifThen
    obtain rfl := alike.scopeOf scope bound
    have inside : yes.tags ⊆ nodes := fun k member => sub (by simp [Stmt.tagsIfThen, member])
    have here := run.ifThenInner.bounded alike ordered inside low bounded
    exact (((cond.emitsBelow here tested).follow rfl).append
      (yes.emitsBelow alike ordered low runs inside here within)).follow rfl
  | .ifElse node cond yes elseNode no _, _, _, _, _, _, _, run, sub, bounded,
      .ifElse scope tested within beside otherwise => by
    obtain ⟨before, _, second, noRun⟩ := run.ifElse
    obtain ⟨first, _, yesRun⟩ := before.ifThen
    obtain rfl := alike.scopeOf scope first
    obtain rfl := alike.scopeOf beside second
    have inside : yes.tags ⊆ nodes := fun k member => sub (by simp [Stmt.tagsIfElse, member])
    have outside : no.tags ⊆ nodes := fun k member => sub (by simp [Stmt.tagsIfElse, member])
    have here := before.ifThenInner.bounded alike ordered inside low bounded
    have there := run.elseInner.bounded alike ordered outside low bounded
    exact (((((cond.emitsBelow here tested).follow rfl).append
      (yes.emitsBelow alike ordered low yesRun inside here within)).follow rfl).append
        (no.emitsBelow alike ordered low noRun outside there otherwise)).follow rfl
  | .loop node cond body _, _, _, _, _, _, _, run, sub, bounded, .loop scope tested within => by
    obtain ⟨bound, _, runs⟩ := run.loop
    obtain rfl := alike.scopeOf scope bound
    have inside : body.tags ⊆ nodes := fun k member => sub (by simp [Stmt.tagsLoop, member])
    have here := run.loopInner.bounded alike ordered inside low bounded
    exact (((Below.lead rfl (cond.emitsBelow here tested)).follow rfl).append
      (body.emitsBelow alike ordered low runs inside here within)).follow rfl
termination_by structural s => s

theorem Stmt.emitAllBelow (alike : a.Alike F) (ordered : F.scopes.Ordered)
    (low : ∀ i x v, F.scopes.symbol? i x = some (.var v) → v.declaredAt ∈ nodes → v.slot < limit) :
    ∀ (ss : List (Stmt NodeId)) {kept : List NodeId} {id : Nat} {b : Analysis} {n n' : Nat}
      {code : List Instruction}, Stmt.RunAll F kept id ss b → Stmt.tagsAll ss ⊆ nodes →
        a.Bounded limit id → Stmt.EmitAll a className ss id n code n' → Below limit code
  | [], _, _, _, _, _, _, _, _, _, .nil => .plain rfl
  | s :: rest, _, _, _, _, _, _, run, sub, bounded, .cons one more => by
    obtain ⟨runs, later⟩ := run.cons
    rw [Stmt.tagsAllCons] at sub
    obtain ⟨own, others⟩ := List.append_subset.mp sub
    exact (s.emitsBelow alike ordered low runs own bounded one).append
      (Stmt.emitAllBelow alike ordered low rest later others bounded more)
termination_by structural ss => ss

end
end

theorem Visit.Packed.alike {F final : Analysis} {v : Visit} (packed : v.Packed F)
    (alike : final.Alike F) : v.Packed final where
  dense := packed.dense
  declared x named := by
    obtain ⟨after, w, found, facts⟩ := packed.declared x named
    obtain ⟨marked, there⟩ := ScopeTree.symbolVariable alike.marks.symm found
    exact ⟨after, _, there, facts⟩

namespace Program
variable {p : Program NodeId} {m : Method NodeId} {final : Analysis}

theorem takesAlike (alike : final.Alike p.annotated) (m : Method NodeId) (k : Nat) :
    p.Takes final m k ↔ p.Takes p.annotated m k := by
  constructor
  · rintro ⟨i, x, v, found, node, slot⟩
    obtain ⟨marked, there⟩ := ScopeTree.symbolVariable alike.marks found
    exact ⟨i, x, _, there, node, slot⟩
  · rintro ⟨i, x, v, found, node, slot⟩
    obtain ⟨marked, there⟩ := ScopeTree.symbolVariable alike.marks.symm found
    exact ⟨i, x, _, there, node, slot⟩

/-- The parameters of a method follow the object, and the limit is the first slot behind all variables
of the method, none of the slots below it being free. -/
structure Sized (p : Program NodeId) (final : Analysis) (m : Method NodeId) (id : Nat) : Prop where
  params : ∀ i param, m.params[i]? = some param → ∃ v,
    final.scopes.symbol? id param.name = some (.var v) ∧ v.declaredAt = param.tag ∧ v.slot = i + 1
  limit : ∃ top, final.scopes.maxLocals id = top + 1 ∧ p.Takes final m top ∧
    (∀ k, p.Takes final m k → k ≤ top) ∧ ∀ k ≤ top, p.Takes final m k

section
variable {a : Analysis} {kept : List NodeId}

theorem takesBelow (unique : p.tags.Nodup) (clean : ∀ i d, (i, d) ∈ bodyPlaced p.annotated m →
    d.Allowed p.annotated i) (member : m ∈ p.methods) (run : m.Run p.annotated kept a)
    (distinct : (m.params.map Param.name).Nodup) (rooted : a.Rooted) (k : Nat) :
    p.Takes p.annotated m k ↔ k < p.annotated.scopes.maxLocals a.scopes.size := by
  rw [takesIff unique member run distinct rooted,
    run.limit distinct rooted p.annotatedRooted p.annotatedTidy.ordered clean]

theorem sized (alike : final.Alike p.annotated) (run : m.Run p.annotated kept a)
    (distinct : (m.params.map Param.name).Nodup) (rooted : a.Rooted)
    (taken : ∀ k, p.Takes p.annotated m k ↔ k < p.annotated.scopes.maxLocals a.scopes.size)
    (object : p.Takes p.annotated m 0) : p.Sized final m a.scopes.size where
  params i param found := by
    have start := Analysis.enteredVisible run.tidy run.rooted m.tag
    have slot := (run.given _).trans ((run.placed distinct rooted).slot found)
    obtain ⟨marked, there⟩ := ScopeTree.symbolVariable alike.marks.symm slot
    refine ⟨_, there, rfl, ?_⟩
    simp only [start, rooted.one]
    omega
  limit := by
    have positive := (taken 0).mp object
    refine ⟨p.annotated.scopes.maxLocals a.scopes.size - 1, ?_, ?_, ?_, ?_⟩
    · rw [ScopeTree.blankLocals alike.marks]
      omega
    · rw [takesAlike alike, taken]
      omega
    · intro k takes
      rw [takesAlike alike, taken] at takes
      omega
    · intro k low
      rw [takesAlike alike, taken]
      omega

end

end Program

def CompiledMethod.KeepsLimit (made : CompiledMethod) : Prop :=
  ∀ kind slot, .load kind slot ∈ made.code ∨ .store kind slot ∈ made.code → slot < made.maxLocals

theorem Below.keepsLimit {made : CompiledMethod} (below : Below made.maxLocals made.code) :
    made.KeepsLimit := by
  rintro kind slot (loaded | stored)
  · exact below slot (List.mem_filterMap.mpr ⟨_, loaded, rfl⟩)
  · exact below slot (List.mem_filterMap.mpr ⟨_, stored, rfl⟩)

namespace Method
variable {p : Program NodeId} {F final : Analysis}

theorem RunAll.each {ms : List (Method NodeId)} {a : Analysis} {kept : List NodeId}
    (run : RunAll F kept ms a) (rooted : a.Rooted) :
    ∀ m ∈ ms, ∃ b kept, m.Run F kept b ∧ b.Rooted := by
  induction ms generalizing a kept with
  | nil => simp
  | cons first rest ih =>
    obtain ⟨here, later⟩ := run.cons
    intro m member
    rcases List.mem_cons.mp member with rfl | behind
    · exact ⟨a, kept, here, rooted⟩
    · exact ih later
        (rooted.leads (first.annotateWalks a run.rooted).toLeads run.tidy run.rooted) m behind

theorem RunAll.visitsPacked {ms : List (Method NodeId)} {a : Analysis} {kept : List NodeId}
    (run : RunAll F kept ms a) (rooted : a.Rooted)
    (distinct : ∀ m ∈ ms, (m.params.map Param.name).Nodup)
    (allowed : ∀ m ∈ ms, ∀ i d, (i, d) ∈ Program.bodyPlaced F m → d.Allowed F i) (q : Progress) :
    ∀ v ∈ Method.visitsAll F ms a q, v.Packed F := by
  induction ms generalizing a kept q with
  | nil => simp [Method.visitsAll]
  | cons first rest ih =>
    obtain ⟨here, later⟩ := run.cons
    intro v member
    rcases List.mem_append.mp member with early | behind
    · exact here.visitsPacked (distinct first (List.mem_cons_self ..)) rooted
        (allowed first (List.mem_cons_self ..)) q v early
    · exact ih later (rooted.leads (first.annotateWalks a run.rooted).toLeads run.tidy run.rooted)
        (fun m other => distinct m (List.mem_cons_of_mem _ other))
        (fun m other => allowed m (List.mem_cons_of_mem _ other)) _ v behind

theorem Run.emitsBelow {m : Method NodeId} {a : Analysis} {kept : List NodeId} {className : String}
    {n n' limit : Nat} {made : CompiledMethod} (run : m.Run F kept a) (alike : final.Alike F)
    (ordered : F.scopes.Ordered) (rooted : F.Rooted)
    (low : ∀ i x v, F.scopes.symbol? i x = some (.var v) → v.declaredAt ∈ m.tags → v.slot < limit)
    (positive : 0 < limit) (emits : m.Emits final className n made n') :
    Below limit made.code ∧ made.maxLocals = final.scopes.maxLocals a.scopes.size := by
  obtain ⟨scope, _, inside, body⟩ := emits
  obtain ⟨outer, _, bound, within⟩ := run.body
  obtain ⟨around, about⟩ := run.inner
  obtain rfl := alike.scopeOf scope outer
  obtain rfl := alike.scopeOf inside bound
  have top : final.Bounded limit ScopeTree.root := by
    refine ⟨fun x v found => ?_, positive⟩
    rw [ScopeTree.lookupTop (ScopeTree.rootTop (ScopeTree.blankOrdered alike.marks ordered))] at found
    obtain ⟨marked, there⟩ := ScopeTree.symbolVariable alike.marks found
    have slot := rooted.dense.below _ (ScopeTree.ancestorsSelf _ _) x _ there
    rw [rooted.one] at slot
    exact Nat.lt_of_lt_of_le slot positive
  have given := around.bounded alike ordered m.paramTags low top
  have here := about.bounded alike ordered m.bodyTags low given
  have below := Stmt.emitAllBelow alike ordered low m.body.stmts within m.bodyTags here body
  exact ⟨below.follow (by split <;> rfl), rfl⟩

end Method

namespace Program
variable {p : Program NodeId} {final : Analysis}

theorem objectPacked (unique : p.tags.Nodup) (part : Part) (q : Progress) :
    Visit.Packed p.annotated ⟨⟨p.tag, .program, p.span⟩, part, ScopeTree.root, ScopeTree.root,
      (({} : Analysis).declareMethods p).bindScope p.tag ScopeTree.root, q⟩ := by
  have empty : ScopeTree.Dense {} ScopeTree.root := by
    constructor
    · intro i member x v found
      obtain rfl := List.mem_singleton.mp member
      contradiction
    · exact fun k low => absurd low (Nat.not_lt_zero k)
    · intro i here j there x y v w first
      obtain rfl := List.mem_singleton.mp here
      contradiction
  refine ⟨empty, fun x named => ?_⟩
  cases named
  refine ⟨fun type ready => empty.declare ScopeTree.orderedStart Nat.zero_lt_one rfl type ready p.tag, ?_⟩
  have object := p.annotatedRooted
  obtain ⟨i, inside, x, v, found, slot⟩ := object.dense.filled 0 (by rw [object.one]; omega)
  have top := ScopeTree.ancestorsLe p.annotatedTidy.ordered _ i inside
  cases origin unique found with
  | object root name _ node => exact ⟨v, name ▸ root ▸ found, node, slot⟩
  | param inner | declared inner => exact absurd (Nat.le_zero.mp top) inner

/-- Slots are handed out without gaps and without clashes, and the limits of an accepted program are
exact: at every node the visible variables fill the first slots and a new variable takes the next one,
and a method has as many locals as it has slots in use. -/
theorem slotsExact (unique : p.tags.Nodup)
    (distinct : ∀ m ∈ p.methods, (m.params.map Param.name).Nodup) (done : p.analyze = .ok final) :
    p.visits.map Visit.node = p.nodes ∧ (∀ v ∈ p.visits, v.Packed final) ∧
      (∀ m ∈ p.methods, ∃ id, final.scopeIds.get? m.tag = some id ∧ p.Sized final m id) ∧
      ∀ options c, final.generate options p = .ok c →
        ∃ cs, c.methods = initMethod :: mainMethod options.className :: cs ∧
          List.Forall₂ (fun m made => made.KeepsLimit ∧ ∃ id, final.scopeIds.get? m.tag = some id ∧
            made.maxLocals = final.scopes.maxLocals id) p.methods cs := by
  obtain ⟨q, clean, rfl⟩ := cleanOfAnalyze unique done
  have alike := clean.alike
  have runs := annotatedRuns unique
  have allowed := clean.allowed
  have each := runs.each p.begunRooted
  refine ⟨p.visitsNodes, fun v member => ?_, fun m member => ?_, fun options c made => ?_⟩
  · refine Visit.Packed.alike ?_ alike
    rcases List.mem_cons.mp member with rfl | inner
    · exact objectPacked unique _ _
    · exact runs.visitsPacked p.begunRooted distinct allowed _ v inner
  · obtain ⟨a, kept, run, rooted⟩ := each m member
    refine ⟨a.scopes.size, run.body.1, sized alike run (distinct m member) rooted
      (takesBelow unique (allowed m member) member run (distinct m member) rooted) ?_⟩
    exact (takesIff unique member run (distinct m member) rooted 0).mpr (.inl (Nat.succ_pos _))
  · obtain ⟨ms, compiled, made⟩ := bindOk.mp made
    cases made
    refine ⟨ms.1, rfl, ?_⟩
    have methods := (List.forall₂_and_left (p := (· ∈ p.methods)) p.methods ms.1).mpr
      ⟨fun _ member => member, Method.compileAllEmits compiled⟩
    refine methods.imp fun m one ⟨member, n, n', emits⟩ => ?_
    obtain ⟨a, kept, run, rooted⟩ := each m member
    have taken := takesBelow unique (allowed m member) member run (distinct m member) rooted
    have limit := ScopeTree.blankLocals alike.marks a.scopes.size
    have object := (takesIff unique member run (distinct m member) rooted 0).mpr
      (.inl (Nat.succ_pos _))
    obtain ⟨below, locals⟩ := run.emitsBelow alike p.annotatedTidy.ordered p.annotatedRooted
      (fun i x v found inside => (taken v.slot).mp ⟨i, x, v, found, .inr inside, rfl⟩)
      ((taken 0).mp object) emits
    refine ⟨Below.keepsLimit ?_, a.scopes.size, run.body.1, locals⟩
    rw [locals, limit]
    exact below

theorem sampleSlotsExact : ∃ a, sampleProgram.analyze = .ok a ∧
    sampleProgram.visits.map Visit.node = sampleProgram.nodes ∧
    (∀ v ∈ sampleProgram.visits, v.Packed a) ∧
    (∀ m ∈ sampleProgram.methods, ∃ id, a.scopeIds.get? m.tag = some id ∧
      sampleProgram.Sized a m id) ∧
    ∀ options c, a.generate options sampleProgram = .ok c →
      ∃ cs, c.methods = initMethod :: mainMethod options.className :: cs ∧
        List.Forall₂ (fun m made => made.KeepsLimit ∧ ∃ id, a.scopeIds.get? m.tag = some id ∧
          made.maxLocals = a.scopes.maxLocals id) sampleProgram.methods cs := by
  obtain ⟨c, made⟩ := sampleCompiles
  obtain ⟨a, analyzed, _⟩ := compileParts made
  exact ⟨a, analyzed, slotsExact (by decide +kernel) (by decide +kernel) analyzed⟩

end Program

end ClassCompiler
