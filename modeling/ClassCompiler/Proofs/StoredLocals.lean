import ClassCompiler.Proofs.Exposure
import ClassCompiler.Proofs.Siting
import ClassCompiler.Proofs.SlotLimits

/-! Loads behind stores. The check lets a variable be read once a value has been assigned to it further
up in the text, and the code has the order of the text: every load of a local stands behind a store to
it. A path through the code can still come to the load without the store, if it jumps over it. -/
namespace ClassCompiler

/-- Behind the code so far, a load of a local that is no parameter has a store to it above. -/
def Behind (limit : Nat) (done part : List Instruction) : Prop :=
  ∀ i kind slot, part[i]? = some (.load kind slot) → limit < slot →
    .store kind slot ∈ done ++ part.take i

def Instruction.isLoad : Instruction → Bool
  | .load .. => true
  | _ => false

namespace Behind
variable {limit : Nat} {done front rest : List Instruction}

theorem append (first : Behind limit done front) (second : Behind limit (done ++ front) rest) :
    Behind limit done (front ++ rest) := by
  intro i kind slot found above
  by_cases early : i < front.length
  · rw [List.getElem?_append_left early] at found
    rw [List.take_append_of_le_length (Nat.le_of_lt early)]
    exact first i kind slot found above
  · rw [List.getElem?_append_right (Nat.le_of_not_lt early)] at found
    have stored := second _ kind slot found above
    rw [List.take_append, List.take_of_length_le (Nat.le_of_not_lt early), ← List.append_assoc]
    exact stored

theorem silent (silent : rest.any Instruction.isLoad = false) : Behind limit done rest := by
  intro i kind slot found _
  have loads : rest.any Instruction.isLoad = true :=
    List.any_eq_true.mpr ⟨_, List.mem_of_getElem? found, rfl⟩
  rw [silent] at loads
  contradiction

theorem load {kind : ValueKind} {slot : Nat} (stored : limit < slot → .store kind slot ∈ done) :
    Behind limit done [.load kind slot] := by
  intro i kind' slot' found above
  cases i with
  | zero =>
    cases found
    simpa using stored above
  | succ i => simp at found

end Behind

structure Progress.Stored (p : Program NodeId) (nodes : List NodeId) (done : List Instruction)
    (q : Progress) : Prop extends q.Kept p where
  stored : ∀ home x v, q.scopes.symbol? home x = some (.var v) → v.declaredAt ∈ nodes →
    v.declaredAt ∈ q.reached → v.initialized = true →
      ∃ kind, v.type.bind ValueKind.of? = some kind ∧ .store kind v.slot ∈ done

/-- Code between two points of the check: its loads stand behind stores, and the stores keep up with
what has a value. -/
def Progress.Traces (p : Program NodeId) (nodes : List NodeId) (limit : Nat) (q r : Progress)
    (code : List Instruction) : Prop :=
  ∀ done, q.Stored p nodes done → Behind limit done code ∧ r.Stored p nodes (done ++ code)

namespace Progress
variable {p : Program NodeId} {nodes : List NodeId} {limit : Nat} {q m r : Progress}
  {front rest done : List Instruction}

theorem Stored.more (stored : q.Stored p nodes done) (code : List Instruction) :
    q.Stored p nodes (done ++ code) where
  toKept := stored.toKept
  stored home x v found inside seen ready := by
    obtain ⟨kind, known, store⟩ := stored.stored home x v found inside seen ready
    exact ⟨kind, known, List.mem_append_left _ store⟩

namespace Traces

theorem append (first : q.Traces p nodes limit m front) (second : m.Traces p nodes limit r rest) :
    q.Traces p nodes limit r (front ++ rest) := by
  intro done start
  obtain ⟨early, middle⟩ := first done start
  obtain ⟨late, last⟩ := second _ middle
  exact ⟨early.append late, by rwa [← List.append_assoc]⟩

theorem silent (quiet : rest.any Instruction.isLoad = false) : q.Traces p nodes limit q rest :=
  fun _ start => ⟨.silent quiet, start.more rest⟩

theorem between {before after : List Instruction} (inner : q.Traces p nodes limit r rest)
    (first : before.any Instruction.isLoad = false) (last : after.any Instruction.isLoad = false) :
    q.Traces p nodes limit r (before ++ rest ++ after) := ((silent first).append inner).append (silent last)

theorem object : q.Traces p nodes limit q [.load .reference 0] :=
  fun _ start => ⟨.load fun above => absurd above (Nat.not_lt_zero limit), start.more _⟩

end Traces
end Progress

def Analysis.Local (F : Analysis) (nodes : List NodeId) (limit id : Nat) : Prop :=
  ∀ x visible home v, F.scopes.resolve id x visible = some (home, .var v) →
    v.declaredAt ∈ nodes ∨ v.slot ≤ limit

theorem Analysis.Local.child {F : Analysis} {id inner limit : Nat} {nodes : List NodeId}
    (outer : F.Local nodes limit id) (ordered : F.scopes.Ordered)
    (parent : (F.scopes.scope inner).parent = some id)
    (own : ∀ x v, F.scopes.symbol? inner x = some (.var v) → v.declaredAt ∈ nodes ∨ v.slot ≤ limit) :
    F.Local nodes limit inner := by
  intro x visible home v found
  rw [ScopeTree.resolveChild ordered parent] at found
  cases here : (F.scopes.symbol? inner x).filter visible with
  | none =>
    rw [here] at found
    exact outer x visible home v found
  | some s =>
    rw [here] at found
    cases found
    exact own x v (Option.filter_eq_some_iff.mp here).1

theorem Analysis.Inner.localTo {F : Analysis} {id inner limit : Nat} {names : List String}
    {returned : Bool} {tags nodes : List NodeId} (here : F.Inner id inner names returned tags)
    (ordered : F.scopes.Ordered) (sub : tags ⊆ nodes) (outer : F.Local nodes limit id) :
    F.Local nodes limit inner :=
  outer.child ordered here.parent fun x v found => .inl (sub (here.vars x v found))

theorem Analysis.Rooted.localTo {F : Analysis} (rooted : F.Rooted) (ordered : F.scopes.Ordered)
    (nodes : List NodeId) (limit : Nat) : F.Local nodes limit ScopeTree.root := by
  intro x visible home v found
  rw [ScopeTree.resolveTop (ScopeTree.rootTop ordered)] at found
  obtain ⟨s, symbol, same⟩ := Option.map_eq_some_iff.mp found
  cases same
  have slot := rooted.dense.below _ (ScopeTree.ancestorsSelf _ _) x v
    (Option.filter_eq_some_iff.mp symbol).1
  rw [rooted.one] at slot
  omega

section
variable {p : Program NodeId} {final : Analysis} {className : String} {nodes : List NodeId}
  {limit id : Nat} {q r : Progress} {a : Analysis}

namespace Program.Coded

theorem slotOf (coded : p.Coded final) {x purpose : String} {v : Variable} {s : ValueKind × Nat}
    (last : p.annotated.scopes.lookup id x = some (.var v))
    (home : final.localSlot id x purpose = .ok s) :
    v.type.bind ValueKind.of? = some s.1 ∧ v.slot = s.2 := by
  obtain ⟨marked, found⟩ := ScopeTree.lookupVariable coded.alike.marks.symm last
  obtain ⟨w, there, facts⟩ := Analysis.localSlotOf home
  obtain rfl : _ = w := by simpa using found.symm.trans there
  exact facts

theorem slotMeant (coded : p.Coded final) (marks : q.scopes.blank = p.annotated.scopes.blank)
    (settled : p.annotated.Settled p q.reached id a) {x purpose : String} {home : Nat} {v : Variable}
    {s : ValueKind × Nat} (found : q.resolve id x = some (home, .var v))
    (slot : final.localSlot id x purpose = .ok s) :
    v.type.bind ValueKind.of? = some s.1 ∧ v.slot = s.2 := by
  obtain ⟨marked, there⟩ := ScopeTree.resolveVariable marks q.seesBlank found
  rcases settled.final coded.unique coded.lawful there with last | ⟨root, w, _, m, method, i, d, facts⟩
  · have same := coded.slotOf last slot
    exact same
  · obtain ⟨placed, name, _⟩ := facts
    cases origin coded.unique (ScopeTree.resolveSymbol there).1 with
    | object _ object _ _ =>
      exact absurd (name.trans object)
        (coded.named m method d (Stmt.placedAllDeclarators m.body.stmts placed))
    | param inner | declared inner => exact absurd root inner

end Program.Coded

namespace Progress.Traces

theorem load (coded : p.Coded final) (near : p.annotated.Local nodes limit id)
    (settled : p.annotated.Settled p q.reached id a) {x : String} {s : ValueKind × Nat}
    (home : final.localSlot id x "load" = .ok s) (allowed : q.access? id (.read x) = some r) :
    q.Traces p nodes limit r [.load s.1 s.2] := by
  intro done start
  simp only [Progress.access?] at allowed
  split at allowed
  · rename_i place v found
    split at allowed
    · rename_i ready
      cases allowed
      obtain ⟨symbol, seen⟩ := ScopeTree.resolveSymbol found
      obtain ⟨known, slot⟩ := coded.slotMeant start.marks settled found home
      refine ⟨.load fun above => ?_, start.more _⟩
      obtain ⟨marked, there⟩ := ScopeTree.resolveVariable start.marks q.seesBlank found
      rcases near x _ place _ there with inside | low
      · obtain ⟨kind, typed, store⟩ := start.stored place x v symbol inside
          (by simpa [Progress.sees] using seen) ready
        obtain rfl : kind = s.1 := Option.some.inj (typed.symm.trans known)
        rwa [← slot]
      · have low : v.slot ≤ limit := low
        omega
    · contradiction
  · contradiction

theorem store (coded : p.Coded final) (settled : p.annotated.Settled p q.reached id a) {x : String}
    {s : ValueKind × Nat} (home : final.localSlot id x "store" = .ok s)
    (allowed : q.access? id (.write x) = some r) :
    q.Traces p nodes limit r [.store s.1 s.2] := by
  intro done start
  refine ⟨.silent rfl, ?_⟩
  simp only [Progress.access?] at allowed
  split at allowed
  · rename_i place v found
    cases allowed
    obtain ⟨symbol, seen⟩ := ScopeTree.resolveSymbol found
    obtain ⟨known, slot⟩ := coded.slotMeant start.marks settled found home
    refine ⟨start.toKept.mark symbol (by simpa [Progress.sees] using seen), ?_⟩
    intro home y w here inside reached ready
    rw [ScopeTree.markedSymbol] at here
    split at here
    · rename_i same
      obtain ⟨rfl, rfl⟩ := same
      rw [symbol] at here
      cases here
      exact ⟨s.1, known, by simp [slot]⟩
    · exact (start.more _).stored home y w here inside reached ready
  · contradiction

end Progress.Traces

mutual

theorem Expr.emitsTraces (coded : p.Coded final) (near : p.annotated.Local nodes limit id)
    {reached : List NodeId} (settled : p.annotated.Settled p reached id a) :
    ∀ (e : Expr NodeId) {q r : Progress} {n n' : Nat} {code : List Instruction}, q.reached = reached →
      q.accessAll? id e.accesses = some r → e.Emits final className id n code n' →
        q.Traces p nodes limit r code
  | .literal _ value _, q, r, _, _, _, _, done, .literal => by
    cases done
    exact .silent (value.codeCases (fun _ => rfl) (fun _ => rfl) (fun _ => rfl) fun _ => rfl)
  | .var .., q, r, _, _, _, same, done, .var home => by
    rw [Expr.accesses, Progress.accessAllOne] at done
    exact .load coded near (same ▸ settled) home done
  | .binary _ op left right, q, r, _, _, _, same, done, .arith _ one other _ _ => by
    obtain ⟨m, before, after⟩ := Progress.accessAllSplit done
    have between := (Progress.accessAllOnward before).reached.trans same
    exact ((left.emitsTraces coded near settled same before one).append
      (right.emitsTraces coded near settled between after other)).append (.silent rfl)
  | .binary _ op left right, q, r, _, _, _, same, done, .compare _ one other _ tested => by
    obtain ⟨m, before, after⟩ := Progress.accessAllSplit done
    have between := (Progress.accessAllOnward before).reached.trans same
    exact (((left.emitsTraces coded near settled same before one).append
      (right.emitsTraces coded near settled between after other)).append
        (.silent (by exact compareCases tested rfl rfl rfl))).append (.silent rfl)
  | .binary _ op left right, q, r, n, _, _, same, done, .logical _ one other => by
    obtain ⟨m, before, after⟩ := Progress.accessAllSplit done
    have between := (Progress.accessAllOnward before).reached.trans same
    exact ((((left.emitsTraces coded near settled same before one).append (.silent rfl)).append
      (right.emitsTraces coded near settled between after other)).append
        (.silent rfl)).append (.silent rfl)
  | .not _ operand _, q, r, _, _, _, same, done, .not within =>
    ((operand.emitsTraces coded near settled same done within).append (.silent rfl)).append (.silent rfl)
  | .assign _ _ value, q, r, _, _, _, same, done, .assign within home => by
    obtain ⟨m, before, after⟩ := Progress.accessAllSplit done
    have between := (Progress.accessAllOnward before).reached.trans same
    have written := (Progress.accessAllOne ..).symm.trans after
    exact ((value.emitsTraces coded near settled same before within).append (.silent rfl)).append
      (.store coded (between ▸ settled) home written)
  | .call _ _ args _, q, r, _, _, _, same, done, .call _ given _ =>
    (Progress.Traces.object.append (Expr.emitAllTraces coded near settled args same done given)).append
      (.silent rfl)
  | .writeLine _ value _, q, r, _, _, _, same, done, .writeLine within _ printed =>
    (value.emitsTraces coded near settled same done within).between rfl (printCases printed fun _ => rfl)
  | .read .., q, r, _, _, _, _, done, .read => by
    cases done
    exact .silent rfl
  | .random .., q, r, _, _, _, _, done, .random => by
    cases done
    exact .silent rfl
  | .randomBelow _ bound _, q, r, _, _, _, same, done, .randomBelow within =>
    (bound.emitsTraces coded near settled same done within).between rfl rfl
termination_by structural e => e

theorem Expr.emitAllTraces (coded : p.Coded final) (near : p.annotated.Local nodes limit id)
    {reached : List NodeId} (settled : p.annotated.Settled p reached id a) :
    ∀ (es : List (Expr NodeId)) {q r : Progress} {n n' : Nat} {code : List Instruction},
      q.reached = reached → q.accessAll? id (Expr.accessesAll es) = some r →
        Expr.EmitAll final className id es n code n' → q.Traces p nodes limit r code
  | [], q, r, _, _, _, _, done, .nil => by
    cases done
    exact .silent rfl
  | e :: rest, q, r, _, _, _, same, done, .cons one more => by
    obtain ⟨m, before, after⟩ := Progress.accessAllSplit done
    have between := (Progress.accessAllOnward before).reached.trans same
    exact (e.emitsTraces coded near settled same before one).append
      (Expr.emitAllTraces coded near settled rest between after more)
termination_by structural es => es

end

theorem Stmt.Run.settled {s : Stmt NodeId} {reached : List NodeId} {F : Analysis}
    (run : s.Run F reached id a) (within : a.Within p reached) : F.Settled p reached id a where
  inside := run.inside
  tidy := run.tidy
  ahead := by
    have walks := s.annotateWalks id a run.inside
    refine (run.ahead.mono (List.subset_append_right _ _)).lead walks.toLeads ?_
    exact fun n member => ⟨fun here => run.apart n here member, fun here => run.apart n here member⟩
  within := within

theorem Expr.droppedTraces (coded : p.Coded final) (near : p.annotated.Local nodes limit id)
    (settled : p.annotated.Settled p q.reached id a) {node : NodeId} {e : Expr NodeId} {n n' : Nat}
    {code : List Instruction} (done : q.accessAll? id e.accesses = some r)
    (emits : e.EmitsDropped final className id node n code n') : q.Traces p nodes limit r code := by
  cases emits with
  | assign within home =>
    obtain ⟨m, before, after⟩ := Progress.accessAllSplit done
    have between := (Progress.accessAllOnward before).reached
    have written := (Progress.accessAllOne ..).symm.trans after
    exact (Expr.emitsTraces coded near settled _ rfl before within).append
      (.store coded (between ▸ settled) home written)
  | silent _ within => exact e.emitsTraces coded near settled rfl done within
  | popped _ within => exact (e.emitsTraces coded near settled rfl done within).append (.silent rfl)

theorem Progress.Stored.reach {n : NodeId} {done : List Instruction} (start : q.Stored p nodes done)
    (unseen : n ∉ q.reached)
    (own : ∀ home x v, p.annotated.scopes.symbol? home x = some (.var v) → v.declaredAt = n →
      v.initialized = true → ∃ kind, v.type.bind ValueKind.of? = some kind ∧ .store kind v.slot ∈ done) :
    (q.reach n).Stored p nodes done where
  toKept := start.toKept.reach n
  stored home x v found inside seen ready := by
    rcases List.mem_cons.mp seen with same | earlier
    · exact own home x v (start.unmarked home x v found (same ▸ unseen)) same ready
    · exact start.stored home x v found inside earlier ready

section
variable {bound : Nat} {type : Option DataType} {d : Declarator NodeId}

theorem Declarator.bareTraces (place : p.Place bound q id a)
    (run : d.Run p.annotated q.reached type id a) (allowed : d.Allowed p.annotated id)
    (missing : d.init = none) : q.Traces p nodes limit (q.reach d.tag) [] := by
  intro done start
  refine ⟨.silent rfl, (start.more []).reach (run.apart d.tag d.tagMem) ?_⟩
  intro home x v found node ready
  obtain ⟨rfl, rfl⟩ := place.only run found node
  obtain ⟨_, slot, symbol⟩ := run.bareSymbol missing
  have last := run.final place.inner allowed.single symbol
  rw [last] at found
  cases found
  contradiction

theorem Declarator.initialTraces (coded : p.Coded final) (place : p.Place bound q id a)
    (run : d.Run p.annotated q.reached type id a) {m : Progress} (same : m.reached = q.reached)
    {s : ValueKind × Nat} (home : final.localSlot id d.name "store" = .ok s) :
    m.Traces p nodes limit (m.reach d.tag) [.store s.1 s.2] := by
  intro done start
  refine ⟨.silent rfl, (start.more _).reach (same ▸ run.apart d.tag d.tagMem) ?_⟩
  intro scope x v found node _
  obtain ⟨rfl, rfl⟩ := place.only run found node
  obtain ⟨known, slot⟩ := coded.slotOf (ScopeTree.lookupOwn p.annotatedTidy.ordered found) home
  exact ⟨s.1, known, by simp [slot]⟩

theorem Declarator.emitAllTraces (coded : p.Coded final) (near : p.annotated.Local nodes limit id)
    {ds : List (Declarator NodeId)} (passes : Declarator.PassAll p.annotated type id q ds r)
    (place : p.Place bound q id a) (run : Declarator.RunAll p.annotated q.reached type id ds a)
    {n n' : Nat} {code : List Instruction} (emits : Declarator.EmitAll final className id ds n code n') :
    q.Traces p nodes limit r code := by
  induction passes generalizing a n code with
  | nil =>
    cases emits
    exact .silent rfl
  | @cons q d m rest r first others ih =>
    obtain ⟨here, later⟩ := run.cons
    have behind {n : Nat} {code : List Instruction} := @ih _ (place.declared here first)
      ⟨later.toSegment.keep (Declarator.reachedTags first), later.inside⟩ n code
    cases emits with
    | bare missing more =>
      cases first with
      | bare allowed _ => exact (Declarator.bareTraces place here allowed missing).append (behind more)
      | initial _ given => simp [missing] at given
    | initial given within home more =>
      cases first with
      | bare _ missing => simp [missing] at given
      | initial _ given' passes _ =>
        obtain rfl : _ = _ := Option.some.inj (given.symm.trans given')
        have settled := (here.init given).settled place.within
        exact ((Expr.emitsTraces coded near settled _ rfl passes.used within).append
          (Declarator.initialTraces coded place here passes.onward.reached home)).append (behind more)

end

theorem Stmt.conditionalTraces (coded : p.Coded final) {bound n₁ n₂ : Nat} {n : NodeId}
    {cond : Expr NodeId} {body : Stmt NodeId} {test code between : List Instruction} {m : Progress}
    (place : p.Place bound q id a) (inside : id < a.scopes.size)
    (near : p.annotated.Local nodes limit a.scopes.size)
    (condRun : cond.Run p.annotated q.reached a.scopes.size (a.entered id n))
    (bodyRun : body.Run p.annotated q.reached a.scopes.size
      ((cond.annotate a.scopes.size (a.entered id n)).2.pop a.scopes.size 1))
    (room : (a.inScope id n fun inner a =>
      body.annotate inner ((cond.annotate inner a).2.pop inner 1)).scopes.size ≤ bound)
    (condition : cond.Passes p.annotated a.scopes.size q .bool m)
    (tested : cond.Emits final className a.scopes.size n₁ test n₂)
    (quiet : between.any Instruction.isLoad = false)
    (rest : ∀ {c : Analysis}, p.Place bound m a.scopes.size c →
      body.Run p.annotated m.reached a.scopes.size c →
      (body.annotate a.scopes.size c).scopes.size ≤ bound → m.Traces p nodes limit r code) :
    q.Traces p nodes limit r (test ++ between ++ code) := by
  have walks := (cond.conditionWalks a.scopes.size (a.entered id n)).trans
    (body.annotateWalks a.scopes.size _ bodyRun.inside)
  rw [Analysis.inScopeSize] at room
  have start := place.entered n inside (Nat.le_trans walks.size room)
  rw [← condition.onward.reached] at bodyRun
  exact ((cond.emitsTraces coded near (condRun.settled start.within) rfl condition.used tested).append
    (.silent quiet)).append (rest (start.tested condition) bodyRun room)

mutual

theorem Stmt.emitsTraces (coded : p.Coded final) {bound : Nat} : ∀ (s : Stmt NodeId)
    {returns : DataType} {id : Nat} {q r : Progress} {a : Analysis} {n n' : Nat}
    {code : List Instruction}, p.Place bound q id a → s.Run p.annotated q.reached id a →
      (s.annotate id a).scopes.size ≤ bound → s.tags ⊆ nodes → p.annotated.Local nodes limit id →
      Stmt.Passes p.annotated returns id q s r → s.Emits final className id n code n' →
        q.Traces p nodes limit r code
  | .expr _ e _, _, _, _, _, _, _, _, _, place, run, _, _, near, .expr passes, .expr within =>
    Expr.droppedTraces coded near (run.settled place.within) passes.used within
  | .declare .., _, _, _, _, _, _, _, _, place, run, _, _, near, .declare passes, .declare within =>
    Declarator.emitAllTraces coded near passes place run.declare within
  | .ret _ (some e) _, _, _, _, _, _, _, _, _, place, run, _, _, near, .ret passes _, .ret within _ =>
    (e.emitsTraces coded near (run.settled place.within) rfl passes.used within).append (.silent rfl)
  | .ret _ none _, _, _, _, _, _, _, _, _, _, _, _, _, _, .leave _, .leave _ => .silent rfl
  | .block n body _, _, id, q, r, a, _, _, _, place, run, room, sub, near, .block scope passes,
      .block found inside => by
    obtain ⟨known, inner⟩ := run.block
    obtain rfl : a.scopes.size = _ := by simpa [known] using scope
    obtain rfl := coded.alike.scopeOf found known
    have walks := Stmt.annotateAllWalks body a.scopes.size (a.entered id n) inner.inside
    rw [Stmt.annotate, Analysis.inScopeSize] at room
    rw [Stmt.tagsBlock] at sub
    have own := (List.cons_subset.mp sub).2
    exact Stmt.emitAllTraces coded body (place.entered n run.inside (Nat.le_trans walks.size room))
      inner room own (run.blockInner.localTo p.annotatedTidy.ordered own near) passes inside
  | .ifThen n cond yes _, _, id, q, r, a, _, _, _, place, run, room, sub, near,
      .ifThen scope condition passes, .ifThen found tested inside => by
    obtain ⟨known, condRun, inner⟩ := run.ifThen
    obtain rfl : a.scopes.size = _ := by simpa [known] using scope
    obtain rfl := coded.alike.scopeOf found known
    have own : yes.tags ⊆ nodes := fun k member => sub (by simp [Stmt.tagsIfThen, member])
    have nearer := run.ifThenInner.localTo p.annotatedTidy.ordered own near
    exact (Stmt.conditionalTraces coded place run.inside nearer condRun inner room condition tested rfl
      fun middle within fits => yes.emitsTraces coded middle within fits own nearer passes
        inside).append (.silent rfl)
  | .ifElse n cond yes m no span, _, id, q, r, a, _, _, _, place, run, room, sub, near,
      .ifElse scope condition passes beside otherwise,
      .ifElse found tested inside foundElse otherCode => by
    obtain ⟨before, inRange, other, noRun⟩ := run.ifElse
    obtain ⟨known, condRun, inner⟩ := before.ifThen
    obtain rfl : a.scopes.size = _ := by simpa [known] using scope
    obtain rfl := coded.alike.scopeOf found known
    have first : Stmt.Passes p.annotated _ id q (.ifThen n cond yes span) _ :=
      .ifThen scope condition passes
    obtain ⟨earlier, entered, left⟩ := Stmt.elseRoom room
    obtain rfl : ((Stmt.ifThen n cond yes span).annotate id a).scopes.size = _ := by
      simpa [other] using beside
    obtain rfl := coded.alike.scopeOf foundElse other
    have own : yes.tags ⊆ nodes := fun k member => sub (by simp [Stmt.tagsIfElse, member])
    have ownElse : no.tags ⊆ nodes := fun k member => sub (by simp [Stmt.tagsIfElse, member])
    have nearer := before.ifThenInner.localTo p.annotatedTidy.ordered own near
    have middle := place.after before first earlier
    exact (((Stmt.conditionalTraces coded place run.inside nearer condRun inner earlier condition tested
      rfl fun middle within fits => yes.emitsTraces coded middle within fits own nearer passes
        inside).append (.silent rfl)).append
      (no.emitsTraces coded (middle.entered m inRange entered)
        ⟨noRun.toSegment.keep (Stmt.reachedTags first), noRun.inside⟩ left ownElse
        (run.elseInner.localTo p.annotatedTidy.ordered ownElse near) otherwise otherCode)).append
      (.silent rfl)
  | .loop n cond body _, _, id, q, r, a, _, _, _, place, run, room, sub, near,
      .loop scope condition passes, .loop found tested inside => by
    obtain ⟨known, condRun, inner⟩ := run.loop
    obtain rfl : a.scopes.size = _ := by simpa [known] using scope
    obtain rfl := coded.alike.scopeOf found known
    have own : body.tags ⊆ nodes := fun k member => sub (by simp [Stmt.tagsLoop, member])
    have nearer := run.loopInner.localTo p.annotatedTidy.ordered own near
    refine Progress.Traces.append ?_ (.silent rfl)
    show q.Traces p nodes limit r ([_] ++ (_ ++ [_] ++ _))
    exact (Progress.Traces.silent rfl).append
      (Stmt.conditionalTraces coded place run.inside nearer condRun inner room condition tested rfl
        fun middle within fits => body.emitsTraces coded middle within fits own nearer passes inside)
termination_by structural s => s

theorem Stmt.emitAllTraces (coded : p.Coded final) {bound : Nat} : ∀ (ss : List (Stmt NodeId))
    {returns : DataType} {id : Nat} {q r : Progress} {a : Analysis} {n n' : Nat}
    {code : List Instruction}, p.Place bound q id a → Stmt.RunAll p.annotated q.reached id ss a →
      (Stmt.annotateAll ss id a).scopes.size ≤ bound → Stmt.tagsAll ss ⊆ nodes →
      p.annotated.Local nodes limit id → Stmt.PassAll p.annotated returns id q ss r →
      Stmt.EmitAll final className ss id n code n' → q.Traces p nodes limit r code
  | [], _, _, _, _, _, _, _, _, _, _, _, _, _, .nil, .nil => .silent rfl
  | s :: rest, _, id, q, r, a, _, _, _, place, run, room, sub, near, .cons first others,
      .cons one more => by
    obtain ⟨here, later⟩ := run.cons
    have middle : (s.annotate id a).scopes.size ≤ bound :=
      Nat.le_trans (Stmt.annotateAllWalks rest id _ later.inside).size room
    rw [Stmt.tagsAllCons] at sub
    obtain ⟨own, behind⟩ := List.append_subset.mp sub
    exact (s.emitsTraces coded place here middle own near first one).append
      (Stmt.emitAllTraces coded rest (place.after here first middle)
        ⟨later.toSegment.keep (Stmt.reachedTags first), later.inside⟩ room behind near others more)
termination_by structural ss => ss

end

namespace Method
variable {m : Method NodeId} {kept : List NodeId}

theorem Run.bodyLocal (run : m.Run p.annotated kept a) (distinct : (m.params.map Param.name).Nodup)
    (rooted : a.Rooted) : p.annotated.Local (Stmt.tagsAll m.body.stmts) m.params.length
      (opened a m).scopes.size := by
  obtain ⟨around, about⟩ := run.inner
  obtain ⟨_, packed, _, count⟩ := run.packed distinct rooted
  have ordered := p.annotatedTidy.ordered
  refine about.localTo ordered (List.Subset.refl _)
    ((p.annotatedRooted.localTo ordered _ _).child ordered around.parent fun x v found => .inr ?_)
  rw [run.given] at found
  have slot := packed.dense.below _ (ScopeTree.ancestorsSelf _ _) x v found
  omega

theorem emitsBehind (coded : p.Coded final) {done rest : List (Method NodeId)}
    (distinct : (m.params.map Param.name).Nodup) (kind : q.Kept p) (between : p.Between done q a)
    (all : p.methods = done ++ m :: rest) (run : Method.RunAll p.annotated kept (m :: rest) a)
    (covered : q.reached ⊆ kept) (rooted : a.Rooted) (passes : m.Passes p.annotated q r) {n n' : Nat}
    {made : CompiledMethod} (emits : m.Emits final className n made n') :
    Behind m.params.length [] made.code ∧ r.Kept p := by
  obtain ⟨here, _⟩ := run.cons
  obtain ⟨_, _, bound, body⟩ := here.body
  obtain ⟨inner, scope, _, passed⟩ := passes.body
  obtain ⟨_, _, within, inside⟩ := emits
  obtain rfl : (opened a m).scopes.size = inner := by simpa [bound] using scope
  obtain rfl := coded.alike.scopeOf within bound
  have received := body.toSegment.keep (m.received covered)
  -- No variable of the body has been reached yet.
  have start : (q.receive m.params).Stored p (Stmt.tagsAll m.body.stmts) [] :=
    ⟨kind.receive m.params, fun _ _ v _ own seen _ => absurd seen (received.apart _ own)⟩
  obtain ⟨behind, after⟩ := Stmt.emitAllTraces coded m.body.stmts (between.place all run)
    ⟨received, body.inside⟩ (Nat.le_of_eq (m.annotateSize a).symm) (List.Subset.refl _)
    (here.bodyLocal distinct rooted) passed inside [] start
  exact ⟨behind.append (.silent (by split <;> rfl)), after.toKept⟩

theorem passAllBehind (coded : p.Coded final) {ms done : List (Method NodeId)} {cs : List CompiledMethod}
    (distinct : ∀ m ∈ ms, (m.params.map Param.name).Nodup) (kind : q.Kept p)
    (between : p.Between done q a) (all : p.methods = done ++ ms)
    (run : Method.RunAll p.annotated kept ms a) (covered : q.reached ⊆ kept) (rooted : a.Rooted)
    (passes : Method.PassAll p.annotated q ms r)
    (emits : List.Forall₂ (fun m made => ∃ n n', m.Emits final className n made n') ms cs) :
    List.Forall₂ (fun m made => Behind m.params.length [] made.code) ms cs := by
  induction passes generalizing done a kept cs with
  | nil =>
    cases emits
    exact .nil
  | @cons q m _ rest r first others ih =>
    obtain ⟨here, later⟩ := run.cons
    cases emits with
    | cons one more =>
      obtain ⟨_, _, one⟩ := one
      obtain ⟨behind, after⟩ := emitsBehind coded (distinct m (List.mem_cons_self ..)) kind between all
        run covered rooted first one
      exact .cons behind (ih (fun other member => distinct other (List.mem_cons_of_mem _ member)) after
        (between.after here first) (by simp [all]) later (first.reachedTags covered)
        (rooted.leads (m.annotateWalks a run.rooted).toLeads run.tidy run.rooted) more)

end Method

end

/-- The path has jumped forward over a store to the local. -/
def Bypasses (code : List Instruction) (kind : ValueKind) (slot : Nat) (path : List Nat) : Prop :=
  ∃ k after target origin before, code[k]? = some (.store kind slot) ∧
    path = after ++ target :: origin :: before ∧ origin < k ∧ k < target

def StoredFirst (code : List Instruction) (kind : ValueKind) (slot : Nat) : Prop :=
  ∀ pc trail, Path code (pc :: trail) → code[pc]? = some (.load kind slot) →
    ∃ k ∈ trail, code[k]? = some (.store kind slot)

theorem storedFirstIff {code : List Instruction} {kind : ValueKind} {slot : Nat} :
    StoredFirst code kind slot ↔ ¬ Exposed code kind slot 0 := by
  rw [exposedIff]
  constructor
  · rintro stored ⟨pc, trail, path, load, never⟩
    obtain ⟨k, passed, store⟩ := stored pc trail path load
    exact never k passed store
  · intro none pc trail path load
    by_contra never
    exact none ⟨pc, trail, path, load, fun k passed store => never ⟨k, passed, store⟩⟩

theorem Behind.path {code : List Instruction} {limit pc slot : Nat} {trail : List Nat} {kind : ValueKind}
    (behind : Behind limit [] code) (inner : limit < slot) (path : Path code (pc :: trail))
    (load : code[pc]? = some (.load kind slot)) :
    (∃ k ∈ trail, code[k]? = some (.store kind slot)) ∨ Bypasses code kind slot (pc :: trail) := by
  have stored := behind pc kind slot load inner
  obtain ⟨k, found⟩ := List.mem_iff_getElem?.mp stored
  rw [List.nil_append, List.getElem?_take] at found
  split at found
  · rename_i earlier
    rcases path.behind earlier with passed | ⟨after, target, origin, before, split, jumped⟩
    · exact .inl ⟨k, passed, found⟩
    · exact .inr ⟨k, after, target, origin, before, found, split, jumped⟩
  · contradiction

namespace Program

/-- A load of a local that is no parameter comes after a store to it, or the path has jumped over one.
A path that misses every store exists exactly if some way through the body reads the local before it has
given it a value. A local is a kind and a slot; variables of blocks beside each other may share one, and a
value given to any of them counts. -/
theorem loadsFollowStores {p : Program NodeId} {options : Options} {c : ClassFile}
    (unique : p.tags.Nodup)
    (valued : ∀ m ∈ p.methods, ∀ param ∈ m.params, param.type.isValue = true)
    (distinct : ∀ m ∈ p.methods, (m.params.map Param.name).Nodup)
    (named : ∀ m ∈ p.methods, ∀ d ∈ Stmt.declaratorsAll m.body.stmts, d.name ≠ selfName)
    (done : p.compile options = .ok c) :
    ∃ a cs, p.analyze = .ok a ∧ c.methods = initMethod :: mainMethod options.className :: cs ∧
      List.Forall₂ (fun m made => ∀ kind slot, m.params.length < slot →
        (∀ pc trail, Path made.code (pc :: trail) → made.code[pc]? = some (.load kind slot) →
          (∃ k ∈ trail, made.code[k]? = some (.store kind slot)) ∨
            Bypasses made.code kind slot (pc :: trail)) ∧
        (StoredFirst made.code kind slot ↔ m.exposes a kind slot = false)) p.methods cs := by
  obtain ⟨a, analyzed, generated⟩ := compileParts done
  obtain ⟨ms, compiled, generated⟩ := bindOk.mp generated
  obtain ⟨q, clean, same⟩ := cleanOfAnalyze unique analyzed
  cases generated
  have alike : a.Alike p.annotated := same ▸ clean.alike
  have each := Method.compileAllEmits compiled
  have behind := Method.passAllBehind ⟨clean.sane unique valued, alike, named⟩ distinct p.startKept
    p.between rfl (annotatedRuns unique) (List.Subset.refl _) p.begunRooted clean.methods
    each
  refine ⟨a, ms.1, analyzed, rfl, List.forall₂_iff_zip.mpr ⟨each.length_eq, ?_⟩⟩
  intro m made member kind slot inner
  obtain ⟨_, _, emits⟩ := List.forall₂_zip each member
  refine ⟨fun pc trail path => (List.forall₂_zip behind member).path inner path, ?_⟩
  rw [storedFirstIff, Method.exposedIff (Nat.zero_lt_of_lt inner) emits, Bool.not_eq_true]

end Program

def branchProgram : Program NodeId :=
  let x : Expr Unit := .var () "x" {}
  let body : List (Stmt Unit) :=
    [.declare () (some .int) [⟨(), "x", none, {}⟩] {},
      .ifThen () (.literal () (.bool true) {})
        (.block () [.expr () (.assign () x (.literal () (.int 1) {})) {}] {}) {},
      .expr () (.writeLine () x {}) {}]
  (Program.number ⟨(), [⟨(), "Main", none, [], ⟨(), body, {}⟩, {}⟩]⟩ 0).1

theorem branchCompiles : ∃ c made, branchProgram.compile {} = .ok c ∧ c.methods[2]? = some made ∧
    made.code = [.iconst 1, .branch .eq ⟨0⟩, .iconst 1, .store .int 1, .label ⟨0⟩,
      .getStatic "java/lang/System/out Ljava/io/PrintStream;", .load .int 1,
      .invokeVirtual "java/io/PrintStream/println(I)V" 1 false, .ret none] := by
  have whole : (branchProgram.compile {}).toOption.bind (fun c => c.methods[2]?.map (·.code)) =
      some [.iconst 1, .branch .eq ⟨0⟩, .iconst 1, .store .int 1, .label ⟨0⟩,
        .getStatic "java/lang/System/out Ljava/io/PrintStream;", .load .int 1,
        .invokeVirtual "java/io/PrintStream/println(I)V" 1 false, .ret none] := by decide +kernel
  cases made : branchProgram.compile {} with
  | error failure => simp [made, Except.toOption] at whole
  | ok c =>
    rw [made] at whole
    obtain ⟨m, found, code⟩ := Option.map_eq_some_iff.mp whole
    exact ⟨c, m, rfl, found, code⟩

theorem branchStores : ∃ c a cs, branchProgram.compile {} = .ok c ∧ branchProgram.analyze = .ok a ∧
    c.methods = initMethod :: mainMethod ({} : Options).className :: cs ∧
    List.Forall₂ (fun m made => ∀ kind slot, m.params.length < slot →
      (∀ pc trail, Path made.code (pc :: trail) → made.code[pc]? = some (.load kind slot) →
        (∃ k ∈ trail, made.code[k]? = some (.store kind slot)) ∨
          Bypasses made.code kind slot (pc :: trail)) ∧
      (StoredFirst made.code kind slot ↔ m.exposes a kind slot = false)) branchProgram.methods cs := by
  obtain ⟨c, _, done, _⟩ := branchCompiles
  obtain ⟨a, cs, facts⟩ := Program.loadsFollowStores (by decide +kernel) (by decide +kernel)
    (by decide +kernel) (by decide +kernel) done
  exact ⟨c, a, cs, done, facts⟩

theorem branchSkipsStore : branchProgram.tags.Nodup ∧ (∀ m ∈ branchProgram.methods, m.params = []) ∧
    (∀ m ∈ branchProgram.methods, ∀ d ∈ Stmt.declaratorsAll m.body.stmts, d.name ≠ selfName) ∧
    ∃ c made, branchProgram.compile {} = .ok c ∧ c.methods[2]? = some made ∧
      ¬ StoredFirst made.code .int 1 := by
  refine ⟨by decide +kernel, by decide +kernel, by decide +kernel, ?_⟩
  obtain ⟨c, made, done, found, code⟩ := branchCompiles
  refine ⟨c, made, done, found, fun stored => ?_⟩
  rw [code] at stored
  -- The test is followed by the label behind the branch.
  obtain ⟨k, passed, store⟩ := stored 6 [5, 4, 1, 0] ((((Path.start.step ((followsOn rfl rfl rfl).mpr
    rfl)).step ((followsFork rfl rfl rfl (by decide)).mpr (.inr rfl))).step
      ((followsOn rfl rfl rfl).mpr rfl)).step ((followsOn rfl rfl rfl).mpr rfl)) rfl
  simp only [List.mem_cons, List.not_mem_nil, or_false] at passed
  rcases passed with rfl | rfl | rfl | rfl <;> contradiction

end ClassCompiler
