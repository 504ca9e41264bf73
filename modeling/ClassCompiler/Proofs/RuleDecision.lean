import ClassCompiler.Numbering
import ClassCompiler.Proofs.CheckTotal
import ClassCompiler.Proofs.StaticRules

/-! Methods and whole programs under the static rules. A method starts with the object and with its
parameters; the methods of a program are checked one after the other, and what is left behind by one
of them is of no use to the next. -/
namespace ClassCompiler

theorem Declarator.AllWellFormed.alone {g : Setting} {around : List String} {type : Option DataType}
    {env after : Env} {ds : List (Declarator NodeId)}
    (formed : Declarator.AllWellFormed g around type env ds after) {d : Declarator NodeId}
    (member : d ∈ ds) : d.name ∉ g.taken ∧ around.count d.name ≤ 1 := by
  induction formed with
  | nil => contradiction
  | cons first _ ih =>
    rcases List.mem_cons.mp member with rfl | behind
    · cases first with
      | bare free alone => exact ⟨free, alone⟩
      | initial free alone => exact ⟨free, alone⟩
    · exact ih behind

section
variable {p : Program NodeId} {method : Method NodeId}

mutual

theorem Stmt.wellFormedSingle : ∀ (s : Stmt NodeId) {kept : List NodeId} {id : Nat} {a : Analysis}
    {around : List String} {env after : Env}, s.Run p.annotated kept id a →
      p.annotated.Counts id around → s.WellFormed (p.setting method) around env after →
        ∀ i d, (i, d) ∈ s.placed p.annotated id → p.annotated.Single i d.name
  | .expr .., _, _, _, _, _, _, _, _, _, _, _, member => by simp [Stmt.placed] at member
  | .ret .., _, _, _, _, _, _, _, _, _, _, _, member => by simp [Stmt.placed] at member
  | .declare _ _ vars _, _, _, _, _, _, _, _, counts, formed, i, d, member => by
    cases formed with
    | declare declared =>
      obtain ⟨other, inside, same⟩ := List.mem_map.mp member
      cases same
      obtain ⟨free, alone⟩ := declared.alone inside
      exact ⟨Program.annotatedFree.mpr free, counts d.name ▸ alone⟩
  | .block n body _, _, _, _, _, _, _, run, counts, formed, i, d, member => by
    cases formed with
    | block formed =>
      obtain ⟨bound, inner⟩ := run.block
      rw [Stmt.placed, Analysis.scopeAtBound bound] at member
      exact Stmt.allWellFormedSingle body inner
        (run.blockInner.counts p.annotatedTidy.ordered counts) formed i d member
  | .ifThen n _ yes _, _, _, _, _, _, _, run, counts, formed, i, d, member => by
    cases formed with
    | ifThen _ formed =>
      obtain ⟨bound, _, inner⟩ := run.ifThen
      rw [Stmt.placed, Analysis.scopeAtBound bound] at member
      exact yes.wellFormedSingle inner (run.ifThenInner.counts p.annotatedTidy.ordered counts) formed
        i d member
  | .ifElse n _ yes m no _, _, _, _, _, _, _, run, counts, formed, i, d, member => by
    cases formed with
    | ifElse _ formed otherwise =>
      obtain ⟨before, _, beside, noRun⟩ := run.ifElse
      obtain ⟨bound, _, inner⟩ := before.ifThen
      rw [Stmt.placed, Analysis.scopeAtBound bound, Analysis.scopeAtBound beside] at member
      rcases List.mem_append.mp member with first | second
      · exact yes.wellFormedSingle inner (before.ifThenInner.counts p.annotatedTidy.ordered counts)
          formed i d first
      · exact no.wellFormedSingle noRun (run.elseInner.counts p.annotatedTidy.ordered counts)
          otherwise i d second
  | .loop n _ body _, _, _, _, _, _, _, run, counts, formed, i, d, member => by
    cases formed with
    | loop _ formed =>
      obtain ⟨bound, _, inner⟩ := run.loop
      rw [Stmt.placed, Analysis.scopeAtBound bound] at member
      exact body.wellFormedSingle inner (run.loopInner.counts p.annotatedTidy.ordered counts) formed
        i d member

theorem Stmt.allWellFormedSingle : ∀ (ss : List (Stmt NodeId)) {kept : List NodeId} {id : Nat}
    {a : Analysis} {around : List String} {env after : Env},
      Stmt.RunAll p.annotated kept id ss a → p.annotated.Counts id around →
      Stmt.AllWellFormed (p.setting method) around env ss after →
        ∀ i d, (i, d) ∈ Stmt.placedAll p.annotated ss id → p.annotated.Single i d.name
  | [], _, _, _, _, _, _, _, _, _, _, _, member => by simp [Stmt.placedAll] at member
  | s :: rest, _, _, _, _, _, _, run, counts, formed, i, d, member => by
    obtain ⟨here, later⟩ := run.cons
    cases formed with
    | cons first others =>
      rcases List.mem_append.mp member with early | late
      · exact s.wellFormedSingle here counts first i d early
      · exact Stmt.allWellFormedSingle rest later counts others i d late

end
end

theorem Method.Run.counts {p : Program NodeId} {kept : List NodeId} {m : Method NodeId} {a : Analysis}
    (run : m.Run p.annotated kept a) : p.annotated.Counts (Method.opened a m).scopes.size
      (m.body.stmts.flatMap Stmt.names ++ m.params.map Param.name) := by
  obtain ⟨outer, inner⟩ := run.inner
  have counted := inner.counts p.annotatedTidy.ordered
    (outer.counts p.annotatedTidy.ordered p.annotatedRoot)
  rwa [List.append_nil] at counted

theorem Program.WellFormed.lawful {p : Program NodeId} (unique : p.tags.Nodup)
    (formed : p.WellFormed) : p.Lawful p.annotated := by
  have all {ms : List (Method NodeId)} {kept : List NodeId} {a : Analysis}
      (run : Method.RunAll p.annotated kept ms a) : ∀ m ∈ ms, m.WellFormed p →
        ∀ i d, (i, d) ∈ bodyPlaced p.annotated m → p.annotated.Single i d.name := by
    induction ms generalizing kept a with
    | nil => simp
    | cons first rest ih =>
      obtain ⟨here, later⟩ := run.cons
      intro m member written i d placed
      rcases List.mem_cons.mp member with rfl | behind
      · obtain ⟨_, _, bound, body⟩ := here.body
        obtain ⟨after, written⟩ := written.body
        rw [bodyPlaced, Analysis.scopeAtBound bound] at placed
        exact Stmt.allWellFormedSingle _ body here.counts written i d placed
      · exact ih later m behind written i d placed
  exact fun m member => all (annotatedRuns unique) m member (formed.methods m member)

/-! The start of a method -/

theorem Progress.Kept.untouched {p : Program NodeId} {q : Progress} (kept : q.Kept p) {i : Nat}
    (fresh : ∀ x v, p.annotated.scopes.symbol? i x = some (.var v) → v.declaredAt ∉ q.reached)
    (x : String) : q.scopes.symbol? i x = p.annotated.scopes.symbol? i x := by
  cases here : q.scopes.symbol? i x with
  | none =>
    cases there : p.annotated.scopes.symbol? i x with
    | none => rfl
    | some s =>
      cases s with
      | var v =>
        obtain ⟨_, found⟩ := ScopeTree.symbolVariable kept.marks.symm there
        exact absurd (here.symm.trans found) (by simp)
      | method m =>
        have found := ScopeTree.blankMethod kept.marks.symm there
        exact absurd (here.symm.trans found) (by simp)
  | some s =>
    cases s with
    | var v =>
      obtain ⟨marked, there⟩ := ScopeTree.symbolVariable kept.marks here
      exact (kept.unmarked i x v here (fresh x { v with initialized := marked } there)).symm
    | method m => exact (ScopeTree.blankMethod kept.marks here).symm

theorem Progress.Kept.receive {p : Program NodeId} {q : Progress} (kept : q.Kept p)
    (params : List (Param NodeId)) : (q.receive params).Kept p := by
  induction params generalizing q with
  | nil => exact kept
  | cons param rest ih => exact ih (kept.reach param.tag)

theorem Frame.objectShows {p : Program NodeId} {q : Progress} (unique : p.tags.Nodup)
    (kept : q.Kept p) (object : p.tag ∈ q.reached)
    (free : p.annotated.methods.contains selfName = false) :
    Frame.Shows p q ScopeTree.root Frame.object where
  known x l found := by
    rw [Frame.object, Table.getInsert] at found
    split at found
    · rename_i same
      cases found
      exact same ▸ ⟨free, _, kept.object, object, rfl, rfl⟩
    · contradiction
  unknown x v absent here := by
    obtain ⟨marked, there⟩ := ScopeTree.symbolVariable kept.marks here
    rw [Frame.object, Table.getInsert] at absent
    split at absent
    · contradiction
    · rename_i other
      cases Program.origin unique there with
      | object _ name => exact absurd name.symm other
      | param inner => exact absurd rfl inner
      | declared inner => exact absurd rfl inner

theorem Param.annotateAllShows {p : Program NodeId} {q : Progress} {inner : Nat}
    (params : List (Param NodeId)) {a : Analysis} {f : Frame} (inside : inner < a.scopes.size)
    (seen : ∀ param ∈ params, param.tag ∈ q.reached)
    (free : ∀ param ∈ params, p.annotated.methods.contains param.name = false)
    (shows : Frame.Shows p { q with scopes := a.scopes } inner f) :
    Frame.Shows p { q with scopes := (Param.annotateAll inner params a).scopes } inner
      (params.foldl (fun f param => f.insert param.name ⟨param.type, true⟩) f) := by
  induction params generalizing a f with
  | nil => exact shows
  | cons param rest ih =>
    refine ih ?_ (fun other member => seen other (List.mem_cons_of_mem _ member))
      (fun other member => free other (List.mem_cons_of_mem _ member)) ⟨?_, ?_⟩
    · simpa [Analysis.mapScopes, ScopeTree.declareVariable] using inside
    · intro x l found
      rw [Table.getInsert] at found
      simp only [Analysis.mapScopes, ScopeTree.declaredSymbol]
      split at found
      · rename_i same
        cases found
        rw [if_pos ⟨trivial, inside, same⟩]
        exact ⟨same ▸ free param (List.mem_cons_self ..), _, rfl, seen param (List.mem_cons_self ..),
          rfl, rfl⟩
      · rename_i other
        rw [if_neg fun all => other all.2.2]
        exact shows.known x l found
    · intro x v absent here
      rw [Table.getInsert] at absent
      simp only [Analysis.mapScopes, ScopeTree.declaredSymbol] at here
      split at absent
      · contradiction
      · rename_i other
        rw [if_neg fun all => other all.2.2] at here
        exact shows.unknown x v absent here

theorem Method.Run.given {F a : Analysis} {kept : List NodeId} {m : Method NodeId}
    (run : m.Run F kept a) (x : String) : F.scopes.symbol? a.scopes.size x =
      (Method.opened a m).scopes.symbol? a.scopes.size x := by
  obtain ⟨_, within, _, body⟩ := run.body
  have walks := Stmt.annotateAllWalks m.body.stmts _ _ body.inside
  have entered := (Method.opened a m).enteredSize a.scopes.size m.body.tag
  have last : a.scopes.size < (m.annotate a).scopes.size := by
    have := walks.size
    rw [m.annotateSize]
    omega
  have closed : F.scopes.symbol? a.scopes.size x = (m.annotate a).scopes.symbol? a.scopes.size x := by
    rw [ScopeTree.symbol?, run.closed _ (Nat.le_refl _) last, ScopeTree.symbol?]
  rw [closed]
  refine (ScopeTree.leaveSymbol _ _ _ x).trans ((ScopeTree.leaveSymbol _ _ _ x).trans ?_)
  have same := walks.only a.scopes.size (by omega) (by omega)
  rw [Analysis.enteredOld _ _ _ within] at same
  exact congrArg (fun s : Scope => s.symbols.get? x) same

namespace Program
variable {p : Program NodeId} {q : Progress} {m : Method NodeId} {known : List NodeId} {a : Analysis}

theorem bodyStart (unique : p.tags.Nodup) (run : m.Run p.annotated known a) (covered : q.reached ⊆ known)
    (kept : q.Kept p) (object : p.tag ∈ q.reached)
    (self : p.annotated.methods.contains selfName = false)
    (free : ∀ param ∈ m.params, p.annotated.methods.contains param.name = false) :
    Env.Sync p (Method.opened a m).scopes.size (q.receive m.params)
      [{}, Frame.ofParams m.params, Frame.object] := by
  obtain ⟨outer, inner⟩ := run.inner
  obtain ⟨_, within, _, body⟩ := run.body
  have received := kept.receive m.params
  have top : ((q.receive m.params).scopes.scope ScopeTree.root).parent = none :=
    (ScopeTree.blankParent received.marks _).trans
      (p.annotatedWalks.scope ScopeTree.root Nat.zero_lt_one).parent
  have untouched (x : String) : (q.receive m.params).scopes.symbol? a.scopes.size x =
      (Method.opened a m).scopes.symbol? a.scopes.size x := by
    rw [Progress.receiveEq, ← run.given x]
    refine kept.untouched (fun y v found earlier => ?_) x
    exact run.apart _ (m.paramTags (outer.vars y v found)) (covered earlier)
  have empty : Frame.Shows p { q.receive m.params with
      scopes := (a.entered ScopeTree.root m.tag).scopes } a.scopes.size {} := by
    refine ⟨fun x l found => ?_, fun x v _ found => ?_⟩
    · contradiction
    · simp [ScopeTree.symbol?, Analysis.enteredNew] at found
  -- Of two parameters with one name only the last has a symbol; so the frame grows along the walk.
  have params : Frame.Shows p (q.receive m.params) a.scopes.size (Frame.ofParams m.params) :=
    (Param.annotateAllShows m.params (a.enteredIn _ _) (fun _ given => q.receiveNew given) free
      empty).same rfl untouched
  have outside : Env.Sync p a.scopes.size (q.receive m.params)
      [Frame.ofParams m.params, Frame.object] :=
    ⟨received, .child ((ScopeTree.blankParent received.marks _).trans outer.parent) params
      (.top top (Frame.objectShows unique received (q.receiveOld _ object) self))⟩
  refine outside.enter inner.parent fun x v found there => ?_
  exact body.apart _ (inner.vars x v found) (m.received covered there)

def Reserved (p : Program NodeId) : Prop :=
  p.annotated.methods.contains selfName = false ∧
    ∀ m ∈ p.methods, ∀ param ∈ m.params, p.annotated.methods.contains param.name = false

theorem Between.mirrors (unique : p.tags.Nodup) (lawful : p.Lawful p.annotated)
    (reserved : p.Reserved) {done rest : List (Method NodeId)} (between : p.Between done q a)
    (all : p.methods = done ++ m :: rest) (run : Method.RunAll p.annotated known (m :: rest) a)
    (covered : q.reached ⊆ known) (kept : q.Kept p) :
    (∀ r, m.Passes p.annotated q r → m.WellFormed p ∧ r.Kept p) ∧
      (p.annotated.methods.count m.name ≤ 1 → m.WellFormed p →
        ∃ r, m.Passes p.annotated q r ∧ r.Kept p) := by
  have here := run.cons.1
  obtain ⟨outer, _, bound, body⟩ := here.body
  have member : m ∈ p.methods := by simp [all]
  have inside : Stmt.RunAll p.annotated (q.receive m.params).reached _ m.body.stmts _ :=
    ⟨body.toSegment.keep (m.received covered), body.inside⟩
  have both : Mirrors _ _ (Stmt.AllWellFormed (p.setting m) _ _ m.body.stmts) :=
    Stmt.allMirrors unique lawful m.body.stmts (between.place all run) inside
      (Nat.le_of_eq (m.annotateSize a).symm) here.counts
      (bodyStart unique here covered kept between.object reserved.1 (reserved.2 m member))
  have returns := here.inner.2.returns
  constructor
  · intro r passes
    obtain ⟨inner, scope, returning, passed⟩ := passes.body
    obtain rfl : (Method.opened a m).scopes.size = inner := by simpa [bound] using scope
    obtain ⟨after, formed, still⟩ := both.1 r passed
    exact ⟨⟨fun value => returns.symm.trans (returning value), after, formed⟩, still.toKept⟩
  · intro single formed
    obtain ⟨after, written⟩ := formed.body
    obtain ⟨r, passed, still⟩ := both.2 after written
    exact ⟨r, ⟨single, ⟨_, outer⟩, _, bound, fun value => returns.trans (formed.returning value),
      passed⟩, still.toKept⟩

theorem Between.allMirrors (unique : p.tags.Nodup) (lawful : p.Lawful p.annotated)
    (reserved : p.Reserved) {done ms : List (Method NodeId)} (between : p.Between done q a)
    (all : p.methods = done ++ ms) (run : Method.RunAll p.annotated known ms a)
    (covered : q.reached ⊆ known) (kept : q.Kept p) :
    (∀ r, Method.PassAll p.annotated q ms r →
        ∀ m ∈ ms, p.annotated.methods.count m.name ≤ 1 ∧ m.WellFormed p) ∧
      ((∀ m ∈ ms, p.annotated.methods.count m.name ≤ 1 ∧ m.WellFormed p) →
        ∃ r, Method.PassAll p.annotated q ms r ∧ r.Kept p) := by
  induction ms generalizing done q a known with
  | nil => exact ⟨by simp, fun _ => ⟨q, .nil, kept⟩⟩
  | cons m rest ih =>
    obtain ⟨here, later⟩ := run.cons
    have one := between.mirrors unique lawful reserved all run covered kept
    have others {r : Progress} (passes : m.Passes p.annotated q r) (still : r.Kept p) :=
      ih (between.after here passes) (by simp [all]) later (passes.reachedTags covered) still
    constructor
    · intro r passes
      cases passes with
      | cons first behind =>
        obtain ⟨formed, still⟩ := one.1 _ first
        exact List.forall_mem_cons.mpr ⟨⟨first.single, formed⟩, (others first still).1 r behind⟩
    · intro each
      obtain ⟨⟨single, formed⟩, remaining⟩ := List.forall_mem_cons.mp each
      obtain ⟨middle, first, still⟩ := one.2 single formed
      obtain ⟨r, behind, last⟩ := (others first still).2 remaining
      exact ⟨r, .cons first behind, last⟩

theorem startKept (p : Program NodeId) : p.startProgress.Kept p where
  marks := rfl
  quiet := rfl
  object := by
    have begun : p.begun.scopes.symbol? ScopeTree.root selfName =
        some (.var ⟨some .self, 0, true, p.tag⟩) := by rw [begunSymbol, if_pos ⟨rfl, rfl⟩]
    rcases (p.annotatedWalks.scope ScopeTree.root Nat.zero_lt_one).symbol selfName with
      same | ⟨_, _, new, _⟩ | ⟨absent, _⟩
    · exact same.trans begun
    · contradiction
    · exact absurd (absent.symm.trans begun) (by simp)
  unmarked _ _ _ found _ := found

theorem mainFound (p : Program NodeId) : p.annotated.methods.mainViolation? = none ↔
    ∃ m, p.findMethod? mainName = some m ∧ m.params = [] := by
  rw [MethodTable.mainViolation?, annotatedFind]
  cases p.findMethod? mainName with
  | none => simp
  | some m => simp [signature, Method.paramTypes]

theorem analysisDecidesRules {p : Program NodeId} (unique : p.tags.Nodup)
    (reserved : ∀ x, (x = selfName ∨ ∃ m ∈ p.methods, ∃ param ∈ m.params, param.name = x) →
      x ∉ p.methods.map Method.name ∧ ∀ i : Intrinsic, i.name ≠ x) :
    (∃ a, p.analyze = .ok a) ↔ p.WellFormed := by
  have free (x : String)
      (given : x = selfName ∨ ∃ m ∈ p.methods, ∃ param ∈ m.params, param.name = x) :
      p.annotated.methods.contains x = false := by
    obtain ⟨apart, other⟩ := reserved x given
    refine annotatedFree.mpr fun member => ?_
    rcases List.mem_append.mp member with declared | used
    · exact apart declared
    · obtain ⟨i, _, same⟩ := List.mem_map.mp used
      exact other i same
  have kept : p.Reserved := ⟨free _ (.inl rfl), fun m member param inside =>
    free _ (.inr ⟨m, member, param, inside, rfl⟩)⟩
  -- Both sides find the same variables once none is declared again, and each of them implies that.
  have methods (lawful : p.Lawful p.annotated) := Between.allMirrors unique lawful kept p.between rfl
    (annotatedRuns unique) (List.Subset.refl _) p.startKept
  constructor
  · rintro ⟨a, done⟩
    obtain ⟨q, clean, _⟩ := cleanOfAnalyze unique done
    have lawful : p.Lawful p.annotated := fun m member i d placed =>
      ⟨(clean.allowed m member i d placed).free, (clean.allowed m member i d placed).single⟩
    have each := (methods lawful).1 q clean.methods
    obtain ⟨distinct, apart⟩ := p.annotatedSingle.mp fun m member => (each m member).1
    exact ⟨p.mainFound.mp clean.main, distinct, apart, fun m member => (each m member).2⟩
  · intro formed
    have single := p.annotatedSingle.mpr ⟨formed.distinct, formed.apart⟩
    obtain ⟨q, passes, still⟩ := (methods (formed.lawful unique)).2
      fun m member => ⟨single m member, formed.methods m member⟩
    exact ⟨_, Clean.analyze ⟨p.mainFound.mpr formed.main, passes⟩ p.annotatedWalks.quiet
      (p.annotatedBound unique) still.quiet⟩

def branching (branch : Expr Unit → Stmt Unit) : Program NodeId :=
  let x : Expr Unit := .var () "x" {}
  let n : Expr Unit := .var () "n" {}
  let twice : Method Unit := ⟨(), "Twice", some .int, [⟨(), .int, "n", {}⟩],
    ⟨(), [.ret () (some (.binary () .add n n)) {}], {}⟩, {}⟩
  let main : Method Unit := ⟨(), "Main", none, [],
    ⟨(), [.declare () (some .int) [⟨(), "x", none, {}⟩] {},
      .ifElse () (.literal () (.bool true) {}) (branch x) () (.block () [] {}) {},
      .expr () (.writeLine () (.call () "Twice" [x] {}) {}) {}], {}⟩, {}⟩
  ((⟨(), [twice, main]⟩ : Program Unit).number 0).1

theorem branchingDecided :
    (branching fun x => .expr () (.assign () x (.literal () (.int 1) {})) {}).WellFormed ∧
      ¬ (branching fun _ => .ret () none {}).WellFormed := by
  have accepted {p : Program NodeId} :
      (∃ a, p.analyze = .ok a) ↔ p.analyze.toOption.isSome = true := by
    cases p.analyze <;> simp [Except.toOption]
  have named (i : Intrinsic) : i.name ≠ "this" ∧ i.name ≠ "n" := by
    rcases i with _ | input | _
    · decide
    · cases input <;> decide
    · decide
  have reserved (branch : Expr Unit → Stmt Unit) (x : String) (given : x = selfName ∨
      ∃ m ∈ (branching branch).methods, ∃ param ∈ m.params, param.name = x) :
      x ∉ (branching branch).methods.map Method.name ∧ ∀ i : Intrinsic, i.name ≠ x := by
    have names : (branching branch).methods.map Method.name = ["Twice", "Main"] := rfl
    have params : ((branching branch).methods.flatMap Method.params).map Param.name = ["n"] := rfl
    have either : x = "this" ∨ x = "n" := by
      rcases given with rfl | ⟨m, member, param, inside, rfl⟩
      · exact .inl rfl
      · have listed : param.name ∈ ((branching branch).methods.flatMap Method.params).map Param.name :=
          List.mem_map.mpr ⟨param, List.mem_flatMap.mpr ⟨m, member, inside⟩, rfl⟩
        rw [params] at listed
        exact .inr (List.mem_singleton.mp listed)
    rw [names]
    rcases either with rfl | rfl
    · exact ⟨by decide, fun i => (named i).1⟩
    · exact ⟨by decide, fun i => (named i).2⟩
  refine ⟨(analysisDecidesRules (by decide +kernel) (reserved _)).mp
    (accepted.mpr (by decide +kernel)), fun formed => ?_⟩
  have wrong := accepted.mp
    ((analysisDecidesRules (by decide +kernel) (reserved _)).mpr formed)
  revert wrong
  decide +kernel

end Program
end ClassCompiler
