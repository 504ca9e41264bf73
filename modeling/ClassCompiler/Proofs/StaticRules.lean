import ClassCompiler.Proofs.Frames

/-! The check decides the static rules. Construct by construct the check passes what the rules allow,
and the other way round; the frames of the rules then still show the scopes of the check. -/
namespace ClassCompiler
variable {p : Program NodeId} {limit : Nat}

theorem Program.settingUses (p : Program NodeId) (m : Method NodeId) :
    p.annotated.methods.uses = (p.setting m).methods := p.annotatedUsesEq

theorem Program.annotatedFree {p : Program NodeId} {x : String} :
    p.annotated.methods.contains x = false ↔ x ∉ p.taken := by
  rw [← annotatedContains, Bool.not_eq_true]

section
variable {method : Method NodeId} {q : Progress} {id : Nat} {a : Analysis} {env : Env}

theorem Expr.mirrors (sync : Env.Sync p id q env) (e : Expr NodeId) (type : DataType) :
    Mirrors (Env.Sync p id) (e.Passes p.annotated id q type)
      (e.WellFormed (p.setting method) env type) := by
  have uses := sync.accessAll e.accesses
  refine ⟨fun r passes => ?_, fun after formed => ?_⟩
  · obtain ⟨after, used, still⟩ := uses.1 r passes.used
    have typed := passes.typed
    rw [p.settingUses method, sync.types] at typed
    exact ⟨after, ⟨typed, used⟩, still⟩
  · obtain ⟨r, used, still⟩ := uses.2 after formed.used
    have typed := formed.typed
    rw [← p.settingUses method, ← sync.types] at typed
    exact ⟨r, ⟨typed, used⟩, still⟩

theorem Expr.Passes.annotated (unique : p.tags.Nodup) (lawful : p.Lawful p.annotated)
    (place : p.Place limit q id a) {e : Expr NodeId} {type : DataType} {r : Progress}
    (run : e.Run p.annotated q.reached id a) (passes : e.Passes p.annotated id q type r) :
    (e.annotate id a).1 = some type :=
  e.annotateTyped (Program.names unique lawful place.marks id) run place.within passes.typed

theorem Declarator.mirrors (unique : p.tags.Nodup) (lawful : p.Lawful p.annotated)
    (place : p.Place limit q id a) {type : Option DataType} {d : Declarator NodeId}
    (run : d.Run p.annotated q.reached type id a) {around : List String}
    (counts : p.annotated.Counts id around) (sync : Env.Sync p id q env) :
    Mirrors (Env.Sync p id) (d.Passes p.annotated type id q)
      (d.WellFormed (p.setting method) around type env) := by
  have unseen : d.tag ∉ q.reached :=
    run.apart d.tag d.tagMem
  have few : p.annotated.scopes.declarationCount id d.name ≤ 1 ↔ around.count d.name ≤ 1 := by
    rw [counts]
  have declared {r : Progress} {middle : Env} {known : DataType} {slot : Nat} {ready : Bool}
      (still : Env.Sync p id r middle) (reached : r.reached = q.reached)
      (free : p.annotated.methods.contains d.name = false)
      (single : p.annotated.scopes.declarationCount id d.name ≤ 1)
      (symbol : (d.annotate type id a).scopes.symbol? id d.name =
        some (.var ⟨some known, slot, ready, d.tag⟩)) :
      Env.Sync p id (r.reach d.tag) (Env.declare middle d.name ⟨known, ready⟩) :=
    still.declare free (run.final place.inner single symbol) rfl rfl (reached ▸ unseen)
      fun _ _ _ found node => place.only run found node
  refine ⟨fun r passes => ?_, fun after formed => ?_⟩
  · cases passes with
    | bare allowed missing =>
      obtain ⟨recorded, slot, symbol⟩ := run.bareSymbol missing
      obtain ⟨known, typed, value⟩ := allowed.typed
      obtain rfl := recorded.symm.trans typed
      exact ⟨_, .bare (Program.annotatedFree.mp allowed.free) (few.mp allowed.single) missing
        rfl value, declared sync rfl allowed.free allowed.single symbol⟩
    | @initial e found m allowed given passes agrees =>
      obtain ⟨middle, formed, still⟩ := (e.mirrors sync found).1 m passes
      have result : type.or (e.annotate id a).1 = some found := by
        rw [passes.annotated unique lawful place (run.init given), Declarator.typeAgreed agrees]
      obtain ⟨recorded, slot, symbol⟩ := run.initialSymbol given result
      obtain ⟨known, typed, value⟩ := allowed.typed
      obtain rfl : found = known := Option.some.inj (recorded.symm.trans typed)
      exact ⟨_, .initial (Program.annotatedFree.mp allowed.free) (few.mp allowed.single) given
        formed agrees value,
        declared still passes.onward.reached allowed.free allowed.single symbol⟩
  · cases formed with
    | @bare known free alone missing given value =>
      subst given
      obtain ⟨recorded, slot, symbol⟩ := run.bareSymbol missing
      have allowed : d.Allowed p.annotated id :=
        ⟨Program.annotatedFree.mpr free, few.mpr alone, known, recorded, value⟩
      exact ⟨_, .bare allowed missing, declared sync rfl allowed.free allowed.single symbol⟩
    | @initial e found middle free alone given initial agrees value =>
      obtain ⟨m, passes, still⟩ := (e.mirrors sync found).2 middle initial
      have result : type.or (e.annotate id a).1 = some found := by
        rw [passes.annotated unique lawful place (run.init given), Declarator.typeAgreed agrees]
      obtain ⟨recorded, slot, symbol⟩ := run.initialSymbol given result
      have allowed : d.Allowed p.annotated id :=
        ⟨Program.annotatedFree.mpr free, few.mpr alone, found, recorded, value⟩
      exact ⟨_, .initial allowed given passes agrees,
        declared still passes.onward.reached allowed.free allowed.single symbol⟩

theorem Declarator.allMirrors (unique : p.tags.Nodup) (lawful : p.Lawful p.annotated)
    {type : Option DataType} {around : List String} (counts : p.annotated.Counts id around)
    {ds : List (Declarator NodeId)} (place : p.Place limit q id a)
    (run : Declarator.RunAll p.annotated q.reached type id ds a) (sync : Env.Sync p id q env) :
    Mirrors (Env.Sync p id) (Declarator.PassAll p.annotated type id q ds)
      (Declarator.AllWellFormed (p.setting method) around type env ds) := by
  induction ds generalizing q a env with
  | nil =>
    refine ⟨fun r passes => ?_, fun after formed => ?_⟩
    · cases passes
      exact ⟨env, .nil, sync⟩
    · cases formed
      exact ⟨q, .nil, sync⟩
  | cons d rest ih =>
    obtain ⟨here, later⟩ := run.cons
    have first : Mirrors (Env.Sync p id) (d.Passes p.annotated type id q)
        (d.WellFormed (p.setting method) around type env) :=
      Declarator.mirrors unique lawful place here counts sync
    refine (first.bind fun m middle passes still => ih (place.declared here passes)
      ⟨later.toSegment.keep (Declarator.reachedTags passes), later.inside⟩ still).congr
        (fun r => ⟨fun passes => ?_, fun ⟨m, first, others⟩ => .cons first others⟩)
        fun after => ⟨fun formed => ?_, fun ⟨middle, first, others⟩ => .cons first others⟩
    · cases passes with
      | cons first others => exact ⟨_, first, others⟩
    · cases formed with
      | cons first others => exact ⟨_, first, others⟩

theorem Stmt.conditionalMirrors {n : NodeId} {cond : Expr NodeId} {body : Stmt NodeId}
    {around : List String} (place : p.Place limit q id a) (inside : id < a.scopes.size)
    (bodyRun : body.Run p.annotated q.reached a.scopes.size
      ((cond.annotate a.scopes.size (a.entered id n)).2.pop a.scopes.size 1))
    (room : (a.inScope id n fun inner a =>
      body.annotate inner ((cond.annotate inner a).2.pop inner 1)).scopes.size ≤ limit)
    (scope : p.annotated.Inner id a.scopes.size body.names body.isReturn body.tags)
    (counts : p.annotated.Counts id around) (sync : Env.Sync p id q env)
    (rest : ∀ {m : Progress} {c : Analysis} {middle : Env}, p.Place limit m a.scopes.size c →
      body.Run p.annotated m.reached a.scopes.size c →
      (body.annotate a.scopes.size c).scopes.size ≤ limit →
      p.annotated.Counts a.scopes.size (body.names ++ around) →
      Env.Sync p a.scopes.size m middle →
        Mirrors (Env.Sync p a.scopes.size)
          (Stmt.Passes p.annotated method.returnType a.scopes.size m body)
          (body.WellFormed (p.setting method) (body.names ++ around) middle)) :
    Mirrors (Env.Sync p id)
      (fun r => ∃ m, cond.Passes p.annotated a.scopes.size q .bool m ∧
        Stmt.Passes p.annotated method.returnType a.scopes.size m body r)
      fun after => ∃ frame middle, cond.WellFormed (p.setting method) ({} :: env) .bool middle ∧
        body.WellFormed (p.setting method) (body.names ++ around) middle (frame :: after) := by
  rw [Analysis.inScopeSize] at room
  have walks := (cond.conditionWalks a.scopes.size (a.entered id n)).trans
    (body.annotateWalks a.scopes.size _ bodyRun.inside)
  have start := place.entered n inside (Nat.le_trans walks.size room)
  have entered := sync.enter scope.parent fun x v found =>
    bodyRun.apart _ (scope.vars x v found)
  refine Env.Sync.leaves scope.parent ((cond.mirrors entered .bool).bind
    fun m middle passes still => rest (start.tested passes) ?_ room
      (scope.counts p.annotatedTidy.ordered counts) still)
  rw [passes.onward.reached]
  exact bodyRun

end

mutual

theorem Stmt.mirrors (unique : p.tags.Nodup) (lawful : p.Lawful p.annotated) {method : Method NodeId} :
    ∀ (s : Stmt NodeId) {id : Nat} {q : Progress} {a : Analysis} {env : Env} {around : List String},
      p.Place limit q id a → s.Run p.annotated q.reached id a →
      (s.annotate id a).scopes.size ≤ limit → p.annotated.Counts id around → Env.Sync p id q env →
        Mirrors (Env.Sync p id) (Stmt.Passes p.annotated method.returnType id q s)
          (s.WellFormed (p.setting method) around env)
  | .expr n e span, id, q, a, env, around, place, run, room, counts, sync => by
    refine ⟨fun r passes => ?_, fun after formed => ?_⟩
    · cases passes with
      | expr passes =>
        obtain ⟨after, formed, still⟩ := (e.mirrors sync _).1 r passes
        exact ⟨after, .expr formed, still⟩
    · cases formed with
      | expr formed =>
        obtain ⟨r, passes, still⟩ := (e.mirrors sync _).2 after formed
        exact ⟨r, .expr passes, still⟩
  | .declare n type vars span, id, q, a, env, around, place, run, room, counts, sync => by
    refine (Declarator.allMirrors unique lawful counts place run.declare
      sync).congr (fun r => ⟨fun passes => ?_, .declare⟩) fun after => ⟨fun formed => ?_, .declare⟩
    · cases passes with
      | declare passes => exact passes
    · cases formed with
      | declare formed => exact formed
  | .ret n (some e) span, id, q, a, env, around, place, run, room, counts, sync => by
    refine ⟨fun r passes => ?_, fun after formed => ?_⟩
    · cases passes with
      | @ret _ _ _ _ _ type _ passes agrees =>
        have noted := run.returned (passes.annotated unique lawful place run.ret)
        obtain rfl : type = method.returnType := agrees type noted
        obtain ⟨after, formed, still⟩ := (e.mirrors sync _).1 r passes
        exact ⟨after, .ret formed, still⟩
    · cases formed with
      | ret formed =>
        obtain ⟨r, passes, still⟩ := (e.mirrors sync _).2 after formed
        have noted := run.returned (passes.annotated unique lawful place run.ret)
        exact ⟨r, .ret passes fun found known => Option.some.inj (known.symm.trans noted), still⟩
  | .ret n none span, id, q, a, env, around, place, run, room, counts, sync => by
    refine ⟨fun r passes => ?_, fun after formed => ?_⟩
    · cases passes with
      | leave agrees => exact ⟨env, .leave (agrees .void run.left).symm, sync⟩
    · cases formed with
      | leave nothing =>
        refine ⟨q, .leave fun found known => ?_, sync⟩
        exact (Option.some.inj (known.symm.trans run.left)).trans nothing.symm
  | .block n body span, id, q, a, env, around, place, run, room, counts, sync => by
    obtain ⟨bound, inner⟩ := run.block
    have scope := run.blockInner
    have walks := Stmt.annotateAllWalks body a.scopes.size (a.entered id n) inner.inside
    rw [Stmt.annotate, Analysis.inScopeSize] at room
    have start := place.entered n run.inside (Nat.le_trans walks.size room)
    have entered := sync.enter scope.parent fun x v found => inner.apart _ (scope.vars x v found)
    refine (Env.Sync.leaves scope.parent (Stmt.allMirrors unique lawful body start inner room
      (scope.counts p.annotatedTidy.ordered counts) entered)).congr
        (fun r => ⟨fun passes => ?_, .block bound⟩)
        fun after => ⟨fun formed => ?_, fun ⟨frame, inside⟩ => .block inside⟩
    · cases passes with
      | block other passes =>
        obtain rfl : a.scopes.size = _ := by simpa [bound] using other
        exact passes
    · cases formed with
      | block formed => exact ⟨_, formed⟩
  | .ifThen n cond yes span, id, q, a, env, around, place, run, room, counts, sync => by
    obtain ⟨bound, _, inner⟩ := run.ifThen
    refine (Stmt.conditionalMirrors place run.inside inner room
      run.ifThenInner counts sync (yes.mirrors unique lawful)).congr
        (fun r => ⟨fun passes => ?_, fun ⟨m, condition, inside⟩ => .ifThen bound condition inside⟩)
        fun after => ⟨fun formed => ?_, fun ⟨frame, middle, condition, inside⟩ =>
          .ifThen condition inside⟩
    · cases passes with
      | ifThen other condition passes =>
        obtain rfl : a.scopes.size = _ := by simpa [bound] using other
        exact ⟨_, condition, passes⟩
    · cases formed with
      | ifThen condition inside => exact ⟨_, _, condition, inside⟩
  | .ifElse n cond yes m no span, id, q, a, env, around, place, run, room, counts, sync => by
    obtain ⟨before, inside, beside, noRun⟩ := run.ifElse
    obtain ⟨bound, _, inner⟩ := before.ifThen
    have scope := run.elseInner
    obtain ⟨earlier, entered, room⟩ := Stmt.elseRoom room
    have otherwise : ∀ r between,
        (∃ m, cond.Passes p.annotated a.scopes.size q .bool m ∧
          Stmt.Passes p.annotated method.returnType a.scopes.size m yes r) →
        Env.Sync p id r between →
          Mirrors (Env.Sync p id) (Stmt.Passes p.annotated method.returnType
              ((Stmt.ifThen n cond yes span).annotate id a).scopes.size r no)
            fun after => ∃ frame, no.WellFormed (p.setting method) (no.names ++ around)
              ({} :: between) (frame :: after) := by
      -- The second branch starts where the statement without it ends.
      rintro r between ⟨middle, condition, passed⟩ still
      have passes : Stmt.Passes p.annotated method.returnType id q (.ifThen n cond yes span) r :=
        .ifThen bound condition passed
      have next : no.Run p.annotated r.reached _ _ :=
        ⟨noRun.toSegment.keep (Stmt.reachedTags passes), noRun.inside⟩
      have start := (place.after before passes earlier).entered m inside entered
      have opened := still.enter scope.parent fun x v found =>
        next.apart _ (scope.vars x v found)
      exact Env.Sync.leaves scope.parent (no.mirrors unique lawful start next room
        (scope.counts p.annotatedTidy.ordered counts) opened)
    refine ((Stmt.conditionalMirrors place run.inside inner earlier before.ifThenInner counts sync
      (yes.mirrors unique lawful)).bind otherwise).congr ?_ ?_
    · intro last
      refine ⟨fun passes => ?_, fun ⟨r, ⟨m, condition, passes⟩, otherwise⟩ =>
        .ifElse bound condition passes beside otherwise⟩
      cases passes with
      | ifElse other condition passes second otherwise =>
        obtain rfl : a.scopes.size = _ := by simpa [bound] using other
        obtain rfl : ((Stmt.ifThen n cond yes span).annotate id a).scopes.size = _ := by
          simpa [beside] using second
        exact ⟨_, ⟨_, condition, passes⟩, otherwise⟩
    · intro after
      refine ⟨fun formed => ?_, fun ⟨between, ⟨frame, middle, condition, formed⟩, other, otherwise⟩ =>
        .ifElse condition formed otherwise⟩
      cases formed with
      | ifElse condition formed otherwise =>
        exact ⟨_, ⟨_, _, condition, formed⟩, _, otherwise⟩
  | .loop n cond body span, id, q, a, env, around, place, run, room, counts, sync => by
    obtain ⟨bound, _, inner⟩ := run.loop
    refine (Stmt.conditionalMirrors place run.inside inner room
      run.loopInner counts sync (body.mirrors unique lawful)).congr
        (fun r => ⟨fun passes => ?_, fun ⟨m, condition, inside⟩ => .loop bound condition inside⟩)
        fun after => ⟨fun formed => ?_, fun ⟨frame, middle, condition, inside⟩ =>
          .loop condition inside⟩
    · cases passes with
      | loop other condition passes =>
        obtain rfl : a.scopes.size = _ := by simpa [bound] using other
        exact ⟨_, condition, passes⟩
    · cases formed with
      | loop condition inside => exact ⟨_, _, condition, inside⟩

theorem Stmt.allMirrors (unique : p.tags.Nodup) (lawful : p.Lawful p.annotated)
    {method : Method NodeId} : ∀ (ss : List (Stmt NodeId)) {id : Nat} {q : Progress} {a : Analysis}
    {env : Env} {around : List String}, p.Place limit q id a →
      Stmt.RunAll p.annotated q.reached id ss a → (Stmt.annotateAll ss id a).scopes.size ≤ limit →
      p.annotated.Counts id around → Env.Sync p id q env →
        Mirrors (Env.Sync p id) (Stmt.PassAll p.annotated method.returnType id q ss)
          (Stmt.AllWellFormed (p.setting method) around env ss)
  | [], id, q, a, env, around, place, run, room, counts, sync => by
    refine ⟨fun r passes => ?_, fun after formed => ?_⟩
    · cases passes
      exact ⟨env, .nil, sync⟩
    · cases formed
      exact ⟨q, .nil, sync⟩
  | s :: rest, id, q, a, env, around, place, run, room, counts, sync => by
    obtain ⟨here, later⟩ := run.cons
    have middle : (s.annotate id a).scopes.size ≤ limit :=
      Nat.le_trans (Stmt.annotateAllWalks rest id _ later.inside).size room
    refine ((s.mirrors unique lawful place here middle counts sync).bind
      fun m between passes still => Stmt.allMirrors unique lawful rest
        (place.after here passes middle)
        ⟨later.toSegment.keep (Stmt.reachedTags passes), later.inside⟩ room counts still).congr
          (fun r => ⟨fun passes => ?_, fun ⟨m, first, others⟩ => .cons first others⟩)
          fun after => ⟨fun formed => ?_, fun ⟨between, first, others⟩ => .cons first others⟩
    · cases passes with
      | cons first others => exact ⟨_, first, others⟩
    · cases formed with
      | cons first others => exact ⟨_, first, others⟩

end
end ClassCompiler
