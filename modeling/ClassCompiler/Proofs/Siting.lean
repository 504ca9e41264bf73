import ClassCompiler.Proofs.Slots

/-! Bodies with their variables in slots. A judgement goes over a body together with the variables that
can be used: every name in it is found in the slot of its variable, types are those that have been
recorded, and a declaration takes the next slot. It holds of every program that has been analyzed, if
no variable is called like the object. -/
namespace ClassCompiler

def Bindings.Shows (a : Analysis) (id : Nat) (env : Bindings) (vars : String → Option DataType) :
    Prop :=
  ∀ x type, vars x = some type → type ≠ .void ∧ ∃ b k, env.find? x = some b ∧ b.type = type ∧
    env.inSlot k = some b ∧ (a.view id).cell x = some k

def Expr.Sited (a : Analysis) (id : Nat) (env : Bindings) (e : Expr NodeId) (type : DataType) : Prop :=
  ∃ vars, e.HasType a.methods.uses vars type ∧
    e.Recorded a.typeOf? (Expr.HasType a.methods.uses vars) ∧ env.Shows a id vars

inductive Declarator.Sited (a : Analysis) (id : Nat) (type : Option DataType) (env : Bindings)
    (d : Declarator NodeId) : Bindings → Prop where
  | bare {known} (missing : d.init = none) (given : type = some known)
      (new : ∀ b ∈ env, b.node ≠ d.tag) : Sited a id type env d (⟨d.name, d.tag, known⟩ :: env)
  | initial {e found} (given : d.init = some e) (value : e.Sited a id env found)
      (agrees : ∀ expected, type = some expected → found = expected)
      (new : ∀ b ∈ env, b.node ≠ d.tag) (slot : (a.view id).cell d.name = some env.length) :
      Sited a id type env d (⟨d.name, d.tag, found⟩ :: env)

inductive Declarator.AllSited (a : Analysis) (id : Nat) (type : Option DataType) :
    Bindings → List (Declarator NodeId) → Bindings → Prop where
  | nil {env} : AllSited a id type env [] env
  | cons {env d middle rest after} (first : d.Sited a id type env middle)
      (others : AllSited a id type middle rest after) : AllSited a id type env (d :: rest) after

mutual

inductive Stmt.Sited (a : Analysis) (returns : DataType) :
    Nat → Bindings → Stmt NodeId → Bindings → Prop where
  | expr {id env n e span type} (value : e.Sited a id env type)
      (recorded : (∃ m target value, e = .assign m target value) ∨ a.typeOf? n = some type) :
      Sited a returns id env (.expr n e span) env
  | declare {id env n type vars span after}
      (declared : Declarator.AllSited a id type env vars after) :
      Sited a returns id env (.declare n type vars span) after
  | ret {id env n e span} (value : e.Sited a id env returns)
      (recorded : a.typeOf? n = some returns) : Sited a returns id env (.ret n (some e) span) env
  | leave {id env n span} (recorded : a.typeOf? n = some .void) :
      Sited a returns id env (.ret n none span) env
  | block {id env n body span inner after} (scope : a.scopeIds.get? n = some inner)
      (inside : Stmt.AllSited a returns inner env body after) :
      Sited a returns id env (.block n body span) env
  | ifThen {id env n cond yes span inner after} (scope : a.scopeIds.get? n = some inner)
      (condition : cond.Sited a inner env .bool) (inside : Sited a returns inner env yes after) :
      Sited a returns id env (.ifThen n cond yes span) env
  | ifElse {id env n cond yes m no span inner other after behind}
      (scope : a.scopeIds.get? n = some inner) (condition : cond.Sited a inner env .bool)
      (inside : Sited a returns inner env yes after) (beside : a.scopeIds.get? m = some other)
      (otherwise : Sited a returns other env no behind) :
      Sited a returns id env (.ifElse n cond yes m no span) env
  | loop {id env n cond body span inner after} (scope : a.scopeIds.get? n = some inner)
      (condition : cond.Sited a inner env .bool) (inside : Sited a returns inner env body after) :
      Sited a returns id env (.loop n cond body span) env

inductive Stmt.AllSited (a : Analysis) (returns : DataType) :
    Nat → Bindings → List (Stmt NodeId) → Bindings → Prop where
  | nil {id env} : AllSited a returns id env [] env
  | cons {id env s middle rest after} (first : Stmt.Sited a returns id env s middle)
      (others : AllSited a returns id middle rest after) :
      AllSited a returns id env (s :: rest) after

end

structure Program.Coded (p : Program NodeId) (a : Analysis) : Prop extends p.Sane where
  alike : a.Alike p.annotated
  named : ∀ m ∈ p.methods, ∀ d ∈ Stmt.declaratorsAll m.body.stmts, d.name ≠ selfName

/-- A place in a body, with the variables that can be used there. -/
structure Program.Site (p : Program NodeId) (limit : Nat) (q : Progress) (id : Nat) (a : Analysis)
    (env : Bindings) : Prop extends p.Place limit q id a where
  sites : env.Sites a.scopes id
  reached : ∀ b ∈ env, b.node ∈ q.reached

section
variable {p : Program NodeId} {final : Analysis} {limit : Nat} {q r : Progress} {id : Nat}
  {a : Analysis} {env : Bindings}

namespace Program.Coded

theorem shows (coded : p.Coded final) (marks : q.scopes.blank = p.annotated.scopes.blank)
    (settled : p.annotated.Settled p q.reached id a) (sites : env.Sites a.scopes id) :
    env.Shows final id (q.types id) := by
  intro x type known
  obtain ⟨home, v, there, same, symbol⟩ := found marks known
  obtain ⟨b, meant, slot, typed⟩ :=
    sites.slots x v (settled.lookup coded.unique coded.lawful there)
  have last : p.annotated.scopes.lookup id x = some (.var v) := by
    rcases settled.final coded.unique coded.lawful there with last | ⟨root, w, _, m, method, i, d, facts⟩
    · exact last
    · obtain ⟨placed, name, _⟩ := facts
      cases origin coded.unique symbol with
      | object _ object _ _ =>
        exact absurd (name.trans object)
          (coded.named m method d (Stmt.placedAllDeclarators m.body.stmts placed))
      | param inner => exact absurd root inner
      | declared inner => exact absurd root inner
  obtain ⟨marked, found⟩ := ScopeTree.lookupVariable coded.alike.marks.symm last
  refine ⟨coded.solid marks known, b, v.slot, meant, ?_, slot, ?_⟩
  · exact Option.some.inj (typed.symm.trans same)
  · simp only [Analysis.view, found]

theorem sited (coded : p.Coded final) {e : Expr NodeId} {type : DataType}
    (marks : q.scopes.blank = p.annotated.scopes.blank)
    (settled : p.annotated.Settled p q.reached id a) (sites : env.Sites a.scopes id)
    (typed : e.HasType p.annotated.methods.uses (q.types id) type)
    (recorded : e.Recorded p.annotated.typeOf?
      (Expr.HasType p.annotated.methods.uses (q.types id))) : e.Sited final id env type := by
  refine ⟨q.types id, ?_, ?_, coded.shows marks settled sites⟩
  · rwa [coded.alike.methods]
  · rwa [coded.alike.methods, coded.alike.typeOf]

theorem passesSited (coded : p.Coded final) {e : Expr NodeId} {type : DataType}
    (site : p.Site limit q id a env) (run : e.Run p.annotated q.reached id a)
    (passes : e.Passes p.annotated id q type r) : e.Sited final id env type :=
  coded.sited site.marks (run.settled site.within) site.sites passes.typed
    (e.annotateRecorded (coded.agrees site.marks id).types run site.within passes.typed)

end Program.Coded

namespace Program.Site

theorem tested (site : p.Site limit q id a env) {e : Expr NodeId} {type : DataType}
    (run : e.Run p.annotated q.reached id a) (passes : e.Passes p.annotated id q type r) :
    p.Site limit r id ((e.annotate id a).2.pop id 1) env where
  toPlace := site.toPlace.tested passes
  sites := site.sites.leads (e.conditionWalks id a).toLeads run.tidy run.inside
  reached b member := by
    rw [passes.onward.reached]
    exact site.reached b member

theorem entered (site : p.Site limit q id a env) (tidy : a.Tidy) (n : NodeId)
    (inside : id < a.scopes.size) (room : (a.entered id n).scopes.size ≤ limit) :
    p.Site limit q a.scopes.size (a.entered id n) env where
  toPlace := site.toPlace.entered n inside room
  sites := site.sites.entered tidy inside n
  reached := site.reached

theorem after {returns : DataType} {s : Stmt NodeId} {passed : List NodeId}
    (site : p.Site limit q id a env) (run : s.Run p.annotated q.reached id a)
    (passes : Stmt.Passes p.annotated returns id q s r)
    (room : (s.annotate id a).scopes.size ≤ limit) (walks : a.Walks id [] passed (s.annotate id a)) :
    p.Site limit r id (s.annotate id a) env where
  toPlace := site.toPlace.after run passes room
  sites := site.sites.leads walks.toLeads run.tidy run.inside
  reached b member := by
    rw [(s.passesReaches passes).reached]
    exact List.mem_append_right _ (site.reached b member)

end Program.Site

theorem Declarator.Run.absent {F b : Analysis} {kept passed : List NodeId}
    {type known : Option DataType} {d : Declarator NodeId} {ready : Bool}
    (run : d.Run F kept type id a) (inner : id ≠ ScopeTree.root) (allowed : d.Allowed F id)
    (walks : a.Walks id [] passed b)
    (walked : d.annotate type id a =
      (b.mapScopes fun t => t.declareVariable id d.name known ready d.tag).setType d.tag known) :
    b.scopes.symbol? id d.name = none := by
  have tidy := walks.tidy run.tidy
  have inside := Nat.lt_of_lt_of_le run.inside walks.size
  have declared := (Analysis.Gathers.declareVariable inside d.name known ready d.tag).count d.name
  obtain ⟨fresh, passed, leads, _⟩ := run.ahead
  have whole := (d.annotateWalks type id a).tidy run.tidy
  have more := (leads.scope id (Nat.lt_of_lt_of_le run.inside (d.annotateWalks type id a).size)).count
    d.name
  have own := ScopeTree.declarationCountOwn (leads.tidy whole).ordered inner d.name
  have few := allowed.single
  cases found : b.scopes.symbol? id d.name with
  | none => rfl
  | some s =>
    cases s with
    | var v =>
      have counted := tidy.counted id d.name v found
      rw [walked, Analysis.setTypeScopes, declared] at more
      simp only [List.count_singleton_self] at more
      omega
    | method m =>
      have taken : (d.annotate type id a).methods.contains d.name = true := by
        rw [walked]
        cases known <;> exact tidy.used id d.name m found
      have free := allowed.free
      rw [leads.taken d.name taken] at free
      contradiction

theorem Bindings.reachedAdd {b : Binding} (reached : ∀ c ∈ env, c.node ∈ q.reached) :
    ∀ c ∈ b :: env, c.node ∈ (q.reach b.node).reached :=
  List.forall_mem_cons.mpr ⟨List.mem_cons_self .., fun c old => List.mem_cons_of_mem _ (reached c old)⟩

theorem Declarator.passesSited (coded : p.Coded final) {d : Declarator NodeId}
    {type : Option DataType} (site : p.Site limit q id a env)
    (run : d.Run p.annotated q.reached type id a) (passes : d.Passes p.annotated type id q r) :
    ∃ after, d.Sited final id type env after ∧ p.Site limit r id (d.annotate type id a) after := by
  have place := site.declared run passes
  have new : ∀ b ∈ env, b.node ≠ d.tag :=
    fun b member same => run.apart d.tag d.tagMem (same ▸ site.reached b member)
  cases passes with
  | bare allowed missing =>
    have absent := run.absent site.inner allowed (Analysis.Walks.refl a id)
      (Declarator.annotateBare missing)
    obtain ⟨recorded, _⟩ := run.bareSymbol missing
    obtain ⟨known, typed, _⟩ := allowed.typed
    obtain rfl : type = some known := recorded.symm.trans typed
    refine ⟨_, .bare missing rfl new, place, ?_, ?_⟩
    · rw [Declarator.annotateBare missing, Analysis.setTypeScopes]
      exact site.sites.declare run.tidy.ordered run.inside absent known false d.tag
    · exact Bindings.reachedAdd site.reached
  | @initial e found m allowed given passes agrees =>
    have inner := run.init given
    have result := e.annotateTyped (coded.agrees site.marks id).types inner site.within passes.typed
    have varType : type.or (e.annotate id a).1 = some found := by
      rw [result, Declarator.typeAgreed agrees]
    have walked := Declarator.annotateInitial given varType
    -- The walk over the initial value leaves the slots as they are.
    have walks := e.conditionWalks id a
    have absent := run.absent site.inner allowed walks walked
    have before := site.sites.leads walks.toLeads run.tidy run.inside
    have inside := Nat.lt_of_lt_of_le run.inside walks.size
    have ordered := (walks.tidy run.tidy).ordered
    have symbol : (d.annotate type id a).scopes.symbol? id d.name =
        some (.var ⟨some found, env.length, true, d.tag⟩) := by
      rw [walked, Analysis.setTypeScopes, Analysis.mapScopes, ScopeTree.declaredSymbol,
        if_pos ⟨rfl, inside, rfl⟩, ScopeTree.nextSlot, before.count]
    obtain ⟨marked, slot⟩ := ScopeTree.lookupVariable coded.alike.marks.symm
      (ScopeTree.lookupOwn (inner.settled site.within).ordered
        (run.final site.inner allowed.single symbol))
    refine ⟨_, .initial given (coded.passesSited site inner passes) agrees new ?_, place, ?_, ?_⟩
    · simp only [Analysis.view, slot]
    · rw [walked, Analysis.setTypeScopes]
      exact before.declare ordered inside absent found true d.tag
    · exact Bindings.reachedAdd (passes.onward.reached ▸ site.reached)

theorem Declarator.passAllSited (coded : p.Coded final) {type : Option DataType}
    {ds : List (Declarator NodeId)} (site : p.Site limit q id a env)
    (run : Declarator.RunAll p.annotated q.reached type id ds a)
    (passes : Declarator.PassAll p.annotated type id q ds r) :
    ∃ after, Declarator.AllSited final id type env ds after ∧
      p.Site limit r id (Declarator.annotateAll type id ds a) after := by
  induction passes generalizing a env with
  | nil => exact ⟨env, .nil, site⟩
  | @cons q d m rest r first others ih =>
    obtain ⟨here, later⟩ := run.cons
    obtain ⟨middle, sited, behind⟩ := Declarator.passesSited coded site here first
    obtain ⟨after, all, last⟩ := ih behind
      ⟨later.toSegment.keep (Declarator.reachedTags first), later.inside⟩
    exact ⟨after, .cons sited all, last⟩

theorem Stmt.Run.dropped {F : Analysis} {kept : List NodeId} {n : NodeId} {e : Expr NodeId}
    {span : Span} {type : DataType} (run : (Stmt.expr n e span).Run F kept id a)
    (plain : ∀ m target value, e ≠ .assign m target value)
    (result : (e.annotate id a).1 = some type) : F.typeOf? n = some type := by
  have member : n ∈ (Stmt.expr n e span).tags := by simp [Stmt.tags, Stmt.nodes]
  have recorded := run.ahead.type (List.mem_append_left _ member)
  simp only [Stmt.annotate, Expr.droppedPlain plain, result] at recorded
  rw [recorded]
  cases type <;> exact (Analysis.typeOfSetType ..).trans (if_pos rfl)

theorem Stmt.exprSited (coded : p.Coded final) {n : NodeId} {e : Expr NodeId} {span : Span}
    {type returns : DataType} (site : p.Site limit q id a env)
    (run : (Stmt.expr n e span).Run p.annotated q.reached id a)
    (passes : e.Passes p.annotated id q type r) :
    Stmt.Sited final returns id env (.expr n e span) env := by
  by_cases assigns : ∃ m target value, e = .assign m target value
  · obtain ⟨m, target, value, rfl⟩ := assigns
    have typed := passes.typed
    cases passes.typed with
    | @assign _ k x place _ _ known assigned =>
      have valueRun := run.assigned
      exact .expr (coded.sited site.marks (valueRun.settled site.within) site.sites typed
        (value.annotateRecorded (coded.agrees site.marks id).types valueRun site.within assigned))
        (.inl ⟨m, _, value, rfl⟩)
  · have plain : ∀ m target value, e ≠ .assign m target value :=
      fun m target value same => assigns ⟨m, target, value, same⟩
    have inner := run.plain plain
    have noted := run.dropped plain
      (e.annotateTyped (coded.agrees site.marks id).types inner site.within passes.typed)
    exact .expr (coded.passesSited site inner passes) (.inr (by rw [coded.alike.typeOf]; exact noted))

theorem Stmt.conditionalSited (coded : p.Coded final) {n : NodeId} {cond : Expr NodeId}
    {body : Stmt NodeId} {returns : DataType} {m : Progress} (site : p.Site limit q id a env)
    (tidy : a.Tidy) (inside : id < a.scopes.size)
    (condRun : cond.Run p.annotated q.reached a.scopes.size (a.entered id n))
    (bodyRun : body.Run p.annotated q.reached a.scopes.size
      ((cond.annotate a.scopes.size (a.entered id n)).2.pop a.scopes.size 1))
    (room : (a.inScope id n fun inner a =>
      body.annotate inner ((cond.annotate inner a).2.pop inner 1)).scopes.size ≤ limit)
    (condition : cond.Passes p.annotated a.scopes.size q .bool m)
    (rest : ∀ {c : Analysis}, p.Site limit m a.scopes.size c env →
      body.Run p.annotated m.reached a.scopes.size c →
      (body.annotate a.scopes.size c).scopes.size ≤ limit →
        ∃ after, Stmt.Sited final returns a.scopes.size env body after ∧
          p.Site limit r a.scopes.size (body.annotate a.scopes.size c) after) :
    cond.Sited final a.scopes.size env .bool ∧
      (∃ after, Stmt.Sited final returns a.scopes.size env body after) ∧
      ∃ passed, a.Walks id [] passed (a.inScope id n fun inner a =>
        body.annotate inner ((cond.annotate inner a).2.pop inner 1)) := by
  have walks := (cond.conditionWalks a.scopes.size (a.entered id n)).trans
    (body.annotateWalks a.scopes.size _ bodyRun.inside)
  have whole := a.inScopeWalks
    (fun inner a => body.annotate inner ((cond.annotate inner a).2.pop inner 1)) inside walks
  rw [Analysis.inScopeSize] at room
  have start := site.entered tidy n inside (Nat.le_trans walks.size room)
  rw [← condition.onward.reached] at bodyRun
  obtain ⟨after, sited, _⟩ := rest (start.tested condRun condition) bodyRun room
  exact ⟨coded.passesSited start condRun condition, ⟨after, sited⟩, _, whole⟩

mutual

theorem Stmt.passesSited (coded : p.Coded final) : ∀ (s : Stmt NodeId) {returns : DataType} {id : Nat}
    {q r : Progress} {a : Analysis} {env : Bindings}, p.Site limit q id a env →
      s.Run p.annotated q.reached id a → (s.annotate id a).scopes.size ≤ limit →
      Stmt.Passes p.annotated returns id q s r →
        ∃ after, Stmt.Sited final returns id env s after ∧ p.Site limit r id (s.annotate id a) after
  | .expr n e span, _, id, q, r, a, env, site, run, room, passes => by
    have walks := e.droppedWalks id n a
    have behind := site.after run passes room walks
    cases passes with
    | expr passes => exact ⟨env, Stmt.exprSited coded site run passes, behind⟩
  | .declare n type vars span, _, id, q, r, a, env, site, run, room, passes => by
    cases passes with
    | declare passes =>
      obtain ⟨after, sited, last⟩ := Declarator.passAllSited coded site run.declare passes
      exact ⟨after, .declare sited, last⟩
  | .ret n (some e) span, _, id, q, r, a, env, site, run, room, passes => by
    have walks := ((e.conditionWalks id a).trans (Analysis.Walks.setType _ id n
      (e.annotate id a).1)).trans (Analysis.Walks.markReturn _ id)
    have behind := site.after run passes room walks
    cases passes with
    | ret passes agrees =>
      have noted := run.returned
        (e.annotateTyped (coded.agrees site.marks id).types run.ret site.within passes.typed)
      obtain rfl := agrees _ noted
      exact ⟨env, .ret (coded.passesSited site run.ret passes)
        (by rw [coded.alike.typeOf]; exact noted), behind⟩
  | .ret n none span, _, id, q, r, a, env, site, run, room, passes => by
    have walks := (Analysis.Walks.setType a id n (some .void)).trans
      (Analysis.Walks.markReturn _ id)
    have behind := site.after run passes room walks
    exact ⟨env, .leave (by rw [coded.alike.typeOf]; exact run.left), behind⟩
  | .block n body span, _, id, q, r, a, env, site, run, room, passes => by
    obtain ⟨bound, inner⟩ := run.block
    have walks := Stmt.annotateAllWalks body a.scopes.size (a.entered id n) inner.inside
    have behind := site.after run passes room
      (a.inScopeWalks (fun inner a => Stmt.annotateAll body inner a) run.inside walks)
    cases passes with
    | block scope passes =>
      obtain rfl : a.scopes.size = _ := by simpa [bound] using scope
      rw [Stmt.annotate, Analysis.inScopeSize] at room
      obtain ⟨after, sited, _⟩ := Stmt.passAllSited coded body
        (site.entered run.tidy n run.inside (Nat.le_trans walks.size room)) inner room passes
      exact ⟨env, .block (by rw [coded.alike.scopeIds]; exact scope) sited, behind⟩
  | .ifThen n cond yes span, _, id, q, r, a, env, site, run, room, passed => by
    cases passed with
    | ifThen scope condition passes =>
      obtain ⟨bound, condRun, inner⟩ := run.ifThen
      obtain rfl : a.scopes.size = _ := by simpa [bound] using scope
      obtain ⟨tested, ⟨after, sited⟩, _, walks⟩ := Stmt.conditionalSited coded site run.tidy run.inside
        condRun inner room condition
        fun middle within fits => yes.passesSited coded middle within fits passes
      exact ⟨env, .ifThen (by rw [coded.alike.scopeIds]; exact scope) tested sited,
        site.after run (.ifThen scope condition passes) room walks⟩
  | .ifElse n cond yes m no span, _, id, q, r, a, env, site, run, room, passed => by
    cases passed with
    | ifElse scope condition passes beside otherwise =>
      obtain ⟨before, inside, other, noRun⟩ := run.ifElse
      obtain ⟨bound, condRun, inner⟩ := before.ifThen
      obtain rfl : a.scopes.size = _ := by simpa [bound] using scope
      obtain ⟨earlier, entered, left⟩ := Stmt.elseRoom room
      obtain ⟨tested, ⟨after, sited⟩, _, walks⟩ := Stmt.conditionalSited coded site run.tidy run.inside
        condRun inner earlier condition
        fun middle within fits => yes.passesSited coded middle within fits passes
      have first : Stmt.Passes p.annotated _ id q (.ifThen n cond yes span) _ :=
        .ifThen scope condition passes
      have middle := site.after before first earlier walks
      obtain rfl : ((Stmt.ifThen n cond yes span).annotate id a).scopes.size = _ := by
        simpa [other] using beside
      obtain ⟨behind, otherSited, _⟩ := no.passesSited coded
        (middle.entered (walks.tidy run.tidy) m inside entered)
        ⟨noRun.toSegment.keep (Stmt.reachedTags first), noRun.inside⟩ left otherwise
      have all := walks.trans (Analysis.inScopeWalks _ (fun inner a => no.annotate inner a) inside
        (no.annotateWalks _ _ noRun.inside))
      exact ⟨env, .ifElse (by rw [coded.alike.scopeIds]; exact scope) tested sited
        (by rw [coded.alike.scopeIds]; exact beside) otherSited,
        site.after run (.ifElse scope condition passes beside otherwise) room all⟩
  | .loop n cond body span, _, id, q, r, a, env, site, run, room, passed => by
    cases passed with
    | loop scope condition passes =>
      obtain ⟨bound, condRun, inner⟩ := run.loop
      obtain rfl : a.scopes.size = _ := by simpa [bound] using scope
      obtain ⟨tested, ⟨after, sited⟩, _, walks⟩ := Stmt.conditionalSited coded site run.tidy run.inside
        condRun inner room condition
        fun middle within fits => body.passesSited coded middle within fits passes
      exact ⟨env, .loop (by rw [coded.alike.scopeIds]; exact scope) tested sited,
        site.after run (.loop scope condition passes) room walks⟩

theorem Stmt.passAllSited (coded : p.Coded final) : ∀ (ss : List (Stmt NodeId)) {returns : DataType}
    {id : Nat} {q r : Progress} {a : Analysis} {env : Bindings}, p.Site limit q id a env →
      Stmt.RunAll p.annotated q.reached id ss a → (Stmt.annotateAll ss id a).scopes.size ≤ limit →
      Stmt.PassAll p.annotated returns id q ss r →
        ∃ after, Stmt.AllSited final returns id env ss after ∧
          p.Site limit r id (Stmt.annotateAll ss id a) after
  | [], _, _, _, _, _, env, site, _, _, passes => by
    cases passes
    exact ⟨env, .nil, site⟩
  | s :: rest, _, id, q, r, a, env, site, run, room, passes => by
    cases passes with
    | cons first others =>
      obtain ⟨here, later⟩ := run.cons
      have middle : (s.annotate id a).scopes.size ≤ limit :=
        Nat.le_trans (Stmt.annotateAllWalks rest id _ later.inside).size room
      obtain ⟨between, sited, behind⟩ := s.passesSited coded site here middle first
      obtain ⟨after, all, last⟩ := Stmt.passAllSited coded rest behind
        ⟨later.toSegment.keep (Stmt.reachedTags first), later.inside⟩ room others
      exact ⟨after, .cons sited all, last⟩

end

def Method.Sited (a : Analysis) (p : Program NodeId) (m : Method NodeId) : Prop :=
  ∃ inner after, a.scopeIds.get? m.body.tag = some inner ∧
    Stmt.AllSited a m.returnType inner (m.bindings p) m.body.stmts after

theorem Param.annotateAllSites {ps : List (Param NodeId)} (distinct : (ps.map Param.name).Nodup)
    (ordered : a.scopes.Ordered) (inside : id < a.scopes.size)
    (absent : ∀ param ∈ ps, a.scopes.symbol? id param.name = none) (sites : env.Sites a.scopes id) :
    Bindings.Sites (Param.annotateAll id ps a).scopes id
      ((ps.map fun param => ⟨param.name, param.tag, param.type⟩).reverse ++ env) := by
  induction ps generalizing a env with
  | nil => exact sites
  | cons param rest ih =>
    obtain ⟨apart, others⟩ := List.nodup_cons.mp distinct
    have declared := sites.declare ordered inside (absent param (List.mem_cons_self ..)) param.type true
      param.tag
    have size := (Analysis.Walks.declareVariable a id param.name (some param.type) true param.tag).size
    have ordered := ScopeTree.declareOrdered ordered id param.name (some param.type) true param.tag
    have later := ih (a := a.mapScopes fun t =>
      t.declareVariable id param.name (some param.type) true param.tag) others ordered
      (Nat.lt_of_lt_of_le inside size) (fun other member => ?_) declared
    · rw [List.map_cons, List.reverse_cons, List.append_assoc]
      exact later
    · refine (ScopeTree.declaredSymbol ..).trans ((if_neg fun both => ?_).trans
        (absent other (List.mem_cons_of_mem _ member)))
      exact apart (both.2.2 ▸ List.mem_map_of_mem member)

theorem Program.begunSites (p : Program NodeId) :
    Bindings.Sites p.begun.scopes ScopeTree.root [⟨selfName, p.tag, .self⟩] where
  count := rfl
  slots x v found := by
    rw [ScopeTree.lookupTop rfl, begunSymbol] at found
    split at found
    · rename_i here
      cases found
      exact ⟨_, by rw [Bindings.findCons, if_pos here.2.symm], rfl, rfl⟩
    · contradiction

theorem Method.passesSited (coded : p.Coded final) {done rest : List (Method NodeId)}
    {m : Method NodeId} {kept : List NodeId} (distinct : (m.params.map Param.name).Nodup)
    (between : p.Between done q a) (all : p.methods = done ++ m :: rest)
    (run : Method.RunAll p.annotated kept (m :: rest) a) (covered : q.reached ⊆ kept)
    (object : Bindings.Sites a.scopes ScopeTree.root [⟨selfName, p.tag, .self⟩])
    (passes : m.Passes p.annotated q r) : m.Sited final p := by
  obtain ⟨here, _⟩ := run.cons
  obtain ⟨_, within, bound, body⟩ := here.body
  obtain ⟨inner, scope, _, passed⟩ := passes.body
  obtain rfl : (Method.opened a m).scopes.size = inner := by simpa [bound] using scope
  have start := a.enteredIn ScopeTree.root m.tag
  have tidy := (Analysis.Leads.entered a run.rooted m.tag).tidy run.tidy
  have walks := Param.annotateAllWalks a.scopes.size m.params (a.entered ScopeTree.root m.tag)
  have params : Bindings.Sites (Method.opened a m).scopes a.scopes.size (m.bindings p) := by
    refine Param.annotateAllSites distinct tidy.ordered start (fun param _ => ?_)
      (object.entered run.tidy run.rooted m.tag)
    rw [ScopeTree.symbol?, Analysis.enteredNew]
    rfl
  have opened : p.Site (m.annotate a).scopes.size (q.receive m.params) (Method.opened a m).scopes.size
      ((Method.opened a m).entered a.scopes.size m.body.tag) (m.bindings p) := by
    refine ⟨between.place all run, params.entered (walks.tidy tidy) within m.body.tag, ?_⟩
    intro b member
    rcases List.mem_append.mp member with given | object
    · obtain ⟨param, inside, rfl⟩ := List.mem_map.mp (List.mem_reverse.mp given)
      exact q.receiveNew inside
    · obtain rfl := List.mem_singleton.mp object
      exact q.receiveOld m.params between.object
  obtain ⟨after, sited, _⟩ := Stmt.passAllSited coded m.body.stmts opened
    ⟨body.toSegment.keep (m.received covered), body.inside⟩ (Nat.le_of_eq (m.annotateSize a).symm) passed
  exact ⟨_, after, by rw [coded.alike.scopeIds]; exact bound, sited⟩

theorem Method.passAllSited (coded : p.Coded final) {ms done : List (Method NodeId)}
    {kept : List NodeId} (distinct : ∀ m ∈ ms, (m.params.map Param.name).Nodup)
    (between : p.Between done q a) (all : p.methods = done ++ ms)
    (run : Method.RunAll p.annotated kept ms a) (covered : q.reached ⊆ kept)
    (object : Bindings.Sites a.scopes ScopeTree.root [⟨selfName, p.tag, .self⟩])
    (passes : Method.PassAll p.annotated q ms r) : ∀ m ∈ ms, m.Sited final p := by
  induction passes generalizing done a kept with
  | nil => simp
  | @cons q m _ rest r first others ih =>
    obtain ⟨here, later⟩ := run.cons
    have sited := Method.passesSited coded (distinct m (List.mem_cons_self ..)) between all run covered
      object first
    have following := ih (fun other member => distinct other (List.mem_cons_of_mem _ member))
      (between.after here first) (by simp [all]) later (first.reachedTags covered)
      (object.leads (m.annotateWalks a run.rooted).toLeads run.tidy run.rooted)
    intro other member
    rcases List.mem_cons.mp member with rfl | behind
    · exact sited
    · exact following other behind

end
end ClassCompiler
