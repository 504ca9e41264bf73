import ClassCompiler.Proofs.CallLinks
import ClassCompiler.Proofs.CheckFrames
import ClassCompiler.Proofs.CheckTotal
import ClassCompiler.Proofs.Compilation
import ClassCompiler.Proofs.TwinChecks
import ClassCompiler.Proofs.TwinCode

/-! Methods are compiled on their own. Of the other methods of a program only the signatures count, and the
intrinsics that they use: with the same of both, a method is reported and compiled alike in two programs,
whatever stands in the other bodies. -/
namespace ClassCompiler

def Method.heading {τ : Type} (m : Method τ) : String × DataType × List (String × DataType) :=
  (m.name, m.returnType, m.params.map fun param => (param.name, param.type))

/-- These are the diagnostics that the check adds while it is in the `i`-th method. -/
def Program.Reports (p : Program NodeId) (i : Nat) (ds : List Diagnostic) : Prop :=
  ∃ m q r, p.methods[i]? = some m ∧
    Method.checkAll p.annotated (p.methods.take i) (p.annotated.startCheck p) = .ok q ∧
    m.check p.annotated q = .ok r ∧ r.diagnostics = q.diagnostics ++ ds

theorem CompiledMethod.shiftZero (m : CompiledMethod) : m.shift 0 = m := by
  have still : Instruction.shift 0 = id := by
    funext i
    cases i <;> rfl
  rw [CompiledMethod.shift, still, List.map_id]

theorem Method.annotateAllAppend (before after : List (Method NodeId)) (a : Analysis) :
    Method.annotateAll (before ++ after) a = Method.annotateAll after (Method.annotateAll before a) := by
  induction before generalizing a with
  | nil => rfl
  | cons m rest ih => exact ih _

theorem Method.checkAllSplit {F : Analysis} {before after : List (Method NodeId)} {q r : Progress}
    (done : Method.checkAll F (before ++ after) q = .ok r) :
    ∃ middle, Method.checkAll F before q = .ok middle ∧ Method.checkAll F after middle = .ok r := by
  induction before generalizing q with
  | nil => exact ⟨q, rfl, done⟩
  | cons m rest ih =>
    obtain ⟨next, one, done⟩ := bindOk.mp done
    obtain ⟨middle, first, others⟩ := ih done
    exact ⟨middle, bindOk.mpr ⟨next, one, first⟩, others⟩

theorem Method.RunAll.behind {F : Analysis} {kept : List NodeId} {before after : List (Method NodeId)}
    {a : Analysis} (run : Method.RunAll F kept (before ++ after) a) :
    ∃ kept', Method.RunAll F kept' after (Method.annotateAll before a) := by
  induction before generalizing kept a with
  | nil => exact ⟨kept, run⟩
  | cons m rest ih => exact ih (Method.RunAll.cons run).2

theorem Method.annotateRoot (m : Method NodeId) {a : Analysis} (rooted : ScopeTree.root < a.scopes.size) :
    ∃ k l, (m.annotate a).scopes.scope ScopeTree.root = (a.scopes.scope ScopeTree.root).raise k l := by
  obtain ⟨_, walks, _⟩ := m.innerGathers a
  exact ⟨_, _, a.inScopeRaised
    (fun inner a => m.body.annotate inner (Param.annotateAll inner m.params a)) rooted walks⟩

theorem Method.annotateAllRoot (ms : List (Method NodeId)) {a : Analysis}
    (rooted : ScopeTree.root < a.scopes.size) :
    ∃ k l, (Method.annotateAll ms a).scopes.scope ScopeTree.root =
      (a.scopes.scope ScopeTree.root).raise k l := by
  induction ms generalizing a with
  | nil => exact ⟨0, 0, by simp [Method.annotateAll, Scope.raise]⟩
  | cons m rest ih =>
    obtain ⟨k, l, first⟩ := m.annotateRoot rooted
    obtain ⟨k', l', others⟩ := ih (Nat.lt_of_lt_of_le rooted (m.annotateWalks a rooted).size)
    refine ⟨max k k', max l l', others.trans ?_⟩
    rw [first]
    simp [Scope.raise, Nat.max_assoc]

theorem Scope.Twin.raise {c : Renumbering} {s u : Scope} (twin : s.Twin c u) (k l k' l' : Nat) :
    (s.raise k l).Twin c (u.raise k' l') :=
  ⟨twin.symbols, twin.owned, twin.declarations, twin.hasReturn⟩

theorem Analysis.Twin.onward {c : Renumbering} {a b : Analysis} (twin : a.Twin c a.scopes.size b)
    (after after' : List (Method NodeId)) (rooted : ScopeTree.root < a.scopes.size)
    (rooted' : ScopeTree.root < b.scopes.size) (tidy : a.Tidy) (tidy' : b.Tidy)
    (apart : ∀ n ∈ c.nodes, n ∉ after.flatMap Method.tags)
    (apart' : ∀ n ∈ c.nodes, c.number n ∉ after'.flatMap Method.tags) :
    (Method.annotateAll after a).Twin c a.scopes.size (Method.annotateAll after' b) := by
  have walks := Method.annotateAllWalks after a rooted
  have walks' := Method.annotateAllWalks after' b rooted'
  refine ⟨⟨(walks.tidy tidy).ordered, (walks'.tidy tidy').ordered, fun within => ?_, fun within => ?_,
    fun {i j} within => ?_, fun {i j} within inner => ?_⟩, fun n member => ?_, fun n member => ?_, ?_⟩
  · obtain ⟨here, there⟩ := twin.scopes.inside within
    exact ⟨Nat.lt_of_lt_of_le here walks.size, Nat.lt_of_lt_of_le there walks'.size⟩
  · obtain ⟨here, there⟩ := twin.scopes.inside within
    rw [(walks.scope _ here).parent, (walks'.scope _ there).parent]
    exact twin.scopes.parent within
  · obtain ⟨here, there⟩ := twin.scopes.inside within
    -- Every method counts into the root; its other scopes are closed to the methods behind it.
    by_cases top : i = ScopeTree.root
    · obtain rfl := within.1.rootIff.mp top
      subst top
      obtain ⟨k, l, same⟩ := Method.annotateAllRoot after rooted
      obtain ⟨k', l', same'⟩ := Method.annotateAllRoot after' rooted'
      rw [same, same']
      exact (twin.scopes.scope within).raise k l k' l'
    · rw [walks.only i here top, walks'.only j there (mt within.1.rootIff.mpr top)]
      exact twin.scopes.scope within
  · obtain ⟨here, there⟩ := twin.scopes.inside within
    rw [walks.only i here inner, walks'.only j there (mt within.1.rootIff.mpr inner)]
    exact twin.scopes.counts within inner
  · rw [walks.type n (apart n member), walks'.type _ (apart' n member)]
    exact twin.types n member
  · rw [walks.bound n (apart n member), walks'.bound _ (apart' n member)]
    exact twin.bound n member
  · funext x
    rw [MethodTable.uses, walks'.found, ← MethodTable.uses, twin.uses, MethodTable.uses, MethodTable.uses,
      walks.found]

namespace Program

def behind (p : Program NodeId) (before : List (Method NodeId)) : Analysis :=
  Method.annotateAll before p.begun

theorem behindWalks (p : Program NodeId) (before : List (Method NodeId)) :
    p.begun.Walks ScopeTree.root [] (before.flatMap Method.tags) (p.behind before) :=
  Method.annotateAllWalks before p.begun Nat.zero_lt_one

theorem behindRooted (p : Program NodeId) (before : List (Method NodeId)) :
    ScopeTree.root < (p.behind before).scopes.size :=
  Nat.lt_of_lt_of_le Nat.zero_lt_one (p.behindWalks before).size

theorem behindTidy (p : Program NodeId) (before : List (Method NodeId)) : (p.behind before).Tidy :=
  (p.behindWalks before).tidy p.begunTidy

theorem behindTop (p : Program NodeId) (before : List (Method NodeId)) :
    ((p.behind before).scopes.scope ScopeTree.root).parent = none :=
  ((p.behindWalks before).scope ScopeTree.root Nat.zero_lt_one).parent

theorem behindUses (p : Program NodeId) (before : List (Method NodeId)) :
    (p.behind before).methods.uses = p.annotated.methods.uses := by
  funext x
  rw [MethodTable.uses, MethodTable.uses, (p.behindWalks before).found, p.annotatedWalks.found]

theorem startSpares (p : Program NodeId) (bound : Nat) (passed : List NodeId) :
    (p.annotated.startCheck p).Spares p bound passed := by
  have start : Progress.Spares p bound passed ⟨p.annotated.scopes, [p.tag], p.annotated.diagnostics⟩ :=
    ⟨p.annotatedTidy.ordered, rfl, rfl, fun _ _ => rfl, List.mem_cons_self, by simp⟩
  unfold Analysis.startCheck
  split
  · exact start.tell _
  · exact start

structure Split (p : Program NodeId) (before : List (Method NodeId)) (m : Method NodeId)
    (after : List (Method NodeId)) : Prop where
  unique : p.tags.Nodup
  all : p.methods = before ++ m :: after

theorem splitAt {p : Program NodeId} {i : Nat} {m : Method NodeId} (unique : p.tags.Nodup)
    (found : p.methods[i]? = some m) : ∃ before after, p.Split before m after ∧ before.length = i := by
  obtain ⟨inside, here⟩ := List.getElem?_eq_some_iff.mp found
  refine ⟨p.methods.take i, p.methods.drop (i + 1), ⟨unique, ?_⟩,
    List.length_take_of_le (Nat.le_of_lt inside)⟩
  rw [← here, ← List.drop_eq_getElem_cons inside, List.take_append_drop]

namespace Split
variable {p p' : Program NodeId} {before after before' after' : List (Method NodeId)} {m : Method NodeId}
  {f : NodeId → NodeId}

theorem nodup (split : p.Split before m after) :
    (p.tag :: (before.flatMap Method.tags ++ (m.tags ++ after.flatMap Method.tags))).Nodup := by
  have unique := split.unique
  rwa [tagsEq, split.all, List.flatMap_append, List.flatMap_cons] at unique

theorem object (split : p.Split before m after) : p.tag ∉ m.tags := fun member =>
  (List.nodup_cons.mp split.nodup).1 (List.mem_append_right _ (List.mem_append_left _ member))

theorem own (split : p.Split before m after) : m.tags.Nodup :=
  (List.nodup_append.mp (List.nodup_append.mp (List.nodup_cons.mp split.nodup).2).2.1).1

theorem apart (split : p.Split before m after) : ∀ n ∈ m.tags, n ∉ before.flatMap Method.tags ∧
    n ∉ after.flatMap Method.tags := by
  obtain ⟨_, inner, across⟩ := List.nodup_append.mp (List.nodup_cons.mp split.nodup).2
  obtain ⟨_, _, between⟩ := List.nodup_append.mp inner
  exact fun n member => ⟨fun early => across n early n (List.mem_append_left _ member) rfl,
    fun late => between n member n late rfl⟩

theorem annotated (split : p.Split before m after) :
    p.annotated = Method.annotateAll after (m.annotate (p.behind before)) := by
  rw [p.annotatedEq, split.all, Method.annotateAllAppend]
  rfl

theorem unseen (split : p.Split before m after) {n : NodeId} (member : n ∈ m.tags) :
    (p.behind before).typeOf? n = none ∧ (p.behind before).scopeIds.get? n = none := by
  have early := (split.apart n member).1
  refine ⟨(p.behindWalks before).type n early, ((p.behindWalks before).bound n early).trans ?_⟩
  refine (Table.getInsertOther _ _ ?_).trans rfl
  rintro rfl
  exact split.object member

theorem get (split : p.Split before m after) : p.methods[before.length]? = some m := by
  simp [split.all]

theorem take (split : p.Split before m after) : p.methods.take before.length = before := by
  simp [split.all]

theorem run (split : p.Split before m after) : ∃ kept, m.Run p.annotated kept (p.behind before) := by
  have runs := annotatedRuns split.unique
  rw [split.all] at runs
  obtain ⟨kept, others⟩ := runs.behind
  exact ⟨kept, others.cons.1⟩

theorem notReached (split : p.Split before m after) {q : Progress} {bound : Nat}
    (spares : q.Spares p bound (before.flatMap Method.tags)) {n : NodeId} (member : n ∈ m.tags) :
    n ∉ q.reached := by
  intro reached
  rcases List.mem_cons.mp (spares.reached reached) with rfl | early
  · exact split.object member
  · exact (split.apart n member).1 early

theorem renamed {n : NodeId} (member : n ∈ m.tags) : f n ∈ (m.retag f).tags := by
  rw [Method.tagsRetag]
  exact List.mem_map_of_mem member

def renumbering (split : p.Split before m after) (split' : p'.Split before' (m.retag f) after') :
    Renumbering where
  number := f
  nodes := m.tags
  object := p.tag
  object' := p'.tag
  here := (p.behind before).scopes.size
  there := (p'.behind before').scopes.size
  injective n member k other := by
    have distinct := split'.own
    rw [Method.tagsRetag] at distinct
    exact List.inj_on_of_nodup_map distinct member other
  apart := split.object
  apart' n member same := split'.object (same ▸ renamed member)
  inner := p.behindRooted before
  inner' := p'.behindRooted before'

variable (split : p.Split before m after) (split' : p'.Split before' (m.retag f) after')

theorem rootTwin : ((p.behind before).scopes.scope ScopeTree.root).Twin (split.renumbering split')
    ((p'.behind before').scopes.scope ScopeTree.root) := by
  have start : (p.begun.scopes.scope ScopeTree.root).Twin (split.renumbering split')
      (p'.begun.scopes.scope ScopeTree.root) := by
    refine ⟨?_, fun x s found => ?_, rfl, rfl⟩
    · have object : (split.renumbering split').node p.tag = p'.tag := if_pos rfl
      show ({} : Table String Symbol).insert selfName (.var ⟨some .self, 0, true, p'.tag⟩) =
        (({} : Table String Symbol).insert selfName (.var ⟨some .self, 0, true, p.tag⟩)).map
          (Symbol.renumber (split.renumbering split'))
      rw [Table.insertMap, Symbol.renumber, object]
      rfl
    · rw [← ScopeTree.symbol?, begunSymbol] at found
      split at found
      · cases found
        exact .inl rfl
      · contradiction
  obtain ⟨k, l, here⟩ := Method.annotateAllRoot before (a := p.begun) Nat.zero_lt_one
  obtain ⟨k', l', there⟩ := Method.annotateAllRoot before' (a := p'.begun) Nat.zero_lt_one
  rw [behind, here, behind, there]
  exact start.raise k l k' l'

theorem startTwin (uses : p'.annotated.methods.uses = p.annotated.methods.uses) :
    (p.behind before).Twin (split.renumbering split') (p.behind before).scopes.size
      (p'.behind before') := by
  -- The method has no scopes yet, so the roots are the only counterparts.
  have roots : ∀ {i j}, (split.renumbering split').Within (p.behind before).scopes.size i j →
      i = ScopeTree.root ∧ j = ScopeTree.root := by
    rintro i j ⟨both | ⟨k, rfl, _⟩, low⟩
    · exact both
    · exact absurd low (Nat.not_lt.mpr (Nat.le_add_right _ k))
  refine ⟨⟨(p.behindTidy before).ordered, (p'.behindTidy before').ordered,
    fun within => ?_, fun within => ?_, fun within => ?_, fun within inner => ?_⟩, fun n member => ?_,
    fun n member => ?_, ?_⟩
  · obtain ⟨rfl, rfl⟩ := roots within
    exact ⟨p.behindRooted before, p'.behindRooted before'⟩
  · obtain ⟨rfl, rfl⟩ := roots within
    rw [p.behindTop before, p'.behindTop before']
    exact .none
  · obtain ⟨rfl, rfl⟩ := roots within
    exact split.rootTwin split'
  · exact absurd (roots within).1 inner
  · exact (split'.unseen (renamed member)).1.trans (split.unseen member).1.symm
  · rw [(split.unseen member).2, show (split.renumbering split').number n = f n from rfl,
      (split'.unseen (renamed member)).2]
    exact .none
  · rw [p.behindUses before, p'.behindUses before', uses]

theorem annotatedTwin (uses : p'.annotated.methods.uses = p.annotated.methods.uses) :
    p.annotated.Twin (split.renumbering split') (m.annotate (p.behind before)).scopes.size p'.annotated := by
  have twin := m.annotateTwin (List.Subset.refl _) (split.startTwin split' uses) (.inr ⟨0, rfl, rfl⟩)
    (p.behindRooted before)
  have one := m.annotateWalks (p.behind before) (p.behindRooted before)
  have one' := (m.retag f).annotateWalks (p'.behind before') (p'.behindRooted before')
  rw [split.annotated, split'.annotated]
  refine twin.onward after after' (Nat.lt_of_lt_of_le (p.behindRooted before) one.size)
    (Nat.lt_of_lt_of_le (p'.behindRooted before') one'.size) (one.tidy (p.behindTidy before))
    (one'.tidy (p'.behindTidy before')) (fun n member => (split.apart n member).2)
    fun n member => (split'.apart (f n) (renamed member)).2

theorem progressTwin {limit : Nat} {q r : Progress}
    (twin : p.annotated.Twin (split.renumbering split') limit p'.annotated)
    (here : q.Spares p (p.behind before).scopes.size (before.flatMap Method.tags))
    (there : r.Spares p' (p'.behind before').scopes.size (before'.flatMap Method.tags)) :
    q.Twin (split.renumbering split') limit q.diagnostics r.diagnostics r := by
  -- What was checked before has marked neither the object nor a variable of the method.
  have kept : ∀ {i j}, (split.renumbering split').Within limit i j →
      q.scopes.scope i = p.annotated.scopes.scope i ∧ r.scopes.scope j = p'.annotated.scopes.scope j := by
    rintro i j ⟨⟨rfl, rfl⟩ | ⟨k, rfl, rfl⟩, _⟩
    · exact ⟨here.root, there.root⟩
    · exact ⟨here.beyond _ (Nat.le_add_right _ k), there.beyond _ (Nat.le_add_right _ k)⟩
  refine ⟨⟨here.ordered, there.ordered, fun within => ?_, fun within => ?_, fun within => ?_,
    fun within inner => ?_⟩, fun n owned => ?_, [], by simp, by simp⟩
  · rw [here.size, there.size]
    exact twin.scopes.inside within
  · rw [(kept within).1, (kept within).2]
    exact twin.scopes.parent within
  · rw [(kept within).1, (kept within).2]
    exact twin.scopes.scope within
  · rw [(kept within).1, (kept within).2]
    exact twin.scopes.counts within inner
  · rcases owned with rfl | member
    · rw [Renumbering.node, if_pos rfl]
      exact iff_of_true there.object here.object
    · rw [Renumbering.nodeNumber member]
      exact iff_of_false (split'.notReached there (renamed member)) (split.notReached here member)

theorem checked (split : p.Split before m after) : ∃ q r,
    q.Spares p (p.behind before).scopes.size (before.flatMap Method.tags) ∧
      Method.checkAll p.annotated before (p.annotated.startCheck p) = .ok q ∧
      m.check p.annotated q = .ok r := by
  have runs := annotatedRuns split.unique
  rw [split.all] at runs
  obtain ⟨done, all, _⟩ := p.checkEnds (p.annotateCovers {})
  rw [split.all] at all
  obtain ⟨q, first, others⟩ := Method.checkAllSplit all
  obtain ⟨r, one, _⟩ := bindOk.mp others
  exact ⟨q, r, Method.checkAllSpares runs (Nat.le_refl _) (List.Subset.refl _) (p.startSpares _ _) first,
    first, one⟩

theorem sameReports (split : p.Split before m after) (split' : p'.Split before' (m.retag f) after')
    (uses : p'.annotated.methods.uses = p.annotated.methods.uses)
    (counts : ∀ x, p'.annotated.methods.count x = p.annotated.methods.count x) :
    ∃ ds, p.Reports before.length ds ∧ p'.Reports before'.length ds := by
  obtain ⟨q, r, spares, first, one⟩ := split.checked
  obtain ⟨q', r', spares', first', one'⟩ := split'.checked
  have twin := split.annotatedTwin split' uses
  have start := split.progressTwin split' twin spares spares'
  obtain ⟨ds, here, there⟩ := (m.checkTwin twin counts (List.Subset.refl _) start one one').told
  exact ⟨ds, ⟨m, q, r, split.get, by rw [split.take, first], one, here⟩,
    ⟨m.retag f, q', r', split'.get, by rw [split'.take, first'], one', there⟩⟩

theorem emitted (split : p.Split before m after) {options : Options} {class' : ClassFile}
    (done : p.compile options = .ok class') : ∃ a n e made, a.Alike p.annotated ∧
      class'.methods[before.length + 2]? = some made ∧ m.Emits a options.className n made e := by
  obtain ⟨a, analyzed, generated⟩ := compileParts done
  obtain ⟨ms, compiled, generated⟩ := bindOk.mp generated
  obtain ⟨q, clean, same⟩ := cleanOfAnalyze split.unique analyzed
  cases generated
  have alike : a.Alike p.annotated := same ▸ clean.alike
  have each := Method.compileAllEmits compiled
  obtain ⟨inside, here⟩ := List.getElem?_eq_some_iff.mp split.get
  have room : before.length < ms.1.length := each.length_eq ▸ inside
  obtain ⟨n, e, emits⟩ := each.get inside room
  rw [List.get_eq_getElem, here] at emits
  exact ⟨a, n, e, ms.1.get ⟨before.length, room⟩, alike, List.getElem?_eq_getElem room, emits⟩

theorem sameCode (split : p.Split before m after) (split' : p'.Split before' (m.retag f) after')
    (uses : p'.annotated.methods.uses = p.annotated.methods.uses) {options : Options}
    {made made' : ClassFile} (here : p.compile options = .ok made)
    (there : p'.compile options = .ok made') :
    ∃ one one', made.methods[before.length + 2]? = some one ∧
      made'.methods[before'.length + 2]? = some one' ∧ ∃ k, one' = one.shift k ∨ one = one'.shift k := by
  obtain ⟨a, n, e, one, alike, found, emits⟩ := split.emitted here
  obtain ⟨b, n', e', one', alike', found', emits'⟩ := split'.emitted there
  have same := (split.annotatedTwin split' uses).sameCode alike alike'
  obtain ⟨kept, run⟩ := split.run
  have inner : ∀ id, a.scopeOf m.tag = .ok id → id ≠ ScopeTree.root := by
    intro id scope
    obtain rfl : (p.behind before).scopes.size = id := by
      rw [Analysis.scopeOf, alike.scopeIds, run.body.1] at scope
      exact Except.ok.inj scope
    exact Nat.ne_of_gt (p.behindRooted before)
  have moved (k k' : Nat) (sum : n + k = n' + k') : one.shift k = one'.shift k' :=
    m.emitsShifted same (List.Subset.refl _) inner emits emits' sum
  refine ⟨one, one', found, found', ?_⟩
  -- The labels that come earlier are moved up to the others.
  rcases Nat.le_total n n' with le | le
  · refine ⟨n' - n, .inl ?_⟩
    rw [moved (n' - n) 0 (by omega), CompiledMethod.shiftZero]
  · refine ⟨n - n', .inr ?_⟩
    rw [← moved 0 (n - n') (by omega), CompiledMethod.shiftZero]

end Split

variable {p p' : Program NodeId}

theorem sameUses (headings : p.methods.map Method.heading = p'.methods.map Method.heading) :
    p'.annotated.methods.uses = p.annotated.methods.uses := by
  -- A look-up reads the headings only.
  have read (p : Program NodeId) (x : String) :
      (p.findMethod? x).map (fun m => (⟨m.returnType, m.paramTypes⟩ : MethodUse)) =
        ((p.methods.map Method.heading).find? fun h => h.1 == x).map fun h =>
          ⟨h.2.1, h.2.2.map Prod.snd⟩ := by
    rw [List.find?_map, Option.map_map, findMethod?]
    simp [Function.comp_def, Method.heading, Method.paramTypes]
  funext x
  simp only [annotatedUsesEq, read, headings]

theorem sameCounts (headings : p.methods.map Method.heading = p'.methods.map Method.heading)
    (intrinsics : ∀ x, x ∈ p.intrinsics.map Intrinsic.name ↔ x ∈ p'.intrinsics.map Intrinsic.name)
    (x : String) : p'.annotated.methods.count x = p.annotated.methods.count x := by
  have names : p'.methods.map Method.name = p.methods.map Method.name := by
    have first := congrArg (List.map Prod.fst) headings
    simpa [Function.comp_def, Method.heading] using first.symm
  rw [annotatedCount, annotatedCount, names]
  simp only [intrinsics x]

/-- A method is checked and compiled the same in every program in which the methods have the same headings
and the same intrinsics are used. -/
theorem methodsIndependent {i : Nat} {m : Method NodeId} {f : NodeId → NodeId} (unique : p.tags.Nodup)
    (unique' : p'.tags.Nodup) (headings : p.methods.map Method.heading = p'.methods.map Method.heading)
    (intrinsics : ∀ x, x ∈ p.intrinsics.map Intrinsic.name ↔ x ∈ p'.intrinsics.map Intrinsic.name)
    (here : p.methods[i]? = some m) (there : p'.methods[i]? = some (m.retag f)) :
    (∃ ds, p.Reports i ds ∧ p'.Reports i ds) ∧
      ∀ options made made', p.compile options = .ok made → p'.compile options = .ok made' →
        ∃ one one', made.methods[i + 2]? = some one ∧ made'.methods[i + 2]? = some one' ∧
          ∃ k, one' = one.shift k ∨ one = one'.shift k := by
  obtain ⟨before, after, split, length⟩ := splitAt unique here
  obtain ⟨before', after', split', length'⟩ := splitAt unique' there
  have uses := sameUses headings
  have counts := sameCounts headings intrinsics
  refine ⟨?_, fun options made made' done done' => ?_⟩
  · have reports := split.sameReports split' uses counts
    rwa [length, length'] at reports
  · have code := split.sameCode split' uses done done'
    rwa [length, length'] at code

end Program

def briefProgram : Program NodeId :=
  let brief (m : Method Unit) : Method Unit :=
    { m with body := ⟨(), [.ret () (some (.literal () (.bool true) {})) {}], {}⟩ }
  (Program.number ⟨(), sampleTree.methods.modifyHead brief⟩ 40).1

theorem briefCompiles : ∃ c, briefProgram.compile {} = .ok c := by
  cases made : briefProgram.compile {} with
  | ok c => exact ⟨c, rfl⟩
  | error failure =>
    have accepted : (briefProgram.compile {}).toOption.isSome = true := by decide +kernel
    simp [made, Except.toOption] at accepted

theorem briefIndependent : (∃ ds, sampleProgram.Reports 1 ds ∧ briefProgram.Reports 1 ds) ∧
    ∃ made made', sampleProgram.compile {} = .ok made ∧ briefProgram.compile {} = .ok made' ∧
      ∃ one one', made.methods[3]? = some one ∧ made'.methods[3]? = some one' ∧
        ∃ k, one' = one.shift k ∨ one = one'.shift k := by
  have names : sampleProgram.intrinsics.map Intrinsic.name = briefProgram.intrinsics.map Intrinsic.name := by
    decide +kernel
  obtain ⟨m, here⟩ : ∃ m, sampleProgram.methods[1]? = some m := ⟨_, rfl⟩
  have there : briefProgram.methods[1]? =
      sampleProgram.methods[1]?.map (Method.retag fun n => ⟨n.index + 15⟩) := rfl
  rw [here, Option.map_some] at there
  obtain ⟨reports, code⟩ := Program.methodsIndependent (by decide +kernel) (by decide +kernel)
    (by decide +kernel) (fun x => by rw [names]) here there
  obtain ⟨made, done⟩ := sampleCompiles
  obtain ⟨made', done'⟩ := briefCompiles
  exact ⟨reports, made, made', done, done', code {} made made' done done'⟩

end ClassCompiler
