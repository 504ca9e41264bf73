import ClassCompiler.Proofs.Siting
import ClassCompiler.Proofs.Visits

/-! The slots that the first walk hands out. At every point of a walk the variables that can be seen
from the current scope stand in the slots from 0 on, one in each, and a new variable takes the first
slot behind them. The maximum that a scope hands to the scope around it is the number of slots that have
been taken inside, so no slot up to it is left out. -/
namespace ClassCompiler

namespace ScopeTree

/-- The variables that a scope sees fill the first slots, one each. -/
structure Dense (t : ScopeTree) (id : Nat) : Prop where
  below : ∀ i ∈ t.ancestors id, ∀ x v, t.symbol? i x = some (.var v) →
    v.slot < t.visibleVariableCount id
  filled : ∀ k < t.visibleVariableCount id, ∃ i ∈ t.ancestors id, ∃ x v,
    t.symbol? i x = some (.var v) ∧ v.slot = k
  apart : ∀ i ∈ t.ancestors id, ∀ j ∈ t.ancestors id, ∀ x y v w, t.symbol? i x = some (.var v) →
    t.symbol? j y = some (.var w) → v.slot = w.slot → i = j ∧ x = y

variable {t u : ScopeTree} {id : Nat}

theorem ancestorsCongr (ordered : t.Ordered) (other : u.Ordered) (id : Nat) :
    (∀ i, i ≤ id → (u.scope i).parent = (t.scope i).parent) → u.ancestors id = t.ancestors id := by
  induction id using wayOutInduction ordered with
  | top id top =>
    intro parents
    rw [ancestorsRoot top, ancestorsRoot ((parents id (Nat.le_refl id)).trans top)]
  | child id out child ih =>
    intro parents
    have lower := ordered id out child
    rw [ancestorsChild ordered child, ancestorsChild other ((parents id (Nat.le_refl id)).trans child),
      ih fun i below => parents i (by omega)]

namespace Dense

theorem congr (dense : t.Dense id) (ordered : t.Ordered) (other : u.Ordered)
    (parents : ∀ i, i ≤ id → (u.scope i).parent = (t.scope i).parent)
    (counts : ∀ i, i ≤ id → (u.scope i).variableCount = (t.scope i).variableCount)
    (vars : ∀ i, i ≤ id → ∀ x v, u.symbol? i x = some (.var v) ↔ t.symbol? i x = some (.var v)) :
    u.Dense id := by
  have same := ancestorsCongr ordered other id parents
  have count := visibleCongr ordered other id parents counts
  have lower := ancestorsLe ordered id
  constructor
  · rw [same, count]
    exact fun i member x v found => dense.below i member x v ((vars i (lower i member) x v).mp found)
  · rw [same, count]
    intro k low
    obtain ⟨i, member, x, v, found, slot⟩ := dense.filled k low
    exact ⟨i, member, x, v, (vars i (lower i member) x v).mpr found, slot⟩
  · rw [same]
    intro i here j there x y v w first second
    exact dense.apart i here j there x y v w ((vars i (lower i here) x v).mp first)
      ((vars j (lower j there) y w).mp second)

theorem declare (dense : t.Dense id) (ordered : t.Ordered) (inside : id < t.size) {x : String}
    (absent : t.symbol? id x = none) (type : Option DataType) (ready : Bool) (n : NodeId) :
    (t.declareVariable id x type ready n).Dense id := by
  have same : (t.declareVariable id x type ready n).ancestors id = t.ancestors id :=
    ancestorsModify t id id fun _ => rfl
  have count := visibleDeclare ordered inside absent type ready n
  -- A variable is the new one, or an old one under another name or in another scope.
  have cases (i : Nat) (y : String) (v : Variable)
      (found : (t.declareVariable id x type ready n).symbol? i y = some (.var v)) :
      (id = i ∧ x = y ∧ v.slot = t.visibleVariableCount id) ∨ t.symbol? i y = some (.var v) := by
    rw [declaredSymbol] at found
    split at found
    · rename_i here
      cases found
      exact .inl ⟨here.1, here.2.2, rfl⟩
    · exact .inr found
  constructor
  · rw [same, count]
    intro i member y v found
    rcases cases i y v found with ⟨_, _, slot⟩ | old
    · omega
    · exact Nat.lt_succ_of_lt (dense.below i member y v old)
  · rw [same, count]
    intro k low
    by_cases last : k = t.visibleVariableCount id
    · refine ⟨id, t.ancestorsSelf id, x, ⟨type, t.nextSlot id, ready, n⟩, ?_, last.symm⟩
      rw [declaredSymbol, if_pos ⟨rfl, inside, rfl⟩]
    · obtain ⟨i, member, y, v, found, slot⟩ := dense.filled k (by omega)
      refine ⟨i, member, y, v, ?_, slot⟩
      rw [declaredSymbol, if_neg, found]
      rintro ⟨rfl, _, rfl⟩
      rw [absent] at found
      contradiction
  · rw [same]
    intro i here j there y z v w first second slots
    rcases cases i y v first with ⟨rfl, rfl, new⟩ | old
    · rcases cases j z w second with ⟨rfl, rfl, _⟩ | other
      · exact ⟨rfl, rfl⟩
      · have low := dense.below j there z w other
        omega
    · rcases cases j z w second with ⟨rfl, rfl, new⟩ | other
      · have low := dense.below i here y v old
        omega
      · exact dense.apart i here j there y z v w old other slots

section
variable {a b : Analysis}

theorem leads {passed : List NodeId} (dense : a.scopes.Dense id) (leads : a.Leads [] passed b)
    (tidy : a.Tidy) (inside : id < a.scopes.size) : b.scopes.Dense id := by
  refine dense.congr tidy.ordered (leads.tidy tidy).ordered
    (fun i low => (leads.scope i (by omega)).parent)
    (fun i low => (leads.scope i (by omega)).steady rfl) fun i low x v => ?_
  rcases (leads.scope i (by omega)).symbol x with kept | ⟨_, _, none, _⟩ | ⟨missing, m, planted⟩
  · rw [symbol?, symbol?, kept]
  · contradiction
  · simp [symbol?, missing, planted]

theorem entered (dense : a.scopes.Dense id) (tidy : a.Tidy) (inside : id < a.scopes.size)
    (n : NodeId) : (a.entered id n).scopes.Dense a.scopes.size := by
  have start := Analysis.Leads.entered a inside n
  have outer := dense.leads start tidy inside
  have after := (start.tidy tidy).ordered
  have parent : ((a.entered id n).scopes.scope a.scopes.size).parent = some id := by
    rw [Analysis.enteredNew]
  have empty (x : String) : (a.entered id n).scopes.symbol? a.scopes.size x = none := by
    rw [symbol?, Analysis.enteredNew]
    rfl
  have around := ancestorsChild after parent
  have count : (a.entered id n).scopes.visibleVariableCount a.scopes.size =
      (a.entered id n).scopes.visibleVariableCount id := by
    rw [visibleChild after parent, Analysis.enteredNew]
    exact Nat.zero_add _
  -- The new scope has no variable of its own.
  have older (i : Nat) (member : i ∈ (a.entered id n).scopes.ancestors a.scopes.size) (x : String)
      (v : Variable) (found : (a.entered id n).scopes.symbol? i x = some (.var v)) :
      i ∈ (a.entered id n).scopes.ancestors id := by
    rw [around] at member
    rcases List.mem_cons.mp member with rfl | out
    · simp [empty x] at found
    · exact out
  constructor
  · rw [count]
    exact fun i member x v found => outer.below i (older i member x v found) x v found
  · rw [count, around]
    intro k low
    obtain ⟨i, member, found⟩ := outer.filled k low
    exact ⟨i, List.mem_cons_of_mem _ member, found⟩
  · intro i here j there x y v w first second
    exact outer.apart i (older i here x v first) j (older j there y w second) x y v w first second

end
end Dense
end ScopeTree

namespace Analysis

def localLimit (a : Analysis) (id : Nat) : Nat := (a.scopes.scope id).maxLocals

theorem localLimitModify (a : Analysis) (id i : Nat) {f : Scope → Scope}
    (keeps : ∀ s, (f s).maxLocals = s.maxLocals) :
    (a.mapScopes fun t => t.modify id f).localLimit i = a.localLimit i := by
  rw [localLimit, mapScopes, ScopeTree.scopeModify]
  split
  · exact keeps _
  · rfl

@[simp] theorem localLimitPush (a : Analysis) (id i n : Nat) :
    (a.push id n).localLimit i = a.localLimit i := localLimitModify a id i fun _ => rfl

@[simp] theorem localLimitPop (a : Analysis) (id i n : Nat) :
    (a.pop id n).localLimit i = a.localLimit i := localLimitModify a id i fun _ => rfl

@[simp] theorem localLimitSetType (a : Analysis) (n : NodeId) (type : Option DataType) (i : Nat) :
    (a.setType n type).localLimit i = a.localLimit i := by
  cases type <;> rfl

@[simp] theorem localLimitUseMethod (a : Analysis) (id : Nat) (m : String) (i : Nat) :
    (a.useMethod id m).2.localLimit i = a.localLimit i := by
  unfold useMethod
  split
  · dsimp only
    split
    · exact localLimitModify a id i fun _ => rfl
    · rw [localLimitPush]
      exact localLimitModify a id i fun _ => rfl
  · rfl

@[simp] theorem localLimitUseIntrinsic (a : Analysis) (id : Nat) (op : Intrinsic)
    (params : List DataType) (span : Span) (i : Nat) :
    (a.useIntrinsic id op params span).localLimit i = a.localLimit i :=
  localLimitModify a id i fun _ => rfl

@[simp] theorem localLimitMarkReturn (a : Analysis) (id i : Nat) :
    (a.mapScopes fun t => t.markReturn id).localLimit i = a.localLimit i :=
  localLimitModify a id i fun _ => rfl

theorem assignLimit (a : Analysis) (id i : Nat) (n : NodeId) (keep : Bool) (target : Expr NodeId)
    (walkTarget walkValue : Analysis → Option DataType × Analysis)
    (first : ∀ b, (walkTarget b).2.localLimit i = b.localLimit i)
    (second : ∀ b, (walkValue b).2.localLimit i = b.localLimit i) :
    (a.annotateAssign id n keep target walkTarget walkValue).2.localLimit i = a.localLimit i := by
  unfold annotateAssign
  cases target.asName <;> cases keep <;> simp [first, second]

end Analysis

mutual

theorem Expr.annotateLimit (id i : Nat) : ∀ (e : Expr NodeId) (a : Analysis),
    (e.annotate id a).2.localLimit i = a.localLimit i
  | .literal .., a | .var .., a | .read .., a | .random .., a => by simp [Expr.annotate]
  | .binary n op left right, a => by
    cases group : op.group <;>
      simp [Expr.annotate, group, left.annotateLimit id i, right.annotateLimit id i]
  | .not n operand span, a => by simp [Expr.annotate, operand.annotateLimit id i]
  | .assign n target value, a =>
    a.assignLimit id i n true target _ _ (target.annotateLimit id i) (value.annotateLimit id i)
  | .call n m args span, a => by simp [Expr.annotate, Expr.annotateAllLimit id i args]
  | .writeLine n value span, a => by simp [Expr.annotate, value.annotateLimit id i]
  | .randomBelow n bound span, a => by simp [Expr.annotate, bound.annotateLimit id i]

theorem Expr.annotateAllLimit (id i : Nat) : ∀ (es : List (Expr NodeId)) (a : Analysis),
    (Expr.annotateAll id es a).localLimit i = a.localLimit i
  | [], a => rfl
  | e :: rest, a => by
    rw [Expr.annotateAll, Expr.annotateAllLimit id i rest, e.annotateLimit id i]

end

theorem Expr.droppedLimit (id i : Nat) (n : NodeId) (e : Expr NodeId) (a : Analysis) :
    (e.annotateDropped id n a).localLimit i = a.localLimit i := by
  by_cases assigns : ∃ m target value, e = .assign m target value
  · obtain ⟨m, target, value, rfl⟩ := assigns
    exact a.assignLimit id i m false target _ _ (target.annotateLimit id i) (value.annotateLimit id i)
  · rw [Expr.droppedPlain fun m target value same => assigns ⟨m, target, value, same⟩]
    split <;> simp [e.annotateLimit id i]

theorem Analysis.Leads.visible {a b : Analysis} {passed : List NodeId} {id : Nat}
    (leads : a.Leads [] passed b) (tidy : a.Tidy) (inside : id < a.scopes.size) :
    b.scopes.visibleVariableCount id = a.scopes.visibleVariableCount id :=
  ScopeTree.visibleCongr tidy.ordered (leads.tidy tidy).ordered id
    (fun i low => (leads.scope i (by omega)).parent)
    fun i low => (leads.scope i (by omega)).steady rfl

theorem Analysis.enteredVisible {a : Analysis} (tidy : a.Tidy) {id : Nat} (inside : id < a.scopes.size)
    (n : NodeId) : (a.entered id n).scopes.visibleVariableCount a.scopes.size =
      a.scopes.visibleVariableCount id := by
  have start := Analysis.Leads.entered a inside n
  have parent : ((a.entered id n).scopes.scope a.scopes.size).parent = some id := by
    rw [enteredNew]
  rw [ScopeTree.visibleChild (start.tidy tidy).ordered parent, enteredNew, start.visible tidy inside]
  exact Nat.zero_add _

namespace Analysis

def Takes (F : Analysis) (ds : List (Nat × Declarator NodeId)) (k : Nat) : Prop :=
  ∃ i d v, (i, d) ∈ ds ∧ F.scopes.symbol? i d.name = some (.var v) ∧ v.declaredAt = d.tag ∧ v.slot = k

theorem takesAppend {F : Analysis} {ds es : List (Nat × Declarator NodeId)} {k : Nat} :
    F.Takes (ds ++ es) k ↔ F.Takes ds k ∨ F.Takes es k := by
  constructor
  · rintro ⟨i, d, v, member, found⟩
    rcases List.mem_append.mp member with early | late
    · exact .inl ⟨i, d, v, early, found⟩
    · exact .inr ⟨i, d, v, late, found⟩
  · rintro (⟨i, d, v, member, found⟩ | ⟨i, d, v, member, found⟩)
    · exact ⟨i, d, v, List.mem_append_left _ member, found⟩
    · exact ⟨i, d, v, List.mem_append_right _ member, found⟩

structure Packed (id : Nat) (a : Analysis) : Prop where
  dense : a.scopes.Dense id
  covered : a.scopes.visibleVariableCount id ≤ a.localLimit id

/-- The walk from `a` to `b` takes the slots of the declared variables, and no others. -/
structure Packs (a F : Analysis) (id : Nat) (ds : List (Nat × Declarator NodeId)) (b : Analysis) :
    Prop where
  packed : b.Packed id
  limit : ∀ k, k < b.localLimit id ↔ k < a.localLimit id ∨ F.Takes ds k

section
variable {F a b c : Analysis} {id : Nat} {ds es : List (Nat × Declarator NodeId)}
  {passed fresh : List NodeId}

theorem Packed.walks (packed : a.Packed id) (walks : a.Walks id [] passed b) (tidy : a.Tidy)
    (inside : id < a.scopes.size) (same : b.localLimit id = a.localLimit id) : b.Packed id where
  dense := packed.dense.leads walks.toLeads tidy inside
  covered := by
    rw [walks.visible tidy inside, same]
    exact packed.covered

theorem Packed.entered (packed : a.Packed id) (tidy : a.Tidy) (inside : id < a.scopes.size)
    (n : NodeId) : (a.entered id n).Packed a.scopes.size where
  dense := packed.dense.entered tidy inside n
  covered := by
    have start : (a.entered id n).localLimit a.scopes.size = a.scopes.visibleVariableCount id := by
      rw [localLimit, enteredNew]
    exact Nat.le_of_eq ((enteredVisible tidy inside n).trans start.symm)

theorem Packs.still (packed : a.Packed id) (walks : a.Walks id [] passed b) (tidy : a.Tidy)
    (inside : id < a.scopes.size) (same : b.localLimit id = a.localLimit id) :
    a.Packs F id [] b where
  packed := packed.walks walks tidy inside same
  limit k := by simp [same, Takes]

theorem Packs.trans (first : a.Packs F id ds b) (second : b.Packs F id es c) :
    a.Packs F id (ds ++ es) c where
  packed := second.packed
  limit k := by rw [second.limit, first.limit, takesAppend, or_assoc]

theorem inScopeLimit (inside : Nat → Analysis → Analysis) {n : NodeId} (inRange : id < a.scopes.size)
    (inner : (a.entered id n).Walks a.scopes.size fresh passed
      (inside a.scopes.size (a.entered id n))) :
    (a.inScope id n inside).localLimit id =
      max (a.localLimit id) ((inside a.scopes.size (a.entered id n)).localLimit a.scopes.size) := by
  simp only [localLimit, a.inScopeRaised inside inRange inner, Scope.raise]

theorem Packs.inScope (inside : Nat → Analysis → Analysis) {n : NodeId} (packed : a.Packed id)
    (tidy : a.Tidy) (inRange : id < a.scopes.size)
    (walks : (a.entered id n).Walks a.scopes.size fresh passed
      (inside a.scopes.size (a.entered id n)))
    (inner : (a.entered id n).Packs F a.scopes.size ds (inside a.scopes.size (a.entered id n))) :
    a.Packs F id ds (a.inScope id n inside) := by
  have whole := a.inScopeWalks inside inRange walks
  have limit := inScopeLimit inside inRange walks
  have start : (a.entered id n).localLimit a.scopes.size = a.scopes.visibleVariableCount id := by
    rw [localLimit, enteredNew]
  have covered := packed.covered
  refine ⟨⟨packed.dense.leads whole.toLeads tidy inRange, ?_⟩, fun k => ?_⟩
  · rw [whole.visible tidy inRange, limit]
    exact Nat.le_trans covered (Nat.le_max_left _ _)
  · have inside := inner.limit k
    rw [start] at inside
    have either (x y : Nat) : k < max x y ↔ k < x ∨ k < y := by omega
    rw [limit, either, inside]
    constructor
    · rintro (before | counted | taken)
      · exact .inl before
      · exact .inl (Nat.lt_of_lt_of_le counted covered)
      · exact .inr taken
    · rintro (before | taken)
      · exact .inl before
      · exact .inr (.inr taken)

end
end Analysis

open Analysis (Packed Packs)

theorem Declarator.annotateReady (type : Option DataType) (id : Nat) (d : Declarator NodeId)
    (a : Analysis) : ∃ known ready passed, a.Walks id [] passed (d.ready id a) ∧
      (d.ready id a).localLimit id = a.localLimit id ∧
      d.annotate type id a = ((d.ready id a).mapScopes fun t =>
        t.declareVariable id d.name known ready d.tag).setType d.tag known := by
  cases given : d.init with
  | none =>
    refine ⟨type, false, [], ?_, ?_, ?_⟩
    · simpa [Declarator.ready, given] using Analysis.Walks.refl a id
    · simp [Declarator.ready, given]
    · simp [Declarator.annotate, Declarator.ready, given]
  | some e =>
    refine ⟨type.or (e.annotate id a).1, true, e.tags, ?_, ?_, ?_⟩
    · simpa [Declarator.ready, given] using e.conditionWalks id a
    · simp [Declarator.ready, given, e.annotateLimit id id]
    · simp [Declarator.annotate, Declarator.ready, given]

section
variable {F a : Analysis} {kept : List NodeId} {id : Nat}

theorem Declarator.Run.packs {type : Option DataType} {d : Declarator NodeId}
    (run : d.Run F kept type id a) (inner : id ≠ ScopeTree.root) (allowed : d.Allowed F id)
    (packed : a.Packed id) : a.Packs F id [(id, d)] (d.annotate type id a) ∧
      (d.ready id a).scopes.Dense id ∧
      (∀ type ready, ((d.ready id a).scopes.declareVariable id d.name type ready d.tag).Dense id) ∧
      ∃ v, F.scopes.symbol? id d.name = some (.var v) ∧ v.declaredAt = d.tag ∧
        v.slot = (d.ready id a).scopes.visibleVariableCount id := by
  obtain ⟨known, ready, passed, walks, same, walked⟩ := d.annotateReady type id a
  have absent := run.absent inner allowed walks walked
  have inside := Nat.lt_of_lt_of_le run.inside walks.size
  have ordered := (walks.tidy run.tidy).ordered
  have before := packed.walks walks run.tidy run.inside same
  have dense (type : Option DataType) (ready : Bool) :=
    before.dense.declare ordered inside absent type ready d.tag
  have symbol : (d.annotate type id a).scopes.symbol? id d.name = some (.var
      ⟨known, (d.ready id a).scopes.visibleVariableCount id, ready, d.tag⟩) := by
    rw [walked, Analysis.setTypeScopes, Analysis.mapScopes, ScopeTree.declaredSymbol,
      if_pos ⟨rfl, inside, rfl⟩]
    rfl
  have final := run.final inner allowed.single symbol
  have limit : (d.annotate type id a).localLimit id =
      max (a.localLimit id) ((d.ready id a).scopes.visibleVariableCount id + 1) := by
    rw [walked, Analysis.localLimitSetType, ← same]
    simp only [Analysis.localLimit, Analysis.mapScopes, ScopeTree.declareVariable,
      ScopeTree.scopeModify, inside, and_self, if_true, Scope.declareVariable, ScopeTree.nextSlot]
  have covered := before.covered
  rw [same] at covered
  refine ⟨⟨⟨?_, ?_⟩, fun k => ?_⟩, before.dense, dense, _, final, rfl, rfl⟩
  · rw [walked, Analysis.setTypeScopes]
    exact dense known ready
  · rw [limit, walked, Analysis.setTypeScopes]
    exact Nat.le_trans (Nat.le_of_eq (ScopeTree.visibleDeclare ordered inside absent known ready d.tag))
      (Nat.le_max_right _ _)
  · have taken : F.Takes [(id, d)] k ↔ k = (d.ready id a).scopes.visibleVariableCount id := by
      constructor
      · rintro ⟨i, other, v, member, found, _, slot⟩
        simp only [List.mem_singleton, Prod.mk.injEq] at member
        obtain ⟨rfl, rfl⟩ := member
        rw [final] at found
        cases found
        exact slot.symm
      · rintro rfl
        exact ⟨id, d, _, List.mem_singleton.mpr rfl, final, rfl, rfl⟩
    rw [limit, taken]
    omega

theorem Declarator.RunAll.packs {type : Option DataType} {ds : List (Declarator NodeId)}
    (run : Declarator.RunAll F kept type id ds a) (inner : id ≠ ScopeTree.root)
    (allowed : ∀ d ∈ ds, d.Allowed F id) (packed : a.Packed id) :
    a.Packs F id (ds.map fun d => (id, d)) (Declarator.annotateAll type id ds a) := by
  induction ds generalizing a kept with
  | nil => exact .still packed (Analysis.Walks.refl a id) run.tidy run.inside rfl
  | cons d rest ih =>
    obtain ⟨here, later⟩ := run.cons
    obtain ⟨first, _⟩ := here.packs inner (allowed d (List.mem_cons_self ..)) packed
    exact first.trans (ih later (fun other member => allowed other (List.mem_cons_of_mem _ member))
      first.packed)

theorem Stmt.conditionalPacks {n : NodeId} {cond : Expr NodeId} {body : Stmt NodeId}
    {ds : List (Nat × Declarator NodeId)} (packed : a.Packed id) (tidy : a.Tidy)
    (inside : id < a.scopes.size)
    (rest : ∀ {c : Analysis}, c.Packed a.scopes.size →
      c = (cond.annotate a.scopes.size (a.entered id n)).2.pop a.scopes.size 1 →
      c.Packs F a.scopes.size ds (body.annotate a.scopes.size c)) :
    a.Packs F id ds (a.inScope id n fun inner a =>
      body.annotate inner ((cond.annotate inner a).2.pop inner 1)) := by
  have start := packed.entered tidy inside n
  have entered := (Analysis.Leads.entered a inside n).tidy tidy
  have tested := cond.conditionWalks a.scopes.size (a.entered id n)
  have limit : ((cond.annotate a.scopes.size (a.entered id n)).2.pop a.scopes.size 1).localLimit
      a.scopes.size = (a.entered id n).localLimit a.scopes.size := by
    rw [Analysis.localLimitPop, cond.annotateLimit]
  have first : (a.entered id n).Packs F a.scopes.size [] _ :=
    .still start tested entered (a.enteredIn id n) limit
  exact .inScope _ packed tidy inside
    (tested.trans (body.annotateWalks _ _ (Nat.lt_of_lt_of_le (a.enteredIn id n) tested.size)))
    (first.trans (rest first.packed rfl))

mutual

theorem Stmt.Run.packs : ∀ (s : Stmt NodeId) {kept : List NodeId} {id : Nat} {a : Analysis},
    s.Run F kept id a → id ≠ ScopeTree.root →
      (∀ i d, (i, d) ∈ s.placed F id → d.Allowed F i) → a.Packed id →
        a.Packs F id (s.placed F id) (s.annotate id a)
  | .expr n e span, kept, id, a, run, inner, allowed, packed =>
    .still packed (e.droppedWalks id n a) run.tidy run.inside (e.droppedLimit id id n a)
  | .declare n type vars span, kept, id, a, run, inner, allowed, packed =>
    run.declare.packs inner
      (fun d member => allowed id d (List.mem_map.mpr ⟨d, member, rfl⟩)) packed
  | .ret n (some e) span, kept, id, a, run, inner, allowed, packed => by
    refine .still packed (((e.conditionWalks id a).trans (Analysis.Walks.setType _ id n
      (e.annotate id a).1)).trans (Analysis.Walks.markReturn _ id)) run.tidy run.inside ?_
    simp [Stmt.annotate, e.annotateLimit id id]
  | .ret n none span, kept, id, a, run, inner, allowed, packed => by
    refine .still packed ((Analysis.Walks.setType a id n (some .void)).trans
      (Analysis.Walks.markReturn _ id)) run.tidy run.inside ?_
    simp [Stmt.annotate]
  | .block n body span, kept, id, a, run, inner, allowed, packed => by
    obtain ⟨bound, within⟩ := run.block
    rw [Stmt.placed, F.scopeAtBound bound] at allowed ⊢
    exact .inScope (fun inner a => Stmt.annotateAll body inner a) packed run.tidy run.inside
      (Stmt.annotateAllWalks body _ _ within.inside)
      (Stmt.RunAll.packs body within (Nat.ne_of_gt (Nat.zero_lt_of_lt run.inside)) allowed
        (packed.entered run.tidy run.inside n))
  | .ifThen n cond yes span, kept, id, a, run, inner, allowed, packed => by
    obtain ⟨bound, _, within⟩ := run.ifThen
    rw [Stmt.placed, F.scopeAtBound bound] at allowed ⊢
    refine Stmt.conditionalPacks packed run.tidy run.inside fun start same => ?_
    subst same
    exact Stmt.Run.packs yes within (Nat.ne_of_gt (Nat.zero_lt_of_lt run.inside)) allowed start
  | .ifElse n cond yes m no span, kept, id, a, run, inner, allowed, packed => by
    obtain ⟨before, inside, other, noRun⟩ := run.ifElse
    obtain ⟨bound, _, within⟩ := before.ifThen
    rw [Stmt.placed, F.scopeAtBound bound, F.scopeAtBound other] at allowed ⊢
    have first : a.Packs F id (yes.placed F a.scopes.size)
        ((Stmt.ifThen n cond yes span).annotate id a) := by
      refine Stmt.conditionalPacks packed run.tidy run.inside fun start same => ?_
      subst same
      exact Stmt.Run.packs yes within (Nat.ne_of_gt (Nat.zero_lt_of_lt run.inside))
        (fun i d member => allowed i d (List.mem_append_left _ member)) start
    have tidy := ((Stmt.ifThen n cond yes span).annotateWalks id a run.inside).tidy run.tidy
    refine first.trans (.inScope (fun inner a => no.annotate inner a) first.packed tidy inside
      (no.annotateWalks _ _ noRun.inside) ?_)
    exact Stmt.Run.packs no noRun (Nat.ne_of_gt (Nat.zero_lt_of_lt inside))
      (fun i d member => allowed i d (List.mem_append_right _ member))
      (first.packed.entered tidy inside m)
  | .loop n cond body span, kept, id, a, run, inner, allowed, packed => by
    obtain ⟨bound, _, within⟩ := run.loop
    rw [Stmt.placed, F.scopeAtBound bound] at allowed ⊢
    refine Stmt.conditionalPacks packed run.tidy run.inside fun start same => ?_
    subst same
    exact Stmt.Run.packs body within (Nat.ne_of_gt (Nat.zero_lt_of_lt run.inside)) allowed start

theorem Stmt.RunAll.packs : ∀ (ss : List (Stmt NodeId)) {kept : List NodeId} {id : Nat}
    {a : Analysis}, Stmt.RunAll F kept id ss a → id ≠ ScopeTree.root →
      (∀ i d, (i, d) ∈ Stmt.placedAll F ss id → d.Allowed F i) → a.Packed id →
        a.Packs F id (Stmt.placedAll F ss id) (Stmt.annotateAll ss id a)
  | [], kept, id, a, run, inner, allowed, packed =>
    .still packed (Analysis.Walks.refl a id) run.tidy run.inside rfl
  | s :: rest, kept, id, a, run, inner, allowed, packed => by
    obtain ⟨here, later⟩ := run.cons
    have first := Stmt.Run.packs s here inner
      (fun i d member => allowed i d (List.mem_append_left _ member)) packed
    exact first.trans (Stmt.RunAll.packs rest later inner
      (fun i d member => allowed i d (List.mem_append_right _ member)) first.packed)

end
end

def NodeKind.declares? : NodeKind → Option String
  | .program => some selfName
  | .param x _ | .declarator x => some x
  | _ => none

/-- The walk comes to a node with the visible variables in the first slots. A variable that it declares
there takes the next slot, and has it in the end. -/
structure Visit.Packed (final : Analysis) (v : Visit) : Prop where
  dense : v.walk.scopes.Dense v.here
  declared : ∀ x, v.node.kind.declares? = some x →
    (∀ type ready, (v.walk.scopes.declareVariable v.here x type ready v.node.tag).Dense v.here) ∧
      ∃ w, final.scopes.symbol? v.id x = some (.var w) ∧ w.declaredAt = v.node.tag ∧
        w.slot = v.walk.scopes.visibleVariableCount v.here

structure Visit.Inside (here : Nat) (a : Analysis) (v : Visit) : Prop where
  scope : v.here = here
  silent : v.node.kind.declares? = none
  walks : ∃ passed, a.Walks here [] passed v.walk

theorem Visit.Inside.after {here : Nat} {a b : Analysis} {v : Visit} {passed : List NodeId}
    (inside : v.Inside here b) (walks : a.Walks here [] passed b) : v.Inside here a where
  scope := inside.scope
  silent := inside.silent
  walks := by
    obtain ⟨_, later⟩ := inside.walks
    exact ⟨_, walks.trans later⟩

theorem Visit.Inside.packed {final a : Analysis} {here : Nat} {v : Visit} (inside : v.Inside here a)
    (dense : a.scopes.Dense here) (tidy : a.Tidy) (inRange : here < a.scopes.size) :
    v.Packed final where
  dense := by
    obtain ⟨_, walks⟩ := inside.walks
    rw [inside.scope]
    exact dense.leads walks.toLeads tidy inRange
  declared x named := by simp [inside.silent] at named

theorem Expr.visitInside (e : Expr NodeId) (here id : Nat) (a : Analysis) (q : Progress) :
    (e.visit here id a q).Inside here a where
  scope := rfl
  silent := by cases e <;> rfl
  walks := ⟨[], Analysis.Walks.refl a here⟩

section
variable {F : Analysis}

mutual

theorem Expr.visitsInside (here id : Nat) : ∀ (e : Expr NodeId) (a : Analysis) (q : Progress),
    ∀ v ∈ e.visits F here id a q, v.Inside here a
  | .literal .., a, q, v, member | .var .., a, q, v, member | .read .., a, q, v, member
  | .random .., a, q, v, member => by
    obtain rfl := List.mem_singleton.mp member
    exact Expr.visitInside _ here id a q
  | .binary n op left right, a, q, v, member => by
    rw [Expr.visits, List.mem_cons, List.mem_append] at member
    rcases member with rfl | early | late
    · exact Expr.visitInside _ here id a q
    · exact left.visitsInside here id a q v early
    · have behind := right.visitsInside here id _ _ v late
      split at behind
      · exact behind.after (left.conditionWalks here a)
      · exact behind.after (left.annotateWalks here a)
  | .not n operand span, a, q, v, member => by
    rcases List.mem_cons.mp member with rfl | inner
    · exact Expr.visitInside _ here id a q
    · exact operand.visitsInside here id a q v inner
  | .assign n target value, a, q, v, member => by
    rw [Expr.visits, List.mem_cons] at member
    rcases member with rfl | inner
    · exact Expr.visitInside _ here id a q
    have first (b : Analysis) (r : Progress) : v ∈ target.visits F here id b r → v.Inside here b :=
      target.visitsInside here id b r v
    cases target with
    | var k x place =>
      rcases List.mem_cons.mp inner with rfl | rest
      · exact ⟨rfl, rfl, _, value.annotateWalks here a⟩
      · exact value.visitsInside here id a _ v rest
    | _ =>
      rcases List.mem_append.mp inner with early | rest
      · exact (first _ _ early).after (value.annotateWalks here a)
      · exact value.visitsInside here id a _ v rest
  | .call n m args span, a, q, v, member => by
    rcases List.mem_cons.mp member with rfl | inner
    · exact Expr.visitInside _ here id a q
    · exact (Expr.visitsAllInside here id args _ q v inner).after (Analysis.Walks.push a here 1)
  | .writeLine n value span, a, q, v, member => by
    rcases List.mem_cons.mp member with rfl | inner
    · exact Expr.visitInside _ here id a q
    · exact (value.visitsInside here id _ q v inner).after (Analysis.Walks.push a here 1)
  | .randomBelow n bound span, a, q, v, member => by
    rcases List.mem_cons.mp member with rfl | inner
    · exact Expr.visitInside _ here id a q
    · exact (bound.visitsInside here id _ q v inner).after
        ((Analysis.Walks.push a here 2).trans (Analysis.Walks.pop _ here 1))

theorem Expr.visitsAllInside (here id : Nat) : ∀ (es : List (Expr NodeId)) (a : Analysis)
    (q : Progress), ∀ v ∈ Expr.visitsAll F here id es a q, v.Inside here a
  | [], a, q, v, member => by contradiction
  | e :: rest, a, q, v, member => by
    rcases List.mem_append.mp member with early | late
    · exact e.visitsInside here id a q v early
    · exact (Expr.visitsAllInside here id rest _ _ v late).after (e.annotateWalks here a)

end

theorem Expr.visitsOptionInside {here id : Nat} {e : Option (Expr NodeId)} {a : Analysis} {q : Progress} :
    ∀ v ∈ Expr.visitsOption F here id e a q, v.Inside here a := by
  intro v member
  cases e with
  | none => contradiction
  | some e => exact e.visitsInside here id a q v member

variable {a : Analysis} {kept : List NodeId} {id : Nat}

theorem Visit.plainPacked {final : Analysis} {node : Node NodeId} {part : Part} {id : Nat}
    {q : Progress} (dense : a.scopes.Dense id) (silent : node.kind.declares? = none) :
    Visit.Packed final ⟨node, part, id, id, a, q⟩ :=
  ⟨dense, fun x named => by simp [silent] at named⟩

theorem Declarator.RunAll.visitsPacked {type : Option DataType} {span : Span}
    {ds : List (Declarator NodeId)} (run : Declarator.RunAll F kept type id ds a)
    (inner : id ≠ ScopeTree.root) (allowed : ∀ d ∈ ds, d.Allowed F id) (packed : a.Packed id)
    (q : Progress) : ∀ v ∈ Declarator.visitsAll F type span id id ds a q, v.Packed F := by
  induction ds generalizing a kept q with
  | nil => simp [Declarator.visitsAll]
  | cons d rest ih =>
    obtain ⟨here, later⟩ := run.cons
    obtain ⟨first, dense, after, found⟩ := here.packs inner (allowed d (List.mem_cons_self ..)) packed
    intro v member
    rw [Declarator.visitsAll, List.mem_cons, List.mem_append] at member
    rcases member with rfl | early | late
    · refine ⟨dense, fun x named => ?_⟩
      cases named
      exact ⟨after, found⟩
    · exact (Expr.visitsOptionInside v early).packed packed.dense run.tidy run.inside
    · exact ih later (fun other member => allowed other (List.mem_cons_of_mem _ member)) first.packed _
        v late

theorem Stmt.conditionalVisitsPacked {n : NodeId} {cond : Expr NodeId} {body : Stmt NodeId}
    {returns : DataType} {q m : Progress} (packed : a.Packed id) (tidy : a.Tidy)
    (inside : id < a.scopes.size)
    (rest : ∀ {c : Analysis}, c.Packed a.scopes.size →
      c = (cond.annotate a.scopes.size (a.entered id n)).2.pop a.scopes.size 1 →
      ∀ v ∈ body.visits F returns a.scopes.size a.scopes.size c m, v.Packed F) :
    ∀ v ∈ cond.visits F a.scopes.size a.scopes.size (a.entered id n) q ++
      body.visits F returns a.scopes.size a.scopes.size
        ((cond.annotate a.scopes.size (a.entered id n)).2.pop a.scopes.size 1) m, v.Packed F := by
  have start := packed.entered tidy inside n
  have entered := (Analysis.Leads.entered a inside n).tidy tidy
  have tested := cond.conditionWalks a.scopes.size (a.entered id n)
  intro v member
  rcases List.mem_append.mp member with early | late
  · exact (cond.visitsInside _ _ _ q v early).packed start.dense entered (a.enteredIn id n)
  · refine rest (start.walks tested entered (a.enteredIn id n) ?_) rfl v late
    rw [Analysis.localLimitPop, cond.annotateLimit]

mutual

theorem Stmt.Run.visitsPacked (returns : DataType) : ∀ (s : Stmt NodeId) {kept : List NodeId}
    {id : Nat} {a : Analysis} (q : Progress), s.Run F kept id a → id ≠ ScopeTree.root →
      (∀ i d, (i, d) ∈ s.placed F id → d.Allowed F i) → a.Packed id →
        ∀ v ∈ s.visits F returns id id a q, v.Packed F
  | .expr n e span, kept, id, a, q, run, inner, allowed, packed, v, member => by
    rcases List.mem_cons.mp member with rfl | inside
    · exact Visit.plainPacked packed.dense rfl
    · exact (e.visitsInside id id a q v inside).packed packed.dense run.tidy run.inside
  | .declare n type vars span, kept, id, a, q, run, inner, allowed, packed, v, member => by
    rcases List.mem_cons.mp member with rfl | inside
    · exact Visit.plainPacked packed.dense rfl
    · exact run.declare.visitsPacked inner
        (fun d listed => allowed id d (List.mem_map.mpr ⟨d, listed, rfl⟩)) packed q v inside
  | .ret n e span, kept, id, a, q, run, inner, allowed, packed, v, member => by
    rcases List.mem_cons.mp member with rfl | inside
    · exact Visit.plainPacked packed.dense rfl
    · exact (Expr.visitsOptionInside v inside).packed packed.dense run.tidy run.inside
  | .block n body span, kept, id, a, q, run, inner, allowed, packed, v, member => by
    obtain ⟨bound, within⟩ := run.block
    rw [Stmt.placed, F.scopeAtBound bound] at allowed
    rw [Stmt.visits, F.scopeAtBound bound] at member
    rcases List.mem_cons.mp member with rfl | inside
    · exact Visit.plainPacked packed.dense rfl
    · exact Stmt.RunAll.visitsPacked returns body q within
        (Nat.ne_of_gt (Nat.zero_lt_of_lt run.inside)) allowed
        (packed.entered run.tidy run.inside n) v inside
  | .ifThen n cond yes span, kept, id, a, q, run, inner, allowed, packed, v, member => by
    obtain ⟨bound, _, within⟩ := run.ifThen
    rw [Stmt.placed, F.scopeAtBound bound] at allowed
    rw [Stmt.visits, F.scopeAtBound bound] at member
    rcases List.mem_cons.mp member with rfl | inside
    · exact Visit.plainPacked packed.dense rfl
    · refine Stmt.conditionalVisitsPacked packed run.tidy run.inside (fun start same => ?_) v inside
      subst same
      exact Stmt.Run.visitsPacked returns yes _ within (Nat.ne_of_gt (Nat.zero_lt_of_lt run.inside))
        allowed start
  | .ifElse n cond yes m no span, kept, id, a, q, run, inner, allowed, packed, v, member => by
    obtain ⟨before, inside, other, noRun⟩ := run.ifElse
    obtain ⟨bound, _, within⟩ := before.ifThen
    rw [Stmt.placed, F.scopeAtBound bound, F.scopeAtBound other] at allowed
    have here := Nat.ne_of_gt (Nat.zero_lt_of_lt run.inside)
    have first : ∀ i d, (i, d) ∈ yes.placed F a.scopes.size → d.Allowed F i :=
      fun i d listed => allowed i d (List.mem_append_left _ listed)
    have middle : ((Stmt.ifThen n cond yes span).annotate id a).Packed id := by
      refine (Stmt.Run.packs _ before inner ?_ packed).packed
      rw [Stmt.placed, F.scopeAtBound bound]
      exact first
    have tidy := ((Stmt.ifThen n cond yes span).annotateWalks id a run.inside).tidy run.tidy
    rw [Stmt.visits, F.scopeAtBound bound, F.scopeAtBound other, List.mem_cons, List.mem_append,
      List.mem_cons] at member
    rcases member with rfl | early | rfl | late
    · exact Visit.plainPacked packed.dense rfl
    · refine Stmt.conditionalVisitsPacked packed run.tidy run.inside (fun start same => ?_) v early
      subst same
      exact Stmt.Run.visitsPacked returns yes _ within here first start
    · exact Visit.plainPacked middle.dense rfl
    · exact Stmt.Run.visitsPacked returns no _ noRun (Nat.ne_of_gt (Nat.zero_lt_of_lt inside))
        (fun i d listed => allowed i d (List.mem_append_right _ listed))
        (middle.entered tidy inside m) v late
  | .loop n cond body span, kept, id, a, q, run, inner, allowed, packed, v, member => by
    obtain ⟨bound, _, within⟩ := run.loop
    rw [Stmt.placed, F.scopeAtBound bound] at allowed
    rw [Stmt.visits, F.scopeAtBound bound] at member
    rcases List.mem_cons.mp member with rfl | inside
    · exact Visit.plainPacked packed.dense rfl
    · refine Stmt.conditionalVisitsPacked packed run.tidy run.inside (fun start same => ?_) v inside
      subst same
      exact Stmt.Run.visitsPacked returns body _ within (Nat.ne_of_gt (Nat.zero_lt_of_lt run.inside))
        allowed start

theorem Stmt.RunAll.visitsPacked (returns : DataType) : ∀ (ss : List (Stmt NodeId))
    {kept : List NodeId} {id : Nat} {a : Analysis} (q : Progress), Stmt.RunAll F kept id ss a →
      id ≠ ScopeTree.root → (∀ i d, (i, d) ∈ Stmt.placedAll F ss id → d.Allowed F i) → a.Packed id →
        ∀ v ∈ Stmt.visitsAll F returns ss id id a q, v.Packed F
  | [], kept, id, a, q, run, inner, allowed, packed, v, member => by contradiction
  | s :: rest, kept, id, a, q, run, inner, allowed, packed, v, member => by
    obtain ⟨here, later⟩ := run.cons
    have first : ∀ i d, (i, d) ∈ s.placed F id → d.Allowed F i :=
      fun i d listed => allowed i d (List.mem_append_left _ listed)
    rcases List.mem_append.mp member with early | late
    · exact Stmt.Run.visitsPacked returns s q here inner first packed v early
    · exact Stmt.RunAll.visitsPacked returns rest _ later inner
        (fun i d listed => allowed i d (List.mem_append_right _ listed))
        (Stmt.Run.packs s here inner first packed).packed v late

end
end

end ClassCompiler
