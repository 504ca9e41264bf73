import ClassCompiler.Proofs.Gathering

/-! The frames of the static rules beside the scopes of the check. A frame shows a scope when it has
the variables of the scope that the check has reached, with their types and marks. Reading, writing
and declaring a name then do the same on both sides. -/
namespace ClassCompiler

def Symbol.marked : Symbol → Symbol
  | .var v => .var { v with initialized := true }
  | .method m => .method m

namespace ScopeTree
variable {t u : ScopeTree}

theorem markedSymbol (t : ScopeTree) (id i : Nat) (x y : String) :
    (t.markInitialized id x).symbol? i y =
      if id = i ∧ x = y then (t.symbol? i y).map Symbol.marked else t.symbol? i y := by
  unfold symbol? markInitialized
  rw [scopeModify]
  by_cases here : id = i
  · subst here
    by_cases inside : id < t.size
    · rw [if_pos ⟨rfl, inside⟩]
      unfold Scope.markInitialized
      by_cases named : x = y
      · subst named
        cases found : (t.scope id).symbols.get? x with
        | none => simp [found]
        | some s => cases s <;> simp [Symbol.marked, found]
      · rw [if_neg fun both => named both.2]
        split
        · exact Table.getInsertOther _ _ named
        · rfl
    · have none : (t.scope id).symbols.get? y = none := symbolBeyond (Nat.le_of_not_lt inside) y
      simp [inside, none]
  · simp [here]

theorem blankParent (same : t.blank = u.blank) (i : Nat) :
    (t.scope i).parent = (u.scope i).parent := by
  have both := congrArg (fun w : ScopeTree => (w.scope i).parent) same
  simpa only [blankScope, Scope.blank] using both

theorem blankOrdered (same : t.blank = u.blank) (ordered : u.Ordered) : t.Ordered :=
  fun i out child => ordered i out ((blankParent same i).symm.trans child)

theorem blankMethod (same : t.blank = u.blank) {i : Nat} {x : String} {m : MethodUse}
    (found : t.symbol? i x = some (.method m)) : u.symbol? i x = some (.method m) := by
  have both := congrArg (fun w : ScopeTree => w.symbol? i x) same
  simp only [blankSymbol, found, Option.map_some] at both
  cases other : u.symbol? i x with
  | none => simp [other] at both
  | some s =>
    cases s with
    | var v => simp [other, Symbol.blank] at both
    | method n => simpa [other, Symbol.blank] using both.symm

end ScopeTree

structure Progress.Kept (p : Program NodeId) (q : Progress) : Prop where
  marks : q.scopes.blank = p.annotated.scopes.blank
  quiet : q.diagnostics = []
  object : q.scopes.symbol? ScopeTree.root selfName = some (.var ⟨some .self, 0, true, p.tag⟩)
  unmarked : ∀ i x v, q.scopes.symbol? i x = some (.var v) → v.declaredAt ∉ q.reached →
    p.annotated.scopes.symbol? i x = some (.var v)

namespace Progress.Kept
variable {p : Program NodeId} {q : Progress}

theorem ordered (kept : q.Kept p) : q.scopes.Ordered :=
  ScopeTree.blankOrdered kept.marks p.annotatedTidy.ordered

theorem used (kept : q.Kept p) {i : Nat} {x : String} {m : MethodUse}
    (found : q.scopes.symbol? i x = some (.method m)) : p.annotated.methods.contains x = true :=
  p.annotatedTidy.used i x m (ScopeTree.blankMethod kept.marks found)

theorem reach (kept : q.Kept p) (n : NodeId) : (q.reach n).Kept p where
  marks := kept.marks
  quiet := kept.quiet
  object := kept.object
  unmarked i x v found unseen := kept.unmarked i x v found fun seen =>
    unseen (List.mem_cons_of_mem _ seen)

theorem mark (kept : q.Kept p) {home : Nat} {x : String} {v : Variable}
    (found : q.scopes.symbol? home x = some (.var v)) (seen : v.declaredAt ∈ q.reached) :
    Kept p { q with scopes := q.scopes.markInitialized home x } where
  marks := (ScopeTree.blankMark _ _ _).trans kept.marks
  quiet := kept.quiet
  object := by
    rw [ScopeTree.markedSymbol]
    split <;> simp [kept.object, Symbol.marked]
  unmarked i y w here unseen := by
    rw [ScopeTree.markedSymbol] at here
    split at here
    · rename_i same
      obtain ⟨rfl, rfl⟩ := same
      rw [found] at here
      cases here
      exact absurd seen unseen
    · exact kept.unmarked i y w here unseen

end Progress.Kept

structure Frame.Shows (p : Program NodeId) (q : Progress) (i : Nat) (f : Frame) : Prop where
  known : ∀ x l, f.get? x = some l → p.annotated.methods.contains x = false ∧
    ∃ v, q.scopes.symbol? i x = some (.var v) ∧ v.declaredAt ∈ q.reached ∧
      v.type = some l.type ∧ v.initialized = l.initialized
  unknown : ∀ x v, f.get? x = none → q.scopes.symbol? i x = some (.var v) →
    v.declaredAt ∉ q.reached

inductive Env.Shows (p : Program NodeId) (q : Progress) : Nat → Env → Prop where
  | top {i f} (parent : (q.scopes.scope i).parent = none) (here : Frame.Shows p q i f) :
      Shows p q i [f]
  | child {i out f env} (parent : (q.scopes.scope i).parent = some out)
      (here : Frame.Shows p q i f) (outer : Shows p q out env) : Shows p q i (f :: env)

namespace Frame.Shows
variable {p : Program NodeId} {q : Progress} {i : Nat} {f : Frame}

theorem same {r : Progress} (shows : Frame.Shows p q i f) (reached : r.reached = q.reached)
    (symbols : ∀ x, r.scopes.symbol? i x = q.scopes.symbol? i x) : Frame.Shows p r i f where
  known x l found := by
    rw [symbols, reached]
    exact shows.known x l found
  unknown x v none here := by
    rw [symbols] at here
    rw [reached]
    exact shows.unknown x v none here

theorem mark {x : String} {l : Local} (shows : Frame.Shows p q i f) (found : f.get? x = some l) :
    Frame.Shows p { q with scopes := q.scopes.markInitialized i x } i
      (f.insert x { l with initialized := true }) where
  known y m here := by
    rw [Table.getInsert] at here
    rw [ScopeTree.markedSymbol]
    by_cases same : x = y
    · subst same
      rw [if_pos rfl] at here
      cases here
      obtain ⟨free, v, symbol, seen, type, _⟩ := shows.known x l found
      rw [if_pos ⟨rfl, rfl⟩, symbol]
      exact ⟨free, _, rfl, seen, type, rfl⟩
    · rw [if_neg same] at here
      rw [if_neg fun both => same both.2]
      exact shows.known y m here
  unknown y v none here := by
    rw [Table.getInsert] at none
    split at none
    · contradiction
    · rename_i other
      rw [ScopeTree.markedSymbol, if_neg fun both => other both.2] at here
      exact shows.unknown y v none here

theorem reach {n : NodeId} (shows : Frame.Shows p q i f)
    (away : ∀ x v, q.scopes.symbol? i x = some (.var v) → v.declaredAt ≠ n) :
    Frame.Shows p (q.reach n) i f where
  known x l found := by
    obtain ⟨free, v, symbol, seen, facts⟩ := shows.known x l found
    exact ⟨free, v, symbol, List.mem_cons_of_mem _ seen, facts⟩
  unknown x v none here seen := by
    rcases List.mem_cons.mp seen with same | earlier
    · exact away x v here same
    · exact shows.unknown x v none here earlier

theorem declare {x : String} {v : Variable} {l : Local} (shows : Frame.Shows p q i f)
    (free : p.annotated.methods.contains x = false)
    (symbol : q.scopes.symbol? i x = some (.var v)) (type : v.type = some l.type)
    (ready : v.initialized = l.initialized)
    (only : ∀ y w, q.scopes.symbol? i y = some (.var w) → w.declaredAt = v.declaredAt → y = x) :
    Frame.Shows p (q.reach v.declaredAt) i (f.insert x l) where
  known y m here := by
    rw [Table.getInsert] at here
    split at here
    · rename_i same
      subst same
      cases here
      exact ⟨free, v, symbol, List.mem_cons_self .., type, ready⟩
    · obtain ⟨free, w, there, seen, facts⟩ := shows.known y m here
      exact ⟨free, w, there, List.mem_cons_of_mem _ seen, facts⟩
  unknown y w none here seen := by
    rw [Table.getInsert] at none
    split at none
    · contradiction
    · rename_i other
      rcases List.mem_cons.mp seen with same | earlier
      · exact other (only y w here same).symm
      · exact shows.unknown y w none here earlier

end Frame.Shows

namespace Env
variable {p : Program NodeId} {q : Progress} {i : Nat} {env : Env}

theorem Shows.transfer {r : Progress} (shows : Shows p q i env) (ordered : q.scopes.Ordered)
    (parents : ∀ j, (r.scopes.scope j).parent = (q.scopes.scope j).parent)
    (each : ∀ j f, j ≤ i → Frame.Shows p q j f → Frame.Shows p r j f) : Shows p r i env := by
  induction shows with
  | top parent here => exact .top ((parents _).trans parent) (each _ _ (Nat.le_refl _) here)
  | child parent here _ ih =>
    have lower := ordered _ _ parent
    exact .child ((parents _).trans parent) (each _ _ (Nat.le_refl _) here)
      (ih fun j f below => each j f (by omega))

theorem Shows.known (shows : Shows p q i env) {x : String} {l : Local}
    (found : find? env x = some l) : p.annotated.methods.contains x = false := by
  induction shows with
  | top _ here =>
    rw [find?, find?, Option.or_none] at found
    exact (here.known x l found).1
  | @child _ _ f _ _ here _ ih =>
    rw [find?] at found
    cases own : f.get? x with
    | none =>
      rw [own] at found
      exact ih found
    | some m => exact (here.known x m own).1

theorem Shows.missing (shows : Shows p q i env) (kept : q.Kept p) {x : String}
    (absent : find? env x = none) (home : Nat) (v : Variable) :
    q.resolve i x ≠ some (home, .var v) := by
  have hidden {j : Nat} {f : Frame} {s : Symbol} (here : Frame.Shows p q j f)
      (away : f.get? x = none) (seen : (q.scopes.symbol? j x).filter q.sees = some s) :
      s ≠ .var v := by
    rintro rfl
    obtain ⟨symbol, visible⟩ := Option.filter_eq_some_iff.mp seen
    exact here.unknown x v away symbol (by simpa [Progress.sees] using visible)
  induction shows with
  | top parent here =>
    rw [find?, find?, Option.or_none] at absent
    rw [Progress.resolve, ScopeTree.resolveTop parent]
    intro found
    obtain ⟨s, seen, same⟩ := Option.map_eq_some_iff.mp found
    cases same
    exact hidden here absent seen rfl
  | @child j _ f _ parent here _ ih =>
    rw [find?, Option.or_eq_none_iff] at absent
    rw [Progress.resolve, ScopeTree.resolveChild kept.ordered parent]
    cases seen : (q.scopes.symbol? j x).filter q.sees with
    | none => exact ih absent.2
    | some s =>
      intro found
      cases found
      exact hidden here absent.1 seen rfl

theorem Shows.present (shows : Shows p q i env) (kept : q.Kept p) {x : String} {l : Local}
    (found : find? env x = some l) :
    ∃ home v, home ≤ i ∧ q.resolve i x = some (home, .var v) ∧ v.type = some l.type ∧
      v.initialized = l.initialized ∧
      Shows p { q with scopes := q.scopes.markInitialized home x } i (mark env x) := by
  have parents (home j : Nat) : ((q.scopes.markInitialized home x).scope j).parent =
      (q.scopes.scope j).parent := ScopeTree.blankParent (ScopeTree.blankMark _ _ _) j
  have elsewhere {home j : Nat} {f : Frame} (away : home ≠ j) (here : Frame.Shows p q j f) :
      Frame.Shows p { q with scopes := q.scopes.markInitialized home x } j f :=
    here.same rfl fun y => by rw [ScopeTree.markedSymbol, if_neg fun both => away both.1]
  have visible {j : Nat} {v : Variable} (symbol : q.scopes.symbol? j x = some (.var v))
      (seen : v.declaredAt ∈ q.reached) :
      (q.scopes.symbol? j x).filter q.sees = some (.var v) := by
    simp [symbol, Progress.sees, seen, Option.filter]
  induction shows with
  | @top j f parent here =>
    rw [find?, find?, Option.or_none] at found
    obtain ⟨_, v, symbol, seen, type, ready⟩ := here.known x l found
    refine ⟨j, v, Nat.le_refl _, ?_, type, ready, ?_⟩
    · rw [Progress.resolve, ScopeTree.resolveTop parent, visible symbol seen]
      rfl
    · simp only [mark, found]
      exact .top ((parents j j).trans parent) (here.mark found)
  | @child j out f rest parent here outer ih =>
    have lower := kept.ordered j out parent
    cases own : f.get? x with
    | some m =>
      obtain rfl : m = l := by simpa [find?, own] using found
      obtain ⟨_, v, symbol, seen, type, ready⟩ := here.known x m own
      refine ⟨j, v, Nat.le_refl _, ?_, type, ready, ?_⟩
      · rw [Progress.resolve, ScopeTree.resolveChild kept.ordered parent, visible symbol seen]
        rfl
      · simp only [mark, own]
        exact .child ((parents j j).trans parent) (here.mark own)
          (outer.transfer kept.ordered (parents j) fun k g below shown => elsewhere (by omega) shown)
    | none =>
      have beyond : find? rest x = some l := by simpa [find?, own] using found
      obtain ⟨home, v, below, resolved, type, ready, marked⟩ := ih beyond
      refine ⟨home, v, by omega, ?_, type, ready, ?_⟩
      · have passed : (q.scopes.symbol? j x).filter q.sees = none := by
          cases symbol : q.scopes.symbol? j x with
          | none => rfl
          | some s =>
            cases s with
            | var w =>
              have unseen := here.unknown x w own symbol
              simp [Progress.sees, unseen, Option.filter]
            | method m =>
              -- The symbol of a call would be seen first, but a name with a frame is not taken.
              have taken := kept.used symbol
              simp [outer.known beyond] at taken
        rw [Progress.resolve, ScopeTree.resolveChild kept.ordered parent, passed]
        exact resolved
      · simp only [mark, own]
        exact .child ((parents home j).trans parent) (elsewhere (by omega) here) marked

structure Sync (p : Program NodeId) (i : Nat) (q : Progress) (env : Env) : Prop
    extends q.Kept p where
  shows : Shows p q i env

theorem Sync.types (sync : Sync p i q env) : q.types i = types env := by
  funext x
  unfold Env.types
  cases found : find? env x with
  | none =>
    cases known : q.types i x with
    | none => rfl
    | some type =>
      obtain ⟨home, v, resolved, _⟩ := Progress.typesSome.mp known
      exact absurd resolved (sync.shows.missing sync.toKept found home v)
  | some l =>
    obtain ⟨home, v, _, resolved, type, _⟩ := sync.shows.present sync.toKept found
    exact Progress.typesSome.mpr ⟨home, v, resolved, type⟩

end Env

/-- Whatever one side can do the other can do too, and they stay together. -/
def Mirrors {α β : Type} (together : α → β → Prop) (left : α → Prop) (right : β → Prop) : Prop :=
  (∀ a, left a → ∃ b, right b ∧ together a b) ∧ ∀ b, right b → ∃ a, left a ∧ together a b

namespace Mirrors
variable {α β γ δ : Type} {together : α → β → Prop} {left : α → Prop} {right : β → Prop}

theorem congr {left' : α → Prop} {right' : β → Prop} (both : Mirrors together left right)
    (one : ∀ a, left' a ↔ left a) (other : ∀ b, right' b ↔ right b) :
    Mirrors together left' right' := by
  refine ⟨fun a here => ?_, fun b here => ?_⟩
  · obtain ⟨b, there, still⟩ := both.1 a ((one a).mp here)
    exact ⟨b, (other b).mpr there, still⟩
  · obtain ⟨a, there, still⟩ := both.2 b ((other b).mp here)
    exact ⟨a, (one a).mpr there, still⟩

theorem bind {next : γ → δ → Prop} {left' : α → γ → Prop} {right' : β → δ → Prop}
    (first : Mirrors together left right)
    (second : ∀ a b, left a → together a b → Mirrors next (left' a) (right' b)) :
    Mirrors next (fun c => ∃ a, left a ∧ left' a c) fun d => ∃ b, right b ∧ right' b d := by
  refine ⟨fun c => ?_, fun d => ?_⟩
  · rintro ⟨a, here, later⟩
    obtain ⟨b, there, still⟩ := first.1 a here
    obtain ⟨d, last, joined⟩ := (second a b here still).1 c later
    exact ⟨d, ⟨b, there, last⟩, joined⟩
  · rintro ⟨b, there, later⟩
    obtain ⟨a, here, still⟩ := first.2 b there
    obtain ⟨c, last, joined⟩ := (second a b here still).2 d later
    exact ⟨c, ⟨a, here, last⟩, joined⟩

end Mirrors

namespace Env
variable {p : Program NodeId} {q : Progress} {i : Nat} {env : Env}

theorem Sync.access (sync : Sync p i q env) (u : VarAccess) :
    Mirrors (Sync p i) (fun r => q.access? i u = some r) fun after => access? env u = some after := by
  cases u with
  | read x =>
    simp only [Progress.access?, access?]
    cases found : find? env x with
    | none =>
      refine ⟨fun r done => ?_, fun after done => by contradiction⟩
      split at done
      · rename_i home v resolved
        exact absurd resolved (sync.shows.missing sync.toKept found home v)
      · contradiction
    | some l =>
      obtain ⟨home, v, _, resolved, _, ready, _⟩ := sync.shows.present sync.toKept found
      rw [resolved]
      dsimp only
      rw [ready]
      by_cases filled : l.initialized = true
      · simp only [filled, if_true, Option.some.injEq]
        exact ⟨fun r same => ⟨env, rfl, same ▸ sync⟩, fun after same => ⟨q, rfl, same ▸ sync⟩⟩
      · simp [filled, Mirrors]
  | write x =>
    simp only [Progress.access?, access?]
    cases found : find? env x with
    | none =>
      refine ⟨fun r done => ?_, fun after done => by contradiction⟩
      split at done
      · rename_i home v resolved
        exact absurd resolved (sync.shows.missing sync.toKept found home v)
      · contradiction
    | some l =>
      obtain ⟨home, v, _, resolved, _, _, marked⟩ := sync.shows.present sync.toKept found
      obtain ⟨symbol, seen⟩ := ScopeTree.resolveSymbol resolved
      have kept := sync.toKept.mark symbol (by simpa [Progress.sees] using seen)
      rw [resolved]
      refine ⟨fun r done => ?_, fun after done => ?_⟩
      · cases done
        exact ⟨_, rfl, kept, marked⟩
      · cases done
        exact ⟨_, rfl, kept, marked⟩

theorem Sync.accessAll (sync : Sync p i q env) (us : List VarAccess) :
    Mirrors (Sync p i) (fun r => q.accessAll? i us = some r)
      fun after => accessAll? env us = some after := by
  induction us generalizing q env with
  | nil =>
    refine ⟨fun r done => ?_, fun after done => ?_⟩
    · cases done
      exact ⟨env, rfl, sync⟩
    · cases done
      exact ⟨q, rfl, sync⟩
  | cons u rest ih =>
    exact ((sync.access u).bind fun m middle _ still => ih still).congr
      (fun r => Option.bind_eq_some_iff) fun after => Option.bind_eq_some_iff

theorem Sync.enter (sync : Sync p i q env) {inner : Nat}
    (parent : (p.annotated.scopes.scope inner).parent = some i)
    (fresh : ∀ x v, p.annotated.scopes.symbol? inner x = some (.var v) →
      v.declaredAt ∉ q.reached) : Sync p inner q ({} :: env) where
  toKept := sync.toKept
  shows := by
    refine .child ((ScopeTree.blankParent sync.marks inner).trans parent) ⟨?_, ?_⟩ sync.shows
    · intro x l found
      contradiction
    · intro x v _ found
      obtain ⟨marked, there⟩ := ScopeTree.symbolVariable sync.marks found
      exact fresh x { v with initialized := marked } there

theorem Sync.leave (sync : Sync p i q env) {out : Nat}
    (parent : (p.annotated.scopes.scope i).parent = some out) :
    ∃ frame rest, env = frame :: rest ∧ Sync p out q rest := by
  have child := (ScopeTree.blankParent sync.marks i).trans parent
  cases sync.shows with
  | top none _ => simp [none] at child
  | child other _ outer =>
    obtain rfl : _ = out := Option.some.inj (other.symm.trans child)
    exact ⟨_, _, rfl, sync.toKept, outer⟩

theorem Sync.leaves {left : Progress → Prop} {right : Env → Prop} {out : Nat}
    (parent : (p.annotated.scopes.scope i).parent = some out)
    (both : Mirrors (Sync p i) left right) :
    Mirrors (Sync p out) left fun after => ∃ frame, right (frame :: after) := by
  refine ⟨fun r here => ?_, fun after => ?_⟩
  · obtain ⟨inner, there, still⟩ := both.1 r here
    obtain ⟨frame, after, rfl, outer⟩ := still.leave parent
    exact ⟨after, ⟨frame, there⟩, outer⟩
  · rintro ⟨frame, there⟩
    obtain ⟨r, here, still⟩ := both.2 _ there
    obtain ⟨_, _, same, outer⟩ := still.leave parent
    cases same
    exact ⟨r, here, outer⟩

theorem Sync.declare (sync : Sync p i q env) {x : String} {v : Variable} {l : Local}
    (free : p.annotated.methods.contains x = false)
    (symbol : p.annotated.scopes.symbol? i x = some (.var v)) (type : v.type = some l.type)
    (ready : v.initialized = l.initialized) (unseen : v.declaredAt ∉ q.reached)
    (only : ∀ j y w, p.annotated.scopes.symbol? j y = some (.var w) →
      w.declaredAt = v.declaredAt → j = i ∧ y = x) :
    Sync p i (q.reach v.declaredAt) (declare env x l) where
  toKept := sync.toKept.reach v.declaredAt
  shows := by
    have here : q.scopes.symbol? i x = some (.var v) := by
      obtain ⟨marked, there⟩ := ScopeTree.symbolVariable sync.marks.symm symbol
      have kept := sync.unmarked i x _ there unseen
      rw [there, ← symbol, kept]
    have single (j : Nat) (y : String) (w : Variable)
        (found : q.scopes.symbol? j y = some (.var w)) (same : w.declaredAt = v.declaredAt) :
        j = i ∧ y = x := by
      obtain ⟨marked, there⟩ := ScopeTree.symbolVariable sync.marks found
      exact only j y _ there same
    cases sync.shows with
    | top parent shown =>
      exact .top parent (shown.declare free here type ready fun y w found same =>
        (single i y w found same).2)
    | child parent shown outer =>
      have lower := sync.toKept.ordered _ _ parent
      refine .child parent (shown.declare free here type ready fun y w found same =>
        (single i y w found same).2) (outer.transfer sync.toKept.ordered (fun _ => rfl) ?_)
      intro j f below other
      refine other.reach fun y w found same => ?_
      have := (single j y w found same).1
      omega

end Env
end ClassCompiler
