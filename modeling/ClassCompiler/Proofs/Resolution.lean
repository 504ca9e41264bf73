import ClassCompiler.Proofs.Origins

/-! The three ways in which names are looked up agree. The first walk looks a name up among the
symbols so far, the check looks it up among the symbols that it has reached in the finished scopes,
and the code looks it up in the finished scopes without regard to what has been reached. In a program
that breaks no rule a variable is never declared again and has no name of a method, so a name that
the check finds means the same to the other two; only the object can be hidden from the code, by a
variable that is declared further down. -/
namespace ClassCompiler

def Analysis.Single (F : Analysis) (i : Nat) (x : String) : Prop :=
  F.methods.contains x = false ∧ F.scopes.declarationCount i x ≤ 1

namespace Program

def Lawful (F : Analysis) (p : Program NodeId) : Prop :=
  ∀ m ∈ p.methods, ∀ i d, (i, d) ∈ bodyPlaced F m → F.Single i d.name

end Program

/-- What the check has reached covers a state of the first walk: the variables of the state, the
object, and the parameters of the methods whose scopes the state has. -/
structure Analysis.Within (p : Program NodeId) (reached : List NodeId) (a : Analysis) : Prop where
  vars : ∀ i x v, a.scopes.symbol? i x = some (.var v) → v.declaredAt ∈ reached
  object : p.tag ∈ reached
  params : ∀ m ∈ p.methods, ∀ i, p.annotated.scopeIds.get? m.tag = some i → i < a.scopes.size →
    ∀ param ∈ m.params, param.tag ∈ reached

theorem Analysis.Within.walks {p : Program NodeId} {a b : Analysis} {reached passed : List NodeId}
    {id : Nat} (within : a.Within p reached) (walks : a.Walks id [] passed b)
    (size : b.scopes.size = a.scopes.size) : b.Within p reached where
  vars i x v found := within.vars i x v (walks.variables size found)
  object := within.object
  params m member i bound inside := within.params m member i bound (size ▸ inside)

/-- A state of the first walk inside the scope `id`, at the point at which the check has reached the
given declarations. -/
structure Analysis.Settled (F : Analysis) (p : Program NodeId) (reached : List NodeId) (id : Nat)
    (a : Analysis) : Prop where
  inside : id < a.scopes.size
  tidy : a.Tidy
  ahead : a.Before reached F
  within : a.Within p reached

namespace Analysis.Settled
variable {p : Program NodeId} {a : Analysis} {reached : List NodeId} {id : Nat}

theorem own (settled : p.annotated.Settled p reached id a) {i : Nat} (inside : i < a.scopes.size)
    {x : String} {v : Variable} (found : p.annotated.scopes.symbol? i x = some (.var v))
    (seen : v.declaredAt ∈ reached) : a.scopes.symbol? i x = some (.var v) := by
  obtain ⟨fresh, passed, leads, away⟩ := settled.ahead
  rcases (leads.scope i inside).symbol x with kept | ⟨w, here, new, _⟩ | ⟨_, m, planted⟩
  · exact kept.symm.trans found
  · have same : w = v := by simpa using here.symm.trans found
    exact absurd (same ▸ new) (away _ seen).1
  · simpa using planted.symm.trans found

theorem unreached (settled : p.annotated.Settled p reached id a) (unique : p.tags.Nodup)
    (lawful : p.Lawful p.annotated) {i : Nat} (inside : i < a.scopes.size) {x : String}
    {v : Variable} (found : p.annotated.scopes.symbol? i x = some (.var v))
    (unseen : v.declaredAt ∉ reached) :
    i ≠ ScopeTree.root ∧ p.annotated.Single i x ∧ a.scopes.symbol? i x = none ∧
      ∃ m ∈ p.methods, ∃ d, (i, d) ∈ Program.bodyPlaced p.annotated m ∧ d.name = x ∧
        d.tag = v.declaredAt ∧ p.annotated.typeOf? d.tag = v.type := by
  obtain ⟨fresh, passed, leads, away⟩ := settled.ahead
  have ordered := (leads.tidy settled.tidy).ordered
  rcases (leads.scope i inside).symbol x with kept | ⟨w, here, new, more⟩ | ⟨_, m, planted⟩
  · exact absurd (settled.within.vars i x v (kept.symm.trans found)) unseen
  · have same : w = v := by simpa using here.symm.trans found
    subst same
    cases Program.origin unique found with
    | object _ _ _ node => exact absurd (node ▸ settled.within.object) unseen
    | @param m q _ method home member _ node _ =>
      exact absurd (node ▸ settled.within.params m method i home inside q member) unseen
    | @declared m d inner method member name node type =>
      have single := lawful m method i d member
      rw [name] at single
      -- An earlier symbol of the name would be counted before this one, or belong to a method.
      have few := Nat.le_trans (ScopeTree.declarationCountOwn ordered inner x) single.2
      refine ⟨inner, single, ?_, m, method, d, member, name, node, type⟩
      cases earlier : a.scopes.symbol? i x with
      | none => rfl
      | some s =>
        cases s with
        | var u =>
          have counted := settled.tidy.counted i x u earlier
          omega
        | method u =>
          have taken := leads.taken x (settled.tidy.used i x u earlier)
          simp [single.1] at taken
  · simpa using planted.symm.trans found

theorem hidden {q : Progress} (settled : p.annotated.Settled p q.reached id a)
    (unique : p.tags.Nodup) (lawful : p.Lawful p.annotated) {i : Nat}
    (inside : i < a.scopes.size) {x : String}
    (passed : (p.annotated.scopes.symbol? i x).filter q.sees = none) :
    a.scopes.symbol? i x = none := by
  cases found : p.annotated.scopes.symbol? i x with
  | some s =>
    cases s with
    | method m => simp [found, Progress.sees, Option.filter] at passed
    | var v =>
      have unseen : v.declaredAt ∉ q.reached := by
        simpa [found, Progress.sees, Option.filter] using passed
      exact (settled.unreached unique lawful inside found unseen).2.2.1
  | none =>
    obtain ⟨fresh, passed, leads, _⟩ := settled.ahead
    rcases (leads.scope i inside).symbol x with kept | ⟨w, here, _, _⟩ | ⟨_, m, planted⟩
    · exact kept.symm.trans found
    · simpa using here.symm.trans found
    · simpa using planted.symm.trans found

theorem ordered (settled : p.annotated.Settled p reached id a) : p.annotated.scopes.Ordered := by
  obtain ⟨_, _, leads, _⟩ := settled.ahead
  exact (leads.tidy settled.tidy).ordered

theorem parent (settled : p.annotated.Settled p reached id a) {i : Nat}
    (inside : i < a.scopes.size) :
    (p.annotated.scopes.scope i).parent = (a.scopes.scope i).parent := by
  obtain ⟨_, _, leads, _⟩ := settled.ahead
  exact (leads.scope i inside).parent

theorem lookup {q : Progress} (settled : p.annotated.Settled p q.reached id a)
    (unique : p.tags.Nodup) (lawful : p.Lawful p.annotated) {home : Nat} {x : String} {v : Variable}
    (found : p.annotated.scopes.resolve id x q.sees = some (home, .var v)) :
    a.scopes.lookup id x = some (.var v) := by
  have near {i : Nat} {s : Symbol}
      (here : (p.annotated.scopes.symbol? i x).filter q.sees = some s) :
      p.annotated.scopes.symbol? i x = some s ∧ q.sees s = true :=
    Option.filter_eq_some_iff.mp here
  have all (i : Nat) : i < a.scopes.size →
      p.annotated.scopes.resolve i x q.sees = some (home, .var v) →
        a.scopes.lookup i x = some (.var v) := by
    -- Along the way out of the scope: what the check passes over, the first walk has not seen yet.
    induction i using ScopeTree.wayOutInduction settled.ordered with
    | top i top =>
      intro inside found
      rw [ScopeTree.resolveTop top] at found
      obtain ⟨s, here, same⟩ := Option.map_eq_some_iff.mp found
      cases same
      obtain ⟨symbol, seen⟩ := near here
      rw [ScopeTree.lookupTop ((settled.parent inside).symm.trans top)]
      exact settled.own inside symbol (by simpa [Progress.sees] using seen)
    | child i out child ih =>
      intro inside found
      have outer : out < a.scopes.size := Nat.lt_trans (settled.ordered i out child) inside
      rw [ScopeTree.resolveChild settled.ordered child] at found
      rw [ScopeTree.lookupChild settled.tidy.ordered ((settled.parent inside).symm.trans child)]
      cases here : (p.annotated.scopes.symbol? i x).filter q.sees with
      | none =>
        rw [here] at found
        rw [settled.hidden unique lawful inside here]
        exact ih outer found
      | some s =>
        rw [here] at found
        cases found
        obtain ⟨symbol, seen⟩ := near here
        rw [settled.own inside symbol (by simpa [Progress.sees] using seen)]
        rfl
  exact all id settled.inside found

end Analysis.Settled

theorem ScopeTree.resolveCounted {t : ScopeTree} (ordered : t.Ordered)
    (counted : ∀ id x v, t.symbol? id x = some (.var v) → 0 < (t.scope id).declarationCount x)
    {x : String} {visible : Symbol → Bool} {home : Nat} {v : Variable} (inner : home ≠ root)
    (id : Nat) : t.resolve id x visible = some (home, .var v) → 0 < t.declarationCount id x := by
  induction id using wayOutInduction ordered with
  | top id top =>
    intro found
    rw [resolveTop top] at found
    obtain ⟨s, here, same⟩ := Option.map_eq_some_iff.mp found
    cases same
    rw [declarationCountTop top, if_neg inner]
    exact counted _ x v (Option.filter_eq_some_iff.mp here).1
  | child id out child ih =>
    intro found
    rw [resolveChild ordered child] at found
    rw [declarationCountChild ordered child]
    cases here : (t.symbol? id x).filter visible with
    | none =>
      rw [here] at found
      have outer := ih found
      omega
    | some s =>
      rw [here] at found
      cases found
      have own := counted _ x v (Option.filter_eq_some_iff.mp here).1
      omega

namespace Analysis.Settled
variable {p : Program NodeId} {a : Analysis} {id : Nat}

theorem final {q : Progress} (settled : p.annotated.Settled p q.reached id a)
    (unique : p.tags.Nodup) (lawful : p.Lawful p.annotated) {home : Nat} {x : String} {v : Variable}
    (found : p.annotated.scopes.resolve id x q.sees = some (home, .var v)) :
    p.annotated.scopes.lookup id x = some (.var v) ∨
      home = ScopeTree.root ∧ ∃ w, p.annotated.scopes.lookup id x = some (.var w) ∧
        ∃ m ∈ p.methods, ∃ i d, (i, d) ∈ Program.bodyPlaced p.annotated m ∧ d.name = x ∧
          d.tag = w.declaredAt ∧ p.annotated.typeOf? d.tag = w.type := by
  have ordered := settled.ordered
  have counted : ∀ i y w, p.annotated.scopes.symbol? i y = some (.var w) →
      0 < (p.annotated.scopes.scope i).declarationCount y := by
    obtain ⟨_, _, leads, _⟩ := settled.ahead
    exact (leads.tidy settled.tidy).counted
  have all (i : Nat) : i < a.scopes.size →
      p.annotated.scopes.resolve i x q.sees = some (home, .var v) →
        p.annotated.scopes.lookup i x = some (.var v) ∨
          home = ScopeTree.root ∧ ∃ w, p.annotated.scopes.lookup i x = some (.var w) ∧
            ∃ m ∈ p.methods, ∃ i d, (i, d) ∈ Program.bodyPlaced p.annotated m ∧ d.name = x ∧
              d.tag = w.declaredAt ∧ p.annotated.typeOf? d.tag = w.type := by
    induction i using ScopeTree.wayOutInduction ordered with
    | top i top =>
      intro inside found
      rw [ScopeTree.resolveTop top] at found
      obtain ⟨s, here, same⟩ := Option.map_eq_some_iff.mp found
      cases same
      rw [ScopeTree.lookupTop top]
      exact .inl (Option.filter_eq_some_iff.mp here).1
    | child i out child ih =>
      intro inside found
      have outer : out < a.scopes.size := Nat.lt_trans (ordered i out child) inside
      rw [ScopeTree.resolveChild ordered child] at found
      rw [ScopeTree.lookupChild ordered child]
      cases here : p.annotated.scopes.symbol? i x with
      | none =>
        rw [here] at found
        exact ih outer found
      | some s =>
        cases seen : q.sees s with
        | true =>
          simp only [here, Option.filter, seen, if_true, Option.map_some, Option.some_or,
            Option.some.injEq, Prod.mk.injEq] at found
          exact .inl (by rw [found.2]; rfl)
        | false =>
          simp only [here, Option.filter, seen, Bool.false_eq_true, if_false, Option.map_none,
            Option.none_or] at found
          cases s with
          | method m => simp [Progress.sees] at seen
          | var w =>
            -- The declaration that hides the name is the only one around, so the name is the object.
            obtain ⟨_, single, _, m, method, d, placed, declared⟩ := settled.unreached unique lawful
              inside here (by simpa [Progress.sees] using seen)
            refine .inr ⟨?_, w, rfl, m, method, i, d, placed, declared⟩
            apply Classical.byContradiction
            intro elsewhere
            have above := ScopeTree.resolveCounted ordered counted elsewhere out found
            have own := counted i x w here
            have few := single.2
            rw [ScopeTree.declarationCountChild ordered child] at few
            omega
  exact all id settled.inside found

end Analysis.Settled
end ClassCompiler
