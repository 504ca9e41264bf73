import ClassCompiler.Proofs.ExprCode

/-! The slots of variables. The variables that can be used at a point of a body stand in the slots from
0 on, in the order of their declarations. A new variable comes behind them, and a scope that ends takes
its variables along, so that their slots are free again. -/
namespace ClassCompiler

namespace Bindings

def inSlot (env : Bindings) (k : Nat) : Option Binding := env.reverse[k]?

theorem inSlotLast (b : Binding) (env : Bindings) : inSlot (b :: env) env.length = some b := by
  simp [inSlot]

theorem inSlotOlder {env : Bindings} {k : Nat} {b c : Binding} (found : inSlot env k = some b) :
    inSlot (c :: env) k = some b := by
  have below := (List.getElem?_eq_some_iff.mp found).1
  rw [inSlot, List.reverse_cons, List.getElem?_append_left below]
  exact found

theorem inSlotCons {env : Bindings} {k : Nat} {b c : Binding} (found : inSlot (c :: env) k = some b) :
    k = env.length ∧ b = c ∨ inSlot env k = some b := by
  rw [inSlot, List.reverse_cons] at found
  by_cases below : k < env.length
  · rw [List.getElem?_append_left (by simpa using below)] at found
    exact .inr found
  · have bound := (List.getElem?_eq_some_iff.mp found).1
    have last : k = env.length := by
      simp only [List.length_append, List.length_reverse, List.length_singleton] at bound
      omega
    subst last
    exact .inl ⟨rfl, by simpa using found.symm⟩

theorem inSlotMem {env : Bindings} {k : Nat} {b : Binding} (found : inSlot env k = some b) :
    b ∈ env := List.mem_reverse.mp (List.mem_of_getElem? found)

theorem findCons (c : Binding) (env : Bindings) (x : String) :
    find? (c :: env) x = if c.name = x then some c else find? env x := by
  by_cases here : c.name = x <;> simp [find?, here]

/-- The variables that a scope sees are these, and every name has the slot of its variable. -/
structure Sites (t : ScopeTree) (id : Nat) (env : Bindings) : Prop where
  count : t.visibleVariableCount id = env.length
  slots : ∀ x v, t.lookup id x = some (.var v) → ∃ b, find? env x = some b ∧
    inSlot env v.slot = some b ∧ v.type = some b.type

end Bindings

namespace ScopeTree
variable {t u : ScopeTree} {id : Nat}

theorem visibleTop (top : (t.scope id).parent = none) :
    t.visibleVariableCount id = (t.scope id).variableCount := by
  simp [visibleVariableCount, ancestorsRoot top]

theorem visibleChild (ordered : t.Ordered) {out : Nat} (child : (t.scope id).parent = some out) :
    t.visibleVariableCount id = (t.scope id).variableCount + t.visibleVariableCount out := by
  simp [visibleVariableCount, ancestorsChild ordered child]

theorem visibleCongr (ordered : t.Ordered) (other : u.Ordered) (id : Nat) :
    (∀ i, i ≤ id → (u.scope i).parent = (t.scope i).parent) →
    (∀ i, i ≤ id → (u.scope i).variableCount = (t.scope i).variableCount) →
      u.visibleVariableCount id = t.visibleVariableCount id := by
  induction id using wayOutInduction ordered with
  | top id top =>
    intro parents counts
    rw [visibleTop top, visibleTop ((parents id (Nat.le_refl id)).trans top), counts id (Nat.le_refl id)]
  | child id out child ih =>
    intro parents counts
    have lower := ordered id out child
    rw [visibleChild ordered child, visibleChild other ((parents id (Nat.le_refl id)).trans child),
      counts id (Nat.le_refl id), ih (fun i below => parents i (by omega))
        fun i below => counts i (by omega)]

theorem lookupCongr (ordered : t.Ordered) (other : u.Ordered) (x : String) (id : Nat) :
    (∀ i, i ≤ id → (u.scope i).parent = (t.scope i).parent) →
    (∀ i, i ≤ id → u.symbol? i x = t.symbol? i x) → u.lookup id x = t.lookup id x := by
  induction id using wayOutInduction ordered with
  | top id top =>
    intro parents symbols
    rw [lookupTop top, lookupTop ((parents id (Nat.le_refl id)).trans top), symbols id (Nat.le_refl id)]
  | child id out child ih =>
    intro parents symbols
    have lower := ordered id out child
    rw [lookupChild ordered child, lookupChild other ((parents id (Nat.le_refl id)).trans child),
      symbols id (Nat.le_refl id), ih (fun i below => parents i (by omega))
        fun i below => symbols i (by omega)]

theorem declareParent (t : ScopeTree) (id i : Nat) (x : String) (type : Option DataType)
    (ready : Bool) (n : NodeId) :
    ((t.declareVariable id x type ready n).scope i).parent = (t.scope i).parent :=
  parentModify t id i fun _ => rfl

theorem declareOrdered (ordered : t.Ordered) (id : Nat) (x : String) (type : Option DataType)
    (ready : Bool) (n : NodeId) : (t.declareVariable id x type ready n).Ordered :=
  orderedModify ordered id fun _ => rfl

theorem visibleDeclare (ordered : t.Ordered) (inside : id < t.size) {x : String}
    (absent : t.symbol? id x = none) (type : Option DataType) (ready : Bool) (n : NodeId) :
    (t.declareVariable id x type ready n).visibleVariableCount id = t.visibleVariableCount id + 1 := by
  have after := declareOrdered ordered id x type ready n
  have parents (i : Nat) := t.declareParent id i x type ready n
  have own : ((t.declareVariable id x type ready n).scope id).variableCount =
      (t.scope id).variableCount + 1 := by
    rw [declareVariable, scopeModify, if_pos ⟨rfl, inside⟩]
    simp [Scope.declareVariable, Scope.variableCount, Table.valuesInsertAbsent absent,
      List.countP_append, Symbol.isVariable]
  cases parent : (t.scope id).parent with
  | none => rw [visibleTop parent, visibleTop ((parents id).trans parent), own]
  | some out =>
    have lower := ordered id out parent
    have outer : (t.declareVariable id x type ready n).visibleVariableCount out =
        t.visibleVariableCount out := by
      refine visibleCongr ordered after out (fun i _ => parents i) fun i below => ?_
      rw [declareVariable, scopeModify, if_neg fun both => by omega]
    rw [visibleChild ordered parent, visibleChild after ((parents id).trans parent), own, outer]
    omega

end ScopeTree

namespace Bindings.Sites
variable {env : Bindings} {id : Nat}

theorem declare {t : ScopeTree} (sites : Sites t id env) (ordered : t.Ordered) (inside : id < t.size)
    {x : String} (absent : t.symbol? id x = none) (type : DataType) (ready : Bool) (n : NodeId) :
    Sites (t.declareVariable id x (some type) ready n) id (⟨x, n, type⟩ :: env) := by
  have after := ScopeTree.declareOrdered ordered id x (some type) ready n
  have parents (i : Nat) := t.declareParent id i x (some type) ready n
  have symbols (i : Nat) (y : String) : (t.declareVariable id x (some type) ready n).symbol? i y =
      if id = i ∧ i < t.size ∧ x = y then some (.var ⟨some type, t.nextSlot id, ready, n⟩)
      else t.symbol? i y := ScopeTree.declaredSymbol ..
  refine ⟨?_, fun y v found => ?_⟩
  · rw [List.length_cons, ← sites.count]
    exact ScopeTree.visibleDeclare ordered inside absent (some type) ready n
  · rw [findCons]
    by_cases same : x = y
    · subst same
      have here := symbols id x
      rw [if_pos ⟨rfl, inside, rfl⟩] at here
      rw [ScopeTree.lookupOwn after here] at found
      cases found
      refine ⟨_, if_pos rfl, ?_, rfl⟩
      rw [ScopeTree.nextSlot, sites.count]
      exact inSlotLast _ env
    · have before : t.lookup id y = some (.var v) := by
        rw [← found]
        exact (ScopeTree.lookupCongr ordered after y id (fun i _ => parents i)
          fun i _ => (symbols i y).trans (if_neg fun both => same both.2.2)).symm
      obtain ⟨b, meant, slot, typed⟩ := sites.slots y v before
      exact ⟨b, by rw [if_neg same]; exact meant, inSlotOlder slot, typed⟩

section
variable {a b : Analysis}

theorem leads {passed : List NodeId} (sites : Sites a.scopes id env) (leads : a.Leads [] passed b)
    (tidy : a.Tidy) (inside : id < a.scopes.size) : Sites b.scopes id env := by
  have after := (leads.tidy tidy).ordered
  have parents (i : Nat) (below : i ≤ id) :
      (b.scopes.scope i).parent = (a.scopes.scope i).parent :=
    (leads.scope i (by omega)).parent
  refine ⟨?_, fun x v found => sites.slots x v ?_⟩
  · rw [← sites.count]
    exact ScopeTree.visibleCongr tidy.ordered after id parents
      fun i below => (leads.scope i (by omega)).steady rfl
  · -- What is new is the name of a method, and does not mean a variable.
    have own (i : Nat) (below : i ≤ id) : b.scopes.symbol? i x = a.scopes.symbol? i x ∨
        ∃ m, b.scopes.symbol? i x = some (.method m) := by
      rcases (leads.scope i (by omega)).symbol x with kept | ⟨_, _, none, _⟩ | ⟨_, planted⟩
      · exact .inl kept
      · contradiction
      · exact .inr planted
    have all (i : Nat) : i ≤ id → b.scopes.lookup i x = some (.var v) →
        a.scopes.lookup i x = some (.var v) := by
      induction i using ScopeTree.wayOutInduction tidy.ordered with
      | top i top =>
        intro below found
        rw [ScopeTree.lookupTop ((parents i below).trans top)] at found
        rw [ScopeTree.lookupTop top]
        rcases own i below with kept | ⟨m, planted⟩
        · exact kept.symm.trans found
        · simp [planted] at found
      | child i out child ih =>
        intro below found
        have lower := tidy.ordered i out child
        rw [ScopeTree.lookupChild after ((parents i below).trans child)] at found
        rw [ScopeTree.lookupChild tidy.ordered child]
        rcases own i below with kept | ⟨m, planted⟩
        · rw [kept] at found
          cases here : a.scopes.symbol? i x with
          | none =>
            rw [here] at found
            exact ih (by omega) found
          | some s =>
            rw [here] at found
            exact found
        · simp [planted] at found
    exact all id (Nat.le_refl id) found

theorem entered (sites : Sites a.scopes id env) (tidy : a.Tidy) (inside : id < a.scopes.size)
    (n : NodeId) : Sites (a.entered id n).scopes a.scopes.size env := by
  have after := ((Analysis.Leads.entered a inside n).tidy tidy).ordered
  have outer := sites.leads (Analysis.Leads.entered a inside n) tidy inside
  have parent : ((a.entered id n).scopes.scope a.scopes.size).parent = some id := by
    rw [Analysis.enteredNew]
  refine ⟨?_, fun x v found => outer.slots x v ?_⟩
  · rw [ScopeTree.visibleChild after parent, outer.count, Analysis.enteredNew]
    exact Nat.zero_add _
  · have none : (a.entered id n).scopes.symbol? a.scopes.size x = none := by
      rw [ScopeTree.symbol?, Analysis.enteredNew]
      rfl
    rwa [ScopeTree.lookupChild after parent, none] at found

end
end Bindings.Sites
end ClassCompiler
