import ClassCompiler.Proofs.NameLookup
import ClassCompiler.Proofs.TableMap

/-! Scope trees up to the marks that tell which variables have a value. Two trees that are equal
once the marks are wiped off answer every question alike that is not about the marks. -/
namespace ClassCompiler

def Symbol.blank : Symbol → Symbol
  | .var v => .var { v with initialized := false }
  | .method m => .method m

def Scope.blank (s : Scope) : Scope := { s with symbols := s.symbols.map Symbol.blank }

namespace ScopeTree

def blank (t : ScopeTree) : ScopeTree := ⟨t.scopes.map Scope.blank⟩

theorem blankScope (t : ScopeTree) (id : Nat) : t.blank.scope id = (t.scope id).blank := by
  simp only [scope, blank, List.getElem?_map]
  cases t.scopes[id]? <;> rfl

theorem blankSymbol (t : ScopeTree) (id : Nat) (x : String) :
    t.blank.symbol? id x = (t.symbol? id x).map Symbol.blank := by
  simp [symbol?, blankScope, Scope.blank]

theorem blankAncestors (t : ScopeTree) (id : Nat) : t.blank.ancestors id = t.ancestors id := by
  have each (fuel : Nat) : ∀ id, t.blank.wayOut fuel id = t.wayOut fuel id := by
    induction fuel with
    | zero => exact fun _ => rfl
    | succ n ih =>
      intro id
      have parent : (t.blank.scope id).parent = (t.scope id).parent := by rw [blankScope]; rfl
      simp only [wayOut, parent, ih]
  exact each _ id

theorem blankDeclarationCount (t : ScopeTree) (id : Nat) (x : String) :
    t.blank.declarationCount id x = t.declarationCount id x := by
  have own (a : Nat) : (t.blank.scope a).declarationCount x = (t.scope a).declarationCount x := by
    rw [blankScope]
    rfl
  simp only [declarationCount, blankAncestors, own]

theorem blankResolve (t : ScopeTree) (id : Nat) (x : String) {visible : Symbol → Bool}
    (even : ∀ s : Symbol, visible s.blank = visible s) :
    t.blank.resolve id x visible =
      (t.resolve id x visible).map fun r => (r.1, r.2.blank) := by
  simp only [resolve, blankAncestors, List.map_findSome?]
  congr 1
  funext a
  have own := blankSymbol t a x
  simp only [symbol?] at own
  rw [Function.comp_apply, own]
  cases (t.scope a).symbols.get? x with
  | none => rfl
  | some s => cases seen : visible s <;> simp [Option.filter, even, seen]

theorem blankMark (t : ScopeTree) (id : Nat) (x : String) :
    (t.markInitialized id x).blank = t.blank := by
  have each (s : Scope) : (s.markInitialized x).blank = s.blank := by
    unfold Scope.markInitialized
    split
    · rename_i v found
      have kept : (s.symbols.map Symbol.blank).get? x = some (Symbol.blank (.var v)) := by
        rw [Table.getMap, found]
        rfl
      have same : Symbol.blank (.var { v with initialized := true }) = Symbol.blank (.var v) := rfl
      simp only [Scope.blank, Table.insertMap, same, Table.insertFound kept]
    · rfl
  simp only [markInitialized, modify, blank, mk.injEq]
  apply List.ext_getElem?
  intro i
  rw [List.getElem?_map, List.getElem?_modify, List.getElem?_map]
  cases t.scopes[i]? with
  | none => rfl
  | some s =>
    by_cases here : id = i
    · simp [here, each]
    · simp [here]

variable {t u : ScopeTree}

theorem sameResolve (same : t.blank = u.blank) (id : Nat) (x : String) {visible : Symbol → Bool}
    (even : ∀ s : Symbol, visible s.blank = visible s) :
    (t.resolve id x visible).map (fun r => (r.1, r.2.blank)) =
      (u.resolve id x visible).map fun r => (r.1, r.2.blank) := by
  rw [← blankResolve t id x even, ← blankResolve u id x even, same]

theorem sameVariable {s : Symbol} {v : Variable} (same : s.blank = Symbol.blank (.var v)) :
    ∃ marked, s = .var { v with initialized := marked } := by
  cases s with
  | method m => simp [Symbol.blank] at same
  | var w =>
    simp only [Symbol.blank, Symbol.var.injEq, Variable.mk.injEq, true_and] at same
    obtain ⟨type, slot, node⟩ := same
    exact ⟨w.initialized, by rw [← type, ← slot, ← node]⟩

theorem resolveVariable (same : t.blank = u.blank) {id home : Nat} {x : String}
    {visible : Symbol → Bool} (even : ∀ s : Symbol, visible s.blank = visible s) {v : Variable}
    (found : t.resolve id x visible = some (home, .var v)) :
    ∃ marked, u.resolve id x visible = some (home, .var { v with initialized := marked }) := by
  have both := sameResolve same id x even
  rw [found] at both
  cases other : u.resolve id x visible with
  | none => simp [other] at both
  | some r =>
    obtain ⟨place, s⟩ := r
    simp only [other, Option.map_some, Option.some.injEq, Prod.mk.injEq] at both
    obtain ⟨marked, rfl⟩ := sameVariable both.2.symm
    exact ⟨marked, by rw [both.1]⟩

theorem symbolVariable (same : t.blank = u.blank) {id : Nat} {x : String} {v : Variable}
    (found : t.symbol? id x = some (.var v)) :
    ∃ marked, u.symbol? id x = some (.var { v with initialized := marked }) := by
  have both := congrArg (fun w : ScopeTree => w.symbol? id x) same
  simp only [blankSymbol, found, Option.map_some] at both
  cases other : u.symbol? id x with
  | none => simp [other] at both
  | some s =>
    simp only [other, Option.map_some, Option.some.injEq] at both
    obtain ⟨marked, rfl⟩ := sameVariable both.symm
    exact ⟨marked, rfl⟩

theorem lookupVariable (same : t.blank = u.blank) {id : Nat} {x : String} {v : Variable}
    (found : t.lookup id x = some (.var v)) :
    ∃ marked, u.lookup id x = some (.var { v with initialized := marked }) := by
  simp only [lookup, Option.map_eq_some_iff] at found ⊢
  obtain ⟨⟨home, s⟩, found, rfl⟩ := found
  obtain ⟨marked, there⟩ := resolveVariable same (fun _ => rfl) found
  exact ⟨marked, _, there, rfl⟩

theorem blankLocals (same : t.blank = u.blank) (id : Nat) :
    t.maxLocals id = u.maxLocals id := by
  have limits := congrArg (fun w : ScopeTree => (w.scope id).maxLocals) same
  have count (w : ScopeTree) : w.blank.visibleVariableCount id = w.visibleVariableCount id := by
    have own (i : Nat) : (w.blank.scope i).variableCount = (w.scope i).variableCount := by
      simp only [blankScope, Scope.blank, Scope.variableCount, Table.values, Table.map, List.map_map,
        List.countP_map]
      exact List.countP_congr fun entry _ => by cases kind : entry.2 <;> simp [kind, Symbol.blank,
        Symbol.isVariable]
    simp only [visibleVariableCount, blankAncestors, own]
  have visible := congrArg (fun w : ScopeTree => w.visibleVariableCount id) same
  simp only [count, blankScope, Scope.blank] at limits visible
  rw [maxLocals, maxLocals, limits, visible]

end ScopeTree
end ClassCompiler
