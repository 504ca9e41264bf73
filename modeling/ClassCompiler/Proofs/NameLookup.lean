import ClassCompiler.ScopeTree

/-! Names along the way out of a scope. Parents stand before their children, so every question
about a scope is answered by its own tables and by the answer for the scope around it. -/
namespace ClassCompiler.ScopeTree

def symbol? (t : ScopeTree) (id : Nat) (name : String) : Option Symbol :=
  (t.scope id).symbols.get? name

theorem wayOutInduction {t : ScopeTree} (ordered : t.Ordered) {P : Nat → Prop}
    (top : ∀ id, (t.scope id).parent = none → P id)
    (child : ∀ id p, (t.scope id).parent = some p → P p → P id) (id : Nat) : P id := by
  induction id using Nat.strongRecOn with
  | ind id ih =>
    cases found : (t.scope id).parent with
    | none => exact top id found
    | some p => exact child id p found (ih p (ordered id p found))

theorem ancestorsSelf (t : ScopeTree) (id : Nat) : id ∈ t.ancestors id := by
  rw [ancestors, wayOut]
  exact List.mem_cons_self ..

theorem ancestorsLe {t : ScopeTree} (ordered : t.Ordered) (id : Nat) : ∀ i ∈ t.ancestors id, i ≤ id := by
  induction id using wayOutInduction ordered with
  | top id top => simp [ancestorsRoot top]
  | child id out child ih =>
    have lower := ordered id out child
    intro i member
    rw [ancestorsChild ordered child] at member
    rcases List.mem_cons.mp member with rfl | outer
    · exact Nat.le_refl _
    · exact Nat.le_trans (ih i outer) (Nat.le_of_lt lower)

theorem resolveTop {t : ScopeTree} {id : Nat} (top : (t.scope id).parent = none) (x : String)
    (visible : Symbol → Bool) :
    t.resolve id x visible = ((t.symbol? id x).filter visible).map fun s => (id, s) := by
  simp only [resolve, ancestorsRoot top, symbol?, List.findSome?_cons, List.findSome?_nil]
  generalize Option.map _ _ = found
  cases found <;> rfl

theorem resolveChild {t : ScopeTree} (ordered : t.Ordered) {id p : Nat}
    (child : (t.scope id).parent = some p) (x : String) (visible : Symbol → Bool) :
    t.resolve id x visible =
      (((t.symbol? id x).filter visible).map fun s => (id, s)).or (t.resolve p x visible) := by
  simp only [resolve, ancestorsChild ordered child, symbol?, List.findSome?_cons]
  generalize Option.map _ (Option.filter visible ((t.scope id).symbols.get? x)) = found
  cases found <;> rfl

theorem resolveSymbol {t : ScopeTree} {id home : Nat} {x : String} {visible : Symbol → Bool}
    {s : Symbol} (found : t.resolve id x visible = some (home, s)) :
    t.symbol? home x = some s ∧ visible s = true := by
  obtain ⟨scope, _, here⟩ := List.exists_of_findSome?_eq_some found
  obtain ⟨symbol, kept, same⟩ := Option.map_eq_some_iff.mp here
  cases same
  exact Option.filter_eq_some_iff.mp kept

theorem resolveLe {t : ScopeTree} (ordered : t.Ordered) {id home : Nat} {x : String}
    {visible : Symbol → Bool} {s : Symbol} (found : t.resolve id x visible = some (home, s)) :
    home ≤ id := by
  obtain ⟨scope, around, here⟩ := List.exists_of_findSome?_eq_some found
  obtain ⟨symbol, _, same⟩ := Option.map_eq_some_iff.mp here
  cases same
  exact ancestorsLe ordered id home around

theorem lookupTop {t : ScopeTree} {id : Nat} (top : (t.scope id).parent = none) (x : String) :
    t.lookup id x = t.symbol? id x := by
  rw [lookup, resolveTop top]
  cases t.symbol? id x <;> simp

theorem lookupChild {t : ScopeTree} (ordered : t.Ordered) {id p : Nat}
    (child : (t.scope id).parent = some p) (x : String) :
    t.lookup id x = (t.symbol? id x).or (t.lookup p x) := by
  rw [lookup, resolveChild ordered child]
  cases t.symbol? id x with
  | none => simp [lookup]
  | some s => simp

theorem declarationCountTop {t : ScopeTree} {id : Nat} (top : (t.scope id).parent = none)
    (x : String) :
    t.declarationCount id x = if id = root then 0 else (t.scope id).declarationCount x := by
  rw [declarationCount, ancestorsRoot top]
  by_cases here : id = root <;> simp [here]

theorem declarationCountChild {t : ScopeTree} (ordered : t.Ordered) {id p : Nat}
    (child : (t.scope id).parent = some p) (x : String) :
    t.declarationCount id x = (t.scope id).declarationCount x + t.declarationCount p x := by
  have inner : id ≠ root := by
    have lower := ordered id p child
    simp only [root]
    omega
  simp [declarationCount, ancestorsChild ordered child, inner]

theorem declarationCountOwn {t : ScopeTree} (ordered : t.Ordered) {id : Nat} (inner : id ≠ root)
    (x : String) : (t.scope id).declarationCount x ≤ t.declarationCount id x := by
  cases found : (t.scope id).parent with
  | none => simp [declarationCountTop found, inner]
  | some p =>
    rw [declarationCountChild ordered found]
    omega

theorem symbolBeyond {t : ScopeTree} {id : Nat} (beyond : t.size ≤ id) (x : String) :
    t.symbol? id x = none := by
  simp only [symbol?, scope, size] at *
  rw [List.getElem?_eq_none beyond]
  rfl

end ClassCompiler.ScopeTree
