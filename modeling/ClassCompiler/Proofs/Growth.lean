import ClassCompiler.Annotation
import ClassCompiler.NodeListing
import ClassCompiler.Proofs.NameLookup
import ClassCompiler.Proofs.TableMap

/-! What the first walk leaves as it was. It only ever adds to the tables: a symbol is kept unless
its name is declared again, and types and scopes are recorded only for the nodes that the walk
passes. `Leads` says this for any two states of the walk, and `Walks` for one piece of a program,
whose walk touches no scope that was there before except the one it happens in. -/
namespace ClassCompiler

theorem Scope.useMethodCount (s : Scope) (name : String) (m : MethodUse) :
    (s.useMethod name m).variableCount = s.variableCount := by
  cases found : s.symbols.get? name with
  | some old => simp [useMethod, variableCount, Table.insertNew, found]
  | none =>
    simp [useMethod, variableCount, Table.insertNew, found, Table.valuesInsertAbsent found,
      List.countP_append, Symbol.isVariable]

structure Scope.Grows (fresh : List NodeId) (s u : Scope) : Prop where
  parent : u.parent = s.parent
  count : ∀ x, s.declarationCount x ≤ u.declarationCount x
  symbol : ∀ x, u.symbols.get? x = s.symbols.get? x ∨
    (∃ v, u.symbols.get? x = some (.var v) ∧ v.declaredAt ∈ fresh ∧
      s.declarationCount x < u.declarationCount x) ∨
    (s.symbols.get? x = none ∧ ∃ m, u.symbols.get? x = some (.method m))
  steady : fresh = [] → u.variableCount = s.variableCount

namespace Scope.Grows

theorem same {s u : Scope} (parent : u.parent = s.parent) (symbols : u.symbols = s.symbols)
    (declarations : u.declarations = s.declarations) (fresh : List NodeId) :
    Grows fresh s u where
  parent := parent
  count x := by simp [declarationCount, declarations]
  symbol x := .inl (by rw [symbols])
  steady _ := by rw [variableCount, symbols, variableCount]

theorem mono {fresh wider : List NodeId} {s u : Scope} (grows : Grows fresh s u)
    (sub : fresh ⊆ wider) : Grows wider s u where
  parent := grows.parent
  count := grows.count
  symbol x := by
    rcases grows.symbol x with kept | ⟨v, found, new, more⟩ | planted
    · exact .inl kept
    · exact .inr (.inl ⟨v, found, sub new, more⟩)
    · exact .inr (.inr planted)
  steady none := grows.steady (List.subset_nil.mp (none ▸ sub))

theorem trans {first second : List NodeId} {s u w : Scope} (left : Grows first s u)
    (right : Grows second u w) : Grows (first ++ second) s w where
  parent := right.parent.trans left.parent
  count x := Nat.le_trans (left.count x) (right.count x)
  symbol x := by
    have before := left.count x
    have after := right.count x
    rcases right.symbol x with kept | ⟨v, found, new, more⟩ | ⟨absent, m, planted⟩
    · rw [kept]
      rcases left.symbol x with old | ⟨v, found, new, more⟩ | planted
      · exact .inl old
      · exact .inr (.inl ⟨v, found, List.mem_append_left _ new, by omega⟩)
      · exact .inr (.inr planted)
    · exact .inr (.inl ⟨v, found, List.mem_append_right _ new, by omega⟩)
    · rcases left.symbol x with old | ⟨v, found, _, _⟩ | ⟨_, m, earlier⟩
      · exact .inr (.inr ⟨old.symm.trans absent, m, planted⟩)
      · rw [found] at absent
        contradiction
      · rw [earlier] at absent
        contradiction
  steady none := by
    obtain ⟨early, late⟩ := List.append_eq_nil_iff.mp none
    rw [right.steady late, left.steady early]

theorem useMethod (s : Scope) (name : String) (m : MethodUse) :
    Grows [] s (s.useMethod name m) where
  parent := rfl
  count x := Nat.le_refl _
  symbol x := by
    simp only [Scope.useMethod, Table.getInsertNew]
    by_cases here : name = x
    · subst here
      cases found : s.symbols.get? name with
      | none => exact .inr (.inr ⟨rfl, m, by simp⟩)
      | some old => exact .inl (by simp)
    · exact .inl (by simp [here])
  steady _ := s.useMethodCount name m

theorem declareVariable (s : Scope) (name : String) (v : Variable) :
    Grows [v.declaredAt] s (s.declareVariable name v) where
  parent := rfl
  count x := by
    simp only [Scope.declareVariable, declarationCount, Table.getInsert]
    by_cases here : name = x <;> simp [here]
  symbol x := by
    simp only [Scope.declareVariable, declarationCount, Table.getInsert]
    by_cases here : name = x
    · exact .inr (.inl ⟨v, by simp [here]⟩)
    · exact .inl (by simp [here])
  steady none := absurd none (List.cons_ne_nil _ _)

end Scope.Grows

namespace Analysis

structure Tidy (a : Analysis) : Prop where
  ordered : a.scopes.Ordered
  used : ∀ id x m, a.scopes.symbol? id x = some (.method m) → a.methods.contains x = true
  counted : ∀ id x v, a.scopes.symbol? id x = some (.var v) →
    0 < (a.scopes.scope id).declarationCount x

/-- `b` is a later state than `a`. Scopes of `a` have got new variables only at the fresh nodes,
and all else has been recorded for the nodes passed in between. -/
structure Leads (fresh passed : List NodeId) (a b : Analysis) : Prop where
  size : a.scopes.size ≤ b.scopes.size
  scope : ∀ id, id < a.scopes.size → (a.scopes.scope id).Grows fresh (b.scopes.scope id)
  newer : ∀ id, a.scopes.size ≤ id → ∀ x v, b.scopes.symbol? id x = some (.var v) →
    v.declaredAt ∈ fresh ∨ v.declaredAt ∈ passed
  found : ∀ x, b.methods.find? x = a.methods.find? x
  taken : ∀ x, a.methods.contains x = true → b.methods.contains x = true
  type : ∀ n, n ∉ passed → b.typeOf? n = a.typeOf? n
  bound : ∀ n, n ∉ passed → b.scopeIds.get? n = a.scopeIds.get? n
  quiet : b.diagnostics = a.diagnostics
  tidy : a.Tidy → b.Tidy

namespace Leads

theorem refl (a : Analysis) : a.Leads [] [] a where
  size := Nat.le_refl _
  scope _ _ := .same rfl rfl rfl []
  newer id beyond x v found := by simp [ScopeTree.symbolBeyond beyond] at found
  found _ := rfl
  taken _ := id
  type _ _ := rfl
  bound _ _ := rfl
  quiet := rfl
  tidy := id

theorem mono {fresh passed wider longer : List NodeId} {a b : Analysis}
    (leads : a.Leads fresh passed b) (sub : fresh ⊆ wider) (sup : passed ⊆ longer) :
    a.Leads wider longer b where
  size := leads.size
  scope id inside := (leads.scope id inside).mono sub
  newer id beyond x v found := (leads.newer id beyond x v found).imp (sub ·) (sup ·)
  found := leads.found
  taken := leads.taken
  type n away := leads.type n fun here => away (sup here)
  bound n away := leads.bound n fun here => away (sup here)
  quiet := leads.quiet
  tidy := leads.tidy

theorem origin {fresh passed : List NodeId} {a b : Analysis} (leads : a.Leads fresh passed b)
    {id : Nat} {x : String} {v : Variable} (found : b.scopes.symbol? id x = some (.var v)) :
    a.scopes.symbol? id x = some (.var v) ∨ v.declaredAt ∈ fresh ∨ v.declaredAt ∈ passed := by
  by_cases inside : id < a.scopes.size
  · rcases (leads.scope id inside).symbol x with kept | ⟨w, here, new, _⟩ | ⟨_, m, planted⟩
    · exact .inl (kept.symm.trans found)
    · have same : w = v := by simpa using here.symm.trans found
      exact .inr (.inl (same ▸ new))
    · simpa using planted.symm.trans found
  · exact .inr (leads.newer id (by omega) x v found)

theorem trans {f₁ p₁ f₂ p₂ : List NodeId} {a b c : Analysis} (left : a.Leads f₁ p₁ b)
    (right : b.Leads f₂ p₂ c) : a.Leads (f₁ ++ f₂) (p₁ ++ p₂) c where
  size := Nat.le_trans left.size right.size
  scope id inside :=
    (left.scope id inside).trans (right.scope id (Nat.lt_of_lt_of_le inside left.size))
  newer id beyond x v found := by
    rcases right.origin found with old | new | new
    · rcases left.newer id beyond x v old with early | early <;> simp [early]
    · simp [new]
    · simp [new]
  found x := (right.found x).trans (left.found x)
  taken x inside := right.taken x (left.taken x inside)
  type n away := by
    simp only [List.mem_append, not_or] at away
    exact (right.type n away.2).trans (left.type n away.1)
  bound n away := by
    simp only [List.mem_append, not_or] at away
    exact (right.bound n away.2).trans (left.bound n away.1)
  quiet := right.quiet.trans left.quiet
  tidy start := right.tidy (left.tidy start)

end Leads

structure Walks (id : Nat) (fresh passed : List NodeId) (a b : Analysis) : Prop
    extends Leads fresh passed a b where
  only : ∀ other, other < a.scopes.size → other ≠ id → b.scopes.scope other = a.scopes.scope other

namespace Walks

theorem refl (a : Analysis) (id : Nat) : a.Walks id [] [] a :=
  { Leads.refl a with only := fun _ _ _ => rfl }

theorem mono {id : Nat} {fresh passed wider longer : List NodeId} {a b : Analysis}
    (walks : a.Walks id fresh passed b) (sub : fresh ⊆ wider) (sup : passed ⊆ longer) :
    a.Walks id wider longer b :=
  { walks.toLeads.mono sub sup with only := walks.only }

theorem trans {id : Nat} {f₁ p₁ f₂ p₂ : List NodeId} {a b c : Analysis}
    (left : a.Walks id f₁ p₁ b) (right : b.Walks id f₂ p₂ c) :
    a.Walks id (f₁ ++ f₂) (p₁ ++ p₂) c :=
  { left.toLeads.trans right.toLeads with
    only := fun other inside away =>
      (right.only other (Nat.lt_of_lt_of_le inside left.size) away).trans
        (left.only other inside away) }

theorem modify {fresh : List NodeId} (a : Analysis) (id : Nat) {f : Scope → Scope}
    (grows : ∀ s : Scope, s.Grows fresh (f s))
    (known : ∀ s x m, (f s).symbols.get? x = some (.method m) →
      s.symbols.get? x = some (.method m) ∨ a.methods.contains x = true) :
    a.Walks id fresh [] (a.mapScopes fun t => t.modify id f) := by
  have parts (other : Nat) : (a.scopes.modify id f).scope other = a.scopes.scope other ∨
      (a.scopes.modify id f).scope other = f (a.scopes.scope other) := by
    rw [ScopeTree.scopeModify]
    split
    · exact .inr rfl
    · exact .inl rfl
  have each (other : Nat) :
      (a.scopes.scope other).Grows fresh ((a.scopes.modify id f).scope other) := by
    rcases parts other with same | changed
    · rw [same]
      exact .same rfl rfl rfl fresh
    · rw [changed]
      exact grows _
  refine { size := ?_, scope := fun other _ => each other, newer := ?_, found := fun _ => rfl,
           taken := fun _ known => known, type := fun _ _ => rfl, bound := fun _ _ => rfl, quiet := rfl,
           tidy := ?_, only := ?_ }
  · simp [mapScopes]
  · intro other beyond x v found
    have outside : (a.scopes.modify id f).symbol? other x = none :=
      ScopeTree.symbolBeyond (by simpa using beyond) x
    simp [mapScopes, outside] at found
  · intro start
    refine ⟨ScopeTree.orderedModify start.ordered id fun s => (grows s).parent, ?_, ?_⟩
    · intro other x m found
      rcases parts other with same | changed
      · exact start.used other x m (by simpa [mapScopes, ScopeTree.symbol?, same] using found)
      · have here : (f (a.scopes.scope other)).symbols.get? x = some (.method m) := by
          simpa [mapScopes, ScopeTree.symbol?, changed] using found
        rcases known _ x m here with old | inside
        · exact start.used other x m old
        · exact inside
    · intro other x v found
      have more := (each other).count x
      rcases (each other).symbol x with kept | ⟨_, _, _, more⟩ | ⟨_, m, planted⟩
      · have positive := start.counted other x v (kept.symm.trans found)
        exact Nat.lt_of_lt_of_le positive more
      · exact Nat.lt_of_le_of_lt (Nat.zero_le _) more
      · simpa using planted.symm.trans found
  · intro other _ away
    have elsewhere : id ≠ other := fun same => away same.symm
    simp [mapScopes, ScopeTree.scopeModify, elsewhere]

theorem keep (a : Analysis) (id : Nat) {f : Scope → Scope} (parent : ∀ s, (f s).parent = s.parent)
    (symbols : ∀ s, (f s).symbols = s.symbols)
    (declarations : ∀ s, (f s).declarations = s.declarations) :
    a.Walks id [] [] (a.mapScopes fun t => t.modify id f) :=
  modify a id (fun s => .same (parent s) (symbols s) (declarations s) [])
    fun s x m found => .inl (by rwa [symbols] at found)

theorem push (a : Analysis) (id n : Nat) : a.Walks id [] [] (a.push id n) :=
  keep a id (fun _ => rfl) (fun _ => rfl) fun _ => rfl

theorem pop (a : Analysis) (id n : Nat) : a.Walks id [] [] (a.pop id n) :=
  keep a id (fun _ => rfl) (fun _ => rfl) fun _ => rfl

theorem markReturn (a : Analysis) (id : Nat) :
    a.Walks id [] [] (a.mapScopes fun t => t.markReturn id) :=
  keep a id (fun _ => rfl) (fun _ => rfl) fun _ => rfl

theorem setType (a : Analysis) (id : Nat) (node : NodeId) (type : Option DataType) :
    a.Walks id [] [node] (a.setType node type) := by
  cases type with
  | none => exact (refl a id).mono (by simp) (by simp)
  | some t =>
    refine { (refl a id).mono (by simp) (by simp) with
             type := ?_, tidy := fun start => ⟨start.ordered, start.used, start.counted⟩ }
    intro n away
    rw [typeOfSetType, if_neg fun same => away (by simp [same])]

theorem useMethodIn (a : Analysis) (id : Nat) (name : String) (m : MethodUse)
    (inside : a.methods.contains name = true) :
    a.Walks id [] [] (a.mapScopes fun t => t.useMethod id name m) := by
  refine modify a id (fun s => .useMethod s name m) ?_
  intro s x u found
  by_cases here : name = x
  · exact .inr (here ▸ inside)
  · rw [Scope.useMethod, Table.getInsertNew, if_neg here] at found
    exact .inl found

theorem useMethod (a : Analysis) (id : Nat) (name : String) :
    a.Walks id [] [] (a.useMethod id name).2 := by
  unfold Analysis.useMethod
  cases found : a.methods.find? name with
  | none => exact refl a id
  | some s =>
    have inside : a.methods.contains name = true :=
      MethodTable.containsIff.mpr
        ⟨s, List.mem_of_find?_eq_some found, (MethodTable.findName found).1⟩
    have used := useMethodIn a id name ⟨s.returns, s.params⟩ inside
    by_cases void : s.returns = .void
    · simpa [void] using used
    · simpa [void] using used.trans (push _ id 1)

theorem useIntrinsic (a : Analysis) (id : Nat) (i : Intrinsic) (params : List DataType)
    (span : Span) : a.Walks id [] [] (a.useIntrinsic id i params span) := by
  have grown (x : String) (inside : a.methods.contains x = true) :
      (a.methods.useIntrinsic i.name i.resultType params span).contains x = true := by
    unfold MethodTable.useIntrinsic
    split
    · exact inside
    · simp only [MethodTable.contains, List.any_append] at inside ⊢
      simp [inside]
  have entered :
      (a.methods.useIntrinsic i.name i.resultType params span).contains i.name = true := by
    unfold MethodTable.useIntrinsic
    split
    · rename_i known
      simp only [MethodTable.knowsIntrinsic, List.any_eq_true, Bool.and_eq_true, beq_iff_eq] at known
      obtain ⟨s, member, _, same⟩ := known
      exact MethodTable.containsIff.mpr ⟨s, member, same⟩
    · simp [MethodTable.contains]
  -- The table is extended first, so that the new symbol names one of its entries.
  let extended : Analysis :=
    { a with methods := a.methods.useIntrinsic i.name i.resultType params span }
  have first : a.Walks id [] [] extended :=
    { refl a id with
      found := fun x => MethodTable.findUseIntrinsic ..
      taken := grown
      tidy := fun start =>
        ⟨start.ordered, fun other x m here => grown x (start.used other x m here),
          start.counted⟩ }
  exact first.trans (useMethodIn extended id i.name ⟨i.resultType, params⟩ entered)

theorem declareVariable (a : Analysis) (id : Nat) (name : String) (type : Option DataType)
    (initialized : Bool) (node : NodeId) :
    a.Walks id [node] []
      (a.mapScopes fun t => t.declareVariable id name type initialized node) := by
  let v : Variable := ⟨type, a.scopes.nextSlot id, initialized, node⟩
  have known (s : Scope) (x : String) (m : MethodUse)
      (found : (s.declareVariable name v).symbols.get? x = some (.method m)) :
      s.symbols.get? x = some (.method m) ∨ a.methods.contains x = true := by
    by_cases here : name = x
    · simp [Scope.declareVariable, here] at found
    · simp only [Scope.declareVariable, Table.getInsert, if_neg here] at found
      exact .inl found
  have changed := modify a id (fun s => .declareVariable s name v) known
  rw [mapScopes] at changed ⊢
  exact changed

theorem leave (a : Analysis) {child p : Nat} (parent : (a.scopes.scope child).parent = some p) :
    a.Walks p [] [] (a.mapScopes fun t => t.leave child) := by
  have raised : (a.mapScopes fun t => t.leave child) = a.mapScopes fun t => t.modify p fun s =>
      s.raise (a.scopes.scope child).maxStack (a.scopes.scope child).maxLocals := by
    simp [mapScopes, ScopeTree.leave, parent]
  rw [raised]
  exact keep a p (fun _ => rfl) (fun _ => rfl) fun _ => rfl

end Walks

def entered (a : Analysis) (id : Nat) (node : NodeId) : Analysis :=
  (a.mapScopes fun t => t.enter id).bindScope node a.scopes.size

theorem inScopeEntered (a : Analysis) (id : Nat) (node : NodeId)
    (inside : Nat → Analysis → Analysis) :
    a.inScope id node inside =
      (inside a.scopes.size (a.entered id node)).mapScopes fun t => t.leave a.scopes.size := rfl

theorem enteredSize (a : Analysis) (id : Nat) (node : NodeId) :
    (a.entered id node).scopes.size = a.scopes.size + 1 := by
  simp [entered, mapScopes, bindScope]

theorem enteredIn (a : Analysis) (id : Nat) (node : NodeId) :
    a.scopes.size < (a.entered id node).scopes.size := by
  rw [enteredSize]
  omega

theorem enteredOld (a : Analysis) (id : Nat) (node : NodeId) {other : Nat}
    (old : other < a.scopes.size) :
    (a.entered id node).scopes.scope other = a.scopes.scope other :=
  ScopeTree.scopeEnter a.scopes id other old

theorem enteredNew (a : Analysis) (id : Nat) (node : NodeId) :
    (a.entered id node).scopes.scope a.scopes.size =
      { parent := some id
        maxStack := if id = ScopeTree.root then 0 else (a.scopes.scope id).maxStack
        maxLocals := a.scopes.visibleVariableCount id } := by
  simp [entered, mapScopes, bindScope, ScopeTree.scope, ScopeTree.enter, ScopeTree.size]

theorem enteredBound (a : Analysis) (id : Nat) (node : NodeId) :
    (a.entered id node).scopeIds.get? node = some a.scopes.size := by
  simp [entered, mapScopes, bindScope]

theorem Leads.entered (a : Analysis) {id : Nat} (inside : id < a.scopes.size) (node : NodeId) :
    a.Leads [] [node] (a.entered id node) := by
  have empty (x : String) : (a.entered id node).scopes.symbol? a.scopes.size x = none := by
    simp [ScopeTree.symbol?, enteredNew]
  have none (other : Nat) (beyond : a.scopes.size ≤ other) (x : String) :
      (a.entered id node).scopes.symbol? other x = none := by
    by_cases here : other = a.scopes.size
    · exact here ▸ empty x
    · exact ScopeTree.symbolBeyond (by rw [enteredSize]; omega) x
  have old (other : Nat) (x : String) (s : Symbol)
      (found : (a.entered id node).scopes.symbol? other x = some s) :
      other < a.scopes.size ∧ a.scopes.symbol? other x = some s := by
    by_cases before : other < a.scopes.size
    · exact ⟨before, by simpa [ScopeTree.symbol?, enteredOld a id node before] using found⟩
    · simp [none other (by omega) x] at found
  refine { size := ?_, scope := ?_, newer := ?_, found := fun _ => rfl, taken := fun _ known => known,
           type := fun _ _ => rfl, bound := ?_, quiet := rfl, tidy := ?_ }
  · rw [enteredSize]
    omega
  · intro other before
    rw [enteredOld a id node before]
    exact .same rfl rfl rfl []
  · intro other beyond x v found
    simp [none other beyond x] at found
  · intro n away
    have other : node ≠ n := fun same => away (by simp [same])
    simp [Analysis.entered, mapScopes, bindScope, Table.getInsertOther _ _ other]
  · intro start
    refine ⟨ScopeTree.orderedEnter start.ordered inside, ?_, ?_⟩
    · intro other x m found
      exact start.used other x m (old other x _ found).2
    · intro other x v found
      have before := old other x _ found
      rw [enteredOld a id node before.1]
      exact start.counted other x v before.2

theorem Walks.enteredParent {a b : Analysis} {id : Nat} {node : NodeId} {fresh passed : List NodeId}
    (inner : (a.entered id node).Walks a.scopes.size fresh passed b) :
    (b.scopes.scope a.scopes.size).parent = some id := by
  rw [(inner.scope _ (a.enteredIn id node)).parent, enteredNew]

theorem Walks.enteredAround {a b : Analysis} {id other : Nat} {node : NodeId}
    {fresh passed : List NodeId} (inner : (a.entered id node).Walks a.scopes.size fresh passed b)
    (old : other < a.scopes.size) : b.scopes.scope other = a.scopes.scope other := by
  rw [inner.only other (by rw [enteredSize]; omega) (by omega), enteredOld a id node old]

theorem inScopeRaised (a : Analysis) (inside : Nat → Analysis → Analysis) {id : Nat} {node : NodeId}
    {fresh passed : List NodeId} (inRange : id < a.scopes.size)
    (inner : (a.entered id node).Walks a.scopes.size fresh passed
      (inside a.scopes.size (a.entered id node))) :
    (a.inScope id node inside).scopes.scope id = (a.scopes.scope id).raise
      ((inside a.scopes.size (a.entered id node)).scopes.scope a.scopes.size).maxStack
      ((inside a.scopes.size (a.entered id node)).scopes.scope a.scopes.size).maxLocals := by
  have here : id < (inside a.scopes.size (a.entered id node)).scopes.size :=
    Nat.lt_of_lt_of_le (Nat.lt_trans inRange (a.enteredIn id node)) inner.size
  simp only [inScopeEntered, mapScopes, ScopeTree.leave, inner.enteredParent, ScopeTree.scopeModify,
    here, and_self, if_true, inner.enteredAround inRange]

theorem inScopeWalks (a : Analysis) (inside : Nat → Analysis → Analysis) {id : Nat} {node : NodeId}
    {fresh passed : List NodeId} (inRange : id < a.scopes.size)
    (inner : (a.entered id node).Walks a.scopes.size fresh passed
      (inside a.scopes.size (a.entered id node))) :
    a.Walks id [] (node :: (fresh ++ passed)) (a.inScope id node inside) := by
  rw [inScopeEntered]
  have left := Walks.leave _ inner.enteredParent
  have all := ((Leads.entered a inRange node).trans inner.toLeads).trans left.toLeads
  -- The walk happens in the new scope, so the older ones change only when it is left.
  have before (other : Nat) (old : other < a.scopes.size) :
      (inside a.scopes.size (a.entered id node)).scopes.scope other = a.scopes.scope other :=
    inner.enteredAround old
  refine { size := all.size, scope := ?_, newer := ?_, found := all.found, taken := all.taken,
           type := ?_, bound := ?_, quiet := all.quiet, tidy := all.tidy, only := ?_ }
  · intro other old
    have grows := left.scope other (by have := inner.size; rw [enteredSize] at this; omega)
    rwa [before other old] at grows
  · intro other beyond x v found
    have new := all.newer other beyond x v found
    simp only [List.nil_append, List.append_nil, List.mem_append, List.mem_cons,
      List.not_mem_nil, or_false, false_or] at new ⊢
    rcases new with new | new | new
    · exact .inr (.inl new)
    · exact .inl new
    · exact .inr (.inr new)
  · intro n away
    refine all.type n fun here => away ?_
    simp only [List.append_nil, List.mem_append, List.mem_cons, List.not_mem_nil,
      or_false] at here ⊢
    exact here.imp_right .inr
  · intro n away
    refine all.bound n fun here => away ?_
    simp only [List.append_nil, List.mem_append, List.mem_cons, List.not_mem_nil,
      or_false] at here ⊢
    exact here.imp_right .inr
  · intro other old away
    rw [left.only other (by have := inner.size; rw [enteredSize] at this; omega) away,
      before other old]

end Analysis
end ClassCompiler
