import ClassCompiler.Proofs.AnnotationWalk
import ClassCompiler.Proofs.Typing
import Mathlib.Data.List.Forall2

/-! The same method at two places: its nodes have other numbers, and its scopes stand at other positions
of the tree. Two scope trees are twins as far as they have the scopes of the method, and what is looked
up, declared or counted from one of these has its counterpart in the other tree. -/
namespace ClassCompiler

section
variable {τ σ : Type} (f : τ → σ)

mutual

def Expr.retag : Expr τ → Expr σ
  | .literal n value span => .literal (f n) value span
  | .var n x span => .var (f n) x span
  | .binary n op left right => .binary (f n) op left.retag right.retag
  | .not n operand span => .not (f n) operand.retag span
  | .assign n target value => .assign (f n) target.retag value.retag
  | .call n m args span => .call (f n) m (Expr.retagAll args) span
  | .writeLine n value span => .writeLine (f n) value.retag span
  | .read n input span => .read (f n) input span
  | .random n span => .random (f n) span
  | .randomBelow n bound span => .randomBelow (f n) bound.retag span

def Expr.retagAll : List (Expr τ) → List (Expr σ)
  | [] => []
  | e :: rest => e.retag :: Expr.retagAll rest

end

def Declarator.retag (d : Declarator τ) : Declarator σ :=
  ⟨f d.tag, d.name, d.init.map (Expr.retag f), d.span⟩

mutual

def Stmt.retag : Stmt τ → Stmt σ
  | .expr n e span => .expr (f n) (e.retag f) span
  | .declare n type vars span => .declare (f n) type (vars.map (Declarator.retag f)) span
  | .ret n value span => .ret (f n) (value.map (Expr.retag f)) span
  | .block n body span => .block (f n) (Stmt.retagAll body) span
  | .ifThen n cond yes span => .ifThen (f n) (cond.retag f) yes.retag span
  | .ifElse n cond yes m no span => .ifElse (f n) (cond.retag f) yes.retag (f m) no.retag span
  | .loop n cond body span => .loop (f n) (cond.retag f) body.retag span

def Stmt.retagAll : List (Stmt τ) → List (Stmt σ)
  | [] => []
  | s :: rest => s.retag :: Stmt.retagAll rest

end

def Param.retag (p : Param τ) : Param σ := ⟨f p.tag, p.type, p.name, p.span⟩

def Method.retag (m : Method τ) : Method σ :=
  ⟨f m.tag, m.name, m.returns, m.params.map (Param.retag f),
    ⟨f m.body.tag, Stmt.retagAll f m.body.stmts, m.body.span⟩, m.span⟩

@[simp] theorem Expr.asNameRetag (e : Expr τ) : (e.retag f).asName = e.asName := by cases e <;> rfl

@[simp] theorem Expr.tagRetag (e : Expr τ) : (e.retag f).tag = f e.tag := by cases e <;> rfl

@[simp] theorem Expr.spanRetag : ∀ e : Expr τ, (e.retag f).span = e.span
  | .binary _ _ left right => by simp [retag, span, left.spanRetag, right.spanRetag]
  | .assign _ target value => by simp [retag, span, target.spanRetag, value.spanRetag]
  | .literal .. | .var .. | .not .. | .call .. | .writeLine .. | .read .. | .random ..
  | .randomBelow .. => rfl

@[simp] theorem Expr.lengthRetag (es : List (Expr τ)) : (Expr.retagAll f es).length = es.length := by
  induction es with
  | nil => rfl
  | cons e rest ih => simp [retagAll, ih]

mutual

theorem Expr.tagsRetag : ∀ e : Expr τ, (e.retag f).tags = e.tags.map f
  | .literal .. | .var .. | .read .. | .random .. => rfl
  | .not _ operand _ | .writeLine _ operand _ | .randomBelow _ operand _ => by
    have inner := operand.tagsRetag
    simp_all [retag, tags, nodes]
  | .binary _ _ left right | .assign _ left right => by
    have first := left.tagsRetag
    have second := right.tagsRetag
    simp_all [retag, tags, nodes]
  | .call _ _ args _ => by
    have given := Expr.tagsAllRetag args
    simp_all [retag, tags, tagsAll, nodes]

theorem Expr.tagsAllRetag : ∀ es : List (Expr τ), Expr.tagsAll (Expr.retagAll f es) = (Expr.tagsAll es).map f
  | [] => rfl
  | e :: rest => by
    have first := e.tagsRetag
    have others := Expr.tagsAllRetag rest
    simp_all [retagAll, tags, tagsAll, nodesAll]

end

theorem Declarator.tagsRetag (d : Declarator τ) : (d.retag f).tags = d.tags.map f := by
  cases given : d.init with
  | none => simp [retag, tags, nodes, given, Expr.nodesOption]
  | some e =>
    have inner := e.tagsRetag f
    simp_all [retag, tags, nodes, Expr.nodesOption, Expr.tags]

mutual

theorem Stmt.tagsRetag : ∀ s : Stmt τ, (s.retag f).tags = s.tags.map f
  | .expr _ e _ => by
    have inner := e.tagsRetag f
    simp_all [retag, tags, nodes, Expr.tags]
  | .declare _ _ vars _ => by
    have each (d : Declarator τ) := d.tagsRetag f
    induction vars with
    | nil => rfl
    | cons d rest ih => simp_all [retag, tags, nodes, Declarator.tags]
  | .ret _ none _ => rfl
  | .ret _ (some e) _ => by
    have inner := e.tagsRetag f
    simp_all [retag, tags, nodes, Expr.tags, Expr.nodesOption]
  | .block _ body _ => by
    have inner := Stmt.tagsAllRetag body
    simp_all [retag, tags, tagsAll, nodes]
  | .ifThen _ cond body _ | .loop _ cond body _ => by
    have test := cond.tagsRetag f
    have inner := body.tagsRetag
    simp_all [retag, tags, nodes, Expr.tags]
  | .ifElse _ cond yes _ no _ => by
    have test := cond.tagsRetag f
    have first := yes.tagsRetag
    have second := no.tagsRetag
    simp_all [retag, tags, nodes, Expr.tags]

theorem Stmt.tagsAllRetag : ∀ ss : List (Stmt τ), Stmt.tagsAll (Stmt.retagAll f ss) = (Stmt.tagsAll ss).map f
  | [] => rfl
  | s :: rest => by
    have first := s.tagsRetag
    have others := Stmt.tagsAllRetag rest
    simp_all [retagAll, tags, tagsAll, nodesAll]

end

theorem Method.tagsRetag (m : Method τ) : (m.retag f).tags = m.tags.map f := by
  rw [Method.tagsEq, Method.tagsEq]
  simp [retag, Stmt.tagsAllRetag, Param.retag]

end

/-- A method of one program that stands in another as well. `number` gives the new numbers of its nodes;
its scopes start at `here` in the one tree and at `there` in the other. -/
structure Renumbering where
  number : NodeId → NodeId
  nodes : List NodeId
  object : NodeId
  object' : NodeId
  here : Nat
  there : Nat
  injective : ∀ m ∈ nodes, ∀ n ∈ nodes, number m = number n → m = n
  apart : object ∉ nodes
  apart' : ∀ n ∈ nodes, number n ≠ object'
  inner : 0 < here
  inner' : 0 < there

namespace Renumbering
variable (c : Renumbering)

def Owns (n : NodeId) : Prop := n = c.object ∨ n ∈ c.nodes

def node (n : NodeId) : NodeId := if n = c.object then c.object' else c.number n

def Pair (i j : Nat) : Prop :=
  i = ScopeTree.root ∧ j = ScopeTree.root ∨ ∃ k, i = c.here + k ∧ j = c.there + k

def Within (limit i j : Nat) : Prop := c.Pair i j ∧ i < limit

variable {c} {i j k l limit : Nat} {m n : NodeId}

theorem nodeNumber (member : n ∈ c.nodes) : c.node n = c.number n := by
  refine if_neg ?_
  rintro rfl
  exact c.apart member

theorem nodeIff (first : c.Owns m) (second : c.Owns n) : c.node m = c.node n ↔ m = n := by
  refine ⟨fun same => ?_, fun same => same ▸ rfl⟩
  rcases first with rfl | own <;> rcases second with rfl | other
  · rfl
  · rw [nodeNumber other, node, if_pos rfl] at same
    exact absurd same.symm (c.apart' n other)
  · rw [nodeNumber own, node, if_pos rfl] at same
    exact absurd same (c.apart' m own)
  · rw [nodeNumber own, nodeNumber other] at same
    exact c.injective m own n other same

theorem numberIff (first : m ∈ c.nodes) (second : n ∈ c.nodes) : c.number m = c.number n ↔ m = n :=
  ⟨c.injective m first n second, fun same => same ▸ rfl⟩

theorem Pair.ltIff (first : c.Pair i j) (second : c.Pair k l) : i < k ↔ j < l := by
  have inner := c.inner
  have inner' := c.inner'
  simp only [Pair, ScopeTree.root] at first second
  rcases first with ⟨rfl, rfl⟩ | ⟨n, rfl, rfl⟩ <;> rcases second with ⟨rfl, rfl⟩ | ⟨m, rfl, rfl⟩ <;> omega

theorem Pair.eqIff (first : c.Pair i j) (second : c.Pair k l) : i = k ↔ j = l := by
  have less := first.ltIff second
  have more := second.ltIff first
  omega

theorem Pair.rootIff (pair : c.Pair i j) : i = ScopeTree.root ↔ j = ScopeTree.root :=
  pair.eqIff (.inl ⟨rfl, rfl⟩)

theorem Pair.next (pair : c.Pair i j) (inner : i ≠ ScopeTree.root) : c.Pair (i + 1) (j + 1) := by
  rcases pair with ⟨root, _⟩ | ⟨k, rfl, rfl⟩
  · exact absurd root inner
  · exact .inr ⟨k + 1, rfl, rfl⟩

theorem Within.mono {more : Nat} (within : c.Within limit i j) (le : limit ≤ more) :
    c.Within more i j := ⟨within.1, Nat.lt_of_lt_of_le within.2 le⟩

end Renumbering

def Symbol.renumber (c : Renumbering) : Symbol → Symbol
  | .var v => .var { v with declaredAt := c.node v.declaredAt }
  | .method m => .method m

def Symbol.OwnedBy (c : Renumbering) : Symbol → Prop
  | .var v => c.Owns v.declaredAt
  | .method _ => True

namespace Scope
variable {c : Renumbering} {s u : Scope}

structure Twin (c : Renumbering) (s u : Scope) : Prop where
  symbols : u.symbols = s.symbols.map (Symbol.renumber c)
  owned : ∀ x a, s.symbols.get? x = some a → a.OwnedBy c
  declarations : u.declarations = s.declarations
  hasReturn : u.hasReturn = s.hasReturn

structure SameCounts (s u : Scope) : Prop where
  stackDepth : u.stackDepth = s.stackDepth
  maxStack : u.maxStack = s.maxStack
  maxLocals : u.maxLocals = s.maxLocals

namespace Twin

theorem get (twin : s.Twin c u) (x : String) :
    u.symbols.get? x = (s.symbols.get? x).map (Symbol.renumber c) := by
  rw [twin.symbols, Table.getMap]

theorem variableCount (twin : s.Twin c u) : u.variableCount = s.variableCount := by
  have even (e : String × Symbol) : (Symbol.renumber c e.2).isVariable = e.2.isVariable := by
    cases e.2 <;> rfl
  simp [Scope.variableCount, twin.symbols, Table.map, Table.values, List.countP_map, Function.comp_def,
    even]

theorem declarationCount (twin : s.Twin c u) (x : String) :
    u.declarationCount x = s.declarationCount x := by
  rw [Scope.declarationCount, twin.declarations, Scope.declarationCount]

theorem declareVariable (twin : s.Twin c u) (x : String) (type : Option DataType) (slot : Nat)
    (ready : Bool) {n : NodeId} (member : n ∈ c.nodes) :
    (s.declareVariable x ⟨type, slot, ready, n⟩).Twin c
      (u.declareVariable x ⟨type, slot, ready, c.number n⟩) where
  symbols := by
    have new : Symbol.renumber c (.var ⟨type, slot, ready, n⟩) = .var ⟨type, slot, ready, c.number n⟩ := by
      rw [Symbol.renumber, Renumbering.nodeNumber member]
    simp only [Scope.declareVariable, Table.insertMap, twin.symbols, new]
  owned y a found := by
    simp only [Scope.declareVariable, Table.getInsert] at found
    split at found
    · cases found
      exact .inr member
    · exact twin.owned y a found
  declarations := by
    simp only [Scope.declareVariable, twin.declarations, twin.declarationCount]
  hasReturn := twin.hasReturn

theorem useMethod (twin : s.Twin c u) (x : String) (m : MethodUse) :
    (s.useMethod x m).Twin c (u.useMethod x m) where
  symbols := by
    have known := twin.get x
    simp only [Scope.useMethod, Table.insertNew, known, Option.isSome_map]
    split
    · exact twin.symbols
    · rw [Table.insertMap, twin.symbols]
      rfl
  owned y a found := by
    simp only [Scope.useMethod, Table.getInsertNew] at found
    split at found
    · rename_i same
      cases old : s.symbols.get? y with
      | none =>
        rw [old] at found
        cases found
        trivial
      | some b =>
        rw [old] at found
        cases found
        exact twin.owned y _ old
    · exact twin.owned y a found
  declarations := twin.declarations
  hasReturn := twin.hasReturn

theorem markInitialized (twin : s.Twin c u) (x : String) :
    (s.markInitialized x).Twin c (u.markInitialized x) := by
  have known := twin.get x
  unfold Scope.markInitialized
  cases found : s.symbols.get? x with
  | none => simpa [known, found] using twin
  | some a =>
    cases a with
    | method m => simpa [known, found, Symbol.renumber] using twin
    | var v =>
      simp only [known, found, Option.map_some, Symbol.renumber]
      refine ⟨?_, fun y b here => ?_, twin.declarations, twin.hasReturn⟩
      · simp only [Table.insertMap, twin.symbols]
        rfl
      · rw [Table.getInsert] at here
        split at here
        · cases here
          exact (twin.owned x _ found : c.Owns v.declaredAt)
        · exact twin.owned y b here

end Twin
end Scope

namespace ScopeTree
variable {c : Renumbering} {limit i j : Nat} {t u : ScopeTree}

/-- Up to the limit, the scopes of the method are the same in both trees. The roots need not agree in
what they count. -/
structure Twin (c : Renumbering) (limit : Nat) (t u : ScopeTree) : Prop where
  ordered : t.Ordered
  ordered' : u.Ordered
  inside : ∀ {i j}, c.Within limit i j → i < t.size ∧ j < u.size
  parent : ∀ {i j}, c.Within limit i j → Option.Rel c.Pair (t.scope i).parent (u.scope j).parent
  scope : ∀ {i j}, c.Within limit i j → (t.scope i).Twin c (u.scope j)
  counts : ∀ {i j}, c.Within limit i j → i ≠ root → (t.scope i).SameCounts (u.scope j)

namespace Twin

theorem modified (twin : t.Twin c limit u) (pair : c.Pair i j) (g h : Scope → Scope) {k l : Nat}
    (within : c.Within limit k l) :
    i = k ∧ j = l ∧ (t.modify i g).scope k = g (t.scope k) ∧ (u.modify j h).scope l = h (u.scope l) ∨
      (t.modify i g).scope k = t.scope k ∧ (u.modify j h).scope l = u.scope l := by
  obtain ⟨low, low'⟩ := twin.inside within
  rw [scopeModify, scopeModify]
  by_cases same : i = k
  · have other := (pair.eqIff within.1).mp same
    exact .inl ⟨same, other, if_pos ⟨same, low⟩, if_pos ⟨other, low'⟩⟩
  · exact .inr ⟨if_neg fun both => same both.1,
      if_neg fun both => same ((pair.eqIff within.1).mpr both.1)⟩

theorem modify (twin : t.Twin c limit u) (pair : c.Pair i j) {g h : Scope → Scope}
    (keeps : ∀ s, (g s).parent = s.parent) (keeps' : ∀ s, (h s).parent = s.parent)
    (scope : (t.scope i).Twin c (u.scope j) → (g (t.scope i)).Twin c (h (u.scope j)))
    (counts : i ≠ root → (t.scope i).SameCounts (u.scope j) →
      (g (t.scope i)).SameCounts (h (u.scope j))) :
    (t.modify i g).Twin c limit (u.modify j h) where
  ordered := orderedModify twin.ordered i keeps
  ordered' := orderedModify twin.ordered' j keeps'
  inside within := by simpa using twin.inside within
  parent {k l} within := by
    rw [parentModify t i k keeps, parentModify u j l keeps']
    exact twin.parent within
  scope within := by
    rcases twin.modified pair g h within with ⟨rfl, rfl, here, there⟩ | ⟨here, there⟩
    · rw [here, there]
      exact scope (twin.scope within)
    · rw [here, there]
      exact twin.scope within
  counts within inner := by
    rcases twin.modified pair g h within with ⟨rfl, rfl, here, there⟩ | ⟨here, there⟩
    · rw [here, there]
      exact counts inner (twin.counts within inner)
    · rw [here, there]
      exact twin.counts within inner

theorem push (twin : t.Twin c limit u) (pair : c.Pair i j) (n : Nat) :
    (t.push i n).Twin c limit (u.push j n) :=
  twin.modify pair (fun _ => rfl) (fun _ => rfl)
    (fun same => ⟨same.symbols, same.owned, same.declarations, same.hasReturn⟩)
    fun _ same => ⟨by simp [Scope.push, same.stackDepth],
      by simp [Scope.push, same.stackDepth, same.maxStack], same.maxLocals⟩

theorem pop (twin : t.Twin c limit u) (pair : c.Pair i j) (n : Nat) :
    (t.pop i n).Twin c limit (u.pop j n) :=
  twin.modify pair (fun _ => rfl) (fun _ => rfl)
    (fun same => ⟨same.symbols, same.owned, same.declarations, same.hasReturn⟩)
    fun _ same => ⟨by simp [Scope.pop, same.stackDepth], same.maxStack, same.maxLocals⟩

theorem markReturn (twin : t.Twin c limit u) (pair : c.Pair i j) :
    (t.markReturn i).Twin c limit (u.markReturn j) :=
  twin.modify pair (fun _ => rfl) (fun _ => rfl)
    (fun same => ⟨same.symbols, same.owned, same.declarations, rfl⟩)
    fun _ same => ⟨same.stackDepth, same.maxStack, same.maxLocals⟩

theorem useMethod (twin : t.Twin c limit u) (pair : c.Pair i j) (x : String) (m : MethodUse) :
    (t.useMethod i x m).Twin c limit (u.useMethod j x m) :=
  twin.modify pair (fun _ => rfl) (fun _ => rfl) (fun same => same.useMethod x m)
    fun _ same => ⟨same.stackDepth, same.maxStack, same.maxLocals⟩

theorem markInitialized (twin : t.Twin c limit u) (pair : c.Pair i j) (x : String) :
    (t.markInitialized i x).Twin c limit (u.markInitialized j x) := by
  have rest (s : Scope) : (s.markInitialized x).parent = s.parent ∧
      s.SameCounts (s.markInitialized x) := by
    unfold Scope.markInitialized
    split <;> exact ⟨rfl, rfl, rfl, rfl⟩
  refine twin.modify pair (fun s => (rest s).1) (fun s => (rest s).1)
    (fun same => same.markInitialized x) fun _ same => ?_
  obtain ⟨_, old⟩ := rest (t.scope i)
  obtain ⟨_, new⟩ := rest (u.scope j)
  exact ⟨new.stackDepth.trans (same.stackDepth.trans old.stackDepth.symm),
    new.maxStack.trans (same.maxStack.trans old.maxStack.symm),
    new.maxLocals.trans (same.maxLocals.trans old.maxLocals.symm)⟩

theorem ancestors (twin : t.Twin c limit u) (within : c.Within limit i j) :
    List.Forall₂ (c.Within limit) (t.ancestors i) (u.ancestors j) := by
  induction i using Nat.strongRecOn generalizing j with
  | ind i ih =>
    have parent := twin.parent within
    cases above : (t.scope i).parent with
    | none =>
      rw [above] at parent
      cases above' : (u.scope j).parent with
      | none =>
        rw [ancestorsRoot above, ancestorsRoot above']
        exact .cons within .nil
      | some l =>
        rw [above'] at parent
        contradiction
    | some k =>
      rw [above] at parent
      cases above' : (u.scope j).parent with
      | none =>
        rw [above'] at parent
        contradiction
      | some l =>
        rw [above'] at parent
        cases parent with
        | some pair =>
          have lower := twin.ordered i k above
          rw [ancestorsChild twin.ordered above, ancestorsChild twin.ordered' above']
          exact .cons within (ih k lower ⟨pair, Nat.lt_trans lower within.2⟩)

theorem visibleCount (twin : t.Twin c limit u) (within : c.Within limit i j) :
    u.visibleVariableCount j = t.visibleVariableCount i := by
  have around := twin.ancestors within
  unfold visibleVariableCount
  generalize t.ancestors i = way at around ⊢
  generalize u.ancestors j = way' at around ⊢
  induction around with
  | nil => rfl
  | cons first _ ih => simp [(twin.scope first).variableCount, ih]

theorem declarationCount (twin : t.Twin c limit u) (within : c.Within limit i j) (x : String) :
    u.declarationCount j x = t.declarationCount i x := by
  have around := twin.ancestors within
  unfold ScopeTree.declarationCount
  generalize t.ancestors i = way at around ⊢
  generalize u.ancestors j = way' at around ⊢
  induction around with
  | nil => rfl
  | @cons k l _ _ first _ ih =>
    by_cases top : k = root
    · have top' := first.1.rootIff.mp top
      simpa [top, top'] using ih
    · have top' : l ≠ root := fun same => top (first.1.rootIff.mpr same)
      simpa [top, top', (twin.scope first).declarationCount] using ih

theorem resolve (twin : t.Twin c limit u) (within : c.Within limit i j) (x : String)
    {see see' : Symbol → Bool} (even : ∀ s, s.OwnedBy c → see' (s.renumber c) = see s) :
    Option.Rel (fun r r' => c.Within limit r.1 r'.1 ∧ r.2.OwnedBy c ∧ r'.2 = r.2.renumber c)
      (t.resolve i x see) (u.resolve j x see') := by
  have around := twin.ancestors within
  unfold ScopeTree.resolve
  generalize t.ancestors i = way at around ⊢
  generalize u.ancestors j = way' at around ⊢
  induction around with
  | nil => exact .none
  | @cons k l _ _ first _ ih =>
    simp only [List.findSome?_cons, (twin.scope first).get]
    cases found : (t.scope k).symbols.get? x with
    | none => exact ih
    | some s =>
      have owned := (twin.scope first).owned x s found
      cases seen : see s with
      | false => simpa [Option.filter, seen, even s owned] using ih
      | true =>
        simp only [Option.filter, Option.map_some, seen, even s owned, if_true]
        exact .some ⟨first, owned, rfl⟩

theorem lookup (twin : t.Twin c limit u) (within : c.Within limit i j) (x : String) :
    u.lookup j x = (t.lookup i x).map (Symbol.renumber c) := by
  have means : Option.Rel _ (t.resolve i x fun _ => true) (u.resolve j x fun _ => true) :=
    twin.resolve within x fun _ _ => rfl
  unfold ScopeTree.lookup
  generalize t.resolve i x _ = r at means ⊢
  generalize u.resolve j x _ = r' at means ⊢
  cases means with
  | none => rfl
  | some same => simp [same.2.2]

theorem declareVariable (twin : t.Twin c limit u) (within : c.Within limit i j) (x : String)
    (type : Option DataType) (ready : Bool) {n : NodeId} (member : n ∈ c.nodes) :
    (t.declareVariable i x type ready n).Twin c limit (u.declareVariable j x type ready (c.number n)) := by
  have slot : u.nextSlot j = t.nextSlot i := twin.visibleCount within
  refine twin.modify within.1 (fun _ => rfl) (fun _ => rfl) (fun same => ?_) fun _ same => ?_
  · rw [slot]
    exact same.declareVariable x type _ ready member
  · exact ⟨same.stackDepth, same.maxStack, by simp [Scope.declareVariable, slot, same.maxLocals]⟩

theorem enter (twin : t.Twin c t.size u) (sizes : c.Pair t.size u.size)
    (within : c.Within t.size i j) : (t.enter i).Twin c (t.size + 1) (u.enter j) := by
  have inside' := (twin.inside within).2
  have old {k l : Nat} (pair : c.Within (t.size + 1) k l) (before : k ≠ t.size) :
      c.Within t.size k l ∧ (t.enter i).scope k = t.scope k ∧ (u.enter j).scope l = u.scope l := by
    have lower : c.Within t.size k l := ⟨pair.1, by have := pair.2; omega⟩
    exact ⟨lower, scopeEnter t i k lower.2, scopeEnter u j l (twin.inside lower).2⟩
  have new {k l : Nat} (pair : c.Within (t.size + 1) k l) (last : k = t.size) : l = u.size :=
    (pair.1.eqIff sizes).mp last
  have here : (t.enter i).scope t.size =
      { parent := some i, maxStack := if i = root then 0 else (t.scope i).maxStack,
        maxLocals := t.visibleVariableCount i } := by simp [ScopeTree.scope, ScopeTree.enter, size]
  have there : (u.enter j).scope u.size =
      { parent := some j, maxStack := if j = root then 0 else (u.scope j).maxStack,
        maxLocals := u.visibleVariableCount j } := by simp [ScopeTree.scope, ScopeTree.enter, size]
  refine ⟨orderedEnter twin.ordered within.2, orderedEnter twin.ordered' inside', ?_, ?_, ?_, ?_⟩
  · intro k l pair
    have less := pair.2
    simp only [enterSize]
    rcases Nat.lt_or_ge k t.size with low | high
    · have := (pair.1.ltIff sizes).mp low
      omega
    · have := new pair (by omega)
      omega
  · intro k l pair
    by_cases last : k = t.size
    · rw [last, new pair last, here, there]
      exact .some within.1
    · obtain ⟨lower, same, same'⟩ := old pair last
      rw [same, same']
      exact twin.parent lower
  · intro k l pair
    by_cases last : k = t.size
    · rw [last, new pair last, here, there]
      exact ⟨rfl, by simp, rfl, rfl⟩
    · obtain ⟨lower, same, same'⟩ := old pair last
      rw [same, same']
      exact twin.scope lower
  · intro k l pair inner
    by_cases last : k = t.size
    · rw [last, new pair last, here, there]
      refine ⟨rfl, ?_, twin.visibleCount within⟩
      by_cases top : i = root
      · simp [top, within.1.rootIff.mp top]
      · have top' : j ≠ root := fun same => top (within.1.rootIff.mpr same)
        simp [top, top', (twin.counts within top).maxStack]
    · obtain ⟨lower, same, same'⟩ := old pair last
      rw [same, same']
      exact twin.counts lower inner

theorem leave (twin : t.Twin c limit u) (within : c.Within limit i j) (inner : i ≠ root) :
    (t.leave i).Twin c limit (u.leave j) := by
  have parent := twin.parent within
  have same := twin.counts within inner
  unfold ScopeTree.leave
  generalize (t.scope i).parent = above at parent ⊢
  generalize (u.scope j).parent = above' at parent ⊢
  cases parent with
  | none => exact twin
  | some pair =>
    refine twin.modify pair (fun _ => rfl) (fun _ => rfl)
      (fun same => ⟨same.symbols, same.owned, same.declarations, same.hasReturn⟩) fun _ own => ?_
    exact ⟨own.stackDepth, by simp [Scope.raise, own.maxStack, same.maxStack],
      by simp [Scope.raise, own.maxLocals, same.maxLocals]⟩

end Twin
end ScopeTree

end ClassCompiler
