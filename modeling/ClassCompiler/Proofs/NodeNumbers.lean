import ClassCompiler.Numbering
import ClassCompiler.Proofs.Outline
import ClassCompiler.Proofs.Renumbering
import Mathlib.Data.Multiset.Bind
import Mathlib.Data.Multiset.Range

/-! Programs built from their leaves. Each building step takes finished pieces, which are used up by it,
and makes a new piece that has the next free number or, where it makes two nodes, the next two. In
whatever order the pieces are built, the numbers in use are those below the first free one, and a node
has a greater number than all that stands under it. Numbering a program from left to right is one
such order, in which the numbers follow the post-order. -/
namespace ClassCompiler

inductive Piece where
  | expr (e : Expr NodeId)
  | declarator (d : Declarator NodeId)
  | stmt (s : Stmt NodeId)
  | block (b : Block NodeId)
  | param (p : Param NodeId)
  | method (m : Method NodeId)
  | program (p : Program NodeId)

def Piece.outline : Piece → Outline NodeId
  | expr e => e.outline
  | declarator d => d.outline
  | stmt s => s.outline
  | block b => b.outline
  | param p => p.outline
  | method m => m.outline
  | program p => p.outline

/-- A building step with the pieces that it is given. `declareOne` makes a declaration and its only
declarator at once. -/
inductive Build where
  | literal (value : Literal) (span : Span)
  | var (name : String) (span : Span)
  | binary (op : BinaryOp) (left right : Expr NodeId)
  | not (operand : Expr NodeId) (span : Span)
  | assign (target value : Expr NodeId)
  | call (method : String) (args : List (Expr NodeId)) (span : Span)
  | writeLine (value : Expr NodeId) (span : Span)
  | read (input : Input) (span : Span)
  | random (span : Span)
  | randomBelow (bound : Expr NodeId) (span : Span)
  | exprStmt (value : Expr NodeId) (span : Span)
  | declarator (name : String) (init : Option (Expr NodeId)) (span : Span)
  | declare (type : Option DataType) (vars : List (Declarator NodeId)) (span : Span)
  | declareOne (type : Option DataType) (name : String) (init : Option (Expr NodeId)) (span : Span)
  | ret (value : Option (Expr NodeId)) (span : Span)
  | block (stmts : List (Stmt NodeId)) (span : Span)
  | blockStmt (stmts : List (Stmt NodeId)) (span : Span)
  | ifThen (cond : Expr NodeId) (yes : Stmt NodeId) (span : Span)
  | ifElse (cond : Expr NodeId) (yes no : Stmt NodeId) (span : Span)
  | loop (cond : Expr NodeId) (body : Stmt NodeId) (span : Span)
  | param (type : DataType) (name : String) (span : Span)
  | method (name : String) (returns : Option DataType) (params : List (Param NodeId))
    (body : Block NodeId) (span : Span)
  | program (methods : List (Method NodeId))

namespace Build

def uses : Build → List Piece
  | literal .. | var .. | read .. | random .. | param .. => []
  | binary _ left right | assign left right => [.expr left, .expr right]
  | not e _ | writeLine e _ | randomBelow e _ | exprStmt e _ => [.expr e]
  | call _ args _ => args.map .expr
  | declarator _ e _ | declareOne _ _ e _ | ret e _ => e.toList.map .expr
  | declare _ vars _ => vars.map .declarator
  | block stmts _ | blockStmt stmts _ => stmts.map .stmt
  | ifThen cond body _ | loop cond body _ => [.expr cond, .stmt body]
  | ifElse cond yes no _ => [.expr cond, .stmt yes, .stmt no]
  | method _ _ params body _ => params.map .param ++ [.block body]
  | program methods => methods.map .method

/-- The new piece and the first number that is free behind it, given the first that is free now. -/
def make : Build → Nat → Piece × Nat
  | literal value span, n => (.expr (.literal ⟨n⟩ value span), n + 1)
  | var name span, n => (.expr (.var ⟨n⟩ name span), n + 1)
  | binary op left right, n => (.expr (.binary ⟨n⟩ op left right), n + 1)
  | not operand span, n => (.expr (.not ⟨n⟩ operand span), n + 1)
  | assign target value, n => (.expr (.assign ⟨n⟩ target value), n + 1)
  | call m args span, n => (.expr (.call ⟨n⟩ m args span), n + 1)
  | writeLine value span, n => (.expr (.writeLine ⟨n⟩ value span), n + 1)
  | read input span, n => (.expr (.read ⟨n⟩ input span), n + 1)
  | random span, n => (.expr (.random ⟨n⟩ span), n + 1)
  | randomBelow bound span, n => (.expr (.randomBelow ⟨n⟩ bound span), n + 1)
  | exprStmt value span, n => (.stmt (.expr ⟨n⟩ value span), n + 1)
  | declarator name init span, n => (.declarator ⟨⟨n⟩, name, init, span⟩, n + 1)
  | declare type vars span, n => (.stmt (.declare ⟨n⟩ type vars span), n + 1)
  | declareOne type name init span, n =>
    (.stmt (.declare ⟨n + 1⟩ type [⟨⟨n⟩, name, init, span⟩] span), n + 2)
  | ret value span, n => (.stmt (.ret ⟨n⟩ value span), n + 1)
  | block stmts span, n => (.block ⟨⟨n⟩, stmts, span⟩, n + 1)
  | blockStmt stmts span, n => (.stmt (.block ⟨n⟩ stmts span), n + 1)
  | ifThen cond yes span, n => (.stmt (.ifThen ⟨n⟩ cond yes span), n + 1)
  | ifElse cond yes no span, n => (.stmt (.ifElse ⟨n + 1⟩ cond yes ⟨n⟩ no span), n + 2)
  | loop cond body span, n => (.stmt (.loop ⟨n⟩ cond body span), n + 1)
  | param type name span, n => (.param ⟨⟨n⟩, type, name, span⟩, n + 1)
  | method name returns params body span, n =>
    (.method ⟨⟨n⟩, name, returns, params, body, span⟩, n + 1)
  | program methods, n => (.program ⟨⟨n⟩, methods⟩, n + 1)

/-- A step puts one node above all that it uses, or one node above the last pieces and a second one
above the first pieces and that node. -/
theorem makeCases (b : Build) (n : Nat) :
    ((b.make n).1.outline = .node ⟨n⟩ (b.uses.map Piece.outline) ∧ (b.make n).2 = n + 1) ∨
    ∃ front back, b.uses.map Piece.outline = front ++ back ∧
      (b.make n).1.outline = .node ⟨n + 1⟩ (front ++ [.node ⟨n⟩ back]) ∧ (b.make n).2 = n + 2 := by
  cases b with
  | declareOne type name init span =>
    refine .inr ⟨[], init.toList.map Expr.outline, ?_, rfl, rfl⟩
    rw [uses, List.map_map]
    rfl
  | ifElse cond yes no span => exact .inr ⟨[cond.outline, yes.outline], [no.outline], rfl, rfl, rfl⟩
  | call m args span =>
    refine .inl ⟨?_, rfl⟩
    rw [uses, List.map_map]
    exact congrArg _ (Expr.outlinesMap args)
  | block stmts span | blockStmt stmts span =>
    refine .inl ⟨?_, rfl⟩
    rw [uses, List.map_map]
    exact congrArg _ (Stmt.outlinesMap stmts)
  | declarator _ _ _ | declare _ _ _ | ret _ _ | program _ =>
    refine .inl ⟨?_, rfl⟩
    rw [uses, List.map_map]
    rfl
  | method name returns params body span =>
    refine .inl ⟨?_, rfl⟩
    rw [uses, List.map_append, List.map_map]
    rfl
  | _ => exact .inl ⟨rfl, rfl⟩

end Build

/-- The pieces that have been built and not yet been used, and the first free number. -/
inductive Built : Multiset Piece → Nat → Prop where
  | start : Built 0 0
  | step {rest : Multiset Piece} {n : Nat} (b : Build) (ready : Built (b.uses + rest) n) :
    Built ((b.make n).1 ::ₘ rest) (b.make n).2

/-- Building in which a step uses the pieces that were built last, in their order. -/
inductive BuiltInOrder : List Piece → Nat → Prop where
  | start : BuiltInOrder [] 0
  | step {rest : List Piece} {n : Nat} (b : Build) (ready : BuiltInOrder (rest ++ b.uses) n) :
    BuiltInOrder (rest ++ [(b.make n).1]) (b.make n).2

theorem Built.next (b : Build) (rest : List Piece) (n : Nat)
    (ready : Built (b.uses ++ rest : List Piece) n) :
    Built ((b.make n).1 :: rest : List Piece) (b.make n).2 := by
  rw [← Multiset.coe_add] at ready
  rw [← Multiset.cons_coe]
  exact .step b ready

theorem BuiltInOrder.built {pieces : List Piece} {n : Nat} (ordered : BuiltInOrder pieces n) :
    Built pieces n := by
  induction ordered with
  | start => exact .start
  | @step rest n b _ ih =>
    rw [Multiset.coe_eq_coe.mpr List.perm_append_comm] at ih ⊢
    exact .next b rest n ih

def numbersBelow (n : Nat) : List NodeId := (List.range n).map NodeId.mk

theorem numbersBelowSucc (n : Nat) : numbersBelow (n + 1) = numbersBelow n ++ [⟨n⟩] := by
  simp [numbersBelow, List.range_succ]

namespace Outline

structure Forest (outlines : Multiset (Outline NodeId)) (n : Nat) : Prop where
  tags : outlines.bind (fun o => (o.preOrder : Multiset NodeId)) = numbersBelow n
  descending : ∀ o ∈ outlines, o.Descending

theorem Forest.node {parts : List (Outline NodeId)} {rest : Multiset (Outline NodeId)} {n : Nat}
    (forest : Forest (parts + rest) n) : Forest (.node ⟨n⟩ parts ::ₘ rest) (n + 1) := by
  have inside : (parts : Multiset (Outline NodeId)).bind (fun o => (o.preOrder : Multiset NodeId)) =
      preOrderAll parts := by
    rw [preOrderAllMap, Multiset.coe_bind]
  have tags := forest.tags
  rw [Multiset.add_bind, inside] at tags
  refine ⟨?_, fun o member => ?_⟩
  · rw [Multiset.cons_bind, preOrder, ← Multiset.cons_coe, Multiset.cons_add, tags, numbersBelowSucc,
      Multiset.cons_coe, Multiset.coe_eq_coe]
    exact (List.perm_append_singleton _ _).symm
  · rcases Multiset.mem_cons.mp member with rfl | old
    · refine descendingNode (fun o part => forest.descending o ?_) fun i listed => ?_
      · exact Multiset.mem_add.mpr (.inl part)
      · have known : i ∈ (numbersBelow n : Multiset NodeId) := by
          rw [← tags]
          exact Multiset.mem_add.mpr (.inl listed)
        obtain ⟨k, below, rfl⟩ := List.mem_map.mp (Multiset.mem_coe.mp known)
        exact List.mem_range.mp below
    · exact forest.descending o (Multiset.mem_add.mpr (.inr old))

end Outline

theorem Outline.Forest.build {rest : Multiset (Outline NodeId)} {n : Nat} (b : Build)
    (forest : Forest ((b.uses.map Piece.outline : List (Outline NodeId)) + rest) n) :
    Forest ((b.make n).1.outline ::ₘ rest) (b.make n).2 := by
  rcases b.makeCases n with ⟨outline, next⟩ | ⟨front, back, uses, outline, next⟩
  · rw [outline, next]
    exact forest.node
  · -- The first pieces stand by while the inner node is put above the last ones.
    rw [uses, ← Multiset.coe_add, add_comm (front : Multiset (Outline NodeId)), add_assoc] at forest
    have inner := forest.node
    rw [outline, next]
    refine Outline.Forest.node ?_
    rwa [← Multiset.coe_add, Multiset.coe_singleton, add_comm (front : Multiset (Outline NodeId)),
      add_assoc, Multiset.singleton_add]

theorem Built.forest {pieces : Multiset Piece} {n : Nat} (built : Built pieces n) :
    Outline.Forest (pieces.map Piece.outline) n := by
  induction built with
  | start => exact ⟨rfl, by simp⟩
  | step b _ ih =>
    rw [Multiset.map_cons]
    refine Outline.Forest.build b ?_
    rwa [Multiset.map_add, Multiset.map_coe] at ih

theorem BuiltInOrder.postOrder {pieces : List Piece} {n : Nat} (ordered : BuiltInOrder pieces n) :
    Outline.postOrderAll (pieces.map Piece.outline) = numbersBelow n := by
  induction ordered with
  | start => rfl
  | @step rest n b _ ih =>
    rw [Outline.postOrderAllMap, List.map_append, List.flatMap_append] at ih ⊢
    rcases b.makeCases n with ⟨outline, next⟩ | ⟨front, back, uses, outline, next⟩
    · simp only [List.map_singleton, List.flatMap_singleton, outline, next, Outline.postOrder,
        Outline.postOrderAllMap, numbersBelowSucc, ← ih, List.append_assoc]
    · simp only [uses, List.flatMap_append] at ih
      simp only [List.map_singleton, List.flatMap_singleton, outline, next, Outline.postOrder,
        Outline.postOrderAllMap, List.flatMap_append, numbersBelowSucc, ← ih, List.append_assoc]

/-! Numbering a program is building it in order. -/

section
variable {σ : Type} {pieces : List Piece} {n : Nat}

theorem BuiltInOrder.above {used : List Piece} (ready : BuiltInOrder (pieces ++ used) n) (b : Build)
    (same : b.uses = used) : BuiltInOrder (pieces ++ [(b.make n).1]) (b.make n).2 :=
  .step b (same ▸ ready)

theorem BuiltInOrder.leaf (ready : BuiltInOrder pieces n) (b : Build) (none : b.uses = []) :
    BuiltInOrder (pieces ++ [(b.make n).1]) (b.make n).2 := by
  rw [← List.append_nil pieces] at ready
  exact ready.above b none

mutual

theorem Expr.numberBuilt : ∀ (e : Expr σ) {pieces : List Piece} {n : Nat}, BuiltInOrder pieces n →
    BuiltInOrder (pieces ++ [.expr (e.number n).1]) (e.number n).2
  | .literal _ value span, _, _, ready => ready.leaf (.literal value span) rfl
  | .var _ name span, _, _, ready => ready.leaf (.var name span) rfl
  | .read _ input span, _, _, ready => ready.leaf (.read input span) rfl
  | .random _ span, _, _, ready => ready.leaf (.random span) rfl
  | .binary _ op left right, _, _, ready => by
    have both := right.numberBuilt (left.numberBuilt ready)
    rw [List.append_assoc] at both
    exact both.above (.binary op _ _) rfl
  | .assign _ target value, _, _, ready => by
    have both := value.numberBuilt (target.numberBuilt ready)
    rw [List.append_assoc] at both
    exact both.above (.assign _ _) rfl
  | .not _ operand span, _, _, ready => (operand.numberBuilt ready).above (.not _ span) rfl
  | .writeLine _ value span, _, _, ready => (value.numberBuilt ready).above (.writeLine _ span) rfl
  | .randomBelow _ bound span, _, _, ready =>
    (bound.numberBuilt ready).above (.randomBelow _ span) rfl
  | .call _ method args span, _, _, ready =>
    (Expr.numberAllBuilt args ready).above (.call method _ span) rfl

theorem Expr.numberAllBuilt : ∀ (es : List (Expr σ)) {pieces : List Piece} {n : Nat},
    BuiltInOrder pieces n →
    BuiltInOrder (pieces ++ (Expr.numberAll es n).1.map .expr) (Expr.numberAll es n).2
  | [], _, _, ready => by simpa [Expr.numberAll] using ready
  | e :: rest, _, _, ready => by
    have all := Expr.numberAllBuilt rest (e.numberBuilt ready)
    rwa [List.append_assoc] at all

end

theorem Expr.numberOptionBuilt (e : Option (Expr σ)) (ready : BuiltInOrder pieces n) :
    BuiltInOrder (pieces ++ (Expr.numberOption e n).1.toList.map .expr) (Expr.numberOption e n).2 := by
  cases e with
  | none => simpa [Expr.numberOption] using ready
  | some e => exact e.numberBuilt ready

theorem Declarator.numberAllBuilt (ds : List (Declarator σ)) (ready : BuiltInOrder pieces n) :
    BuiltInOrder (pieces ++ (Declarator.numberAll ds n).1.map .declarator)
      (Declarator.numberAll ds n).2 := by
  induction ds generalizing pieces n with
  | nil => simpa [Declarator.numberAll] using ready
  | cons d rest ih =>
    have first := (Expr.numberOptionBuilt d.init ready).above (.declarator d.name _ d.span) rfl
    have all := ih first
    rwa [List.append_assoc] at all

mutual

theorem Stmt.numberBuilt : ∀ (s : Stmt σ) {pieces : List Piece} {n : Nat}, BuiltInOrder pieces n →
    BuiltInOrder (pieces ++ [.stmt (s.number n).1]) (s.number n).2
  | .expr _ value span, _, _, ready => (value.numberBuilt ready).above (.exprStmt _ span) rfl
  | .declare _ type vars span, _, _, ready =>
    (Declarator.numberAllBuilt vars ready).above (.declare type _ span) rfl
  | .ret _ value span, _, _, ready => (Expr.numberOptionBuilt value ready).above (.ret _ span) rfl
  | .block _ body span, _, _, ready => (Stmt.numberAllBuilt body ready).above (.blockStmt _ span) rfl
  | .ifThen _ cond yes span, _, _, ready => by
    have both := yes.numberBuilt (cond.numberBuilt ready)
    rw [List.append_assoc] at both
    exact both.above (.ifThen _ _ span) rfl
  | .ifElse _ cond yes _ no span, _, _, ready => by
    have all := no.numberBuilt (yes.numberBuilt (cond.numberBuilt ready))
    rw [List.append_assoc, List.append_assoc] at all
    exact all.above (.ifElse _ _ _ span) rfl
  | .loop _ cond body span, _, _, ready => by
    have both := body.numberBuilt (cond.numberBuilt ready)
    rw [List.append_assoc] at both
    exact both.above (.loop _ _ span) rfl

theorem Stmt.numberAllBuilt : ∀ (ss : List (Stmt σ)) {pieces : List Piece} {n : Nat},
    BuiltInOrder pieces n →
    BuiltInOrder (pieces ++ (Stmt.numberAll ss n).1.map .stmt) (Stmt.numberAll ss n).2
  | [], _, _, ready => by simpa [Stmt.numberAll] using ready
  | s :: rest, _, _, ready => by
    have all := Stmt.numberAllBuilt rest (s.numberBuilt ready)
    rwa [List.append_assoc] at all

end

theorem Param.numberAllBuilt (ps : List (Param σ)) (ready : BuiltInOrder pieces n) :
    BuiltInOrder (pieces ++ (Param.numberAll ps n).1.map .param) (Param.numberAll ps n).2 := by
  induction ps generalizing pieces n with
  | nil => simpa [Param.numberAll] using ready
  | cons p rest ih =>
    have all := ih (ready.leaf (.param p.type p.name p.span) rfl)
    rwa [List.append_assoc] at all

theorem Method.numberBuilt (m : Method σ) (ready : BuiltInOrder pieces n) :
    BuiltInOrder (pieces ++ [.method (m.number n).1]) (m.number n).2 := by
  have params := Param.numberAllBuilt m.params ready
  have body := (Stmt.numberAllBuilt m.body.stmts params).above (.block _ m.body.span) rfl
  rw [List.append_assoc] at body
  exact body.above (.method m.name m.returns _ _ m.span) rfl

theorem Method.numberAllBuilt (ms : List (Method σ)) (ready : BuiltInOrder pieces n) :
    BuiltInOrder (pieces ++ (Method.numberAll ms n).1.map .method) (Method.numberAll ms n).2 := by
  induction ms generalizing pieces n with
  | nil => simpa [Method.numberAll] using ready
  | cons m rest ih =>
    have all := ih (m.numberBuilt ready)
    rwa [List.append_assoc] at all

theorem Program.numberAllBuilt (ps : List (Program σ)) (ready : BuiltInOrder pieces n) :
    BuiltInOrder (pieces ++ (Program.numberAll ps n).1.map .program) (Program.numberAll ps n).2 := by
  induction ps generalizing pieces n with
  | nil => simpa [Program.numberAll] using ready
  | cons p rest ih =>
    have first := (Method.numberAllBuilt p.methods ready).above (.program _) rfl
    have all := ih first
    rwa [List.append_assoc] at all

/-! Numbering changes nothing but the tags. -/

def Program.retag {τ υ : Type} (f : τ → υ) (p : Program τ) : Program υ :=
  ⟨f p.tag, p.methods.map (Method.retag f)⟩

def untag {τ : Type} (_ : τ) : Unit := ()

mutual

theorem Expr.numberShape : ∀ (e : Expr σ) (n : Nat), (e.number n).1.retag untag = e.retag untag
  | .literal .., _ | .var .., _ | .read .., _ | .random .., _ => rfl
  | .binary _ _ left right, n | .assign _ left right, n => by
    simp [Expr.number, Expr.retag, untag, left.numberShape, right.numberShape]
  | .not _ operand _, n | .writeLine _ operand _, n | .randomBelow _ operand _, n => by
    simp [Expr.number, Expr.retag, untag, operand.numberShape]
  | .call _ _ args _, n => by
    simp [Expr.number, Expr.retag, untag, Expr.numberAllShape args n]

theorem Expr.numberAllShape : ∀ (es : List (Expr σ)) (n : Nat),
    Expr.retagAll untag (Expr.numberAll es n).1 = Expr.retagAll untag es
  | [], _ => rfl
  | e :: rest, n => by
    simp [Expr.numberAll, Expr.retagAll, e.numberShape, Expr.numberAllShape rest]

end

theorem Expr.numberOptionShape (e : Option (Expr σ)) (n : Nat) :
    (Expr.numberOption e n).1.map (Expr.retag untag) = e.map (Expr.retag untag) := by
  cases e with
  | none => rfl
  | some e => simp [Expr.numberOption, e.numberShape]

theorem Declarator.numberAllShape (ds : List (Declarator σ)) (n : Nat) :
    (Declarator.numberAll ds n).1.map (Declarator.retag untag) = ds.map (Declarator.retag untag) := by
  induction ds generalizing n with
  | nil => rfl
  | cons d rest ih =>
    simp [Declarator.numberAll, Declarator.number, Declarator.retag, untag, Expr.numberOptionShape, ih]

mutual

theorem Stmt.numberShape : ∀ (s : Stmt σ) (n : Nat), (s.number n).1.retag untag = s.retag untag
  | .expr _ value _, n => by simp [Stmt.number, Stmt.retag, untag, value.numberShape]
  | .declare _ _ vars _, n => by simp [Stmt.number, Stmt.retag, untag, Declarator.numberAllShape]
  | .ret _ value _, n => by simp [Stmt.number, Stmt.retag, untag, Expr.numberOptionShape]
  | .block _ body _, n => by simp [Stmt.number, Stmt.retag, untag, Stmt.numberAllShape body n]
  | .ifThen _ cond body _, n | .loop _ cond body _, n => by
    simp [Stmt.number, Stmt.retag, untag, cond.numberShape, body.numberShape]
  | .ifElse _ cond yes _ no _, n => by
    simp [Stmt.number, Stmt.retag, untag, cond.numberShape, yes.numberShape, no.numberShape]

theorem Stmt.numberAllShape : ∀ (ss : List (Stmt σ)) (n : Nat),
    Stmt.retagAll untag (Stmt.numberAll ss n).1 = Stmt.retagAll untag ss
  | [], _ => rfl
  | s :: rest, n => by
    simp [Stmt.numberAll, Stmt.retagAll, s.numberShape, Stmt.numberAllShape rest]

end

theorem Param.numberAllShape (ps : List (Param σ)) (n : Nat) :
    (Param.numberAll ps n).1.map (Param.retag untag) = ps.map (Param.retag untag) := by
  induction ps generalizing n with
  | nil => rfl
  | cons p rest ih => simp [Param.numberAll, Param.retag, untag, ih]

theorem Method.numberAllShape (ms : List (Method σ)) (n : Nat) :
    (Method.numberAll ms n).1.map (Method.retag untag) = ms.map (Method.retag untag) := by
  induction ms generalizing n with
  | nil => rfl
  | cons m rest ih =>
    simp [Method.numberAll, Method.number, Block.number, Method.retag, untag, Param.numberAllShape,
      Stmt.numberAllShape, ih]

theorem Program.numberAllShape (ps : List (Program σ)) (n : Nat) :
    (Program.numberAll ps n).1.map (Program.retag untag) = ps.map (Program.retag untag) := by
  induction ps generalizing n with
  | nil => rfl
  | cons p rest ih =>
    simp [Program.numberAll, Program.number, Program.retag, untag, Method.numberAllShape, ih]

end

/-- The nodes of some programs have the numbers below `count`, each of them once, and greater numbers
stand above smaller ones. -/
structure Numbered (ps : List (Program NodeId)) (count : Nat) : Prop where
  complete : (ps.flatMap Program.tags).Perm (numbersBelow count)
  distinct : ∀ p ∈ ps, p.tags.Nodup
  apart : ps.Pairwise fun p q => p.tags.Disjoint q.tags
  descending : ∀ p ∈ ps, p.outline.Descending

theorem Built.numbered {ps : List (Program NodeId)} {count : Nat}
    (built : Built (ps.map Piece.program : List Piece) count) : Numbered ps count := by
  have forest := built.forest
  have outlines : (ps.map Piece.program).map Piece.outline = ps.map Program.outline := by
    rw [List.map_map]
    rfl
  rw [Multiset.map_coe, outlines] at forest
  have complete : (ps.flatMap Program.tags).Perm (numbersBelow count) := by
    have tags := forest.tags
    rw [Multiset.coe_bind, List.flatMap_map, Multiset.coe_eq_coe] at tags
    simpa only [Program.outlineTags] using tags
  have distinct : (numbersBelow count).Nodup :=
    List.nodup_range.map fun _ _ same => congrArg NodeId.index same
  obtain ⟨each, apart⟩ := List.nodup_flatMap.mp (complete.nodup_iff.mpr distinct)
  exact ⟨complete, each, apart, fun p member =>
    forest.descending p.outline (Multiset.mem_coe.mpr (List.mem_map_of_mem member))⟩

/-- However programs are built from their leaves, their numbers are the first ones, each taken once, and
grow towards the root. Numbering programs builds them, so that the numbers follow the post-order. -/
theorem Program.numberingBijective {σ : Type} :
    (∀ ps count, Built (ps.map Piece.program : List Piece) count → Numbered ps count) ∧
    ∀ described : List (Program σ),
      let made := Program.numberAll described 0
      Built (made.1.map Piece.program : List Piece) made.2 ∧ Numbered made.1 made.2 ∧
      made.1.flatMap (fun p => p.outline.postOrder) = numbersBelow made.2 ∧
      made.1.map (Program.retag untag) = described.map (Program.retag untag) := by
  refine ⟨fun ps count => Built.numbered, ?_⟩
  intro described made
  have ordered : BuiltInOrder (made.1.map Piece.program) made.2 :=
    Program.numberAllBuilt described .start
  have post := ordered.postOrder
  rw [Outline.postOrderAllMap, List.flatMap_map, List.flatMap_map] at post
  exact ⟨ordered.built, ordered.built.numbered, post, Program.numberAllShape described 0⟩

theorem Program.mixedOrderNumbered : ∃ main other : Program NodeId,
    main.tags = [⟨7⟩, ⟨6⟩, ⟨5⟩, ⟨4⟩, ⟨3⟩, ⟨2⟩, ⟨0⟩] ∧ other.tags = [⟨1⟩] ∧
    Built ([main, other].map Piece.program : List Piece) 8 ∧ Numbered [main, other] 8 := by
  let two : Expr NodeId := .literal ⟨0⟩ (.int 2) {}
  let other : Program NodeId := ⟨⟨1⟩, []⟩
  let one : Expr NodeId := .literal ⟨2⟩ (.int 1) {}
  let sum : Expr NodeId := .binary ⟨3⟩ .add one two
  let body : Block NodeId := ⟨⟨5⟩, [.expr ⟨4⟩ sum {}], {}⟩
  let main : Program NodeId := ⟨⟨7⟩, [⟨⟨6⟩, "Main", none, [], body, {}⟩]⟩
  have right : Built ([.expr two] : List Piece) 1 := .next (.literal (.int 2) {}) [] 0 .start
  have between : Built ([.program other, .expr two] : List Piece) 2 := .next (.program []) _ 1 right
  rw [Multiset.coe_eq_coe.mpr (.swap ..)] at between
  have leaves : Built ([.expr one, .expr two, .program other] : List Piece) 3 :=
    .next (.literal (.int 1) {}) _ 2 between
  have added : Built ([.expr sum, .program other] : List Piece) 4 :=
    .next (.binary .add one two) _ 3 leaves
  have stated : Built ([.stmt (.expr ⟨4⟩ sum {}), .program other] : List Piece) 5 :=
    .next (.exprStmt sum {}) _ 4 added
  have closed : Built ([.block body, .program other] : List Piece) 6 :=
    .next (.block [.expr ⟨4⟩ sum {}] {}) _ 5 stated
  have declared : Built (main.methods.map .method ++ [.program other] : List Piece) 7 :=
    .next (.method "Main" none [] body {}) _ 6 closed
  have built : Built ([main, other].map Piece.program : List Piece) 8 :=
    .next (.program main.methods) _ 7 declared
  exact ⟨main, other, rfl, rfl, built, (@Program.numberingBijective Unit).1 _ _ built⟩

end ClassCompiler
