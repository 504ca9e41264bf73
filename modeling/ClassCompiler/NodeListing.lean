import ClassCompiler.Syntax

/-!
The nodes of a tree in pre-order: a node, then what stands under it from left to right. The
listing has every node that carries a tag, so a numbered program has distinct numbers when the
tags of its listing are distinct.
-/
namespace ClassCompiler

inductive NodeKind where
  | program
  | method (name : String) (returns : DataType) (params : List DataType)
  | param (name : String) (type : DataType)
  | block
  | exprStmt
  | declaration (type : Option DataType)
  | declarator (name : String)
  | ret
  | ifStmt
  | elseClause
  | loop
  | literal (type : DataType)
  | var (name : String)
  | binary (op : BinaryOp)
  | not
  | assign (target : Option String)
  | call (method : String)
  | intrinsic (operation : Intrinsic)
  deriving DecidableEq, Repr

structure Node (τ : Type) where
  tag : τ
  kind : NodeKind
  span : Span
  deriving DecidableEq, Repr

variable {τ : Type}

mutual

def Expr.nodes : Expr τ → List (Node τ)
  | .literal t value s => [⟨t, .literal value.dataType, s⟩]
  | .var t x s => [⟨t, .var x, s⟩]
  | .binary t op left right =>
    ⟨t, .binary op, left.span.merge right.span⟩ :: (left.nodes ++ right.nodes)
  | .not t operand s => ⟨t, .not, s⟩ :: operand.nodes
  | .assign t target value =>
    ⟨t, .assign target.asName, target.span.merge value.span⟩ :: (target.nodes ++ value.nodes)
  | .call t m args s => ⟨t, .call m, s⟩ :: Expr.nodesAll args
  | .writeLine t value s => ⟨t, .intrinsic .writeLine, s⟩ :: value.nodes
  | .read t input s => [⟨t, .intrinsic (.read input), s⟩]
  | .random t s => [⟨t, .intrinsic .randomInt, s⟩]
  | .randomBelow t bound s => ⟨t, .intrinsic .randomInt, s⟩ :: bound.nodes

def Expr.nodesAll : List (Expr τ) → List (Node τ)
  | [] => []
  | e :: rest => e.nodes ++ Expr.nodesAll rest

end

def Expr.nodesOption : Option (Expr τ) → List (Node τ)
  | none => []
  | some e => e.nodes

def Declarator.nodes (d : Declarator τ) : List (Node τ) :=
  ⟨d.tag, .declarator d.name, d.span⟩ :: Expr.nodesOption d.init

mutual

def Stmt.nodes : Stmt τ → List (Node τ)
  | .expr t value s => ⟨t, .exprStmt, s⟩ :: value.nodes
  | .declare t type vars s => ⟨t, .declaration type, s⟩ :: vars.flatMap Declarator.nodes
  | .ret t value s => ⟨t, .ret, s⟩ :: Expr.nodesOption value
  | .block t body s => ⟨t, .block, s⟩ :: Stmt.nodesAll body
  | .ifThen t cond yes s => ⟨t, .ifStmt, s⟩ :: (cond.nodes ++ yes.nodes)
  | .ifElse t cond yes elseTag no s =>
    ⟨t, .ifStmt, s⟩ ::
      (cond.nodes ++ yes.nodes ++ ⟨elseTag, .elseClause, no.span⟩ :: no.nodes)
  | .loop t cond body s => ⟨t, .loop, s⟩ :: (cond.nodes ++ body.nodes)

def Stmt.nodesAll : List (Stmt τ) → List (Node τ)
  | [] => []
  | s :: rest => s.nodes ++ Stmt.nodesAll rest

end

def Block.nodes (b : Block τ) : List (Node τ) :=
  ⟨b.tag, .block, b.span⟩ :: Stmt.nodesAll b.stmts

def Param.node (p : Param τ) : Node τ := ⟨p.tag, .param p.name p.type, p.span⟩

def Method.nodes (m : Method τ) : List (Node τ) :=
  ⟨m.tag, .method m.name m.returnType m.paramTypes, m.span⟩ ::
    (m.params.map Param.node ++ m.body.nodes)

def Program.nodes (p : Program τ) : List (Node τ) :=
  ⟨p.tag, .program, p.span⟩ :: p.methods.flatMap Method.nodes

def Program.tags (p : Program τ) : List τ := p.nodes.map Node.tag

end ClassCompiler
