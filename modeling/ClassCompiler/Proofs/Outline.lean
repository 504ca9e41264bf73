import ClassCompiler.NodeListing

/-! The outline of a program: its nodes, each with the nodes directly under it, whatever their kinds
are. Orders of the nodes and what stands under what are said once for all kinds. -/
namespace ClassCompiler

inductive Outline (τ : Type) where
  | node (tag : τ) (parts : List (Outline τ))
  deriving Repr

namespace Outline
variable {τ : Type}

def tag : Outline τ → τ
  | node t _ => t

mutual

def preOrder : Outline τ → List τ
  | node t parts => t :: preOrderAll parts

def preOrderAll : List (Outline τ) → List τ
  | [] => []
  | o :: rest => o.preOrder ++ preOrderAll rest

end

mutual

def postOrder : Outline τ → List τ
  | node t parts => postOrderAll parts ++ [t]

def postOrderAll : List (Outline τ) → List τ
  | [] => []
  | o :: rest => o.postOrder ++ postOrderAll rest

end

theorem preOrderAllMap (os : List (Outline τ)) : preOrderAll os = os.flatMap preOrder := by
  induction os with
  | nil => rfl
  | cons o rest ih => simp [preOrderAll, ih]

theorem postOrderAllMap (os : List (Outline τ)) : postOrderAll os = os.flatMap postOrder := by
  induction os with
  | nil => rfl
  | cons o rest ih => simp [postOrderAll, ih]

/-- `a.Under b`: the node `a` is a descendant of the node `b`. -/
inductive Under : Outline τ → Outline τ → Prop where
  | part {a : Outline τ} {t : τ} {parts : List (Outline τ)} (member : a ∈ parts) :
    Under a (node t parts)
  | deeper {a b : Outline τ} {t : τ} {parts : List (Outline τ)} (below : Under a b)
    (member : b ∈ parts) : Under a (node t parts)

theorem tagListed (o : Outline τ) : o.tag ∈ o.preOrder := by
  cases o
  simp [tag, preOrder]

theorem Under.listed {a b : Outline τ} (below : a.Under b) : a.tag ∈ b.preOrder.tail := by
  induction below with
  | part member =>
    rw [preOrder, List.tail_cons, preOrderAllMap]
    exact List.mem_flatMap.mpr ⟨a, member, a.tagListed⟩
  | deeper _ member ih =>
    rw [preOrder, List.tail_cons, preOrderAllMap]
    exact List.mem_flatMap.mpr ⟨_, member, List.mem_of_mem_tail ih⟩

def Descending (o : Outline NodeId) : Prop :=
  ∀ a : Outline NodeId, a = o ∨ a.Under o → ∀ b : Outline NodeId, b.Under a →
    b.tag.index < a.tag.index

theorem descendingNode {n : NodeId} {parts : List (Outline NodeId)}
    (each : ∀ o ∈ parts, o.Descending) (least : ∀ i ∈ preOrderAll parts, i.index < n.index) :
    (node n parts).Descending := by
  intro a inside b below
  rcases inside with rfl | inside
  · exact least b.tag (by simpa [preOrder] using below.listed)
  · cases inside with
    | part member => exact each a member a (.inl rfl) b below
    | deeper inner member => exact each _ member a (.inr inner) b below

end Outline

section
variable {τ : Type}

mutual

def Expr.outline : Expr τ → Outline τ
  | .literal t .. | .var t .. | .read t .. | .random t .. => .node t []
  | .binary t _ left right | .assign t left right => .node t [left.outline, right.outline]
  | .not t operand _ | .writeLine t operand _ | .randomBelow t operand _ => .node t [operand.outline]
  | .call t _ args _ => .node t (Expr.outlines args)

def Expr.outlines : List (Expr τ) → List (Outline τ)
  | [] => []
  | e :: rest => e.outline :: Expr.outlines rest

end

def Declarator.outline (d : Declarator τ) : Outline τ :=
  .node d.tag (d.init.toList.map Expr.outline)

mutual

def Stmt.outline : Stmt τ → Outline τ
  | .expr t value _ => .node t [value.outline]
  | .declare t _ vars _ => .node t (vars.map Declarator.outline)
  | .ret t value _ => .node t (value.toList.map Expr.outline)
  | .block t body _ => .node t (Stmt.outlines body)
  | .ifThen t cond body _ | .loop t cond body _ => .node t [cond.outline, body.outline]
  | .ifElse t cond yes elseTag no _ =>
    .node t [cond.outline, yes.outline, .node elseTag [no.outline]]

def Stmt.outlines : List (Stmt τ) → List (Outline τ)
  | [] => []
  | s :: rest => s.outline :: Stmt.outlines rest

end

def Block.outline (b : Block τ) : Outline τ := .node b.tag (Stmt.outlines b.stmts)

def Param.outline (p : Param τ) : Outline τ := .node p.tag []

def Method.outline (m : Method τ) : Outline τ :=
  .node m.tag (m.params.map Param.outline ++ [m.body.outline])

def Program.outline (p : Program τ) : Outline τ := .node p.tag (p.methods.map Method.outline)

theorem Expr.outlinesMap (es : List (Expr τ)) : Expr.outlines es = es.map Expr.outline := by
  induction es with
  | nil => rfl
  | cons e rest ih => simp [Expr.outlines, ih]

theorem Stmt.outlinesMap (ss : List (Stmt τ)) : Stmt.outlines ss = ss.map Stmt.outline := by
  induction ss with
  | nil => rfl
  | cons s rest ih => simp [Stmt.outlines, ih]

/-! The outline has the nodes of the listing, in the same order. -/

mutual

theorem Expr.outlineTags : ∀ e : Expr τ, e.outline.preOrder = e.nodes.map Node.tag
  | .literal .. | .var .. | .read .. | .random .. => rfl
  | .binary _ _ left right | .assign _ left right => by
    simp [Expr.outline, Expr.nodes, Outline.preOrder, Outline.preOrderAll, left.outlineTags,
      right.outlineTags]
  | .not _ operand _ | .writeLine _ operand _ | .randomBelow _ operand _ => by
    simp [Expr.outline, Expr.nodes, Outline.preOrder, Outline.preOrderAll, operand.outlineTags]
  | .call _ _ args _ => by
    simp [Expr.outline, Expr.nodes, Outline.preOrder, Expr.outlinesTags args]

theorem Expr.outlinesTags : ∀ es : List (Expr τ),
    Outline.preOrderAll (Expr.outlines es) = (Expr.nodesAll es).map Node.tag
  | [] => rfl
  | e :: rest => by
    simp [Expr.outlines, Expr.nodesAll, Outline.preOrderAll, e.outlineTags, Expr.outlinesTags rest]

end

theorem Expr.optionTags (e : Option (Expr τ)) :
    Outline.preOrderAll (e.toList.map Expr.outline) = (Expr.nodesOption e).map Node.tag := by
  cases e with
  | none => rfl
  | some e => simp [Outline.preOrderAll, Expr.nodesOption, e.outlineTags]

theorem Declarator.outlineTags (d : Declarator τ) : d.outline.preOrder = d.nodes.map Node.tag := by
  simp [outline, nodes, Outline.preOrder, Expr.optionTags]

mutual

theorem Stmt.outlineTags : ∀ s : Stmt τ, s.outline.preOrder = s.nodes.map Node.tag
  | .expr _ value _ => by
    simp [Stmt.outline, Stmt.nodes, Outline.preOrder, Outline.preOrderAll, value.outlineTags]
  | .declare _ _ vars _ => by
    simp [Stmt.outline, Stmt.nodes, Outline.preOrder, Outline.preOrderAllMap, List.flatMap_map,
      List.map_flatMap, Declarator.outlineTags]
  | .ret _ value _ => by simp [Stmt.outline, Stmt.nodes, Outline.preOrder, Expr.optionTags]
  | .block _ body _ => by simp [Stmt.outline, Stmt.nodes, Outline.preOrder, Stmt.outlinesTags body]
  | .ifThen _ cond body _ | .loop _ cond body _ => by
    simp [Stmt.outline, Stmt.nodes, Outline.preOrder, Outline.preOrderAll, cond.outlineTags,
      body.outlineTags]
  | .ifElse _ cond yes _ no _ => by
    simp [Stmt.outline, Stmt.nodes, Outline.preOrder, Outline.preOrderAll, cond.outlineTags,
      yes.outlineTags, no.outlineTags]

theorem Stmt.outlinesTags : ∀ ss : List (Stmt τ),
    Outline.preOrderAll (Stmt.outlines ss) = (Stmt.nodesAll ss).map Node.tag
  | [] => rfl
  | s :: rest => by
    simp [Stmt.outlines, Stmt.nodesAll, Outline.preOrderAll, s.outlineTags, Stmt.outlinesTags rest]

end

theorem Method.outlineTags (m : Method τ) : m.outline.preOrder = m.nodes.map Node.tag := by
  have params : (m.params.map Param.outline).flatMap Outline.preOrder =
      (m.params.map Param.node).map Node.tag := by
    induction m.params with
    | nil => rfl
    | cons p rest ih =>
      rw [List.map_cons, List.flatMap_cons, ih]
      rfl
  have body : m.body.outline.preOrder = m.body.nodes.map Node.tag := by
    simp [Block.outline, Block.nodes, Outline.preOrder, Stmt.outlinesTags]
  rw [outline, nodes, Outline.preOrder, Outline.preOrderAllMap, List.flatMap_append, params]
  simp [body]

theorem Program.outlineTags (p : Program τ) : p.outline.preOrder = p.tags := by
  simp [outline, tags, nodes, Outline.preOrder, Outline.preOrderAllMap, List.flatMap_map,
    List.map_flatMap, Method.outlineTags]

end
end ClassCompiler
