import ClassCompiler.Syntax

/-!
Node numbers. A tree is numbered children first and from left to right, so the nodes of a tree
that is numbered from `n` take consecutive numbers and its root takes the last of them.
-/
namespace ClassCompiler
variable {σ : Type}

mutual

/-- The numbered tree and the first number that is still free. -/
def Expr.number : Expr σ → Nat → Expr NodeId × Nat
  | .literal _ value span, n => (.literal ⟨n⟩ value span, n + 1)
  | .var _ name span, n => (.var ⟨n⟩ name span, n + 1)
  | .binary _ op left right, n =>
    let l := left.number n
    let r := right.number l.2
    (.binary ⟨r.2⟩ op l.1 r.1, r.2 + 1)
  | .not _ operand span, n =>
    let e := operand.number n
    (.not ⟨e.2⟩ e.1 span, e.2 + 1)
  | .assign _ target value, n =>
    let t := target.number n
    let v := value.number t.2
    (.assign ⟨v.2⟩ t.1 v.1, v.2 + 1)
  | .call _ method args span, n =>
    let es := Expr.numberAll args n
    (.call ⟨es.2⟩ method es.1 span, es.2 + 1)
  | .writeLine _ value span, n =>
    let v := value.number n
    (.writeLine ⟨v.2⟩ v.1 span, v.2 + 1)
  | .read _ input span, n => (.read ⟨n⟩ input span, n + 1)
  | .random _ span, n => (.random ⟨n⟩ span, n + 1)
  | .randomBelow _ bound span, n =>
    let b := bound.number n
    (.randomBelow ⟨b.2⟩ b.1 span, b.2 + 1)

def Expr.numberAll : List (Expr σ) → Nat → List (Expr NodeId) × Nat
  | [], n => ([], n)
  | e :: rest, n =>
    let e := e.number n
    let es := Expr.numberAll rest e.2
    (e.1 :: es.1, es.2)

end

def Expr.numberOption : Option (Expr σ) → Nat → Option (Expr NodeId) × Nat
  | none, n => (none, n)
  | some e, n =>
    let e := e.number n
    (some e.1, e.2)

def Declarator.number (d : Declarator σ) (n : Nat) : Declarator NodeId × Nat :=
  let init := Expr.numberOption d.init n
  (⟨⟨init.2⟩, d.name, init.1, d.span⟩, init.2 + 1)

def Declarator.numberAll : List (Declarator σ) → Nat → List (Declarator NodeId) × Nat
  | [], n => ([], n)
  | d :: rest, n =>
    let d := d.number n
    let ds := Declarator.numberAll rest d.2
    (d.1 :: ds.1, ds.2)

mutual

def Stmt.number : Stmt σ → Nat → Stmt NodeId × Nat
  | .expr _ value span, n =>
    let v := value.number n
    (.expr ⟨v.2⟩ v.1 span, v.2 + 1)
  | .declare _ type vars span, n =>
    let ds := Declarator.numberAll vars n
    (.declare ⟨ds.2⟩ type ds.1 span, ds.2 + 1)
  | .ret _ value span, n =>
    let v := Expr.numberOption value n
    (.ret ⟨v.2⟩ v.1 span, v.2 + 1)
  | .block _ body span, n =>
    let ss := Stmt.numberAll body n
    (.block ⟨ss.2⟩ ss.1 span, ss.2 + 1)
  | .ifThen _ cond yes span, n =>
    let c := cond.number n
    let y := yes.number c.2
    (.ifThen ⟨y.2⟩ c.1 y.1 span, y.2 + 1)
  | .ifElse _ cond yes _ no span, n =>
    let c := cond.number n
    let y := yes.number c.2
    let e := no.number y.2
    (.ifElse ⟨e.2 + 1⟩ c.1 y.1 ⟨e.2⟩ e.1 span, e.2 + 2)
  | .loop _ cond body span, n =>
    let c := cond.number n
    let b := body.number c.2
    (.loop ⟨b.2⟩ c.1 b.1 span, b.2 + 1)

def Stmt.numberAll : List (Stmt σ) → Nat → List (Stmt NodeId) × Nat
  | [], n => ([], n)
  | s :: rest, n =>
    let s := s.number n
    let ss := Stmt.numberAll rest s.2
    (s.1 :: ss.1, ss.2)

end

def Block.number (b : Block σ) (n : Nat) : Block NodeId × Nat :=
  let ss := Stmt.numberAll b.stmts n
  (⟨⟨ss.2⟩, ss.1, b.span⟩, ss.2 + 1)

def Param.numberAll : List (Param σ) → Nat → List (Param NodeId) × Nat
  | [], n => ([], n)
  | p :: rest, n =>
    let ps := Param.numberAll rest (n + 1)
    (⟨⟨n⟩, p.type, p.name, p.span⟩ :: ps.1, ps.2)

def Method.number (m : Method σ) (n : Nat) : Method NodeId × Nat :=
  let ps := Param.numberAll m.params n
  let b := m.body.number ps.2
  (⟨⟨b.2⟩, m.name, m.returns, ps.1, b.1, m.span⟩, b.2 + 1)

def Method.numberAll : List (Method σ) → Nat → List (Method NodeId) × Nat
  | [], n => ([], n)
  | m :: rest, n =>
    let m := m.number n
    let ms := Method.numberAll rest m.2
    (m.1 :: ms.1, ms.2)

def Program.number (p : Program σ) (n : Nat) : Program NodeId × Nat :=
  let ms := Method.numberAll p.methods n
  (⟨⟨ms.2⟩, ms.1⟩, ms.2 + 1)

def Program.numberAll : List (Program σ) → Nat → List (Program NodeId) × Nat
  | [], n => ([], n)
  | p :: rest, n =>
    let p := p.number n
    let ps := Program.numberAll rest p.2
    (p.1 :: ps.1, ps.2)

end ClassCompiler
