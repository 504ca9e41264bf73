import ClassCompiler.Proofs.ExprRuns
import ClassCompiler.Proofs.MethodRuns
import ClassCompiler.Proofs.TypeAgreement
import ClassCompiler.Proofs.VisitedCode

/-! Tests on floating-point numbers: comparisons, combined with `&&`, `||` and `!`. Two numbers are
unordered if one of them is no number. The machine's comparison then answers as if the first were less,
and the code of a test goes by that answer. It is right for four of the six comparisons. -/
namespace ClassCompiler
variable {ρ W κ : Type}

namespace Binary32

/-- In units of the least positive number. An infinity counts like `2 ^ 128`, beyond all other numbers. -/
def units (x : Binary32) : Int :=
  let size : Int := x.significand * Nat.pow 2 (x.exponent + 149).toNat
  if x.isNegative then -size else size

def order (x y : Binary32) : Option Ordering :=
  if x.isNaN || y.isNaN then none else some (compare x.units y.units)

end Binary32

namespace Condition

/-- The truth by IEEE 754: unordered numbers are different, and nothing else holds of them. -/
def ieee (c : Condition) : Option Ordering → Bool
  | some o => c.holds o
  | none => c = .ne

def asLess (c : Condition) (o : Option Ordering) : Bool := c.holds (o.getD .lt)

/-- Exactly `<` and `<=` are misjudged, where they are asked of unordered numbers. -/
theorem ieeeAsLess (c : Condition) (o : Option Ordering) :
    c.ieee o = c.asLess o ↔ (o = none → c ≠ .lt ∧ c ≠ .le) := by
  cases o with
  | some o => simp [ieee, asLess]
  | none => cases c <;> decide

end Condition

def Interpretation.OrdersFloats (I : Interpretation ρ W) : Prop :=
  ∀ x y, I.fcmpl (.float x) (.float y) = some ((x.order y).getD .lt)

inductive Expr.FloatTest (typed : Expr NodeId → DataType → Prop) : Expr NodeId → Prop where
  | compare {n op left right c} (action : op.action = .compare c) (first : typed left .float)
      (second : typed right .float) : FloatTest typed (.binary n op left right)
  | logical {n op left right isAnd} (action : op.action = .logical isAnd)
      (first : FloatTest typed left) (second : FloatTest typed right) :
      FloatTest typed (.binary n op left right)
  | not {n operand span} (inner : FloatTest typed operand) : FloatTest typed (.not n operand span)

section
variable [DecidableEq ρ] [DecidableEq κ] (I : Interpretation ρ W) (V : View κ)
  (rule : Condition → Option Ordering → Bool)

/-- The truth of a test by a rule for comparisons, and what the comparisons made on the way were asked. -/
inductive Expr.Decides : Memory κ ρ W → Expr NodeId → Bool → List (Condition × Option Ordering) →
    Memory κ ρ W → Prop where
  | compare {s n op left right c x s₁ y s₂} (action : op.action = .compare c)
      (first : left.Evaluates I V s (some (.float x)) s₁)
      (second : right.Evaluates I V s₁ (some (.float y)) s₂) :
      Decides s (.binary n op left right) (rule c (x.order y)) [(c, x.order y)] s₂
  | decided {s n op left right isAnd met s₁} (action : op.action = .logical isAnd)
      (first : Decides s left (!isAnd) met s₁) : Decides s (.binary n op left right) (!isAnd) met s₁
  | joined {s n op left right isAnd met s₁ truth others s₂} (action : op.action = .logical isAnd)
      (first : Decides s left isAnd met s₁) (second : Decides s₁ right truth others s₂) :
      Decides s (.binary n op left right) truth (met ++ others) s₂
  | not {s n operand span truth met s₁} (inner : Decides s operand truth met s₁) :
      Decides s (.not n operand span) (!truth) met s₁

end

namespace Expr
variable [DecidableEq ρ] {I : Interpretation ρ W} {e : Expr NodeId} {truth : Bool}
  {met : List (Condition × Option Ordering)}

theorem FloatTest.plain {typed : Expr NodeId → DataType → Prop} (test : e.FloatTest typed) :
    ∀ m target value, e ≠ .assign m target value := by
  rintro m target value rfl
  cases test

theorem Decides.congr [DecidableEq κ] {V : View κ} {rule other : Condition → Option Ordering → Bool}
    {s s' : Memory κ ρ W} (decides : e.Decides I V rule s truth met s')
    (same : ∀ t ∈ met, rule t.1 t.2 = other t.1 t.2) : e.Decides I V other s truth met s' := by
  induction decides with
  | compare action first second =>
    rw [same _ (List.mem_singleton_self _)]
    exact .compare action first second
  | decided action _ ih => exact .decided action (ih same)
  | joined action _ _ early late =>
    exact .joined action (early fun t asked => same t (List.mem_append_left _ asked))
      (late fun t asked => same t (List.mem_append_right _ asked))
  | not _ ih => exact .not (ih same)

theorem visitsSides {F w : Analysis} {here id : Nat} {n : NodeId} {op : BinaryOp}
    {left right : Expr NodeId} {q : Progress} {P : Visit → Prop}
    (all : ∀ v ∈ (Expr.binary n op left right).visits F here id w q, P v) :
    (∀ v ∈ left.visits F here id w q, P v) ∧
      ∃ w', ∀ v ∈ right.visits F here id w' (left.check F id q).2, P v := by
  rw [Expr.visits] at all
  have sides := List.forall_mem_append.mp (List.forall_mem_cons.mp all).2
  exact ⟨sides.1, _, sides.2⟩

theorem Decides.evaluates {F a : Analysis} {here id : Nat} (orders : I.OrdersFloats)
    {s s' : Memory Nat ρ W} (decides : e.Decides I (a.view id) Condition.asLess s truth met s')
    {w : Analysis} {q : Progress} (test : e.FloatTest (Expr.HasType F.methods.uses (q.types id)))
    (typed : ∀ v ∈ e.visits F here id w q, v.Typed F a.typeOf?) :
    e.Evaluates I (a.view id) s (some (.ofBool truth)) s' := by
  induction decides generalizing w q with
  | @compare s n op left right c x s₁ y s₂ action first second =>
    cases test with
    | logical other => cases action.symm.trans other
    | compare _ floats _ =>
      -- What has been recorded at a comparison is the type of its operands.
      obtain ⟨_, type, _, _, common, known, checked, _⟩ := typed _ (List.mem_cons_self ..)
      obtain rfl : DataType.float = common :=
        Option.some.inj ((left.checkYields F id floats).symm.trans checked)
      refine .compare action first second known ?_
      rw [Interpretation.compare, orders]
      rfl
  | @decided s n op left right isAnd met s₁ action _ ih =>
    cases test with
    | compare other => cases action.symm.trans other
    | logical _ first _ =>
      exact .decided action (ih first (visitsSides typed).1) (by cases isAnd <;> rfl)
  | @joined s n op left right isAnd met s₁ truth others s₂ action _ _ early late =>
    cases test with
    | compare other => cases action.symm.trans other
    | logical _ first second =>
      obtain ⟨before, w', behind⟩ := visitsSides typed
      rw [← Progress.typesOnward (left.checkOnward F id q)] at second
      have whole := Evaluates.joined (n := n) action (early first before) (by cases isAnd <;> rfl)
        (late second behind)
      cases truth <;> exact whole
  | @not s n operand span truth met s₁ _ ih =>
    cases test with
    | not inner =>
      have inside := ih inner (List.forall_mem_cons.mp typed).2
      cases truth with
      | true => exact .not (l := 1) inside
      | false => exact .not (l := 0) inside

end Expr

/-- The test has a block of the code, and a run through it leaves the truth of the test. -/
def Expr.DecidedIn (e : Expr NodeId) (final : Analysis) (className : String) (id : Nat)
    (link : String → Option String) (code : List Instruction) : Prop :=
  ∃ before block after, code = before ++ block ++ after ∧
    (∃ n n', e.code final className id n = .ok (block, n')) ∧
    ∀ (ρ W : Type) [DecidableEq ρ] (I : Interpretation ρ W), I.OrdersFloats →
      ∀ s truth met s' stack,
        (e.Decides I (final.view id) Condition.ieee s truth met s' ∧
            (∀ t ∈ met, t.2 = none → t.1 ≠ .lt ∧ t.1 ≠ .le) ∨
          e.Decides I (final.view id) Condition.asLess s truth met s') →
        Crosses I link code before.length (before.length + block.length) before.length
          (s.on stack) (s'.on (.value (.ofBool truth) :: stack))

theorem Expr.FloatTest.decidedIn {F final : Analysis} {here id n k k' : Nat} {w : Analysis}
    {q : Progress} {e : Expr NodeId} {className : String} {link : String → Option String}
    {code : List Instruction} {block : List Instruction × Nat}
    (test : e.FloatTest (Expr.HasType F.methods.uses (q.types id)))
    (typed : ∀ v ∈ e.visits F here id w q, v.Typed F final.typeOf?)
    (linked : Linking link final.methods className) (labelled : Labelled k k' code)
    (coded : e.code final className id n = .ok block) (inside : block.1 <:+: code) :
    e.DecidedIn final className id link code := by
  obtain ⟨before, after, rfl⟩ := inside
  refine ⟨before, block.1, after, rfl, ⟨n, block.2, coded⟩, ?_⟩
  intro ρ W _ I orders s truth met s' stack decides
  have machine : e.Decides I (final.view id) Condition.asLess s truth met s' := by
    rcases decides with ⟨decides, ordered⟩ | decides
    · exact decides.congr fun t asked => (t.1.ieeeAsLess t.2).mpr (ordered t asked)
    · exact decides
  have emits := e.codeEmits id coded
  have does := e.emitsDoes linked stack emits (machine.evaluates orders test typed)
  rw [List.append_assoc] at labelled
  exact does.crosses after (e.emitsLabelled id emits).once fun l placed =>
    labelled.apart (List.mem_append_left after placed)

namespace Program
variable {p : Program NodeId} {options : Options} {c : ClassFile}

theorem valueInMethods {q : Progress} (clean : p.Clean q) {v : Visit} (visited : v ∈ p.visits)
    {e : Expr NodeId} (value : v.part = .value e) :
    v ∈ Method.visitsAll p.annotated p.methods p.begun p.startProgress := by
  rw [visits, clean.start] at visited
  rcases List.mem_cons.mp visited with rfl | inner
  · cases value
  · exact inner

/-- The code of a test on floating-point numbers stands in the code of its method. It leaves 1 if the test
is true by IEEE 754 and 0 if it is not, as long as no `<` or `<=` comes upon unordered numbers; in any case
it leaves the truth of the test with unordered numbers taken for ascending ones. -/
theorem floatTestsDecided (unique : p.tags.Nodup) (done : p.compile options = .ok c) {v : Visit}
    (visited : v ∈ p.visits) {e : Expr NodeId} (value : v.part = .value e)
    (test : e.FloatTest (Expr.HasType p.annotated.methods.uses (v.check.types v.id))) :
    ∃ final cs, p.analyze = .ok final ∧ c.methods = initMethod :: mainMethod options.className :: cs ∧
      (∃ m ∈ p.methods, v.node ∈ m.nodes) ∧
      List.Forall₂ (fun m made => made.name = m.name ∧ (v.node ∈ m.nodes →
        e.DecidedIn final options.className v.id c.link made.code)) p.methods cs := by
  obtain ⟨final, analyzed, generated⟩ := compileParts done
  obtain ⟨ms, compiled, generated⟩ := bindOk.mp generated
  obtain ⟨q, clean, same⟩ := cleanOfAnalyze unique analyzed
  have alike : final.Alike p.annotated := same ▸ clean.alike
  cases generated
  have inner := valueInMethods clean visited value
  have listed : v.node ∈ p.methods.flatMap Method.nodes := by
    rw [← Method.visitsAllNodes p.methods _ _]
    exact List.mem_map_of_mem inner
  have apart : (p.methods.flatMap Method.tags).Nodup := by
    rw [p.tagsEq] at unique
    exact (List.nodup_cons.mp unique).2
  obtain ⟨parts, coded⟩ := Method.visitsAllCoded alike.scopeIds.symm apart
    (Method.compileAllEmits compiled) inner value test.plain
  have typed : ∀ w ∈ e.visits p.annotated v.here v.id v.walk v.check,
      w.Typed p.annotated final.typeOf? := by
    intro w part
    have known : w ∈ p.visits := by
      rw [visits, clean.start]
      exact List.mem_cons_of_mem _ (parts part)
    obtain ⟨_, settled⟩ := (clean.visitsSettled unique).1 w known
    rw [alike.typeOf]
    exact settled.typed
  have calling := Method.compileAllCalling compiled
  rw [alike.methods] at calling
  have linked := alike.methods ▸ classLinks options.version calling
  refine ⟨final, ms.1, analyzed, rfl, List.mem_flatMap.mp listed,
    List.forall₂_iff_zip.mpr ⟨calling.length_eq, fun {m made} member =>
      ⟨(List.forall₂_zip calling member).name, fun own => ?_⟩⟩⟩
  obtain ⟨_, _, block, inside⟩ := List.forall₂_zip coded member own
  obtain ⟨_, _, labelled⟩ := (Method.compileAllLabelled compiled).2 made (List.of_mem_zip member).2
  exact test.decidedIn typed linked labelled block inside

end Program

def floatCompare (n : Nat) (op : BinaryOp) : Expr NodeId :=
  .binary ⟨n⟩ op (.var ⟨n + 1⟩ "x" {}) (.var ⟨n + 2⟩ "y" {})

/-- `!(x == y) && !(x > y || x >= y)` -/
def belowTest : Expr NodeId :=
  .binary ⟨20⟩ .and (.not ⟨21⟩ (floatCompare 22 .equal) {})
    (.not ⟨25⟩ (.binary ⟨26⟩ .or (floatCompare 27 .greater) (floatCompare 30 .greaterEqual)) {})

def floatMethod (n : Nat) (name : String) (e : Expr NodeId) : Method NodeId :=
  ⟨⟨n⟩, name, some .bool, [⟨⟨n + 1⟩, .float, "x", {}⟩, ⟨⟨n + 2⟩, .float, "y", {}⟩],
    ⟨⟨n + 3⟩, [.ret ⟨n + 4⟩ (some e) {}], {}⟩, {}⟩

def floatProgram : Program NodeId :=
  ⟨⟨0⟩, [floatMethod 1 "Less" (floatCompare 10 .less), floatMethod 13 "Below" belowTest,
    ⟨⟨40⟩, "Main", none, [], ⟨⟨41⟩, [], {}⟩, {}⟩]⟩

def ordering : Interpretation Unit Unit where
  arith _ _ _ _ := none
  fcmpl l r :=
    match l, r with
    | .float x, .float y => some ((x.order y).getD .lt)
    | _, _ => none
  text _ := ()
  call _ _ _ _ := none
  print _ _ _ := none
  read _ _ := none
  random _ := none
  randomBelow _ _ := none

/-- `x` is no number, and `y` is 1. -/
def unorderedStart : Memory Nat Unit Unit :=
  ⟨fun k => [.ref (), .float ⟨0x7fc00000⟩, .float ⟨0x3f800000⟩][k]?, ()⟩

theorem floatCompareDecides {V : View Nat} (x : V.cell "x" = some 1) (y : V.cell "y" = some 2) (n : Nat)
    {op : BinaryOp} (c : Condition) {truth : Bool} (action : op.action = .compare c)
    (judged : c.ieee none = truth) :
    (floatCompare n op).Decides ordering V Condition.ieee unorderedStart truth [(c, none)]
      unorderedStart := by
  have unordered : (⟨0x7fc00000⟩ : Binary32).order ⟨0x3f800000⟩ = none := by decide
  rw [← judged, ← unordered]
  exact .compare action (.var x rfl) (.var y rfl)

def lessCode : List Instruction :=
  [.load .float 1, .load .float 2, .fcmpl, .branch .ge ⟨0⟩, .iconst 1, .goto ⟨1⟩, .label ⟨0⟩, .iconst 0,
    .label ⟨1⟩, .ret (some .int)]

theorem floatCompiles : ∃ c final made, floatProgram.compile {} = .ok c ∧
    floatProgram.analyze = .ok final ∧ c.methods[2]? = some made ∧ made.name = "Less" ∧
    made.code = lessCode ∧
    ∀ id ∈ [2, 4], (final.view id).cell "x" = some 1 ∧ (final.view id).cell "y" = some 2 := by
  have whole : (floatProgram.compile {}).toOption.bind
      (fun c => c.methods[2]?.map fun m => (m.name, m.code)) = some ("Less", lessCode) := by
    decide +kernel
  cases compiled : floatProgram.compile {} with
  | error failure => simp [compiled, Except.toOption] at whole
  | ok c =>
    rw [compiled] at whole
    obtain ⟨m, found, same⟩ := Option.map_eq_some_iff.mp whole
    obtain ⟨final, analyzed, _⟩ := Program.compileParts compiled
    have cells : (floatProgram.analyze).toOption.all (fun a => [2, 4].all fun id =>
        (a.view id).cell "x" = some 1 && (a.view id).cell "y" = some 2) = true := by decide +kernel
    rw [analyzed] at cells
    exact ⟨c, final, m, rfl, analyzed, found, congrArg Prod.fst same, congrArg Prod.snd same,
      by simpa [Except.toOption] using cells⟩

namespace Program

theorem belowDecided : ∃ v ∈ floatProgram.visits, v.part = .value belowTest ∧
    ∃ c final made before block after, floatProgram.compile {} = .ok c ∧
      floatProgram.analyze = .ok final ∧ made ∈ c.methods ∧ made.name = "Below" ∧
      made.code = before ++ block ++ after ∧
      belowTest.Decides ordering (final.view v.id) Condition.ieee unorderedStart true
        [(.eq, none), (.gt, none), (.ge, none)] unorderedStart ∧
      Crosses ordering c.link made.code before.length (before.length + block.length) before.length
        (unorderedStart.on []) (unorderedStart.on [.value (.int 1)]) := by
  obtain ⟨c, final, _, compiled, analyzed, _, _, _, cells⟩ := floatCompiles
  have listed : (floatProgram.visits[14]?).isSome = true := by decide +kernel
  obtain ⟨v, found⟩ := Option.isSome_iff_exists.mp listed
  have value : v.part = .value belowTest := by
    have here : floatProgram.visits[14]?.map Visit.part = some (.value belowTest) := rfl
    rw [found] at here
    exact Option.some.inj here
  have own : v.node ∈ (floatMethod 13 "Below" belowTest).nodes := by
    have here : floatProgram.visits[14]?.map Visit.node = some belowTest.node := rfl
    rw [found] at here
    rw [Option.some.inj here]
    decide
  have facts : floatProgram.visits[14]?.all (fun v => v.id = 4 &&
      v.check.types v.id "x" = some .float && v.check.types v.id "y" = some .float) = true := by
    decide +kernel
  rw [found] at facts
  obtain ⟨⟨scope, x⟩, y⟩ : (v.id = 4 ∧ v.check.types v.id "x" = some .float) ∧
      v.check.types v.id "y" = some .float := by simpa using facts
  have floats (n : Nat) {op : BinaryOp} {c : Condition} (action : op.action = .compare c) :
      (floatCompare n op).FloatTest
        (Expr.HasType floatProgram.annotated.methods.uses (v.check.types v.id)) :=
    .compare action (.var x) (.var y)
  have decides : belowTest.Decides ordering (final.view v.id) Condition.ieee unorderedStart true
      [(.eq, none), (.gt, none), (.ge, none)] unorderedStart := by
    obtain ⟨one, two⟩ := cells 4 (by decide)
    rw [scope]
    have neither : Expr.Decides ordering (final.view 4) Condition.ieee unorderedStart
        (.binary ⟨26⟩ .or (floatCompare 27 .greater) (floatCompare 30 .greaterEqual)) false
        [(.gt, none), (.ge, none)] unorderedStart :=
      .joined rfl (floatCompareDecides one two 27 .gt rfl rfl)
        (floatCompareDecides one two 30 .ge rfl rfl)
    exact .joined rfl (.not (floatCompareDecides one two 22 .eq rfl rfl)) (.not neither)
  obtain ⟨final', cs, same, methods, _, all⟩ :=
    floatTestsDecided (by decide +kernel) compiled (List.mem_of_getElem? found) value
      (.logical rfl (.not (floats _ rfl)) (.not (.logical rfl (floats _ rfl) (floats _ rfl))))
  obtain rfl : final = final' := Except.ok.inj (analyzed.symm.trans same)
  cases all with
  | cons _ rest =>
    cases rest with
    | @cons _ made _ _ here _ =>
      obtain ⟨name, decided⟩ := here
      obtain ⟨before, block, after, code, _, runs⟩ := decided own
      exact ⟨v, List.mem_of_getElem? found, value, c, final, made, before, block, after, compiled,
        analyzed, by simp [methods], name, code, decides,
        runs Unit Unit ordering (fun _ _ => rfl) _ _ _ _ [] (.inl ⟨decides, by decide⟩)⟩

theorem lessMisjudged : ∃ c final made steps, floatProgram.compile {} = .ok c ∧
    floatProgram.analyze = .ok final ∧ made ∈ c.methods ∧ made.name = "Less" ∧
    ordering.OrdersFloats ∧
    (floatCompare 10 .less).Decides ordering (final.view 2) Condition.ieee unorderedStart false
      [(.lt, none)] unorderedStart ∧
    execute ordering c.link made.code steps 0 (unorderedStart.on []) = some (some (.int 1), ()) := by
  obtain ⟨c, final, made, compiled, analyzed, found, name, code, cells⟩ := floatCompiles
  obtain ⟨x, y⟩ := cells 2 (by decide)
  refine ⟨c, final, made, 20, compiled, analyzed, List.mem_of_getElem? found, name, fun _ _ => rfl,
    floatCompareDecides x y 10 .lt rfl rfl, ?_⟩
  rw [code]
  rfl

end Program
end ClassCompiler
