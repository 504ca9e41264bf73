import ClassCompiler.Proofs.CallLinks

/-! A machine that runs code. Arithmetic, comparison of floating-point numbers, calls and the platform
are left open: they are partial functions on values and on a world that the machine knows nothing else
about. Loads, stores and returns move a value whatever its kind. The objects of the platform are known by
name, and an operation is stuck unless it is called on its own object, set up by its own constructor. -/
namespace ClassCompiler
variable {ρ W : Type}

/-- Truth values and characters are integers; `ρ` are the references. -/
inductive Value (ρ : Type) where
  | int (n : Int)
  | float (bits : Binary32)
  | ref (r : ρ)
  deriving DecidableEq, Repr

def Value.ofBool (b : Bool) : Value ρ := .int (if b then 1 else 0)

/-- The meaning of what the machine leaves open. A call gets the name of the method, the object and
the arguments. -/
structure Interpretation (ρ W : Type) where
  arith : ValueKind → ArithOp → Value ρ → Value ρ → Option (Value ρ)
  fcmpl : Value ρ → Value ρ → Option Ordering
  text : String → ρ
  call : String → Value ρ → List (Value ρ) → W → Option (Option (Value ρ) × W)
  print : DataType → Value ρ → W → Option W
  read : Input → W → Option (Value ρ × W)
  random : W → Option (Value ρ × W)
  randomBelow : Value ρ → W → Option (Value ρ × W)

namespace Condition

def holds (c : Condition) (o : Ordering) : Bool :=
  match c with
  | eq => o == .eq
  | ne => o != .eq
  | lt => o == .lt
  | ge => o != .lt
  | gt => o == .gt
  | le => o != .gt

theorem negateHolds (c : Condition) (o : Ordering) : c.negate.holds o = !c.holds o := by
  cases c <;> cases o <;> rfl

def holdsRef (c : Condition) (same : Bool) : Option Bool :=
  match c with
  | eq => some same
  | ne => some !same
  | _ => none

theorem negateHoldsRef (c : Condition) (same : Bool) :
    c.negate.holdsRef same = (c.holdsRef same).map not := by
  cases c <;> cases same <;> rfl

end Condition

def signOf : Ordering → Int
  | .lt => -1
  | .eq => 0
  | .gt => 1

theorem compareSign (o : Ordering) : compare (signOf o) 0 = o := by
  cases o <;> rfl

namespace Interpretation

def literal (I : Interpretation ρ W) : Literal → Value ρ
  | .int n => .int n
  | .float bits => .float bits
  | .bool b => .ofBool b
  | .char c => .int c.toNat
  | .string s => .ref (I.text s)

def constant (I : Interpretation ρ W) : Constant → Value ρ
  | .int n => .int n
  | .float bits => .float bits
  | .string s => .ref (I.text s)

def library (I : Interpretation ρ W) (op : Library) (args : List (Value ρ)) (w : W) :
    Option (Option (Value ρ) × W) :=
  match op, args with
  | .print type, [v] => (I.print type v w).map fun w => (none, w)
  | .read input, [] => (I.read input w).map fun r => (some r.1, r.2)
  | .random, [] => (I.random w).map fun r => (some r.1, r.2)
  | .randomBelow, [v] => (I.randomBelow v w).map fun r => (some r.1, r.2)
  | _, _ => none

end Interpretation

def Library.receiver : Library → String
  | .print _ => "java/lang/System/out Ljava/io/PrintStream;"
  | .read _ => "java/util/Scanner"
  | .random | .randomBelow => "java/util/Random"

/-- A constructor of the platform, with the objects that it takes. -/
structure Constructor where
  className : String
  takes : List String
  deriving DecidableEq, Repr

def Constructor.ofTarget? : String → Option Constructor
  | "java/util/Scanner.<init>(Ljava/io/InputStream;)V" =>
    some ⟨"java/util/Scanner", ["java/lang/System.in Ljava/io/InputStream;"]⟩
  | "java/util/Random.<init>()V" => some ⟨"java/util/Random", []⟩
  | _ => none

/-- What stands on the stack: a value, an object of the platform, or one that is not set up yet. -/
inductive Cell (ρ : Type) where
  | value (v : Value ρ)
  | helper (name : String)
  | blank (className : String)
  deriving DecidableEq, Repr

structure Machine (ρ W : Type) where
  locals : Nat → Option (Value ρ)
  stack : List (Cell ρ)
  world : W

inductive Effect (ρ W : Type) where
  | next (m : Machine ρ W)
  | jump (target : Label) (m : Machine ρ W)
  | stop (result : Option (Value ρ)) (world : W)

/-- The topmost values, the lowest first. -/
def popValues : Nat → List (Cell ρ) → Option (List (Value ρ) × List (Cell ρ))
  | 0, stack => some ([], stack)
  | n + 1, .value v :: stack => (popValues n stack).map fun r => (r.1 ++ [v], r.2)
  | _, _ => none

theorem popValuesAppend (vs : List (Value ρ)) (stack : List (Cell ρ)) :
    popValues vs.length ((vs.map Cell.value).reverse ++ stack) = some (vs, stack) := by
  have reversed (rs : List (Value ρ)) :
      popValues rs.length (rs.map Cell.value ++ stack) = some (rs.reverse, stack) := by
    induction rs with
    | nil => rfl
    | cons v rest ih => simp [popValues, ih]
  simpa using reversed vs.reverse

namespace Machine

def push (m : Machine ρ W) (v : Value ρ) : Machine ρ W := { m with stack := .value v :: m.stack }

/-- A short form of a constant has room for some integers only. -/
def pushWithin (m : Machine ρ W) (low high n : Int) : Option (Effect ρ W) :=
  if low ≤ n ∧ n ≤ high then some (.next (m.push (.int n))) else none

/-- Of the two copies of a new object one is taken by the constructor, and the other is then set up. -/
def construct [DecidableEq ρ] (m : Machine ρ W) (target : String) (args : Nat) :
    Option (Machine ρ W) := do
  let c ← Constructor.ofTarget? target
  match m.stack.drop args with
  | .blank one :: .blank other :: rest =>
    if one = c.className ∧ other = c.className ∧
        m.stack.take args = (c.takes.map Cell.helper).reverse then
      some { m with stack := .helper c.className :: rest }
    else none
  | _ => none

def invoke (I : Interpretation ρ W) (link : String → Option String) (m : Machine ρ W)
    (target : String) (args : Nat) (returns : Bool) : Option (Machine ρ W) := do
  let (given, stack) ← popValues args m.stack
  match stack with
  | [] => none
  | receiver :: rest =>
    let (result, world) ← match receiver with
      | .value object => (link target).bind fun name => I.call name object given m.world
      | .helper name => (Library.ofTarget? target).bind fun op =>
          if op.receiver = name then I.library op given m.world else none
      | .blank _ => none
    if result.isSome = returns then
      some { m with stack := (result.map Cell.value).toList ++ rest, world := world }
    else none

end Machine

/-- What an instruction does. `link` tells which method the target of a call names. -/
def Instruction.effect [DecidableEq ρ] (I : Interpretation ρ W) (link : String → Option String)
    (m : Machine ρ W) : Instruction → Option (Effect ρ W)
  | .iconst n => m.pushWithin (-1) 5 n
  | .bipush n => m.pushWithin (-128) 127 n
  | .sipush n => m.pushWithin (-32768) 32767 n
  | .ldc c => some (.next (m.push (I.constant c)))
  | .load _ slot => (m.locals slot).map fun v => .next (m.push v)
  | .store _ slot =>
    match m.stack with
    | .value v :: rest =>
      some (.next { m with locals := Function.update m.locals slot (some v), stack := rest })
    | _ => none
  | .arith kind op =>
    match m.stack with
    | .value r :: .value l :: rest =>
      (I.arith kind op l r).map fun v => .next { m with stack := .value v :: rest }
    | _ => none
  | .fcmpl =>
    match m.stack with
    | .value r :: .value l :: rest =>
      (I.fcmpl l r).map fun o => .next { m with stack := .value (.int (signOf o)) :: rest }
    | _ => none
  | .branch cond target =>
    match m.stack with
    | .value (.int n) :: rest =>
      let m := { m with stack := rest }
      some (if cond.holds (compare n 0) then .jump target m else .next m)
    | _ => none
  | .branchInt cond target =>
    match m.stack with
    | .value (.int r) :: .value (.int l) :: rest =>
      let m := { m with stack := rest }
      some (if cond.holds (compare l r) then .jump target m else .next m)
    | _ => none
  | .branchRef cond target =>
    match m.stack with
    | .value (.ref r) :: .value (.ref l) :: rest =>
      let m := { m with stack := rest }
      (cond.holdsRef (l = r)).map fun holds => if holds then .jump target m else .next m
    | _ => none
  | .goto target => some (.jump target m)
  | .label _ => some (.next m)
  | .dup =>
    match m.stack with
    | c :: rest => some (.next { m with stack := c :: c :: rest })
    | [] => none
  | .pop =>
    match m.stack with
    | _ :: rest => some (.next { m with stack := rest })
    | [] => none
  | .ret none => some (.stop none m.world)
  | .ret (some _) =>
    match m.stack with
    | .value v :: _ => some (.stop (some v) m.world)
    | _ => none
  | .new className => some (.next { m with stack := .blank className :: m.stack })
  | .getStatic name => some (.next { m with stack := .helper name :: m.stack })
  | .invokeSpecial target args => (m.construct target args).map .next
  | .invokeVirtual target args returns =>
    (m.invoke I link target args returns).map .next

section
variable [DecidableEq ρ] (I : Interpretation ρ W) (link : String → Option String)

def execute (code : List Instruction) : (steps : Nat) → (pc : Nat) → Machine ρ W →
    Option (Option (Value ρ) × W)
  | 0, _, _ => none
  | steps + 1, pc, m => do
    let i ← code[pc]?
    match ← i.effect I link m with
    | .next m => execute code steps (pc + 1) m
    | .jump target m => do
      let pc ← code.idxOf? (.label target)
      execute code steps pc m
    | .stop result world => some (result, world)

inductive Reaches (code : List Instruction) : Nat → Machine ρ W → Nat → Machine ρ W → Prop where
  | refl {pc m} : Reaches code pc m pc m
  | next {pc m i m' k last} (here : code[pc]? = some i) (done : i.effect I link m = some (.next m'))
      (rest : Reaches code (pc + 1) m' k last) : Reaches code pc m k last
  | jump {pc m i l m' place k last} (here : code[pc]? = some i)
      (done : i.effect I link m = some (.jump l m')) (found : code.idxOf? (.label l) = some place)
      (rest : Reaches code place m' k last) : Reaches code pc m k last

end

/-- A part of code, and no label of it has an earlier place. -/
structure Placed (code : List Instruction) (pc : Nat) (part : List Instruction) : Prop where
  instrs : ∀ {k i}, part[k]? = some i → code[pc + k]? = some i
  labels : ∀ {k l}, part[k]? = some (.label l) → code.idxOf? (.label l) = some (pc + k)

namespace Placed
variable {code front back : List Instruction} {pc : Nat}

theorem left (placed : Placed code pc (front ++ back)) : Placed code pc front where
  instrs found := placed.instrs (List.getElem?_append_left (List.getElem?_eq_some_iff.mp found).1 ▸ found)
  labels found := placed.labels (List.getElem?_append_left (List.getElem?_eq_some_iff.mp found).1 ▸ found)

theorem right (placed : Placed code pc (front ++ back)) : Placed code (pc + front.length) back where
  instrs {k i} found := by
    rw [Nat.add_assoc]
    exact placed.instrs (by rw [List.getElem?_append_right (by omega)]; simpa using found)
  labels {k l} found := by
    rw [Nat.add_assoc]
    exact placed.labels (by rw [List.getElem?_append_right (by omega)]; simpa using found)

theorem head {i : Instruction} (placed : Placed code pc (i :: back)) : code[pc]? = some i :=
  placed.instrs (k := 0) rfl

theorem here {l : Label} (placed : Placed code pc (.label l :: back)) :
    code.idxOf? (.label l) = some pc := placed.labels (k := 0) rfl

theorem whole (once : ∀ {j k : Nat} {l : Label}, code[j]? = some (.label l) →
    code[k]? = some (.label l) → j = k) : Placed code 0 code where
  instrs found := by simpa using found
  labels {k l} found := by
    have member := List.mem_of_getElem? found
    cases first : code.idxOf? (Instruction.label l) with
    | none => exact absurd member (List.idxOf?_eq_none_iff.mp first)
    | some j =>
      obtain ⟨inside, same, _⟩ := List.findIdx?_eq_some_iff_getElem.mp first
      have there : code[j]? = some (.label l) := by
        rw [List.getElem?_eq_getElem inside, beq_iff_eq.mp same]
      rw [once there found, Nat.zero_add]

end Placed

inductive Exit (ρ W : Type) where
  | through (m : Machine ρ W)
  | returned (result : Option (Value ρ)) (world : W)

section
variable [DecidableEq ρ] {I : Interpretation ρ W} {link : String → Option String}

namespace Reaches
variable {code : List Instruction} {pc j k : Nat} {m n last : Machine ρ W}

theorem trans (first : Reaches I link code pc m j n) (second : Reaches I link code j n k last) :
    Reaches I link code pc m k last := by
  induction first with
  | refl => exact second
  | next here done _ ih => exact .next here done (ih second)
  | jump here done found _ ih => exact .jump here done found (ih second)

theorem finishes (run : Reaches I link code pc m k last) {i : Instruction} {r : Option (Value ρ)}
    {w : W} (here : code[k]? = some i) (done : i.effect I link last = some (.stop r w)) :
    ∃ steps, execute I link code steps pc m = some (r, w) := by
  induction run with
  | refl => exact ⟨1, by simp [execute, here, done]⟩
  | next fetched moved _ ih =>
    obtain ⟨steps, rest⟩ := ih here done
    exact ⟨steps + 1, by simp [execute, fetched, moved, rest]⟩
  | jump fetched moved found _ ih =>
    obtain ⟨steps, rest⟩ := ih here done
    exact ⟨steps + 1, by simp [execute, fetched, moved, found, rest]⟩

end Reaches

variable (I link) in
def Exit.Reached (code : List Instruction) (pc : Nat) (m : Machine ρ W) (stop : Nat) :
    Exit ρ W → Prop
  | .through n => Reaches I link code pc m stop n
  | .returned r w => ∃ k n i, Reaches I link code pc m k n ∧ code[k]? = some i ∧
      i.effect I link n = some (.stop r w)

theorem Exit.Reached.after {code : List Instruction} {pc j stop : Nat} {m n : Machine ρ W}
    {exit : Exit ρ W} (first : Reaches I link code pc m j n)
    (rest : exit.Reached I link code j n stop) : exit.Reached I link code pc m stop := by
  cases exit with
  | through last => exact first.trans rest
  | returned r w =>
    obtain ⟨k, last, i, run, here, done⟩ := rest
    exact ⟨k, last, i, first.trans run, here, done⟩

variable (I link) in
/-- What a part of code does wherever it is placed. -/
def Does (part : List Instruction) (m : Machine ρ W) (exit : Exit ρ W) : Prop :=
  ∀ code pc, Placed code pc part → exit.Reached I link code pc m (pc + part.length)

namespace Does
variable {front back body : List Instruction} {i : Instruction} {l : Label}
  {m n : Machine ρ W} {exit : Exit ρ W} {r : Option (Value ρ)} {w : W}

theorem nil : Does I link [] m (.through m) := fun _ _ _ => .refl

theorem append (first : Does I link front m (.through n)) (second : Does I link back n exit) :
    Does I link (front ++ back) m exit := by
  intro code pc placed
  have rest := second code _ placed.right
  rw [List.length_append, ← Nat.add_assoc]
  exact .after (first code pc placed.left) rest

theorem early (first : Does I link front m (.returned r w)) :
    Does I link (front ++ back) m (.returned r w) :=
  fun code pc placed => first code pc placed.left

theorem one (done : i.effect I link m = some (.next n)) : Does I link [i] m (.through n) :=
  fun _ _ placed => .next placed.head done .refl

theorem stop (done : i.effect I link m = some (.stop r w)) : Does I link [i] m (.returned r w) :=
  fun _ pc placed => ⟨pc, m, i, .refl, placed.head, done⟩

theorem jump (between : List Instruction) (done : i.effect I link m = some (.jump l n))
    (rest : Does I link back n exit) :
    Does I link ([i] ++ between ++ [.label l] ++ back) m exit := by
  intro code pc placed
  have there := placed.left.right
  have behind := rest code _ placed.right
  have size : pc + ([i] ++ between ++ [Instruction.label l] ++ back).length =
      pc + ([i] ++ between ++ [Instruction.label l]).length + back.length := by
    rw [List.length_append, Nat.add_assoc]
  have step : pc + ([i] ++ between ++ [Instruction.label l]).length =
      pc + ([i] ++ between).length + 1 := by
    rw [List.length_append, ← Nat.add_assoc]
    rfl
  rw [size]
  rw [step] at behind ⊢
  exact .after (.jump placed.left.left.left.head done there.here (.next there.head rfl .refl)) behind

theorem again (first : Does I link body m (.through n))
    (rest : Does I link ([.label l] ++ body ++ [.goto l] ++ back) n exit) :
    Does I link ([.label l] ++ body ++ [.goto l] ++ back) m exit := by
  intro code pc placed
  have start := placed.left.left.left
  have around := first code (pc + 1) placed.left.left.right
  have last := placed.left.right
  have behind : pc + ([Instruction.label l] ++ body).length = pc + 1 + body.length := by
    simp only [List.length_append, List.length_cons, List.length_nil]
    omega
  rw [behind] at last
  have back : Reaches I link code pc m pc n :=
    .next start.head rfl (around.trans (.jump last.head rfl start.here .refl))
  exact .after back (rest code pc placed)

end Does
end
end ClassCompiler
