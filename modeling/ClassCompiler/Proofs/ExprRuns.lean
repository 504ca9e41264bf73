import ClassCompiler.Proofs.ExprCode
import ClassCompiler.Proofs.Labels

/-! The code of an expression inside other code. Its labels have no other place, so a run that has
come to its first instruction stays in it up to the end. It is then as if the expression had been
evaluated: the value is on the stack, and nothing below it has changed. -/
namespace ClassCompiler
variable {ρ W : Type}

section
variable [DecidableEq ρ] (I : Interpretation ρ W) (link : String → Option String)

/-- A run through a block of code, from a position in it to the first one behind it. -/
inductive Crosses (code : List Instruction) (start stop : Nat) :
    Nat → Machine ρ W → Machine ρ W → Prop where
  | out {m} : Crosses code start stop stop m m
  | next {pc m i m' last} (inside : start ≤ pc ∧ pc < stop) (here : code[pc]? = some i)
      (done : i.effect I link m = some (.next m')) (rest : Crosses code start stop (pc + 1) m' last) :
      Crosses code start stop pc m last
  | jump {pc m i l m' place last} (inside : start ≤ pc ∧ pc < stop) (here : code[pc]? = some i)
      (done : i.effect I link m = some (.jump l m')) (found : code.idxOf? (.label l) = some place)
      (rest : Crosses code start stop place m' last) : Crosses code start stop pc m last

end

theorem Placed.between {before part : List Instruction} (after : List Instruction)
    (once : ∀ {j k : Nat} {l : Label}, part[j]? = some (.label l) → part[k]? = some (.label l) → j = k)
    (alone : ∀ l, .label l ∈ part → .label l ∉ before) :
    Placed (before ++ part ++ after) before.length part where
  instrs {k i} found := by
    have inside := (List.getElem?_eq_some_iff.mp found).1
    rw [List.append_assoc, List.getElem?_append_right (Nat.le_add_right ..), Nat.add_sub_cancel_left,
      List.getElem?_append_left inside, found]
  labels {k l} found := by
    have first : before.idxOf? (.label l) = none :=
      List.idxOf?_eq_none_iff.mpr (alone l (List.mem_of_getElem? found))
    have here := (Placed.whole once).labels found
    rw [List.idxOf?] at first here ⊢
    rw [List.findIdx?_append, List.findIdx?_append, first, here]
    simp [Nat.add_comm]

section
variable [DecidableEq ρ] {I : Interpretation ρ W} {link : String → Option String}
  {code part : List Instruction} {pc k stop : Nat} {m n : Machine ρ W}

theorem Reaches.crosses (placed : Placed code pc part) (run : Reaches I link part k m stop n)
    (all : stop = part.length) : Crosses I link code pc (pc + part.length) (pc + k) m n := by
  induction run with
  | refl =>
    subst all
    exact .out
  | next here done _ ih =>
    have inside := (List.getElem?_eq_some_iff.mp here).1
    exact .next (by omega) (placed.instrs here) done (ih all)
  | @jump k m i l m' place _ _ here done found _ ih =>
    have inside := (List.getElem?_eq_some_iff.mp here).1
    obtain ⟨within, same, _⟩ := List.findIdx?_eq_some_iff_getElem.mp found
    have there : part[place]? = some (.label l) := by
      rw [List.getElem?_eq_getElem within, beq_iff_eq.mp same]
    exact .jump (by omega) (placed.instrs here) done (placed.labels there) (ih all)

theorem Does.crosses (does : Does I link part m (.through n)) {before : List Instruction}
    (after : List Instruction)
    (once : ∀ {j k : Nat} {l : Label}, part[j]? = some (.label l) → part[k]? = some (.label l) → j = k)
    (alone : ∀ l, .label l ∈ part → .label l ∉ before) :
    Crosses I link (before ++ part ++ after) before.length (before.length + part.length)
      before.length m n := by
  -- With nothing behind the block, a run cannot come back to its end.
  have run : Reaches I link part 0 m (0 + part.length) n := does part 0 (.whole once)
  exact run.crosses (.between after once alone) (Nat.zero_add _)

theorem Crosses.only {start : Nat} (crosses : Crosses I link code start stop pc m n) {last : Machine ρ W}
    (run : Reaches I link code pc m k last) :
    start ≤ k ∧ k < stop ∨ Reaches I link code stop n k last := by
  induction crosses with
  | out => exact .inr run
  | next inside here done _ ih =>
    cases run with
    | refl => exact .inl inside
    | next again same rest =>
      cases here.symm.trans again
      cases done.symm.trans same
      exact ih rest
    | jump again same _ _ =>
      cases here.symm.trans again
      cases done.symm.trans same
  | jump inside here done found _ ih =>
    cases run with
    | refl => exact .inl inside
    | next again same _ =>
      cases here.symm.trans again
      cases done.symm.trans same
    | jump again same place rest =>
      cases here.symm.trans again
      cases done.symm.trans same
      cases found.symm.trans place
      exact ih rest

end

def Signature.reference (className : String) (s : Signature) : Option String :=
  (methodDescriptor s.params s.returns).toOption.map fun d => s!"{className}.{s.name}{d}"

def MethodTable.link (t : MethodTable) (className target : String) : Option String :=
  (t.signatures.find? fun s => s.reference className == some target).map Signature.name

theorem MethodTable.linking (t : MethodTable) (className : String) :
    Linking (t.link className) t className := by
  intro m s d found described
  have member := List.mem_of_find?_eq_some found
  have named : s.reference className = some s!"{className}.{m}{d}" := by
    rw [Signature.reference, described, (MethodTable.findName found).1]
    rfl
  rw [MethodTable.link]
  cases first : t.signatures.find? fun s => s.reference className == some s!"{className}.{m}{d}" with
  | none =>
    have missed := List.find?_eq_none.mp first s member
    simp [named] at missed
  | some other =>
    have hit : other.reference className = some s!"{className}.{m}{d}" := by
      simpa using List.find?_some first
    obtain ⟨e, made, text⟩ := Option.map_eq_some_iff.mp hit
    have describedOther : methodDescriptor other.params other.returns = .ok e := by
      cases known : methodDescriptor other.params other.returns with
      | error fault => simp [known, Except.toOption] at made
      | ok e' =>
        rw [known] at made
        exact congrArg Except.ok (Option.some.inj made)
    exact congrArg some (referenceName (methodDescriptorBracket described)
      (methodDescriptorBracket describedOther) text)

/-- The code of an expression, in code that does not place its labels elsewhere, computes the
expression above whatever is on the stack, and is left at its end only. -/
theorem Expr.codeComputes [DecidableEq ρ] (I : Interpretation ρ W) {a : Analysis} {className : String}
    {id n : Nat} {e : Expr NodeId} {made : List Instruction × Nat}
    (coded : e.code a className id n = .ok made) {before after : List Instruction}
    (alone : ∀ l, .label l ∈ made.1 → .label l ∉ before ++ after) {s s' : Memory Nat ρ W}
    {result : Option (Value ρ)} (evaluated : e.Evaluates I (a.view id) s result s')
    (stack : List (Cell ρ)) :
    Crosses I (a.methods.link className) (before ++ made.1 ++ after) before.length
        (before.length + made.1.length) before.length (s.on stack)
        (s'.on ((result.map Cell.value).toList ++ stack)) ∧
      ∀ k m, Reaches I (a.methods.link className) (before ++ made.1 ++ after) before.length
          (s.on stack) k m →
        before.length ≤ k ∧ k < before.length + made.1.length ∨
          Reaches I (a.methods.link className) (before ++ made.1 ++ after)
            (before.length + made.1.length) (s'.on ((result.map Cell.value).toList ++ stack)) k m := by
  have emits := e.codeEmits id coded
  have does := e.emitsDoes (a.methods.linking className) stack emits evaluated
  have crosses := does.crosses after (e.emitsLabelled id emits).once fun l placed inside =>
    alone l placed (List.mem_append_left after inside)
  exact ⟨crosses, fun _ _ run => crosses.only run⟩

def gaugeAnalysis : Analysis where
  methods := ⟨[⟨"Twice", .int, [.int], .declared, {}⟩]⟩
  scopes := ⟨[{ symbols := ⟨[("x", .var ⟨some .int, 1, true, ⟨0⟩⟩)]⟩ }]⟩
  types := ⟨[(⟨1⟩, .bool), (⟨3⟩, .int), (⟨9⟩, .int)]⟩

/-- `!((x = 2) < Twice(x)) || x == 2` -/
def gauge : Expr NodeId :=
  let x (n : Nat) : Expr NodeId := .var ⟨n⟩ "x" {}
  let two (n : Nat) : Expr NodeId := .literal ⟨n⟩ (.int 2) {}
  .binary ⟨1⟩ .or
    (.not ⟨2⟩ (.binary ⟨3⟩ .less (.assign ⟨4⟩ (x 5) (two 6)) (.call ⟨7⟩ "Twice" [x 8] {})) {})
    (.binary ⟨9⟩ .equal (x 10) (two 11))

def doubling : Interpretation Unit Nat where
  arith _ _ _ _ := none
  fcmpl _ _ := none
  text _ := ()
  call _ _ args w :=
    match args with
    | [.int n] => some (some (.int (2 * n)), w + 1)
    | _ => none
  print _ _ _ := none
  read _ _ := none
  random _ := none
  randomBelow _ _ := none

def gaugeStart : Memory Nat Unit Nat := ⟨fun k => if k = 0 then some (.ref ()) else none, 0⟩

def gaugeEnd : Memory Nat Unit Nat := { gaugeStart.set 1 (some (.int 2)) with world := 1 }

theorem gaugeEvaluates :
    gauge.Evaluates doubling (gaugeAnalysis.view 0) gaugeStart (some (.int 1)) gaugeEnd := by
  show Expr.Evaluates _ _ _ _ (some (.ofBool ((1 : Int) != 0))) _
  apply Expr.Evaluates.joined rfl
  · show Expr.Evaluates _ _ _ _ (some (.ofBool ((1 : Int) == 0))) _
    apply Expr.Evaluates.not
    show Expr.Evaluates _ _ _ _ (some (.ofBool true)) _
    apply Expr.Evaluates.compare rfl
    · exact .assign .literal rfl
    · exact .call rfl rfl (.cons (.var rfl rfl) .nil) rfl rfl
    · rfl
    · rfl
  · rfl
  · show Expr.Evaluates _ _ _ _ (some (.ofBool true)) _
    exact .compare rfl (.var rfl rfl) .literal rfl rfl

theorem gaugeComputed : ∃ made, gauge.code gaugeAnalysis "C" 0 7 = .ok made ∧
    Crosses doubling (gaugeAnalysis.methods.link "C")
      ([.label ⟨3⟩, .iconst 5] ++ made.1 ++ [.branch .ne ⟨3⟩, .ret none]) 2 (2 + made.1.length) 2
      (gaugeStart.on [.value (.int 5)]) (gaugeEnd.on [.value (.int 1), .value (.int 5)]) := by
  cases coded : gauge.code gaugeAnalysis "C" 0 7 with
  | error fault =>
    have works : (gauge.code gaugeAnalysis "C" 0 7).toOption.isSome = true := by decide
    simp [coded, Except.toOption] at works
  | ok made =>
    have labelled := gauge.emitsLabelled 0 (gauge.codeEmits 0 coded)
    have alone (l : Label) (placed : .label l ∈ made.1) :
        .label l ∉ [Instruction.label ⟨3⟩, .iconst 5] ++ [.branch .ne ⟨3⟩, .ret none] := by
      have inside := (labelled.aimed l).mp ((labelled.own l).mpr placed)
      intro other
      obtain rfl : l = ⟨3⟩ := by simpa using other
      exact absurd inside.1 (by decide)
    exact ⟨made, rfl, (gauge.codeComputes doubling coded alone gaugeEvaluates _).1⟩

end ClassCompiler
