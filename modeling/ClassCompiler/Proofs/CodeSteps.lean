import ClassCompiler.Proofs.KindWalk

/-! Pieces of code and what they do to the stack of kinds. A piece uses the labels from one number up
to another, and leaves what has been noted at all others. -/
namespace ClassCompiler

def Instruction.isPlain : Instruction → Bool
  | .branch .. | .branchInt .. | .branchRef .. | .goto _ | .label _ | .ret _ => false
  | _ => true

@[simp] theorem Instruction.pushIntPlain (value : Int) : (Instruction.pushInt value).isPlain = true := by
  unfold Instruction.pushInt
  (repeat' split) <;> rfl

theorem Instruction.pushIntKinds (returns : Option ValueKind) (value : Int) (stack : List ValueKind) :
    (Instruction.pushInt value).kinds returns stack = some (.int :: stack) := by
  unfold Instruction.pushInt
  (repeat' split) <;> rfl

namespace KindWalk

def standing (w : KindWalk) : List ValueKind := w.stack.getD []

def Fresh (w : KindWalk) (n : Nat) : Prop := ∀ l : Label, n ≤ l.index → w.noted.get? l = none

theorem Fresh.mono {w : KindWalk} {n m : Nat} (fresh : w.Fresh n) (le : n ≤ m) : w.Fresh m :=
  fun l beyond => fresh l (Nat.le_trans le beyond)

/-- From `w` to `v` over code with the labels from `n` up to `n'`. -/
structure Gains (w : KindWalk) (n n' need : Nat) (after : List ValueKind) (v : KindWalk) : Prop where
  stack : v.standing = after
  deepest : v.deepest = max w.deepest need
  noted : ∀ l : Label, l.index < n ∨ n' ≤ l.index → v.noted.get? l = w.noted.get? l

theorem Gains.fresh {w v : KindWalk} {n n' need : Nat} {after : List ValueKind}
    (gains : w.Gains n n' need after v) (le : n ≤ n') (fresh : w.Fresh n) : v.Fresh n' :=
  fun l beyond => (gains.noted l (.inr beyond)).trans (fresh l (Nat.le_trans le beyond))

structure Notes (w : KindWalk) (l : Label) (stack : List ValueKind) (need : Nat) (v : KindWalk) :
    Prop where
  deepest : v.deepest = max w.deepest need
  here : v.noted.get? l = some stack
  others : ∀ k, k ≠ l → v.noted.get? k = w.noted.get? k

theorem Notes.away {w v : KindWalk} {i need : Nat} {stack : List ValueKind}
    (notes : w.Notes ⟨i⟩ stack need v) {k : Label} (other : k.index ≠ i) :
    v.noted.get? k = w.noted.get? k :=
  notes.others k fun same => other (congrArg Label.index same)

theorem standingSome {w : KindWalk} {stack : List ValueKind} (known : w.stack = some stack) :
    w.standing = stack := by
  simp [standing, known]

theorem stackStanding {w : KindWalk} {stack : List ValueKind} (known : w.standing = stack) :
    ∀ s, w.stack = some s → s = stack :=
  fun _ here => (standingSome here).symm.trans known

theorem walkOne {returns : Option ValueKind} {w v : KindWalk} {i : Instruction}
    (stepped : w.step returns i = some v) : walk returns w [i] = some v := by
  simp [walk, stepped]

section
variable (returns : Option ValueKind) (w : KindWalk)

theorem stepPass {i : Instruction} (other : ∀ l, i ≠ .label l) : w.step returns i = w.pass returns i := by
  cases i with
  | label l => exact absurd rfl (other l)
  | _ => rfl

theorem plain (i : Instruction) {after : List ValueKind} (simple : i.isPlain = true)
    (made : i.kinds returns w.standing = some after) :
    ∃ v, walk returns w [i] = some v ∧ v.stack = some after ∧
      v.deepest = max w.deepest (max after.length w.standing.length) ∧ v.noted = w.noted := by
  refine ⟨⟨some after, _, w.noted⟩, walkOne ?_, rfl, Nat.max_assoc .., rfl⟩
  have onward : i.jumpTarget? = none ∧ i.isTerminal = false := by
    cases i with
    | branch | branchInt | branchRef | goto | label | ret => contradiction
    | _ => exact ⟨rfl, rfl⟩
  rw [stepPass returns w fun l same => by simp [same, Instruction.isPlain] at simple, pass]
  unfold standing at made ⊢
  simp [made, onward.1, onward.2]

theorem arriveKnown {noted : Table Label (List ValueKind)} {l : Label} {stack : List ValueKind}
    (known : noted.get? l = none ∨ noted.get? l = some stack) :
    ∃ after, arrive noted l (some stack) = some (stack, after) ∧ after.get? l = some stack ∧
      ∀ k, k ≠ l → after.get? k = noted.get? k := by
  unfold arrive
  rcases known with none | same
  · refine ⟨noted.insert l stack, by simp [none], by simp, fun k other => ?_⟩
    exact Table.getInsertOther _ _ fun same => other same.symm
  · exact ⟨noted, by simp [same], same, fun _ _ => rfl⟩

theorem jump (i : Instruction) {l : Label} {after : List ValueKind} (target : i.jumpTarget? = some l)
    (made : i.kinds returns w.standing = some after)
    (known : w.noted.get? l = none ∨ w.noted.get? l = some after) :
    ∃ v, walk returns w [i] = some v ∧ v.stack = (if i.isTerminal then none else some after) ∧
      w.Notes l after (max after.length w.standing.length) v := by
  obtain ⟨noted, arrived, here, others⟩ := arriveKnown known
  refine ⟨⟨if i.isTerminal then none else some after, _, noted⟩, walkOne ?_, rfl, Nat.max_assoc ..,
    here, others⟩
  rw [stepPass returns w fun k same => by simp [same, Instruction.jumpTarget?] at target, pass]
  unfold standing at made ⊢
  simp [made, target, arrived]

theorem place (l : Label) {stack : List ValueKind} (above : ∀ s, w.stack = some s → s = stack)
    (known : w.noted.get? l = some stack ∨ w.noted.get? l = none ∧ w.standing = stack) :
    ∃ v, walk returns w [.label l] = some v ∧ v.stack = some stack ∧ w.Notes l stack 0 v := by
  have arrived : ∃ after, arrive w.noted l w.stack = some (stack, after) ∧
      after.get? l = some stack ∧ ∀ k, k ≠ l → after.get? k = w.noted.get? k := by
    cases incoming : w.stack with
    | some s =>
      obtain rfl := above s incoming
      exact arriveKnown (known.symm.imp And.left id)
    | none =>
      unfold arrive
      rcases known with same | ⟨none, empty⟩
      · exact ⟨w.noted, by simp [same], same, fun _ _ => rfl⟩
      · have nothing : stack = [] := by simpa [standing, incoming] using empty.symm
        subst nothing
        refine ⟨w.noted.insert l [], by simp [none], by simp, fun k other => ?_⟩
        exact Table.getInsertOther _ _ fun same => other same.symm
  obtain ⟨noted, arrived, here, others⟩ := arrived
  exact ⟨⟨some stack, w.deepest, noted⟩, by simp [walk, step, arrived], rfl, by simp, here, others⟩

theorem select (value : Bool) {taken done : Nat} {stack : List ValueKind}
    (apart : taken ≠ done) (through : w.standing = stack)
    (left : w.noted.get? ⟨taken⟩ = some stack) (new : w.noted.get? ⟨done⟩ = none) :
    ∃ v, walk returns w (Instruction.selectBool value ⟨taken⟩ ⟨done⟩) = some v ∧
      v.stack = some (.int :: stack) ∧ v.deepest = max w.deepest (stack.length + 1) ∧
      ∀ k : Label, k.index ≠ taken → k.index ≠ done → v.noted.get? k = w.noted.get? k := by
  obtain ⟨w₁, one, pushed, deep, same⟩ := plain returns w (.pushBool value) rfl
    (show _ = some (.int :: stack) by rw [through]; rfl)
  have standing₁ := standingSome pushed
  obtain ⟨w₂, two, stopped, jumped⟩ := jump returns w₁ (.goto ⟨done⟩) rfl rfl
    (.inl (by rw [same]; exact new))
  rw [standing₁] at jumped
  have kept : w₂.noted.get? ⟨taken⟩ = some stack := (jumped.away apart).trans (by rw [same]; exact left)
  obtain ⟨w₃, three, again, came⟩ := place returns w₂ ⟨taken⟩
    (by simp [stopped, Instruction.isTerminal]) (.inl kept)
  have standing₃ := standingSome again
  obtain ⟨w₄, four, repushed, deeper, still⟩ := plain returns w₃ (.pushBool !value) rfl
    (show _ = some (.int :: stack) by rw [standing₃]; rfl)
  have waiting : w₄.noted.get? ⟨done⟩ = some (.int :: stack) := by
    rw [still, came.away apart.symm]
    exact jumped.here
  obtain ⟨w₅, five, last, met⟩ := place returns w₄ ⟨done⟩
    (by simp [repushed]) (.inl waiting)
  refine ⟨w₅, ?_, last, ?_, ?_⟩
  · have all := walkAppend one ([.goto ⟨done⟩] ++ ([.label ⟨taken⟩] ++
      ([.pushBool !value] ++ [.label ⟨done⟩])))
    rw [walkAppend two, walkAppend three, walkAppend four] at all
    exact all.trans five
  · rw [met.deepest, deeper, came.deepest, jumped.deepest, deep, through, standing₃]
    simp only [List.length_cons]
    omega
  · intro k notTaken notDone
    rw [met.away notDone, still, came.away notTaken, jumped.away notDone, same]

end
end KindWalk

open KindWalk

/-- Code with the labels from `n` up to `n'` turns the stack `before` into `after`, and deepens it to
`need`. -/
structure Runs (returns : Option ValueKind) (code : List Instruction) (n n' : Nat)
    (before after : List ValueKind) (need : Nat) : Prop where
  labels : n ≤ n'
  walks : ∀ w : KindWalk, w.standing = before → w.Fresh n →
    ∃ v, walk returns w code = some v ∧ w.Gains n n' need after v

namespace Runs
variable {returns : Option ValueKind} {n m n' : Nat} {before between after : List ValueKind}

theorem plain {i : Instruction} (n : Nat) (simple : i.isPlain = true)
    (made : i.kinds returns before = some after) :
    Runs returns [i] n n before after (max after.length before.length) := by
  refine ⟨Nat.le_refl n, fun w standing _ => ?_⟩
  obtain ⟨v, walked, stack, deep, same⟩ := KindWalk.plain returns w i simple (by rw [standing]; exact made)
  rw [standing] at deep
  exact ⟨v, walked, standingSome stack, deep, fun l _ => by rw [same]⟩

theorem nil (n : Nat) : Runs returns [] n n before before 0 :=
  ⟨Nat.le_refl n, fun w standing _ => ⟨w, rfl, standing, by simp, fun _ _ => rfl⟩⟩

theorem resize {code : List Instruction} {d e : Nat} (runs : Runs returns code n n' before after d)
    (same : d = e) : Runs returns code n n' before after e := same ▸ runs

theorem ret (n : Nat) : Runs returns [.ret returns] n n returns.toList [] returns.toList.length := by
  refine ⟨Nat.le_refl n, fun w standing _ => ?_⟩
  have top : w.stack.getD [] = returns.toList := standing
  have made : (Instruction.ret returns).kinds returns returns.toList = some [] := by
    have taken := takeKindsAppend returns.toList [] []
    simp only [List.append_nil] at taken
    simp [Instruction.kinds, taken, takeKinds]
  refine ⟨⟨none, max w.deepest returns.toList.length, w.noted⟩, walkOne ?_, rfl, rfl, fun _ _ => rfl⟩
  simp [KindWalk.step, KindWalk.pass, made, top, Instruction.jumpTarget?, Instruction.isTerminal]

theorem append {first second : List Instruction} {d e : Nat}
    (one : Runs returns first n m before between d) (two : Runs returns second m n' between after e) :
    Runs returns (first ++ second) n n' before after (max d e) := by
  refine ⟨Nat.le_trans one.labels two.labels, fun w standing fresh => ?_⟩
  obtain ⟨u, walked, gains⟩ := one.walks w standing fresh
  obtain ⟨v, later, more⟩ := two.walks u gains.stack (gains.fresh one.labels fresh)
  refine ⟨v, (walkAppend walked second).trans later, more.stack, ?_, fun l outside => ?_⟩
  · rw [more.deepest, gains.deepest, Nat.max_assoc]
  · have less := one.labels
    have more' := two.labels
    rw [more.noted l (by omega), gains.noted l (by omega)]

theorem test {code : List Instruction} {i : Instruction} {d : Nat}
    (runs : Runs returns code n m before between d) (target : i.jumpTarget? = some ⟨m⟩)
    (goes : i.isTerminal = false) (made : i.kinds returns between = some after) :
    Runs returns (code ++ [i] ++ Instruction.selectBool true ⟨m⟩ ⟨m + 1⟩) n (m + 2) before
      (.int :: after) (max d (max between.length (after.length + 1))) := by
  have less := runs.labels
  refine ⟨by omega, fun w standing fresh => ?_⟩
  obtain ⟨w₁, one, gains⟩ := runs.walks w standing fresh
  have new := gains.fresh less fresh
  obtain ⟨w₂, two, through, jumped⟩ := jump returns w₁ i target (by rw [gains.stack]; exact made)
    (.inl (new ⟨m⟩ (Nat.le_refl m)))
  rw [goes] at through
  obtain ⟨w₃, three, stack, deep, others⟩ := select returns w₂ true (Nat.ne_of_lt (Nat.lt_succ_self m))
    (standingSome through) jumped.here
    ((jumped.away (Nat.succ_ne_self m)).trans (new ⟨m + 1⟩ (Nat.le_succ m)))
  refine ⟨w₃, ?_, standingSome stack, ?_, fun l outside => ?_⟩
  · rw [List.append_assoc, walkAppend one, walkAppend two, three]
  · rw [deep, jumped.deepest, gains.deepest, gains.stack]
    omega
  · rw [others l (by omega) (by omega), jumped.away (by omega), gains.noted l (by omega)]

theorem logical {first second : List Instruction} {stack : List ValueKind} {d e : Nat}
    (isAnd : Bool) (cond : Condition) (one : Runs returns first (n + 2) m stack (.int :: stack) d)
    (two : Runs returns second m n' stack (.int :: stack) e) (room : stack.length + 1 ≤ d) :
    Runs returns (first ++ [.branch cond ⟨n⟩] ++ second ++ [.branch cond ⟨n⟩] ++
      Instruction.selectBool isAnd ⟨n⟩ ⟨n + 1⟩) n n' stack (.int :: stack) (max d e) := by
  have less := one.labels
  have more := two.labels
  refine ⟨by omega, fun w standing fresh => ?_⟩
  have tested (v : KindWalk) (top : v.standing = .int :: stack) :
      (Instruction.branch cond ⟨n⟩).kinds returns v.standing = some stack := by
    rw [top]
    rfl
  obtain ⟨w₁, walk₁, gains₁⟩ := one.walks w standing (fresh.mono (by omega))
  have fresh₁ := gains₁.fresh less (fresh.mono (by omega))
  have own (k : Label) (low : k.index < n + 2) : w₁.noted.get? k = w.noted.get? k :=
    gains₁.noted k (.inl low)
  obtain ⟨w₂, walk₂, through₂, jumped₂⟩ := jump returns w₁ _ rfl (tested w₁ gains₁.stack)
    (.inl ((own ⟨n⟩ (by simp)).trans (fresh ⟨n⟩ (Nat.le_refl n))))
  obtain ⟨w₃, walk₃, gains₃⟩ := two.walks w₂ (standingSome through₂) fun k high =>
    (jumped₂.away (by omega)).trans (fresh₁ k high)
  -- The second jump to the label meets what the first one has noted.
  have noted₃ : w₃.noted.get? ⟨n⟩ = some stack :=
    (gains₃.noted ⟨n⟩ (.inl (by simp; omega))).trans jumped₂.here
  obtain ⟨w₄, walk₄, through₄, jumped₄⟩ := jump returns w₃ _ rfl (tested w₃ gains₃.stack)
    (.inr noted₃)
  have done : w₄.noted.get? ⟨n + 1⟩ = none := by
    rw [jumped₄.away (Nat.succ_ne_self n), gains₃.noted _ (.inl (by simp; omega)),
      jumped₂.away (Nat.succ_ne_self n), own _ (by simp)]
    exact fresh _ (Nat.le_succ n)
  obtain ⟨w₅, walk₅, top, deep, others⟩ := select returns w₄ isAnd (Nat.ne_of_lt (Nat.lt_succ_self n))
    (standingSome through₄) jumped₄.here done
  refine ⟨w₅, ?_, standingSome top, ?_, fun l outside => ?_⟩
  · simp only [List.append_assoc]
    rw [walkAppend walk₁, walkAppend walk₂, walkAppend walk₃, walkAppend walk₄, walk₅]
  · rw [deep, jumped₄.deepest, gains₃.deepest, jumped₂.deepest, gains₁.deepest, gains₁.stack,
      gains₃.stack]
    simp only [List.length_cons]
    omega
  · rw [others l (by omega) (by omega), jumped₄.away (by omega), gains₃.noted l (by omega),
      jumped₂.away (by omega), gains₁.noted l (by omega)]

theorem conditional {cond body : List Instruction} {d e : Nat}
    (one : Runs returns cond n m [] [.int] d) (two : Runs returns body (m + 1) n' [] [] e)
    (room : 1 ≤ d) :
    Runs returns (cond ++ [.branch .eq ⟨m⟩] ++ body ++ [.label ⟨m⟩]) n n' [] [] (max d e) := by
  have less := one.labels
  have more := two.labels
  refine ⟨by omega, fun w standing fresh => ?_⟩
  obtain ⟨w₁, walk₁, gains₁⟩ := one.walks w standing fresh
  have fresh₁ := gains₁.fresh less fresh
  obtain ⟨w₂, walk₂, through, jumped⟩ := jump returns w₁ (.branch .eq ⟨m⟩) rfl
    (by rw [gains₁.stack]; rfl) (.inl (fresh₁ ⟨m⟩ (Nat.le_refl m)))
  obtain ⟨w₃, walk₃, gains₃⟩ := two.walks w₂ (standingSome through) fun k high =>
    (jumped.away (by omega)).trans (fresh₁ k (by omega))
  have noted₃ : w₃.noted.get? ⟨m⟩ = some [] :=
    (gains₃.noted ⟨m⟩ (.inl (Nat.lt_succ_self m))).trans jumped.here
  obtain ⟨w₄, walk₄, stack, came⟩ := place returns w₃ ⟨m⟩ (stackStanding gains₃.stack) (.inl noted₃)
  refine ⟨w₄, ?_, standingSome stack, ?_, fun l outside => ?_⟩
  · simp only [List.append_assoc]
    rw [walkAppend walk₁, walkAppend walk₂, walkAppend walk₃, walk₄]
  · rw [came.deepest, gains₃.deepest, jumped.deepest, gains₁.deepest, gains₁.stack]
    simp only [List.length_cons, List.length_nil]
    omega
  · rw [came.away (by omega), gains₃.noted l (by omega), jumped.away (by omega),
      gains₁.noted l (by omega)]

theorem choice {cond yes no : List Instruction} {k d e f : Nat}
    (one : Runs returns cond n m [] [.int] d) (two : Runs returns yes (m + 1) k [] [] e)
    (three : Runs returns no (k + 1) n' [] [] f) (room : 1 ≤ d) :
    Runs returns (cond ++ [.branch .eq ⟨m⟩] ++ yes ++ [.goto ⟨k⟩, .label ⟨m⟩] ++ no ++ [.label ⟨k⟩])
      n n' [] [] (max (max d e) f) := by
  have less := one.labels
  have more := two.labels
  have most := three.labels
  refine ⟨by omega, fun w standing fresh => ?_⟩
  obtain ⟨w₁, walk₁, gains₁⟩ := one.walks w standing fresh
  have fresh₁ := gains₁.fresh less fresh
  obtain ⟨w₂, walk₂, through, jumped⟩ := jump returns w₁ (.branch .eq ⟨m⟩) rfl
    (by rw [gains₁.stack]; rfl) (.inl (fresh₁ ⟨m⟩ (Nat.le_refl m)))
  have fresh₂ : w₂.Fresh (m + 1) := fun l high =>
    (jumped.away (by omega)).trans (fresh₁ l (by omega))
  obtain ⟨w₃, walk₃, gains₃⟩ := two.walks w₂ (standingSome through) fresh₂
  have fresh₃ := gains₃.fresh more fresh₂
  obtain ⟨w₄, walk₄, stopped, left⟩ := jump returns w₃ (.goto ⟨k⟩) rfl rfl
    (.inl (fresh₃ ⟨k⟩ (Nat.le_refl k)))
  rw [gains₃.stack] at left
  -- The first branch notes its own labels only, so the label behind it still has the empty stack.
  have noted₄ : w₄.noted.get? ⟨m⟩ = some [] := by
    rw [left.away (Nat.ne_of_lt more), gains₃.noted _ (.inl (Nat.lt_succ_self m))]
    exact jumped.here
  obtain ⟨w₅, walk₅, again, came⟩ := place returns w₄ ⟨m⟩ (by simp [stopped, Instruction.isTerminal])
    (.inl noted₄)
  obtain ⟨w₆, walk₆, gains₆⟩ := three.walks w₅ (standingSome again) fun l high => by
    rw [came.away (by omega), left.away (by omega)]
    exact fresh₃ l (by omega)
  have noted₆ : w₆.noted.get? ⟨k⟩ = some [] := by
    rw [gains₆.noted _ (.inl (Nat.lt_succ_self k)), came.away (Nat.ne_of_gt more)]
    exact left.here
  obtain ⟨w₇, walk₇, stack, met⟩ := place returns w₆ ⟨k⟩ (stackStanding gains₆.stack) (.inl noted₆)
  refine ⟨w₇, ?_, standingSome stack, ?_, fun l outside => ?_⟩
  · have split : [Instruction.goto ⟨k⟩, .label ⟨m⟩] = [.goto ⟨k⟩] ++ [.label ⟨m⟩] := rfl
    simp only [split, List.append_assoc]
    rw [walkAppend walk₁, walkAppend walk₂, walkAppend walk₃, walkAppend walk₄, walkAppend walk₅,
      walkAppend walk₆, walk₇]
  · rw [met.deepest, gains₆.deepest, came.deepest, left.deepest, gains₃.deepest, jumped.deepest,
      gains₁.deepest, gains₁.stack]
    simp only [List.length_cons, List.length_nil]
    omega
  · rw [met.away (by omega), gains₆.noted l (by omega), came.away (by omega), left.away (by omega),
      gains₃.noted l (by omega), jumped.away (by omega), gains₁.noted l (by omega)]

theorem loop {cond body : List Instruction} {d e : Nat}
    (one : Runs returns cond (n + 2) m [] [.int] d) (two : Runs returns body m n' [] [] e)
    (room : 1 ≤ d) :
    Runs returns ([.label ⟨n⟩] ++ cond ++ [.branch .eq ⟨n + 1⟩] ++ body ++
      [.goto ⟨n⟩, .label ⟨n + 1⟩]) n n' [] [] (max d e) := by
  have less := one.labels
  have more := two.labels
  refine ⟨by omega, fun w standing fresh => ?_⟩
  obtain ⟨w₁, walk₁, begun, first⟩ := place returns w ⟨n⟩ (stackStanding standing)
    (.inr ⟨fresh ⟨n⟩ (Nat.le_refl n), standing⟩)
  have fresh₁ : w₁.Fresh (n + 1) := fun l high =>
    (first.away (by omega)).trans (fresh l (by omega))
  obtain ⟨w₂, walk₂, gains₂⟩ := one.walks w₁ (standingSome begun) (fresh₁.mono (by omega))
  have fresh₂ := gains₂.fresh less (fresh₁.mono (by omega))
  obtain ⟨w₃, walk₃, through, jumped⟩ := jump returns w₂ (.branch .eq ⟨n + 1⟩) rfl
    (by rw [gains₂.stack]; rfl) (.inl (by
      rw [gains₂.noted _ (.inl (Nat.lt_succ_self _))]
      exact fresh₁ _ (Nat.le_refl _)))
  obtain ⟨w₄, walk₄, gains₄⟩ := two.walks w₃ (standingSome through) fun l high =>
    (jumped.away (by omega)).trans (fresh₂ l high)
  -- The way back finds the top of the loop as it was entered.
  have noted₄ : w₄.noted.get? ⟨n⟩ = some [] := by
    rw [gains₄.noted _ (.inl (Nat.lt_of_lt_of_le (by simp) less)), jumped.away (by simp),
      gains₂.noted _ (.inl (by simp))]
    exact first.here
  obtain ⟨w₅, walk₅, stopped, back⟩ := jump returns w₄ (.goto ⟨n⟩) rfl rfl
    (.inr (by rw [gains₄.stack]; exact noted₄))
  rw [gains₄.stack] at back
  have noted₅ : w₅.noted.get? ⟨n + 1⟩ = some [] := by
    rw [back.away (by simp), gains₄.noted _ (.inl (Nat.lt_of_lt_of_le (by simp) less))]
    exact jumped.here
  obtain ⟨w₆, walk₆, stack, out⟩ := place returns w₅ ⟨n + 1⟩ (by simp [stopped, Instruction.isTerminal])
    (.inl noted₅)
  refine ⟨w₆, ?_, standingSome stack, ?_, fun l outside => ?_⟩
  · have split : [Instruction.goto ⟨n⟩, .label ⟨n + 1⟩] = [.goto ⟨n⟩] ++ [.label ⟨n + 1⟩] := rfl
    simp only [split, List.append_assoc]
    rw [walkAppend walk₁, walkAppend walk₂, walkAppend walk₃, walkAppend walk₄, walkAppend walk₅,
      walk₆]
  · rw [out.deepest, back.deepest, gains₄.deepest, jumped.deepest, gains₂.deepest, first.deepest,
      gains₂.stack]
    simp only [List.length_cons, List.length_nil]
    omega
  · rw [out.away (by omega), back.away (by omega), gains₄.noted l (by omega), jumped.away (by omega),
      gains₂.noted l (by omega), first.away (by omega)]

end Runs
end ClassCompiler
