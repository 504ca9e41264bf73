import ClassCompiler.Proofs.CleanProgram
import ClassCompiler.StackDepth

/-! Runs of code beside the walk of `StackDepth`. The walk passes every instruction once and takes the
stack to be empty where it cannot know better; a run jumps back and forth. They agree because a label
keeps the depth that has been noted for it, and because a run comes to a position out of the order of the
code only if a label stands there. -/
namespace ClassCompiler

def Instruction.depthAfter (i : Instruction) (depth : Nat) : Nat := depth - i.pops + i.pushes

/-- A run has come to a position with a depth. A branch may turn out either way, a jump may lead to
any place of its label, and a return ends the run. -/
inductive DepthRun (code : List Instruction) : Nat → Nat → Prop where
  | start : DepthRun code 0 0
  | next {pc depth i} (run : DepthRun code pc depth) (here : code[pc]? = some i)
      (goes : i.isTerminal = false) : DepthRun code (pc + 1) (i.depthAfter depth)
  | jump {pc depth i l place} (run : DepthRun code pc depth) (here : code[pc]? = some i)
      (aims : i.jumpTarget? = some l) (found : code[place]? = some (.label l)) :
      DepthRun code place (i.depthAfter depth)

theorem mapOk {ε α β : Type} {x : Except ε α} {f : α → β} {result : β} :
    x.map f = .ok result ↔ ∃ value, x = .ok value ∧ f value = result := by
  cases x with
  | error e => simp [Except.map]
  | ok value => simp [Except.map]

namespace StackWalk
variable {w v last : StackWalk} {index : Nat} {i : Instruction} {l : Label} {code : List Instruction}

structure Arrival (noted : Table Label Nat) (l : Label) (incoming : Option Nat) (depth : Nat)
    (after : Table Label Nat) : Prop where
  here : after.get? l = some depth
  agrees : ∀ d, incoming = some d → d = depth
  kept : ∀ k d, noted.get? k = some d → after.get? k = some d
  origin : ∀ k d, after.get? k = some d → noted.get? k = some d ∨ d = incoming.getD 0

theorem arriveArrival {noted : Table Label Nat} {incoming : Option Nat} {here : Nat × Table Label Nat}
    (arrived : arrive noted l incoming = .ok here) : Arrival noted l incoming here.1 here.2 := by
  unfold arrive at arrived
  split at arrived
  · rename_i first second known
    split at arrived
    · rename_i same
      cases arrived
      exact ⟨known, fun d given => by cases given; exact same.symm, fun _ _ => id, fun _ _ => .inl⟩
    · contradiction
  · rename_i first known
    cases arrived
    exact ⟨known, by simp, fun _ _ => id, fun _ _ => .inl⟩
  · rename_i unknown
    cases arrived
    refine ⟨Table.getInsertSelf .., fun d given => by rw [given]; rfl, fun k d known => ?_,
      fun k d known => ?_⟩
    · have other : l ≠ k := by
        rintro rfl
        simp [unknown] at known
      rw [Table.getInsertOther _ _ other, known]
    · rw [Table.getInsert] at known
      split at known
      · exact .inr (Option.some.inj known).symm
      · exact .inl known

structure Passed (w : StackWalk) (i : Instruction) (v : StackWalk) : Prop where
  room : i.pops ≤ w.depth.getD 0
  depth : v.depth = if i.isTerminal then none else some (i.depthAfter (w.depth.getD 0))
  deepest : v.deepest = max (max w.deepest (i.depthAfter (w.depth.getD 0))) (w.depth.getD 0)
  noted : ∀ l, i.jumpTarget? = some l →
    ∃ d, Arrival w.noted l (some (i.depthAfter (w.depth.getD 0))) d v.noted
  still : i.jumpTarget? = none → v.noted = w.noted

theorem passPassed (passed : w.pass index i = .ok v) : w.Passed i v := by
  by_cases short : w.depth.getD 0 < i.pops
  · simp [pass, short] at passed
  · have room := Nat.not_lt.mp short
    simp only [pass, if_neg short] at passed
    cases target : i.jumpTarget? with
    | none =>
      simp only [target] at passed
      cases passed
      exact ⟨room, rfl, rfl, fun l aims => by simp [target] at aims, fun _ => rfl⟩
    | some l =>
      simp only [target] at passed
      obtain ⟨noted, marked, passed⟩ := bindOk.mp passed
      cases passed
      obtain ⟨here, arrived, rfl⟩ := mapOk.mp marked
      refine ⟨room, rfl, rfl, fun k aims => ?_, fun stays => by simp [target] at stays⟩
      obtain rfl : l = k := Option.some.inj (target.symm.trans aims)
      exact ⟨here.1, arriveArrival arrived⟩

theorem stepLabel (stepped : w.step index (.label l) = .ok v) : ∃ d, v.depth = some d ∧
    v.deepest = w.deepest ∧ Arrival w.noted l w.depth d v.noted := by
  obtain ⟨here, arrived, rfl⟩ := mapOk.mp stepped
  exact ⟨here.1, rfl, rfl, arriveArrival arrived⟩

theorem stepPlain (plain : ∀ l, i ≠ .label l) (stepped : w.step index i = .ok v) : w.Passed i v := by
  cases i with
  | label l => exact absurd rfl (plain l)
  | _ => exact @passPassed w v index _ stepped

structure Before (w v : StackWalk) : Prop where
  deepest : w.deepest ≤ v.deepest
  noted : ∀ l d, w.noted.get? l = some d → v.noted.get? l = some d

theorem Before.trans {u : StackWalk} (first : u.Before w) (second : w.Before v) : u.Before v where
  deepest := Nat.le_trans first.deepest second.deepest
  noted l d known := second.noted l d (first.noted l d known)

structure Capped (w : StackWalk) : Prop where
  depth : ∀ d, w.depth = some d → d ≤ w.deepest
  noted : ∀ l d, w.noted.get? l = some d → d ≤ w.deepest

theorem Capped.current (capped : w.Capped) : w.depth.getD 0 ≤ w.deepest := by
  cases known : w.depth with
  | none => exact Nat.zero_le _
  | some d => exact capped.depth d known

theorem Capped.start : ({} : StackWalk).Capped where
  depth d known := by
    cases known
    exact Nat.le_refl 0
  noted l d known := by cases known

theorem Passed.before (passed : w.Passed i v) : w.Before v where
  deepest := by
    rw [passed.deepest]
    omega
  noted l d known := by
    cases target : i.jumpTarget? with
    | none => rw [passed.still target, known]
    | some k =>
      obtain ⟨_, arrival⟩ := passed.noted k target
      exact arrival.kept l d known

theorem Passed.capped (passed : w.Passed i v) (capped : w.Capped) : v.Capped where
  depth d known := by
    rw [passed.depth] at known
    split at known
    · contradiction
    · rw [passed.deepest, ← Option.some.inj known]
      omega
  noted l d known := by
    rw [passed.deepest]
    cases target : i.jumpTarget? with
    | none =>
      have old := capped.noted l d (passed.still target ▸ known)
      omega
    | some k =>
      obtain ⟨_, arrival⟩ := passed.noted k target
      rcases arrival.origin l d known with old | rfl
      · have := capped.noted l d old
        omega
      · simp only [Option.getD_some]
        omega

theorem stepBefore (stepped : w.step index i = .ok v) : w.Before v := by
  by_cases label : ∃ l, i = .label l
  · obtain ⟨l, rfl⟩ := label
    obtain ⟨d, _, deepest, arrival⟩ := stepLabel stepped
    exact ⟨Nat.le_of_eq deepest.symm, arrival.kept⟩
  · exact (stepPlain (fun l same => label ⟨l, same⟩) stepped).before

theorem stepCapped (stepped : w.step index i = .ok v) (capped : w.Capped) : v.Capped := by
  by_cases label : ∃ l, i = .label l
  · obtain ⟨l, rfl⟩ := label
    obtain ⟨d, depth, deepest, arrival⟩ := stepLabel stepped
    have noted (k : Label) (e : Nat) (known : v.noted.get? k = some e) : e ≤ v.deepest := by
      rw [deepest]
      rcases arrival.origin k e known with old | rfl
      · exact capped.noted k e old
      · exact capped.current
    refine ⟨fun e known => ?_, noted⟩
    obtain rfl : d = e := Option.some.inj (depth.symm.trans known)
    exact noted l d arrival.here
  · exact (stepPlain (fun l same => label ⟨l, same⟩) stepped).capped capped

theorem walkBefore (walked : walk w index code = .ok last) : w.Before last := by
  induction code generalizing w index with
  | nil =>
    cases walked
    exact ⟨Nat.le_refl _, fun _ _ => id⟩
  | cons i rest ih =>
    obtain ⟨v, stepped, walked⟩ := bindOk.mp walked
    exact (stepBefore stepped).trans (ih walked)

theorem walkCapped (walked : walk w index code = .ok last) (capped : w.Capped) : last.Capped := by
  induction code generalizing w index with
  | nil =>
    cases walked
    exact capped
  | cons i rest ih =>
    obtain ⟨v, stepped, walked⟩ := bindOk.mp walked
    exact ih walked (stepCapped stepped capped)

theorem walkSplit {pc : Nat} (walked : walk {} 0 code = .ok last) (here : code[pc]? = some i) :
    ∃ w v, walk {} 0 (code.take pc) = .ok w ∧ w.step pc i = .ok v ∧
      walk {} 0 (code.take (pc + 1)) = .ok v ∧ v.Before last := by
  obtain ⟨inside, rfl⟩ := List.getElem?_eq_some_iff.mp here
  have parts : code = code.take pc ++ code[pc] :: code.drop (pc + 1) := by simp
  have length : (code.take pc).length = pc := List.length_take_of_le (Nat.le_of_lt inside)
  rw [parts, walkAppend] at walked
  obtain ⟨w, front, walked⟩ := bindOk.mp walked
  obtain ⟨v, stepped, behind⟩ := bindOk.mp walked
  rw [Nat.zero_add, length] at stepped
  refine ⟨w, v, front, stepped, ?_, walkBefore behind⟩
  rw [← List.take_append_getElem inside, walkAppend, front]
  simp only [Except.bind, walk, length, Nat.zero_add, stepped]
  rfl

/-- The depth that a walk over the whole code knows for a position: at a label it is what has been
noted, elsewhere it is what the walk has come there with. -/
structure Knows (code : List Instruction) (last : StackWalk) (pc depth : Nat) : Prop where
  marked : ∀ l, code[pc]? = some (.label l) → last.noted.get? l = some depth
  plain : (∀ l, code[pc]? ≠ some (.label l)) →
    ∃ w, walk {} 0 (code.take pc) = .ok w ∧ w.depth = some depth

namespace Knows
variable {pc depth : Nat}

theorem unique {other : Nat} (one : Knows code last pc depth) (two : Knows code last pc other) :
    depth = other := by
  by_cases label : ∃ l, code[pc]? = some (.label l)
  · obtain ⟨l, here⟩ := label
    exact Option.some.inj ((one.marked l here).symm.trans (two.marked l here))
  · have plain : ∀ l, code[pc]? ≠ some (.label l) := fun l here => label ⟨l, here⟩
    obtain ⟨w, front, known⟩ := one.plain plain
    obtain ⟨v, again, same⟩ := two.plain plain
    cases front.symm.trans again
    exact Option.some.inj (known.symm.trans same)

theorem capped (walked : walk {} 0 code = .ok last) (knows : Knows code last pc depth) :
    depth ≤ last.deepest := by
  by_cases label : ∃ l, code[pc]? = some (.label l)
  · obtain ⟨l, here⟩ := label
    exact (walkCapped walked .start).noted l depth (knows.marked l here)
  · obtain ⟨w, front, known⟩ := knows.plain fun l here => label ⟨l, here⟩
    rw [← List.take_append_drop pc code, walkAppend] at walked
    obtain ⟨u, again, behind⟩ := bindOk.mp walked
    cases front.symm.trans again
    exact Nat.le_trans ((walkCapped front .start).depth depth known) (walkBefore behind).deepest

theorem fall (walked : walk {} 0 code = .ok last) (front : walk {} 0 (code.take pc) = .ok w)
    (known : w.depth = some depth) : Knows code last pc depth where
  marked l here := by
    obtain ⟨u, v, again, stepped, _, before⟩ := walkSplit walked here
    cases front.symm.trans again
    obtain ⟨d, _, _, arrival⟩ := stepLabel stepped
    rw [arrival.agrees depth known]
    exact before.noted l d arrival.here
  plain _ := ⟨w, front, known⟩

theorem jump (here : code[pc]? = some (.label l)) (noted : last.noted.get? l = some depth) :
    Knows code last pc depth where
  marked k there := by
    cases here.symm.trans there
    exact noted
  plain none := absurd here (none l)

theorem step (walked : walk {} 0 code = .ok last) (knows : Knows code last pc depth)
    (here : code[pc]? = some i) : i.pops ≤ depth ∧ i.depthAfter depth ≤ last.deepest ∧
      (i.isTerminal = false → Knows code last (pc + 1) (i.depthAfter depth)) ∧
      ∀ l, i.jumpTarget? = some l → last.noted.get? l = some (i.depthAfter depth) := by
  obtain ⟨w, v, front, stepped, past, before⟩ := walkSplit walked here
  by_cases label : ∃ l, i = .label l
  · obtain ⟨l, rfl⟩ := label
    obtain ⟨d, known, _, arrival⟩ := stepLabel stepped
    -- The depth noted at a label is final.
    have same : some d = some depth :=
      (before.noted l d arrival.here).symm.trans (knows.marked l here)
    refine ⟨Nat.zero_le _, knows.capped walked, fun _ => fall walked past (known.trans same), ?_⟩
    rintro k ⟨⟩
  · have plain : ∀ l, i ≠ .label l := fun l same => label ⟨l, same⟩
    obtain ⟨u, again, known⟩ :=
      knows.plain fun l there => plain l (Option.some.inj (here.symm.trans there))
    cases front.symm.trans again
    have passed := stepPlain plain stepped
    have current : w.depth.getD 0 = depth := by rw [known, Option.getD_some]
    obtain ⟨room, behind, deepest, noted, _⟩ := passed
    rw [current] at room behind deepest noted
    refine ⟨room, ?_, fun goes => fall walked past (by rw [behind, goes]; rfl), fun l aims => ?_⟩
    · have := before.deepest
      omega
    · obtain ⟨d, arrival⟩ := noted l aims
      rw [arrival.agrees _ rfl]
      exact before.noted l d arrival.here

theorem ofRun (walked : walk {} 0 code = .ok last) (run : DepthRun code pc depth) :
    Knows code last pc depth := by
  induction run with
  | start => exact fall (w := {}) walked rfl rfl
  | next _ here goes ih => exact (ih.step walked here).2.2.1 goes
  | jump _ here aims found ih => exact .jump found ((ih.step walked here).2.2.2 _ aims)

end Knows
end StackWalk

/-- Code whose depth has been found keeps to it in every run: no instruction takes more than there is,
the depth never gets greater, and it is the same in all runs that come to a position. -/
theorem maxStackDepthSound {code : List Instruction} {deepest : Nat}
    (found : maxStackDepth code = .ok deepest) :
    (∀ pc depth, DepthRun code pc depth → depth ≤ deepest ∧
      ∀ i, code[pc]? = some i → i.pops ≤ depth ∧ i.depthAfter depth ≤ deepest) ∧
    ∀ pc depth other, DepthRun code pc depth → DepthRun code pc other → depth = other := by
  obtain ⟨last, walked, rfl⟩ := mapOk.mp found
  refine ⟨fun pc depth run => ?_, fun pc depth other run again => ?_⟩
  · have knows := StackWalk.Knows.ofRun walked run
    refine ⟨knows.capped walked, fun i here => ?_⟩
    obtain ⟨room, below, _⟩ := knows.step walked here
    exact ⟨room, below⟩
  · exact (StackWalk.Knows.ofRun walked run).unique (.ofRun walked again)

def loopCode : List Instruction :=
  [.iconst 1, .label ⟨0⟩, .load .int 1, .branch .eq ⟨1⟩, .load .int 2, .branch .ne ⟨2⟩, .goto ⟨0⟩,
    .label ⟨1⟩, .store .int 1, .iconst 1, .label ⟨0⟩, .pop, .ret none]

theorem loopDepthSound : maxStackDepth loopCode = .ok 2 ∧ DepthRun loopCode 10 1 ∧
    (∀ depth, DepthRun loopCode 10 depth → depth = 1) ∧
    ∀ pc depth, DepthRun loopCode pc depth → depth ≤ 2 := by
  have found : maxStackDepth loopCode = .ok 2 := rfl
  obtain ⟨kept, same⟩ := maxStackDepthSound found
  have entered : DepthRun loopCode 2 1 :=
    .next (i := .label ⟨0⟩) (.next (i := .iconst 1) .start rfl rfl) rfl rfl
  have tested : DepthRun loopCode 4 1 :=
    .next (i := .branch .eq ⟨1⟩) (.next (i := .load .int 1) entered rfl rfl) rfl rfl
  have around : DepthRun loopCode 6 1 :=
    .next (i := .branch .ne ⟨2⟩) (.next (i := .load .int 2) tested rfl rfl) rfl rfl
  have left : DepthRun loopCode 10 1 := .jump (i := .goto ⟨0⟩) around rfl rfl rfl
  exact ⟨found, left, fun depth run => same 10 depth 1 run left,
    fun pc depth run => (kept pc depth run).1⟩

end ClassCompiler
