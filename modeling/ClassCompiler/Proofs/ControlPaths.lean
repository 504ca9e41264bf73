import ClassCompiler.Proofs.Labels
import ClassCompiler.Proofs.Machine

/-! Paths through code. A path goes from the first instruction on, falls through or jumps, and takes
either way at a conditional branch. For one local, a piece of code does two things: it can be passed
without a store to the local, and it can be entered so that a load of the local is met before any store
to it. Both are found piece by piece. -/
namespace ClassCompiler

def Follows (code : List Instruction) (pc next : Nat) : Prop :=
  ∃ i, code[pc]? = some i ∧ (i.isTerminal = false ∧ next = pc + 1 ∨
    ∃ l, i.jumpTarget? = some l ∧ code.idxOf? (.label l) = some next)

/-- The positions that control has come through, the last one first. -/
inductive Path (code : List Instruction) : List Nat → Prop where
  | start : Path code [0]
  | step {pc next : Nat} {trail : List Nat} (path : Path code (pc :: trail))
      (follows : Follows code pc next) : Path code (next :: pc :: trail)

section
variable {code : List Instruction} {pc next place : Nat} {i : Instruction} {l : Label}

theorem followsIff (here : code[pc]? = some i) : Follows code pc next ↔
    i.isTerminal = false ∧ next = pc + 1 ∨
      ∃ l, i.jumpTarget? = some l ∧ code.idxOf? (.label l) = some next := by
  constructor
  · rintro ⟨j, there, goes⟩
    obtain rfl : i = j := Option.some.inj (here.symm.trans there)
    exact goes
  · exact fun goes => ⟨i, here, goes⟩

theorem followsOn (here : code[pc]? = some i) (stays : i.jumpTarget? = none)
    (goes : i.isTerminal = false) : Follows code pc next ↔ next = pc + 1 := by
  simp [followsIff here, stays, goes]

theorem followsFork (here : code[pc]? = some i) (aims : i.jumpTarget? = some l)
    (goes : i.isTerminal = false) (target : code.idxOf? (.label l) = some place) :
    Follows code pc next ↔ next = pc + 1 ∨ next = place := by
  simp [followsIff here, aims, goes, target, eq_comm]

theorem followsJump (here : code[pc]? = some (.goto l))
    (target : code.idxOf? (.label l) = some place) : Follows code pc next ↔ next = place := by
  simp [followsIff here, Instruction.isTerminal, Instruction.jumpTarget?, target, eq_comm]

theorem followsReturn {kind : Option ValueKind} (here : code[pc]? = some (.ret kind)) :
    ¬ Follows code pc next := by
  simp [followsIff here, Instruction.isTerminal, Instruction.jumpTarget?]

theorem Path.behind {trail : List Nat} {k : Nat} (path : Path code (pc :: trail)) (past : k < pc) :
    k ∈ trail ∨ ∃ after target origin before,
      pc :: trail = after ++ target :: origin :: before ∧ origin < k ∧ k < target := by
  generalize whole : pc :: trail = all at path
  induction path generalizing pc trail with
  | start =>
    cases whole
    omega
  | @step q next earlier path follows ih =>
    cases whole
    rcases Nat.lt_trichotomy k q with below | rfl | above
    · rcases ih below rfl with through | ⟨after, target, origin, before, split, jumped⟩
      · exact .inl (List.mem_cons_of_mem _ through)
      · exact .inr ⟨next :: after, target, origin, before, by rw [split, List.cons_append], jumped⟩
    · exact .inl (List.mem_cons_self ..)
    · exact .inr ⟨[], next, q, earlier, rfl, above, past⟩

end

inductive Meets (code : List Instruction) (kind : ValueKind) (slot : Nat) : Nat → Nat → Prop where
  | here {n pc : Nat} (loads : code[pc]? = some (.load kind slot)) : Meets code kind slot n pc
  | step {n pc next : Nat} (keeps : code[pc]? ≠ some (.store kind slot))
      (follows : Follows code pc next) (rest : Meets code kind slot n next) :
      Meets code kind slot (n + 1) pc

/-- From this position on a load of the local can be met before any store to it. -/
def Exposed (code : List Instruction) (kind : ValueKind) (slot pc : Nat) : Prop :=
  ∃ n, Meets code kind slot n pc

section
variable {code : List Instruction} {kind : ValueKind} {slot pc place n : Nat} {i : Instruction}
  {l : Label}

theorem Meets.mono {m : Nat} (meets : Meets code kind slot m pc) (more : m ≤ n) :
    Meets code kind slot n pc := by
  induction meets generalizing n with
  | here loads => exact .here loads
  | step keeps follows _ ih =>
    cases n with
    | zero => omega
    | succ n => exact .step keeps follows (ih (by omega))

theorem Meets.leave (meets : Meets code kind slot n pc) (here : code[pc]? = some i)
    (other : i ≠ .load kind slot) : i ≠ .store kind slot ∧
      ∃ m next, m < n ∧ Follows code pc next ∧ Meets code kind slot m next := by
  cases meets with
  | here loads => exact absurd (Option.some.inj (here.symm.trans loads)) other
  | @step m _ next keeps follows rest =>
    exact ⟨fun stores => keeps (stores ▸ here), m, next, Nat.lt_succ_self m, follows, rest⟩

theorem Exposed.leave (here : code[pc]? = some i) (keeps : i ≠ .store kind slot) {next : Nat}
    (follows : Follows code pc next) (exposed : Exposed code kind slot next) :
    Exposed code kind slot pc := by
  obtain ⟨n, meets⟩ := exposed
  exact ⟨n + 1, .step (fun stores => keeps (Option.some.inj (here.symm.trans stores))) follows meets⟩

theorem Instruction.jumpNoLocal (aims : i.jumpTarget? = some l) :
    i ≠ .load kind slot ∧ i ≠ .store kind slot := by
  constructor <;> rintro rfl <;> simp [Instruction.jumpTarget?] at aims

theorem Meets.fork (here : code[pc]? = some i) (aims : i.jumpTarget? = some l)
    (goes : i.isTerminal = false) (target : code.idxOf? (.label l) = some place)
    (meets : Meets code kind slot n pc) :
    Meets code kind slot n (pc + 1) ∨ Meets code kind slot n place := by
  obtain ⟨_, m, next, fewer, follows, rest⟩ := meets.leave here (Instruction.jumpNoLocal aims).1
  rcases (followsFork here aims goes target).mp follows with rfl | rfl
  · exact .inl (rest.mono (Nat.le_of_lt fewer))
  · exact .inr (rest.mono (Nat.le_of_lt fewer))

theorem Exposed.fork (here : code[pc]? = some i) (aims : i.jumpTarget? = some l)
    (goes : i.isTerminal = false) (target : code.idxOf? (.label l) = some place)
    (exposed : Exposed code kind slot (pc + 1) ∨ Exposed code kind slot place) :
    Exposed code kind slot pc := by
  have keeps : i ≠ .store kind slot := (Instruction.jumpNoLocal aims).2
  rcases exposed with exposed | exposed
  · exact exposed.leave here keeps ((followsFork here aims goes target).mpr (.inl rfl))
  · exact exposed.leave here keeps ((followsFork here aims goes target).mpr (.inr rfl))

theorem Meets.jump (here : code[pc]? = some (.goto l))
    (target : code.idxOf? (.label l) = some place) (meets : Meets code kind slot n pc) :
    ∃ m < n, Meets code kind slot m place := by
  obtain ⟨_, m, next, fewer, follows, rest⟩ := meets.leave here (by simp)
  obtain rfl := (followsJump here target).mp follows
  exact ⟨m, fewer, rest⟩

theorem Exposed.jump (here : code[pc]? = some (.goto l))
    (target : code.idxOf? (.label l) = some place) (exposed : Exposed code kind slot place) :
    Exposed code kind slot pc :=
  exposed.leave here (by simp) ((followsJump here target).mpr rfl)

end

theorem exposedIff {code : List Instruction} {kind : ValueKind} {slot : Nat} :
    Exposed code kind slot 0 ↔ ∃ pc trail, Path code (pc :: trail) ∧
      code[pc]? = some (.load kind slot) ∧ ∀ k ∈ trail, code[k]? ≠ some (.store kind slot) := by
  constructor
  · rintro ⟨n, meets⟩
    -- The path is extended step by step to the load that is met.
    have goesOn {n pc : Nat} (meets : Meets code kind slot n pc) : ∀ trail, Path code (pc :: trail) →
        (∀ k ∈ trail, code[k]? ≠ some (.store kind slot)) →
        ∃ pc trail, Path code (pc :: trail) ∧ code[pc]? = some (.load kind slot) ∧
          ∀ k ∈ trail, code[k]? ≠ some (.store kind slot) := by
      induction meets with
      | here loads => exact fun trail path clear => ⟨_, trail, path, loads, clear⟩
      | @step _ pc _ keeps follows _ ih =>
        exact fun trail path clear => ih (pc :: trail) (.step path follows)
          (List.forall_mem_cons.mpr ⟨keeps, clear⟩)
    exact goesOn meets [] .start (by simp)
  · rintro ⟨pc, trail, path, loads, clear⟩
    have back {all : List Nat} (path : Path code all) : ∀ pc trail, all = pc :: trail →
        (∀ k ∈ trail, code[k]? ≠ some (.store kind slot)) → Exposed code kind slot pc →
        Exposed code kind slot 0 := by
      induction path with
      | start =>
        rintro pc trail ⟨⟩ _ exposed
        exact exposed
      | @step pc next trail _ follows ih =>
        rintro _ _ ⟨⟩ clear ⟨n, meets⟩
        obtain ⟨keeps, earlier⟩ := List.forall_mem_cons.mp clear
        exact ih pc trail rfl earlier ⟨n + 1, .step keeps follows meets⟩
    exact back path pc trail rfl clear ⟨0, .here loads⟩

/-- What a piece of code does to a local: `skips` if it can be passed without a store, `exposes` if a
load can be met in it before any store. -/
structure Passage (kind : ValueKind) (slot : Nat) (part : List Instruction) (skips exposes : Bool) :
    Prop where
  onward : ∀ {code : List Instruction} {pc n : Nat}, Placed code pc part →
    Meets code kind slot n pc →
      exposes = true ∨ skips = true ∧ Meets code kind slot n (pc + part.length)
  back : ∀ {code : List Instruction} {pc : Nat}, Placed code pc part →
    exposes = true ∨ skips = true ∧ Exposed code kind slot (pc + part.length) →
      Exposed code kind slot pc

theorem Placed.tail {code rest : List Instruction} {pc : Nat} {i : Instruction}
    (placed : Placed code pc ([i] ++ rest)) : Placed code (pc + 1) rest := placed.right

def Instruction.isCalm : Instruction → Bool
  | .load .. | .store .. | .ret _ => false
  | i => i.jumpTarget?.isNone

namespace Passage
variable {kind : ValueKind} {slot : Nat} {front rest : List Instruction} {s e s' e' : Bool}
  {i : Instruction}

theorem nil : Passage kind slot [] true false where
  onward _ meets := .inr ⟨rfl, meets⟩
  back _ either := by simpa using either

theorem append (first : Passage kind slot front s e) (second : Passage kind slot rest s' e') :
    Passage kind slot (front ++ rest) (s && s') (e || s && e') where
  onward {code pc n} placed meets := by
    rw [List.length_append, ← Nat.add_assoc]
    rcases first.onward placed.left meets with exposes | ⟨skips, middle⟩
    · simp [exposes]
    · rcases second.onward placed.right middle with exposes | ⟨passes, last⟩
      · simp [skips, exposes]
      · exact .inr ⟨by simp [skips, passes], last⟩
  back {code pc} placed either := by
    rw [List.length_append, ← Nat.add_assoc] at either
    apply first.back placed.left
    simp only [Bool.or_eq_true, Bool.and_eq_true] at either
    rcases either with (exposes | ⟨skips, exposes⟩) | ⟨⟨skips, passes⟩, last⟩
    · exact .inl exposes
    · exact .inr ⟨skips, second.back placed.right (.inl exposes)⟩
    · exact .inr ⟨skips, second.back placed.right (.inr ⟨passes, last⟩)⟩

theorem one (stays : i.jumpTarget? = none) (goes : i.isTerminal = false) :
    Passage kind slot [i] (i != .store kind slot) (i == .load kind slot) where
  onward {code pc n} placed meets := by
    by_cases loads : i = .load kind slot
    · exact .inl (beq_iff_eq.mpr loads)
    · obtain ⟨keeps, m, next, fewer, follows, rest⟩ := meets.leave placed.head loads
      obtain rfl := (followsOn placed.head stays goes).mp follows
      exact .inr ⟨bne_iff_ne.mpr keeps, rest.mono (Nat.le_of_lt fewer)⟩
  back {code pc} placed either := by
    rcases either with loads | ⟨keeps, exposed⟩
    · exact ⟨0, .here (beq_iff_eq.mp loads ▸ placed.head)⟩
    · exact exposed.leave placed.head (bne_iff_ne.mp keeps)
        ((followsOn placed.head stays goes).mpr rfl)

theorem calm {part : List Instruction} (simple : part.all Instruction.isCalm = true) :
    Passage kind slot part true false := by
  induction part with
  | nil => exact nil
  | cons i rest ih =>
    simp only [List.all_cons, Bool.and_eq_true] at simple
    have first : Passage kind slot [i] true false := by
      have plain := simple.1
      cases i with
      | load | store | ret | branch | branchInt | branchRef | goto => contradiction
      | _ => exact one rfl rfl
    exact first.append (ih simple.2)

theorem between (inner : Passage kind slot rest s e) (before after : List Instruction)
    (first : before.all Instruction.isCalm = true) (last : after.all Instruction.isCalm = true) :
    Passage kind slot (before ++ rest ++ after) s e := by
  have start : Passage kind slot before true false := calm first
  simpa using (start.append inner).append (calm last)

theorem stop (kind' : Option ValueKind) : Passage kind slot [.ret kind'] false false where
  onward {code pc n} placed meets := by
    obtain ⟨_, m, next, _, follows, _⟩ := meets.leave placed.head (by simp)
    exact absurd follows (followsReturn placed.head)
  back _ either := by simp at either

theorem skip {l : Label} {left after : List Instruction} (aims : i.jumpTarget? = some l)
    (goes : i.isTerminal = false) (inner : Passage kind slot (left ++ .label l :: after) s e)
    (last : after.all Instruction.isCalm = true) :
    Passage kind slot (i :: (left ++ .label l :: after)) true e := by
  have behind : Passage kind slot (.label l :: after) true false := calm (by rw [List.all_cons, last]; rfl)
  refine ⟨fun {code pc n} placed meets => ?_, fun {code pc} placed either => ?_⟩
  · have inside : Placed code (pc + 1) (left ++ .label l :: after) := placed.tail
    rw [List.length_cons, Nat.add_comm _ 1, ← Nat.add_assoc]
    rcases meets.fork placed.head aims goes inside.right.here with through | jumped
    · exact (inner.onward inside through).imp_right fun passed => ⟨rfl, passed.2⟩
    · rw [List.length_append, ← Nat.add_assoc]
      exact .inr ⟨rfl, ((behind.onward inside.right jumped).resolve_left (by simp)).2⟩
  · have inside : Placed code (pc + 1) (left ++ .label l :: after) := placed.tail
    rw [List.length_cons, Nat.add_comm _ 1, ← Nat.add_assoc] at either
    refine .fork placed.head aims goes inside.right.here ?_
    rcases either with exposes | ⟨_, last⟩
    · exact .inl (inner.back inside (.inl exposes))
    · rw [List.length_append, ← Nat.add_assoc] at last
      exact .inr (behind.back inside.right (.inr ⟨rfl, last⟩))

theorem choose {l m : Label} {yes no : List Instruction} (aims : i.jumpTarget? = some l)
    (goes : i.isTerminal = false) (first : Passage kind slot yes s e) (second : Passage kind slot no s' e') :
    Passage kind slot (i :: (yes ++ .goto m :: .label l :: (no ++ [.label m]))) (s || s') (e || e') := by
  have lower : Passage kind slot (.label l :: (no ++ [.label m])) s' e' := by
    simpa using second.between [.label l] [.label m] rfl rfl
  have bottom : Passage kind slot [.label m] true false := calm rfl
  have size (pc : Nat) : pc + (i :: (yes ++ .goto m :: .label l :: (no ++ [.label m]))).length =
      pc + 1 + yes.length + 1 + (Instruction.label l :: (no ++ [.label m])).length := by
    simp only [List.length_cons, List.length_append]
    omega
  have last (pc : Nat) : pc + (Instruction.label l :: (no ++ [.label m])).length =
      pc + 1 + no.length + [Instruction.label m].length := by
    simp only [List.length_cons, List.length_append]
    omega
  refine ⟨fun {code pc n} placed meets => ?_, fun {code pc} placed either => ?_⟩
  · have across := placed.tail.right
    have below := across.tail
    have done := below.tail.right
    rw [size]
    rcases meets.fork placed.head aims goes below.here with above | jumped
    · rcases first.onward placed.tail.left above with exposes | ⟨skips, middle⟩
      · simp [exposes]
      · obtain ⟨k, fewer, there⟩ := middle.jump across.head done.here
        rw [last]
        obtain ⟨_, out⟩ := (bottom.onward done (there.mono (Nat.le_of_lt fewer))).resolve_left (by simp)
        exact .inr ⟨by simp [skips], out⟩
    · rcases lower.onward below jumped with exposes | ⟨skips, out⟩
      · simp [exposes]
      · exact .inr ⟨by simp [skips], out⟩
  · have across := placed.tail.right
    have below := across.tail
    have done := below.tail.right
    rw [size] at either
    simp only [Bool.or_eq_true] at either
    refine .fork placed.head aims goes below.here ?_
    rcases either with (above | beneath) | ⟨above | beneath, out⟩
    · exact .inl (first.back placed.tail.left (.inl above))
    · exact .inr (lower.back below (.inl beneath))
    · rw [last] at out
      have there := bottom.back done (.inr ⟨rfl, out⟩)
      exact .inl (first.back placed.tail.left (.inr ⟨above, .jump across.head done.here there⟩))
    · exact .inr (lower.back below (.inr ⟨beneath, out⟩))

theorem loop {l m : Label} {test body : List Instruction} (aims : i.jumpTarget? = some m)
    (goes : i.isTerminal = false) (first : Passage kind slot test s e)
    (second : Passage kind slot body s' e') :
    Passage kind slot (.label l :: (test ++ i :: (body ++ .goto l :: [.label m]))) s (e || s && e') := by
  have top : Passage kind slot [.label l] true false := calm rfl
  have bottom : Passage kind slot [.label m] true false := calm rfl
  have size (pc : Nat) :
      pc + (Instruction.label l :: (test ++ i :: (body ++ .goto l :: [.label m]))).length =
        pc + 1 + test.length + 1 + body.length + 1 + [Instruction.label m].length := by
    simp only [List.length_cons, List.length_append]
    omega
  refine ⟨fun {code pc n} placed meets => ?_, fun {code pc} placed either => ?_⟩
  · have start : Placed code pc ([.label l] ++ (test ++ i :: (body ++ .goto l :: [.label m]))) := placed
    have branch := placed.tail.right
    have back := branch.tail.right
    rw [size]
    -- Every way back to the start of the loop takes steps, so there are fewer left.
    induction n using Nat.strong_induction_on with
    | _ n ih =>
      obtain ⟨_, entered⟩ := (top.onward start.left meets).resolve_left (by simp)
      rcases first.onward placed.tail.left entered with exposes | ⟨skips, tested⟩
      · simp [exposes]
      · rcases tested.fork branch.head aims goes back.tail.here with inside | left
        · rcases second.onward branch.tail.left inside with exposes | ⟨_, around⟩
          · simp [skips, exposes]
          · obtain ⟨k, fewer, again⟩ := around.jump back.head placed.here
            exact (ih k fewer again).imp_right fun out => ⟨out.1, out.2.mono (Nat.le_of_lt fewer)⟩
        · exact .inr ⟨skips, ((bottom.onward back.tail left).resolve_left (by simp)).2⟩
  · have start : Placed code pc ([.label l] ++ (test ++ i :: (body ++ .goto l :: [.label m]))) := placed
    have branch := placed.tail.right
    have back := branch.tail.right
    rw [size] at either
    simp only [Bool.or_eq_true, Bool.and_eq_true] at either
    refine top.back start.left (.inr ⟨rfl, ?_⟩)
    apply first.back placed.tail.left
    rcases either with (exposes | ⟨skips, exposes⟩) | ⟨skips, out⟩
    · exact .inl exposes
    · exact .inr ⟨skips, .fork branch.head aims goes back.tail.here
        (.inl (second.back branch.tail.left (.inl exposes)))⟩
    · exact .inr ⟨skips, .fork branch.head aims goes back.tail.here
        (.inr (bottom.back back.tail (.inr ⟨rfl, out⟩)))⟩

theorem whole {code : List Instruction} (passage : Passage kind slot code s e)
    (placed : Placed code 0 code) : Exposed code kind slot 0 ↔ e = true := by
  refine ⟨fun ⟨n, meets⟩ => ?_, fun exposes => passage.back placed (.inl exposes)⟩
  refine (passage.onward placed meets).resolve_right fun ⟨_, behind⟩ => ?_
  -- There is no instruction behind the code.
  cases behind with
  | here loads => simp at loads
  | step _ follows =>
    obtain ⟨i, there, _⟩ := follows
    simp at there

end Passage
end ClassCompiler
