import ClassCompiler.Proofs.SlotDensity
import Mathlib.Data.List.Chain

/-! Scope trees under any sequence of operations. Whoever works on a tree may enter, leave and change
any of its scopes in any order. An operation adds a scope at the end or changes a single one, and what
it changes it only raises, so the parents stay before their children and no maximum, mark or count
ever falls. -/
namespace ClassCompiler

namespace Table
variable {κ α : Type} [DecidableEq κ]

theorem countInsertLe (t : Table κ α) (k : κ) {v : α} {p : α → Bool} (counts : p v = true) :
    t.values.countP p ≤ (t.insert k v).values.countP p := by
  obtain ⟨es⟩ := t
  simp only [values, insert]
  induction es with
  | nil => simp
  | cons e rest ih =>
    obtain ⟨j, w⟩ := e
    by_cases here : j = k
    · simp only [put, here, if_true, List.map_cons, List.countP_cons, counts]
      split <;> omega
    · simp only [put, here, if_false, List.map_cons, List.countP_cons]
      omega

end Table

namespace Scope

structure Sound (s : Scope) : Prop where
  depth : s.stackDepth ≤ s.maxStack
  slot : ∀ x v, s.symbols.get? x = some (.var v) → v.slot < s.maxLocals
  counted : ∀ x, 0 < s.declarationCount x ↔ ∃ v, s.symbols.get? x = some (.var v)

theorem soundFresh (parent : Option Nat) (maxStack maxLocals : Nat) :
    Sound { parent := parent, maxStack := maxStack, maxLocals := maxLocals } where
  depth := Nat.zero_le _
  slot x v found := by cases found
  counted x := by simp [declarationCount]

structure Rises (s u : Scope) : Prop where
  parent : u.parent = s.parent
  maxStack : s.maxStack ≤ u.maxStack
  maxLocals : s.maxLocals ≤ u.maxLocals
  vars : s.variableCount ≤ u.variableCount
  returned : s.hasReturn = true → u.hasReturn = true
  declared : ∀ x, s.declarationCount x ≤ u.declarationCount x

theorem Rises.refl (s : Scope) : s.Rises s where
  parent := rfl
  maxStack := Nat.le_refl _
  maxLocals := Nat.le_refl _
  vars := Nat.le_refl _
  returned := id
  declared _ := Nat.le_refl _

theorem Rises.trans {s u w : Scope} (first : s.Rises u) (second : u.Rises w) : s.Rises w where
  parent := second.parent.trans first.parent
  maxStack := Nat.le_trans first.maxStack second.maxStack
  maxLocals := Nat.le_trans first.maxLocals second.maxLocals
  vars := Nat.le_trans first.vars second.vars
  returned yes := second.returned (first.returned yes)
  declared x := Nat.le_trans (first.declared x) (second.declared x)

structure Advance (change : Scope → Scope) : Prop where
  sound : ∀ s : Scope, s.Sound → (change s).Sound
  rises : ∀ s : Scope, s.Rises (change s)

namespace Advance

theorem nothing : Advance id := ⟨fun _ sound => sound, Rises.refl⟩

theorem declareVariable (name : String) (v : Variable) :
    Advance fun s => s.declareVariable name v where
  sound s sound := by
    refine ⟨sound.depth, fun x w found => ?_, fun x => ?_⟩
    · simp only [Scope.declareVariable, Table.getInsert] at found ⊢
      by_cases here : name = x
      · have same : v = w := by simpa [here] using found
        subst same
        omega
      · have low := sound.slot x w (by simpa [here] using found)
        omega
    · simp only [Scope.declareVariable, declarationCount, Table.getInsert]
      by_cases here : name = x
      · simp [here]
      · simpa [here, declarationCount] using sound.counted x
  rises s := by
    refine ⟨rfl, Nat.le_refl _, Nat.le_max_left .., s.symbols.countInsertLe name rfl, id, fun x => ?_⟩
    simp only [Scope.declareVariable, declarationCount, Table.getInsert]
    by_cases here : name = x <;> simp [here]

theorem useMethod (name : String) (m : MethodUse) : Advance fun s => s.useMethod name m where
  sound s sound := by
    -- Only a name without symbol gets one, and that is no variable.
    have vars (x : String) (v : Variable) : (s.useMethod name m).symbols.get? x = some (.var v) ↔
        s.symbols.get? x = some (.var v) := by
      simp only [Scope.useMethod, Table.getInsertNew]
      by_cases here : name = x
      · cases s.symbols.get? x <;> simp [here]
      · simp [here]
    exact ⟨sound.depth, fun x v found => sound.slot x v ((vars x v).mp found),
      fun x => (sound.counted x).trans (exists_congr fun v => (vars x v).symm)⟩
  rises s := ⟨rfl, Nat.le_refl _, Nat.le_refl _, Nat.le_of_eq (s.useMethodCount name m).symm, id,
    fun _ => Nat.le_refl _⟩

theorem markInitialized (name : String) : Advance fun s => s.markInitialized name where
  sound s sound := by
    unfold Scope.markInitialized
    split
    · rename_i v found
      have symbol (x : String) : (s.symbols.insert name (.var { v with initialized := true })).get? x =
          if name = x then some (.var { v with initialized := true }) else s.symbols.get? x :=
        Table.getInsert ..
      refine ⟨sound.depth, fun x w here => ?_, fun x => ?_⟩
      · rw [symbol] at here
        split at here
        · cases here
          exact sound.slot name v found
        · exact sound.slot x w here
      · rw [symbol]
        split
        · rename_i same
          have old := (sound.counted x).mpr ⟨v, same ▸ found⟩
          exact ⟨fun _ => ⟨_, rfl⟩, fun _ => old⟩
        · exact sound.counted x
    · exact sound
  rises s := by
    unfold Scope.markInitialized
    split
    · exact ⟨rfl, Nat.le_refl _, Nat.le_refl _, s.symbols.countInsertLe name rfl, id,
        fun _ => Nat.le_refl _⟩
    · exact Rises.refl s

theorem push (n : Nat) : Advance fun s => s.push n where
  sound _ sound := ⟨Nat.le_max_right .., sound.slot, sound.counted⟩
  rises _ := ⟨rfl, Nat.le_max_left .., Nat.le_refl _, Nat.le_refl _, id, fun _ => Nat.le_refl _⟩

theorem pop (n : Nat) : Advance fun s => s.pop n where
  sound _ sound := ⟨Nat.le_trans (Nat.sub_le ..) sound.depth, sound.slot, sound.counted⟩
  rises _ := ⟨rfl, Nat.le_refl _, Nat.le_refl _, Nat.le_refl _, id, fun _ => Nat.le_refl _⟩

theorem markReturn : Advance fun s => { s with hasReturn := true } where
  sound _ sound := ⟨sound.depth, sound.slot, sound.counted⟩
  rises _ := ⟨rfl, Nat.le_refl _, Nat.le_refl _, Nat.le_refl _, fun _ => rfl, fun _ => Nat.le_refl _⟩

theorem raise (maxStack maxLocals : Nat) : Advance fun s => s.raise maxStack maxLocals where
  sound _ sound := ⟨Nat.le_trans sound.depth (Nat.le_max_left ..),
    fun x v found => Nat.lt_of_lt_of_le (sound.slot x v found) (Nat.le_max_left ..), sound.counted⟩
  rises _ := ⟨rfl, Nat.le_max_left .., Nat.le_max_left .., Nat.le_refl _, id, fun _ => Nat.le_refl _⟩

end Advance
end Scope

namespace ScopeTree

inductive Operation where
  | enter (parent : Nat)
  | leave (id : Nat)
  | declareVariable (id : Nat) (name : String) (type : Option DataType) (initialized : Bool)
    (node : NodeId)
  | useMethod (id : Nat) (name : String) (m : MethodUse)
  | markInitialized (id : Nat) (name : String)
  | push (id n : Nat)
  | pop (id n : Nat)
  | markReturn (id : Nat)
  deriving DecidableEq, Repr

def Operation.scope : Operation → Nat
  | enter id | leave id | declareVariable id .. | useMethod id .. | markInitialized id _ | push id _
  | pop id _ | markReturn id => id

def apply (t : ScopeTree) : Operation → ScopeTree
  | .enter parent => t.enter parent
  | .leave id => t.leave id
  | .declareVariable id name type initialized node => t.declareVariable id name type initialized node
  | .useMethod id name m => t.useMethod id name m
  | .markInitialized id name => t.markInitialized id name
  | .push id n => t.push id n
  | .pop id n => t.pop id n
  | .markReturn id => t.markReturn id

/-- Operations one after the other, each at a scope that exists when its turn comes. -/
def run (t : ScopeTree) : List Operation → Option ScopeTree
  | [] => some t
  | o :: rest => if o.scope < t.size then (t.apply o).run rest else none

theorem applyCases (t : ScopeTree) (o : Operation) :
    t.apply o = t.enter o.scope ∨
      ∃ id change, Scope.Advance change ∧ t.apply o = t.modify id change := by
  cases o with
  | enter parent => exact .inl rfl
  | leave child =>
    refine .inr ?_
    simp only [apply, leave]
    cases (t.scope child).parent with
    | none => exact ⟨child, id, .nothing, congrArg ScopeTree.mk (List.modify_id ..).symm⟩
    | some p => exact ⟨p, _, .raise .., rfl⟩
  | declareVariable id name type initialized node => exact .inr ⟨id, _, .declareVariable .., rfl⟩
  | useMethod id name m => exact .inr ⟨id, _, .useMethod .., rfl⟩
  | markInitialized id name => exact .inr ⟨id, _, .markInitialized name, rfl⟩
  | push id n => exact .inr ⟨id, _, .push n, rfl⟩
  | pop id n => exact .inr ⟨id, _, .pop n, rfl⟩
  | markReturn id => exact .inr ⟨id, _, .markReturn, rfl⟩

/-- Every scope but the root has a parent before it, and all scopes are sound. -/
structure Sound (t : ScopeTree) : Prop where
  top : (t.scope root).parent = none
  parent : ∀ id, id ≠ root → id < t.size → ∃ p, p < id ∧ (t.scope id).parent = some p
  scopes : ∀ id, (t.scope id).Sound

structure Rises (t u : ScopeTree) : Prop where
  size : t.size ≤ u.size
  scope : ∀ id, id < t.size → (t.scope id).Rises (u.scope id)

variable {t u w : ScopeTree} {id : Nat}

theorem scopeBeyond (beyond : t.size ≤ id) : t.scope id = {} := by
  rw [scope, List.getElem?_eq_none beyond]
  rfl

theorem scopeEnterNew (t : ScopeTree) (parent : Nat) : (t.enter parent).scope t.size =
    { parent := some parent
      maxStack := if parent = root then 0 else (t.scope parent).maxStack
      maxLocals := t.visibleVariableCount parent } := by
  simp [scope, enter, size]

theorem Sound.ordered (sound : t.Sound) : t.Ordered := by
  intro id p found
  by_cases inside : id < t.size
  · have inner : id ≠ root := by
      rintro rfl
      rw [sound.top] at found
      cases found
    obtain ⟨q, lower, known⟩ := sound.parent id inner inside
    cases known.symm.trans found
    exact lower
  · rw [scopeBeyond (Nat.le_of_not_lt inside)] at found
    cases found

theorem soundStart : Sound {} where
  top := rfl
  parent id inner inside := by
    have only : id < 1 := inside
    exact absurd (Nat.lt_one_iff.mp only) inner
  scopes id := by
    cases id <;> exact Scope.soundFresh none 0 0

theorem Sound.modify (sound : t.Sound) {change : Scope → Scope} (advance : Scope.Advance change)
    (id : Nat) : (t.modify id change).Sound := by
  have parents (i : Nat) : ((t.modify id change).scope i).parent = (t.scope i).parent :=
    parentModify t id i fun s => (advance.rises s).parent
  refine ⟨(parents root).trans sound.top, fun i inner inside => ?_, fun i => ?_⟩
  · rw [parents]
    exact sound.parent i inner (by simpa using inside)
  · rw [scopeModify]
    split
    · exact advance.sound _ (sound.scopes i)
    · exact sound.scopes i

theorem Sound.enter (sound : t.Sound) {parent : Nat} (known : parent < t.size) :
    (t.enter parent).Sound := by
  refine ⟨?_, fun i inner inside => ?_, fun i => ?_⟩
  · rw [scopeEnter t parent root (Nat.zero_lt_of_lt known)]
    exact sound.top
  · rw [enterSize] at inside
    rcases Nat.lt_succ_iff_lt_or_eq.mp inside with old | rfl
    · rw [scopeEnter t parent i old]
      exact sound.parent i inner old
    · rw [scopeEnterNew]
      exact ⟨parent, known, rfl⟩
  · rcases Nat.lt_trichotomy i t.size with old | rfl | beyond
    · rw [scopeEnter t parent i old]
      exact sound.scopes i
    · rw [scopeEnterNew]
      exact Scope.soundFresh ..
    · rw [scopeBeyond (by rw [enterSize]; exact beyond)]
      exact Scope.soundFresh none 0 0

theorem Rises.refl (t : ScopeTree) : t.Rises t := ⟨Nat.le_refl _, fun _ _ => .refl _⟩

theorem Rises.trans (first : t.Rises u) (second : u.Rises w) : t.Rises w where
  size := Nat.le_trans first.size second.size
  scope id inside := (first.scope id inside).trans
    (second.scope id (Nat.lt_of_lt_of_le inside first.size))

theorem Rises.modify (t : ScopeTree) {change : Scope → Scope} (advance : Scope.Advance change)
    (id : Nat) : t.Rises (t.modify id change) where
  size := Nat.le_of_eq (modifySize ..).symm
  scope i _ := by
    rw [scopeModify]
    split
    · exact advance.rises _
    · exact .refl _

theorem Rises.enter (t : ScopeTree) (parent : Nat) : t.Rises (t.enter parent) where
  size := by rw [enterSize]; exact Nat.le_succ _
  scope i inside := by
    rw [scopeEnter t parent i inside]
    exact .refl _

theorem applyKeeps (sound : t.Sound) {o : Operation} (inside : o.scope < t.size) :
    (t.apply o).Sound ∧ t.Rises (t.apply o) := by
  rcases t.applyCases o with new | ⟨id, change, advance, changed⟩
  · rw [new]
    exact ⟨sound.enter inside, .enter t o.scope⟩
  · rw [changed]
    exact ⟨sound.modify advance id, .modify t advance id⟩

theorem runKeeps {os : List Operation} (sound : t.Sound) (done : t.run os = some u) :
    u.Sound ∧ t.Rises u := by
  induction os generalizing t with
  | nil =>
    cases done
    exact ⟨sound, .refl _⟩
  | cons o rest ih =>
    rw [run] at done
    split at done
    · rename_i inside
      obtain ⟨next, here⟩ := applyKeeps sound inside
      obtain ⟨last, later⟩ := ih next done
      exact ⟨last, here.trans later⟩
    · cases done

structure WayUp (t : ScopeTree) (id : Nat) (way : List Nat) : Prop where
  start : way.head? = some id
  linked : way.IsChain fun i p => (t.scope i).parent = some p
  falling : way.Pairwise (· > ·)
  finish : way.getLast? = some root

theorem ancestorsWayUp (sound : t.Sound) (id : Nat) (inside : id < t.size) :
    t.WayUp id (t.ancestors id) := by
  induction id using wayOutInduction sound.ordered with
  | top id top =>
    have same : id = root := by
      by_contra inner
      obtain ⟨p, _, known⟩ := sound.parent id inner inside
      rw [top] at known
      cases known
    rw [ancestorsRoot top, same]
    exact ⟨rfl, .singleton _, List.pairwise_singleton .., rfl⟩
  | child id p child ih =>
    have lower := sound.ordered id p child
    have outer := ih (Nat.lt_trans lower inside)
    have start := outer.start
    rw [ancestorsChild sound.ordered child]
    refine ⟨rfl, ?_, List.pairwise_cons.mpr ⟨fun i member => ?_, outer.falling⟩, ?_⟩
    · refine List.isChain_cons.mpr ⟨fun q first => ?_, outer.linked⟩
      cases start.symm.trans first
      exact child
    · exact Nat.lt_of_le_of_lt (ancestorsLe sound.ordered p i member) lower
    · rw [List.getLast?_cons, outer.finish]
      rfl

theorem Rises.sums (rises : t.Rises u) {f : Scope → Nat}
    (mono : ∀ {s s' : Scope}, s.Rises s' → f s ≤ f s') {way : List Nat}
    (inside : ∀ i ∈ way, i < t.size) :
    way.foldr (fun i n => f (t.scope i) + n) 0 ≤ way.foldr (fun i n => f (u.scope i) + n) 0 := by
  induction way with
  | nil => exact Nat.le_refl _
  | cons i rest ih =>
    have here := mono (rises.scope i (inside i (List.mem_cons_self ..)))
    have later := ih fun j member => inside j (List.mem_cons_of_mem _ member)
    simp only [List.foldr_cons]
    omega

theorem Rises.ancestors (rises : t.Rises u) (sound : t.Sound) (later : u.Sound)
    (inside : id < t.size) : u.ancestors id = t.ancestors id :=
  ancestorsCongr sound.ordered later.ordered id fun i low =>
    (rises.scope i (Nat.lt_of_le_of_lt low inside)).parent

theorem Rises.visible (rises : t.Rises u) (sound : t.Sound) (later : u.Sound) (inside : id < t.size) :
    t.visibleVariableCount id ≤ u.visibleVariableCount id := by
  rw [visibleVariableCount, visibleVariableCount, rises.ancestors sound later inside]
  exact rises.sums Scope.Rises.vars fun i member =>
    Nat.lt_of_le_of_lt (ancestorsLe sound.ordered id i member) inside

theorem Rises.declarations (rises : t.Rises u) (sound : t.Sound) (later : u.Sound)
    (inside : id < t.size) (x : String) : t.declarationCount id x ≤ u.declarationCount id x := by
  rw [declarationCount, declarationCount, rises.ancestors sound later inside]
  refine rises.sums (fun grown => grown.declared x) fun i member => ?_
  exact Nat.lt_of_le_of_lt (ancestorsLe sound.ordered id i (List.mem_filter.mp member).1) inside

theorem Rises.locals (rises : t.Rises u) (sound : t.Sound) (later : u.Sound) (inside : id < t.size) :
    t.maxLocals id ≤ u.maxLocals id := by
  have own := (rises.scope id inside).maxLocals
  have visible := rises.visible sound later inside
  unfold maxLocals
  omega

/-- Whatever is done with a tree, in whatever order: its parents lead up to the root, its scopes are
sound, and from any point on nothing that it has recorded is taken back. -/
theorem operationsKeepRecords {before after : List Operation} {t u : ScopeTree}
    (reached : run {} before = some t) (further : t.run after = some u) :
    t.Sound ∧ (∀ id < t.size, t.WayUp id (t.ancestors id)) ∧ t.Rises u ∧
    ∀ id < t.size, t.maxLocals id ≤ u.maxLocals id ∧
      t.visibleVariableCount id ≤ u.visibleVariableCount id ∧
      ∀ x, t.declarationCount id x ≤ u.declarationCount id x := by
  obtain ⟨sound, _⟩ := runKeeps soundStart reached
  obtain ⟨later, rises⟩ := runKeeps sound further
  exact ⟨sound, ancestorsWayUp sound, rises, fun id inside => ⟨rises.locals sound later inside,
    rises.visible sound later inside, rises.declarations sound later inside⟩⟩

theorem tangledRecordsKept :
    let before : List Operation := [.declareVariable 0 "this" (some .self) true ⟨7⟩, .enter 0, .enter 1,
      .useMethod 1 "x" ⟨.int, []⟩, .push 2 3, .pop 2 5, .leave 2, .leave 2]
    let after : List Operation := [.declareVariable 1 "x" (some .int) false ⟨3⟩, .markInitialized 1 "x",
      .declareVariable 0 "this" none true ⟨8⟩, .enter 2, .markReturn 1, .leave 0]
    ∃ t u, run {} before = some t ∧ t.run after = some u ∧ t.size = 3 ∧ u.size = 4 ∧
      t.Sound ∧ (∀ id < t.size, t.WayUp id (t.ancestors id)) ∧ t.Rises u ∧
      ∀ id < t.size, t.maxLocals id ≤ u.maxLocals id ∧
        t.visibleVariableCount id ≤ u.visibleVariableCount id ∧
        ∀ x, t.declarationCount id x ≤ u.declarationCount id x := by
  intro before after
  obtain ⟨t, reached, u, further, old, new⟩ : ∃ t, run {} before = some t ∧
      ∃ u, t.run after = some u ∧ t.size = 3 ∧ u.size = 4 := ⟨_, rfl, _, rfl, rfl, rfl⟩
  exact ⟨t, u, reached, further, old, new, operationsKeepRecords reached further⟩

end ScopeTree
end ClassCompiler
