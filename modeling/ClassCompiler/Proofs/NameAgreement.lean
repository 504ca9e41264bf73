import ClassCompiler.Proofs.TypeAgreement

/-! What each name of a program means to the first walk, to the check and to the code. The first walk
looks a name up among the declarations made so far, the check among those that it has reached, and
the code among all of them. In an accepted program the three agree on every name, with one exception:
a variable called like the object may be declared further down, and the code takes the one for the
other. -/
namespace ClassCompiler

/-- A name at a node, and what the first walk, the check and the code find under it. -/
structure Lookup where
  node : NodeId
  name : String
  walked : Option Symbol
  checked : Option Symbol
  coded : Option Symbol
  deriving DecidableEq, Repr

/-- A look-up in a scope that the walk knows as `here` and the finished analysis as `id`. -/
def Analysis.lookupOf (final : Analysis) (here id : Nat) (n : NodeId) (x : String) (a : Analysis)
    (q : Progress) : Lookup :=
  ⟨n, x, a.scopes.lookup here x, (q.resolve id x).map Prod.snd, final.scopes.lookup id x⟩

def Visit.lookup? (final : Analysis) (v : Visit) : Option Lookup :=
  match v.node.kind with
  | .var x => some (final.lookupOf v.here v.id v.node.tag x v.walk v.check)
  | _ => none

def Program.lookups (p : Program NodeId) (final : Analysis) : List Lookup :=
  p.visits.filterMap (Visit.lookup? final)

theorem Visit.lookupSome {final : Analysis} {v : Visit} {l : Lookup} (found : v.lookup? final = some l) :
    ∃ x, v.node.kind = .var x ∧ l = final.lookupOf v.here v.id v.node.tag x v.walk v.check := by
  unfold lookup? at found
  split at found
  · rename_i x named
    exact ⟨x, named, (Option.some.inj found).symm⟩
  · contradiction

theorem Program.lookupsList (p : Program NodeId) (final : Analysis) {n : Node NodeId}
    (member : n ∈ p.nodes) {x : String} (named : n.kind = .var x) :
    ∃ l ∈ p.lookups final, l.node = n.tag ∧ l.name = x := by
  rw [← p.visitsNodes] at member
  obtain ⟨v, visited, rfl⟩ := List.mem_map.mp member
  have found : v.lookup? final = some (final.lookupOf v.here v.id v.node.tag x v.walk v.check) := by
    simp only [Visit.lookup?, named]
  exact ⟨_, List.mem_filterMap.mpr ⟨v, visited, found⟩, rfl, rfl⟩

/-- The code takes the object for a variable of the same name that is declared further down. -/
def Lookup.Hidden (p : Program NodeId) (l : Lookup) : Prop :=
  l.name = selfName ∧ ∃ w, l.coded = some (.var w) ∧
    ∃ m ∈ p.methods, ∃ d ∈ Stmt.declaratorsAll m.body.stmts, d.name = selfName ∧ d.tag = w.declaredAt

/-- One variable, up to whether it has a value yet, is what all three find; but the object may be
hidden from the code. -/
def Lookup.Agrees (p : Program NodeId) (l : Lookup) : Prop :=
  ∃ v, l.walked = some (.var v) ∧
    (∃ marked, l.checked = some (.var { v with initialized := marked })) ∧
    ((∃ marked, l.coded = some (.var { v with initialized := marked })) ∨
      v.declaredAt = p.tag ∧ l.Hidden p)

section
variable {p : Program NodeId} {final : Analysis}

theorem Program.lookupAgrees (unique : p.tags.Nodup) (lawful : p.Lawful p.annotated)
    (alike : final.Alike p.annotated) {q : Progress} {id : Nat} {a : Analysis}
    (marks : q.scopes.blank = p.annotated.scopes.blank)
    (settled : p.annotated.Settled p q.reached id a) {x : String} {type : DataType}
    (known : q.types id x = some type) (n : NodeId) : (final.lookupOf id id n x a q).Agrees p := by
  obtain ⟨home, v, here, _⟩ := Progress.typesSome.mp known
  obtain ⟨marked, there⟩ := ScopeTree.resolveVariable marks q.seesBlank here
  refine ⟨_, settled.lookup unique lawful there, ⟨v.initialized, ?_⟩, ?_⟩
  · rw [Analysis.lookupOf, here]
    rfl
  · rcases settled.final unique lawful there with same | ⟨root, w, nearer, declared⟩
    · obtain ⟨again, found⟩ := ScopeTree.lookupVariable alike.marks.symm same
      exact .inl ⟨again, found⟩
    · obtain ⟨m, method, i, d, placed, name, node, _⟩ := declared
      obtain ⟨again, found⟩ := ScopeTree.lookupVariable alike.marks.symm nearer
      cases origin unique (ScopeTree.resolveSymbol there).1 with
      | object _ same _ tag =>
        exact .inr ⟨tag, same, _, found, m, method, d, Stmt.placedAllDeclarators m.body.stmts placed,
          name.trans same, node⟩
      | param inner => exact absurd root inner
      | declared inner => exact absurd root inner

namespace Program

/-- Every name of an accepted program is looked up, and means one declaration in all three passes,
unless it is that of the object and a variable further down takes it over in the code. -/
theorem namesAgree (unique : p.tags.Nodup) (done : p.analyze = .ok final) :
    (∀ n ∈ p.nodes, ∀ x, n.kind = .var x → ∃ l ∈ p.lookups final, l.node = n.tag ∧ l.name = x) ∧
      ∀ l ∈ p.lookups final, l.Agrees p := by
  obtain ⟨q, clean, rfl⟩ := cleanOfAnalyze unique done
  refine ⟨fun n member x named => p.lookupsList _ member named, fun l member => ?_⟩
  obtain ⟨v, visited, found⟩ := List.mem_filterMap.mp member
  obtain ⟨x, named, rfl⟩ := Visit.lookupSome found
  obtain ⟨_, settled⟩ := (clean.visitsSettled unique).1 v visited
  have aligned := settled.aligned (by rw [named]; rfl)
  obtain ⟨type, known⟩ := aligned.known x named
  rw [aligned.scope]
  exact p.lookupAgrees unique clean.lawful clean.alike aligned.marks aligned.settled known _

theorem sampleNamesAgree : ∃ a, sampleProgram.analyze = .ok a ∧
    (∀ n ∈ sampleProgram.nodes, ∀ x, n.kind = .var x →
      ∃ l ∈ sampleProgram.lookups a, l.node = n.tag ∧ l.name = x) ∧
    ∀ l ∈ sampleProgram.lookups a, l.Agrees sampleProgram := by
  obtain ⟨c, made⟩ := sampleCompiles
  obtain ⟨a, analyzed, _⟩ := compileParts made
  exact ⟨a, analyzed, namesAgree (by decide +kernel) analyzed⟩

def hidingObject : Program NodeId :=
  let read : Stmt NodeId := .expr ⟨1⟩ (.var ⟨0⟩ "this" {}) {}
  let later : Declarator NodeId := ⟨⟨3⟩, "this", some (.literal ⟨2⟩ (.int 1) {}), {}⟩
  ⟨⟨7⟩, [⟨⟨6⟩, "Main", none, [], ⟨⟨5⟩, [read, .declare ⟨4⟩ (some .int) [later] {}], {}⟩, {}⟩]⟩

theorem objectHidden : hidingObject.tags.Nodup ∧ ∃ a, hidingObject.analyze = .ok a ∧
    hidingObject.lookups a =
      [⟨⟨0⟩, "this", some (.var ⟨some .self, 0, true, ⟨7⟩⟩), some (.var ⟨some .self, 0, true, ⟨7⟩⟩),
        some (.var ⟨some .int, 1, true, ⟨3⟩⟩)⟩] := by
  refine ⟨by decide +kernel, ?_⟩
  cases made : hidingObject.analyze with
  | error failure =>
    have accepted : hidingObject.analyze.toOption.isSome = true := by decide +kernel
    simp [made, Except.toOption] at accepted
  | ok a =>
    have listed : hidingObject.analyze.toOption.map (fun a => hidingObject.lookups a) = some
        [⟨⟨0⟩, "this", some (.var ⟨some .self, 0, true, ⟨7⟩⟩),
          some (.var ⟨some .self, 0, true, ⟨7⟩⟩), some (.var ⟨some .int, 1, true, ⟨3⟩⟩)⟩] := by
      decide +kernel
    rw [made] at listed
    exact ⟨a, rfl, Option.some.inj listed⟩

end Program
end
end ClassCompiler
