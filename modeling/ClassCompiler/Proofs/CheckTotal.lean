import ClassCompiler.Proofs.Openers
import ClassCompiler.Proofs.Origins

/-! The check of an annotated program always comes to its end: every scope that it asks for has been
bound by the first walk. -/
namespace ClassCompiler

def Analysis.Covers (F : Analysis) (nodes : List (Node NodeId)) : Prop :=
  ∀ n ∈ openers nodes, F.Binds n

section
variable {F : Analysis} {returns : DataType}

theorem Progress.scopeFound {n : NodeId} {id : Nat} (p : Progress)
    (bound : F.scopeIds.get? n = some id) : p.scopeOf F n = .ok id :=
  Progress.scopeOfOk.mpr bound

mutual

theorem Stmt.checkEnds : ∀ (s : Stmt NodeId), F.Covers s.nodes → ∀ id p,
    ∃ q, s.check F returns id p = .ok q
  | .expr .., _, _, _ => ⟨_, rfl⟩
  | .declare .., _, _, _ => ⟨_, rfl⟩
  | .ret _ (some _) _, _, _, _ => ⟨_, rfl⟩
  | .ret _ none _, _, _, _ => ⟨_, rfl⟩
  | .block n body span, covers, id, p => by
    obtain ⟨inner, bound⟩ := covers n (by simp [Stmt.nodes, NodeKind.opensScope])
    have within : F.Covers (Stmt.nodesAll body) := fun k member =>
      covers k (by simp [Stmt.nodes, NodeKind.opensScope, member])
    obtain ⟨q, done⟩ := Stmt.checkAllEnds body within inner p
    exact ⟨q, bindOk.mpr ⟨_, p.scopeFound bound, done⟩⟩
  | .ifThen n cond yes span, covers, id, p => by
    obtain ⟨inner, bound⟩ := covers n (by simp [Stmt.nodes, NodeKind.opensScope])
    have within : F.Covers yes.nodes := fun k member =>
      covers k (by simp [Stmt.nodes, NodeKind.opensScope, member])
    obtain ⟨q, done⟩ := yes.checkEnds within inner (cond.checkCondition F inner span p)
    exact ⟨q, bindOk.mpr ⟨_, p.scopeFound bound, done⟩⟩
  | .ifElse n cond yes m no span, covers, id, p => by
    obtain ⟨inner, bound⟩ := covers n (by simp [Stmt.nodes, NodeKind.opensScope])
    obtain ⟨other, beside⟩ := covers m (by simp [Stmt.nodes, NodeKind.opensScope])
    have within : F.Covers yes.nodes := fun k member =>
      covers k (by simp [Stmt.nodes, NodeKind.opensScope, member])
    have after : F.Covers no.nodes := fun k member =>
      covers k (by simp [Stmt.nodes, NodeKind.opensScope, member])
    obtain ⟨q, done⟩ := yes.checkEnds within inner (cond.checkCondition F inner span p)
    obtain ⟨r, last⟩ := no.checkEnds after other q
    exact ⟨r, bindOk.mpr ⟨_, p.scopeFound bound, bindOk.mpr ⟨q, done,
      bindOk.mpr ⟨_, q.scopeFound beside, last⟩⟩⟩⟩
  | .loop n cond body span, covers, id, p => by
    obtain ⟨inner, bound⟩ := covers n (by simp [Stmt.nodes, NodeKind.opensScope])
    have within : F.Covers body.nodes := fun k member =>
      covers k (by simp [Stmt.nodes, NodeKind.opensScope, member])
    obtain ⟨q, done⟩ := body.checkEnds within inner (cond.checkCondition F inner span p)
    exact ⟨q, bindOk.mpr ⟨_, p.scopeFound bound, done⟩⟩

theorem Stmt.checkAllEnds : ∀ (ss : List (Stmt NodeId)), F.Covers (Stmt.nodesAll ss) → ∀ id p,
    ∃ q, Stmt.checkAll F returns ss id p = .ok q
  | [], _, _, p => ⟨p, rfl⟩
  | s :: rest, covers, id, p => by
    have here : F.Covers s.nodes := fun k member => covers k (by simp [Stmt.nodesAll, member])
    have later : F.Covers (Stmt.nodesAll rest) := fun k member =>
      covers k (by simp [Stmt.nodesAll, member])
    obtain ⟨q, done⟩ := s.checkEnds here id p
    obtain ⟨r, last⟩ := Stmt.checkAllEnds rest later id q
    exact ⟨r, bindOk.mpr ⟨q, done, last⟩⟩

end

theorem Method.checkReturnEnds {m : Method NodeId} {id : Nat}
    (bound : F.scopeIds.get? m.body.tag = some id) (p : Progress) :
    ∃ q, m.checkReturn F p = .ok q := by
  unfold Method.checkReturn
  split
  · exact ⟨p, rfl⟩
  · exact ⟨_, bindOk.mpr ⟨id, p.scopeFound bound, rfl⟩⟩

theorem Method.checkEnds {m : Method NodeId} (covers : F.Covers m.nodes) (p : Progress) :
    ∃ q, m.check F p = .ok q := by
  have listed : openers m.nodes = m.tag :: m.body.tag :: openers (Stmt.nodesAll m.body.stmts) := by
    simp [Method.nodes, Block.nodes, NodeKind.opensScope]
  obtain ⟨_, outer⟩ := covers m.tag (by simp [listed])
  obtain ⟨_, inner⟩ := covers m.body.tag (by simp [listed])
  unfold Method.check
  generalize (if 1 < F.methods.count m.name then p.report (.duplicateMethod m.name) m.span
    else p) = told
  obtain ⟨r, returned⟩ := Method.checkReturnEnds inner
    (m.params.foldl (fun p param => p.reach param.tag) told)
  have within : F.Covers (Stmt.nodesAll m.body.stmts) := fun k member =>
    covers k (by simp [listed, member])
  obtain ⟨q, done⟩ : ∃ q, Stmt.checkAll F m.returnType m.body.stmts _ r = .ok q :=
    Stmt.checkAllEnds m.body.stmts within _ r
  exact ⟨q, bindOk.mpr ⟨_, told.scopeFound outer, bindOk.mpr ⟨r, returned,
    bindOk.mpr ⟨_, r.scopeFound inner, done⟩⟩⟩⟩

theorem Method.checkAllEnds {ms : List (Method NodeId)} (covers : F.Covers (ms.flatMap Method.nodes))
    (p : Progress) : ∃ q, Method.checkAll F ms p = .ok q := by
  induction ms generalizing p with
  | nil => exact ⟨p, rfl⟩
  | cons m rest ih =>
    have here : F.Covers m.nodes := fun k member => covers k (by simp [member])
    have later : F.Covers (rest.flatMap Method.nodes) := fun k member => covers k (by simp [member])
    obtain ⟨q, done⟩ := Method.checkEnds here p
    obtain ⟨r, last⟩ := ih later q
    exact ⟨r, bindOk.mpr ⟨q, done, last⟩⟩

end

namespace Program

theorem annotateCovers (p : Program NodeId) (start : Analysis) :
    ((start.declareMethods p).annotate p).Covers p.nodes :=
  fun n member => ((p.annotateOpens start).binds n).mpr (.inr member)

theorem checkEnds (p : Program NodeId) {a : Analysis} (covers : a.Covers p.nodes) :
    ∃ q, Method.checkAll a p.methods (a.startCheck p) = .ok q ∧ a.check p =
      (if q.diagnostics.isEmpty then .ok () else .error (.violations q.diagnostics),
        { a with scopes := q.scopes, diagnostics := [] }) := by
  have listed : openers p.nodes = p.tag :: openers (p.methods.flatMap Method.nodes) := by
    simp [Program.nodes, NodeKind.opensScope]
  obtain ⟨_, bound⟩ := covers p.tag (by simp [listed])
  have within : a.Covers (p.methods.flatMap Method.nodes) := fun k member =>
    covers k (by simp [listed, member])
  obtain ⟨q, done⟩ := Method.checkAllEnds within (a.startCheck p)
  refine ⟨q, done, ?_⟩
  simp only [Analysis.check, Analysis.scopeOfOk.mpr bound, done]

theorem analyzeEnds (p : Program NodeId) (fault : Fault) : p.analyze ≠ .error (.fault fault) := by
  obtain ⟨q, _, checked⟩ := p.checkEnds (p.annotateCovers {})
  rw [analyzeEq]
  unfold annotated
  rw [checked]
  split
  · simp
  · rename_i failure found
    split at found
    · contradiction
    · cases found
      simp

end Program
end ClassCompiler
