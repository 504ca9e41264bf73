import ClassCompiler.Proofs.AnnotationWalk
import ClassCompiler.RuleCheck

/-! Pieces of the first walk inside the whole of it. The nodes of a program are distinct, so what
the walk over a piece records for the nodes of the piece is what the finished analysis says of
them. -/
namespace ClassCompiler
namespace Analysis

def Before (kept : List NodeId) (a b : Analysis) : Prop :=
  ∃ fresh passed, a.Leads fresh passed b ∧ ∀ n ∈ kept, n ∉ fresh ∧ n ∉ passed

namespace Before

theorem refl (kept : List NodeId) (a : Analysis) : a.Before kept a :=
  ⟨[], [], .refl a, by simp⟩

theorem mono {kept fewer : List NodeId} {a b : Analysis} (before : a.Before kept b)
    (sub : fewer ⊆ kept) : a.Before fewer b := by
  obtain ⟨fresh, passed, leads, away⟩ := before
  exact ⟨fresh, passed, leads, fun n member => away n (sub member)⟩

theorem lead {kept fresh passed : List NodeId} {a b c : Analysis} (leads : a.Leads fresh passed b)
    (before : b.Before kept c) (away : ∀ n ∈ kept, n ∉ fresh ∧ n ∉ passed) : a.Before kept c := by
  obtain ⟨later, beyond, after, apart⟩ := before
  refine ⟨fresh ++ later, passed ++ beyond, leads.trans after, fun n member => ?_⟩
  simp [away n member, apart n member]

theorem type {kept : List NodeId} {a b : Analysis} (before : a.Before kept b) {n : NodeId}
    (member : n ∈ kept) : b.typeOf? n = a.typeOf? n := by
  obtain ⟨_, _, leads, away⟩ := before
  exact leads.type n (away n member).2

theorem bound {kept : List NodeId} {a b : Analysis} (before : a.Before kept b) {n : NodeId}
    (member : n ∈ kept) : b.scopeIds.get? n = a.scopeIds.get? n := by
  obtain ⟨_, _, leads, away⟩ := before
  exact leads.bound n (away n member).2

end Before

/-- The walk from `a` to `c` passes the nodes `tags`, which no other part of the walk that ends with
`F` touches; nor does anything from `a` on touch the nodes that are kept. The scopes that were opened
on the way stay as they were left. -/
structure Segment (F : Analysis) (kept tags : List NodeId) (a c : Analysis) : Prop where
  unique : tags.Nodup
  apart : ∀ n ∈ tags, n ∉ kept
  unseen : ∀ n ∈ tags, a.typeOf? n = none
  tidy : a.Tidy
  ahead : c.Before (tags ++ kept) F
  closed : ∀ i, a.scopes.size ≤ i → i < c.scopes.size → F.scopes.scope i = c.scopes.scope i

theorem Segment.part {F a b c d : Analysis} {kept tags guarded part f₁ p₁ f₂ p₂ : List NodeId}
    {id : Nat} (segment : Segment F kept tags a d) (pre : a.Leads f₁ p₁ b)
    (post : c.Walks id f₂ p₂ d) (older : id < b.scopes.size) (unique : part.Nodup)
    (within : part ++ guarded ⊆ tags ++ kept)
    (early : ∀ n ∈ part, n ∈ tags ∧ n ∉ p₁ ∧ n ∉ guarded)
    (late : ∀ n ∈ part ++ guarded, n ∉ f₂ ∧ n ∉ p₂) : Segment F guarded part b c where
  unique := unique
  apart n member := (early n member).2.2
  unseen n member := by
    rw [pre.type n (early n member).2.1]
    exact segment.unseen n (early n member).1
  tidy := pre.tidy segment.tidy
  ahead := (segment.ahead.mono within).lead post.toLeads late
  closed i low high := by
    rw [segment.closed i (Nat.le_trans pre.size low) (Nat.lt_of_lt_of_le high post.size)]
    exact post.only i high (by omega)

theorem Segment.inner {F a b c d : Analysis} {kept tags part f₁ p₁ f₂ p₂ : List NodeId} {id : Nat}
    (segment : Segment F kept tags a d) (pre : a.Leads f₁ p₁ b) (post : c.Walks id f₂ p₂ d)
    (older : id < b.scopes.size) (sub : part.Sublist tags) (later : f₂ ++ p₂ ⊆ tags)
    (away : ∀ n ∈ part, n ∉ p₁ ∧ n ∉ f₂ ++ p₂) : Segment F kept part b c := by
  refine segment.part pre post older (sub.nodup segment.unique) ?_ ?_ ?_
  · exact List.append_subset.mpr ⟨fun n member => List.mem_append_left _ (sub.subset member),
      List.subset_append_right _ _⟩
  · exact fun n member =>
      ⟨sub.subset member, (away n member).1, segment.apart n (sub.subset member)⟩
  · intro n member
    rw [← not_or, ← List.mem_append]
    rcases List.mem_append.mp member with inside | outside
    · exact (away n inside).2
    · exact fun here => segment.apart n (later here) outside

theorem Segment.keep {F a c : Analysis} {kept fewer tags : List NodeId}
    (segment : Segment F kept tags a c) (sub : fewer ⊆ kept) : Segment F fewer tags a c where
  unique := segment.unique
  apart n member := fun here => segment.apart n member (sub here)
  unseen := segment.unseen
  tidy := segment.tidy
  ahead := segment.ahead.mono (List.append_subset.mpr
    ⟨List.subset_append_left _ _, fun _ here => List.mem_append_right _ (sub here)⟩)
  closed := segment.closed

theorem Segment.split {F a b c : Analysis} {kept t₁ t₂ f₁ p₁ f₂ p₂ : List NodeId} {id : Nat}
    (segment : Segment F kept (t₁ ++ t₂) a c) (first : a.Walks id f₁ p₁ b)
    (second : b.Walks id f₂ p₂ c) (older : id < a.scopes.size) (early : p₁ ⊆ t₁)
    (late : f₂ ++ p₂ ⊆ t₂) :
    Segment F kept t₁ a b ∧ Segment F (t₁ ++ kept) t₂ b c := by
  obtain ⟨_, unique, apart⟩ := List.nodup_append.mp segment.unique
  constructor
  · refine segment.inner (Leads.refl a) second older (List.sublist_append_left _ _)
      (fun n here => List.mem_append_right _ (late here)) fun n member => ⟨by simp, ?_⟩
    exact fun here => apart n member n (late here) rfl
  · refine segment.part first.toLeads (Walks.refl c id)
      (Nat.lt_of_lt_of_le older first.size) unique ?_ ?_ (by simp)
    · intro n member
      simp only [List.mem_append] at member ⊢
      grind
    · intro n member
      refine ⟨List.mem_append_right _ member, fun here => apart n (early here) n member rfl,
        fun here => ?_⟩
      rcases List.mem_append.mp here with before | outside
      · exact apart n before n member rfl
      · exact segment.apart n (List.mem_append_right _ member) outside

end Analysis

structure Expr.Run (F : Analysis) (kept : List NodeId) (id : Nat) (e : Expr NodeId) (a : Analysis) :
    Prop extends Analysis.Segment F kept e.tags a (e.annotate id a).2 where
  inside : id < a.scopes.size

structure Expr.RunAll (F : Analysis) (kept : List NodeId) (id : Nat) (es : List (Expr NodeId))
    (a : Analysis) : Prop
    extends Analysis.Segment F kept (Expr.tagsAll es) a (Expr.annotateAll id es a) where
  inside : id < a.scopes.size

open Analysis (Walks)

namespace Expr
variable {F a : Analysis} {kept : List NodeId} {id : Nat}

theorem tagsBinary {τ : Type} (n : τ) (op : BinaryOp) (left right : Expr τ) :
    (Expr.binary n op left right).tags = n :: (left.tags ++ right.tags) := by
  simp [tags, nodes]

theorem tagsCall {τ : Type} (n : τ) (m : String) (args : List (Expr τ)) (span : Span) :
    (Expr.call n m args span).tags = n :: tagsAll args := by
  simp [tags, tagsAll, nodes]

theorem tagsAllCons {τ : Type} (e : Expr τ) (rest : List (Expr τ)) :
    tagsAll (e :: rest) = e.tags ++ tagsAll rest := by
  simp [tags, tagsAll, nodesAll]

theorem Run.operand {e operand : Expr NodeId} {n : NodeId} {b : Analysis} (run : e.Run F kept id a)
    (tags : e.tags = n :: operand.tags) (pre : a.Walks id [] [] b)
    (post : (operand.annotate id b).2.Walks id [] [n] (e.annotate id a).2) :
    operand.Run F kept id b where
  toSegment := by
    have unique := run.unique
    rw [tags, List.nodup_cons] at unique
    refine run.toSegment.inner pre.toLeads post (Nat.lt_of_lt_of_le run.inside pre.size) ?_ ?_ ?_
    · rw [tags]
      exact List.sublist_cons_self _ _
    · simp [tags]
    · intro m member
      simp only [List.not_mem_nil, not_false_eq_true, List.nil_append, List.mem_singleton, true_and]
      rintro rfl
      exact unique.1 member
  inside := Nat.lt_of_lt_of_le run.inside pre.size

theorem Run.operands {n : NodeId} {op : BinaryOp} {left right : Expr NodeId} {b : Analysis}
    (run : (Expr.binary n op left right).Run F kept id a)
    (moved : (left.annotate id a).2.Walks id [] [] b)
    (post : (right.annotate id b).2.Walks id [] [n]
      ((Expr.binary n op left right).annotate id a).2) :
    left.Run F kept id a ∧ right.Run F kept id b := by
  have unique := run.unique
  rw [tagsBinary, List.nodup_cons, List.nodup_append] at unique
  have pre := (left.annotateWalks id a).trans moved
  have behind := (moved.trans (right.annotateWalks id b)).trans post
  have within := Nat.lt_of_lt_of_le run.inside pre.size
  refine ⟨⟨run.toSegment.inner (Walks.refl a id).toLeads behind run.inside ?_ ?_ ?_, run.inside⟩,
    run.toSegment.inner pre.toLeads post within ?_ ?_ ?_, within⟩
  · rw [tagsBinary]
    exact (List.sublist_append_left _ _).cons n
  · rw [tagsBinary]
    intro m member
    simp only [List.nil_append, List.mem_append, List.mem_cons, List.not_mem_nil,
      or_false] at member ⊢
    grind
  · intro m member
    simp only [List.nil_append, List.mem_append, List.mem_cons, List.not_mem_nil, or_false]
    grind
  · rw [tagsBinary]
    exact (List.sublist_append_right _ _).cons n
  · simp [tagsBinary]
  · intro m member
    simp only [List.append_nil, List.nil_append, List.mem_append, List.mem_cons,
      List.not_mem_nil, or_false] at unique ⊢
    grind

theorem annotateStrict {op : BinaryOp} (strict : op.group ≠ .logical) (n : NodeId)
    (left right : Expr NodeId) :
    (Expr.binary n op left right).annotate id a =
      (op.resultType (left.annotate id a).1 (right.annotate id (left.annotate id a).2).1,
        ((right.annotate id (left.annotate id a).2).2.pop id 1).setType n
          ((left.annotate id a).1.or (right.annotate id (left.annotate id a).2).1)) := by
  simp only [Expr.annotate, BinaryOp.resultType]
  cases group : op.group with
  | logical => contradiction
  | arithmetic => rfl
  | relational => rfl

theorem annotateLogical {op : BinaryOp} (logical : op.group = .logical) (n : NodeId)
    (left right : Expr NodeId) :
    (Expr.binary n op left right).annotate id a =
      (some .bool,
        (((right.annotate id ((left.annotate id a).2.pop id 1)).2.pop id 1).push id 1).setType n
          ((left.annotate id a).1.or (right.annotate id ((left.annotate id a).2.pop id 1)).1)) := by
  simp only [Expr.annotate, logical]

theorem Run.strict {n : NodeId} {op : BinaryOp} {left right : Expr NodeId}
    (run : (Expr.binary n op left right).Run F kept id a) (strict : op.group ≠ .logical) :
    left.Run F kept id a ∧ right.Run F kept id (left.annotate id a).2 := by
  refine run.operands (Walks.refl _ id) ?_
  rw [annotateStrict strict]
  exact (Walks.pop _ id 1).trans (Walks.setType _ id n _)

theorem Run.logical {n : NodeId} {op : BinaryOp} {left right : Expr NodeId}
    (run : (Expr.binary n op left right).Run F kept id a) (logical : op.group = .logical) :
    left.Run F kept id a ∧ right.Run F kept id ((left.annotate id a).2.pop id 1) := by
  refine run.operands (Walks.pop _ id 1) ?_
  rw [annotateLogical logical]
  exact ((Walks.pop _ id 1).trans (Walks.push _ id 1)).trans (Walks.setType _ id n _)

theorem Run.not {n : NodeId} {operand : Expr NodeId} {span : Span}
    (run : (Expr.not n operand span).Run F kept id a) : operand.Run F kept id a := by
  refine run.operand (n := n) (by simp [tags, nodes]) (Walks.refl a id) ?_
  simp only [Expr.annotate]
  exact Walks.setType _ id n _

theorem Run.writeLine {n : NodeId} {value : Expr NodeId} {span : Span}
    (run : (Expr.writeLine n value span).Run F kept id a) : value.Run F kept id (a.push id 1) := by
  refine run.operand (n := n) (by simp [tags, nodes]) (Walks.push a id 1) ?_
  simp only [Expr.annotate]
  exact ((Walks.pop _ id 2).trans (Walks.useIntrinsic _ id _ _ _)).trans (Walks.setType _ id n _)

theorem Run.randomBelow {n : NodeId} {bound : Expr NodeId} {span : Span}
    (run : (Expr.randomBelow n bound span).Run F kept id a) :
    bound.Run F kept id ((a.push id 2).pop id 1) := by
  refine run.operand (n := n) (by simp [tags, nodes]) ((Walks.push a id 2).trans (Walks.pop _ id 1)) ?_
  simp only [Expr.annotate]
  exact (((Walks.pop _ id 2).trans (Walks.push _ id 1)).trans
    (Walks.useIntrinsic _ id _ _ _)).trans (Walks.setType _ id n _)

theorem annotateVarAssign (n m : NodeId) (x : String) (span : Span) (value : Expr NodeId)
    (keep : Bool) (walk : Analysis → Option DataType × Analysis) :
    a.annotateAssign id n keep (.var m x span) walk (fun a => value.annotate id a) =
      ((value.annotate id a).1,
        (((fun stored : Analysis => if keep then stored.push id 1 else stored)
          ((value.annotate id a).2.setType m ((value.annotate id a).2.nameType? id x))).pop id
            1).setType n (value.annotate id a).1) := rfl

theorem assignRun {n m : NodeId} {x : String} {span : Span} {value : Expr NodeId} {keep : Bool}
    {walk : Analysis → Option DataType × Analysis} {tags : List NodeId}
    (segment : Analysis.Segment F kept tags a
      (a.annotateAssign id n keep (.var m x span) walk fun a => value.annotate id a).2)
    (inside : id < a.scopes.size)
    (sub : (Expr.assign n (.var m x span) value).tags.Sublist tags) : value.Run F kept id a where
  toSegment := by
    have unique := sub.nodup segment.unique
    have listed : (Expr.assign n (.var m x span) value).tags = n :: m :: value.tags := by
      simp [Expr.tags, nodes]
    rw [listed] at sub unique
    have post : (value.annotate id a).2.Walks id [] [m, n]
        (a.annotateAssign id n keep (.var m x span) walk fun a => value.annotate id a).2 := by
      rw [annotateVarAssign]
      have named := Walks.setType (value.annotate id a).2 id m ((value.annotate id a).2.nameType? id x)
      cases keep with
      | true =>
        exact ((named.trans (Walks.push _ id 1)).trans (Walks.pop _ id 1)).trans
          (Walks.setType _ id n _)
      | false => exact (named.trans (Walks.pop _ id 1)).trans (Walks.setType _ id n _)
    refine segment.inner (Walks.refl a id).toLeads post inside ?_ ?_ ?_
    · exact ((List.sublist_cons_self m _).trans (List.sublist_cons_self n _)).trans sub
    · intro k member
      apply sub.subset
      simp only [List.nil_append, List.mem_cons, List.not_mem_nil, or_false] at member ⊢
      grind
    · intro k member
      simp only [List.nodup_cons, List.nil_append, List.mem_cons, List.not_mem_nil,
        or_false] at unique ⊢
      grind
  inside := inside

theorem assignSides {n : NodeId} {target value : Expr NodeId} {keep : Bool} {tags : List NodeId}
    (segment : Analysis.Segment F kept tags a (a.annotateAssign id n keep target
      (fun a => target.annotate id a) fun a => value.annotate id a).2)
    (inside : id < a.scopes.size) (unnamed : target.asName = none)
    (sub : (Expr.assign n target value).tags.Sublist tags) :
    value.Run F kept id a ∧ target.Run F kept id (value.annotate id a).2 := by
  have listed : (Expr.assign n target value).tags = n :: (target.tags ++ value.tags) := by
    simp [Expr.tags, nodes]
  have unique := sub.nodup segment.unique
  rw [listed] at sub unique
  rw [List.nodup_cons, List.nodup_append] at unique
  obtain ⟨fresh, _, _, apart⟩ := unique
  have first := value.annotateWalks id a
  have second := target.annotateWalks id (value.annotate id a).2
  have post : (target.annotate id (value.annotate id a).2).2.Walks id [] [n]
      (a.annotateAssign id n keep target (fun a => target.annotate id a)
        fun a => value.annotate id a).2 := by
    obtain ⟨stored, made, ends⟩ := a.annotateAssignEnds id n keep target
      (fun a => target.annotate id a) fun a => value.annotate id a
    rw [ends, made, unnamed]
    have popped := Walks.pop (target.annotate id (value.annotate id a).2).2 id 1
    cases keep with
    | true =>
      exact ((popped.trans (Walks.push _ id 1)).trans (Walks.pop _ id 1)).trans
        (Walks.setType _ id n _)
    | false => exact (popped.trans (Walks.pop _ id 1)).trans (Walks.setType _ id n _)
  have within := Nat.lt_of_lt_of_le inside first.size
  refine ⟨⟨segment.inner (Walks.refl a id).toLeads (second.trans post) inside ?_ ?_ ?_, inside⟩,
    segment.inner first.toLeads post within ?_ ?_ ?_, within⟩
  · exact ((List.sublist_append_right _ _).cons n).trans sub
  · intro k member
    apply sub.subset
    simp only [List.nil_append, List.mem_append, List.mem_cons, List.not_mem_nil, or_false] at member ⊢
    grind
  · intro k member
    simp only [List.nil_append, List.mem_append, List.mem_cons, List.not_mem_nil, or_false] at fresh ⊢
    grind
  · exact ((List.sublist_append_left _ _).cons n).trans sub
  · intro k member
    apply sub.subset
    simp only [List.nil_append, List.mem_cons, List.not_mem_nil, or_false] at member ⊢
    exact .inl member
  · intro k member
    simp only [List.nil_append, List.mem_append, List.mem_cons, List.not_mem_nil, or_false] at fresh ⊢
    grind

theorem Run.call {n : NodeId} {m : String} {args : List (Expr NodeId)} {span : Span}
    (run : (Expr.call n m args span).Run F kept id a) : RunAll F kept id args (a.push id 1) where
  toSegment := by
    have unique := run.unique
    rw [tagsCall, List.nodup_cons] at unique
    have post : (Expr.annotateAll id args (a.push id 1)).Walks id [] [n]
        ((Expr.call n m args span).annotate id a).2 := by
      simp only [Expr.annotate]
      exact ((Walks.pop _ id _).trans (Walks.useMethod _ id m)).trans (Walks.setType _ id n _)
    refine run.toSegment.inner (Walks.push a id 1).toLeads post
      (Nat.lt_of_lt_of_le run.inside (Walks.push a id 1).size) ?_ ?_ ?_
    · rw [tagsCall]
      exact List.sublist_cons_self _ _
    · simp [tagsCall]
    · intro k member
      simp only [List.not_mem_nil, not_false_eq_true, List.nil_append, List.mem_singleton, true_and]
      rintro rfl
      exact unique.1 member
  inside := Nat.lt_of_lt_of_le run.inside (Walks.push a id 1).size

theorem RunAll.cons {e : Expr NodeId} {rest : List (Expr NodeId)}
    (run : RunAll F kept id (e :: rest) a) :
    e.Run F kept id a ∧ RunAll F kept id rest (e.annotate id a).2 := by
  have first := e.annotateWalks id a
  have others := Expr.annotateAllWalks id rest (e.annotate id a).2
  have parts := (tagsAllCons e rest ▸ run.toSegment).split first others run.inside
    (List.Subset.refl _) (by simp)
  exact ⟨⟨parts.1, run.inside⟩, parts.2.keep (List.subset_append_right _ _),
    Nat.lt_of_lt_of_le run.inside first.size⟩

end Expr

theorem Analysis.Segment.scope {F a : Analysis} {kept part fresh passed : List NodeId} {id : Nat}
    {n : NodeId} (inside : Nat → Analysis → Analysis)
    (segment : Segment F kept (n :: part) a (a.inScope id n inside)) (inRange : id < a.scopes.size)
    (inner : (a.entered id n).Walks a.scopes.size fresh passed
      (inside a.scopes.size (a.entered id n))) (sub : passed ⊆ part) :
    F.scopeIds.get? n = some a.scopes.size ∧
      Segment F kept part (a.entered id n) (inside a.scopes.size (a.entered id n)) := by
  have unique := List.nodup_cons.mp segment.unique
  have left := Walks.leave _ inner.enteredParent
  constructor
  · rw [segment.ahead.bound (n := n) (by simp), inScopeEntered, left.bound n (by simp),
      inner.bound n fun here => unique.1 (sub here), enteredBound]
  · refine segment.inner (Leads.entered a inRange n) left
      (Nat.lt_trans inRange (a.enteredIn id n)) (List.sublist_cons_self _ _) (by simp)
      fun k member => ?_
    simp only [List.append_nil, List.mem_singleton, List.not_mem_nil, not_false_eq_true, and_true]
    rintro rfl
    exact unique.1 member

namespace Declarator

structure Run (F : Analysis) (kept : List NodeId) (type : Option DataType) (id : Nat)
    (d : Declarator NodeId) (a : Analysis) : Prop
    extends Analysis.Segment F kept d.tags a (d.annotate type id a) where
  inside : id < a.scopes.size

structure RunAll (F : Analysis) (kept : List NodeId) (type : Option DataType) (id : Nat)
    (ds : List (Declarator NodeId)) (a : Analysis) : Prop
    extends Analysis.Segment F kept (ds.flatMap Declarator.tags) a
      (Declarator.annotateAll type id ds a) where
  inside : id < a.scopes.size

variable {F a : Analysis} {kept : List NodeId} {type : Option DataType} {id : Nat}

theorem Run.init {d : Declarator NodeId} {e : Expr NodeId} (run : d.Run F kept type id a)
    (given : d.init = some e) : e.Run F kept id a where
  toSegment := by
    have listed := Declarator.tagsInit given
    have unique := run.unique
    rw [listed, List.nodup_cons] at unique
    have post : (e.annotate id a).2.Walks id [d.tag] [d.tag] (d.annotate type id a) := by
      simp only [Declarator.annotate, given]
      exact ((Walks.pop _ id 1).trans (Walks.declareVariable _ id _ _ _ _)).trans
        (Walks.setType _ id _ _)
    refine run.toSegment.inner (Walks.refl a id).toLeads post run.inside ?_ ?_ ?_
    · rw [listed]
      exact List.sublist_cons_self _ _
    · simp [listed]
    · intro k member
      simp only [List.not_mem_nil, not_false_eq_true, List.cons_append, List.nil_append,
        List.mem_cons, or_self, or_false, true_and]
      rintro rfl
      exact unique.1 member
  inside := run.inside

theorem RunAll.cons {d : Declarator NodeId} {rest : List (Declarator NodeId)}
    (run : RunAll F kept type id (d :: rest) a) :
    d.Run F kept type id a ∧ RunAll F (d.tags ++ kept) type id rest (d.annotate type id a) := by
  have first := d.annotateWalks type id a
  have others := Declarator.annotateAllWalks type id rest (d.annotate type id a)
  have segment : Analysis.Segment F kept (d.tags ++ rest.flatMap Declarator.tags) a
      (Declarator.annotateAll type id rest (d.annotate type id a)) := run.toSegment
  have parts := segment.split first others run.inside (List.Subset.refl _) (by simp)
  exact ⟨⟨parts.1, run.inside⟩, parts.2, Nat.lt_of_lt_of_le run.inside first.size⟩

end Declarator

namespace Stmt

structure Run (F : Analysis) (kept : List NodeId) (id : Nat) (s : Stmt NodeId) (a : Analysis) :
    Prop extends Analysis.Segment F kept s.tags a (s.annotate id a) where
  inside : id < a.scopes.size

structure RunAll (F : Analysis) (kept : List NodeId) (id : Nat) (ss : List (Stmt NodeId))
    (a : Analysis) : Prop
    extends Analysis.Segment F kept (Stmt.tagsAll ss) a (Stmt.annotateAll ss id a) where
  inside : id < a.scopes.size

variable {F a : Analysis} {kept : List NodeId} {id : Nat}

theorem RunAll.cons {s : Stmt NodeId} {rest : List (Stmt NodeId)}
    (run : RunAll F kept id (s :: rest) a) :
    s.Run F kept id a ∧ RunAll F (s.tags ++ kept) id rest (s.annotate id a) := by
  have listed : Stmt.tagsAll (s :: rest) = s.tags ++ Stmt.tagsAll rest := by
    simp [Stmt.tags, Stmt.tagsAll, Stmt.nodesAll]
  have first := s.annotateWalks id a run.inside
  have inside := Nat.lt_of_lt_of_le run.inside first.size
  have others := Stmt.annotateAllWalks rest id _ inside
  have parts := (listed ▸ run.toSegment).split first others run.inside (List.Subset.refl _)
    (by simp)
  exact ⟨⟨parts.1, run.inside⟩, parts.2, inside⟩

theorem Run.declare {n : NodeId} {type : Option DataType} {vars : List (Declarator NodeId)}
    {span : Span} (run : (Stmt.declare n type vars span).Run F kept id a) :
    Declarator.RunAll F kept type id vars a where
  toSegment := by
    have listed : (Stmt.declare n type vars span).tags = n :: vars.flatMap Declarator.tags := by
      simp only [Stmt.tags, Stmt.nodes, List.map_cons, List.map_flatMap]
      rfl
    refine run.toSegment.inner (Walks.refl a id).toLeads (Walks.refl _ id) run.inside ?_ ?_ ?_
    · rw [listed]
      exact List.sublist_cons_self _ _
    · simp
    · simp
  inside := run.inside

theorem Run.ret {n : NodeId} {e : Expr NodeId} {span : Span}
    (run : (Stmt.ret n (some e) span).Run F kept id a) : e.Run F kept id a where
  toSegment := by
    have listed : (Stmt.ret n (some e) span).tags = n :: e.tags := by
      simp [Stmt.tags, Stmt.nodes, Expr.nodesOption, Expr.tags]
    have unique := run.unique
    rw [listed, List.nodup_cons] at unique
    have post : (e.annotate id a).2.Walks id [] [n] ((Stmt.ret n (some e) span).annotate id a) := by
      simp only [Stmt.annotate]
      exact ((Walks.pop _ id 1).trans (Walks.setType _ id n _)).trans (Walks.markReturn _ id)
    refine run.toSegment.inner (Walks.refl a id).toLeads post run.inside ?_ ?_ ?_
    · rw [listed]
      exact List.sublist_cons_self _ _
    · simp [listed]
    · intro k member
      simp only [List.not_mem_nil, not_false_eq_true, List.nil_append, List.mem_singleton, true_and]
      rintro rfl
      exact unique.1 member
  inside := run.inside

theorem Run.block {n : NodeId} {body : List (Stmt NodeId)} {span : Span}
    (run : (Stmt.block n body span).Run F kept id a) :
    F.scopeIds.get? n = some a.scopes.size ∧
      RunAll F kept a.scopes.size body (a.entered id n) := by
  have listed : (Stmt.block n body span).tags = n :: Stmt.tagsAll body := by
    simp [Stmt.tags, Stmt.nodes, Stmt.tagsAll]
  have inner := Stmt.annotateAllWalks body a.scopes.size (a.entered id n) (a.enteredIn id n)
  have parts := Analysis.Segment.scope _ (listed ▸ run.toSegment) run.inside inner
    (List.Subset.refl _)
  exact ⟨parts.1, parts.2, a.enteredIn id n⟩

theorem conditional {n : NodeId} {cond : Expr NodeId} {body : Stmt NodeId}
    (segment : Analysis.Segment F kept (n :: (cond.tags ++ body.tags)) a (a.inScope id n
      fun inner a => body.annotate inner ((cond.annotate inner a).2.pop inner 1)))
    (inside : id < a.scopes.size) :
    F.scopeIds.get? n = some a.scopes.size ∧ cond.Run F kept a.scopes.size (a.entered id n) ∧
      body.Run F kept a.scopes.size
        ((cond.annotate a.scopes.size (a.entered id n)).2.pop a.scopes.size 1) := by
  have first := cond.conditionWalks a.scopes.size (a.entered id n)
  have within := Nat.lt_of_lt_of_le (a.enteredIn id n) first.size
  have second := body.annotateWalks a.scopes.size _ within
  obtain ⟨bound, whole⟩ := segment.scope _ inside (first.trans second) (List.Subset.refl _)
  have parts := whole.split first second (a.enteredIn id n) (List.Subset.refl _) (by simp)
  refine ⟨bound, ⟨?_, a.enteredIn id n⟩, parts.2.keep (List.subset_append_right _ _), within⟩
  exact parts.1.inner (Walks.refl _ a.scopes.size).toLeads (Walks.pop _ a.scopes.size 1)
    (a.enteredIn id n) (List.Sublist.refl _) (by simp) (by simp)

theorem Run.ifThen {n : NodeId} {cond : Expr NodeId} {yes : Stmt NodeId} {span : Span}
    (run : (Stmt.ifThen n cond yes span).Run F kept id a) :
    F.scopeIds.get? n = some a.scopes.size ∧ cond.Run F kept a.scopes.size (a.entered id n) ∧
      yes.Run F kept a.scopes.size
        ((cond.annotate a.scopes.size (a.entered id n)).2.pop a.scopes.size 1) := by
  have listed : (Stmt.ifThen n cond yes span).tags = n :: (cond.tags ++ yes.tags) := by
    simp [Stmt.tags, Stmt.nodes, Expr.tags]
  exact conditional (listed ▸ run.toSegment) run.inside

theorem Run.loop {n : NodeId} {cond : Expr NodeId} {body : Stmt NodeId} {span : Span}
    (run : (Stmt.loop n cond body span).Run F kept id a) :
    F.scopeIds.get? n = some a.scopes.size ∧ cond.Run F kept a.scopes.size (a.entered id n) ∧
      body.Run F kept a.scopes.size
        ((cond.annotate a.scopes.size (a.entered id n)).2.pop a.scopes.size 1) := by
  have listed : (Stmt.loop n cond body span).tags = n :: (cond.tags ++ body.tags) := by
    simp [Stmt.tags, Stmt.nodes, Expr.tags]
  exact conditional (listed ▸ run.toSegment) run.inside

theorem Run.ifElse {n m : NodeId} {cond : Expr NodeId} {yes no : Stmt NodeId} {span : Span}
    (run : (Stmt.ifElse n cond yes m no span).Run F kept id a) :
    (Stmt.ifThen n cond yes span).Run F kept id a ∧
      id < ((Stmt.ifThen n cond yes span).annotate id a).scopes.size ∧
      F.scopeIds.get? m = some ((Stmt.ifThen n cond yes span).annotate id a).scopes.size ∧
      no.Run F ((Stmt.ifThen n cond yes span).tags ++ kept)
        ((Stmt.ifThen n cond yes span).annotate id a).scopes.size
        (((Stmt.ifThen n cond yes span).annotate id a).entered id m) := by
  have listed : (Stmt.ifElse n cond yes m no span).tags =
      (Stmt.ifThen n cond yes span).tags ++ m :: no.tags := by
    simp [Stmt.tags, Stmt.nodes]
  have before := (Stmt.ifThen n cond yes span).annotateWalks id a run.inside
  have still := Nat.lt_of_lt_of_le run.inside before.size
  have third := no.annotateWalks _ _
    (((Stmt.ifThen n cond yes span).annotate id a).enteredIn id m)
  have after : ((Stmt.ifThen n cond yes span).annotate id a).Walks id [] (m :: no.tags)
      ((Stmt.ifElse n cond yes m no span).annotate id a) := by
    refine Walks.mono (Analysis.inScopeWalks _ (fun inner a => no.annotate inner a) still third)
      (by simp) (by simp)
  have parts := (listed ▸ run.toSegment).split before after run.inside (List.Subset.refl _)
    (by simp)
  obtain ⟨bound, noRun⟩ := parts.2.scope (fun inner a => no.annotate inner a) still third
    (List.Subset.refl _)
  exact ⟨⟨parts.1, run.inside⟩, still, bound, noRun, Analysis.enteredIn _ id m⟩

end Stmt

namespace Method

structure Run (F : Analysis) (kept : List NodeId) (m : Method NodeId) (a : Analysis) : Prop
    extends Analysis.Segment F kept m.tags a (m.annotate a) where
  rooted : ScopeTree.root < a.scopes.size

structure RunAll (F : Analysis) (kept : List NodeId) (ms : List (Method NodeId)) (a : Analysis) :
    Prop extends Analysis.Segment F kept (ms.flatMap Method.tags) a (Method.annotateAll ms a) where
  rooted : ScopeTree.root < a.scopes.size

variable {F a : Analysis} {kept : List NodeId}

theorem RunAll.cons {m : Method NodeId} {rest : List (Method NodeId)}
    (run : RunAll F kept (m :: rest) a) :
    m.Run F kept a ∧ RunAll F (m.tags ++ kept) rest (m.annotate a) := by
  have first := m.annotateWalks a run.rooted
  have rooted := Nat.lt_of_lt_of_le run.rooted first.size
  have others := Method.annotateAllWalks rest (m.annotate a) rooted
  have segment : Analysis.Segment F kept (m.tags ++ rest.flatMap Method.tags) a
      (Method.annotateAll rest (m.annotate a)) := run.toSegment
  have parts := segment.split first others run.rooted (List.Subset.refl _) (by simp)
  exact ⟨⟨parts.1, run.rooted⟩, parts.2, rooted⟩

def opened (a : Analysis) (m : Method NodeId) : Analysis :=
  Param.annotateAll a.scopes.size m.params (a.entered ScopeTree.root m.tag)

theorem Run.body {m : Method NodeId} (run : m.Run F kept a) :
    F.scopeIds.get? m.tag = some a.scopes.size ∧
      a.scopes.size < (opened a m).scopes.size ∧
      F.scopeIds.get? m.body.tag = some (opened a m).scopes.size ∧
      Stmt.RunAll F (m.params.map Param.tag ++ kept) (opened a m).scopes.size m.body.stmts
        ((opened a m).entered a.scopes.size m.body.tag) := by
  have params : (a.entered ScopeTree.root m.tag).Walks a.scopes.size (m.params.map Param.tag) []
      (opened a m) :=
    Param.annotateAllWalks a.scopes.size m.params (a.entered ScopeTree.root m.tag)
  have within := Nat.lt_of_lt_of_le (a.enteredIn ScopeTree.root m.tag) params.size
  have body := Stmt.annotateAllWalks m.body.stmts _ _
    ((opened a m).enteredIn a.scopes.size m.body.tag)
  have whole := (opened a m).inScopeWalks (fun inner a => Stmt.annotateAll m.body.stmts inner a)
    within body
  have bodyTags : m.body.tag :: (Stmt.tagsAll m.body.stmts ++ Stmt.tagsAll m.body.stmts) ⊆
      m.body.tag :: Stmt.tagsAll m.body.stmts := by
    intro k member
    simp only [List.mem_append, List.mem_cons] at member ⊢
    grind
  obtain ⟨outer, inner⟩ := (m.tagsEq ▸ run.toSegment).scope
    (fun inner a => m.body.annotate inner (Param.annotateAll inner m.params a)) run.rooted
    (params.trans (whole.mono (List.Subset.refl _) bodyTags)) (by simp)
  have parts := inner.split params (whole.mono (List.Subset.refl _) bodyTags)
    (a.enteredIn ScopeTree.root m.tag) (by simp) (by simp)
  obtain ⟨bound, stmts⟩ := parts.2.scope (fun inner a => Stmt.annotateAll m.body.stmts inner a)
    within body (List.Subset.refl _)
  exact ⟨outer, within, bound, stmts, Analysis.enteredIn _ _ _⟩

end Method

namespace Program

def begun (p : Program NodeId) : Analysis :=
  ((({} : Analysis).declareMethods p).bindScope p.tag ScopeTree.root).mapScopes fun t =>
    t.declareVariable ScopeTree.root selfName (some .self) true p.tag

theorem begunScopes (p : Program NodeId) : p.begun.scopes =
    (({} : ScopeTree).declareVariable ScopeTree.root selfName (some .self) true p.tag) := rfl

theorem begunSymbol (p : Program NodeId) (id : Nat) (x : String) :
    p.begun.scopes.symbol? id x =
      if id = ScopeTree.root ∧ x = selfName then some (.var ⟨some .self, 0, true, p.tag⟩)
      else none := by
  rw [begunScopes]
  cases id with
  | succ k => rfl
  | zero =>
    by_cases named : x = selfName
    · subst named
      rfl
    · have other : selfName ≠ x := fun same => named same.symm
      simp only [ScopeTree.symbol?, ScopeTree.root, named, and_false, if_false]
      exact Table.getInsertOther _ _ other

theorem begunTidy (p : Program NodeId) : p.begun.Tidy where
  ordered := ScopeTree.orderedModify ScopeTree.orderedStart _ fun _ => rfl
  used id x m found := by
    rw [begunSymbol] at found
    split at found <;> simp at found
  counted id x v found := by
    rw [begunSymbol] at found
    split at found
    · rename_i here
      rw [here.1, here.2]
      exact Nat.zero_lt_one
    · contradiction

theorem runs (p : Program NodeId) (unique : p.tags.Nodup) :
    Method.RunAll (Method.annotateAll p.methods p.begun) [p.tag] p.methods p.begun where
  toSegment := by
    have listed : p.tags = p.tag :: p.methods.flatMap Method.tags := by
      simp only [Program.tags, Program.nodes, List.map_cons, List.map_flatMap]
      rfl
    rw [listed, List.nodup_cons] at unique
    refine ⟨unique.2, ?_, fun n member => rfl, p.begunTidy, .refl _ _, fun _ _ _ => rfl⟩
    intro n member here
    obtain rfl := List.mem_singleton.mp here
    exact unique.1 member
  rooted := Nat.zero_lt_one

end Program
end ClassCompiler
