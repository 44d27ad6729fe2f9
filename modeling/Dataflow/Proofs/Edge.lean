import Dataflow.Proofs.Pass

/-!
# Edges

The edges that leave a block, and what a pass over the block sends along each of them, if anything
(`Pass.sent`). Together they are the sendings of the pass (`mem_carried_all_iff`); whether an edge
carries a state is up to the flow rules alone (`isSome_sent`).
-/

namespace Dataflow

inductive Edge
  | normal
  | branch (branch : Branch)
  | handler (exception : ExceptionType)
  deriving DecidableEq

def BlockShape.edges : BlockShape → List (Edge × BlockId)
  | .entry next | .regular _ next => [(.normal, next)]
  | .exit | .exceptionalExit => []
  | .conditional _ thenEdge elseEdge =>
    [(.branch .thenBranch, thenEdge.target), (.branch .elseBranch, elseEdge.target)]
  | .exceptional _ next handlers =>
    (.normal, next) :: handlers.entries.map fun (e, target) => (.handler e, target)

/-- The flow rule of an edge; only the branches of a conditional block have one. -/
def BlockShape.rule? : BlockShape → Branch → Option FlowRule
  | .conditional _ thenEdge _, .thenBranch => some thenEdge.rule
  | .conditional _ _ elseEdge, .elseBranch => some elseEdge.rule
  | _, _ => none

def BlockShape.carries (shape : BlockShape) : Edge → Bool
  | .branch branch => (shape.rule? branch).any (·.carries branch)
  | _ => true

theorem BlockShape.target_mem_targets {shape : BlockShape} {e : Edge} {target : BlockId}
    (h : (e, target) ∈ shape.edges) : target ∈ shape.targets := by
  cases shape with
  | exceptional nodes next handlers =>
    simp only [edges, List.mem_cons, Prod.mk.injEq, List.mem_map] at h
    rcases h with ⟨-, rfl⟩ | ⟨⟨e', target'⟩, hmem, -, rfl⟩
    · exact List.mem_cons_self
    · exact List.mem_cons_of_mem _ (List.mem_map.2 ⟨_, hmem, rfl⟩)
  | _ => grind [edges, targets]

theorem BlockShape.kind_of_handler_mem_edges {shape : BlockShape} {e : ExceptionType}
    {target : BlockId} (h : (.handler e, target) ∈ shape.edges) : shape.kind = .exceptional := by
  cases shape <;> simp_all [edges, kind]

theorem BlockShape.eq_conditional_of_branch_mem_edges {shape : BlockShape} {branch : Branch}
    {target : BlockId} (h : (.branch branch, target) ∈ shape.edges) :
    ∃ condition thenEdge elseEdge, shape = .conditional condition thenEdge elseEdge := by
  cases shape <;> simp_all [edges]

variable {V S : Type} [DecidableEq S] [AbstractDomain S]

/-- What travels along an edge, if anything, is the state of one outcome or the join of both. -/
theorem FlowRule.select_cases (rule : FlowRule) (branch : Branch) :
    (∀ t e : S, rule.select branch t e = none) ∨ (∀ t e : S, rule.select branch t e = some t) ∨
      (∀ t e : S, rule.select branch t e = some e) ∨
      ∀ t e : S, rule.select branch t e = some (join t e) := by
  cases rule <;> cases branch <;> simp [select]

theorem FlowRule.isSome_select (rule : FlowRule) (branch : Branch) (thenState elseState : S) :
    (rule.select branch thenState elseState).isSome = rule.carries branch := by
  cases rule <;> cases branch <;> rfl

/-- The state that a pass over a block sends along an edge. -/
def Pass.sent (shape : BlockShape) (entry : S) (visits : List (NodeVisit V S)) : Edge → Option S
  | .normal => some (finalState entry visits)
  | .branch branch => (shape.rule? branch).bind fun rule =>
    rule.select branch (branches entry visits).1 (branches entry visits).2
  | .handler e => some (thrownState entry visits e)

def Sending.carried? : Sending S → Option (BlockId × S)
  | .normal target state | .thrown _ target state => some (target, state)
  | .withheld .. => none

namespace Pass

theorem isSome_sent (shape : BlockShape) (entry : S) (visits : List (NodeVisit V S)) (e : Edge) :
    (sent shape entry visits e).isSome = shape.carries e := by
  cases e with
  | normal => rfl
  | handler e => rfl
  | branch branch =>
    simp only [sent, BlockShape.carries]
    cases shape.rule? branch with
    | none => rfl
    | some rule => simp [FlowRule.isSome_select]

theorem sent_congr {visits visits' : List (NodeVisit V S)}
    (h : visits.map NodeVisit.outcome = visits'.map NodeVisit.outcome) (shape : BlockShape)
    (entry : S) (e : Edge) : sent shape entry visits e = sent shape entry visits' e := by
  have hcompletion := map_completion_congr h
  cases e with
  | normal => simp only [sent, finalState_eq, hcompletion]
  | branch branch => simp only [sent, branches_eq, hcompletion]
  | handler e => simp only [sent, thrownState_congr h]

end Pass

theorem Sending.carried?_ofBranch (branch : Branch) (edge : BranchEdge) (t e : S) :
    (ofBranch branch edge t e).carried? = (edge.rule.select branch t e).map (edge.target, ·) := by
  unfold ofBranch
  cases edge.rule.select branch t e <;> rfl

theorem Sending.filterMap_carried?_all (shape : BlockShape) (entry : S)
    (visits : List (NodeVisit V S)) :
    (all shape entry visits).filterMap carried? =
      shape.edges.filterMap fun (e, target) =>
        (Pass.sent shape entry visits e).map (target, ·) := by
  cases shape with
  | entry next => rfl
  | exit => rfl
  | exceptionalExit => rfl
  | regular nodes next => rfl
  | conditional condition thenEdge elseEdge =>
    simp only [all, BlockShape.edges, Pass.sent, BlockShape.rule?, List.filterMap_cons,
      List.filterMap_nil, carried?_ofBranch, Option.bind_some]
  | exceptional nodes next handlers =>
    simp only [all, BlockShape.edges, List.filterMap_cons, carried?, Pass.sent, Option.map_some,
      List.filterMap_map]
    rfl

theorem Sending.mem_carried_all_iff {shape : BlockShape} {entry : S} {visits : List (NodeVisit V S)}
    {target : BlockId} {state : S} :
    (∃ sending ∈ all shape entry visits, sending.carried? = some (target, state)) ↔
      ∃ e, (e, target) ∈ shape.edges ∧ Pass.sent shape entry visits e = some state := by
  rw [← List.mem_filterMap, filterMap_carried?_all, List.mem_filterMap]
  constructor
  · rintro ⟨⟨e, target'⟩, hmem, hsent⟩
    simp only [Option.map_eq_some_iff, Prod.mk.injEq] at hsent
    obtain ⟨state', hstate, rfl, rfl⟩ := hsent
    exact ⟨e, hmem, hstate⟩
  · rintro ⟨e, hmem, hsent⟩
    exact ⟨(e, target), hmem, by simp [hsent]⟩

end Dataflow
