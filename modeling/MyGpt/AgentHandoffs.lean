import MyGpt.AgentLifecycle
import Mathlib.Data.List.Induction
/-!
# AgentHandoffs — agents and edges along every run of the emitter

A retried agent runs without a look at its edges, a failed one leaves edges that a later completion does not take back, and
a failure asks for no status at all.  Where no call comes so, the lifecycle holds in every run (`lifecycle_kept_iff`).
-/
namespace MyGpt
namespace Lifecycle

def CompletedBefore (graph : AgentGraph) (calls : List (Clock × Call)) (agentId : String) : Prop :=
  ∃ pre, pre <+: calls ∧ (run graph pre).graph.statusOf agentId = some .completed

structure LifecycleKept (graph : AgentGraph) (calls : List (Clock × Call)) : Prop where
  cancelled : ∀ pre c, pre ++ [c] <+: calls → ∀ agentId, (run graph pre).graph.statusOf agentId = some .cancelled →
    (run graph (pre ++ [c])).graph.statusOf agentId = some .cancelled
  completed : ∀ pre, pre <+: calls → ∀ agentId, CompletedBefore graph pre agentId →
    (run graph pre).graph.statusOf agentId ≠ some .running
  running : ∀ pre, pre <+: calls → ∀ agentId, (run graph pre).graph.statusOf agentId = some .running →
    Joined (run graph pre).graph agentId
  handedOff : ∀ pre, pre <+: calls → ∀ agentId, (run graph pre).graph.statusOf agentId = some .completed →
    HandedOff (run graph pre).graph agentId

/-- A call that comes as the lifecycle needs it: no failure of a cancelled agent, no retry of one that has been completed or
that still waits for an edge, and no late completion of one with a failed edge. -/
structure InOrder (graph : AgentGraph) (pre : List (Clock × Call)) (c : Call) : Prop where
  failed : ∀ agentId error, c = .agentFailed agentId error →
    (run graph pre).graph.statusOf agentId ≠ some .cancelled
  retrying : ∀ agentId attempt error st, c = .agentRetrying agentId attempt error →
    (run graph pre).graph.statusOf agentId = some st → st ≠ .cancelled →
    ¬ CompletedBefore graph pre agentId ∧ Joined (run graph pre).graph agentId
  completed : ∀ agentId outputSummary usage costUsd st, c = .agentCompleted agentId outputSummary usage costUsd →
    (run graph pre).graph.statusOf agentId = some st → st ≠ .completed ∧ st ≠ .cancelled →
    ∀ e ∈ (run graph pre).graph.edges, e.source = agentId → e.status = .pending ∨ e.status = .completed

section
variable {graph : AgentGraph} {pre calls : List (Clock × Call)} {c : Clock × Call} {agentId : String}

theorem run_snoc (graph : AgentGraph) (pre : List (Clock × Call)) (c : Clock × Call) :
    run graph (pre ++ [c]) = call (run graph pre) c.1 c.2 := by
  unfold run
  rw [List.foldl_append]
  rfl

theorem snoc_effect (graph : AgentGraph) (pre : List (Clock × Call)) (c : Clock × Call) :
    Effect (run graph pre) (run graph (pre ++ [c])) c.2 := by
  rw [run_snoc]
  exact call_effect (run graph pre) c.1 c.2

theorem CompletedBefore.snoc (h : CompletedBefore graph pre agentId) : CompletedBefore graph (pre ++ [c]) agentId :=
  h.imp (fun _ hpre => ⟨hpre.1.trans (List.prefix_append pre [c]), hpre.2⟩)

theorem completedBefore_snoc (h : CompletedBefore graph (pre ++ [c]) agentId) :
    CompletedBefore graph pre agentId ∨ (run graph (pre ++ [c])).graph.statusOf agentId = some .completed := by
  obtain ⟨pre', hpre', hst⟩ := h
  rcases List.prefix_concat_iff.1 hpre' with rfl | hbefore
  · exact .inr hst
  · exact .inl ⟨pre', hbefore, hst⟩

theorem Effect.turn {s s' : Emitter} {c : Call} (h : Effect s s' c) {agentId : String} {st' : AgentNodeStatus}
    (hst' : s'.graph.statusOf agentId = some st') :
    ∃ st, s.graph.statusOf agentId = some st ∧ Turn s s' c agentId st st' := by
  rcases h.agents agentId with ⟨-, hnone⟩ | ⟨st, st'', hst, hst'', hturn⟩
  · rw [hnone] at hst'
    cases hst'
  · rw [hst'] at hst''
    cases hst''
    exact ⟨st, hst, hturn⟩

theorem joined_map {g g' : AgentGraph} {f : AgentGraphEdge → AgentGraphEdge} (hf : EdgeKept f)
    (hedges : g'.edges = g.edges.map f) (h : Joined g agentId) : Joined g' agentId := by
  intro e he htarget
  rw [hedges] at he
  obtain ⟨before, hbefore, rfl⟩ := List.mem_map.1 he
  obtain ⟨-, hend, hdone⟩ := hf before
  exact hdone (h before hbefore (hend ▸ htarget))

theorem handedOff_map {g g' : AgentGraph} {f : AgentGraphEdge → AgentGraphEdge} (hf : EdgeKept f)
    (hedges : g'.edges = g.edges.map f) (h : HandedOff g agentId) : HandedOff g' agentId := by
  intro e he hsource
  rw [hedges] at he
  obtain ⟨before, hbefore, rfl⟩ := List.mem_map.1 he
  obtain ⟨hend, -, hdone⟩ := hf before
  exact hdone (h before hbefore (hend ▸ hsource))

/-! ## what is kept -/

structure Kept (graph : AgentGraph) (pre : List (Clock × Call)) : Prop where
  completed : ∀ agentId, CompletedBefore graph pre agentId →
    ∃ st, (run graph pre).graph.statusOf agentId = some st ∧ st.terminal = true
  running : ∀ agentId, (run graph pre).graph.statusOf agentId = some .running → Joined (run graph pre).graph agentId
  handedOff : ∀ agentId, (run graph pre).graph.statusOf agentId = some .completed →
    HandedOff (run graph pre).graph agentId

theorem fresh_statusOf (graph : AgentGraph) (agentId : String) {st : AgentNodeStatus}
    (h : (fresh graph).graph.statusOf agentId = some st) : st = .pending := by
  obtain ⟨node, hnode, rfl⟩ := statusOf_eq_some h
  obtain ⟨before, -, rfl⟩ := List.mem_map.1 (List.mem_of_find?_eq_some hnode)
  rfl

theorem kept_start (graph : AgentGraph) : Kept graph [] := by
  constructor
  case completed =>
    rintro agentId ⟨pre, hpre, hst⟩
    obtain rfl := List.prefix_nil.1 hpre
    cases fresh_statusOf graph agentId hst
  case running =>
    intro agentId hst
    cases fresh_statusOf graph agentId hst
  case handedOff =>
    intro agentId hst
    cases fresh_statusOf graph agentId hst

theorem cancelled_step (h : InOrder graph pre c.2) (hst : (run graph pre).graph.statusOf agentId = some .cancelled) :
    (run graph (pre ++ [c])).graph.statusOf agentId = some .cancelled := by
  rcases (snoc_effect graph pre c).agents agentId with ⟨hnone, -⟩ | ⟨st, st', hbefore, hafter, hturn⟩
  · rw [hnone] at hst
    cases hst
  · rw [hst] at hbefore
    cases hbefore
    rw [hafter]
    cases hturn with
    | stay => rfl
    | cancel => rfl
    | start hopen => cases hopen
    | wait hopen => cases hopen
    | complete called hopen => exact absurd rfl hopen.2
    | fail called => exact absurd hst (h.failed agentId _ called)
    | retry called hopen => exact absurd rfl hopen

theorem completed_step (hk : Kept graph pre) (h : InOrder graph pre c.2)
    (hbefore : CompletedBefore graph (pre ++ [c]) agentId) :
    ∃ st, (run graph (pre ++ [c])).graph.statusOf agentId = some st ∧ st.terminal = true := by
  rcases completedBefore_snoc hbefore with hold | hnow
  · obtain ⟨st, hst, hterm⟩ := hk.completed agentId hold
    rcases (snoc_effect graph pre c).agents agentId with ⟨hnone, -⟩ | ⟨st₁, st', hst₁, hafter, hturn⟩
    · rw [hnone] at hst
      cases hst
    · rw [hst] at hst₁
      obtain rfl := Option.some.inj hst₁
      refine ⟨st', hafter, ?_⟩
      cases hturn with
      | stay => exact hterm
      | cancel => rfl
      | complete => rfl
      | fail => rfl
      | start hopen | wait hopen =>
        rw [hterm] at hopen
        cases hopen
      | retry called hopen => exact absurd hold (h.retrying agentId _ _ st called hst hopen).1
  · exact ⟨.completed, hnow, rfl⟩

theorem running_step (hk : Kept graph pre) (h : InOrder graph pre c.2)
    (hst : (run graph (pre ++ [c])).graph.statusOf agentId = some .running) :
    Joined (run graph (pre ++ [c])).graph agentId := by
  have heffect := snoc_effect graph pre c
  obtain ⟨st, hbefore, hturn⟩ := heffect.turn hst
  obtain ⟨f, hf, hedges⟩ := heffect.edges
  generalize hnow : AgentNodeStatus.running = now at hturn
  cases hturn with
  | stay =>
    rw [← hnow] at hbefore
    exact joined_map hf hedges (hk.running agentId hbefore)
  | start hopen hjoined => exact hjoined
  | retry called hopen hsame =>
    exact joined_map edgeKept_id (hsame.trans (List.map_id _).symm) (h.retrying agentId _ _ st called hbefore hopen).2
  | _ => cases hnow

theorem handedOff_step (hk : Kept graph pre) (h : InOrder graph pre c.2)
    (hst : (run graph (pre ++ [c])).graph.statusOf agentId = some .completed) :
    HandedOff (run graph (pre ++ [c])).graph agentId := by
  have heffect := snoc_effect graph pre c
  obtain ⟨st, hbefore, hturn⟩ := heffect.turn hst
  obtain ⟨f, hf, hedges⟩ := heffect.edges
  generalize hnow : AgentNodeStatus.completed = now at hturn
  cases hturn with
  | stay =>
    rw [← hnow] at hbefore
    exact handedOff_map hf hedges (hk.handedOff agentId hbefore)
  | complete called hopen hmapped =>
    intro e he hsource
    rw [hmapped] at he
    obtain ⟨old, hold, rfl⟩ := List.mem_map.1 he
    have hend : old.source = agentId := (edgeKept_handOff agentId old).1 ▸ hsource
    rcases h.completed agentId _ _ _ st called hbefore hopen old hold hend with hpending | hdone
    · unfold handOff
      rw [if_pos ⟨hend, hpending⟩]
    · exact (edgeKept_handOff agentId old).2.2 hdone
  | _ => cases hnow

theorem kept_run (h : ∀ pre c, pre ++ [c] <+: calls → InOrder graph pre c.2) :
    ∀ pre, pre <+: calls → Kept graph pre := by
  intro pre
  induction pre using List.reverseRecOn with
  | nil => exact fun _ => kept_start graph
  | append_singleton pre c ih =>
    intro hpre
    have hk := ih ((List.prefix_append pre [c]).trans hpre)
    have horder := h pre c hpre
    exact ⟨fun _ => completed_step hk horder, fun _ => running_step hk horder, fun _ => handedOff_step hk horder⟩

/-! ## the exact condition -/

theorem inOrder_of_kept (h : LifecycleKept graph calls) (hpre : pre ++ [c] <+: calls) : InOrder graph pre c.2 := by
  obtain ⟨clock, c⟩ := c
  constructor
  case failed =>
    rintro agentId error rfl hst
    obtain ⟨node, hnode, -⟩ := statusOf_eq_some hst
    have hkept := h.cancelled pre _ hpre agentId hst
    rw [run_snoc] at hkept
    cases hkept.symm.trans (failed_statusOf clock hnode error)
  case retrying =>
    rintro agentId attempt error st rfl hst hopen
    obtain ⟨node, hnode, rfl⟩ := statusOf_eq_some hst
    obtain ⟨hset, hedges⟩ := retrying_sets hnode hopen attempt error
    have hrunning : (run graph (pre ++ [(clock, .agentRetrying agentId attempt error)])).graph.statusOf agentId =
        some .running := by
      rw [run_snoc]
      exact (hset agentId).trans (if_pos rfl)
    refine ⟨fun hbefore => h.completed _ hpre agentId hbefore.snoc hrunning, fun e he htarget => ?_⟩
    refine h.running _ hpre agentId hrunning e ?_ htarget
    rw [run_snoc]
    exact hedges.symm ▸ he
  case completed =>
    rintro agentId outputSummary usage costUsd st rfl hst hopen e he hsource
    obtain ⟨node, hnode, rfl⟩ := statusOf_eq_some hst
    obtain ⟨hset, hedges⟩ := completed_sets clock hnode hopen outputSummary usage costUsd
    have hcompleted : (run graph (pre ++ [(clock, .agentCompleted agentId outputSummary usage costUsd)])).graph.statusOf
        agentId = some .completed := by
      rw [run_snoc]
      exact (hset agentId).trans (if_pos rfl)
    have hdone : (handOff agentId e).status = .completed := by
      refine h.handedOff _ hpre agentId hcompleted (handOff agentId e) ?_ ((edgeKept_handOff agentId e).1.trans hsource)
      rw [run_snoc]
      show handOff agentId e ∈ (emitAgentCompleted clock _ agentId outputSummary usage costUsd).graph.edges
      rw [hedges]
      exact List.mem_map_of_mem he
    by_cases hpending : e.status = .pending
    · exact .inl hpending
    · unfold handOff at hdone
      rw [if_neg (fun hand => hpending hand.2)] at hdone
      exact .inr hdone

end

/-- **The lifecycle holds along a run exactly when every call of it comes in order.** -/
theorem lifecycle_kept_iff (graph : AgentGraph) (calls : List (Clock × Call)) :
    LifecycleKept graph calls ↔ ∀ pre c, pre ++ [c] <+: calls → InOrder graph pre c.2 := by
  constructor
  · exact fun h pre c hpre => inOrder_of_kept h hpre
  · intro h
    constructor
    case cancelled => exact fun pre c hpre agentId => cancelled_step (h pre c hpre)
    case completed =>
      intro pre hpre agentId hbefore hrunning
      obtain ⟨st, hst, hterm⟩ := (kept_run h pre hpre).completed agentId hbefore
      rw [hrunning] at hst
      cases hst
      cases hterm
    case running => exact fun pre hpre => (kept_run h pre hpre).running
    case handedOff => exact fun pre hpre => (kept_run h pre hpre).handedOff

def twoAgents : AgentGraph where
  nodes := [{ id := "a", name := "A" }, { id := "b", name := "B" }]
  edges := [{ id := "a-b", source := "a", target := "b" }]

/-- A retried agent that succeeds leaves the edge its failure failed, and a failure takes a cancelled agent out of it. -/
theorem retried_agent_keeps_failed_edge :
    let now : Clock := { iso := "t", monotonic := 0 }
    let calls := [(now, .agentStarted "a" none), (now, .agentFailed "a" "timeout"), (now, .agentRetrying "a" 2 "timeout"),
      (now, .agentCompleted "a" none none none)]
    let s := run twoAgents calls
    let s' := run twoAgents [(now, .agentCancelled "a"), (now, .agentFailed "a" "late")]
    ((s.graph.statusOf "a" = some .completed ∧ s.graph.edges.map (·.status) = [.failed]) ∧
      s'.graph.statusOf "a" = some .failed) ∧
    ¬ ∀ graph calls, LifecycleKept graph calls := by
  intro now calls s s'
  have hst : s.graph.statusOf "a" = some .completed := by decide +kernel
  have hfailed : s.graph.edges.map (·.status) = [.failed] := by decide +kernel
  have hlate : s'.graph.statusOf "a" = some .failed := by decide +kernel
  have hedges : s.graph.edges = [{ id := "a-b", source := "a", target := "b", status := .failed }] := rfl
  refine ⟨⟨⟨hst, hfailed⟩, hlate⟩, fun h => ?_⟩
  have hdone := (h twoAgents calls).handedOff calls (List.prefix_refl _) "a" hst
    { id := "a-b", source := "a", target := "b", status := .failed } (hedges ▸ List.mem_cons_self) rfl
  cases hdone

end Lifecycle
end MyGpt
