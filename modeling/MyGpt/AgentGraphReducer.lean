import MyGpt.Json
import Mathlib.Data.List.Induction
import Mathlib.Data.List.Forall2
/-!
# AgentGraphReducer — the agent graph of a run in the client

`agent-graph-reducer.ts` and the transition guard of `agent-graph-types.ts`.  A node moves through the guard; the status
of the run has a guard of its own, which a request for approval goes round (`never_regresses_iff`).
-/
namespace MyGpt
namespace Client
namespace AgentGraph

inductive AgentNodeStatus
  | pending | queued | running | waiting | completed | failed | cancelled
  deriving DecidableEq

inductive AgentEdgeStatus
  | pending | active | completed | failed
  deriving DecidableEq

inductive GraphRunStatus
  | pending | running | waitingApproval | completed | failed | cancelled
  deriving DecidableEq

inductive ToolStatus
  | running | completed | failed | waitingApproval
  deriving DecidableEq

structure AgentToolActivity where
  callId : String
  name : String
  title : Option String
  status : ToolStatus

structure AgentGraphNode where
  id : String
  name : String
  role : String
  status : AgentNodeStatus
  stage : Int
  taskTitle : Option String := none
  startedAt : Option String := none
  finishedAt : Option String := none
  durationMs : Option Json := none
  currentTool : Option AgentToolActivity := none
  outputSummary : Option String := none
  outputFull : Option String := none
  outputTruncated : Option Bool := none
  usage : Option Json := none
  costUsd : Option Json := none
  retrying : Option Json := none
  progressNote : Option String := none
  error : Option String := none

structure AgentGraphEdge where
  id : String
  source : String
  target : String
  status : AgentEdgeStatus
  label : Option String := none

structure RuntimeSelection where
  requestedRuntime : String
  effectiveRuntime : String
  agentProfile : String
  multiAgentRequested : Bool
  multiAgentExecuted : Bool
  fallbackReason : Option String
  isDemo : Bool
  requestedMode : Option String := none
  effectiveMode : Option String := none

structure AgentGraphState where
  runId : String
  runtime : String
  flowName : String
  mode : String
  status : GraphRunStatus
  nodes : List AgentGraphNode
  edges : List AgentGraphEdge
  activeAgentIds : List String
  selection : Option RuntimeSelection := none

/-- What an `agent_status` frame carries: a key may be absent, or there and undefined. -/
structure NodePatch where
  status : AgentNodeStatus
  taskTitle : Option (Option String) := none
  startedAt : Option (Option String) := none
  finishedAt : Option (Option String) := none
  durationMs : Option (Option Json) := none
  outputSummary : Option (Option String) := none
  error : Option (Option String) := none
  usage : Option (Option Json) := none
  costUsd : Option (Option Json) := none
  retrying : Option (Option Json) := none

/-! ## the transition guard -/

def AgentNodeStatus.rank : AgentNodeStatus → Nat
  | .pending => 0
  | .queued => 1
  | .waiting => 2
  | .running => 3
  | .failed => 4
  | .cancelled => 5
  | .completed => 6

/-- `TERMINAL_NODE_STATUSES.has`. -/
def AgentNodeStatus.terminal : AgentNodeStatus → Bool
  | .completed | .failed | .cancelled => true
  | _ => false

def canTransitionTo (source target : AgentNodeStatus) : Bool :=
  if source = .failed then target ≠ .pending && target ≠ .queued
  else if source.terminal then false
  else if target = .waiting ∨ source = .waiting then true
  else source.rank ≤ target.rank

def computeActiveAgents (nodes : List AgentGraphNode) : List String :=
  (nodes.filter (fun n => n.status = .running)).map (·.id)

/-! ## the reducer -/

inductive AgentGraphAction
  | graphInitialized (runId : String) (graph : AgentGraphState)
  | runtimeSelected (runId : String) (selection : RuntimeSelection)
  | agentStatus (runId agentId : String) (patch : NodePatch)
  | edgeStatus (runId edgeId : String) (status : AgentEdgeStatus) (label : Option String)
  | runStatus (runId : String) (status : GraphRunStatus)
  | toolStarted (runId agentId callId name : String) (title : Option String)
  | toolCompleted (runId agentId callId : String) (ok : Bool)
  | approvalRequired (runId : String) (agentId : Option String)
  | stepOutput (runId agentId text : String) (truncated : Bool)
  | stepProgress (runId agentId : String) (note : Option String)
  | resetRun (runId : String)
  | runRestored (runId : String) (graph : AgentGraphState)

def AgentGraphAction.runId : AgentGraphAction → String
  | .graphInitialized runId _ | .runtimeSelected runId _ | .agentStatus runId _ _ | .edgeStatus runId _ _ _
  | .runStatus runId _ | .toolStarted runId _ _ _ _ | .toolCompleted runId _ _ _ | .approvalRequired runId _
  | .stepOutput runId _ _ _ | .stepProgress runId _ _ | .resetRun runId | .runRestored runId _ => runId

def emptyGraph : AgentGraphState where
  runId := ""
  runtime := "crewai"
  flowName := ""
  mode := "sequential"
  status := .pending
  nodes := []
  edges := []
  activeAgentIds := []

def finalize (s : AgentGraphState) : AgentGraphState := { s with activeAgentIds := computeActiveAgents s.nodes }

def AgentGraphNode.setStatus (n : AgentGraphNode) (status : AgentNodeStatus) : AgentGraphNode := { n with status := status }

def mergeNonStatus (n : AgentGraphNode) (patch : NodePatch) : AgentGraphNode :=
  { n with
    taskTitle := patch.taskTitle.getD n.taskTitle
    startedAt := patch.startedAt.getD n.startedAt
    finishedAt := patch.finishedAt.getD n.finishedAt
    durationMs := patch.durationMs.getD n.durationMs
    outputSummary := patch.outputSummary.getD n.outputSummary
    error := patch.error.getD n.error
    usage := patch.usage.getD n.usage
    costUsd := patch.costUsd.getD n.costUsd
    retrying := patch.retrying.getD n.retrying }

def AgentGraphAction.onNode : AgentGraphAction → AgentGraphNode → AgentGraphNode
  | .stepOutput _ agentId text truncated, n =>
    if n.id = agentId then { n with outputFull := some text, outputTruncated := some truncated } else n
  | .stepProgress _ agentId note, n => if n.id = agentId then { n with progressNote := note } else n
  | .agentStatus _ agentId patch, n =>
    if n.id ≠ agentId then n
    else if !canTransitionTo n.status patch.status then mergeNonStatus n patch
    else (mergeNonStatus n patch).setStatus patch.status
  | .toolStarted _ agentId callId name title, n =>
    if n.id = agentId then
      { n with currentTool := some { callId := callId, name := name, title := title, status := .running } }
    else n
  | .toolCompleted _ agentId callId ok, n =>
    match n.currentTool with
    | some tool =>
      if n.id ≠ agentId ∨ tool.callId ≠ callId then n
      else { n with currentTool := some { tool with status := if ok then .completed else .failed } }
    | none => n
  | .approvalRequired _ agentId, n =>
    match agentId with
    | some agentId =>
      if agentId ≠ "" ∧ n.id = agentId ∧ canTransitionTo n.status .waiting then n.setStatus .waiting else n
    | none => n
  | _, n => n

def onEdge (edgeId : String) (status : AgentEdgeStatus) (label : Option String) (e : AgentGraphEdge) : AgentGraphEdge :=
  if e.id = edgeId then
    { e with status := status, label := if label = none ∨ label = some "" then e.label else label }
  else e

def GraphRunStatus.terminal : GraphRunStatus → Bool
  | .completed | .failed | .cancelled => true
  | _ => false

def AgentGraphState.ignores (s : AgentGraphState) (a : AgentGraphAction) : Prop :=
  a.runId ≠ "" ∧ s.runId ≠ "" ∧ a.runId ≠ s.runId

instance decidableIgnores (s : AgentGraphState) (a : AgentGraphAction) : Decidable (s.ignores a) := inferInstanceAs (Decidable (_ ∧ _))

def AgentGraphState.apply (s : AgentGraphState) (a : AgentGraphAction) : AgentGraphState :=
  match a with
  | .graphInitialized _ graph | .runRestored _ graph => finalize graph
  | .resetRun _ => emptyGraph
  | .runtimeSelected _ selection => finalize { s with selection := some selection }
  | .edgeStatus _ edgeId status label => finalize { s with edges := s.edges.map (onEdge edgeId status label) }
  | .runStatus _ status => finalize { s with status := if s.status.terminal then s.status else status }
  | .approvalRequired _ _ => finalize { s with nodes := s.nodes.map a.onNode, status := .waitingApproval }
  | .stepOutput _ _ _ _ | .stepProgress _ _ _ | .agentStatus _ _ _ | .toolStarted _ _ _ _ _ | .toolCompleted _ _ _ _ =>
    finalize { s with nodes := s.nodes.map a.onNode }

def reducer (s : AgentGraphState) (a : AgentGraphAction) : AgentGraphState := if s.ignores a then s else s.apply a

def run (start : AgentGraphState) (actions : List AgentGraphAction) : AgentGraphState := actions.foldl reducer start

def AgentGraphAction.explicit : AgentGraphAction → Bool
  | .resetRun _ | .runRestored _ _ => true
  | _ => false

def AgentGraphAction.replaces : AgentGraphAction → Bool
  | .graphInitialized _ _ | .resetRun _ | .runRestored _ _ => true
  | _ => false

def AgentGraphAction.statusAfter (a : AgentGraphAction) (status : GraphRunStatus) : GraphRunStatus :=
  match a with
  | .runStatus _ status' => if status.terminal then status else status'
  | .approvalRequired _ _ => .waitingApproval
  | _ => status

section
variable {s : AgentGraphState} {a : AgentGraphAction} {n : AgentGraphNode}

theorem onNode_id (a : AgentGraphAction) (n : AgentGraphNode) : (a.onNode n).id = n.id := by
  unfold AgentGraphAction.onNode
  split
  case h_3 => split_ifs <;> rfl
  case h_5 =>
    split
    · split_ifs <;> rfl
    · rfl
  case h_6 =>
    split
    · split_ifs <;> rfl
    · rfl
  all_goals first | rfl | (split_ifs <;> rfl)

theorem onNode_status (a : AgentGraphAction) (n : AgentGraphNode) : (a.onNode n).status = n.status ∨
    canTransitionTo n.status (a.onNode n).status = true ∧ ((a.onNode n).status = .waiting ∨
      ∃ runId patch, a = .agentStatus runId n.id patch ∧ (a.onNode n).status = patch.status) := by
  unfold AgentGraphAction.onNode
  split
  case h_3 runId agentId patch =>
    split_ifs with hid hcan
    · exact .inl rfl
    · exact .inl rfl
    · rw [not_not] at hid
      refine .inr ⟨?_, .inr ⟨runId, patch, by rw [hid], rfl⟩⟩
      show canTransitionTo n.status patch.status = true
      simpa using hcan
  case h_5 =>
    split
    · split_ifs <;> exact .inl rfl
    · exact .inl rfl
  case h_6 =>
    split
    · split_ifs with hwait
      · exact .inr ⟨hwait.2.2, .inl rfl⟩
      · exact .inl rfl
    · exact .inl rfl
  all_goals first | exact .inl rfl | (split_ifs <;> exact .inl rfl)

theorem source_of_queued {source target : AgentNodeStatus} (h : canTransitionTo source target = true)
    (ht : target = .pending ∨ target = .queued) : source = .waiting ∨ source = .pending ∨ source = .queued := by
  rcases ht with rfl | rfl <;> cases source <;> first | (cases h; done) | simp

@[simp] theorem setStatus_id (n : AgentGraphNode) (status : AgentNodeStatus) : (n.setStatus status).id = n.id := rfl

@[simp] theorem setStatus_status (n : AgentGraphNode) (status : AgentNodeStatus) :
    (n.setStatus status).status = status := rfl

@[simp] theorem setStatus_setStatus (n : AgentGraphNode) (status : AgentNodeStatus) :
    (n.setStatus status).setStatus status = n.setStatus status := rfl

@[simp] theorem mergeNonStatus_id (n : AgentGraphNode) (patch : NodePatch) : (mergeNonStatus n patch).id = n.id := rfl

@[simp] theorem mergeNonStatus_status (n : AgentGraphNode) (patch : NodePatch) :
    (mergeNonStatus n patch).status = n.status := rfl

@[simp] theorem mergeNonStatus_setStatus (n : AgentGraphNode) (patch : NodePatch) (status : AgentNodeStatus) :
    mergeNonStatus (n.setStatus status) patch = (mergeNonStatus n patch).setStatus status := rfl

@[simp] theorem mergeNonStatus_twice (n : AgentGraphNode) (patch : NodePatch) :
    mergeNonStatus (mergeNonStatus n patch) patch = mergeNonStatus n patch := by
  have hgetD : ∀ {α : Type} (o : Option α) (d : α), o.getD (o.getD d) = o.getD d := fun o d => by cases o <;> rfl
  unfold mergeNonStatus
  simp only [hgetD]

theorem onNode_twice (a : AgentGraphAction) (n : AgentGraphNode) : a.onNode (a.onNode n) = a.onNode n := by
  cases a with
  | agentStatus runId agentId patch =>
    by_cases hid : n.id = agentId
    · by_cases hcan : canTransitionTo n.status patch.status = true
      · have hset : AgentGraphAction.onNode (.agentStatus runId agentId patch) n =
            (mergeNonStatus n patch).setStatus patch.status := by
          simp [AgentGraphAction.onNode, hid, hcan]
        rw [hset]
        simp [AgentGraphAction.onNode, hid]
      · have hmerged : AgentGraphAction.onNode (.agentStatus runId agentId patch) n = mergeNonStatus n patch := by
          simp [AgentGraphAction.onNode, hid, hcan]
        rw [hmerged]
        simp [AgentGraphAction.onNode, hid, hcan]
    · have hother : AgentGraphAction.onNode (.agentStatus runId agentId patch) n = n := if_pos hid
      rw [hother, hother]
  | toolCompleted runId agentId callId ok =>
    cases htool : n.currentTool with
    | none => simp [AgentGraphAction.onNode, htool]
    | some tool =>
      by_cases hother : n.id ≠ agentId ∨ tool.callId ≠ callId
      · have hkept : AgentGraphAction.onNode (.toolCompleted runId agentId callId ok) n = n := by
          simp only [AgentGraphAction.onNode, htool, if_pos hother]
        rw [hkept, hkept]
      · have hset : AgentGraphAction.onNode (.toolCompleted runId agentId callId ok) n =
            { n with currentTool := some { tool with status := if ok then .completed else .failed } } := by
          simp only [AgentGraphAction.onNode, htool, if_neg hother]
        rw [hset]
        simp only [AgentGraphAction.onNode, if_neg hother]
  | approvalRequired runId agentId =>
    cases agentId with
    | none => rfl
    | some agentId =>
      by_cases hwait : agentId ≠ "" ∧ n.id = agentId ∧ canTransitionTo n.status .waiting = true
      · have hset : AgentGraphAction.onNode (.approvalRequired runId (some agentId)) n = n.setStatus .waiting :=
          if_pos hwait
        rw [hset]
        simp only [AgentGraphAction.onNode, setStatus_setStatus, ite_self]
      · have hkept : AgentGraphAction.onNode (.approvalRequired runId (some agentId)) n = n := if_neg hwait
        rw [hkept, hkept]
  | stepOutput | stepProgress | toolStarted => simp only [AgentGraphAction.onNode]; split_ifs <;> rfl
  | _ => rfl

theorem onEdge_twice (edgeId : String) (status : AgentEdgeStatus) (label : Option String) (e : AgentGraphEdge) :
    onEdge edgeId status label (onEdge edgeId status label e) = onEdge edgeId status label e := by
  unfold onEdge
  by_cases hid : e.id = edgeId
  · simp only [if_pos hid]
    split_ifs <;> rfl
  · simp only [if_neg hid]

theorem map_twice {α : Type} {f : α → α} (h : ∀ x, f (f x) = f x) (l : List α) : (l.map f).map f = l.map f := by
  rw [List.map_map]
  exact List.map_congr_left (fun x _ => h x)

theorem apply_twice (s : AgentGraphState) (a : AgentGraphAction) : (s.apply a).apply a = s.apply a := by
  have hnodes := map_twice (onNode_twice a) s.nodes
  cases a with
  | edgeStatus runId edgeId status label =>
    show finalize { s with edges := (s.edges.map (onEdge edgeId status label)).map (onEdge edgeId status label) } = _
    rw [map_twice (onEdge_twice edgeId status label)]
    rfl
  | runStatus runId status =>
    show finalize { s with status := if (if s.status.terminal then s.status else status).terminal then
      (if s.status.terminal then s.status else status) else status } = _
    by_cases h : s.status.terminal = true
    · simp only [if_pos h]
      exact (congrArg (fun status => finalize { s with status := status }) (if_pos h)).symm
    · simp only [if_neg h, ite_self]
      exact (congrArg (fun status => finalize { s with status := status }) (if_neg h)).symm
  | approvalRequired runId agentId =>
    show finalize { s with nodes := (s.nodes.map _).map _, status := .waitingApproval } = _
    rw [hnodes]
    rfl
  | stepOutput | stepProgress | agentStatus | toolStarted | toolCompleted =>
    show finalize { s with nodes := (s.nodes.map _).map _ } = _
    rw [hnodes]
    rfl
  | _ => rfl

theorem reducer_of_ignores (h : s.ignores a) : reducer s a = s := if_pos h

theorem reducer_of_not_ignores (h : ¬ s.ignores a) : reducer s a = s.apply a := if_neg h

theorem reducer_twice (s : AgentGraphState) (a : AgentGraphAction) : reducer (reducer s a) a = reducer s a := by
  by_cases h : s.ignores a
  · rw [reducer_of_ignores h, reducer_of_ignores h]
  · rw [reducer_of_not_ignores h, reducer, apply_twice, ite_self]

theorem apply_nodes (s : AgentGraphState) (hgraph : a.replaces = false) : (s.apply a).nodes = s.nodes.map a.onNode := by
  cases a with
  | graphInitialized | resetRun | runRestored => cases hgraph
  | runtimeSelected | edgeStatus | runStatus => exact (List.map_id s.nodes).symm
  | _ => rfl

theorem apply_status (s : AgentGraphState) (hgraph : a.replaces = false) :
    (s.apply a).status = a.statusAfter s.status := by
  cases a with
  | graphInitialized | resetRun | runRestored => cases hgraph
  | _ => rfl

theorem reducer_active (hs : s.activeAgentIds = computeActiveAgents s.nodes) (a : AgentGraphAction) :
    (reducer s a).activeAgentIds = computeActiveAgents (reducer s a).nodes := by
  unfold reducer
  split
  · exact hs
  · cases a <;> rfl

def AgentGraphState.statusAt (s : AgentGraphState) (id : String) : Option AgentNodeStatus :=
  (s.nodes.find? (fun n => n.id = id)).map (·.status)

theorem apply_statusAt (s : AgentGraphState) (hgraph : a.replaces = false) (id : String) :
    (s.statusAt id = none ∧ (s.apply a).statusAt id = none) ∨
    ∃ n, n.id = id ∧ s.statusAt id = some n.status ∧ (s.apply a).statusAt id = some (a.onNode n).status := by
  have hsame : (fun n : AgentGraphNode => decide (n.id = id)) ∘ a.onNode = fun n => decide (n.id = id) :=
    funext (fun n => by rw [Function.comp_apply, onNode_id])
  unfold AgentGraphState.statusAt
  rw [apply_nodes s hgraph, List.find?_map, hsame]
  cases hfind : s.nodes.find? (fun n => n.id = id) with
  | none => exact .inl ⟨rfl, rfl⟩
  | some n => exact .inr ⟨n, by simpa using List.find?_some hfind, rfl, rfl⟩

end

/-! ## what a run of events keeps -/

def AgentNodeStatus.ended : AgentNodeStatus → Bool
  | .completed | .cancelled => true
  | _ => false

theorem canTransitionTo_of_ended {source target : AgentNodeStatus} (h : source.ended = true) :
    canTransitionTo source target = false := by
  cases source with
  | completed => rfl
  | cancelled => rfl
  | _ => cases h

def FailedBefore (start : AgentGraphState) (actions : List AgentGraphAction) (id : String) : Prop :=
  ∃ pre, pre <+: actions ∧ (run start pre).statusAt id = some .failed

def Kept (n n' : AgentGraphNode) : Prop :=
  n'.id = n.id ∧ (n.status.ended = true → n'.status = n.status) ∧
    (n.status = .failed → n'.status ≠ .pending ∧ n'.status ≠ .queued)

structure NeverRegresses (start : AgentGraphState) (actions : List AgentGraphAction) : Prop where
  ended : ∀ pre a, pre ++ [a] <+: actions → ∀ id st, (run start pre).statusAt id = some st → st.ended = true →
    (run start (pre ++ [a])).statusAt id = some st
  failed : ∀ pre, pre <+: actions → ∀ id, FailedBefore start pre id →
    (run start pre).statusAt id ≠ some .pending ∧ (run start pre).statusAt id ≠ some .queued
  nodes : ∀ pre a, pre ++ [a] <+: actions → a.replaces = false →
    List.Forall₂ Kept (run start pre).nodes (run start (pre ++ [a])).nodes
  status : ∀ pre a, pre ++ [a] <+: actions → (run start pre).status.terminal = true →
    (run start (pre ++ [a])).status = (run start pre).status
  active : ∀ pre, pre <+: actions → (run start pre).activeAgentIds = computeActiveAgents (run start pre).nodes
  twice : ∀ pre a, pre ++ [a] <+: actions → run start (pre ++ [a, a]) = run start (pre ++ [a])

structure Continues (start : AgentGraphState) (pre : List AgentGraphAction) (graph : AgentGraphState) : Prop where
  ended : ∀ id st, (run start pre).statusAt id = some st → st.ended = true → graph.statusAt id = some st
  failed : ∀ id, FailedBefore start pre id → graph.statusAt id ≠ some .pending ∧ graph.statusAt id ≠ some .queued
  status : (run start pre).status.terminal = true → graph.status = (run start pre).status

/-- No approval is asked for behind the end of the run, no waiting node that has failed before is sent back to pending or
queued, and a graph that comes again goes on from where the run is. -/
structure Forward (start : AgentGraphState) (pre : List AgentGraphAction) (a : AgentGraphAction) : Prop where
  approval : ∀ runId agentId, a = .approvalRequired runId agentId → (run start pre).status.terminal = false
  queued : ∀ runId id patch, a = .agentStatus runId id patch → patch.status = .pending ∨ patch.status = .queued →
    (run start pre).statusAt id = some .waiting → ¬ FailedBefore start pre id
  graph : ∀ runId graph, a = .graphInitialized runId graph → Continues start pre graph

def ForwardRun (start : AgentGraphState) (actions : List AgentGraphAction) : Prop :=
  ∀ pre a, pre ++ [a] <+: actions → ¬ (run start pre).ignores a → Forward start pre a

section
variable {start : AgentGraphState} {pre actions : List AgentGraphAction} {a : AgentGraphAction}

theorem run_snoc (start : AgentGraphState) (pre : List AgentGraphAction) (a : AgentGraphAction) :
    run start (pre ++ [a]) = reducer (run start pre) a := by
  unfold run
  rw [List.foldl_append]
  rfl

theorem FailedBefore.snoc {id : String} (h : FailedBefore start pre id) : FailedBefore start (pre ++ [a]) id :=
  h.imp (fun _ hpre => ⟨hpre.1.trans (List.prefix_append pre [a]), hpre.2⟩)

theorem onNode_of_ended {n : AgentGraphNode} (h : n.status.ended = true) (a : AgentGraphAction) :
    (a.onNode n).status = n.status := by
  rcases onNode_status a n with hsame | ⟨hcan, -⟩
  · exact hsame
  · rw [canTransitionTo_of_ended h] at hcan
    cases hcan

theorem kept_onNode (a : AgentGraphAction) (n : AgentGraphNode) : Kept n (a.onNode n) := by
  refine ⟨onNode_id a n, fun h => onNode_of_ended h a, fun hfailed => ?_⟩
  rcases onNode_status a n with hsame | ⟨hcan, -⟩
  · rw [hsame, hfailed]
    decide
  · rw [hfailed] at hcan
    constructor <;> intro hback <;> rw [hback] at hcan <;> cases hcan

theorem ended_step (hkind : a.explicit = false) (h : Forward start pre a) {id : String} {st : AgentNodeStatus}
    (hst : (run start pre).statusAt id = some st) (hend : st.ended = true) :
    ((run start pre).apply a).statusAt id = some st := by
  cases hgraph : a.replaces with
  | true =>
    cases a with
    | graphInitialized runId graph => exact (h.graph runId graph rfl).ended id st hst hend
    | resetRun runId => cases hkind
    | runRestored runId graph => cases hkind
    | _ => cases hgraph
  | false =>
    rcases apply_statusAt (run start pre) hgraph id with ⟨hnone, -⟩ | ⟨n, -, hn, hn'⟩
    · rw [hnone] at hst
      cases hst
    · rw [hst] at hn
      cases hn
      rw [hn', onNode_of_ended hend]

theorem failed_step (hkind : a.explicit = false) (h : Forward start pre a) {id : String}
    (hbefore : FailedBefore start pre id)
    (hpre : (run start pre).statusAt id ≠ some .pending ∧ (run start pre).statusAt id ≠ some .queued)
    {st : AgentNodeStatus} (hback : st = .pending ∨ st = .queued) :
    ((run start pre).apply a).statusAt id ≠ some st := by
  intro hst
  cases hgraph : a.replaces with
  | true =>
    cases a with
    | graphInitialized runId graph =>
      have hkept := (h.graph runId graph rfl).failed id hbefore
      rcases hback with rfl | rfl
      · exact hkept.1 hst
      · exact hkept.2 hst
    | resetRun runId => cases hkind
    | runRestored runId graph => cases hkind
    | _ => cases hgraph
  | false =>
    rcases apply_statusAt (run start pre) hgraph id with ⟨-, hnone⟩ | ⟨n, hid, hn, hn'⟩
    · rw [hnone] at hst
      cases hst
    · rw [hst] at hn'
      have hto := Option.some.inj hn'
      have hnot : n.status ≠ .pending ∧ n.status ≠ .queued := by
        rw [hn] at hpre
        exact ⟨fun heq => hpre.1 (congrArg some heq), fun heq => hpre.2 (congrArg some heq)⟩
      rcases onNode_status a n with hsame | ⟨hcan, hwhy⟩
      · rw [hsame] at hto
        rcases hback with rfl | rfl
        · exact hnot.1 hto.symm
        · exact hnot.2 hto.symm
      · rw [← hto] at hcan hwhy
        -- only a waiting node can be sent back, and only by an event about it
        have hwaiting : n.status = .waiting :=
          (source_of_queued hcan hback).resolve_right (fun hor => hor.elim hnot.1 hnot.2)
        rcases hwhy with rfl | ⟨runId, patch, rfl, rfl⟩
        · rcases hback with heq | heq <;> cases heq
        · rw [hwaiting] at hn
          exact h.queued runId n.id patch rfl hback (hid ▸ hn) (hid ▸ hbefore)

theorem status_step (hkind : a.explicit = false) (h : Forward start pre a)
    (hterm : (run start pre).status.terminal = true) : ((run start pre).apply a).status = (run start pre).status := by
  cases hgraph : a.replaces with
  | true =>
    cases a with
    | graphInitialized runId graph => exact (h.graph runId graph rfl).status hterm
    | resetRun runId => cases hkind
    | runRestored runId graph => cases hkind
    | _ => cases hgraph
  | false =>
    rw [apply_status _ hgraph]
    cases a with
    | approvalRequired runId agentId =>
      rw [h.approval runId agentId rfl] at hterm
      cases hterm
    | runStatus runId status => exact if_pos hterm
    | _ => rfl

theorem failed_run (hkind : ∀ a ∈ actions, a.explicit = false) (h : ForwardRun start actions) :
    ∀ pre, pre <+: actions → ∀ id, FailedBefore start pre id →
      (run start pre).statusAt id ≠ some .pending ∧ (run start pre).statusAt id ≠ some .queued := by
  intro pre
  induction pre using List.reverseRecOn with
  | nil =>
    rintro _ id ⟨pre, hpre, hfailed⟩
    obtain rfl := List.prefix_nil.1 hpre
    rw [hfailed]
    decide
  | append_singleton pre a ih =>
    rintro hpre id ⟨pre', hpre', hfailed⟩
    rcases List.prefix_concat_iff.1 hpre' with rfl | hbefore
    · rw [hfailed]
      decide
    · have hfirst : FailedBefore start pre id := ⟨pre', hbefore, hfailed⟩
      have hkept := ih ((List.prefix_append pre [a]).trans hpre) id hfirst
      rw [run_snoc]
      by_cases hig : (run start pre).ignores a
      · rw [reducer_of_ignores hig]
        exact hkept
      · rw [reducer_of_not_ignores hig]
        have hexp := hkind a (hpre.subset (List.mem_append_right pre List.mem_cons_self))
        have hforward := h pre a hpre hig
        exact ⟨failed_step hexp hforward hfirst hkept (.inl rfl), failed_step hexp hforward hfirst hkept (.inr rfl)⟩

theorem active_run (hstart : start.activeAgentIds = computeActiveAgents start.nodes) (pre : List AgentGraphAction) :
    (run start pre).activeAgentIds = computeActiveAgents (run start pre).nodes := by
  induction pre using List.reverseRecOn with
  | nil => exact hstart
  | append_singleton pre a ih =>
    rw [run_snoc]
    exact reducer_active ih a

theorem kept_run (hgraph : a.replaces = false) :
    List.Forall₂ Kept (run start pre).nodes (run start (pre ++ [a])).nodes := by
  rw [run_snoc]
  by_cases hig : (run start pre).ignores a
  · rw [reducer_of_ignores hig]
    refine List.forall₂_same.2 (fun n _ => ⟨rfl, fun _ => rfl, fun hfailed => ?_⟩)
    rw [hfailed]
    decide
  · rw [reducer_of_not_ignores hig, apply_nodes _ hgraph, List.forall₂_map_right_iff]
    exact List.forall₂_same.2 (fun n _ => kept_onNode a n)

theorem forward_of_kept (h : NeverRegresses start actions) (hpre : pre ++ [a] <+: actions)
    (hig : ¬ (run start pre).ignores a) : Forward start pre a := by
  have hrun : run start (pre ++ [a]) = (run start pre).apply a := (run_snoc start pre a).trans (reducer_of_not_ignores hig)
  constructor
  case approval =>
    rintro runId agentId rfl
    refine Bool.not_eq_true _ ▸ fun hterm => ?_
    have hstatus := h.status pre _ hpre hterm
    rw [hrun] at hstatus
    rw [← hstatus] at hterm
    cases hterm
  case queued =>
    rintro runId id patch rfl hpatch hwaiting hbefore
    have hback := h.failed _ hpre id hbefore.snoc
    rw [hrun] at hback
    rcases apply_statusAt (run start pre) (a := .agentStatus runId id patch) rfl id with ⟨hnone, -⟩ | ⟨n, rfl, hn, hn'⟩
    · rw [hnone] at hwaiting
      cases hwaiting
    · rw [hwaiting] at hn
      have hw : AgentNodeStatus.waiting = n.status := Option.some.inj hn
      have hset : (AgentGraphAction.onNode (.agentStatus runId n.id patch) n).status = patch.status := by
        have hcan : canTransitionTo n.status patch.status = true := by
          rw [← hw]
          rcases hpatch with heq | heq <;> rw [heq] <;> rfl
        simp [AgentGraphAction.onNode, hcan]
      rw [hn', hset] at hback
      rcases hpatch with heq | heq
      · exact hback.1 (congrArg some heq)
      · exact hback.2 (congrArg some heq)
  case graph =>
    rintro runId graph rfl
    constructor
    case ended =>
      intro id st hst hend
      have hkept := h.ended pre _ hpre id st hst hend
      rwa [hrun] at hkept
    case failed =>
      intro id hbefore
      have hkept := h.failed _ hpre id hbefore.snoc
      rwa [hrun] at hkept
    case status =>
      intro hterm
      have hkept := h.status pre _ hpre hterm
      rwa [hrun] at hkept

end

/-- **The graph of a run never regresses exactly when every event the reducer takes in is forward.**  The active agents,
the nodes in their places and the doubled event hold for every sequence of events. -/
theorem never_regresses_iff (graph : AgentGraphState) (actions : List AgentGraphAction)
    (hkind : ∀ a ∈ actions, a.explicit = false) :
    NeverRegresses (finalize graph) actions ↔ ForwardRun (finalize graph) actions := by
  constructor
  · exact fun h pre a hpre hig => forward_of_kept h hpre hig
  · intro h
    have hexp : ∀ {pre a}, pre ++ [a] <+: actions → a.explicit = false :=
      fun {pre a} hpre => hkind a (hpre.subset (List.mem_append_right pre List.mem_cons_self))
    constructor
    case ended =>
      intro pre a hpre id st hst hend
      rw [run_snoc]
      by_cases hig : (run (finalize graph) pre).ignores a
      · rw [reducer_of_ignores hig]
        exact hst
      · rw [reducer_of_not_ignores hig]
        exact ended_step (hexp hpre) (h pre a hpre hig) hst hend
    case failed => exact failed_run hkind h
    case nodes => exact fun pre a _ hgraph => kept_run hgraph
    case status =>
      intro pre a hpre hterm
      rw [run_snoc]
      by_cases hig : (run (finalize graph) pre).ignores a
      · rw [reducer_of_ignores hig]
      · rw [reducer_of_not_ignores hig]
        exact status_step (hexp hpre) (h pre a hpre hig) hterm
    case active => exact fun pre _ => active_run rfl pre
    case twice =>
      intro pre a _
      rw [show pre ++ [a, a] = pre ++ [a] ++ [a] by simp, run_snoc, run_snoc, reducer_twice]

def nodeOf (id : String) : AgentGraphNode where
  id := id
  name := id
  role := ""
  status := .pending
  stage := 0

def graphOf (runId : String) (ids : List String) : AgentGraphState := { emptyGraph with runId := runId, nodes := ids.map nodeOf }

theorem never_regresses_completed :
    NeverRegresses (finalize emptyGraph)
      [.graphInitialized "r1" (graphOf "r1" ["a"]), .agentStatus "r1" "a" { status := .completed },
        .runStatus "r1" .completed] := by
  refine (never_regresses_iff emptyGraph _ ?_).2 ?_
  · intro a ha
    simp only [List.mem_cons, List.not_mem_nil, or_false] at ha
    rcases ha with rfl | rfl | rfl <;> rfl
  · intro pre a hpre hig
    have hmem := hpre.subset (List.mem_append_right pre List.mem_cons_self)
    simp only [List.mem_cons, List.not_mem_nil, or_false] at hmem
    constructor
    case approval =>
      rintro runId agentId rfl
      rcases hmem with h | h | h <;> cases h
    case queued =>
      rintro runId id patch rfl hpatch
      rcases hmem with h | h | h
      · cases h
      · cases h
        rcases hpatch with h | h <;> cases h
      · cases h
    case graph =>
      rintro runId graph rfl
      -- the graph comes first, so there is nothing it could take back
      have hfirst : pre = [] := by
        rcases pre with _ | ⟨x, _ | ⟨y, _ | ⟨z, rest⟩⟩⟩
        · rfl
        · simp [List.cons_prefix_cons] at hpre
        · simp [List.cons_prefix_cons] at hpre
        · simp [List.cons_prefix_cons] at hpre
      subst hfirst
      constructor
      case ended =>
        intro id st hst
        cases hst
      case failed =>
        rintro id ⟨pre, hprefix, hfailed⟩
        obtain rfl := List.prefix_nil.1 hprefix
        cases hfailed
      case status =>
        intro hterm
        cases hterm

/-- A request for approval that comes late opens a completed run again. -/
theorem late_approval_reopens :
    let actions := [.graphInitialized "r1" (graphOf "r1" ["a"]), .runStatus "r1" .completed, .approvalRequired "r1" none]
    ((run (finalize emptyGraph) (actions.take 2)).status = .completed ∧
      (run (finalize emptyGraph) actions).status = .waitingApproval) ∧
    ¬ ∀ graph actions, (∀ a ∈ actions, a.explicit = false) → NeverRegresses (finalize graph) actions := by
  intro actions
  refine ⟨⟨rfl, rfl⟩, fun h => ?_⟩
  have hkind : ∀ a ∈ actions, a.explicit = false := by
    intro a ha
    simp only [actions, List.mem_cons, List.not_mem_nil, or_false] at ha
    rcases ha with rfl | rfl | rfl <;> rfl
  have hstatus := (h emptyGraph actions hkind).status (actions.take 2) (.approvalRequired "r1" none)
    (List.prefix_refl actions) rfl
  cases hstatus

end AgentGraph
end Client
end MyGpt
