import MyGpt.Json
import MyGpt.Lib.Worklist
import Mathlib.Data.List.Dedup
import Mathlib.Logic.Function.Basic
import Mathlib.Logic.Relation
/-!
# AgentLifecycle — the emitter that owns the agent graph of a run

`lifecycle.py` over the graph of `graph.py`: every call changes nodes and edges together and emits what it changed.
-/
namespace MyGpt
namespace Lifecycle

inductive AgentNodeStatus
  | pending | queued | running | waiting | completed | failed | cancelled
  deriving DecidableEq

inductive AgentEdgeStatus
  | pending | active | completed | failed
  deriving DecidableEq

def AgentNodeStatus.terminal : AgentNodeStatus → Bool
  | .completed | .failed | .cancelled => true
  | _ => false

structure Tool where
  callId : String
  name : String
  status : String

structure Retrying where
  attempt : Int
  error : String

structure AgentGraphNode where
  id : String
  name : String
  taskTitle : String := ""
  stage : Nat := 0
  lane : Nat := 0
  status : AgentNodeStatus := .pending
  startedAt : Option String := none
  finishedAt : Option String := none
  durationMs : Option Int := none
  currentTool : Option Tool := none
  outputSummary : Option String := none
  usage : Option (List (String × Json)) := none
  costUsd : Option Rat := none
  retrying : Option Retrying := none
  error : Option String := none

structure AgentGraphEdge where
  id : String
  source : String
  target : String
  status : AgentEdgeStatus := .pending
  label : Option String := none

structure AgentGraph where
  runId : String := ""
  flowName : String := ""
  status : String := "pending"
  nodes : List AgentGraphNode
  edges : List AgentGraphEdge
  activeAgentIds : List String := []
  startedAt : Option String := none
  finishedAt : Option String := none

namespace AgentGraph

def node (g : AgentGraph) (nodeId : String) : Option AgentGraphNode := g.nodes.find? (fun n => n.id = nodeId)

def runningIds (g : AgentGraph) : List String := (g.nodes.filter (fun n => n.status = .running)).map (·.id)

def statusOf (g : AgentGraph) (nodeId : String) : Option AgentNodeStatus := (g.node nodeId).map (·.status)

end AgentGraph

/-- What an `agent_status` frame tells beside the status. -/
structure StatusDetails where
  taskTitle : Option String := none
  startedAt : Option String := none
  finishedAt : Option String := none
  durationMs : Option Int := none
  outputSummary : Option String := none
  error : Option String := none
  usage : Option (List (String × Json)) := none
  costUsd : Option Rat := none
  retrying : Option Retrying := none

inductive AgentEvent
  | agentGraph (graph : AgentGraph)
  | runStatus (status : String) (currentAgentIds : List String)
  | agentStatus (agentId : String) (status : AgentNodeStatus) (details : StatusDetails)
  | agentEdge (edgeId : String) (status : AgentEdgeStatus) (label : Option String)

/-- `_now_iso()` and the monotonic clock, in milliseconds, at a call. -/
structure Clock where
  iso : String
  monotonic : Int

structure Emitter where
  graph : AgentGraph
  startedAt : Option String := none
  finishedAt : Option String := none
  nodeStarts : String → Option Int := fun _ => none
  events : List AgentEvent := []

namespace Emitter

def emit (s : Emitter) (event : AgentEvent) : Emitter := { s with events := s.events ++ [event] }

def updateFirst (nodeId : String) (f : AgentGraphNode → AgentGraphNode) : List AgentGraphNode → List AgentGraphNode
  | [] => []
  | n :: nodes => if n.id = nodeId then f n :: nodes else n :: updateFirst nodeId f nodes

def setNode (s : Emitter) (nodeId : String) (f : AgentGraphNode → AgentGraphNode) : Emitter :=
  { s with graph := { s.graph with nodes := updateFirst nodeId f s.graph.nodes } }

def setEdges (s : Emitter) (f : AgentGraphEdge → AgentGraphEdge) (events : AgentGraphEdge → List AgentEvent) : Emitter :=
  { s with graph := { s.graph with edges := s.graph.edges.map f }, events := s.events ++ s.graph.edges.flatMap events }

/-- `recompute_active` and the event that tells it. -/
def emitActive (s : Emitter) (status : String) : Emitter :=
  emit { s with graph := { s.graph with activeAgentIds := s.graph.runningIds } } (.runStatus status s.graph.runningIds)

/-- `self.graph.status or fallback` -/
def statusOr (s : Emitter) (fallback : String) : String := if s.graph.status = "" then fallback else s.graph.status

end Emitter

open Emitter

/-! ## the calls -/

section
variable (clock : Clock) (s : Emitter)

def emitGraphInitialized : Emitter :=
  emit { s with graph := { s.graph with status := "pending" } } (.agentGraph { s.graph with status := "pending" })

def emitRunStatus (status : String) : Emitter :=
  let s₁ := if status = "running" ∧ s.startedAt = none then
    { s with startedAt := some clock.iso, graph := { s.graph with startedAt := some clock.iso } } else s
  let s₂ := if (status = "completed" ∨ status = "failed" ∨ status = "cancelled") ∧ s₁.finishedAt = none then
    { s₁ with finishedAt := some clock.iso, graph := { s₁.graph with finishedAt := some clock.iso } } else s₁
  emitActive { s₂ with graph := { s₂.graph with status := status } } status

def waits (agentId : String) : Bool := s.graph.edges.any (fun e => e.target = agentId && e.status ≠ .completed)

def given : Option String → Option String
  | some "" => none
  | o => o

def emitAgentStarted (agentId : String) (taskTitle : Option String) : Emitter × Bool :=
  match s.graph.node agentId with
  | none => (s, false)
  | some node =>
    if node.status.terminal then (s, false)
    else if waits s agentId then
      if node.status ≠ .waiting then
        ((s.setNode agentId (fun n => { n with status := .waiting })).emit (.agentStatus agentId .waiting {}), false)
      else (s, false)
    else
      let s₁ := s.setNode agentId (fun n =>
        { n with status := .running, startedAt := some clock.iso, taskTitle := (given taskTitle).getD n.taskTitle })
      let s₂ := { s₁ with nodeStarts := Function.update s₁.nodeStarts agentId (some clock.monotonic) }
      let s₃ := s₂.emit (.agentStatus agentId .running { taskTitle := taskTitle, startedAt := some clock.iso })
      (emitActive s₃ (s₃.statusOr "running"), true)

def emitAgentWaiting (agentId reason : String) : Emitter :=
  match s.graph.node agentId with
  | none => s
  | some node =>
    if node.status.terminal then s
    else (s.setNode agentId (fun n => { n with status := .waiting })).emit
      (.agentStatus agentId .waiting { taskTitle := some reason })

/-- `int((monotonic() - start) * 1000)`, where there is a start. -/
def durationSince (agentId : String) : Option Int := (s.nodeStarts agentId).map (fun start => clock.monotonic - start)

/-- The `int` counts of a usage. -/
def countsOf (usage : List (String × Json)) : List (String × Json) :=
  usage.filter (fun p => match p.2 with | .int _ | .bool _ => true | _ => false)

def handOff (agentId : String) (e : AgentGraphEdge) : AgentGraphEdge :=
  if e.source = agentId ∧ e.status = .pending then { e with status := .completed } else e

def handOffEvents (agentId : String) (e : AgentGraphEdge) : List AgentEvent :=
  if e.source = agentId ∧ e.status = .pending then
    [.agentEdge e.id .active e.label, .agentEdge e.id .completed e.label] else []

def emitAgentCompleted (agentId : String) (outputSummary : Option String) (usage : Option (List (String × Json)))
    (costUsd : Option Rat) : Emitter :=
  match s.graph.node agentId with
  | none => s
  | some node =>
    if node.status = .completed then s
    else if node.status = .cancelled then s
    else
      let durationMs := (durationSince clock s agentId).or node.durationMs
      let s₁ := s.setNode agentId (fun n =>
        { n with
          status := .completed
          finishedAt := some clock.iso
          durationMs := durationMs
          outputSummary := (given outputSummary).or n.outputSummary
          error := none
          retrying := none
          usage := (usage.map countsOf).or n.usage
          costUsd := costUsd.or n.costUsd })
      let s₂ := { s₁ with nodeStarts := Function.update s₁.nodeStarts agentId none }
      let s₃ := s₂.emit (.agentStatus agentId .completed
        { finishedAt := some clock.iso, durationMs := durationMs, outputSummary := outputSummary, usage := usage,
          costUsd := costUsd })
      let s₄ := s₃.setEdges (handOff agentId) (handOffEvents agentId)
      emitActive s₄ (s₄.statusOr "running")

def emitAgentCancelled (agentId : String) : Emitter :=
  match s.graph.node agentId with
  | none => s
  | some node =>
    if node.status.terminal then s
    else (s.setNode agentId (fun n => { n with status := .cancelled, finishedAt := some clock.iso })).emit
      (.agentStatus agentId .cancelled { finishedAt := some clock.iso })

def successors (agentId : String) : List String := (s.graph.edges.filter (fun e => e.source = agentId)).map (·.target)

def reachable (agentId : String) : List String :=
  Worklist.search (successors s) (s.graph.edges.length + 1) [] [agentId]

def cancelUnstarted (nodeId : String) : Emitter :=
  match s.graph.node nodeId with
  | none => s
  | some node => if node.status.terminal ∨ node.status = .running then s else emitAgentCancelled clock s nodeId

def cancelDownstream (failedAgentId : String) : Emitter :=
  (reachable s failedAgentId).foldl (cancelUnstarted clock) s

def failEdge (agentId : String) (e : AgentGraphEdge) : AgentGraphEdge :=
  if e.source = agentId ∧ e.status ≠ .completed then { e with status := .failed } else e

def failEvents (agentId : String) (e : AgentGraphEdge) : List AgentEvent :=
  if e.source = agentId ∧ e.status ≠ .completed ∧ e.status ≠ .failed then [.agentEdge e.id .failed e.label] else []

def emitAgentFailed (agentId error : String) : Emitter :=
  match s.graph.node agentId with
  | none => s
  | some node =>
    let durationMs := (durationSince clock s agentId).or node.durationMs
    let s₁ := s.setNode agentId (fun n =>
      { n with status := .failed, finishedAt := some clock.iso, error := some error, durationMs := durationMs })
    let s₂ := s₁.emit (.agentStatus agentId .failed
      { finishedAt := some clock.iso, durationMs := durationMs, error := some error })
    let s₃ := s₂.setEdges (failEdge agentId) (failEvents agentId)
    cancelDownstream clock (emitActive s₃ (s₃.statusOr "failed")) agentId

def emitAgentRetrying (agentId : String) (attempt : Int) (error : String) : Emitter :=
  match s.graph.node agentId with
  | none => s
  | some node =>
    -- the only guard: neither a completed agent nor its edges are looked at
    if node.status = .cancelled then s
    else
      let retrying : Retrying := { attempt := attempt, error := error }
      let s₁ := s.setNode agentId (fun n => { n with status := .running, retrying := some retrying, error := none })
      let s₂ := s₁.emit (.agentStatus agentId .running { retrying := some retrying })
      emitActive s₂ (s₂.statusOr "running")

def cancelUnfinished : Emitter × List String :=
  s.graph.nodes.foldl (fun acc node =>
    if node.status.terminal then acc else (emitAgentCancelled clock acc.1 node.id, acc.2 ++ [node.id])) (s, [])

def setCurrentTool (agentId callId name status : String) : Emitter :=
  s.setNode agentId (fun n => { n with currentTool := some { callId := callId, name := name, status := status } })

def clearCurrentTool (agentId : String) : Emitter := s.setNode agentId (fun n => { n with currentTool := none })

def snapshot : Emitter := { s with graph := { s.graph with activeAgentIds := s.graph.runningIds } }

end

inductive Call
  | graphInitialized
  | runStatus (status : String)
  | agentStarted (agentId : String) (taskTitle : Option String)
  | agentWaiting (agentId reason : String)
  | agentCompleted (agentId : String) (outputSummary : Option String) (usage : Option (List (String × Json)))
      (costUsd : Option Rat)
  | agentFailed (agentId error : String)
  | agentRetrying (agentId : String) (attempt : Int) (error : String)
  | agentCancelled (agentId : String)
  | cancelDownstream (failedAgentId : String)
  | cancelUnfinished
  | setCurrentTool (agentId callId name status : String)
  | clearCurrentTool (agentId : String)
  | snapshot

def call (s : Emitter) (clock : Clock) : Call → Emitter
  | .graphInitialized => emitGraphInitialized s
  | .runStatus status => emitRunStatus clock s status
  | .agentStarted agentId taskTitle => (emitAgentStarted clock s agentId taskTitle).1
  | .agentWaiting agentId reason => emitAgentWaiting s agentId reason
  | .agentCompleted agentId outputSummary usage costUsd => emitAgentCompleted clock s agentId outputSummary usage costUsd
  | .agentFailed agentId error => emitAgentFailed clock s agentId error
  | .agentRetrying agentId attempt error => emitAgentRetrying s agentId attempt error
  | .agentCancelled agentId => emitAgentCancelled clock s agentId
  | .cancelDownstream failedAgentId => cancelDownstream clock s failedAgentId
  | .cancelUnfinished => (cancelUnfinished clock s).1
  | .setCurrentTool agentId callId name status => setCurrentTool s agentId callId name status
  | .clearCurrentTool agentId => clearCurrentTool s agentId
  | .snapshot => snapshot s

def fresh (graph : AgentGraph) : Emitter where
  graph := { graph with
    nodes := graph.nodes.map (fun n => { n with status := .pending })
    edges := graph.edges.map (fun e => { e with status := .pending }) }

def run (graph : AgentGraph) (calls : List (Clock × Call)) : Emitter :=
  calls.foldl (fun s c => call s c.1 c.2) (fresh graph)

/-! ## statuses and edges of the parts -/

section
variable {s : Emitter} {nodeId id : String} {f : AgentGraphNode → AgentGraphNode}

@[simp] theorem emit_graph (s : Emitter) (event : AgentEvent) : (s.emit event).graph = s.graph := rfl

theorem find?_updateFirst (hid : ∀ n, (f n).id = n.id) : ∀ nodes : List AgentGraphNode,
    (updateFirst nodeId f nodes).find? (fun n => n.id = id) =
      if id = nodeId then (nodes.find? (fun n => n.id = id)).map f else nodes.find? (fun n => n.id = id)
  | [] => by simp [updateFirst]
  | n :: nodes => by
    have ih := find?_updateFirst hid nodes
    by_cases hn : n.id = nodeId <;> by_cases h : id = nodeId <;> by_cases h' : n.id = id <;> simp_all [updateFirst]

theorem setNode_statusOf {node : AgentGraphNode} {st : AgentNodeStatus} (hnode : s.graph.node nodeId = some node)
    (hid : ∀ n, (f n).id = n.id) (hst : ∀ n, (f n).status = st) (id : String) :
    (s.setNode nodeId f).graph.statusOf id = if id = nodeId then some st else s.graph.statusOf id := by
  show ((updateFirst nodeId f s.graph.nodes).find? _).map _ = _
  rw [find?_updateFirst hid]
  split
  · next heq =>
    subst heq
    rw [show s.graph.nodes.find? (fun n => n.id = id) = some node from hnode]
    exact congrArg some (hst node)
  · rfl

theorem setNode_statusOf_same (hid : ∀ n, (f n).id = n.id) (hst : ∀ n, (f n).status = n.status) (id : String) :
    (s.setNode nodeId f).graph.statusOf id = s.graph.statusOf id := by
  show ((updateFirst nodeId f s.graph.nodes).find? _).map _ = _
  rw [find?_updateFirst hid]
  split
  · rw [Option.map_map]
    exact congrArg (fun g => (s.graph.nodes.find? _).map g) (funext hst)
  · rfl

theorem statusOf_eq_some {st : AgentNodeStatus} (h : s.graph.statusOf nodeId = some st) :
    ∃ node, s.graph.node nodeId = some node ∧ node.status = st := by
  exact Option.map_eq_some_iff.1 h

theorem statusOf_of_node {node : AgentGraphNode} (h : s.graph.node nodeId = some node) :
    s.graph.statusOf nodeId = some node.status := by
  unfold AgentGraph.statusOf
  rw [h]
  rfl

end

/-- **The search behind a failed agent leaves nothing out**: its fuel covers every edge. -/
theorem reachable_closed (s : Emitter) (agentId : String) {x y : String} (hx : x = agentId ∨ x ∈ reachable s agentId)
    (hy : y ∈ successors s x) : y ∈ reachable s agentId := by
  have hnext : ∀ x, ∀ y ∈ successors s x, y ∈ (s.graph.edges.map (·.target)).dedup := by
    intro x y hy
    obtain ⟨e, he, rfl⟩ := List.mem_map.1 hy
    exact List.mem_dedup.2 (List.mem_map_of_mem (List.mem_of_mem_filter he))
  have hfuel : Worklist.unseen (s.graph.edges.map (·.target)).dedup [] + [agentId].length ≤ s.graph.edges.length + 1 := by
    refine Nat.add_le_add_right ?_ 1
    calc Worklist.unseen (s.graph.edges.map (·.target)).dedup []
        ≤ (s.graph.edges.map (·.target)).dedup.length := List.length_filter_le _ _
      _ ≤ (s.graph.edges.map (·.target)).length := (List.dedup_sublist _).length_le
      _ = s.graph.edges.length := List.length_map _
  refine (Worklist.search_closed (List.nodup_dedup _) hnext _ [] [agentId] hfuel).2 x ?_ y hy
  rcases hx with rfl | hx
  · exact .inl List.mem_cons_self
  · exact .inr ⟨hx, List.not_mem_nil⟩

def AgentGraph.Leads (g : AgentGraph) (a b : String) : Prop := ∃ e ∈ g.edges, e.source = a ∧ e.target = b

theorem mem_successors {s : Emitter} {a b : String} : b ∈ successors s a ↔ s.graph.Leads a b := by
  constructor
  · intro h
    obtain ⟨e, he, htarget⟩ := List.mem_map.1 h
    obtain ⟨he, hsource⟩ := List.mem_filter.1 he
    exact ⟨e, he, of_decide_eq_true hsource, htarget⟩
  · rintro ⟨e, he, hsource, htarget⟩
    exact List.mem_map.2 ⟨e, List.mem_filter.2 ⟨he, decide_eq_true hsource⟩, htarget⟩

theorem mem_reachable {s : Emitter} {agentId y : String} :
    y ∈ reachable s agentId ↔ Relation.TransGen s.graph.Leads agentId y := by
  constructor
  · have hnext : ∀ x, Relation.TransGen s.graph.Leads agentId x → ∀ y ∈ successors s x,
        Relation.TransGen s.graph.Leads agentId y :=
      fun x hx y hy => hx.tail (mem_successors.1 hy)
    have hfirst : ∀ y ∈ successors s agentId, Relation.TransGen s.graph.Leads agentId y :=
      fun y hy => .single (mem_successors.1 hy)
    obtain ⟨hseen, hstack⟩ := Worklist.push_forall hfirst (List.forall_mem_nil _) (List.forall_mem_nil _)
    exact Worklist.search_forall hnext _ _ _ hseen hstack y
  · intro h
    induction h with
    | single h => exact reachable_closed s agentId (.inl rfl) (mem_successors.2 h)
    | tail _ h ih => exact reachable_closed s agentId (.inr ih) (mem_successors.2 h)

/-- What has not started is cancelled. -/
def AgentNodeStatus.stopped : AgentNodeStatus → AgentNodeStatus
  | .pending | .queued | .waiting => .cancelled
  | status => status

theorem cancelUnstarted_statusOf (clock : Clock) (s : Emitter) (nodeId id : String) :
    (cancelUnstarted clock s nodeId).graph.statusOf id =
      if id = nodeId then (s.graph.statusOf id).map (·.stopped) else s.graph.statusOf id := by
  unfold cancelUnstarted
  cases hnode : s.graph.node nodeId with
  | none =>
    dsimp only
    split
    · next heq =>
      rw [heq, AgentGraph.statusOf, hnode]
      rfl
    · rfl
  | some node =>
    have hstatus := statusOf_of_node hnode
    dsimp only
    split
    · next hkept =>
      split
      · next heq =>
        rw [heq, hstatus]
        cases hst : node.status <;> simp_all [AgentNodeStatus.terminal, AgentNodeStatus.stopped]
      · rfl
    · next hopen =>
      unfold emitAgentCancelled
      rw [hnode]
      dsimp only
      rw [if_neg (fun h => hopen (.inl h)), emit_graph]
      refine (setNode_statusOf (f := fun n => { n with status := .cancelled, finishedAt := some clock.iso }) hnode
        (fun _ => rfl) (fun _ => rfl) id).trans ?_
      split
      · next heq =>
        rw [heq, hstatus]
        cases hst : node.status <;> simp_all [AgentNodeStatus.terminal, AgentNodeStatus.stopped]
      · rfl

/-- **A failed agent stops exactly what is behind it**, over however many edges and through circles, and of that only what has
not started. -/
theorem cancelDownstream_statusOf (clock : Clock) (s : Emitter) (agentId id : String) :
    (Relation.TransGen s.graph.Leads agentId id →
        (cancelDownstream clock s agentId).graph.statusOf id = (s.graph.statusOf id).map (·.stopped)) ∧
      (¬ Relation.TransGen s.graph.Leads agentId id →
        (cancelDownstream clock s agentId).graph.statusOf id = s.graph.statusOf id) := by
  have hstop : ∀ st : AgentNodeStatus, st.stopped.stopped = st.stopped := fun st => by cases st <;> rfl
  have hfold : ∀ (ids : List String) (s : Emitter), (ids.foldl (cancelUnstarted clock) s).graph.statusOf id =
      if id ∈ ids then (s.graph.statusOf id).map (·.stopped) else s.graph.statusOf id := by
    intro ids
    induction ids with
    | nil => exact fun s => (if_neg (List.not_mem_nil)).symm
    | cons nodeId ids ih =>
      intro s
      rw [List.foldl_cons, ih, cancelUnstarted_statusOf]
      by_cases hhead : id = nodeId <;> by_cases htail : id ∈ ids <;> simp [hhead, htail, hstop, Function.comp_def]
  unfold cancelDownstream
  rw [hfold, ← mem_reachable]
  exact ⟨fun h => if_pos h, fun h => if_neg h⟩

/-! ## what a call does to the agents -/

def Joined (g : AgentGraph) (agentId : String) : Prop := ∀ e ∈ g.edges, e.target = agentId → e.status = .completed

def HandedOff (g : AgentGraph) (agentId : String) : Prop := ∀ e ∈ g.edges, e.source = agentId → e.status = .completed

structure Closes (s s' : Emitter) : Prop where
  edges : s'.graph.edges = s.graph.edges
  agents : ∀ id, s'.graph.statusOf id = s.graph.statusOf id ∨
    (∃ st, s.graph.statusOf id = some st ∧ st.terminal = false) ∧ s'.graph.statusOf id = some .cancelled

theorem Closes.refl (s : Emitter) : Closes s s := ⟨rfl, fun _ => .inl rfl⟩

theorem Closes.trans {s s' s'' : Emitter} (h : Closes s s') (h' : Closes s' s'') : Closes s s'' := by
  refine ⟨h'.edges.trans h.edges, fun id => ?_⟩
  rcases h'.agents id with hsame | ⟨⟨st, hst, hopen⟩, hcancelled⟩
  · rw [hsame]
    exact h.agents id
  · right
    refine ⟨?_, hcancelled⟩
    rcases h.agents id with hsame | ⟨hbefore, -⟩
    · exact ⟨st, hsame ▸ hst, hopen⟩
    · exact hbefore

def Sets (s s' : Emitter) (agentId : String) (st : AgentNodeStatus) : Prop :=
  ∀ id, s'.graph.statusOf id = if id = agentId then some st else s.graph.statusOf id

theorem sets_setNode {s : Emitter} {agentId : String} {node : AgentGraphNode} {st : AgentNodeStatus}
    (f : AgentGraphNode → AgentGraphNode) (hnode : s.graph.node agentId = some node) (hid : ∀ n, (f n).id = n.id)
    (hst : ∀ n, (f n).status = st) : Sets s (s.setNode agentId f) agentId st :=
  fun id => setNode_statusOf hnode hid hst id

theorem closes_emitAgentCancelled (clock : Clock) (s : Emitter) (agentId : String) :
    Closes s (emitAgentCancelled clock s agentId) := by
  unfold emitAgentCancelled
  split
  · exact .refl s
  · next node hnode =>
    split
    · exact .refl s
    · next hopen =>
      have hset := sets_setNode (fun n => { n with status := .cancelled, finishedAt := some clock.iso }) hnode
        (fun _ => rfl) (fun _ => rfl)
      refine ⟨rfl, fun id => ?_⟩
      rw [emit_graph, hset id]
      by_cases heq : id = agentId
      · subst heq
        rw [if_pos rfl]
        exact .inr ⟨⟨node.status, statusOf_of_node hnode, Bool.not_eq_true _ ▸ hopen⟩, rfl⟩
      · rw [if_neg heq]
        exact .inl rfl

theorem closes_cancelUnstarted (clock : Clock) (s : Emitter) (nodeId : String) : Closes s (cancelUnstarted clock s nodeId) := by
  unfold cancelUnstarted
  split
  · exact .refl s
  · split
    · exact .refl s
    · exact closes_emitAgentCancelled clock s nodeId

theorem closes_cancelDownstream (clock : Clock) (s : Emitter) (agentId : String) :
    Closes s (cancelDownstream clock s agentId) := by
  unfold cancelDownstream
  generalize reachable s agentId = ids
  induction ids generalizing s with
  | nil => exact .refl s
  | cons nodeId ids ih => exact (closes_cancelUnstarted clock s nodeId).trans (ih (cancelUnstarted clock s nodeId))

theorem closes_cancelUnfinished (clock : Clock) (s : Emitter) : Closes s (cancelUnfinished clock s).1 := by
  suffices h : ∀ (nodes : List AgentGraphNode) (acc : Emitter × List String), Closes acc.1 (nodes.foldl (fun acc node =>
      if node.status.terminal then acc else (emitAgentCancelled clock acc.1 node.id, acc.2 ++ [node.id])) acc).1 from
    h s.graph.nodes (s, [])
  intro nodes
  induction nodes with
  | nil => exact fun acc => .refl acc.1
  | cons node nodes ih =>
    intro acc
    rw [List.foldl_cons]
    by_cases hterm : node.status.terminal = true
    · rw [if_pos hterm]
      exact ih acc
    · rw [if_neg hterm]
      exact (closes_emitAgentCancelled clock acc.1 node.id).trans
        (ih (emitAgentCancelled clock acc.1 node.id, acc.2 ++ [node.id]))

inductive Turn (s s' : Emitter) (c : Call) (agentId : String) : AgentNodeStatus → AgentNodeStatus → Prop
  | stay (st : AgentNodeStatus) : Turn s s' c agentId st st
  | start {st : AgentNodeStatus} (open_ : st.terminal = false) (joined : Joined s'.graph agentId) :
      Turn s s' c agentId st .running
  | wait {st : AgentNodeStatus} (open_ : st.terminal = false) : Turn s s' c agentId st .waiting
  | complete {st : AgentNodeStatus} {outputSummary : Option String} {usage : Option (List (String × Json))}
      {costUsd : Option Rat} (called : c = .agentCompleted agentId outputSummary usage costUsd)
      (open_ : st ≠ .completed ∧ st ≠ .cancelled) (edges : s'.graph.edges = s.graph.edges.map (handOff agentId)) :
      Turn s s' c agentId st .completed
  | fail {st : AgentNodeStatus} {error : String} (called : c = .agentFailed agentId error) : Turn s s' c agentId st .failed
  | retry {st : AgentNodeStatus} {attempt : Int} {error : String} (called : c = .agentRetrying agentId attempt error)
      (open_ : st ≠ .cancelled) (edges : s'.graph.edges = s.graph.edges) : Turn s s' c agentId st .running
  | cancel {st : AgentNodeStatus} (open_ : st.terminal = false) : Turn s s' c agentId st .cancelled

def EdgeKept (f : AgentGraphEdge → AgentGraphEdge) : Prop :=
  ∀ e, (f e).source = e.source ∧ (f e).target = e.target ∧ (e.status = .completed → (f e).status = .completed)

/-- **What a call does**: an agent takes one of its turns, and the edges keep what is completed. -/
structure Effect (s s' : Emitter) (c : Call) : Prop where
  agents : ∀ id, (s.graph.statusOf id = none ∧ s'.graph.statusOf id = none) ∨
    ∃ st st', s.graph.statusOf id = some st ∧ s'.graph.statusOf id = some st' ∧ Turn s s' c id st st'
  edges : ∃ f, EdgeKept f ∧ s'.graph.edges = s.graph.edges.map f

theorem edgeKept_id : EdgeKept id := fun _ => ⟨rfl, rfl, fun h => h⟩

theorem edgeKept_handOff (agentId : String) : EdgeKept (handOff agentId) := by
  intro e
  unfold handOff
  split
  · exact ⟨rfl, rfl, fun _ => rfl⟩
  · exact ⟨rfl, rfl, fun h => h⟩

theorem edgeKept_failEdge (agentId : String) : EdgeKept (failEdge agentId) := by
  intro e
  unfold failEdge
  split
  · next h => exact ⟨rfl, rfl, fun hdone => absurd hdone h.2⟩
  · exact ⟨rfl, rfl, fun h => h⟩

theorem effect_of_closes {s s' : Emitter} (c : Call) (h : Closes s s') : Effect s s' c := by
  refine ⟨fun id => ?_, id, edgeKept_id, h.edges.trans (List.map_id _).symm⟩
  rcases h.agents id with hsame | ⟨⟨st, hst, hopen⟩, hcancelled⟩
  · rw [hsame]
    cases hst : s.graph.statusOf id with
    | none => exact .inl ⟨rfl, rfl⟩
    | some st => exact .inr ⟨st, st, rfl, rfl, .stay st⟩
  · exact .inr ⟨st, .cancelled, hst, hcancelled, .cancel hopen⟩

theorem effect_of_one {s s' : Emitter} {c : Call} {agentId : String} {st st' : AgentNodeStatus}
    (hst : s.graph.statusOf agentId = some st) (hset : Sets s s' agentId st') (hturn : Turn s s' c agentId st st')
    (hedges : ∃ f, EdgeKept f ∧ s'.graph.edges = s.graph.edges.map f) :
    Effect s s' c := by
  refine ⟨fun id => ?_, hedges⟩
  rw [hset id]
  by_cases heq : id = agentId
  · subst heq
    rw [if_pos rfl]
    exact .inr ⟨st, st', hst, rfl, hturn⟩
  · rw [if_neg heq]
    cases hother : s.graph.statusOf id with
    | none => exact .inl ⟨rfl, rfl⟩
    | some other => exact .inr ⟨other, other, rfl, rfl, .stay other⟩

theorem effect_of_same {s s' : Emitter} (c : Call) (hagents : ∀ id, s'.graph.statusOf id = s.graph.statusOf id)
    (hedges : s'.graph.edges = s.graph.edges) : Effect s s' c :=
  effect_of_closes c ⟨hedges, fun id => .inl (hagents id)⟩

theorem kept_edges {s s' : Emitter} (h : s'.graph.edges = s.graph.edges) :
    ∃ f, EdgeKept f ∧ s'.graph.edges = s.graph.edges.map f :=
  ⟨id, edgeKept_id, h.trans (List.map_id _).symm⟩

section
variable {s : Emitter} {agentId : String} {node : AgentGraphNode} (clock : Clock)

theorem joined_of_not_waits (h : ¬ waits s agentId = true) : Joined s.graph agentId := by
  intro e he htarget
  by_contra hopen
  exact h (List.any_eq_true.2 ⟨e, he, by simp [htarget, hopen]⟩)

theorem started_effect (hnode : s.graph.node agentId = some node) (taskTitle : Option String) :
    Effect s (emitAgentStarted clock s agentId taskTitle).1 (.agentStarted agentId taskTitle) := by
  unfold emitAgentStarted
  rw [hnode]
  by_cases hterm : node.status.terminal = true
  · simp only [if_pos hterm]
    exact effect_of_same _ (fun _ => rfl) rfl
  · have hopen : node.status.terminal = false := Bool.not_eq_true _ ▸ hterm
    simp only [if_neg hterm]
    by_cases hwaits : waits s agentId = true
    · simp only [if_pos hwaits]
      by_cases hwaiting : node.status ≠ .waiting
      · simp only [if_pos hwaiting]
        have hset := sets_setNode (fun n => { n with status := .waiting }) hnode (fun _ => rfl) (fun _ => rfl)
        exact effect_of_one (statusOf_of_node hnode) hset (.wait hopen) (kept_edges rfl)
      · simp only [if_neg hwaiting]
        exact effect_of_same _ (fun _ => rfl) rfl
    · simp only [if_neg hwaits]
      have hset := sets_setNode (fun n =>
        { n with status := .running, startedAt := some clock.iso, taskTitle := (given taskTitle).getD n.taskTitle })
        hnode (fun _ => rfl) (fun _ => rfl)
      exact effect_of_one (statusOf_of_node hnode) hset (.start hopen (joined_of_not_waits hwaits)) (kept_edges rfl)

theorem waiting_effect (hnode : s.graph.node agentId = some node) (reason : String) :
    Effect s (emitAgentWaiting s agentId reason) (.agentWaiting agentId reason) := by
  unfold emitAgentWaiting
  rw [hnode]
  by_cases hterm : node.status.terminal = true
  · simp only [if_pos hterm]
    exact effect_of_same _ (fun _ => rfl) rfl
  · simp only [if_neg hterm]
    have hset := sets_setNode (fun n => { n with status := .waiting }) hnode (fun _ => rfl) (fun _ => rfl)
    exact effect_of_one (statusOf_of_node hnode) hset (.wait (Bool.not_eq_true _ ▸ hterm)) (kept_edges rfl)

theorem completed_sets (hnode : s.graph.node agentId = some node) (hopen : node.status ≠ .completed ∧ node.status ≠ .cancelled)
    (outputSummary : Option String) (usage : Option (List (String × Json))) (costUsd : Option Rat) :
    Sets s (emitAgentCompleted clock s agentId outputSummary usage costUsd) agentId .completed ∧
    (emitAgentCompleted clock s agentId outputSummary usage costUsd).graph.edges =
      s.graph.edges.map (handOff agentId) := by
  unfold emitAgentCompleted
  rw [hnode]
  simp only [if_neg hopen.1, if_neg hopen.2]
  exact ⟨sets_setNode _ hnode (fun _ => rfl) (fun _ => rfl), rfl⟩

theorem completed_effect (hnode : s.graph.node agentId = some node) (outputSummary : Option String)
    (usage : Option (List (String × Json))) (costUsd : Option Rat) :
    Effect s (emitAgentCompleted clock s agentId outputSummary usage costUsd)
      (.agentCompleted agentId outputSummary usage costUsd) := by
  by_cases hopen : node.status ≠ .completed ∧ node.status ≠ .cancelled
  · obtain ⟨hset, hedges⟩ := completed_sets clock hnode hopen outputSummary usage costUsd
    exact effect_of_one (statusOf_of_node hnode) hset (.complete rfl hopen hedges)
      ⟨handOff agentId, edgeKept_handOff agentId, hedges⟩
  · have hsame : emitAgentCompleted clock s agentId outputSummary usage costUsd = s := by
      unfold emitAgentCompleted
      rw [hnode]
      by_cases hcompleted : node.status = .completed
      · simp only [if_pos hcompleted]
      · have hcancelled : node.status = .cancelled := by
          by_contra h
          exact hopen ⟨hcompleted, h⟩
        simp only [if_neg hcompleted, if_pos hcancelled]
    rw [hsame]
    exact effect_of_same _ (fun _ => rfl) rfl

/-- **A failure**: the agent is failed, whatever it was, and open agents behind it are cancelled. -/
theorem failed_sets (hnode : s.graph.node agentId = some node) (error : String) : ∃ s₁, Sets s s₁ agentId .failed ∧
    s₁.graph.edges = s.graph.edges.map (failEdge agentId) ∧ Closes s₁ (emitAgentFailed clock s agentId error) := by
  unfold emitAgentFailed
  rw [hnode]
  refine ⟨_, ?_, ?_, closes_cancelDownstream clock _ agentId⟩
  · exact sets_setNode _ hnode (fun _ => rfl) (fun _ => rfl)
  · rfl

theorem failed_effect (hnode : s.graph.node agentId = some node) (error : String) :
    Effect s (emitAgentFailed clock s agentId error) (.agentFailed agentId error) := by
  obtain ⟨s₁, hset, hedges, hcloses⟩ := failed_sets clock hnode error
  refine ⟨fun id => ?_, failEdge agentId, edgeKept_failEdge agentId, hcloses.edges.trans hedges⟩
  rcases hcloses.agents id with hsame | ⟨⟨st, hst, hopen⟩, hcancelled⟩
  · rw [hsame, hset id]
    by_cases heq : id = agentId
    · subst heq
      rw [if_pos rfl]
      exact .inr ⟨node.status, .failed, statusOf_of_node hnode, rfl, .fail rfl⟩
    · rw [if_neg heq]
      cases hother : s.graph.statusOf id with
      | none => exact .inl ⟨rfl, rfl⟩
      | some other => exact .inr ⟨other, other, rfl, rfl, .stay other⟩
  · rw [hset id] at hst
    by_cases heq : id = agentId
    · rw [if_pos heq] at hst
      cases hst
      cases hopen
    · rw [if_neg heq] at hst
      exact .inr ⟨st, .cancelled, hst, hcancelled, .cancel hopen⟩

theorem failed_statusOf (hnode : s.graph.node agentId = some node) (error : String) :
    (emitAgentFailed clock s agentId error).graph.statusOf agentId = some .failed := by
  obtain ⟨s₁, hset, -, hcloses⟩ := failed_sets clock hnode error
  have hfailed : s₁.graph.statusOf agentId = some .failed := (hset agentId).trans (if_pos rfl)
  rcases hcloses.agents agentId with hsame | ⟨⟨st, hst, hopen⟩, -⟩
  · exact hsame.trans hfailed
  · rw [hfailed] at hst
    cases hst
    cases hopen

theorem retrying_sets (hnode : s.graph.node agentId = some node) (hopen : node.status ≠ .cancelled) (attempt : Int)
    (error : String) : Sets s (emitAgentRetrying s agentId attempt error) agentId .running ∧
      (emitAgentRetrying s agentId attempt error).graph.edges = s.graph.edges := by
  unfold emitAgentRetrying
  rw [hnode]
  simp only [if_neg hopen]
  exact ⟨sets_setNode _ hnode (fun _ => rfl) (fun _ => rfl), rfl⟩

theorem retrying_effect (hnode : s.graph.node agentId = some node) (attempt : Int) (error : String) :
    Effect s (emitAgentRetrying s agentId attempt error) (.agentRetrying agentId attempt error) := by
  by_cases hopen : node.status ≠ .cancelled
  · obtain ⟨hset, hedges⟩ := retrying_sets hnode hopen attempt error
    exact effect_of_one (statusOf_of_node hnode) hset (.retry rfl hopen hedges) (kept_edges hedges)
  · have hsame : emitAgentRetrying s agentId attempt error = s := by
      unfold emitAgentRetrying
      rw [hnode]
      simp only [if_pos (not_not.1 hopen)]
    rw [hsame]
    exact effect_of_same _ (fun _ => rfl) rfl

end

theorem runStatus_effect (clock : Clock) (s : Emitter) (status : String) :
    Effect s (emitRunStatus clock s status) (.runStatus status) := by
  have hnodes : (emitRunStatus clock s status).graph.nodes = s.graph.nodes ∧
      (emitRunStatus clock s status).graph.edges = s.graph.edges := by
    unfold emitRunStatus
    dsimp only
    split_ifs <;> exact ⟨rfl, rfl⟩
  refine effect_of_same _ (fun id => ?_) hnodes.2
  unfold AgentGraph.statusOf AgentGraph.node
  rw [hnodes.1]

theorem call_effect (s : Emitter) (clock : Clock) (c : Call) : Effect s (call s clock c) c := by
  cases c with
  | graphInitialized | snapshot => exact effect_of_same _ (fun _ => rfl) rfl
  | runStatus status => exact runStatus_effect clock s status
  | agentStarted agentId taskTitle =>
    cases hnode : s.graph.node agentId with
    | none =>
      have hsame : call s clock (.agentStarted agentId taskTitle) = s := by simp [call, emitAgentStarted, hnode]
      rw [hsame]
      exact effect_of_same _ (fun _ => rfl) rfl
    | some node => exact started_effect clock hnode taskTitle
  | agentWaiting agentId reason =>
    cases hnode : s.graph.node agentId with
    | none =>
      have hsame : call s clock (.agentWaiting agentId reason) = s := by simp [call, emitAgentWaiting, hnode]
      rw [hsame]
      exact effect_of_same _ (fun _ => rfl) rfl
    | some node => exact waiting_effect hnode reason
  | agentCompleted agentId outputSummary usage costUsd =>
    cases hnode : s.graph.node agentId with
    | none =>
      have hsame : call s clock (.agentCompleted agentId outputSummary usage costUsd) = s := by
        simp [call, emitAgentCompleted, hnode]
      rw [hsame]
      exact effect_of_same _ (fun _ => rfl) rfl
    | some node => exact completed_effect clock hnode outputSummary usage costUsd
  | agentFailed agentId error =>
    cases hnode : s.graph.node agentId with
    | none =>
      have hsame : call s clock (.agentFailed agentId error) = s := by simp [call, emitAgentFailed, hnode]
      rw [hsame]
      exact effect_of_same _ (fun _ => rfl) rfl
    | some node => exact failed_effect clock hnode error
  | agentRetrying agentId attempt error =>
    cases hnode : s.graph.node agentId with
    | none =>
      have hsame : call s clock (.agentRetrying agentId attempt error) = s := by simp [call, emitAgentRetrying, hnode]
      rw [hsame]
      exact effect_of_same _ (fun _ => rfl) rfl
    | some node => exact retrying_effect hnode attempt error
  | agentCancelled agentId => exact effect_of_closes _ (closes_emitAgentCancelled clock s agentId)
  | cancelDownstream failedAgentId => exact effect_of_closes _ (closes_cancelDownstream clock s failedAgentId)
  | cancelUnfinished => exact effect_of_closes _ (closes_cancelUnfinished clock s)
  | setCurrentTool agentId callId name status =>
    exact effect_of_same _ (setNode_statusOf_same (fun _ => rfl) (fun _ => rfl)) rfl
  | clearCurrentTool agentId => exact effect_of_same _ (setNode_statusOf_same (fun _ => rfl) (fun _ => rfl)) rfl

end Lifecycle
end MyGpt
