import MyGpt.PlanTemplates
/-!
# PlanGraph — the graph the panel draws of a plan

`graph_from_plan` and the graph builders of the profiles (`agents/graph.py`).  Stages and lanes come from the plan
(`stageDepths_leveled`, `laneIndexes_nodup`), unless the plan has the ids of its profile's template: then the nodes of
the template are used, stages included, whatever the dependencies are.
-/
namespace MyGpt
namespace Workflow
namespace Graph

inductive AgentNodeStatus
  | pending | queued | running | waiting | completed | failed | cancelled
  deriving DecidableEq

inductive EdgeType
  | dependency | handoff | delegation
  deriving DecidableEq

inductive GraphMode
  | sequential | parallel | hybrid
  deriving DecidableEq

structure AgentGraphNode where
  id : String
  name : String
  role : String := ""
  taskTitle : String := ""
  taskSummary : String := ""
  stage : Nat := 0
  lane : Nat := 0
  status : AgentNodeStatus := .pending
  deriving DecidableEq

structure AgentGraphEdge where
  id : String
  source : String
  target : String
  type : EdgeType := .handoff
  deriving DecidableEq

structure AgentGraph where
  runId : String := ""
  runtime : String := "crewai"
  flowName : String := ""
  mode : GraphMode := .sequential
  status : String := "pending"
  nodes : List AgentGraphNode
  edges : List AgentGraphEdge
  deriving DecidableEq

/-! ## the graphs of the profiles: what `graph_from_plan` takes from them -/

structure Template where
  mode : GraphMode
  nodes : List AgentGraphNode

def buildDeepResearchGraph : Template where
  mode := .sequential
  nodes := [
    { id := "researcher", name := "Researcher", role := "资料检索", taskTitle := "检索和整理证据",
      taskSummary := "拆解问题，调用工具收集来源证据", stage := 0, lane := 0 },
    { id := "analyst", name := "Analyst", role := "证据分析", taskTitle := "核对和分析证据",
      taskSummary := "交叉验证来源、标注冲突、判断证据是否充分", stage := 1, lane := 0 },
    { id := "writer", name := "Writer", role := "答案撰写", taskTitle := "生成最终答案",
      taskSummary := "仅基于已验证证据撰写带引用的最终回答", stage := 2, lane := 0 }]

def buildParallelResearchGraph : Template where
  mode := .parallel
  nodes := [
    { id := "coordinator", name := "Coordinator", role := "协调", taskTitle := "拆解任务并分发",
      taskSummary := "将问题拆为网络检索与知识库检索两条线", stage := 0, lane := 0 },
    { id := "web-researcher", name := "Web Researcher", role := "网络检索", taskTitle := "联网检索资料",
      taskSummary := "使用 web_search 收集外部证据", stage := 1, lane := 0 },
    { id := "kb-researcher", name := "KB Researcher", role := "知识库检索", taskTitle := "检索内部知识库",
      taskSummary := "使用 RAG 检索内部文档", stage := 1, lane := 1 },
    { id := "analyst", name := "Analyst", role := "证据分析", taskTitle := "汇合并分析证据",
      taskSummary := "合并两条检索线的证据并交叉验证", stage := 2, lane := 0 },
    { id := "writer", name := "Writer", role := "答案撰写", taskTitle := "生成最终答案",
      taskSummary := "撰写带引用的最终回答", stage := 3, lane := 0 }]

def buildDebateGraph (sideA sideB : String) : Template :=
  let sa := stripped (orElseText sideA "A")
  let sb := stripped (orElseText sideB "B")
  { mode := .parallel
    nodes := [
      { id := "advocate-a", name := sa ++ " Advocate", role := "支持方 A", taskTitle := "为 " ++ sa ++ " 提供最强论证",
        taskSummary := "只从 " ++ sa ++ " 的最佳实践出发，给出结构化论证并主动承认其局限", stage := 0, lane := 0 },
      { id := "advocate-b", name := sb ++ " Advocate", role := "支持方 B", taskTitle := "为 " ++ sb ++ " 提供最强论证",
        taskSummary := "只从 " ++ sb ++ " 的最佳实践出发，给出结构化论证并主动承认其局限", stage := 0, lane := 1 },
      { id := "judge", name := "Judge", role := "中立裁判", taskTitle := "按统一标准权衡双方",
        taskSummary := "同时读取双方论证，区分事实与推测，给出条件化结论", stage := 1, lane := 0 }] }

def buildWriteReviewGraph : Template where
  mode := .sequential
  nodes := [
    { id := "drafter", name := "Drafter", role := "初稿撰写", taskTitle := "产出可审阅的初稿",
      taskSummary := "按需求写出结构完整的初稿，交付给审阅者", stage := 0, lane := 0 },
    { id := "reviewer", name := "Reviewer", role := "质量审阅", taskTitle := "找出必须修改的问题",
      taskSummary := "逐项检查事实、逻辑、结构与表达，输出结构化问题清单", stage := 1, lane := 0 },
    { id := "finalizer", name := "Finalizer", role := "定稿", taskTitle := "按审阅意见定稿",
      taskSummary := "逐条落实审阅意见，产出可直接交付的最终版本", stage := 2, lane := 0 }]

def buildTaskDecompositionGraph (workerCount : Int) : Template where
  mode := .parallel
  nodes :=
    [{ id := "decomposer", name := "Coordinator", role := "任务拆解", taskTitle := "把任务拆成可并行的工作项",
       taskSummary := "理解目标，拆出彼此独立、可同时推进的工作项", stage := 0, lane := 0 }] ++
    (List.range' 1 (clampWorkers workerCount)).map (fun i =>
      { id := workerId i, name := "Worker " ++ toString i, role := "执行", taskTitle := "执行工作项 " ++ toString i,
        taskSummary := "独立完成分配到的子任务，产出可直接汇合的结果", stage := 1, lane := i - 1 }) ++
    [{ id := "integrator", name := "Integrator", role := "结果整合", taskTitle := "汇合并整合全部工作项",
       taskSummary := "汇总所有 worker 的产出，消除冲突，形成统一交付物", stage := 2, lane := 0 }]

def buildSingleAgentGraph : Template where
  mode := .sequential
  nodes := [
    { id := "assistant", name := "助手", role := "智能助手", taskTitle := "理解问题并生成回答",
      taskSummary := "单 agent 模式：模型与工具循环", stage := 0, lane := 0 }]

def buildGraph (extractDebateSides : DebateSides) (question : String) : TopologySpec → Template
  | .deepResearch => buildDeepResearchGraph
  | .parallelResearch => buildParallelResearchGraph
  | .debate =>
    let sides := extractDebateSides question
    buildDebateGraph ((sides.map (·.1)).getD "A") ((sides.map (·.2)).getD "B")
  | .writeReview => buildWriteReviewGraph
  | .taskDecomposition => buildTaskDecompositionGraph 3
  | .general => buildSingleAgentGraph

def buildGraphForProfile (extractDebateSides : DebateSides) (profile question : String) : Template :=
  buildGraph extractDebateSides question (topologyFor profile)

/-! ## from a plan -/

section
variable {O : Type} (plan : Plan O)

/-- One round of the loop of `_stage_depths`. -/
def stageDepth (depth : String → Option Nat) (stepId : String) : Nat :=
  if (plan.depsOf stepId).isEmpty then 0
  else 1 + ((plan.depsOf stepId).map (fun d => (depth d).getD 0)).foldr max 0

def stageDepths (order : List String) : String → Option Nat :=
  order.foldl (fun depth sid => Function.update depth sid (some (stageDepth plan depth sid))) (fun _ => none)

end

/-- `_lane_indexes`: the step's number among those of its stage, in the order of declaration. -/
def laneIndexes (stages : String → Option Nat) (stepIds : List String) : String → Option Nat :=
  (stepIds.foldl (fun (acc : (String → Option Nat) × (Nat → Nat)) sid =>
    let stage := (stages sid).getD 0
    let lane := acc.2 stage
    (Function.update acc.1 sid (some lane), Function.update acc.2 stage (lane + 1))) (fun _ => none, fun _ => 0)).1

/-- `task_description[:200]`. -/
def taskSummaryMax : Nat := 200

def firstChars (n : Nat) (s : String) : String := String.ofList (s.toList.take n)

def sameIds (nodes : List AgentGraphNode) (stepIds : List String) : Bool :=
  !nodes.isEmpty && nodes.all (fun n => stepIds.contains n.id) && stepIds.all ((nodes.map (·.id)).contains ·)

def presentationOf (template : Template) (stepIds : List String) : List AgentGraphNode :=
  if sameIds template.nodes stepIds then template.nodes else []

def nodeOf (presentation : List AgentGraphNode) (stages lanes : String → Option Nat) (step : PlannedStep) :
    AgentGraphNode :=
  match presentation.find? (·.id = step.id) with
  | some base => { base with status := .pending }
  | none =>
    { id := step.id
      name := orElseText step.name step.id
      role := step.role
      taskTitle := orElseText step.name step.id
      taskSummary := firstChars taskSummaryMax step.taskDescription
      stage := (stages step.id).getD 0
      lane := (lanes step.id).getD 0 }

def edgeId (dep stepId : String) : String := dep ++ "-" ++ stepId

def edgesOf (steps : List PlannedStep) : List AgentGraphEdge :=
  steps.flatMap (fun step => step.dependencies.map (fun dep =>
    { id := edgeId dep step.id, source := dep, target := step.id, type := .handoff }))

def graphFromPlan (extractDebateSides : DebateSides) (document : PlanDocument) :
    Except PlanValidationError AgentGraph := do
  let stepIds := document.steps.map (·.id)
  let template := buildGraphForProfile extractDebateSides document.profile document.goal
  let order ← toposort (document.plan Unit)
  let stages := stageDepths (document.plan Unit) order
  let lanes := laneIndexes stages stepIds
  return {
    flowName := orElseText document.profile "workflow"
    mode := if sameIds template.nodes stepIds then template.mode else .sequential
    nodes := document.steps.map (nodeOf (presentationOf template stepIds) stages lanes)
    edges := edgesOf document.steps }

/-! ## stages and lanes -/

open Dag (Chain Leveled Ordered above)

def labelOf (depth : String → Option Nat) (sid : String) : Nat := (depth sid).getD 0

theorem stageDepth_eq {O : Type} (plan : Plan O) (depth : String → Option Nat) (sid : String) :
    stageDepth plan depth sid = above plan.depsOf (labelOf depth) sid := by
  have hmax : ∀ ds : List String, ds ≠ [] → 1 + (ds.map (labelOf depth)).foldr max 0 =
      ds.foldr (fun d m => max (labelOf depth d + 1) m) 0 := by
    intro ds
    induction ds with
    | nil => exact fun h => absurd rfl h
    | cons d ds ih =>
      intro _
      cases ds with
      | nil => simp [Nat.add_comm]
      | cons e ds =>
        have hrest := ih (List.cons_ne_nil e ds)
        rw [List.map_cons, List.foldr_cons, List.foldr_cons, ← hrest]
        omega
  unfold stageDepth above
  cases hdeps : plan.depsOf sid with
  | nil => rfl
  | cons d ds => exact hmax (d :: ds) (List.cons_ne_nil d ds)

theorem stageDepths_leveled {O : Type} {plan : Plan O} {order : List String} (h : Ordered plan.depsOf order)
    (hd : order.Nodup) : Leveled plan.depsOf (labelOf (stageDepths plan order)) order := by
  induction h with
  | nil => exact nofun
  | @snoc order x hord hdeps ih =>
    obtain ⟨hd', hnew⟩ : order.Nodup ∧ x ∉ order := by
      rw [List.nodup_append] at hd
      exact ⟨hd.1, fun hx => hd.2.2 x hx x (List.mem_singleton_self x) rfl⟩
    have hfold : stageDepths plan (order ++ [x]) =
        Function.update (stageDepths plan order) x (some (stageDepth plan (stageDepths plan order) x)) := by
      unfold stageDepths
      rw [List.foldl_append]
      rfl
    have hsame : ∀ y ∈ order, labelOf (stageDepths plan (order ++ [x])) y = labelOf (stageDepths plan order) y := by
      intro y hy
      unfold labelOf
      rw [hfold, Function.update_of_ne (fun h : y = x => hnew (h ▸ hy))]
    -- the new entry changes no label above the entries there are
    have habove : ∀ y, (∀ d ∈ plan.depsOf y, d ∈ order) →
        above plan.depsOf (labelOf (stageDepths plan (order ++ [x]))) y =
          above plan.depsOf (labelOf (stageDepths plan order)) y := by
      intro y hy
      exact List.foldr_ext _ _ _ (fun d hdep m => by rw [hsame d (hy d hdep)])
    intro y hy
    rcases List.mem_append.1 hy with hy | hy
    · obtain ⟨pre, post, hsplit⟩ := List.append_of_mem hy
      have hclosed : ∀ d ∈ plan.depsOf y, d ∈ order := by
        intro d hdep
        rw [hsplit]
        exact List.mem_append_left _ (hord.before hsplit d hdep)
      rw [hsame y hy, habove y hclosed]
      exact ih hd' y hy
    · obtain rfl := List.mem_singleton.1 hy
      rw [habove y hdeps, ← stageDepth_eq]
      unfold labelOf
      rw [hfold, Function.update_self]
      rfl

theorem laneIndexes_nodup (stages : String → Option Nat) (stepIds : List String) (hd : stepIds.Nodup) :
    (stepIds.map (fun sid => (labelOf stages sid, labelOf (laneIndexes stages stepIds) sid))).Nodup := by
  let step := fun (acc : (String → Option Nat) × (Nat → Nat)) (sid : String) =>
    ((Function.update acc.1 sid (some (acc.2 (labelOf stages sid))) : String → Option Nat),
      (Function.update acc.2 (labelOf stages sid) (acc.2 (labelOf stages sid) + 1) : Nat → Nat))
  -- the counters are above the lanes given so far
  have hrun : ∀ ids : List String, ids.Nodup →
      (∀ sid ∈ ids, labelOf (ids.foldl step (fun _ => none, fun _ => 0)).1 sid <
        (ids.foldl step (fun _ => none, fun _ => 0)).2 (labelOf stages sid)) ∧
      (ids.map (fun sid => (labelOf stages sid, labelOf (ids.foldl step (fun _ => none, fun _ => 0)).1 sid))).Nodup := by
    intro ids
    induction ids using List.reverseRecOn with
    | nil => exact fun _ => ⟨nofun, List.nodup_nil⟩
    | append_singleton ids x ih =>
      intro hd
      obtain ⟨hd', hnew⟩ : ids.Nodup ∧ x ∉ ids := by
        rw [List.nodup_append] at hd
        exact ⟨hd.1, fun hx => hd.2.2 x hx x (List.mem_singleton_self x) rfl⟩
      obtain ⟨hbelow, hnodup⟩ := ih hd'
      rw [List.foldl_append, List.foldl_cons, List.foldl_nil]
      generalize ids.foldl step (fun _ => none, fun _ => 0) = acc at hbelow hnodup
      have hold : ∀ y ∈ ids, labelOf (step acc x).1 y = labelOf acc.1 y := by
        intro y hy
        exact congrArg (Option.getD · 0) (Function.update_of_ne (fun h : y = x => hnew (h ▸ hy)) _ _)
      have hlast : ∀ y, labelOf (step acc y).1 y = acc.2 (labelOf stages y) := by
        intro y
        simp only [labelOf, step, Function.update_self, Option.getD_some]
      have hcount : ∀ y, (step acc y).2 (labelOf stages y) = acc.2 (labelOf stages y) + 1 := by
        intro y
        simp only [step, Function.update_self]
      have hgrow : ∀ stage, acc.2 stage ≤ (step acc x).2 stage := by
        intro stage
        by_cases hstage : stage = labelOf stages x
        · subst hstage
          rw [hcount]
          exact Nat.le_succ _
        · rw [show (step acc x).2 stage = acc.2 stage from Function.update_of_ne hstage _ _]
      refine ⟨fun y hy => ?_, ?_⟩
      · rcases List.mem_append.1 hy with hy | hy
        · rw [hold y hy]
          exact Nat.lt_of_lt_of_le (hbelow y hy) (hgrow _)
        · obtain rfl := List.mem_singleton.1 hy
          rw [hlast, hcount]
          exact Nat.lt_succ_self _
      · have hmap : ids.map (fun sid => (labelOf stages sid, labelOf (step acc x).1 sid)) =
            ids.map (fun sid => (labelOf stages sid, labelOf acc.1 sid)) :=
          List.map_congr_left (fun y hy => by rw [hold y hy])
        rw [List.map_append, hmap, List.map_cons, List.map_nil, List.nodup_append]
        refine ⟨hnodup, List.nodup_singleton _, fun p hp q hq heq => ?_⟩
        obtain ⟨y, hy, rfl⟩ := List.mem_map.1 hp
        rw [List.mem_singleton.1 hq, hlast, Prod.mk.injEq] at heq
        have hlt := hbelow y hy
        rw [heq.1, heq.2] at hlt
        exact Nat.lt_irrefl _ hlt
  exact (hrun stepIds hd).2

/-! ## the drawing -/

/-- **What the graph of a plan should be.** -/
structure DrawsPlan (graph : AgentGraph) (document : PlanDocument) : Prop where
  nodes : graph.nodes.map (·.id) = document.steps.map (·.id)
  edges : graph.edges.map (fun e => (e.source, e.target)) =
    document.steps.flatMap (fun s => s.dependencies.map (fun dep => (dep, s.id)))
  nodeIds : (graph.nodes.map (·.id)).Nodup
  edgeIds : (graph.edges.map (·.id)).Nodup
  stages : ∀ node ∈ graph.nodes, IsGreatest {n | Chain (document.plan Unit).depsOf node.id n} node.stage
  upward : ∀ e ∈ graph.edges, ∀ a ∈ graph.nodes, ∀ b ∈ graph.nodes, a.id = e.source → b.id = e.target → a.stage < b.stage
  places : (graph.nodes.map (fun n => (n.stage, n.lane))).Nodup

def edgeIds (steps : List PlannedStep) : List String :=
  steps.flatMap (fun s => s.dependencies.map (fun dep => edgeId dep s.id))

def templateStage (template : Template) (sid : String) : Nat :=
  ((template.nodes.find? (·.id = sid)).map (·.stage)).getD 0

section
variable {document : PlanDocument}

theorem mem_depsOf_document (hd : (document.plan Unit).stepIds.Nodup) {s : PlannedStep} (hs : s ∈ document.steps) :
    (document.plan Unit).depsOf s.id = s.dependencies :=
  @depsOf_mem Unit (document.plan Unit) hd _ (List.mem_map_of_mem (f := PlannedStep.toStep) hs)

theorem stepIds_document : (document.plan Unit).stepIds = document.steps.map (·.id) := by
  simp [Plan.stepIds, PlanDocument.plan, Function.comp_def]

theorem leveled_iff_longest (hv : (document.plan Unit).Valid) (level : String → Nat) :
    Leveled (document.plan Unit).depsOf level (document.plan Unit).stepIds ↔
      ∀ sid ∈ (document.plan Unit).stepIds, IsGreatest {n | Chain (document.plan Unit).depsOf sid n} (level sid) := by
  obtain ⟨order, horder⟩ := toposort_total hv.distinct hv.known hv.acyclic
  have hperm := toposortLoop_perm hv.distinct _ _ _ _ (.start hv.distinct) horder
  have hclosed : ∀ sid ∈ order, ∀ dep ∈ (document.plan Unit).depsOf sid, dep ∈ order :=
    fun sid _ dep hdep => hperm.symm.subset (depsOf_known hv.known sid dep hdep)
  have hiff := @Dag.leveled_iff _ _ level _ (toposort_ok hv.distinct horder).1 hclosed
  constructor
  · exact fun h sid hsid => hiff.1 (fun x hx => h x (hperm.subset hx)) sid (hperm.symm.subset hsid)
  · exact fun h sid hsid => hiff.2 (fun x hx => h x (hperm.subset hx)) sid (hperm.symm.subset hsid)

/-- **A graph with the plan's nodes and edges draws it** exactly when the edge ids differ and the stages are one above
those of the dependencies. -/
theorem draws_iff (hv : (document.plan Unit).Valid) (level : String → Nat) {graph : AgentGraph}
    {node : PlannedStep → AgentGraphNode} (hnodes : graph.nodes = document.steps.map node) (hedges : graph.edges = edgesOf document.steps)
    (hid : ∀ s ∈ document.steps, (node s).id = s.id) (hstage : ∀ s ∈ document.steps, (node s).stage = level s.id)
    (hplaces : (graph.nodes.map (fun n => (n.stage, n.lane))).Nodup) :
    DrawsPlan graph document ↔
      (edgeIds document.steps).Nodup ∧ Leveled (document.plan Unit).depsOf level (document.plan Unit).stepIds := by
  have hids : graph.nodes.map (·.id) = document.steps.map (·.id) := by
    rw [hnodes, List.map_map]
    exact List.map_congr_left (fun s hs => hid s hs)
  have hkeys : graph.edges.map (·.id) = edgeIds document.steps := by
    rw [hedges, edgesOf, edgeIds, List.map_flatMap]
    simp only [List.map_map, Function.comp_def]
  constructor
  · intro h
    refine ⟨hkeys ▸ h.edgeIds, (leveled_iff_longest hv level).2 (fun sid hsid => ?_)⟩
    rw [stepIds_document] at hsid
    obtain ⟨s, hs, rfl⟩ := List.mem_map.1 hsid
    have hnode := h.stages (node s) (hnodes ▸ List.mem_map_of_mem hs)
    rw [hid s hs, hstage s hs] at hnode
    exact hnode
  · rintro ⟨hedgeIds, hlevel⟩
    have hlongest := (leveled_iff_longest hv level).1 hlevel
    refine ⟨hids, ?_, ?_, hkeys ▸ hedgeIds, ?_, ?_, hplaces⟩
    · rw [hedges, edgesOf, List.map_flatMap]
      simp only [List.map_map, Function.comp_def]
    · rw [hids, ← stepIds_document]
      exact hv.distinct
    · intro n hn
      rw [hnodes] at hn
      obtain ⟨s, hs, rfl⟩ := List.mem_map.1 hn
      rw [hid s hs, hstage s hs]
      exact hlongest s.id (stepIds_document ▸ List.mem_map_of_mem hs)
    · intro e he a ha b hb hsource htarget
      rw [hnodes] at ha hb
      obtain ⟨sa, hsa, rfl⟩ := List.mem_map.1 ha
      obtain ⟨sb, hsb, rfl⟩ := List.mem_map.1 hb
      rw [hedges] at he
      obtain ⟨s, hs, he⟩ := List.mem_flatMap.1 he
      obtain ⟨dep, hdep, rfl⟩ := List.mem_map.1 he
      rw [hid sa hsa] at hsource
      rw [hid sb hsb] at htarget
      have hmem : s.id ∈ (document.plan Unit).stepIds := stepIds_document ▸ List.mem_map_of_mem hs
      rw [hstage sa hsa, hstage sb hsb, hsource, htarget, hlevel s.id hmem]
      exact Dag.lt_above (mem_depsOf_document hv.distinct hs ▸ hdep)

end

/-! ## the templates -/

theorem template_places (extractDebateSides : DebateSides) (question : String) (spec : TopologySpec) :
    ((buildGraph extractDebateSides question spec).nodes.map (fun n => (n.stage, n.lane))).Nodup := by
  cases spec with
  | debate =>
    change [(0, 0), (0, 1), (1, 0)].Nodup
    decide
  | deepResearch | parallelResearch | writeReview | taskDecomposition | general =>
    rw [buildGraph]
    decide +kernel

theorem sameIds_find {nodes : List AgentGraphNode} {stepIds : List String} (h : sameIds nodes stepIds = true)
    {sid : String} (hsid : sid ∈ stepIds) : ∃ base ∈ nodes, nodes.find? (·.id = sid) = some base ∧ base.id = sid := by
  simp only [sameIds, Bool.and_eq_true, List.all_eq_true] at h
  have hmem : sid ∈ nodes.map (·.id) := by simpa using h.2 sid hsid
  obtain ⟨n, hn, hnid⟩ := List.mem_map.1 hmem
  obtain ⟨base, hbase⟩ := Option.isSome_iff_exists.1
    (List.find?_isSome (p := fun x : AgentGraphNode => decide (x.id = sid)).2 ⟨n, hn, by simpa using hnid⟩)
  exact ⟨base, List.mem_of_find?_eq_some hbase, hbase, by simpa using List.find?_some hbase⟩

/-- **`graph_from_plan` draws a valid plan exactly when** the texts its dependencies are joined to differ and, where the
nodes of the template are used, the template's stage of each step is one above those of its dependencies. -/
theorem graphFromPlan_draws_iff (extractDebateSides : DebateSides) (document : PlanDocument)
    (hvalid : validatePlan document = .ok ()) :
    ∃ graph, graphFromPlan extractDebateSides document = .ok graph ∧
      (DrawsPlan graph document ↔ (edgeIds document.steps).Nodup ∧
        (sameIds (buildGraphForProfile extractDebateSides document.profile document.goal).nodes
            (document.steps.map (·.id)) = true →
          Leveled (document.plan Unit).depsOf
            (templateStage (buildGraphForProfile extractDebateSides document.profile document.goal))
            (document.steps.map (·.id)))) := by
  have hv := validate_spec hvalid
  obtain ⟨-, -, order, horder⟩ := validate_ok hvalid
  have hperm := toposortLoop_perm hv.distinct _ _ _ _ (.start hv.distinct) horder
  have hplaces : ((buildGraphForProfile extractDebateSides document.profile document.goal).nodes.map
      (fun n => (n.stage, n.lane))).Nodup := template_places extractDebateSides document.goal _
  have hdistinct : (document.steps.map (·.id)).Nodup := stepIds_document ▸ hv.distinct
  unfold graphFromPlan
  rw [horder]
  refine ⟨_, rfl, ?_⟩
  generalize buildGraphForProfile extractDebateSides document.profile document.goal = template at hplaces ⊢
  cases hsame : sameIds template.nodes (document.steps.map (·.id)) with
  | true =>
    have hbase : ∀ s ∈ document.steps, ∃ base ∈ template.nodes,
        template.nodes.find? (·.id = s.id) = some base ∧ base.id = s.id :=
      fun s hs => sameIds_find hsame (List.mem_map_of_mem hs)
    have hnode : ∀ stages lanes, ∀ s ∈ document.steps, ∀ base, template.nodes.find? (·.id = s.id) = some base →
        nodeOf (presentationOf template (document.steps.map (·.id))) stages lanes s =
          { base with status := .pending } := by
      intro stages lanes s _ base hfind
      rw [presentationOf, if_pos hsame, nodeOf, hfind]
    rw [draws_iff hv (templateStage template) rfl rfl, stepIds_document]
    · exact ⟨fun h => ⟨h.1, fun _ => h.2⟩, fun h => ⟨h.1, h.2 rfl⟩⟩
    · intro s hs
      obtain ⟨base, -, hfind, hid⟩ := hbase s hs
      rw [hnode _ _ s hs base hfind]
      exact hid
    · intro s hs
      obtain ⟨base, -, hfind, -⟩ := hbase s hs
      rw [hnode _ _ s hs base hfind, templateStage, hfind]
      rfl
    · -- two steps in one place would be one node of the template
      rw [List.map_map]
      refine List.Nodup.map_on (fun s hs t ht heq => ?_) (List.Nodup.of_map _ hdistinct)
      obtain ⟨base, hmem, hfind, hid⟩ := hbase s hs
      obtain ⟨base', hmem', hfind', hid'⟩ := hbase t ht
      simp only [Function.comp_apply, hnode _ _ s hs base hfind, hnode _ _ t ht base' hfind'] at heq
      obtain rfl := List.inj_on_of_nodup_map hplaces hmem hmem' heq
      exact List.inj_on_of_nodup_map hdistinct hs ht (hid.symm.trans hid')
  | false =>
    have hnode : ∀ stages lanes s, nodeOf (presentationOf template (document.steps.map (·.id))) stages lanes s =
        { id := s.id
          name := orElseText s.name s.id
          role := s.role
          taskTitle := orElseText s.name s.id
          taskSummary := firstChars taskSummaryMax s.taskDescription
          stage := labelOf stages s.id
          lane := labelOf lanes s.id } := by
      intro stages lanes s
      rw [presentationOf, if_neg (by simp [hsame]), nodeOf]
      rfl
    have hlevel : Leveled (document.plan Unit).depsOf (labelOf (stageDepths (document.plan Unit) order))
        (document.plan Unit).stepIds := fun sid hsid =>
      stageDepths_leveled (toposort_ok hv.distinct horder).1 (hperm.nodup_iff.2 hv.distinct) sid (hperm.symm.subset hsid)
    rw [draws_iff hv (labelOf (stageDepths (document.plan Unit) order)) rfl rfl]
    · exact ⟨fun h => ⟨h.1, nofun⟩, fun h => ⟨h.1, hlevel⟩⟩
    · intro s _
      rw [hnode]
    · intro s _
      rw [hnode]
    · have hlanes := laneIndexes_nodup (stageDepths (document.plan Unit) order) _ hdistinct
      rw [List.map_map] at hlanes
      rw [List.map_map]
      refine (congrArg List.Nodup (List.map_congr_left (fun s _ => ?_))).mp hlanes
      simp only [Function.comp_apply, hnode]


theorem graphFromPlan_draws_template :
    ∃ graph, graphFromPlan (fun _ => none) (buildDeepResearchPlan "q") = .ok graph ∧
      DrawsPlan graph (buildDeepResearchPlan "q") := by
  obtain ⟨graph, hgraph, hiff⟩ := graphFromPlan_draws_iff (fun _ => none) (buildDeepResearchPlan "q") (by decide +kernel)
  refine ⟨graph, hgraph, hiff.2 ⟨by decide +kernel, fun _ => ?_⟩⟩
  unfold Leveled
  decide +kernel

def branchingPlan : PlanDocument where
  profile := "deep_research"
  steps := [{ id := "researcher" }, { id := "analyst" }, { id := "writer", dependencies := ["researcher", "analyst"] }]

/-- The analyst is drawn at stage 1 though nothing comes before it. -/
theorem branching_not_drawn : validatePlan branchingPlan = .ok () ∧
    ∃ graph, graphFromPlan (fun _ => none) branchingPlan = .ok graph ∧ ¬ DrawsPlan graph branchingPlan := by
  have hshape : (graphFromPlan (fun _ => none) branchingPlan).map (fun g => g.nodes.map (fun n => (n.id, n.stage))) =
      .ok [("researcher", 0), ("analyst", 1), ("writer", 2)] := by decide +kernel
  refine ⟨by decide +kernel, ?_⟩
  cases hgraph : graphFromPlan (fun _ => none) branchingPlan with
  | error e =>
    rw [hgraph] at hshape
    cases hshape
  | ok graph =>
    refine ⟨graph, rfl, fun h => ?_⟩
    rw [hgraph] at hshape
    have hnodes : graph.nodes.map (fun n => (n.id, n.stage)) = [("researcher", 0), ("analyst", 1), ("writer", 2)] :=
      Except.ok.inj hshape
    have hmem : ("analyst", 1) ∈ graph.nodes.map (fun n => (n.id, n.stage)) := by
      rw [hnodes]
      exact List.mem_cons_of_mem _ List.mem_cons_self
    obtain ⟨node, hnode, heq⟩ := List.mem_map.1 hmem
    rw [Prod.mk.injEq] at heq
    have hchain := (h.stages node hnode).1
    rw [heq.1, heq.2] at hchain
    cases hchain with
    | step hdep _ =>
      have hnone : (branchingPlan.plan Unit).depsOf "analyst" = [] := by decide +kernel
      rw [hnone] at hdep
      cases hdep

/-- Two dependencies of a valid plan that are joined to one edge id. -/
example : validatePlan { steps := [{ id := "a" }, { id := "b-c", dependencies := ["a"] }, { id := "a-b" },
      { id := "c", dependencies := ["a-b"] }] } = .ok () ∧ edgeId "a" "b-c" = edgeId "a-b" "c" := by
  decide +kernel

end Graph
end Workflow
end MyGpt
