import MyGpt.PlanValidation
import MyGpt.Characters
/-!
# PlanTemplates — the plans declared for the profiles

The profiles of `workflow/topology.py` and the template plan of each (`workflow/planner.py`).  Ids and dependencies of a
template do not depend on the question, so every template plan validates (`buildPlan_validate`).
-/
namespace MyGpt
namespace Workflow

/-- `str.strip`. -/
def stripped (s : String) : String := String.ofList (Chat.strip s.toList)

structure PlannedStep extends Step where
  role : String := ""
  name : String := ""
  taskDescription : String := ""
  toolAllowlist : List String := []
  timeout : Option Nat := none
  /-- `acceptance_criteria["min_chars"]`. -/
  minChars : Nat := 1
  deriving DecidableEq

structure PlanDocument where
  version : Nat := 1
  goal : String := ""
  profile : String := ""
  steps : List PlannedStep := []
  maxReplans : Int := 1
  deriving DecidableEq

def PlanDocument.plan (O : Type) (document : PlanDocument) : Plan O where
  version := document.version
  steps := document.steps.map (·.toStep)
  maxReplans := document.maxReplans

def validatePlan (document : PlanDocument) : Except PlanValidationError Unit := (document.plan Unit).validate

/-! ## the profiles -/

/-- The specs of `_TOPOLOGIES`, by their profile. -/
inductive TopologySpec
  | deepResearch | parallelResearch | debate | writeReview | taskDecomposition | general
  deriving DecidableEq

/-- `topology_for`: an unknown name is the default profile. -/
def topologyFor (profile : String) : TopologySpec :=
  match stripped profile with
  | "parallel_research" => .parallelResearch
  | "debate" => .debate
  | "write_review" => .writeReview
  | "task_decomposition" => .taskDecomposition
  | "general" => .general
  | _ => .deepResearch

/-- `_TRANSIENT`, the retry policy of every template step. -/
def transientPolicy : RetryPolicy where
  maxRetries := 1
  transientErrors := ["timeout", "temporarily", "rate limit", "503", "502", "connection"]

def templateStep (id role name taskDescription : String) (dependencies : List String)
    (toolAllowlist : List String) : PlannedStep :=
  { id, dependencies, role, name, taskDescription, toolAllowlist, retryPolicy := transientPolicy }

def buildDeepResearchPlan (question : String) : PlanDocument :=
  let q := stripped question
  { goal := q
    profile := "deep_research"
    steps := [
      templateStep "researcher" "researcher" "Researcher" ("Decompose and gather evidence for: " ++ q) []
        ["web_search", "http_get", "file_analyze"],
      templateStep "analyst" "analyst" "Analyst" "Cross-check the researcher's evidence for sufficiency."
        ["researcher"] [],
      templateStep "writer" "writer" "Writer" ("Write the cited final answer to: " ++ q) ["analyst"] []] }

def buildParallelResearchPlan (question : String) : PlanDocument :=
  let q := stripped question
  { goal := q
    profile := "parallel_research"
    steps := [
      templateStep "coordinator" "coordinator" "Coordinator" ("Split the question into web + KB lines: " ++ q) [] [],
      templateStep "web-researcher" "researcher" "Web Researcher"
        "Gather external evidence via web_search / http_get." ["coordinator"] ["web_search", "http_get"],
      templateStep "kb-researcher" "researcher" "KB Researcher" "Gather internal evidence via file_analyze (RAG)."
        ["coordinator"] ["file_analyze"],
      templateStep "analyst" "analyst" "Analyst" "Merge and cross-check both research lines."
        ["web-researcher", "kb-researcher"] [],
      templateStep "writer" "writer" "Writer" ("Write the cited final answer to: " ++ q) ["analyst"] []] }

/-- The two candidates `extract_debate_sides` finds in a text. -/
abbrev DebateSides : Type := String → Option (String × String)

def orElseText (s default : String) : String := if s = "" then default else s

def buildDebatePlan (extractDebateSides : DebateSides) (question : String) : PlanDocument :=
  let sides := extractDebateSides question
  let sa := orElseText (stripped ((sides.map (·.1)).getD "A")) "A"
  let sb := orElseText (stripped ((sides.map (·.2)).getD "B")) "B"
  { goal := stripped question
    profile := "debate"
    steps := [
      templateStep "advocate-a" "advocate" (sa ++ " Advocate") ("Build the strongest structured case for " ++ sa ++ ".")
        [] [],
      templateStep "advocate-b" "advocate" (sb ++ " Advocate") ("Build the strongest structured case for " ++ sb ++ ".")
        [] [],
      templateStep "judge" "judge" "Judge"
        ("Weigh " ++ sa ++ " vs " ++ sb ++ " on the same dimensions; conditional verdict.")
        ["advocate-a", "advocate-b"] []] }

def clampWorkers (n : Int) : Nat := (max 1 (min 6 n)).toNat

def workerId (i : Nat) : String := "worker-" ++ toString i

def buildTaskDecompositionPlan (question : String) (workerCount : Int) : PlanDocument :=
  let q := stripped question
  let n := clampWorkers workerCount
  { goal := q
    profile := "task_decomposition"
    steps :=
      [templateStep "decomposer" "coordinator" "Coordinator"
        ("Break the request into " ++ toString n ++ " independent, parallelisable work items: " ++ q) [] []] ++
      (List.range' 1 n).map (fun i => templateStep (workerId i) "worker" ("Worker " ++ toString i)
        ("Complete work item " ++ toString i ++ " from the coordinator's breakdown. " ++
          "Produce a self-contained result that needs no further work.") ["decomposer"] []) ++
      [templateStep "integrator" "integrator" "Integrator"
        ("Merge every worker's output into one coherent deliverable; resolve conflicts and remove duplication.")
        ((List.range' 1 n).map workerId) []] }

def buildWriteReviewPlan (question : String) : PlanDocument :=
  let q := stripped question
  { goal := q
    profile := "write_review"
    steps := [
      templateStep "drafter" "drafter" "Drafter" ("Write a complete first draft for: " ++ q) [] [],
      templateStep "reviewer" "reviewer" "Reviewer"
        ("Review the draft against the request. Output a STRUCTURED list of concrete problems " ++
          "(factual, logical, structural, clarity). Do NOT rewrite the draft yourself.") ["drafter"] [],
      templateStep "finalizer" "finalizer" "Finalizer"
        ("Produce the final version, addressing every point in the reviewer's list. " ++
          "Keep what was already good.") ["reviewer"] []] }

def buildPlan (extractDebateSides : DebateSides) (question : String) : TopologySpec → PlanDocument
  | .deepResearch | .general => buildDeepResearchPlan question
  | .parallelResearch => buildParallelResearchPlan question
  | .debate => buildDebatePlan extractDebateSides question
  | .writeReview => buildWriteReviewPlan question
  | .taskDecomposition => buildTaskDecompositionPlan question 3

def buildPlanForProfile (extractDebateSides : DebateSides) (profile question : String) : PlanDocument :=
  buildPlan extractDebateSides question (topologyFor profile)

/-! ## the templates validate -/

theorem templateStep_toStep (id role name taskDescription : String) (dependencies toolAllowlist : List String) :
    (templateStep id role name taskDescription dependencies toolAllowlist).toStep =
      { id, dependencies, retryPolicy := transientPolicy } := rfl

theorem validatePlan_of_steps {document : PlanDocument} (steps : List Step)
    (h : document.steps.map (·.toStep) = steps) (hvalid : Plan.validate (O := Unit) { steps } = .ok ()) :
    validatePlan document = .ok () := by
  have hv := validate_spec hvalid
  refine (show (document.plan Unit).Valid from hv.of_same (f := id) ?_ (fun st => ⟨rfl, rfl⟩)).validate
  rw [List.map_id]
  exact h

theorem taskDecomposition_steps (question : String) :
    (buildTaskDecompositionPlan question 3).steps.map (·.toStep) =
      [{ id := "decomposer", retryPolicy := transientPolicy },
        { id := "worker-1", dependencies := ["decomposer"], retryPolicy := transientPolicy },
        { id := "worker-2", dependencies := ["decomposer"], retryPolicy := transientPolicy },
        { id := "worker-3", dependencies := ["decomposer"], retryPolicy := transientPolicy },
        { id := "integrator", dependencies := ["worker-1", "worker-2", "worker-3"],
          retryPolicy := transientPolicy }] := by
  have hworkers : (List.range' 1 (clampWorkers 3)).map workerId = ["worker-1", "worker-2", "worker-3"] := by
    decide +kernel
  have hmap : (List.range' 1 (clampWorkers 3)).map
      (fun i => ({ id := workerId i, dependencies := ["decomposer"], retryPolicy := transientPolicy } : Step)) =
      ((List.range' 1 (clampWorkers 3)).map workerId).map
        (fun sid => { id := sid, dependencies := ["decomposer"], retryPolicy := transientPolicy }) := by
    rw [List.map_map]
    rfl
  simp only [buildTaskDecompositionPlan, List.map_append, List.map_map, List.map_cons, List.map_nil,
    Function.comp_def, templateStep_toStep]
  rw [hmap, hworkers]
  rfl

theorem buildPlan_steps (extractDebateSides : DebateSides) (question : String) (spec : TopologySpec) :
    (buildPlan extractDebateSides question spec).steps.map (·.toStep) =
      (buildPlan (fun _ => none) "" spec).steps.map (·.toStep) := by
  cases spec <;>
    simp only [buildPlan, buildDeepResearchPlan, buildParallelResearchPlan, buildDebatePlan, buildWriteReviewPlan,
      taskDecomposition_steps, List.map_cons, List.map_nil, templateStep_toStep]

theorem buildPlan_validate (extractDebateSides : DebateSides) (question : String) (spec : TopologySpec) :
    validatePlan (buildPlan extractDebateSides question spec) = .ok () := by
  refine validatePlan_of_steps _ (buildPlan_steps extractDebateSides question spec) ?_
  cases spec with
  | taskDecomposition =>
    rw [buildPlan, taskDecomposition_steps]
    decide +kernel
  | deepResearch | parallelResearch | debate | writeReview | general => decide +kernel

end Workflow
end MyGpt
