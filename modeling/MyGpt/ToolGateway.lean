import MyGpt.ToolPolicy
/-!
# ToolGateway — the gates a tool call goes through

`ToolGateway.execute`, from one await to the next: the quota check, the gates that need no answer from outside, the
guardian, the query for an approval, and `tool.run`.  The calls of a run share its exec policy and its circuit breaker;
approvals are rows that other transactions write, and between two awaits of a call everything else may move.
-/
namespace MyGpt
namespace Tools

inductive ApprovalStatus
  | pending | approved | rejected | expired
  deriving DecidableEq

structure ToolApproval where
  id : Nat
  runId : String
  toolName : String
  arguments : Arguments
  argumentsHash : String
  riskLevel : RiskLevel
  status : ApprovalStatus
  expiresAt : Option Int

inductive ExecutionStatus
  | success | error | blocked | quotaExceeded | needsApproval | timeout
  deriving DecidableEq

structure ToolExecution where
  ok : Bool
  toolCallId : String
  toolName : String
  arguments : Arguments
  status : ExecutionStatus
  error : Option String := none
  approvalId : Option Nat := none

structure Refusal where
  status : ExecutionStatus
  error : String

/-- A hook's `permission_decision`. -/
inductive Permission
  | allow | deny
  deriving DecidableEq

structure PreToolUseResult where
  continue_ : Bool := true
  permissionDecision : Option Permission := none
  updatedInput : Option Arguments := none
  systemMessage : String := ""

structure Request where
  toolCallId : String
  toolName : String
  arguments : Arguments
  strict : Option Bool := none

/-- How `tool.run` ends. -/
inductive RunOutcome
  | result
  | timedOut
  | toolError (text : String)
  | raised (type_ text : String)

/-- One run's gateway; `guardian`: a service and a provider were passed. -/
structure ToolGateway where
  py : PyText
  hashing : Hashing
  words : Security.WordChars
  runId : Option String
  user : Option User
  tools : List BaseTool
  guardian : Bool

inductive Phase
  | idle
  /-- `check_tool` of the quota service -/
  | quota (req : Request)
  /-- `guardian.judge` -/
  | judging (req : Request) (tool : BaseTool) (args : Arguments)
  /-- the query of `_find_valid_approval` -/
  | lookingUp (req : Request) (tool : BaseTool) (args : Arguments)
  /-- `tool.run` -/
  | running (req : Request) (tool : BaseTool) (args : Arguments)
  | finished (result : ToolExecution)
  /-- an exception or a cancel left `execute` -/
  | unwound

/-- `tool.run(**args)`. -/
structure Invocation where
  call : Nat
  tool : BaseTool
  args : Arguments

structure World where
  approvals : List ToolApproval
  now : Int
  policyFile : PolicyFile
  settings : Settings
  disabled : List String
  execPolicy : Option ExecPolicy := none
  breaker : Option RejectionCircuitBreaker
  calls : Nat → Phase := fun _ => .idle
  invoked : List Invocation := []

def World.setCall (w : World) (call : Nat) (phase : Phase) : World :=
  { w with calls := Function.update w.calls call phase }

/-- `_finalize` of a call that fails. -/
def World.refuse (w : World) (call : Nat) (req : Request) (args : Arguments) (r : Refusal) (approvalId : Option Nat := none) :
    World :=
  w.setCall call (.finished ⟨false, req.toolCallId, req.toolName, args, r.status, some r.error, approvalId⟩)

def World.invoke (w : World) (call : Nat) (req : Request) (tool : BaseTool) (args : Arguments) : World :=
  { w.setCall call (.running req tool args) with invoked := w.invoked ++ [⟨call, tool, args⟩] }

section
variable (g : ToolGateway)

def ToolGateway.get (toolName : String) : Except Refusal BaseTool :=
  match g.tools.find? (fun tool => tool.name = toolName) with
  | some tool => .ok tool
  | none => .error ⟨.error, "Unknown tool: " ++ toolName⟩

/-- `run_pre_tool_use`: any denial wins, and after that the last rewrite. -/
def runPreToolUse (results : List PreToolUseResult) : PreToolUseResult :=
  if results.any (fun r => r.permissionDecision = some .deny || !r.continue_) then
    { continue_ := false, permissionDecision := some .deny }
  else
    { permissionDecision := if results.any (fun r => r.permissionDecision = some .allow) then some .allow else none
      updatedInput := (results.filterMap (·.updatedInput)).getLast?
      systemMessage := String.intercalate "\n\n" ((results.map (·.systemMessage)).filter (· ≠ "")) }

def afterHooks (args : Arguments) (results : Option (List PreToolUseResult)) : Except Refusal Arguments :=
  match results.map runPreToolUse with
  | none => .ok args
  | some folded =>
    if folded.permissionDecision = some .deny ∨ folded.continue_ = false then
      .error ⟨.blocked, "blocked by PreToolUse hook: " ++ (if folded.systemMessage = "" then "denied" else folded.systemMessage)⟩
    else .ok (folded.updatedInput.getD args)

def permitted (w : World) (req : Request) (tool : BaseTool) : Except Refusal Unit :=
  if isToolAllowed w.disabled w.settings req.toolName g.user req.strict = false then
    .error ⟨.blocked, "tool " ++ g.py.quoted req.toolName ++ " is not permitted in this environment"⟩
  else if tool.requiresUser ∧ g.user = none then
    .error ⟨.blocked, "tool " ++ g.py.quoted req.toolName ++ " requires an authenticated user scope"⟩
  else .ok ()

def World.policyForRun (w : World) : ExecPolicy := w.execPolicy.getD (loadActiveExecPolicy g.py w.policyFile)

def World.loadPolicy (w : World) (args : Arguments) : World :=
  if (argvFromArguments args).isSome then { w with execPolicy := some (w.policyForRun g) } else w

def execGate (policy : ExecPolicy) (args : Arguments) : Except Refusal Unit :=
  match argvFromArguments args with
  | none => .ok ()
  | some argv =>
    if policy.decide argv = .forbidden then
      .error ⟨.blocked, "命令被 exec 策略禁止执行 (forbidden by policy): " ++ String.intercalate " " (argv.take 3)⟩
    else .ok ()

/-- `str(args.get("sql", ""))`. -/
def sqlOf (args : Arguments) : Chat.Text := (g.py.str ((Json.field args "sql").getD (.str ""))).toList

def sqlGate (toolName : String) (args : Arguments) : Except Refusal Unit :=
  if toolName = "db_query" then
    match validateReadonlySql g.words (sqlOf g args) with
    | .error text => .error ⟨.blocked, text⟩
    | .ok _ => .ok ()
  else .ok ()

def World.proceed (w : World) (call : Nat) (req : Request) (tool : BaseTool) (args : Arguments) (autoAllowed : Bool) : World :=
  if shouldRequireApproval tool && !autoAllowed then w.setCall call (.lookingUp req tool args)
  else w.invoke call req tool args

def World.judgeOrProceed (w : World) (call : Nat) (req : Request) (tool : BaseTool) (args : Arguments) : World :=
  if g.guardian && shouldRequireApproval tool then w.setCall call (.judging req tool args)
  else w.proceed call req tool args false

/-- `_execute_inner` up to its first await. -/
def World.executeInner (w : World) (call : Nat) (req : Request) (results : Option (List PreToolUseResult)) : World :=
  match g.get req.toolName with
  | .error r => w.refuse call req req.arguments r
  | .ok tool =>
    match afterHooks req.arguments results with
    | .error r => w.refuse call req req.arguments r
    | .ok args =>
      match permitted g w req tool with
      | .error r => w.refuse call req args r
      | .ok () =>
        match execGate (w.policyForRun g) args with
        | .error r => (w.loadPolicy g args).refuse call req args r
        | .ok () =>
          match sqlGate g req.toolName args with
          | .error r => (w.loadPolicy g args).refuse call req args r
          | .ok () => (w.loadPolicy g args).judgeOrProceed g call req tool args

def World.judged (w : World) (call : Nat) (req : Request) (tool : BaseTool) (args : Arguments)
    (verdict : Option GuardianVerdict) : World :=
  match verdict with
  | none => w.proceed call req tool args false
  | some verdict =>
    let breaker := w.breaker.map (·.record verdict)
    if breaker.any (·.shouldAbort) then
      { w with breaker }.refuse call req args
        ⟨.blocked, "guardian: 连续多次拒绝，已中止本轮 (rejection circuit breaker)"⟩
    else { w with breaker }.proceed call req tool args verdict.allowed

/-- The rows `_find_valid_approval` selects. -/
def selects (toolName : String) (args : Arguments) (ap : ToolApproval) : Bool :=
  some ap.runId = g.runId ∧ ap.toolName = toolName ∧ ap.argumentsHash = g.hashing.argumentsHash toolName args ∧
    ap.status = .approved

def findValidApproval (w : World) (toolName : String) (args : Arguments) : Option ToolApproval :=
  (w.approvals.filter (selects g toolName args)).find? (fun ap => !isExpired ap.expiresAt w.now)

def pendingApproval (w : World) (id : Nat) (runId : String) (tool : BaseTool) (args : Arguments) : ToolApproval :=
  { id, runId, toolName := tool.name, arguments := args, argumentsHash := g.hashing.argumentsHash tool.name args
    riskLevel := riskLevelFor tool, status := .pending, expiresAt := some (expiryFromNow w.now) }

/-- The query has returned; `id`: the id of a new row. -/
def World.found (w : World) (call : Nat) (req : Request) (tool : BaseTool) (args : Arguments) (id : Nat) : World :=
  match findValidApproval g w req.toolName args with
  | some _ => w.invoke call req tool args
  | none =>
    match g.runId with
    | none => w.refuse call req args ⟨.blocked, "此工具需要人工确认，但当前无运行上下文 (no run context)"⟩
    | some runId =>
      { w with approvals := w.approvals ++ [pendingApproval g w id runId tool args] }.refuse call req args
        ⟨.needsApproval, "此工具需要人工确认后才能执行 (approval required)"⟩ (some id)

/-- `tool.run` has returned. -/
def World.returned (w : World) (call : Nat) (req : Request) (args : Arguments) : RunOutcome → World
  | .result => w.setCall call (.finished ⟨true, req.toolCallId, req.toolName, args, .success, none, none⟩)
  | .timedOut => w.refuse call req args ⟨.timeout, "tool " ++ g.py.quoted req.toolName ++ " timed out after 30s"⟩
  | .toolError text => w.refuse call req args ⟨.error, "tool error: " ++ text⟩
  | .raised type_ text => w.refuse call req args ⟨.error, type_ ++ ": " ++ text⟩

inductive Act
  | execute (call : Nat) (req : Request)
  | quotaExceeded (call : Nat) (reason : String)
  | admitted (call : Nat) (results : Option (List PreToolUseResult))
  | judged (call : Nat) (verdict : Option GuardianVerdict)
  | found (call : Nat) (id : Nat)
  | returned (call : Nat) (outcome : RunOutcome)
  | unwind (call : Nat)
  | approvals (rows : List ToolApproval)
  | clock (now : Int)
  | configure (policyFile : PolicyFile) (settings : Settings) (disabled : List String)

def step (w : World) : Act → Option World
  | .execute call req =>
    match w.calls call with
    | .idle => some (w.setCall call (.quota req))
    | _ => none
  | .quotaExceeded call reason =>
    match w.calls call with
    | .quota req => some (w.refuse call req req.arguments ⟨.quotaExceeded, reason⟩)
    | _ => none
  | .admitted call results =>
    match w.calls call with
    | .quota req => some (w.executeInner g call req results)
    | _ => none
  | .judged call verdict =>
    match w.calls call with
    | .judging req tool args => some (w.judged call req tool args verdict)
    | _ => none
  | .found call id =>
    match w.calls call with
    | .lookingUp req tool args => some (w.found g call req tool args id)
    | _ => none
  | .returned call outcome =>
    match w.calls call with
    | .running req _ args => some (w.returned g call req args outcome)
    | _ => none
  | .unwind call =>
    match w.calls call with
    | .idle | .finished _ | .unwound => none
    | _ => some (w.setCall call .unwound)
  | .approvals rows => some { w with approvals := rows }
  | .clock now => some { w with now }
  | .configure policyFile settings disabled => some { w with policyFile, settings, disabled }

end

end Tools
end MyGpt
