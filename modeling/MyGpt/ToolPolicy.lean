import MyGpt.Json
import MyGpt.PromptBoundary
/-!
# ToolPolicy — what a tool call is checked against

`agents/exec_policy.py`, `agents/policies/` and the circuit breaker of `agents/guardian.py`: the prefix rules of the exec
policy, the checks on the SQL of `db_query`, the permissions of an environment, and how long an approval counts.
-/
namespace MyGpt
namespace Tools

open Chat (Text strip isSpace)
open Security (WordChars)

/-- The keyword arguments of a call. -/
abbrev Arguments := List (String × Json)

/-- `str(value)` of a value that is no string, and `repr` of a string. -/
structure PyText where
  ofJson : Json → String
  quoted : String → String

def PyText.str (py : PyText) : Json → String
  | .str s => s
  | value => py.ofJson value

/-- `str.lower`, as far as a word in ASCII can tell. -/
def lowerChar (c : Char) : Char := if c.toNat = 0x212a then 'k' else c.toLower

/-- `value.strip().lower()`. -/
def normalized (value : String) : String := String.ofList ((strip value.toList).map lowerChar)

/-! ## the exec policy -/

inductive Decision
  | allow | prompt | forbidden
  deriving DecidableEq

structure PrefixRule where
  pattern : List String
  decision : Decision
  deriving DecidableEq

structure ExecPolicy where
  rules : List PrefixRule := []
  default : Decision := .prompt
  deriving DecidableEq

def ExecPolicy.decide (policy : ExecPolicy) (argv : List String) : Decision :=
  ((policy.rules.find? (fun rule => rule.pattern.isPrefixOf argv)).map (·.decision)).getD policy.default

def forbiddenSubstrings : List Text := [['*'], ['?'], [':', '/', '/']]

/-- `bad in tok`. -/
def contains (bad : Text) (text : Text) : Bool := text.tails.any (fun rest => bad.isPrefixOf rest)

/-- `validate_pattern` raises nothing. -/
def validPattern (pattern : List String) : Bool :=
  !pattern.isEmpty && pattern.all (fun tok => forbiddenSubstrings.all (fun bad => !contains bad tok.toList))

def normalizeDecision (py : PyText) (value : Json) (fallback : Decision := .prompt) : Decision :=
  let text := if value.truthy then normalized (py.str value) else ""
  if text = "allow" then .allow
  else if text = "prompt" then .prompt
  else if text = "forbidden" then .forbidden
  else fallback

/-- What lies under `EXEC_POLICY_FILE`. -/
inductive PolicyFile
  | unset
  | missing
  | corrupt
  | json (data : Json)

structure RawRule where
  pattern : List Json
  decision : Json

structure RawPolicy where
  rules : List RawRule := []
  default : Json := .str "prompt"

/-- `list(value)`; nothing when it raises. -/
def listOf : Json → Option (List Json)
  | .arr items => some items
  | .str s => some (s.toList.map (fun c => .str (String.singleton c)))
  | .obj fields => some (fields.map (fun kv => .str kv.1))
  | _ => none

def rawRule : Json → Option RawRule
  | .obj fields =>
    match (Json.field fields "pattern").bind listOf, Json.field fields "decision" with
    | some pattern, some decision => some ⟨pattern, decision⟩
    | _, _ => none
  | _ => none

/-- `RuleStore.load`; nothing when it raises. -/
def loadRules : PolicyFile → Option RawPolicy
  | .unset | .missing => some {}
  | .corrupt => none
  | .json (.obj fields) =>
    ((listOf ((Json.field fields "rules").getD (.arr []))).bind (·.mapM rawRule)).map
      (fun rules => ⟨rules, (Json.field fields "default").getD (.str "prompt")⟩)
  | .json _ => none

def loadActiveExecPolicy (py : PyText) (file : PolicyFile) : ExecPolicy :=
  match file with
  | .unset => {}
  | file =>
    match loadRules file with
    | none => {}
    | some raw =>
      { rules := raw.rules.filterMap (fun r =>
          let pattern := r.pattern.map py.str
          if validPattern pattern then some ⟨pattern, normalizeDecision py r.decision⟩ else none)
        default := normalizeDecision py raw.default }

def tokenOf : Json → Option String
  | .str tok => if tok = "" then none else some tok
  | _ => none

def argvFromArguments (arguments : Arguments) : Option (List String) :=
  match Json.field arguments "command" with
  | some (.arr (tok :: toks)) => (tok :: toks).mapM tokenOf
  | _ => none

/-! ## `validate_readonly_sql` -/

/-- What is behind the first `*/`. -/
def afterClose : Text → Option Text
  | '*' :: '/' :: rest => some rest
  | _ :: rest => afterClose rest
  | [] => none

/-- `_BLOCK_COMMENT` at the head of a text. -/
def blockComment (text : Text) : Nat :=
  match text with
  | '/' :: '*' :: rest => ((afterClose rest).map (fun tail => text.length - tail.length)).getD 0
  | _ => 0

/-- `_LINE_COMMENT` at the head of a text. -/
def lineComment : Text → Nat
  | '-' :: '-' :: rest => 2 + (rest.takeWhile (· != '\n')).length
  | _ => 0

/-- `cleaned.strip().rstrip(";").strip()`. -/
def stripSemicolons (text : Text) : Text := strip ((strip text).reverse.dropWhile (· == ';')).reverse

def forbiddenKeywords : List Text :=
  ["insert".toList, "update".toList, "delete".toList, "drop".toList, "alter".toList, "truncate".toList, "merge".toList,
    "grant".toList, "revoke".toList, "create".toList, "vacuum".toList, "copy".toList, "attach".toList, "detach".toList,
    "pragma".toList, "call".toList, "exec".toList, "execute".toList, "into".toList, "pg_sleep".toList,
    "pg_terminate_backend".toList, "lo_export".toList, "lo_import".toList, "pg_read_file".toList, "pg_ls_dir".toList]

/-- A character of a keyword under `re.IGNORECASE`. -/
def matchesIgnoringCase (p c : Char) : Bool :=
  c == p || c == p.toUpper || (p == 'i' && (c == 'ı' || c == 'İ')) || (p == 's' && c == 'ſ') || (p == 'k' && c.toNat == 0x212a)

def keywordMatches : Text → Text → Bool
  | [], _ => true
  | p :: ps, c :: cs => matchesIgnoringCase p c && keywordMatches ps cs
  | _ :: _, [] => false

section
variable (w : WordChars)

/-- `\b` -/
def boundary (before after : Option Char) : Bool := before.any w.mem != after.any w.mem

/-- `_FORBIDDEN_KEYWORDS` at the head of a text, and what it matches. -/
def keywordAt (before : Option Char) (text : Text) : Option Text :=
  if boundary w before text.head? then
    (forbiddenKeywords.find? (fun keyword => keywordMatches keyword text &&
      boundary w (text.take keyword.length).getLast? (text.drop keyword.length).head?)).map
        (fun keyword => text.take keyword.length)
  else none

/-- `_FORBIDDEN_KEYWORDS.search`. -/
def searchKeyword (before : Option Char) : Text → Option Text
  | [] => none
  | c :: rest => (keywordAt w before (c :: rest)).orElse (fun _ => searchKeyword (some c) rest)

/-- `[A-Za-z_]+` at the head, in lower case. -/
def firstWord (text : Text) : String :=
  String.ofList ((text.takeWhile (fun c => c.isAlpha || c == '_')).map Char.toLower)

/-- `validate_readonly_sql`: the statement to run, or the text of the `UnsafeSQLError`. -/
def validateReadonlySql (sql : Text) : Except String Text :=
  if (strip sql).isEmpty then .error "empty SQL"
  else
    let cleaned := Scan.sub lineComment (fun _ => [' ']) (Scan.sub blockComment (fun _ => [' ']) sql)
    let stripped := stripSemicolons cleaned
    if stripped.isEmpty then .error "empty SQL after stripping comments"
    else if stripped.contains ';' then .error "multiple statements are not allowed"
    else if firstWord stripped ≠ "select" ∧ firstWord stripped ≠ "with" then
      .error ("only read-only SELECT/WITH statements are allowed (got '" ++ firstWord stripped ++ "')")
    else
      match searchKeyword w none stripped with
      | some bad => .error ("forbidden keyword in SQL: '" ++ String.ofList bad ++ "'")
      | none => .ok stripped

end

/-! ## permissions -/

structure User where
  id : String
  role : String
  deriving DecidableEq

structure Settings where
  isDev : Bool
  allowPythonExec : Bool := false
  pythonSandbox : String := ""
  sandboxMode : String := "local"
  deriving DecidableEq

/-- `sandbox_mode`; nothing when it raises. -/
def sandboxMode (settings : Settings) : Option String :=
  let mode := normalized settings.sandboxMode
  if mode = "" then some "local" else if mode = "local" ∨ mode = "docker" then some mode else none

def isolatedSandboxConfigured (settings : Settings) : Bool :=
  normalized settings.pythonSandbox = "docker" && sandboxMode settings = some "docker"

def pythonExecEnabled (settings : Settings) : Bool :=
  settings.isDev || (settings.allowPythonExec && isolatedSandboxConfigured settings)

def hasAdminRole (user : Option User) : Bool := user.any (·.role = "admin")

/-- `is_tool_allowed`, with the tools the operator has turned off. -/
def isToolAllowed (disabled : List String) (settings : Settings) (toolName : String) (user : Option User)
    (strict : Option Bool) : Bool :=
  let strict := strict.getD (!settings.isDev)
  if disabled.contains toolName then false
  else if toolName = "python_exec" ∧ strict ∧ !pythonExecEnabled settings then false
  else if toolName = "db_query" ∧ strict ∧ !hasAdminRole user then false
  else true

inductive RiskLevel
  | low | medium | high
  deriving DecidableEq

structure BaseTool where
  name : String
  dangerous : Bool := false
  requiresUser : Bool := false
  deriving DecidableEq

def riskLevelFor (tool : BaseTool) : RiskLevel :=
  if tool.dangerous then .high else if tool.name = "http_get" then .medium else .low

def shouldRequireApproval (tool : BaseTool) : Bool := tool.dangerous

/-! ## approvals -/

/-- `APPROVAL_TTL`, in seconds. -/
def approvalTtl : Int := 900

def expiryFromNow (now : Int) : Int := now + approvalTtl

def isExpired (expiresAt : Option Int) (now : Int) : Bool := expiresAt.any (· ≤ now)

/-- `sha256(...).hexdigest()`, and `json.dumps(..., sort_keys=True)`. -/
structure Hashing where
  sha256 : String → String
  canonicalJson : Arguments → String

def Hashing.argumentsHash (h : Hashing) (toolName : String) (arguments : Arguments) : String :=
  h.sha256 (toolName ++ "|" ++ h.canonicalJson arguments)

/-! ## the guardian -/

inductive Outcome
  | allow | deny
  deriving DecidableEq

structure GuardianVerdict where
  outcome : Outcome
  deriving DecidableEq

def GuardianVerdict.allowed (verdict : GuardianVerdict) : Bool := verdict.outcome = .allow

structure RejectionCircuitBreaker where
  consecutiveLimit : Nat := 3
  windowLimit : Nat := 10
  windowSize : Nat := 50
  consecutive : Nat := 0
  recent : List Bool := []
  deriving DecidableEq

/-- The denials are a deque of `window_size` entries. -/
def RejectionCircuitBreaker.record (b : RejectionCircuitBreaker) (verdict : GuardianVerdict) : RejectionCircuitBreaker :=
  let recent := b.recent ++ [!verdict.allowed]
  { b with
    recent := recent.drop (recent.length - b.windowSize)
    consecutive := if verdict.allowed then 0 else b.consecutive + 1 }

def RejectionCircuitBreaker.shouldAbort (b : RejectionCircuitBreaker) : Bool :=
  decide (b.consecutiveLimit ≤ b.consecutive) || decide (b.windowLimit ≤ b.recent.countP id)

end Tools
end MyGpt
