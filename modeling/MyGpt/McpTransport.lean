import MyGpt.Json
import MyGpt.Lib.Trace
import Mathlib.Logic.Function.Basic
/-!
# McpTransport — JSON-RPC with an MCP server

`StdioTransport`: the reader of the server's lines and any number of requests, a step each.  `HttpTransport`: a request is
answered from the response to its own POST.
-/
namespace MyGpt
namespace Mcp

abbrev Fields := List (String × Json)

/-- What a frame gives the request that takes it: the `result`, or the `code` and `message` of the `McpProtocolError`. -/
inductive Answer
  | result (value : Option Json)
  | error (code message : Option Json)

/-- The answer of a frame; nothing when `err.get` raises, on an error that is neither falsy nor an object. -/
def reply (msg : Fields) : Option Answer :=
  match Json.field msg "error" with
  | none => some (.result (Json.get msg "result"))
  | some (.obj err) => some (.error (Json.get err "code") (Json.get err "message"))
  | some err => if err.truthy then none else some (.error none none)

/-! ## stdio -/

inductive Line
  | blank
  /-- `json.JSONDecodeError`. -/
  | malformed
  /-- Too long for `readline`, or `json.loads` raises something else. -/
  | raises
  | json (msg : Json)

inductive Outcome
  | answered (msg : Fields) (answer : Answer)
  | timedOut
  | cancelled
  | closed

inductive Request
  | unsent
  | waiting
  | done (outcome : Outcome)

def Request.isWaiting : Request → Bool
  | .waiting => true
  | _ => false

/-- `fut.set_exception` and its like, unless the future is done. -/
def Request.end (outcome : Outcome) : Request → Request
  | .waiting => .done outcome
  | request => request

inductive Act
  /-- `send_request` with an id of its own, up to the wait. -/
  | sends (id : Nat)
  | sendFails (id : Nat)
  | reads (line : Line)
  | eof
  | timesOut (id : Nat)
  /-- `cancel`, or the task of the caller is cancelled. -/
  | cancels (id : Nat)
  /-- `close`, or `kill`. -/
  | closes

structure State where
  requests : Nat → Request
  /-- The ids of `_pending`. -/
  pending : List Nat
  reading : Bool
  closed : Bool
  past : List Act

def State.start : State := ⟨fun _ => .unsent, [], true, false, []⟩

def State.pop (s : State) (id : Nat) : State := { s with pending := s.pending.filter (· ≠ id) }

def State.finish (s : State) (id : Nat) (outcome : Outcome) : State :=
  { s.pop id with requests := Function.update s.requests id ((s.requests id).end outcome) }

def State.failPending (s : State) : State :=
  { s with requests := fun id => if id ∈ s.pending then (s.requests id).end .closed else s.requests id, pending := [] }

/-- The `finally` of `_read_stdout`. -/
def State.readerEnds (s : State) : State := { s.failPending with reading := false }

def dispatch (s : State) (msg : Fields) : State :=
  match Json.get msg "id" with
  | none => s
  | some value =>
    match value.toInt with
    | none => s.readerEnds
    | some reqId =>
      match s.pending.find? (fun id : Nat => (id : Int) = reqId) with
      | none => s
      | some id =>
        if (s.requests id).isWaiting then
          match reply msg with
          -- the future is popped already, so that nothing fails it
          | none => (s.pop id).readerEnds
          | some answer => s.finish id (.answered msg answer)
        else s.pop id

/-- A turn of the loop of `_read_stdout`. -/
def readLine (s : State) : Line → State
  | .raises => s.readerEnds
  | .json (.obj msg) => dispatch s msg
  | _ => s

def act (s : State) : Act → Option State
  | .sends id =>
    match s.requests id with
    | .unsent =>
      if s.closed then none
      else some { s with requests := Function.update s.requests id .waiting, pending := id :: s.pending }
    | _ => none
  | .sendFails id => if (s.requests id).isWaiting then some (s.finish id .closed) else none
  | .reads line => if s.reading then some (readLine s line) else none
  | .eof => if s.reading then some s.readerEnds else none
  | .timesOut id => if (s.requests id).isWaiting then some (s.finish id .timedOut) else none
  | .cancels id => if (s.requests id).isWaiting then some (s.finish id .cancelled) else none
  | .closes => some { s.readerEnds with closed := true }

def step (s : State) (a : Act) : Option State := (act s a).map (fun s' => { s' with past := a :: s.past })

/-! ## HTTP -/

inductive SseLine
  | other
  /-- A `data:` line with a `json.JSONDecodeError`. -/
  | malformed
  /-- `json.loads` raises something else. -/
  | raises
  | data (msg : Json)

inductive Body
  /-- Nothing when `response.json()` raises. -/
  | json (msg : Option Json)
  | sse (lines : List SseLine)

structure Response where
  status : Nat
  body : Body

inductive Post
  | closed
  | timeout
  | httpError
  | response (r : Response)

inductive Failure
  | closed | timeout | transport | status | notJson | noFrame | notObject | mismatch
  /-- Another exception than an `McpError`. -/
  | raised

def parseSse : List SseLine → Except Failure Fields
  | [] => .error .noFrame
  | .data (.obj msg) :: _ => .ok msg
  | .raises :: _ => .error .raised
  | _ :: rest => parseSse rest

/-- The object that `_parse_response` takes from the body. -/
def parseBody : Body → Except Failure Fields
  | .sse lines => parseSse lines
  | .json none => .error .notJson
  | .json (some (.obj msg)) => .ok msg
  | .json (some _) => .error .notObject

def idPasses (reqId : Nat) (msg : Fields) : Bool :=
  match Json.get msg "id" with
  | none => true
  | some value => value.eqInt reqId

/-- `_parse_response`, with the frame that it takes for the answer. -/
def parseResponse (body : Body) (reqId : Nat) : Except Failure (Fields × Answer) :=
  (parseBody body).bind (fun msg =>
    if idPasses reqId msg then
      match reply msg with
      | none => .error .raised
      | some answer => .ok (msg, answer)
    else .error .mismatch)

def sendRequest (reqId : Nat) : Post → Except Failure (Fields × Answer)
  | .closed => .error .closed
  | .timeout => .error .timeout
  | .httpError => .error .transport
  | .response r => if 400 ≤ r.status then .error .status else parseResponse r.body reqId

end Mcp
end MyGpt
