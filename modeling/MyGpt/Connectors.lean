import MyGpt.Characters
import MyGpt.Lib.Trace
/-!
# Connectors — the connectors of one tenant and their quota counter

`ConnectorService` with quotas enabled.  The counter is beside the rows: `record_connector` is the only function that writes
it.
-/
namespace MyGpt
namespace Connectors

open Chat (Text)

structure ProviderManifest where
  transport : Text
  requiredScopes : List Text

structure Connector where
  id : Nat
  name : Text
  provider : Text
  manifest : ProviderManifest
  transport : Text
  oauthScopes : List Text
  enabled : Bool

structure State where
  connectors : List Connector
  counter : Nat
  nextId : Nat
  released : Nat

def State.start : State := ⟨[], 0, 0, 0⟩

def State.enabledCount (s : State) : Nat := s.connectors.countP (·.enabled)

inductive Refusal
  | unknownProvider (provider : Text)
  | stdioForbidden
  | unsupportedTransport (transport : Text)
  | insufficientScopes (missing : List Text)
  | quotaExceeded (limit : Int) (used : Nat)
  | notFound
  deriving DecidableEq

structure CreateRequest where
  name : Text
  provider : Text
  oauthScopes : List Text
  transport : Option Text
  enabled : Bool
  isAdmin : Bool

inductive Op
  | create (request : CreateRequest)
  | enable (id : Nat)
  | disable (id : Nat)
  | update (id : Nat) (name : Option Text) (oauthScopes : Option (List Text))
  | delete (id : Nat)

def missing (granted required : List Text) : List Text := required.filter (fun scope => !granted.contains scope)

def checkScopes (granted required : List Text) : Option Refusal :=
  if missing granted required = [] then none else some (.insufficientScopes (missing granted required))

/-- `_check_connector_quota` with `QuotaService.check_connector`. -/
def checkConnectorQuota (maxConnectors : Int) (s : State) : Option Refusal :=
  if maxConnectors ≤ s.counter then some (.quotaExceeded maxConnectors s.counter) else none

def recordConnector (s : State) : State := { s with counter := s.counter + 1 }

def allowedTransports : List Text := ["stdio".toList, "http".toList, "sse".toList]

/-- `(transport or manifest.transport).lower()`, up to letters that no allowed transport has. -/
def chosenTransport (transport : Option Text) (manifest : ProviderManifest) : Text :=
  ((transport.filter (· ≠ [])).getD manifest.transport).map Char.toLower

/-- The refusals of `create` before it looks at the quota. -/
def createGate (request : CreateRequest) (manifest : ProviderManifest) : Option Refusal :=
  let transport := chosenTransport request.transport manifest
  if transport = "stdio".toList ∧ request.isAdmin = false then some .stdioForbidden
  else if allowedTransports.contains transport = false then some (.unsupportedTransport transport)
  else if request.enabled then checkScopes request.oauthScopes manifest.requiredScopes
  else none

/-- The row that `create` inserts. -/
def CreateRequest.connector (request : CreateRequest) (manifest : ProviderManifest) (id : Nat) : Connector :=
  ⟨id, request.name, request.provider, manifest, chosenTransport request.transport manifest, request.oauthScopes,
    request.enabled⟩

section

variable (catalog : Text → Option ProviderManifest) (maxConnectors : Int)

def create (s : State) (request : CreateRequest) : Option Refusal × State :=
  match catalog request.provider with
  | none => (some (.unknownProvider request.provider), s)
  | some manifest =>
    match createGate request manifest with
    | some refusal => (some refusal, s)
    | none =>
      match if request.enabled then checkConnectorQuota maxConnectors s else none with
      | some refusal => (some refusal, s)
      | none =>
        let inserted := { s with
          connectors := s.connectors ++ [request.connector manifest s.nextId]
          nextId := s.nextId + 1 }
        (none, if request.enabled then recordConnector inserted else inserted)

/-- `get_for_user`. -/
def State.get (s : State) (id : Nat) : Option Connector := s.connectors.find? (fun conn => conn.id = id)

def State.put (s : State) (conn : Connector) : State :=
  { s with connectors := s.connectors.map (fun c => if c.id = conn.id then conn else c) }

def enable (s : State) (id : Nat) : Option Refusal × State :=
  match s.get id with
  | none => (some .notFound, s)
  | some conn =>
    match checkScopes conn.oauthScopes conn.manifest.requiredScopes with
    | some refusal => (some refusal, s)
    | none =>
      if conn.enabled then (none, s.put { conn with enabled := true })
      else
        match checkConnectorQuota maxConnectors s with
        | some refusal => (some refusal, s)
        | none => (none, recordConnector (s.put { conn with enabled := true }))

def State.releaseIf (s : State) (wasEnabled : Bool) : State := { s with released := s.released + wasEnabled.toNat }

def disable (s : State) (id : Nat) : Option Refusal × State :=
  match s.get id with
  | none => (some .notFound, s)
  | some conn => (none, (s.put { conn with enabled := false }).releaseIf conn.enabled)

def update (s : State) (id : Nat) (name : Option Text) (oauthScopes : Option (List Text)) : Option Refusal × State :=
  match s.get id with
  | none => (some .notFound, s)
  | some conn =>
    let renamed := { conn with name := name.getD conn.name }
    match oauthScopes with
    | none => (none, s.put renamed)
    | some scopes =>
      let drops := conn.enabled && !(missing scopes conn.manifest.requiredScopes).isEmpty
      (none, (s.put { renamed with oauthScopes := scopes, enabled := conn.enabled && !drops }).releaseIf drops)

def delete (s : State) (id : Nat) : Option Refusal × State :=
  match s.get id with
  | none => (none, s)
  | some conn => (none, { s with connectors := s.connectors.filter (fun c => c.id ≠ id) }.releaseIf conn.enabled)

def run (s : State) : Op → Option Refusal × State
  | .create request => create catalog maxConnectors s request
  | .enable id => enable maxConnectors s id
  | .disable id => disable s id
  | .update id name oauthScopes => update s id name oauthScopes
  | .delete id => delete s id

def step (s : State) (op : Op) : Option State := some (run catalog maxConnectors s op).2

end

end Connectors
end MyGpt
