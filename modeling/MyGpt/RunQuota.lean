import Mathlib.Data.Finset.Card
/-!
# RunQuota — the slots of concurrent runs

`admit_run`, `_purge_expired_runs` and `release_run` of `quotas.py`, one operation on the counter backend after the other.
The set of a tenant holds a member for each slot; an admission adds its member, counts, purges, counts again and takes it
back.  Other calls see every state between.
-/
namespace MyGpt
namespace Quotas

abbrev Tenant := String

/-- `"<run_id>@<deadline>"`; neither part has an `@`. -/
structure Member where
  runId : String
  deadline : Int
  deriving DecidableEq

structure RunTicket where
  tenant : Tenant
  runId : String
  deriving DecidableEq

structure QuotaLimits where
  enabled : Bool
  maxConcurrentRuns : Int
  maxTokensPerPeriod : Int
  maxCostUsdPerPeriod : Rat
  /-- the limit of the cost, as `:g` writes it -/
  maxCostText : String
  /-- `QUOTA_RUN_TTL_SECONDS` -/
  runTtlSeconds : Int
  maxToolsPerRun : Int

inductive QuotaType
  | tokens | cost | concurrentRuns | tools
  deriving DecidableEq

structure QuotaExceeded where
  reason : String
  limit : Rat
  used : Rat
  quotaType : QuotaType
  tenant : Tenant
  extra : Option (String × Option String) := none
  deriving DecidableEq

inductive Phase
  | idle
  /-- `_set_add` -/
  | adding (tenant : Tenant) (member : Member)
  /-- the first `_set_size` -/
  | counting (tenant : Tenant) (member : Member)
  /-- `_set_members` of the purge -/
  | listing (tenant : Tenant) (member : Member) (now : Int)
  /-- the purge, and the second `_set_size` behind it -/
  | purging (tenant : Tenant) (member : Member) (expired : Finset Member)
  /-- `_set_remove` of the call's own member -/
  | rollingBack (tenant : Tenant) (member : Member) (size : Nat)
  | admitted (ticket : RunTicket)
  | refused (tenant : Tenant) (member : Option Member) (error : QuotaExceeded)
  /-- `_set_members` of `release_run` -/
  | releasing (tenant : Tenant) (runId : String)
  | dropping (tenant : Tenant) (runId : String) (matching : Finset Member)
  | released
  | unwound
  deriving DecidableEq

structure World where
  now : Int
  sets : Tenant → Finset Member := fun _ => ∅
  calls : Nat → Phase := fun _ => .idle
  drawn : String → Option (Tenant × Member) := fun _ => none
  secret : Finset String := ∅
  named : Finset String := ∅
  admitted : Tenant → Finset Member := fun _ => ∅
  released : Tenant → Finset Member := fun _ => ∅
  unmetered : Tenant → Nat := fun _ => 0

def World.setCall (w : World) (call : Nat) (phase : Phase) : World :=
  { w with calls := Function.update w.calls call phase }

/-- `SADD`. -/
def World.setAdd (w : World) (tenant : Tenant) (m : Member) : World :=
  { w with sets := Function.update w.sets tenant (insert m (w.sets tenant)) }

/-- `SREM`. -/
def World.setRemove (w : World) (tenant : Tenant) (m : Member) : World :=
  { w with sets := Function.update w.sets tenant ((w.sets tenant).erase m) }

def World.holding (w : World) (tenant : Tenant) : Finset Member :=
  (w.admitted tenant \ w.released tenant).filter (fun m => w.now ≤ m.deadline)

def World.running (w : World) (tenant : Tenant) : Nat := (w.holding tenant).card + w.unmetered tenant

section
variable (limits : QuotaLimits)

/-- `_run_ttl_seconds`. -/
def runTtl : Int := max limits.runTtlSeconds 60

def runMember (runId : String) (now : Int) : Member := ⟨runId, now + runTtl limits⟩

def tokensExceeded (tenant : Tenant) (used : Int) : QuotaExceeded where
  reason := "token quota (" ++ toString limits.maxTokensPerPeriod ++ "/period) exceeded"
  limit := limits.maxTokensPerPeriod
  used := used
  quotaType := .tokens
  tenant := tenant

def costExceeded (tenant : Tenant) (used : Rat) : QuotaExceeded where
  reason := "cost quota ($" ++ limits.maxCostText ++ "/period) exceeded"
  limit := limits.maxCostUsdPerPeriod
  used := used
  quotaType := .cost
  tenant := tenant

def runsExceeded (tenant : Tenant) (size : Nat) : QuotaExceeded where
  reason := "concurrent-run limit (" ++ toString limits.maxConcurrentRuns ++ ") reached"
  limit := limits.maxConcurrentRuns
  used := size - 1
  quotaType := .concurrentRuns
  tenant := tenant

def World.draw (w : World) (call : Nat) (tenant : Tenant) (m : Member) : World :=
  { w.setCall call (.adding tenant m) with
    drawn := Function.update w.drawn m.runId (some (tenant, m))
    secret := insert m.runId w.secret }

def World.takeOff (w : World) (tenant : Tenant) (m : Member) : World :=
  { w.setRemove tenant m with
    released := Function.update w.released tenant
      (if m ∈ w.sets tenant then insert m (w.released tenant) else w.released tenant) }

def World.refuseRun (w : World) (call : Nat) (tenant : Tenant) (m : Member) (error : QuotaExceeded) : World :=
  { (w.setRemove tenant m).setCall call (.refused tenant (some m) error) with secret := w.secret.erase m.runId }

def World.grant (w : World) (call : Nat) (tenant : Tenant) (m : Member) : World :=
  { w.setCall call (.admitted ⟨tenant, m.runId⟩) with
    secret := w.secret.erase m.runId
    admitted := Function.update w.admitted tenant (insert m (w.admitted tenant)) }

inductive Act
  | clock (now : Int)
  /-- `admit_run`, with what it reads of the other counters and the id it draws -/
  | admitRun (call : Nat) (tenant : Tenant) (tokens : Int) (cost : Rat) (runId : String)
  | add (call : Nat)
  | count (call : Nat)
  | list (call : Nat)
  | drop (call : Nat) (m : Member)
  | rollBack (call : Nat)
  | release (call : Nat) (tenant : Tenant) (runId : String)
  | endRelease (call : Nat)
  | unwind (call : Nat)
  deriving DecidableEq

def step (w : World) : Act → Option World
  | .clock now => if w.now ≤ now then some { w with now } else none
  | .admitRun call tenant tokens cost runId =>
    if w.calls call ≠ .idle then none
    else if !limits.enabled then
      some { w.setCall call (.admitted ⟨tenant, "disabled"⟩) with
        unmetered := Function.update w.unmetered tenant (w.unmetered tenant + 1) }
    else if limits.maxTokensPerPeriod ≤ tokens then
      some (w.setCall call (.refused tenant none (tokensExceeded limits tenant tokens)))
    else if limits.maxCostUsdPerPeriod ≤ cost then
      some (w.setCall call (.refused tenant none (costExceeded limits tenant cost)))
    else if (w.drawn runId).isSome ∨ runId ∈ w.named ∨ runId = "" ∨ runId = "disabled" then none
    else some (w.draw call tenant (runMember limits runId w.now))
  | .add call =>
    match w.calls call with
    | .adding tenant m => some ((w.setAdd tenant m).setCall call (.counting tenant m))
    | _ => none
  | .count call =>
    match w.calls call with
    | .counting tenant m =>
      if limits.maxConcurrentRuns < (w.sets tenant).card then some (w.setCall call (.listing tenant m w.now))
      else some (w.grant call tenant m)
    | .purging tenant m expired =>
      if expired ≠ ∅ then none
      else if limits.maxConcurrentRuns < (w.sets tenant).card then
        some (w.setCall call (.rollingBack tenant m (w.sets tenant).card))
      else some (w.grant call tenant m)
    | _ => none
  | .list call =>
    match w.calls call with
    | .listing tenant m now => some (w.setCall call (.purging tenant m ((w.sets tenant).filter (·.deadline < now))))
    | .releasing tenant runId => some (w.setCall call (.dropping tenant runId ((w.sets tenant).filter (·.runId = runId))))
    | _ => none
  | .drop call gone =>
    match w.calls call with
    | .purging tenant m expired =>
      if gone ∈ expired then some ((w.setRemove tenant gone).setCall call (.purging tenant m (expired.erase gone))) else none
    | .dropping tenant runId matching =>
      if gone ∈ matching then some ((w.takeOff tenant gone).setCall call (.dropping tenant runId (matching.erase gone)))
      else none
    | _ => none
  | .rollBack call =>
    match w.calls call with
    | .rollingBack tenant m size => some (w.refuseRun call tenant m (runsExceeded limits tenant size))
    | _ => none
  | .release call tenant runId =>
    if w.calls call ≠ .idle ∨ runId ∈ w.secret then none
    else if !limits.enabled ∨ runId = "" ∨ runId = "disabled" then some (w.setCall call .released)
    else some { w.setCall call (.releasing tenant runId) with named := insert runId w.named }
  | .endRelease call =>
    match w.calls call with
    | .dropping _ _ matching => if matching = ∅ then some (w.setCall call .released) else none
    | _ => none
  | .unwind call =>
    match w.calls call with
    | .idle | .admitted _ | .refused _ _ _ | .released | .unwound => none
    | _ => some (w.setCall call .unwound)

end

end Quotas
end MyGpt
