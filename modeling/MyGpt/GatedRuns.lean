import MyGpt.PromptFence
import MyGpt.ToolGateway
import MyGpt.Lib.Trace
/-!
# GatedRuns — what every invocation of a tool has passed

In every run of the gateway, with any number of calls under way and anything moving outside, a tool is run on arguments
that the exec policy of the run and the SQL check let through, a dangerous one only where the guardian has just allowed
them or a live approval for them has just been found, and each call runs its tool once at most (`gated`).
-/
namespace MyGpt
namespace Tools

open Trace (Reaches)

variable {g : ToolGateway}

structure Cleared (g : ToolGateway) (policy : Option ExecPolicy) (tool : BaseTool) (args : Arguments) : Prop where
  registered : tool ∈ g.tools
  exec : ∀ argv, argvFromArguments args = some argv → ∃ p, policy = some p ∧ p.decide argv ≠ .forbidden
  sql : tool.name = "db_query" → ∃ stripped, validateReadonlySql g.words (sqlOf g args) = .ok stripped

structure LiveApproval (g : ToolGateway) (w : World) (tool : BaseTool) (args : Arguments) (ap : ToolApproval) : Prop where
  row : ap ∈ w.approvals
  run : g.runId = some ap.runId
  tool_ : ap.toolName = tool.name
  hash : ap.argumentsHash = g.hashing.argumentsHash tool.name args
  status : ap.status = .approved
  unexpired : isExpired ap.expiresAt w.now = false

/-- The step lets a dangerous tool run: the guardian allows what it was asked about, or the query finds an approval. -/
inductive Approved (g : ToolGateway) (w : World) : Act → Invocation → Prop
  | guardian {call req tool args} {verdict : GuardianVerdict} (asked : w.calls call = .judging req tool args)
      (allowed : verdict.outcome = .allow) : Approved g w (.judged call (some verdict)) ⟨call, tool, args⟩
  | human {call req tool args id ap} (asked : w.calls call = .lookingUp req tool args) (live : LiveApproval g w tool args ap) :
      Approved g w (.found call id) ⟨call, tool, args⟩

structure World.Fresh (w : World) : Prop where
  calls : ∀ call, w.calls call = .idle
  invoked : w.invoked = []

/-! ## what a step can do -/

def Phase.Carries (g : ToolGateway) (policy : Option ExecPolicy) : Phase → Prop
  | .judging req tool args | .lookingUp req tool args | .running req tool args =>
    tool.name = req.toolName ∧ Cleared g policy tool args
  | _ => True

def Phase.past : Phase → Bool
  | .running _ _ _ | .finished _ | .unwound => true
  | _ => false

def SamePolicy (old new : Option ExecPolicy) : Prop := ∀ p, old = some p → new = some p

theorem Cleared.mono {old new : Option ExecPolicy} (hp : SamePolicy old new) {tool : BaseTool} {args : Arguments}
    (h : Cleared g old tool args) : Cleared g new tool args := by
  refine ⟨h.registered, fun argv hargv => ?_, h.sql⟩
  obtain ⟨p, hold, hdecide⟩ := h.exec argv hargv
  exact ⟨p, hp p hold, hdecide⟩

theorem Phase.Carries.mono {old new : Option ExecPolicy} (hp : SamePolicy old new) {phase : Phase}
    (h : phase.Carries g old) : phase.Carries g new := by
  cases phase with
  | judging | lookingUp | running => exact ⟨h.1, h.2.mono hp⟩
  | _ => trivial

structure Keeps (w w₁ : World) : Prop where
  calls : w₁.calls = w.calls
  invoked : w₁.invoked = w.invoked
  policy : SamePolicy w.execPolicy w₁.execPolicy

theorem Keeps.rfl {w : World} : Keeps w w := ⟨by rfl, by rfl, fun _ h => h⟩

inductive Move (g : ToolGateway) (w : World) (act : Act) (w' : World) : Prop
  | outside (keeps : Keeps w w')
  | quiet {call : Nat} {phase : Phase} (calls : w'.calls = Function.update w.calls call phase)
      (invoked : w'.invoked = w.invoked) (policy : SamePolicy w.execPolicy w'.execPolicy)
      (carries : phase.Carries g w'.execPolicy) (past : (w.calls call).past = true → phase.past = true)
  | runs {inv : Invocation} {req : Request}
      (calls : w'.calls = Function.update w.calls inv.call (.running req inv.tool inv.args))
      (invoked : w'.invoked = w.invoked ++ [inv]) (policy : SamePolicy w.execPolicy w'.execPolicy)
      (name : inv.tool.name = req.toolName) (cleared : Cleared g w'.execPolicy inv.tool inv.args)
      (first : (w.calls inv.call).past = false) (approved : inv.tool.dangerous = true → Approved g w act inv)

section
variable {w w₁ : World} {act : Act} {call : Nat} {req : Request} {tool : BaseTool} {args : Arguments}

theorem move_setCall (hk : Keeps w w₁) {phase : Phase} (hcarries : phase.Carries g w₁.execPolicy)
    (hpast : (w.calls call).past = true → phase.past = true) : Move g w act (w₁.setCall call phase) := by
  refine .quiet ?_ hk.invoked hk.policy hcarries hpast
  show Function.update w₁.calls call phase = _
  rw [hk.calls]

theorem move_refuse (hk : Keeps w w₁) (r : Refusal) (id : Option Nat) : Move g w act (w₁.refuse call req args r id) :=
  move_setCall hk trivial (fun _ => rfl)

theorem move_invoke (hk : Keeps w w₁) (hname : tool.name = req.toolName) (hc : Cleared g w₁.execPolicy tool args)
    (hfirst : (w.calls call).past = false) (happroved : tool.dangerous = true → Approved g w act ⟨call, tool, args⟩) :
    Move g w act (w₁.invoke call req tool args) := by
  refine @Move.runs _ _ _ _ ⟨call, tool, args⟩ req ?_ ?_ hk.policy hname hc hfirst happroved
  · show Function.update w₁.calls call _ = _
    rw [hk.calls]
  · show w₁.invoked ++ _ = _
    rw [hk.invoked]

theorem move_proceed (hk : Keeps w w₁) (hname : tool.name = req.toolName) (hc : Cleared g w₁.execPolicy tool args)
    (hfirst : (w.calls call).past = false) (auto : Bool) (hauto : auto = true → Approved g w act ⟨call, tool, args⟩) :
    Move g w act (w₁.proceed call req tool args auto) := by
  unfold World.proceed
  split
  · exact move_setCall hk ⟨hname, hc⟩ (fun h => by rw [hfirst] at h; cases h)
  · rename_i hgate
    refine move_invoke hk hname hc hfirst (fun hdangerous => hauto ?_)
    cases auto with
    | true => rfl
    | false => exact absurd (by rw [shouldRequireApproval, hdangerous]; rfl) hgate

theorem get_ok {toolName : String} (h : g.get toolName = .ok tool) : tool ∈ g.tools ∧ tool.name = toolName := by
  unfold ToolGateway.get at h
  cases hfind : g.tools.find? (fun tool => tool.name = toolName) with
  | none =>
    rw [hfind] at h
    cases h
  | some t =>
    rw [hfind] at h
    cases h
    exact ⟨List.mem_of_find?_eq_some hfind, by simpa using List.find?_some hfind⟩

theorem keeps_loadPolicy (w : World) (args : Arguments) : Keeps w (w.loadPolicy g args) := by
  unfold World.loadPolicy
  split
  · refine ⟨rfl, rfl, fun p hp => ?_⟩
    rw [World.policyForRun, hp]
    rfl
  · exact .rfl

theorem cleared_of_gates (hget : g.get req.toolName = .ok tool) (hexec : execGate (w.policyForRun g) args = .ok ())
    (hsql : sqlGate g req.toolName args = .ok ()) : Cleared g (w.loadPolicy g args).execPolicy tool args := by
  obtain ⟨hmem, hname⟩ := get_ok hget
  refine ⟨hmem, fun argv hargv => ⟨w.policyForRun g, ?_, fun hforbidden => ?_⟩, fun hdb => ?_⟩
  · rw [World.loadPolicy, hargv]
    rfl
  · rw [execGate, hargv] at hexec
    simp only [hforbidden, if_true] at hexec
    cases hexec
  · rw [sqlGate, if_pos (hname.symm.trans hdb)] at hsql
    cases hvalid : validateReadonlySql g.words (sqlOf g args) with
    | error text =>
      rw [hvalid] at hsql
      cases hsql
    | ok stripped => exact ⟨stripped, rfl⟩

theorem move_executeInner (hfirst : (w.calls call).past = false) (results : Option (List PreToolUseResult)) :
    Move g w act (w.executeInner g call req results) := by
  unfold World.executeInner
  split
  · exact move_refuse .rfl _ _
  rename_i tool hget
  split
  · exact move_refuse .rfl _ _
  rename_i args hhooks
  split
  · exact move_refuse .rfl _ _
  rename_i hpermitted
  split
  · exact move_refuse (keeps_loadPolicy w args) _ _
  rename_i hexec
  split
  · exact move_refuse (keeps_loadPolicy w args) _ _
  rename_i hsql
  have hc : Cleared g (w.loadPolicy g args).execPolicy tool args := cleared_of_gates hget hexec hsql
  have hname : tool.name = req.toolName := (get_ok hget).2
  unfold World.judgeOrProceed
  split
  · exact move_setCall (keeps_loadPolicy w args) ⟨hname, hc⟩ (fun h => by rw [hfirst] at h; cases h)
  · exact move_proceed (keeps_loadPolicy w args) hname hc hfirst false (fun h => by cases h)

theorem move_judged (hasked : w.calls call = .judging req tool args) (hcarries : (w.calls call).Carries g w.execPolicy)
    (verdict : Option GuardianVerdict) :
    Move g w (.judged call verdict) (w.judged call req tool args verdict) := by
  have hfirst : (w.calls call).past = false := by rw [hasked]; rfl
  rw [hasked] at hcarries
  obtain ⟨hname, hc⟩ := hcarries
  unfold World.judged
  split
  · exact move_proceed .rfl hname hc hfirst false (fun h => by cases h)
  · rename_i verdict
    have hk : Keeps w { w with breaker := w.breaker.map (·.record verdict) } := ⟨rfl, rfl, fun _ h => h⟩
    dsimp only
    split
    · exact move_refuse hk _ _
    · exact move_proceed hk hname hc hfirst _ (fun hallowed => .guardian hasked (of_decide_eq_true hallowed))

theorem live_of_find {ap : ToolApproval} (h : findValidApproval g w tool.name args = some ap) :
    LiveApproval g w tool args ap := by
  have hmem := List.mem_filter.1 (List.mem_of_find?_eq_some h)
  obtain ⟨hrun, htool, hhash, hstatus⟩ := of_decide_eq_true hmem.2
  exact ⟨hmem.1, hrun.symm, htool, hhash, hstatus, by simpa using List.find?_some h⟩

theorem move_found (hasked : w.calls call = .lookingUp req tool args) (hcarries : (w.calls call).Carries g w.execPolicy)
    (id : Nat) : Move g w (.found call id) (w.found g call req tool args id) := by
  have hfirst : (w.calls call).past = false := by rw [hasked]; rfl
  rw [hasked] at hcarries
  obtain ⟨hname, hc⟩ := hcarries
  unfold World.found
  split
  · rename_i ap hfound
    rw [← hname] at hfound
    exact move_invoke .rfl hname hc hfirst (fun _ => .human hasked (live_of_find hfound))
  · split
    · exact move_refuse .rfl _ _
    · rename_i runId _
      have hk : Keeps w { w with approvals := w.approvals ++ [pendingApproval g w id runId tool args] } :=
        ⟨rfl, rfl, fun _ h => h⟩
      exact move_refuse hk _ _

end

/-! ## every run -/

structure Inv (g : ToolGateway) (w : World) : Prop where
  carries : ∀ call, (w.calls call).Carries g w.execPolicy
  cleared : ∀ inv ∈ w.invoked, Cleared g w.execPolicy inv.tool inv.args
  past : ∀ inv ∈ w.invoked, (w.calls inv.call).past = true
  once : (w.invoked.map (·.call)).Nodup

theorem inv_fresh {w : World} (h : w.Fresh) : Inv g w := by
  refine ⟨fun call => ?_, fun inv hinv => ?_, fun inv hinv => ?_, ?_⟩
  · rw [h.calls]
    trivial
  · rw [h.invoked] at hinv
    cases hinv
  · rw [h.invoked] at hinv
    cases hinv
  · rw [h.invoked]
    exact List.nodup_nil

theorem move_of_step {w w' : World} {act : Act} (hinv : Inv g w) (h : step g w act = some w') : Move g w act w' := by
  cases act with
  | execute call req =>
    simp only [step] at h
    split at h
    · rename_i hidle
      cases h
      exact move_setCall .rfl trivial (fun hpast => by rw [hidle] at hpast; cases hpast)
    · cases h
  | quotaExceeded call reason =>
    simp only [step] at h
    split at h
    · cases h
      exact move_refuse .rfl _ _
    · cases h
  | admitted call results =>
    simp only [step] at h
    split at h
    · rename_i hquota
      cases h
      exact move_executeInner (by rw [hquota]; rfl) results
    · cases h
  | judged call verdict =>
    simp only [step] at h
    split at h
    · rename_i hasked
      cases h
      exact move_judged hasked (hinv.carries call) verdict
    · cases h
  | found call id =>
    simp only [step] at h
    split at h
    · rename_i hasked
      cases h
      exact move_found hasked (hinv.carries call) id
    · cases h
  | returned call outcome =>
    simp only [step] at h
    split at h
    · cases h
      cases outcome with
      | result => exact move_setCall .rfl trivial (fun _ => rfl)
      | timedOut | toolError | raised => exact move_refuse .rfl _ _
    · cases h
  | unwind call =>
    simp only [step] at h
    split at h
    · cases h
    · cases h
    · cases h
    · cases h
      exact move_setCall .rfl trivial (fun _ => rfl)
  | approvals | clock | configure =>
    cases h
    exact .outside ⟨rfl, rfl, fun _ hp => hp⟩

theorem inv_of_move {w w' : World} {act : Act} (hinv : Inv g w) (h : Move g w act w') : Inv g w' := by
  cases h with
  | outside keeps =>
    refine ⟨fun call => ?_, ?_, ?_, ?_⟩
    · rw [keeps.calls]
      exact (hinv.carries call).mono keeps.policy
    · rw [keeps.invoked]
      exact fun inv hmem => (hinv.cleared inv hmem).mono keeps.policy
    · rw [keeps.invoked, keeps.calls]
      exact hinv.past
    · rw [keeps.invoked]
      exact hinv.once
  | @quiet call phase calls invoked policy carries past =>
    refine ⟨fun other => ?_, ?_, ?_, ?_⟩
    · rw [calls]
      by_cases heq : other = call
      · subst heq
        rw [Function.update_self]
        exact carries
      · rw [Function.update_of_ne heq]
        exact (hinv.carries other).mono policy
    · rw [invoked]
      exact fun inv hmem => (hinv.cleared inv hmem).mono policy
    · rw [invoked, calls]
      intro inv hmem
      by_cases heq : inv.call = call
      · rw [heq, Function.update_self]
        exact past (heq ▸ hinv.past inv hmem)
      · rw [Function.update_of_ne heq]
        exact hinv.past inv hmem
    · rw [invoked]
      exact hinv.once
  | @runs new req calls invoked policy name cleared first approved =>
    refine ⟨fun other => ?_, ?_, ?_, ?_⟩
    · rw [calls]
      by_cases heq : other = new.call
      · subst heq
        rw [Function.update_self]
        exact ⟨name, cleared⟩
      · rw [Function.update_of_ne heq]
        exact (hinv.carries other).mono policy
    · rw [invoked]
      intro inv hmem
      rcases List.mem_append.1 hmem with hold | hnew
      · exact (hinv.cleared inv hold).mono policy
      · obtain rfl := List.mem_singleton.1 hnew
        exact cleared
    · rw [invoked, calls]
      intro inv hmem
      by_cases heq : inv.call = new.call
      · rw [heq, Function.update_self]
        rfl
      · rw [Function.update_of_ne heq]
        rcases List.mem_append.1 hmem with hold | hnew
        · exact hinv.past inv hold
        · exact absurd (congrArg Invocation.call (List.mem_singleton.1 hnew)) heq
    · rw [invoked, List.map_append, List.nodup_append]
      refine ⟨hinv.once, List.nodup_cons.2 ⟨List.not_mem_nil, List.nodup_nil⟩, ?_⟩
      -- a call whose tool has run is past the gates
      rintro _ hold _ hnew rfl
      obtain ⟨inv, hmem, hcall⟩ := List.mem_map.1 hold
      have hpast := hinv.past inv hmem
      rw [hcall, List.mem_singleton.1 hnew, first] at hpast
      cases hpast

theorem inv_of_reaches {w₀ w : World} (h₀ : w₀.Fresh) (h : Reaches (step g) w₀ w) : Inv g w :=
  h.invariant (inv_fresh h₀) (fun _ _ _ hinv _ hs => inv_of_move hinv (move_of_step hinv hs))

/-- **Every tool is run behind its gates**: in every run the arguments of each invocation have passed the exec policy of
the run and the SQL check, no call runs its tool twice, and a step runs a tool only on such arguments and, where the tool
is dangerous, only when the guardian has allowed them or a live approval for them has been found. -/
theorem gated {w₀ w : World} (h₀ : w₀.Fresh) (h : Reaches (step g) w₀ w) :
    (∀ inv ∈ w.invoked, Cleared g w.execPolicy inv.tool inv.args) ∧ (w.invoked.map (·.call)).Nodup ∧
      ∀ act w', step g w act = some w' → w'.invoked = w.invoked ∨
        ∃ inv : Invocation, w'.invoked = w.invoked ++ [inv] ∧ Cleared g w'.execPolicy inv.tool inv.args ∧
          (inv.tool.dangerous = true → Approved g w act inv) := by
  have hinv := inv_of_reaches h₀ h
  refine ⟨hinv.cleared, hinv.once, fun act w' hs => ?_⟩
  cases move_of_step hinv hs with
  | outside keeps => exact .inl keeps.invoked
  | quiet calls invoked policy carries past => exact .inl invoked
  | runs calls invoked policy name cleared first approved => exact .inr ⟨_, invoked, cleared, approved⟩

/-! A call of `db_query` that asks for an approval, and is made again after it was given. -/

def queryArgs : Arguments := [("sql", .str "SELECT 1;")]

def queryGateway : ToolGateway where
  py := ⟨fun _ => "", id⟩
  hashing := ⟨id, fun _ => "sql"⟩
  words := Security.asciiWords
  runId := some "run"
  user := some ⟨"u", "user"⟩
  tools := [{ name := "db_query", dangerous := true }]
  guardian := false

def queryWorld : World where
  approvals := []
  now := 0
  policyFile := .unset
  settings := { isDev := true }
  disabled := []
  breaker := none

def approvedQuery : ToolApproval where
  id := 7
  runId := "run"
  toolName := "db_query"
  arguments := queryArgs
  argumentsHash := queryGateway.hashing.argumentsHash "db_query" queryArgs
  riskLevel := .high
  status := .approved
  expiresAt := some 900

def retriedQuery : List Act :=
  let req : Request := ⟨"c", "db_query", queryArgs, none⟩
  [.execute 0 req, .admitted 0 none, .found 0 7, .clock 60, .approvals [approvedQuery], .execute 1 req, .admitted 1 none,
    .found 1 8]

theorem gated_retried :
    let w := Trace.play (step queryGateway) queryWorld retriedQuery
    w.invoked.map (·.call) = [1] ∧ ∀ inv ∈ w.invoked, Cleared queryGateway w.execPolicy inv.tool inv.args :=
  ⟨by decide +kernel, (@gated queryGateway queryWorld _ ⟨fun _ => rfl, rfl⟩
    (Trace.reaches_play (by decide +kernel))).1⟩

end Tools
end MyGpt
