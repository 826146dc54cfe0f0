import MyGpt.Json
import MyGpt.PlanTemplates
import MyGpt.UsageRecords
/-!
# LlmPlanner — a plan proposed by the model, with the template behind it

`workflow/llm_planner.py`: the call, the charge of its usage (`_charge`, `StageContext.record_usage`) and the reading of the
reply.  The charge and the decoder stand outside of what is caught: the planner keeps its promise exactly when the meter
takes the usage and the reply is not nested too deeply (`buildPlanWithLlm_neverBreaks_iff`).
-/
namespace MyGpt
namespace Workflow
namespace LlmPlanner

open Chat (Text isSpace)
open Budget (Metered BudgetGuard Value Payload Record RecordError Floats addUsage)
open Raising (runFrom runFrom_bind)

/-! ## the reply -/

/-- How `json.loads` ends. -/
inductive Loaded
  | value (payload : Json)
  | valueError
  /-- nested too deeply; not a `ValueError` -/
  | recursionError

/-- `getattr(result, "content", "") or ""`. -/
inductive Content
  | text (raw : Text)
  /-- of another type: the pattern of the fence raises a `TypeError` -/
  | notText

def rstrip (text : Text) : Text := (text.reverse.dropWhile isSpace).reverse

/-- The group of `_FENCE_RE`, where it matches. -/
def fenced (raw : Text) : Option Text := do
  let opened ← (raw.dropWhile isSpace).dropPrefix? "```".toList
  let body := ((opened.dropPrefix? "json".toList).getD opened).dropWhile isSpace
  let closed ← (rstrip body).dropSuffix? "```".toList
  return rstrip closed

def stripFence (raw : Text) : Text := (fenced raw).getD raw

example : stripFence " ```json\n{}\n``` ".toList = "{}".toList := by decide

section
variable (loads : Text → Loaded) (repr : Json → String)

/-- `str(value)`; `repr` prints the floats, the lists and the dicts. -/
def str : Json → String
  | .str s => s
  | .null => "None"
  | .bool b => if b then "True" else "False"
  | .int n => toString n
  | value => repr value

/-- `item.get(key) or []`, unless it is not a list. -/
def listAt (item : List (String × Json)) (key : String) : Option (List Json) :=
  match (Json.field item key).filter (·.truthy) with
  | none => some []
  | some (.arr values) => some values
  | some _ => none

/-- `str(item.get(key) or default)`. -/
def textAt (item : List (String × Json)) (key default : String) : String :=
  (((Json.field item key).filter (·.truthy)).map (str repr)).getD default

def defaultDynamicTimeoutS : Nat := 120

def readStep : Json → Option PlannedStep
  | .obj item =>
    let sid := stripped (textAt repr item "id" "")
    if sid = "" then none
    else do
      let deps ← listAt item "dependencies"
      let allow ← listAt item "tool_allowlist"
      return {
        id := sid
        role := textAt repr item "role" ""
        name := textAt repr item "name" sid
        taskDescription := textAt repr item "task_description" ""
        dependencies := deps.map (str repr)
        toolAllowlist := allow.map (str repr)
        timeout := some defaultDynamicTimeoutS
        minChars := 1 }
  | _ => none

/-- `payload.get("steps")`, when it is a list that is not empty. -/
def rawSteps : Json → Option (List Json)
  | .obj payload =>
    match Json.field payload "steps" with
    | some (.arr items) => if items.isEmpty then none else some items
    | _ => none
  | _ => none

/-- `_parse_plan_json` on what was decoded; `maxSteps` is `AGENT_LLM_PLANNER_MAX_STEPS`. -/
def readPlan (maxSteps : Int) (profile question : String) (payload : Json) : Option PlanDocument := do
  let items ← rawSteps payload
  if maxSteps < items.length then none
  else do
    let steps ← items.mapM (readStep repr)
    let plan : PlanDocument := { version := 1, goal := stripped question, profile, steps, maxReplans := 1 }
    match validatePlan plan with
    | .ok () => return plan
    | .error _ => none

/-! ## the charge -/

inductive PriceError
  | valueError
  | typeError
  | overflow

/-- What leaves `build_plan_with_llm` as an exception. -/
inductive PlannerError
  | cancelled
  | record (e : RecordError)
  | price (e : PriceError)
  | recursion

/-- `core/pricing.py`: the table, longest name first, and what it does with numbers. -/
structure Pricing (F : Type) where
  table : List (Text × F × F)
  lower : String → Text
  /-- `int(value)` -/
  int : Value F → Except PriceError Int
  /-- `round((prompt / 1_000_000.0) * p_per_1m + (completion / 1_000_000.0) * c_per_1m, 6)`, unless a number is too large -/
  amount : Int → Int → F → F → Option F

structure ModelConfig where
  modelName : Option String

/-- The parts of a stage context that `record_usage` reads; a guard is known by its object. -/
structure StageCtx where
  budgetGuard : Option Nat
  modelConfig : Option ModelConfig

/-- The guards by their objects, and `usage_records` of the stage context. -/
structure Planning (F : Type) [Metered F] where
  guards : Nat → BudgetGuard F
  usageRecords : List (String × Payload F) := []

abbrev Planner (F : Type) [Metered F] := Raising PlannerError (Planning F)

variable {F : Type} [Metered F] (float : Floats F) (pricing : Pricing F)

def computeCost (modelName : Option String) (usage : Payload F) : Except PriceError (Option F) :=
  if modelName.getD "" = "" then .ok none
  else
    match pricing.table.find? (fun row => row.1 ≠ [] && row.1 <:+: pricing.lower (modelName.getD "")) with
    | none => .ok none
    | some (_, pPer1m, cPer1m) => do
      let prompt ← pricing.int usage.promptTokens.orZero
      let completion ← pricing.int usage.completionTokens.orZero
      match pricing.amount prompt completion pPer1m cPer1m with
      | some cost => return some cost
      | none => throw .overflow

def usageCost (modelName : Option String) (usage : Payload F) : Except PriceError (Option F) :=
  match usage.costUsd with
  | .int n =>
    match float n with
    | none => .error .overflow
    | some actual =>
      if Metered.isFinite actual && (0 : F) ≤ actual then .ok (some actual) else computeCost pricing modelName usage
  | .float actual =>
    if Metered.isFinite actual && (0 : F) ≤ actual then .ok (some actual) else computeCost pricing modelName usage
  | _ => computeCost pricing modelName usage

def costOf (modelName : Option String) (usage : Payload F) : Except PriceError (Value F) :=
  if usage.costUsd.isNone then (usageCost float pricing modelName usage).map (·.elim .none .float)
  else .ok usage.costUsd

def recordOf (usage : Payload F) (cost : Value F) (usageId : String) : Record F :=
  { usage, costUsd := cost, usageId := some usageId }

/-- `guard.add_usage(usage, cost_usd=cost, usage_id=usage_id)`. -/
def addUsageTo (guard : Nat) (r : Record F) : Planner F Unit := do
  let s ← get
  let (out, g) := runFrom (addUsage float r) (s.guards guard)
  set { s with guards := Function.update s.guards guard g }
  Raising.await (out.mapError .record)

def recordUsage (ctx : StageCtx) (key : String) (usage : Payload F) (modelUsage charge : Bool) : Planner F Unit := do
  let s ← get
  if (s.usageRecords.map (·.1)).contains key then return ()
  else
    set { s with usageRecords := s.usageRecords ++ [(key, usage)] }
    match ctx.budgetGuard with
    | some guard =>
      if charge then
        let cost ←
          match ctx.modelConfig with
          | some config =>
            if modelUsage then Raising.await ((costOf float pricing config.modelName usage).mapError .price)
            else pure usage.costUsd
          | none => pure usage.costUsd
        addUsageTo float guard (recordOf usage cost key)
      else return ()
    | none => return ()

/-- `_charge`; a usage that is not a dict, or is empty, is `none`. -/
def chargeUsage (guard : Option Nat) (usage : Option (Payload F)) (modelConfig : Option ModelConfig) (kind : String)
    (stageCtx : Option StageCtx) (attempt : Nat) : Planner F Unit := do
  match usage with
  | none => return ()
  | some usage =>
    match stageCtx with
    | some ctx => recordUsage float pricing ctx ("aux:" ++ kind ++ ":" ++ toString attempt) usage true true
    | none =>
      match guard with
      | none => return ()
      | some guard =>
        let cost ← Raising.await ((costOf float pricing (modelConfig.bind (·.modelName)) usage).mapError .price)
        addUsageTo float guard (recordOf usage cost ("crewai:" ++ kind ++ ":" ++ toString attempt))

/-! ## the call -/

/-- How `provider.chat` ends within its timeout. -/
inductive ChatEnd (F : Type)
  | replied (usage : Option (Payload F)) (content : Content)
  | timeout
  | cancelled
  /-- any other `Exception` -/
  | failed

structure PlannerCall (F : Type) where
  provider : Option (ChatEnd F)
  modelConfig : Option ModelConfig
  profile : String
  question : String
  guard : Option Nat
  elapsed : F
  stageCtx : Option StageCtx

variable (extractDebateSides : DebateSides) (maxSteps : Int)

def parsePlanJson (content : Content) (profile question : String) : Except PlannerError (Option PlanDocument) :=
  match content with
  | .notText => .ok none
  | .text raw =>
    match loads (stripFence raw) with
    | .recursionError => .error .recursion
    | .valueError => .ok none
    | .value payload => .ok (readPlan repr maxSteps profile question payload)

/-- `guard.check()` raises. -/
def exhausted (call : PlannerCall F) (s : Planning F) : Bool :=
  call.guard.any (fun guard => ((s.guards guard).exhaustionReason call.elapsed).isSome)

def PlannerCall.fallback (call : PlannerCall F) : PlanDocument :=
  buildPlanForProfile extractDebateSides call.profile call.question

def buildPlanWithLlm (call : PlannerCall F) : Planner F PlanDocument := do
  let fallback := call.fallback extractDebateSides
  match call.provider with
  | none => return fallback
  | some chat =>
    let s ← get
    if exhausted call s then return fallback
    else
      match chat with
      | .timeout => return fallback
      | .cancelled => throw .cancelled
      | .failed => return fallback
      | .replied usage content =>
        chargeUsage float pricing call.guard usage call.modelConfig "planner" call.stageCtx 1
        let plan ← Raising.await (parsePlanJson loads repr maxSteps content call.profile call.question)
        return plan.getD fallback

/-! ## what is promised -/

def asked (call : PlannerCall F) (s : Planning F) : Option (ChatEnd F) := if exhausted call s then none else call.provider

def usageOf (call : PlannerCall F) (s : Planning F) : Option (Payload F) :=
  match asked call s with
  | some (.replied usage _) => usage
  | _ => none

def bill (modelName : Option String) (usage : Payload F) : Except PlannerError (Int × F) := do
  let cost ← (costOf float pricing modelName usage).mapError .price
  ((recordOf usage cost "").checked float).mapError .record

structure ChargedOnce (usage : Option (Payload F)) (s s' : Planning F) : Prop where
  guards : s'.guards = s.guards ∨ ∃ u guard modelName amount id, usage = some u ∧
    bill float pricing modelName u = .ok amount ∧ id ∉ (s.guards guard).usageIds ∧
    s'.guards = Function.update s.guards guard ((s.guards guard).record amount id)
  records : s'.usageRecords = s.usageRecords ∨ ∃ u key, usage = some u ∧ key ∉ s.usageRecords.map (·.1) ∧
    s'.usageRecords = s.usageRecords ++ [(key, u)]

def Proposed (content : Content) (plan : PlanDocument) : Prop :=
  ∃ raw payload items, content = .text raw ∧ loads (stripFence raw) = .value payload ∧ rawSteps payload = some items ∧
    1 ≤ plan.steps.length ∧ (plan.steps.length : Int) ≤ maxSteps ∧
    List.Forall₂ (fun item step => readStep repr item = some step) items plan.steps

/-- **LLM planning does not break the run**: from `s` to `s'`, with `out`. -/
structure NeverBreaks (call : PlannerCall F) (s : Planning F) (out : Except PlannerError PlanDocument) (s' : Planning F) :
    Prop where
  raises : ∀ e, out = .error e → e = .cancelled
  plan : ∀ plan, out = .ok plan → validatePlan plan = .ok () ∧ (plan = call.fallback extractDebateSides ∨
    ∃ usage content, asked call s = some (.replied usage content) ∧ Proposed loads repr maxSteps content plan)
  charged : ChargedOnce float pricing (usageOf call s) s s'

def Chargeable (call : PlannerCall F) (s : Planning F) : Option (Payload F) → Prop
  | none => True
  | some usage =>
    match call.stageCtx with
    | some ctx => "aux:planner:1" ∈ s.usageRecords.map (·.1) ∨ ctx.budgetGuard = none ∨
        ∃ amount, bill float pricing (ctx.modelConfig.bind (·.modelName)) usage = .ok amount
    | none => call.guard = none ∨ ∃ amount, bill float pricing (call.modelConfig.bind (·.modelName)) usage = .ok amount

def TooDeep (content : Content) : Prop := ∃ raw, content = .text raw ∧ loads (stripFence raw) = .recursionError

end

section
variable {loads : Text → Loaded} {repr : Json → String} {F : Type} [Metered F] {float : Floats F} {pricing : Pricing F}
  {extractDebateSides : DebateSides} {maxSteps : Int}

/-! ## reading the reply -/

theorem mapM_forall₂ {α β : Type} {f : α → Option β} : ∀ {xs : List α} {ys : List β}, xs.mapM f = some ys →
    List.Forall₂ (fun x y => f x = some y) xs ys
  | [], ys, h => by
    obtain rfl : [] = ys := by simpa using h
    exact .nil
  | x :: xs, ys, h => by
    rw [List.mapM_cons] at h
    obtain ⟨y, hy, h⟩ := Option.bind_eq_some_iff.1 h
    obtain ⟨zs, hzs, h⟩ := Option.bind_eq_some_iff.1 h
    obtain rfl : y :: zs = ys := Option.some.inj h
    exact .cons hy (mapM_forall₂ hzs)

theorem rawSteps_ne_nil {payload : Json} {items : List Json} (h : rawSteps payload = some items) : items ≠ [] := by
  unfold rawSteps at h
  split at h
  · split at h
    · split at h
      · cases h
      · rename_i hempty
        cases h
        simpa using hempty
    · cases h
  · cases h

theorem readPlan_proposed {profile question : String} {payload : Json} {plan : PlanDocument}
    (h : readPlan repr maxSteps profile question payload = some plan) :
    validatePlan plan = .ok () ∧ ∃ items, rawSteps payload = some items ∧ 1 ≤ plan.steps.length ∧
      (plan.steps.length : Int) ≤ maxSteps ∧
      List.Forall₂ (fun item step => readStep repr item = some step) items plan.steps := by
  obtain ⟨items, hitems, h⟩ := Option.bind_eq_some_iff.1 h
  split at h
  · cases h
  rename_i hmax
  obtain ⟨steps, hsteps, h⟩ := Option.bind_eq_some_iff.1 h
  dsimp only at h
  split at h
  · rename_i hvalid
    cases h
    have hreads := mapM_forall₂ hsteps
    have hlength := hreads.length_eq
    have hne : 0 < items.length := List.length_pos_iff.2 (rawSteps_ne_nil hitems)
    refine ⟨hvalid, items, hitems, ?_, ?_, hreads⟩
    · dsimp only
      omega
    · dsimp only
      omega
  · cases h

theorem parsePlanJson_spec (loads : Text → Loaded) (repr : Json → String) (maxSteps : Int) (content : Content)
    (profile question : String) :
    (TooDeep loads content ∧ parsePlanJson loads repr maxSteps content profile question = .error .recursion) ∨
      (¬ TooDeep loads content ∧ ∃ plan, parsePlanJson loads repr maxSteps content profile question = .ok plan ∧
        ∀ p, plan = some p → validatePlan p = .ok () ∧ Proposed loads repr maxSteps content p) := by
  cases content with
  | notText => exact .inr ⟨nofun, none, rfl, nofun⟩
  | text raw =>
    unfold parsePlanJson
    dsimp only
    cases hloads : loads (stripFence raw) with
    | recursionError => exact .inl ⟨⟨raw, rfl, hloads⟩, rfl⟩
    | valueError =>
      refine .inr ⟨?_, none, rfl, nofun⟩
      rintro ⟨_, h, hdeep⟩
      cases h
      rw [hloads] at hdeep
      cases hdeep
    | value payload =>
      refine .inr ⟨?_, _, rfl, fun p hp => ?_⟩
      · rintro ⟨_, h, hdeep⟩
        cases h
        rw [hloads] at hdeep
        cases hdeep
      · obtain ⟨hvalid, items, hitems, hpos, hmax, hreads⟩ := readPlan_proposed hp
        exact ⟨hvalid, raw, payload, items, rfl, hloads, hitems, hpos, hmax, hreads⟩

/-! ## charging its usage -/

def Planning.booked (s : Planning F) (guard : Nat) (amount : Int × F) (id : String) : Planning F :=
  if id ∈ (s.guards guard).usageIds then s
  else { s with guards := Function.update s.guards guard ((s.guards guard).record amount id) }

theorem booked_usageRecords (s : Planning F) (guard : Nat) (amount : Int × F) (id : String) :
    (s.booked guard amount id).usageRecords = s.usageRecords := by
  unfold Planning.booked
  split <;> rfl

theorem booked_guards (s : Planning F) (guard : Nat) (amount : Int × F) (id : String) :
    (s.booked guard amount id).guards = s.guards ∨ (id ∉ (s.guards guard).usageIds ∧
      (s.booked guard amount id).guards = Function.update s.guards guard ((s.guards guard).record amount id)) := by
  unfold Planning.booked
  split
  · exact .inl rfl
  · rename_i hid
    exact .inr ⟨hid, rfl⟩

theorem addUsageTo_run (s : Planning F) (guard : Nat) (usage : Payload F) (cost : Value F) (id : String) :
    runFrom (addUsageTo float guard (recordOf usage cost id)) s =
      match (recordOf usage cost "").checked float with
      | .error e => (.error (.record e), s)
      | .ok amount => (.ok (), s.booked guard amount id) := by
  have hchecked : (recordOf usage cost id).checked float = (recordOf usage cost "").checked float := rfl
  have hrun : runFrom (addUsageTo float guard (recordOf usage cost id)) s =
      (fun r => (r.1.mapError .record, { s with guards := Function.update s.guards guard r.2 }))
        (runFrom (addUsage float (recordOf usage cost id)) (s.guards guard)) := rfl
  rw [hrun, Budget.addUsage_run, hchecked]
  cases (recordOf usage cost "").checked float with
  | error e =>
    dsimp only
    rw [Function.update_eq_self]
    rfl
  | ok amount =>
    dsimp only [Planning.booked]
    rw [Budget.charge_run]
    by_cases hid : id ∈ (s.guards guard).usageIds
    · rw [if_pos (by simpa [recordOf] using hid), if_pos hid]
      rw [Function.update_eq_self]
      rfl
    · rw [if_neg (by simpa [recordOf] using hid), if_neg hid]
      have hrecord : (s.guards guard).charged amount.1 amount.2 amount none (some id) = (s.guards guard).record amount id := by
        simp [BudgetGuard.charged, BudgetGuard.record]
      exact congrArg (fun g => (Except.ok (), { s with guards := Function.update s.guards guard g })) hrecord

theorem billed_run (float : Floats F) (pricing : Pricing F) (s : Planning F) (guard : Nat) (modelName : Option String)
    (usage : Payload F) (id : String) :
    runFrom (do
        let cost ← Raising.await ((costOf float pricing modelName usage).mapError .price)
        addUsageTo float guard (recordOf usage cost id) : Planner F Unit) s =
      match bill float pricing modelName usage with
      | .error e => (.error e, s)
      | .ok amount => (.ok (), s.booked guard amount id) := by
  rw [runFrom_bind, Raising.runFrom_await]
  unfold bill
  cases costOf float pricing modelName usage with
  | error e => rfl
  | ok cost =>
    dsimp only [Except.mapError]
    rw [addUsageTo_run]
    cases hchecked : (recordOf usage cost "").checked float with
    | error e | ok amount =>
      dsimp only [bind, Except.bind]
      rw [hchecked]

theorem bill_error {modelName : Option String} {usage : Payload F} {e : PlannerError}
    (h : bill float pricing modelName usage = .error e) : e ≠ .cancelled := by
  unfold bill at h
  cases hcost : costOf float pricing modelName usage with
  | error e' =>
    rw [hcost] at h
    cases h
    nofun
  | ok cost =>
    rw [hcost] at h
    change ((recordOf usage cost "").checked float).mapError .record = .error e at h
    cases hchecked : (recordOf usage cost "").checked float with
    | error e' =>
      rw [hchecked] at h
      cases h
      nofun
    | ok amount =>
      rw [hchecked] at h
      cases h

theorem costOf_none (usage : Payload F) : costOf float pricing none usage = .ok usage.costUsd := by
  unfold costOf
  cases hcost : usage.costUsd with
  | none =>
    unfold usageCost
    rw [hcost]
    rfl
  | bool | int | float | other => rfl

theorem recordUsage_run (s : Planning F) (ctx : StageCtx) (key : String) (usage : Payload F) :
    runFrom (recordUsage float pricing ctx key usage true true) s =
      if key ∈ s.usageRecords.map (·.1) then (.ok (), s)
      else
        match ctx.budgetGuard with
        | none => (.ok (), { s with usageRecords := s.usageRecords ++ [(key, usage)] })
        | some guard =>
          match bill float pricing (ctx.modelConfig.bind (·.modelName)) usage with
          | .error e => (.error e, { s with usageRecords := s.usageRecords ++ [(key, usage)] })
          | .ok amount =>
            (.ok (), Planning.booked { s with usageRecords := s.usageRecords ++ [(key, usage)] } guard amount key) := by
  unfold recordUsage
  rw [runFrom_bind]
  dsimp only [Raising.runFrom_get]
  by_cases hkey : key ∈ s.usageRecords.map (·.1)
  · rw [if_pos (by simpa using hkey), if_pos hkey]
    rfl
  · rw [if_neg (by simpa using hkey), if_neg hkey, runFrom_bind]
    dsimp only [Raising.runFrom_set]
    cases ctx.budgetGuard with
    | none => rfl
    | some guard =>
      cases ctx.modelConfig with
      | none =>
        have hrun := billed_run float pricing
          { s with usageRecords := s.usageRecords ++ [(key, usage)] } guard none usage key
        rw [costOf_none] at hrun
        exact hrun
      | some config => exact billed_run _ _ _ guard config.modelName usage key

/-- **What charging does**: the usage is charged at most once, and an exception is one of the meter's. -/
theorem chargeUsage_spec (float : Floats F) (pricing : Pricing F) (call : PlannerCall F) (s : Planning F)
    (usage : Option (Payload F)) :
    ∃ s', ChargedOnce float pricing usage s s' ∧
      ((runFrom (chargeUsage float pricing call.guard usage call.modelConfig "planner" call.stageCtx 1) s = (.ok (), s') ∧
          Chargeable float pricing call s usage) ∨
        ∃ e, e ≠ .cancelled ∧ ¬ Chargeable float pricing call s usage ∧
          runFrom (chargeUsage float pricing call.guard usage call.modelConfig "planner" call.stageCtx 1) s =
            (.error e, s')) := by
  unfold chargeUsage Chargeable
  cases usage with
  | none => exact ⟨s, ⟨.inl rfl, .inl rfl⟩, .inl ⟨rfl, trivial⟩⟩
  | some usage =>
    cases call.stageCtx with
    | some ctx =>
      dsimp only
      have hid : "aux:" ++ "planner" ++ ":" ++ toString 1 = "aux:planner:1" := by decide
      rw [hid, recordUsage_run]
      by_cases hkey : "aux:planner:1" ∈ s.usageRecords.map (·.1)
      · rw [if_pos hkey]
        exact ⟨s, ⟨.inl rfl, .inl rfl⟩, .inl ⟨rfl, .inl hkey⟩⟩
      · rw [if_neg hkey]
        have hkept : ChargedOnce float pricing (some usage) s
            { s with usageRecords := s.usageRecords ++ [("aux:planner:1", usage)] } :=
          ⟨.inl rfl, .inr ⟨usage, _, rfl, hkey, rfl⟩⟩
        cases ctx.budgetGuard with
        | none => exact ⟨_, hkept, .inl ⟨rfl, .inr (.inl rfl)⟩⟩
        | some guard =>
          cases hbill : bill float pricing (ctx.modelConfig.bind (·.modelName)) usage with
          | error e =>
            refine ⟨_, hkept, .inr ⟨e, bill_error hbill, ?_, rfl⟩⟩
            rintro (h | h | ⟨amount, h⟩)
            · exact hkey h
            · cases h
            · cases h
          | ok amount =>
            refine ⟨_, ⟨?_, ?_⟩, .inl ⟨rfl, .inr (.inr ⟨amount, rfl⟩)⟩⟩
            · rcases booked_guards { s with usageRecords := s.usageRecords ++ [("aux:planner:1", usage)] } guard amount
                "aux:planner:1" with h | ⟨hnew, h⟩
              · exact .inl h
              · exact .inr ⟨usage, guard, _, amount, _, rfl, hbill, hnew, h⟩
            · rw [booked_usageRecords]
              exact hkept.records
    | none =>
      cases call.guard with
      | none => exact ⟨s, ⟨.inl rfl, .inl rfl⟩, .inl ⟨rfl, .inl rfl⟩⟩
      | some guard =>
        dsimp only
        rw [billed_run]
        cases hbill : bill float pricing (call.modelConfig.bind (·.modelName)) usage with
        | error e =>
          refine ⟨s, ⟨.inl rfl, .inl rfl⟩, .inr ⟨e, bill_error hbill, ?_, rfl⟩⟩
          rintro (h | ⟨amount, h⟩)
          · cases h
          · cases h
        | ok amount =>
          refine ⟨_, ⟨?_, .inl (booked_usageRecords _ _ _ _)⟩, .inl ⟨rfl, .inr ⟨amount, rfl⟩⟩⟩
          rcases booked_guards s guard amount ("crewai:" ++ "planner" ++ ":" ++ toString 1) with h | ⟨hnew, h⟩
          · exact .inl h
          · exact .inr ⟨usage, guard, _, amount, _, rfl, hbill, hnew, h⟩

/-! ## the call -/

theorem buildPlanWithLlm_run (call : PlannerCall F) (s : Planning F) :
    runFrom (buildPlanWithLlm loads repr float pricing extractDebateSides maxSteps call) s =
      match asked call s with
      | none | some .timeout | some .failed => (.ok (call.fallback extractDebateSides), s)
      | some .cancelled => (.error .cancelled, s)
      | some (.replied usage content) =>
        match runFrom (chargeUsage float pricing call.guard usage call.modelConfig "planner" call.stageCtx 1) s with
        | (.error e, t) => (.error e, t)
        | (.ok _, t) =>
          ((parsePlanJson loads repr maxSteps content call.profile call.question).map
            (·.getD (call.fallback extractDebateSides)), t) := by
  unfold buildPlanWithLlm asked
  cases call.provider with
  | none => cases exhausted call s <;> rfl
  | some chat =>
    rw [runFrom_bind]
    dsimp only [Raising.runFrom_get]
    cases exhausted call s with
    | true => rfl
    | false =>
      rw [if_neg (by decide), if_neg (by decide)]
      cases chat with
      | timeout | failed | cancelled => rfl
      | replied usage content =>
        dsimp only
        rw [runFrom_bind]
        cases runFrom (chargeUsage float pricing call.guard usage call.modelConfig "planner" call.stageCtx 1) s with
        | mk out t =>
          cases out with
          | error e => rfl
          | ok _ =>
            dsimp only
            rw [runFrom_bind, Raising.runFrom_await]
            cases parsePlanJson loads repr maxSteps content call.profile call.question <;> rfl

theorem neverBreaks_template (loads : Text → Loaded) (repr : Json → String) (float : Floats F) (pricing : Pricing F)
    (extractDebateSides : DebateSides) (maxSteps : Int) (call : PlannerCall F) (s : Planning F) :
    NeverBreaks loads repr float pricing extractDebateSides maxSteps call s (.ok (call.fallback extractDebateSides)) s where
  raises := nofun
  plan := by
    rintro plan ⟨⟩
    exact ⟨buildPlan_validate _ _ _, .inl rfl⟩
  charged := ⟨.inl rfl, .inl rfl⟩

theorem neverBreaks_cancelled (loads : Text → Loaded) (repr : Json → String) (float : Floats F) (pricing : Pricing F)
    (extractDebateSides : DebateSides) (maxSteps : Int) (call : PlannerCall F) (s : Planning F) :
    NeverBreaks loads repr float pricing extractDebateSides maxSteps call s (.error .cancelled) s where
  raises := by
    rintro e ⟨⟩
    rfl
  plan := nofun
  charged := ⟨.inl rfl, .inl rfl⟩

/-- **LLM planning breaks no run exactly when**, wherever the model is asked and replies, its usage is one the meter takes or
nobody charges, and its text is not nested too deeply for the decoder. -/
theorem buildPlanWithLlm_neverBreaks_iff (loads : Text → Loaded) (repr : Json → String) (float : Floats F)
    (pricing : Pricing F) (extractDebateSides : DebateSides) (maxSteps : Int) (call : PlannerCall F) (s : Planning F) :
    NeverBreaks loads repr float pricing extractDebateSides maxSteps call s
        (runFrom (buildPlanWithLlm loads repr float pricing extractDebateSides maxSteps call) s).1
        (runFrom (buildPlanWithLlm loads repr float pricing extractDebateSides maxSteps call) s).2 ↔
      ∀ usage content, asked call s = some (.replied usage content) →
        Chargeable float pricing call s usage ∧ ¬ TooDeep loads content := by
  rw [buildPlanWithLlm_run]
  have htemplate := neverBreaks_template loads repr float pricing extractDebateSides maxSteps call s
  have hasked : usageOf call s = match asked call s with
    | some (.replied usage _) => usage
    | _ => none := rfl
  cases hchat : asked call s with
  | none =>
    constructor
    · intro _ usage content h
      cases h
    · exact fun _ => htemplate
  | some chat =>
    cases chat with
    | timeout | failed =>
      constructor
      · intro _ usage content h
        cases h
      · exact fun _ => htemplate
    | cancelled =>
      constructor
      · intro _ usage content h
        cases h
      · exact fun _ => neverBreaks_cancelled loads repr float pricing extractDebateSides maxSteps call s
    | replied usage content =>
      rw [hchat] at hasked
      obtain ⟨s', hcharged, hcharge⟩ := chargeUsage_spec float pricing call s usage
      rcases hcharge with ⟨hrun, hok⟩ | ⟨e, he, hno, hrun⟩
      · simp only [hrun]
        rcases parsePlanJson_spec loads repr maxSteps content call.profile call.question with
          ⟨hdeep, hparse⟩ | ⟨hflat, plan, hparse, hplan⟩
        · rw [hparse]
          constructor
          · intro h
            cases h.raises _ rfl
          · intro h
            exact absurd hdeep (h usage content rfl).2
        · rw [hparse]
          constructor
          · rintro - _ _ ⟨⟩
            exact ⟨hok, hflat⟩
          · intro _
            refine ⟨nofun, ?_, hasked ▸ hcharged⟩
            rintro p ⟨⟩
            cases plan with
            | none =>
              dsimp only [Option.getD_none]
              exact htemplate.plan _ rfl
            | some plan =>
              obtain ⟨hvalid, hproposed⟩ := hplan plan rfl
              exact ⟨hvalid, .inr ⟨usage, content, hchat, hproposed⟩⟩
      · simp only [hrun]
        constructor
        · intro h
          exact absurd (h.raises e rfl) he
        · intro h
          exact absurd (h usage content rfl).1 hno

end

/-! ## a usage with a text for its tokens -/

def quietPricing : Pricing Int where
  table := []
  lower := String.toList
  int := fun _ => .ok 0
  amount := fun _ _ _ _ => some 0

def smallLimits : Budget.BudgetLimits Int where
  maxAgentSteps := 3
  maxToolCalls := 4
  maxReplanCount := 1
  maxRuntimeSeconds := 31
  maxToolOutputChars := 401
  maxTotalTokens := 1601
  maxCostUsd := 7
  steps_pos := by decide
  calls_pos := by decide
  tokens_pos := by decide
  chars_min := by decide
  replans_nonneg := by decide
  runtime_pos := by decide
  cost_pos := by decide

/-- A reply without a plan, with the usage `{"total_tokens": "15"}`. -/
def textTokens : PlannerCall Int where
  provider := some (.replied (some { totalTokens := .other "str" true }) (.text "no plan".toList))
  modelConfig := none
  profile := "deep_research"
  question := "q"
  guard := some 0
  elapsed := 0
  stageCtx := none

/-- A usage that the meter refuses takes the run down, where the template was to take over. -/
theorem text_tokens_raise : ¬ ∀ (call : PlannerCall Int) (s : Planning Int),
    NeverBreaks (fun _ => .valueError) (fun _ => "") some quietPricing (fun _ => none) 8 call s
      (runFrom (buildPlanWithLlm (fun _ => .valueError) (fun _ => "") some quietPricing (fun _ => none) 8 call) s).1
      (runFrom (buildPlanWithLlm (fun _ => .valueError) (fun _ => "") some quietPricing (fun _ => none) 8 call) s).2 := by
  intro h
  have hraises := (h textTokens { guards := fun _ => { limits := smallLimits } }).raises (.record .notInteger) rfl
  cases hraises

end LlmPlanner
end Workflow
end MyGpt
