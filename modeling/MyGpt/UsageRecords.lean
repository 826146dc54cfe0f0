import MyGpt.BudgetGuard
import MyGpt.Lib.Raising
/-!
# UsageRecords — what `add_usage` does with any payload

`add_usage` on values of any type, each statement in its turn: the checks come before the lock, and under the lock the last
exception comes before the first write (`addUsage_rejected`).  On integers and floats it is `BudgetGuard.addUsage`
(`addUsage_typed`).
-/
namespace MyGpt
namespace Budget

variable {F : Type} [Metered F]

inductive Value (F : Type)
  | none
  | bool (b : Bool)
  | int (n : Int)
  | float (x : F)
  /-- of another type, with `bool(value)` -/
  | other (type : String) (truthy : Bool)

/-- `dict(usage or {})`, as far as it is read. -/
structure Payload (F : Type) where
  totalTokens : Value F := .none
  promptTokens : Value F := .none
  completionTokens : Value F := .none
  costUsd : Value F := .none

structure Record (F : Type) where
  usage : Payload F := {}
  totalTokens : Value F := .none
  costUsd : Value F := .none
  cumulative : Bool := false
  source : Option String := none
  usageId : Option String := none

inductive RecordError
  | notInteger
  | notNumber
  /-- the `TypeError` of a sum -/
  | unsupportedOperands
  /-- the `OverflowError` of `float` -/
  | overflow
  | usage (e : UsageError)
  deriving DecidableEq

def RecordError.message : RecordError → Option String
  | .notInteger => some "total_tokens must be an integer"
  | .notNumber => some "cost_usd must be a finite number"
  | .unsupportedOperands => none
  | .overflow => none
  | .usage e => some e.message

def Value.isNone : Value F → Bool
  | .none => true
  | _ => false

def Value.truthy : Value F → Bool
  | .none => false
  | .bool b => b
  | .int n => n ≠ 0
  -- a NaN is true
  | .float x => ¬(x ≤ 0 ∧ 0 ≤ x)
  | .other _ truthy => truthy

/-- `value or 0`. -/
def Value.orZero (v : Value F) : Value F := if v.truthy then v else .int 0

/-- `float(n)`, where it does not overflow. -/
abbrev Floats (F : Type) := Int → Option F

section
variable (float : Floats F)

def Value.operand : Value F → Option (Int ⊕ F)
  | .bool b => some (.inl b.toInt)
  | .int n => some (.inl n)
  | .float x => some (.inr x)
  | .none | .other _ _ => Option.none

def floatOf : Int ⊕ F → Option F
  | .inl n => float n
  | .inr x => some x

def Value.plus (a b : Value F) : Except RecordError (Value F) :=
  match a, b with
  | .other type _, .other type' _ =>
    -- texts and lists are joined
    if type = type' ∧ type ≠ "dict" then .ok (.other type true) else .error .unsupportedOperands
  | _, _ =>
    match a.operand, b.operand with
    | some (.inl m), some (.inl n) => .ok (.int (m + n))
    | some x, some y =>
      match floatOf float x, floatOf float y with
      | some x, some y => .ok (.float (x + y))
      | _, _ => .error .overflow
    | _, _ => .error .unsupportedOperands

/-- `total_tokens`, from the payload where the argument is missing. -/
def Record.total (r : Record F) : Except RecordError (Value F) :=
  if !r.totalTokens.isNone then .ok r.totalTokens
  else if !r.usage.totalTokens.isNone then .ok r.usage.totalTokens
  else if !r.usage.promptTokens.isNone || !r.usage.completionTokens.isNone then
    r.usage.promptTokens.orZero.plus float r.usage.completionTokens.orZero
  else .ok .none

def checkTokens : Value F → Except RecordError Int
  | .none => .ok 0
  | .int n => (validateTokens (some n)).mapError .usage
  | _ => .error .notInteger

def checkCost : Value F → Except RecordError F
  | .none => .ok 0
  | .int n =>
    match float n with
    | some cost => (validateCost (some cost)).mapError .usage
    | none => .error .overflow
  | .float cost => (validateCost (some cost)).mapError .usage
  | _ => .error .notNumber

/-- `cost_usd`, from the payload where the argument is missing. -/
def Record.cost (r : Record F) : Value F := if r.costUsd.isNone then r.usage.costUsd else r.costUsd

/-- The tokens and the cost of a record, as far as `add_usage` gets without its lock. -/
def Record.checked (r : Record F) : Except RecordError (Int × F) := do
  let total ← r.total float
  let tokens ← checkTokens total
  let cost ← checkCost float r.cost
  if r.cumulative && (r.source.getD "" = "") then throw (.usage .noSource)
  return (tokens, cost)

def Record.key (r : Record F) : Option String := if r.cumulative then r.source else none

abbrev Metering (F : Type) [Metered F] := Raising RecordError (BudgetGuard F)

def meter (tokens : Int) (cost : F) : Option String → Metering F (Int × F)
  | none => pure (tokens, cost)
  | some key => do
    let g ← get
    let (oldTokens, oldCost) := (g.cumulative key).getD (0, 0)
    if tokens < oldTokens ∨ cost < oldCost then
      throw (.usage .notMonotonic)
    else
      set { g with cumulative := Function.update g.cumulative key (some (tokens, cost)) }
      return (tokens - oldTokens, cost - oldCost)

/-- The part of `add_usage` under the lock. -/
def charge (tokens : Int) (cost : F) (key usageId : Option String) : Metering F Unit := do
  let g ← get
  if usageId.any g.usageIds.contains then
    return ()
  else
    let (tokens, cost) ← meter tokens cost key
    modify fun g => { g with tokens := g.tokens + tokens }
    modify fun g => { g with costUsd := g.costUsd + cost }
    modify fun g => { g with usageIds := g.usageIds ++ usageId.toList }

def addUsage (r : Record F) : Metering F Unit := do
  let (tokens, cost) ← Raising.await (r.checked float)
  charge tokens cost r.key r.usageId

def addTokens (n : Int) : Metering F Unit := addUsage float { totalTokens := .int n }

end

/-! ## what it does -/

open Raising (runFrom runFrom_bind)

def BudgetGuard.charged (g : BudgetGuard F) (tokens : Int) (cost : F) (amount : Int × F) (key usageId : Option String) :
    BudgetGuard F :=
  { g with
    tokens := g.tokens + amount.1
    costUsd := g.costUsd + amount.2
    cumulative := fun k => if key = some k then some (tokens, cost) else g.cumulative k
    usageIds := g.usageIds ++ usageId.toList }

theorem meter_run (g : BudgetGuard F) (tokens : Int) (cost : F) (key : Option String) :
    runFrom (meter tokens cost key) g =
      match g.increase tokens cost key with
      | .error e => (.error (.usage e), g)
      | .ok amount => (.ok amount, { g with cumulative := fun k => if key = some k then some (tokens, cost) else g.cumulative k }) := by
  cases key with
  | none => rfl
  | some key =>
    unfold meter BudgetGuard.increase
    rw [runFrom_bind]
    dsimp only [Raising.runFrom_get]
    split
    · rfl
    · rw [runFrom_bind]
      have hkeys : Function.update g.cumulative key (some (tokens, cost)) =
          fun k => if some key = some k then some (tokens, cost) else g.cumulative k := by
        funext k
        rw [Function.update_apply]
        simp [eq_comm]
      rw [← hkeys]
      rfl

/-- **What the lock lets through**: nothing for an old id, and for a new one the increase, when there is one. -/
theorem charge_run (g : BudgetGuard F) (tokens : Int) (cost : F) (key usageId : Option String) :
    runFrom (charge tokens cost key usageId) g =
      if usageId.any g.usageIds.contains then (.ok (), g)
      else
        match g.increase tokens cost key with
        | .error e => (.error (.usage e), g)
        | .ok amount => (.ok (), g.charged tokens cost amount key usageId) := by
  unfold charge
  rw [runFrom_bind]
  dsimp only [Raising.runFrom_get]
  split
  · rfl
  · rw [runFrom_bind, meter_run]
    cases g.increase tokens cost key <;> rfl

section
variable {float : Floats F}

theorem addUsage_run (g : BudgetGuard F) (r : Record F) : runFrom (addUsage float r) g =
    match r.checked float with
    | .error e => (.error e, g)
    | .ok (tokens, cost) => runFrom (charge tokens cost r.key r.usageId) g := by
  unfold addUsage
  rw [runFrom_bind, Raising.runFrom_await]
  cases r.checked float <;> rfl

theorem addUsage_rejected {g g' : BudgetGuard F} {r : Record F} {e : RecordError}
    (h : runFrom (addUsage float r) g = (.error e, g')) : g' = g := by
  rw [addUsage_run] at h
  cases hchecked : r.checked float with
  | error e' =>
    rw [hchecked] at h
    exact (congrArg Prod.snd h).symm
  | ok amount =>
    simp only [hchecked] at h
    rw [charge_run] at h
    split at h
    · cases h
    · split at h
      · exact (congrArg Prod.snd h).symm
      · cases h

def Usage.record (usage : Usage F) (costUsd : Option F) (source usageId : Option String) : Record F where
  usage :=
    { totalTokens := usage.totalTokens.elim .none .int
      promptTokens := usage.promptTokens.elim .none .int
      completionTokens := usage.completionTokens.elim .none .int
      costUsd := usage.costUsd.elim .none .float }
  costUsd := costUsd.elim .none .float
  cumulative := source.isSome
  source := source
  usageId := usageId

omit [Metered F] in
theorem elim_int_isNone (n : Option Int) : (n.elim .none .int : Value F).isNone = n.isNone := by
  cases n <;> rfl

theorem elim_int_orZero (n : Option Int) : (n.elim .none .int : Value F).orZero = .int (n.getD 0) := by
  cases n with
  | none => rfl
  | some n =>
    show (if (Value.int n : Value F).truthy = true then Value.int n else Value.int 0) = Value.int n
    split
    · rfl
    · rename_i h
      have hzero : n = 0 := by simpa [Value.truthy] using h
      rw [hzero]

theorem record_total (usage : Usage F) (costUsd : Option F) (source usageId : Option String) :
    (usage.record costUsd source usageId).total float = .ok (usage.total.elim .none .int) := by
  obtain ⟨total, prompt, completion, cost⟩ := usage
  unfold Record.total Usage.record
  simp only [elim_int_isNone, elim_int_orZero]
  cases total with
  | some total => rfl
  | none => cases prompt <;> cases completion <;> rfl

theorem record_cost (usage : Usage F) (costUsd : Option F) (source usageId : Option String) :
    checkCost float (usage.record costUsd source usageId).cost = (validateCost (costUsd.or usage.costUsd)).mapError .usage := by
  obtain ⟨total, prompt, completion, cost⟩ := usage
  cases costUsd with
  | some costUsd => rfl
  | none => cases cost <;> rfl

omit [Metered F] in
theorem checkTokens_elim (n : Option Int) : checkTokens (n.elim .none .int : Value F) = (validateTokens n).mapError .usage := by
  cases n <;> rfl

theorem record_checked (usage : Usage F) (costUsd : Option F) (source usageId : Option String) :
    (usage.record costUsd source usageId).checked float =
      match validateTokens usage.total, validateCost (costUsd.or usage.costUsd) with
      | .error e, _ => .error (.usage e)
      | .ok _, .error e => .error (.usage e)
      | .ok tokens, .ok cost => if source = some "" then .error (.usage .noSource) else .ok (tokens, cost) := by
  unfold Record.checked
  rw [record_total, record_cost]
  simp only [bind, Except.bind, checkTokens_elim]
  cases validateTokens usage.total with
  | error e => rfl
  | ok tokens =>
    cases validateCost (costUsd.or usage.costUsd) with
    | error e => rfl
    | ok cost =>
      cases source with
      | none => rfl
      | some source =>
        by_cases hempty : source = ""
        · subst hempty
          rfl
        · simp [Except.mapError, Usage.record, hempty, pure, Except.pure]

theorem guard_addUsage (g : BudgetGuard F) (usage : Usage F) (costUsd : Option F) (source usageId : Option String) :
    g.addUsage usage costUsd source usageId =
      match validateTokens usage.total, validateCost (costUsd.or usage.costUsd) with
      | .error e, _ => .error e
      | .ok _, .error e => .error e
      | .ok tokens, .ok cost =>
        if source = some "" then .error .noSource
        else if usageId.any g.usageIds.contains then .ok g
        else (g.increase tokens cost source).map fun amount => g.charged tokens cost amount source usageId := by
  unfold BudgetGuard.addUsage
  cases validateTokens usage.total with
  | error e => rfl
  | ok tokens =>
    cases validateCost (costUsd.or usage.costUsd) with
    | error e => rfl
    | ok cost =>
      simp only [bind, Except.bind]
      split
      · rfl
      · split
        · rfl
        · cases g.increase tokens cost source <;> rfl

/-- **On integers and floats this is the guard's `addUsage`.** -/
theorem addUsage_typed (g : BudgetGuard F) (usage : Usage F) (costUsd : Option F) (source usageId : Option String) :
    runFrom (addUsage float (usage.record costUsd source usageId)) g =
      match g.addUsage usage costUsd source usageId with
      | .error e => (.error (.usage e), g)
      | .ok g' => (.ok (), g') := by
  have hkey : (usage.record costUsd source usageId).key = source := by cases source <;> rfl
  have hid : (usage.record costUsd source usageId).usageId = usageId := rfl
  rw [addUsage_run, record_checked, guard_addUsage, hkey, hid]
  cases validateTokens usage.total with
  | error e => rfl
  | ok tokens =>
    cases validateCost (costUsd.or usage.costUsd) with
    | error e => rfl
    | ok cost =>
      by_cases hsource : source = some ""
      · subst hsource
        rfl
      · simp only [hsource, if_false]
        rw [charge_run]
        split
        · rfl
        · cases g.increase tokens cost source <;> rfl

end

end Budget
end MyGpt
