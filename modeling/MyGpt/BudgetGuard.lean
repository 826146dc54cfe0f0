import Mathlib.Data.List.Basic
/-!
# BudgetGuard — the hard budgets of one run

`agents/policies/budget_policy.py`: the limits, the meters of a run, and the gates that raise once a limit is crossed.
Costs and seconds are floats of the source; the guard adds, subtracts, compares and prints them, and no law of arithmetic
is assumed of them.
-/
namespace MyGpt
namespace Budget

/-- What the guard does with a float. -/
class Metered (F : Type) extends Zero F, Add F, Sub F, LE F, LT F where
  decidableLe : ∀ a b : F, Decidable (a ≤ b)
  decidableLt : ∀ a b : F, Decidable (a < b)
  isFinite : F → Bool
  /-- `f"{x}"` -/
  str : F → String
  /-- `f"{x:g}"` -/
  general : F → String

instance decidableMeteredLe {F : Type} [Metered F] (a b : F) : Decidable (a ≤ b) := Metered.decidableLe a b
instance decidableMeteredLt {F : Type} [Metered F] (a b : F) : Decidable (a < b) := Metered.decidableLt a b

/-- Whole seconds and dollars. -/
instance : Metered Int where
  zero := 0
  decidableLe := fun a b => inferInstanceAs (Decidable (a ≤ b))
  decidableLt := fun a b => inferInstanceAs (Decidable (a < b))
  isFinite := fun _ => true
  str := fun n => toString n ++ ".0"
  general := toString

variable {F : Type} [Metered F]

/-- `BudgetLimits`, with what `__post_init__` checks. -/
structure BudgetLimits (F : Type) [Metered F] where
  maxAgentSteps : Int
  maxToolCalls : Int
  maxReplanCount : Int
  maxRuntimeSeconds : F
  maxToolOutputChars : Int
  maxTotalTokens : Int
  maxCostUsd : F
  steps_pos : 0 < maxAgentSteps
  calls_pos : 0 < maxToolCalls
  tokens_pos : 0 < maxTotalTokens
  chars_min : 16 ≤ maxToolOutputChars
  replans_nonneg : 0 ≤ maxReplanCount
  runtime_pos : Metered.isFinite maxRuntimeSeconds = true ∧ 0 < maxRuntimeSeconds
  cost_pos : Metered.isFinite maxCostUsd = true ∧ 0 < maxCostUsd

structure BudgetGuard (F : Type) [Metered F] where
  limits : BudgetLimits F
  steps : Int := 0
  toolCalls : Int := 0
  replans : Int := 0
  tokens : Int := 0
  costUsd : F := 0
  cumulative : String → Option (Int × F) := fun _ => none
  usageIds : List String := []

/-- What `BudgetExceeded` carries. -/
abbrev Reason := String

def BudgetGuard.exhaustionReason (g : BudgetGuard F) (elapsed : F) : Option Reason :=
  if g.limits.maxAgentSteps < g.steps then some s!"max agent steps ({g.limits.maxAgentSteps}) reached"
  else if g.limits.maxToolCalls < g.toolCalls then some s!"max tool calls ({g.limits.maxToolCalls}) reached"
  else if g.limits.maxReplanCount < g.replans then some s!"max replans ({g.limits.maxReplanCount}) reached"
  else if g.limits.maxRuntimeSeconds ≤ elapsed then
    some s!"time budget ({Metered.str g.limits.maxRuntimeSeconds}s) exceeded"
  else if g.limits.maxTotalTokens ≤ g.tokens then some s!"token budget ({g.limits.maxTotalTokens}) exceeded"
  else if g.limits.maxCostUsd ≤ g.costUsd then
    some s!"cost budget (${Metered.general g.limits.maxCostUsd}) exceeded"
  else none

def BudgetGuard.enterReplan (g : BudgetGuard F) (elapsed : F) : BudgetGuard F × Option Reason :=
  let g := { g with replans := g.replans + 1 }
  (g, g.exhaustionReason elapsed)

/-! ## usage -/

structure Usage (F : Type) where
  totalTokens : Option Int := none
  promptTokens : Option Int := none
  completionTokens : Option Int := none
  costUsd : Option F := none

inductive UsageError
  | negativeTokens
  | infiniteCost
  | negativeCost
  | noSource
  | notMonotonic
  deriving DecidableEq

def UsageError.message : UsageError → String
  | .negativeTokens => "total_tokens must be non-negative"
  | .infiniteCost => "cost_usd must be finite"
  | .negativeCost => "cost_usd must be non-negative"
  | .noSource => "cumulative usage requires a source"
  | .notMonotonic => "cumulative usage must be monotonic"

def validateTokens : Option Int → Except UsageError Int
  | none => .ok 0
  | some value => if value < 0 then .error .negativeTokens else .ok value

def validateCost : Option F → Except UsageError F
  | none => .ok 0
  | some cost =>
    if !Metered.isFinite cost then .error .infiniteCost
    else if cost < 0 then .error .negativeCost
    else .ok cost

/-- `total_tokens`, or the prompt and completion tokens when one of them is there. -/
def Usage.total (usage : Usage F) : Option Int :=
  match usage.totalTokens, usage.promptTokens, usage.completionTokens with
  | some total, _, _ => some total
  | none, none, none => none
  | none, prompt, completion => some (prompt.getD 0 + completion.getD 0)

def BudgetGuard.increase (g : BudgetGuard F) (tokens : Int) (cost : F) : Option String → Except UsageError (Int × F)
  | none => .ok (tokens, cost)
  | some source =>
    let (oldTokens, oldCost) := (g.cumulative source).getD (0, 0)
    if tokens < oldTokens ∨ cost < oldCost then .error .notMonotonic
    else .ok (tokens - oldTokens, cost - oldCost)

/-- `add_usage`; a `source` that is not `none` stands for `cumulative=True`. -/
def BudgetGuard.addUsage (g : BudgetGuard F) (usage : Usage F) (costUsd : Option F) (source usageId : Option String) :
    Except UsageError (BudgetGuard F) := do
  let tokens ← validateTokens usage.total
  let cost ← validateCost (costUsd.or usage.costUsd)
  if source = some "" then throw .noSource
  if usageId.any g.usageIds.contains then return g
  let (tokensCharged, costCharged) ← g.increase tokens cost source
  return { g with
    tokens := g.tokens + tokensCharged
    costUsd := g.costUsd + costCharged
    cumulative := fun key => if source = some key then some (tokens, cost) else g.cumulative key
    usageIds := g.usageIds ++ usageId.toList }

def Usage.amount (usage : Usage F) (cost : Option F) : Option (Int × F) :=
  match validateTokens usage.total, validateCost (cost.or usage.costUsd) with
  | .ok tokens, .ok costUsd => some (tokens, costUsd)
  | _, _ => none

def BudgetGuard.record (g : BudgetGuard F) (amount : Int × F) (usageId : String) : BudgetGuard F :=
  { g with
    tokens := g.tokens + amount.1
    costUsd := g.costUsd + amount.2
    usageIds := g.usageIds ++ [usageId] }

/-- **A record counts once**: under a new id its amount is added, under an old one nothing happens. -/
theorem addUsage_record (g : BudgetGuard F) (usage : Usage F) (cost : Option F) (usageId : String) :
    (usage.amount cost = none ∧ ∃ e, g.addUsage usage cost none (some usageId) = .error e) ∨
      ∃ amount, usage.amount cost = some amount ∧ g.addUsage usage cost none (some usageId) =
        .ok (if g.usageIds.contains usageId then g else g.record amount usageId) := by
  unfold Usage.amount BudgetGuard.addUsage
  cases htokens : validateTokens usage.total with
  | error e => exact .inl ⟨rfl, e, rfl⟩
  | ok tokens =>
    cases hcost : validateCost (cost.or usage.costUsd) with
    | error e => exact .inl ⟨rfl, e, rfl⟩
    | ok costUsd =>
      refine .inr ⟨(tokens, costUsd), rfl, ?_⟩
      by_cases hseen : g.usageIds.contains usageId
      · simp only [hseen, bind, Except.bind, Option.any_some]
        rfl
      · simp only [hseen, bind, Except.bind, Option.any_some]
        rfl

end Budget
end MyGpt
