import MyGpt.PromptAdmission
import MyGpt.RagFusion
import Mathlib.Data.Rat.Floor
/-!
# ContextBudget — how many tokens of retrieved text a prompt may hold

`rag/budget.py` computes the budget, `context_budget_for` of `services/answer_gate.py` asks for it with the window of the
generation model, and `fit_context` of `rag/prompts.py` packs the hits into it.
-/
namespace MyGpt
namespace Retrieval

open Chat (Text)
open Admission (ModelConfig capabilitiesFromConfig)

/-! ## the budget -/

/-- `CONTEXT_BUDGET_RATIO`: of integers below `2 ^ 49` the float of the source takes the same whole part. -/
def contextBudgetRatio : ℚ := 4 / 5

def minContextBudget : Nat := 256

structure BudgetBreakdown where
  contextWindow : Nat
  reservedSystem : Nat
  reservedQuery : Nat
  reservedOutput : Nat
  reservedTools : Nat
  available : Nat
  budget : Nat
  fallbackUsed : Bool := false
  hardCeiling : Nat := 0
  deriving DecidableEq

/-- `int(available * max(0.0, min(1.0, ratio)))` -/
def share (available : Nat) (ratio : ℚ) : Nat := Nat.floor ((available : ℚ) * max 0 (min 1 ratio))

/-- `compute_context_budget`: the numbers of the source below zero count as zero. -/
def computeContextBudget (contextWindow : Option Int) (reservedSystem reservedQuery reservedOutput reservedTools
    absoluteFallback hardCeiling : Int) (ratio : ℚ) : BudgetBreakdown :=
  let reserves := reservedSystem.toNat + reservedQuery.toNat + reservedOutput.toNat + reservedTools.toNat
  let ceiling := hardCeiling.toNat
  let window := (contextWindow.getD 0).toNat
  let breakdown : BudgetBreakdown :=
    { contextWindow := window
      reservedSystem := reservedSystem.toNat
      reservedQuery := reservedQuery.toNat
      reservedOutput := reservedOutput.toNat
      reservedTools := reservedTools.toNat
      available := 0
      budget := absoluteFallback.toNat
      fallbackUsed := true }
  if window = 0 then breakdown
  else
    let available := window - reserves
    let budget := share available ratio
    let budget := if 0 < ceiling then min budget ceiling else budget
    -- a budget no chunk fits into is given up for the absolute one, which may be none
    let budget := if 0 < budget ∧ budget < minContextBudget then absoluteFallback.toNat else budget
    { breakdown with available := available, budget := budget, fallbackUsed := false, hardCeiling := ceiling }

theorem positiveInt_pos (value : Option Int) {default : Int} (h : 0 < default) : 0 < Admission.positiveInt value default := by
  unfold Admission.positiveInt
  cases hvalue : value.filter (0 < ·) with
  | none => exact h
  | some n => exact of_decide_eq_true (Option.filter_eq_some_iff.1 hvalue).2

/-- `context_budget_for`: the window is the model's, and `RAG_CONTEXT_TOKENS` is the fallback and the ceiling. -/
def contextBudgetFor (ragContextTokens : Int) (cfg : ModelConfig) (reservedSystem reservedQuery : Int) : BudgetBreakdown :=
  let caps := capabilitiesFromConfig cfg
  computeContextBudget (some caps.contextWindow) reservedSystem reservedQuery caps.maxOutputTokens 0 ragContextTokens
    ragContextTokens contextBudgetRatio

/-! ## packing -/

/-- `_count_tokens` over the tokenizer. -/
def countTokens (encode : Text → Nat) (text : Text) : Nat := if text = [] then 0 else encode text

/-- The loop of `_head_to_tokens`, which lasts no longer than the text. -/
def headLoop (count : Text → Nat) (text : Text) (budget : Nat) : Nat → Nat → Nat → Nat
  | 0, low, _ => low
  | fuel + 1, low, high =>
    if low < high then
      let mid := (low + high + 1) / 2
      if count (text.take mid) ≤ budget then headLoop count text budget fuel mid high
      else headLoop count text budget fuel low (mid - 1)
    else low

def headToTokens (count : Text → Nat) (text : Text) (budget : Nat) : Text :=
  if budget = 0 ∨ text = [] ∨ count text ≤ budget then text
  else text.take (headLoop count text budget text.length 0 text.length)

def minKeepTokens : Nat := 64

def packHits (count : Text → Nat) (budget : Nat) : Nat → List SearchHit → List SearchHit
  | _, [] => []
  | used, hit :: hits =>
    let text := hitText hit.payload
    if used + count text ≤ budget then hit :: packHits count budget (used + count text) hits
    else if minKeepTokens ≤ budget - used ∧ text ≠ [] then
      [{ hit with payload := { hit.payload with text := headToTokens count text (budget - used) } }]
    else []

/-- `fit_context`: without a number of its own it packs to the setting. -/
def fitContext (count : Text → Nat) (ragContextTokens : Int) (hits : List SearchHit) (maxTokens : Option Int) :
    List SearchHit :=
  let budget := maxTokens.getD ragContextTokens
  if hits = [] ∨ budget ≤ 0 then hits else packHits count budget.toNat 0 hits

/-- The last step of `_retrieve_impl`: the budget handed over, or the setting, and `budget.budget or None`. -/
def packContext (count : Text → Nat) (ragContextTokens : Int) (contextBudgetTokens : Option Int) (hits : List SearchHit) :
    List SearchHit :=
  let budget := (computeContextBudget none 0 0 0 0 (contextBudgetTokens.getD ragContextTokens) 0 contextBudgetRatio).budget
  fitContext count ragContextTokens hits (if budget = 0 then none else some budget)

/-- `used_tokens` of the context pack. -/
def usedTokens (count : Text → Nat) (hits : List SearchHit) : Nat := (hits.map (fun h => count (hitText h.payload))).sum

end Retrieval
end MyGpt
