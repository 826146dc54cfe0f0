import MyGpt.ContextBudget
/-!
# PackedContext — what the hits of a prompt hold

Packing never goes over the budget it is given (`usedTokens_fitContext`).  The budget is the smaller of the share of the
window and the ceiling as long as a chunk fits into it, and the ceiling alone below that.
-/
namespace MyGpt
namespace Retrieval

open Chat (Text)
open Admission (ModelConfig capabilitiesFromConfig)

/-! ## the head of a text -/

/-- Where the search for the head of a text stands: below `low` it fits, and one past `high` it does not. -/
structure HeadBounds (count : Text → Nat) (text : Text) (budget low high : Nat) : Prop where
  le : low ≤ high
  fits : low = 0 ∨ count (text.take low) ≤ budget
  exceeds : high = text.length ∨ budget < count (text.take (high + 1))

theorem headLoop_bounds {count : Text → Nat} {text : Text} {budget : Nat} (fuel : Nat) {low high : Nat}
    (h : HeadBounds count text budget low high) (hfuel : high - low ≤ fuel) :
    HeadBounds count text budget (headLoop count text budget fuel low high) (headLoop count text budget fuel low high) := by
  induction fuel generalizing low high with
  | zero =>
    have he : high = low := by have := h.le; omega
    subst he
    exact h
  | succ fuel ih =>
    rw [headLoop]
    split
    · rename_i hlt
      dsimp only
      split
      · rename_i hfits
        exact ih ⟨by omega, .inr hfits, h.exceeds⟩ (by omega)
      · rename_i hover
        refine ih ⟨by omega, h.fits, .inr ?_⟩ (by omega)
        have hmid : (low + high + 1) / 2 - 1 + 1 = (low + high + 1) / 2 := by omega
        rw [hmid]
        exact Nat.lt_of_not_le hover
    · have he : high = low := by have := h.le; omega
      subst he
      exact h

theorem headToTokens_spec {count : Text → Nat} (hnil : count [] = 0) {text : Text} {budget : Nat}
    (hone : count (text.take 1) ≤ budget) (hpos : 0 < budget) :
    count (headToTokens count text budget) ≤ budget ∧ (text ≠ [] → headToTokens count text budget ≠ []) := by
  unfold headToTokens
  by_cases hwhole : budget = 0 ∨ text = [] ∨ count text ≤ budget
  · rw [if_pos hwhole]
    refine ⟨?_, id⟩
    rcases hwhole with hb | rfl | hfits
    · omega
    · rw [hnil]
      exact Nat.zero_le _
    · exact hfits
  · rw [if_neg hwhole]
    have hend := headLoop_bounds text.length (⟨Nat.zero_le _, .inl rfl, .inl rfl⟩ : HeadBounds count text budget 0 text.length)
      (Nat.sub_le _ _)
    generalize headLoop count text budget text.length 0 text.length = n at hend
    refine ⟨?_, fun hne hnone => ?_⟩
    · rcases hend.fits with rfl | hfits
      · rw [List.take_zero, hnil]
        exact Nat.zero_le _
      · exact hfits
    · -- an empty head would be one that a single character does not fit into
      rcases List.take_eq_nil_iff.1 hnone with rfl | hempty
      · rcases hend.exceeds with hlen | hover
        · exact hne (List.length_eq_zero_iff.1 hlen.symm)
        · rw [Nat.zero_add] at hover
          omega
      · exact hne hempty

/-! ## packing -/

@[simp] theorem usedTokens_nil (count : Text → Nat) : usedTokens count [] = 0 := rfl

@[simp] theorem usedTokens_cons (count : Text → Nat) (h : SearchHit) (hits : List SearchHit) :
    usedTokens count (h :: hits) = count (hitText h.payload) + usedTokens count hits := by
  simp [usedTokens]

structure Counts (count : Text → Nat) : Prop where
  nil : count [] = 0
  single : ∀ text : Text, count (text.take 1) ≤ minKeepTokens

theorem usedTokens_packHits {count : Text → Nat} (hc : Counts count) {budget : Nat} (hits : List SearchHit) {used : Nat}
    (hused : used ≤ budget) : used + usedTokens count (packHits count budget used hits) ≤ budget := by
  induction hits generalizing used with
  | nil => exact hused
  | cons hit hits ih =>
    rw [packHits]
    dsimp only
    split
    · rename_i hfits
      have := ih hfits
      rw [usedTokens_cons]
      omega
    · split
      · rename_i hkeep
        obtain ⟨hroom, hne⟩ := hkeep
        have hpos : 0 < budget - used := Nat.lt_of_lt_of_le (by decide) hroom
        obtain ⟨hfits, hhead⟩ := headToTokens_spec hc.nil ((hc.single (hitText hit.payload)).trans hroom) hpos
        have htext : hitText { hit.payload with text := headToTokens count (hitText hit.payload) (budget - used) } =
            headToTokens count (hitText hit.payload) (budget - used) := by
          rw [hitText, if_neg (hhead hne)]
        rw [usedTokens_cons, htext, usedTokens_nil]
        omega
      · exact hused

theorem usedTokens_fitContext {count : Text → Nat} (hc : Counts count) {ragContextTokens budget : Int}
    (hits : List SearchHit) {maxTokens : Option Int} (hbudget : maxTokens.getD ragContextTokens = budget) (hpos : 0 < budget) :
    (usedTokens count (fitContext count ragContextTokens hits maxTokens) : Int) ≤ budget := by
  unfold fitContext
  rw [hbudget]
  by_cases hnil : hits = []
  · subst hnil
    simpa using hpos.le
  · rw [if_neg (by simp [hnil, hpos])]
    have := usedTokens_packHits hc hits (Nat.zero_le budget.toNat)
    omega

/-! ## the tokenizer -/

theorem counts_countTokens {encode : Text → Nat} (hbytes : ∀ text, encode text ≤ (text.map Char.utf8Size).sum) :
    Counts (countTokens encode) where
  nil := rfl
  single := by
    intro text
    unfold countTokens
    split
    · decide
    · cases text with
      | nil => contradiction
      | cons c text =>
        have hone : encode [c] ≤ c.utf8Size := by simpa using hbytes [c]
        exact hone.trans (c.utf8Size_le_four.trans (by decide))

/-! ## the budget of a turn -/

theorem contextWindow_pos (cfg : ModelConfig) : 0 < (capabilitiesFromConfig cfg).contextWindow :=
  positiveInt_pos _ (by decide)

def smallerLimit (ragContextTokens : Int) (available : Nat) : Nat :=
  if 0 < ragContextTokens.toNat then min (share available contextBudgetRatio) ragContextTokens.toNat
  else share available contextBudgetRatio

theorem contextBudgetFor_available (ragContextTokens : Int) (cfg : ModelConfig) (reservedSystem reservedQuery : Int) :
    (contextBudgetFor ragContextTokens cfg reservedSystem reservedQuery).available =
      (capabilitiesFromConfig cfg).contextWindow.toNat -
        (reservedSystem.toNat + reservedQuery.toNat + (capabilitiesFromConfig cfg).maxOutputTokens.toNat) := by
  have hwindow : (capabilitiesFromConfig cfg).contextWindow.toNat ≠ 0 := by
    have := contextWindow_pos cfg
    omega
  simp only [contextBudgetFor, computeContextBudget, Option.getD_some, if_neg hwindow, Int.toNat_zero, Nat.add_zero]

/-- **A turn's budget is the smaller limit, or the ceiling where no chunk fits into that.** -/
theorem contextBudgetFor_budget (ragContextTokens : Int) (cfg : ModelConfig) (reservedSystem reservedQuery : Int) :
    let b := contextBudgetFor ragContextTokens cfg reservedSystem reservedQuery
    b.budget =
      if 0 < smallerLimit ragContextTokens b.available ∧ smallerLimit ragContextTokens b.available < minContextBudget then
        ragContextTokens.toNat
      else smallerLimit ragContextTokens b.available := by
  have hwindow : (capabilitiesFromConfig cfg).contextWindow.toNat ≠ 0 := by
    have := contextWindow_pos cfg
    omega
  dsimp only
  rw [contextBudgetFor_available]
  simp only [contextBudgetFor, computeContextBudget, Option.getD_some, if_neg hwindow, Int.toNat_zero, Nat.add_zero]
  rfl

theorem share_le (available : Nat) : (share available contextBudgetRatio : ℚ) ≤ contextBudgetRatio * available := by
  have hclamp : max 0 (min 1 contextBudgetRatio) = contextBudgetRatio := by decide +kernel
  unfold share
  rw [hclamp, mul_comm contextBudgetRatio]
  exact Nat.floor_le (mul_nonneg (Nat.cast_nonneg available) (by decide +kernel))

theorem budget_le_ceiling {ragContextTokens : Int} (hceiling : 0 < ragContextTokens) (cfg : ModelConfig)
    (reservedSystem reservedQuery : Int) :
    (contextBudgetFor ragContextTokens cfg reservedSystem reservedQuery).budget ≤ ragContextTokens.toNat := by
  have hpos : 0 < ragContextTokens.toNat := by omega
  rw [contextBudgetFor_budget, smallerLimit, if_pos hpos]
  split
  · exact Nat.le_refl _
  · exact Nat.min_le_right _ _

theorem budget_le_share {ragContextTokens : Int} {cfg : ModelConfig} {reservedSystem reservedQuery : Int} :
    let b := contextBudgetFor ragContextTokens cfg reservedSystem reservedQuery
    (minContextBudget ≤ smallerLimit ragContextTokens b.available ∨
        (0 < ragContextTokens ∧ ragContextTokens ≤ share b.available contextBudgetRatio)) →
      0 < b.budget ∧ b.budget ≤ share b.available contextBudgetRatio := by
  have hmin : minContextBudget = 256 := rfl
  dsimp only
  rw [contextBudgetFor_budget]
  generalize (contextBudgetFor ragContextTokens cfg reservedSystem reservedQuery).available = available
  unfold smallerLimit
  by_cases hpos : 0 < ragContextTokens.toNat
  · rw [if_pos hpos]
    intro hroom
    split <;> omega
  · rw [if_neg hpos]
    intro hroom
    rw [if_neg (by omega)]
    omega

theorem packContext_some (count : Text → Nat) (ragContextTokens : Int) (budget : Nat) (hits : List SearchHit) :
    packContext count ragContextTokens (some budget) hits =
      fitContext count ragContextTokens hits (if budget = 0 then none else some budget) := by
  simp [packContext, computeContextBudget]

theorem packContext_none (count : Text → Nat) (ragContextTokens : Int) (hits : List SearchHit) :
    packContext count ragContextTokens none hits = packContext count ragContextTokens (some ragContextTokens.toNat) hits := by
  simp [packContext, computeContextBudget]

theorem pack_le_ceiling {count : Text → Nat} (hc : Counts count) {ragContextTokens : Int} (hceiling : 0 < ragContextTokens)
    {budget : Nat} (hle : budget ≤ ragContextTokens.toNat) (hits : List SearchHit) :
    (usedTokens count (packContext count ragContextTokens (some budget) hits) : Int) ≤ ragContextTokens := by
  rw [packContext_some]
  by_cases hzero : budget = 0
  · rw [if_pos hzero]
    exact usedTokens_fitContext hc hits rfl hceiling
  · rw [if_neg hzero]
    refine (usedTokens_fitContext hc hits (Option.getD_some ..) (by omega)).trans ?_
    omega

theorem pack_le_budget {count : Text → Nat} (hc : Counts count) (ragContextTokens : Int) {budget : Nat} (hpos : 0 < budget)
    (hits : List SearchHit) : usedTokens count (packContext count ragContextTokens (some budget) hits) ≤ budget := by
  rw [packContext_some, if_neg hpos.ne']
  have hget : (some (budget : Int)).getD ragContextTokens = budget := rfl
  exact_mod_cast usedTokens_fitContext hc hits hget (by omega)

/-! ## the two limits -/

/-- **What a turn packs holds no more than the allowed share of the window that is left, nor than a ceiling.** -/
def Respects (count : Text → Nat) (ragContextTokens : Int) (cfg : ModelConfig) (reservedSystem reservedQuery : Int)
    (hits : List SearchHit) : Prop :=
  let b := contextBudgetFor ragContextTokens cfg reservedSystem reservedQuery
  let used := usedTokens count (packContext count ragContextTokens (some b.budget) hits)
  (used : ℚ) ≤ contextBudgetRatio * b.available ∧ (0 < ragContextTokens → (used : Int) ≤ ragContextTokens)

/-- **A turn's context respects a ceiling always, and the share of the window wherever a chunk fits into the smaller of the
two or the ceiling is within the share.  Where no chunk fits, the hits are packed as for an unknown window.** -/
theorem context_within_limits {encode : Text → Nat} (hbytes : ∀ text, encode text ≤ (text.map Char.utf8Size).sum)
    (ragContextTokens : Int) (cfg : ModelConfig) (reservedSystem reservedQuery : Int) (hits : List SearchHit) :
    let b := contextBudgetFor ragContextTokens cfg reservedSystem reservedQuery
    let limit := smallerLimit ragContextTokens b.available
    let pack := packContext (countTokens encode) ragContextTokens (some b.budget) hits
    (0 < ragContextTokens → (usedTokens (countTokens encode) pack : Int) ≤ ragContextTokens) ∧
      (minContextBudget ≤ limit ∨ (0 < ragContextTokens ∧ ragContextTokens ≤ share b.available contextBudgetRatio) →
        Respects (countTokens encode) ragContextTokens cfg reservedSystem reservedQuery hits) ∧
      (0 < limit → limit < minContextBudget → pack = packContext (countTokens encode) ragContextTokens none hits) := by
  have hc := counts_countTokens hbytes
  have hceiling : 0 < ragContextTokens → _ := fun hpos =>
    pack_le_ceiling hc hpos (budget_le_ceiling hpos cfg reservedSystem reservedQuery) hits
  refine ⟨hceiling, fun hroom => ⟨?_, hceiling⟩, fun hpos hsmall => ?_⟩
  · obtain ⟨hpos, hle⟩ := budget_le_share hroom
    refine le_trans ?_ (share_le _)
    exact_mod_cast (pack_le_budget hc ragContextTokens hpos hits).trans hle
  · rw [packContext_none, contextBudgetFor_budget, if_pos ⟨hpos, hsmall⟩]

/-- A window with room for a chunk of one letter, which is one token of one byte. -/
theorem context_within_limits_letter :
    Respects (countTokens (fun text => (text.map Char.utf8Size).sum)) 6000 ⟨some 8192, some 4096⟩ 0 0
      [{ id := ['c'], score := 1, payload := { text := ['a'] } }] :=
  (context_within_limits (fun _ => Nat.le_refl _) 6000 ⟨some 8192, some 4096⟩ 0 0 _).2.1 (.inl (by decide +kernel))

def hundredWords : SearchHit :=
  { id := ['c'], score := 1, payload := { text := (List.replicate 100 [' ', 'a']).flatten } }

/-- **Where a hundred tokens are left, eighty of them allowed, a chunk of a hundred is packed.** -/
theorem nearly_full_window :
    ¬ Respects (countTokens (List.count ' ')) 6000 ⟨some 4100, some 4000⟩ 0 0 [hundredWords] := by
  unfold Respects
  decide +kernel

end Retrieval
end MyGpt
