import MyGpt.UsageRecords
import MyGpt.Lib.Binary
import MyGpt.Lib.Meter
/-!
# BudgetAccounts — a budget guard under records and calls in any order

The records take the lock one at a time; a call counts itself under the lock and reads the limits after it, one by one,
while others go on.  The tokens are the deltas and the latest snapshots; the cost is that up to the rounding of the guard's
own sums and differences (`budget_accounts`), and doubles do round (`snapshot_rounds`).
-/
namespace MyGpt
namespace Budget

open Raising (runFrom)

variable {F : Type} [Metered F]

/-! ## the gates -/

inductive Kind
  | step | toolCall | replan
  deriving DecidableEq

def BudgetLimits.most (limits : BudgetLimits F) : Kind → Int
  | .step => limits.maxAgentSteps
  | .toolCall => limits.maxToolCalls
  | .replan => limits.maxReplanCount

def BudgetGuard.count (g : BudgetGuard F) : Kind → Int
  | .step => g.steps
  | .toolCall => g.toolCalls
  | .replan => g.replans

/-- What an `enter_*` call does under the lock. -/
def BudgetGuard.counted (g : BudgetGuard F) : Kind → BudgetGuard F
  | .step => { g with steps := g.steps + 1 }
  | .toolCall => { g with toolCalls := g.toolCalls + 1 }
  | .replan => { g with replans := g.replans + 1 }

/-- The limits, in the order in which `_exhaustion_reason` reads them. -/
inductive Gate
  | calls (kind : Kind) | runtime | tokens | cost
  deriving DecidableEq

def gates : List Gate := [.calls .step, .calls .toolCall, .calls .replan, .runtime, .tokens, .cost]

def Kind.text : Kind → String
  | .step => "max agent steps ("
  | .toolCall => "max tool calls ("
  | .replan => "max replans ("

def Gate.reason (g : BudgetGuard F) (elapsed : F) : Gate → Option Reason
  | .calls kind =>
    if g.limits.most kind < g.count kind then some (kind.text ++ toString (g.limits.most kind) ++ ") reached") else none
  | .runtime =>
    if g.limits.maxRuntimeSeconds ≤ elapsed then some s!"time budget ({Metered.str g.limits.maxRuntimeSeconds}s) exceeded"
    else none
  | .tokens =>
    if g.limits.maxTotalTokens ≤ g.tokens then some s!"token budget ({g.limits.maxTotalTokens}) exceeded" else none
  | .cost =>
    if g.limits.maxCostUsd ≤ g.costUsd then some s!"cost budget (${Metered.general g.limits.maxCostUsd}) exceeded" else none

/-- `enter_step`, `enter_tool_call` and `enter_replan`, undisturbed. -/
def BudgetGuard.enter (g : BudgetGuard F) (kind : Kind) (elapsed : F) : BudgetGuard F × Option Reason :=
  (g.counted kind, (g.counted kind).exhaustionReason elapsed)

theorem count_counted (g : BudgetGuard F) (kind kind' : Kind) :
    (g.counted kind).count kind' = g.count kind' + if kind = kind' then 1 else 0 := by
  cases kind <;> cases kind' <;> simp [BudgetGuard.counted, BudgetGuard.count]

/-! ## records and calls in any order -/

structure Entry (F : Type) where
  key : Option String
  usageId : Option String
  tokens : Int
  cost : F

inductive Rounding (F : Type)
  | sum (a b : F)
  | difference (a b : F)

def Rounding.error {G : Type} [AddCommGroup G] (val : ZeroHom F G) : Rounding F → G
  | .sum a b => val (a + b) - (val a + val b)
  | .difference a b => val (a - b) - (val a - val b)

/-- A guard and the calls at it; `booked` are the records it has taken, the first one of each id, and `roundings` what it
has computed with their costs. -/
structure Accounts (F : Type) [Metered F] where
  guard : BudgetGuard F
  checks : List (Kind × List Gate) := []
  passed : Kind → Nat := fun _ => 0
  booked : List (Entry F) := []
  roundings : List (Rounding F) := []

inductive Event (F : Type)
  /-- `add_usage` -/
  | record (r : Record F)
  | enter (kind : Kind)
  | read (call : Nat) (elapsed : F)

section
variable (float : Floats F)

def Record.entry (r : Record F) : Option (Entry F) :=
  match r.checked float with
  | .error _ => none
  | .ok (tokens, cost) => some ⟨r.key, r.usageId, tokens, cost⟩

def Entry.fresh (booked : List (Entry F)) (e : Entry F) : Bool := !e.usageId.any (booked.filterMap (·.usageId)).contains

def Entry.roundings (g : BudgetGuard F) (e : Entry F) : List (Rounding F) :=
  match e.key with
  | none => [.sum g.costUsd e.cost]
  | some key =>
    let old := ((g.cumulative key).getD (0, 0)).2
    [.difference e.cost old, .sum g.costUsd (e.cost - old)]

def Accounts.book (s : Accounts F) (r : Record F) : Accounts F :=
  match runFrom (addUsage float r) s.guard, r.entry float with
  | (.ok _, g), some e =>
    if e.fresh s.booked then
      { s with guard := g, booked := s.booked ++ [e], roundings := s.roundings ++ e.roundings s.guard }
    else { s with guard := g }
  | (_, g), _ => { s with guard := g }

def Accounts.read (s : Accounts F) (call : Nat) (elapsed : F) : Accounts F :=
  match s.checks[call]? with
  | none => s
  | some (kind, []) =>
    { s with checks := s.checks.eraseIdx call, passed := Function.update s.passed kind (s.passed kind + 1) }
  | some (kind, gate :: rest) =>
    match gate.reason s.guard elapsed with
    | some _ => { s with checks := s.checks.eraseIdx call }
    | none => { s with checks := s.checks.set call (kind, rest) }

def Accounts.step (s : Accounts F) : Event F → Accounts F
  | .record r => s.book float r
  | .enter kind => { s with guard := s.guard.counted kind, checks := s.checks ++ [(kind, gates)] }
  | .read call elapsed => s.read call elapsed

def Accounts.run (limits : BudgetLimits F) (events : List (Event F)) : Accounts F :=
  events.foldl (Accounts.step float) { guard := { limits := limits } }

end

/-! ## what is to hold -/

structure Balanced (s : Accounts F) : Prop where
  ids : s.guard.usageIds = s.booked.filterMap (·.usageId)
  distinct : (s.booked.filterMap (·.usageId)).Nodup
  snapshots : ∀ key, s.guard.cumulative key = (Meter.latest Entry.key s.booked key).map (fun e => (e.tokens, e.cost))
  tokens : s.guard.tokens = Meter.total Entry.key Entry.tokens s.booked
  cost : ∀ (G : Type) [AddCommGroup G] (val : ZeroHom F G), val s.guard.costUsd =
    Meter.total Entry.key (fun e => val e.cost) s.booked + (s.roundings.map (Rounding.error val)).sum

structure Counted (limits : BudgetLimits F) (s : Accounts F) : Prop where
  same : s.guard.limits = limits
  entered : ∀ kind, (s.passed kind + s.checks.countP (fun c => c.1 = kind) : Int) ≤ s.guard.count kind
  cleared : ∀ kind, (s.passed kind + s.checks.countP (fun c => c.1 = kind ∧ Gate.calls kind ∉ c.2) : Int) ≤ limits.most kind

/-! ## one record -/

section
variable {float : Floats F} {s : Accounts F}

theorem increase_ok {g : BudgetGuard F} {e : Entry F} {amount : Int × F} (h : g.increase e.tokens e.cost e.key = .ok amount) :
    (e.key = none ∧ amount = (e.tokens, e.cost)) ∨
      ∃ key, e.key = some key ∧ amount =
        (e.tokens - ((g.cumulative key).getD (0, 0)).1, e.cost - ((g.cumulative key).getD (0, 0)).2) := by
  obtain ⟨key, usageId, tokens, cost⟩ := e
  cases key with
  | none => exact .inl ⟨rfl, (Except.ok.inj h).symm⟩
  | some key =>
    unfold BudgetGuard.increase at h
    dsimp only at h
    split at h
    · cases h
    · exact .inr ⟨key, rfl, (Except.ok.inj h).symm⟩

theorem book_cases (h : s.guard.usageIds = s.booked.filterMap (·.usageId)) (r : Record F) :
    s.book float r = s ∨ ∃ e amount, r.entry float = some e ∧ e.fresh s.booked = true ∧
      s.guard.increase e.tokens e.cost e.key = .ok amount ∧
      s.book float r =
        { s with
          guard := s.guard.charged e.tokens e.cost amount e.key e.usageId
          booked := s.booked ++ [e]
          roundings := s.roundings ++ e.roundings s.guard } := by
  unfold Accounts.book Record.entry
  rw [addUsage_run]
  cases hchecked : r.checked float with
  | error e => exact .inl rfl
  | ok amount =>
    obtain ⟨tokens, cost⟩ := amount
    have hfresh : (⟨r.key, r.usageId, tokens, cost⟩ : Entry F).fresh s.booked = !r.usageId.any s.guard.usageIds.contains := by
      rw [h]
      rfl
    dsimp only
    rw [charge_run]
    cases hseen : r.usageId.any s.guard.usageIds.contains with
    | true =>
      simp only [if_true, hfresh, hseen]
      exact .inl rfl
    | false =>
      simp only [Bool.false_eq_true, if_false]
      cases hincrease : s.guard.increase tokens cost r.key with
      | error e => exact .inl rfl
      | ok amount =>
        rw [hseen] at hfresh
        exact .inr ⟨⟨r.key, r.usageId, tokens, cost⟩, amount, rfl, hfresh, hincrease, if_pos hfresh⟩

theorem balanced_charged (h : Balanced s) {e : Entry F} (hfresh : e.fresh s.booked = true) {amount : Int × F}
    (hamount : s.guard.increase e.tokens e.cost e.key = .ok amount) :
    Balanced
      { s with
        guard := s.guard.charged e.tokens e.cost amount e.key e.usageId
        booked := s.booked ++ [e]
        roundings := s.roundings ++ e.roundings s.guard } where
  ids := by
    show s.guard.usageIds ++ e.usageId.toList = (s.booked ++ [e]).filterMap (·.usageId)
    rw [h.ids, List.filterMap_append]
    cases hid : e.usageId <;> simp [hid]
  distinct := by
    rw [List.filterMap_append]
    unfold Entry.fresh at hfresh
    cases hid : e.usageId with
    | none => simpa [hid] using h.distinct
    | some id =>
      rw [hid] at hfresh
      refine List.nodup_append.2 ⟨h.distinct, by simp [hid], fun a ha b hb he => ?_⟩
      have hb : b = id := by simpa [hid] using hb
      rw [he, hb] at ha
      rw [Option.any_some, List.contains_iff_mem.2 ha] at hfresh
      cases hfresh
  snapshots := by
    intro key
    show (if e.key = some key then some (e.tokens, e.cost) else s.guard.cumulative key) =
      (Meter.latest Entry.key (s.booked ++ [e]) key).map (fun e => (e.tokens, e.cost))
    rw [Meter.latest_concat]
    split
    · rfl
    · exact h.snapshots key
  tokens := by
    show s.guard.tokens + amount.1 = Meter.total Entry.key Entry.tokens (s.booked ++ [e])
    rw [Meter.total_concat, ← h.tokens]
    unfold Meter.charge
    rcases increase_ok hamount with ⟨hkey, rfl⟩ | ⟨key, hkey, rfl⟩
    · rw [hkey]
    · rw [hkey, h.snapshots]
      unfold Meter.reading
      dsimp only
      cases Meter.latest Entry.key s.booked key <;> rfl
  cost := by
    intro G _ val
    show val (s.guard.costUsd + amount.2) = Meter.total Entry.key (fun e => val e.cost) (s.booked ++ [e]) +
      ((s.roundings ++ e.roundings s.guard).map (Rounding.error val)).sum
    rw [Meter.total_concat, List.map_append, List.sum_append]
    have hcost := h.cost G val
    unfold Meter.charge Entry.roundings
    rcases increase_ok hamount with ⟨hkey, rfl⟩ | ⟨key, hkey, rfl⟩
    · rw [hkey]
      simp only [List.map_cons, List.map_nil, List.sum_cons, List.sum_nil, Rounding.error]
      rw [hcost]
      abel
    · have hold : val ((s.guard.cumulative key).getD (0, 0)).2 = Meter.reading Entry.key (fun e => val e.cost) s.booked key := by
        rw [h.snapshots]
        unfold Meter.reading
        cases Meter.latest Entry.key s.booked key with
        | none => exact map_zero val
        | some e => rfl
      rw [hkey]
      simp only [List.map_cons, List.map_nil, List.sum_cons, List.sum_nil, Rounding.error]
      rw [hcost, hold]
      abel

theorem book_balanced (h : Balanced s) (r : Record F) : Balanced (s.book float r) := by
  rcases book_cases h.ids r with heq | ⟨e, amount, -, hfresh, hamount, heq⟩
  · rw [heq]
    exact h
  · rw [heq]
    exact balanced_charged h hfresh hamount

theorem read_books (s : Accounts F) (call : Nat) (elapsed : F) : (s.read call elapsed).guard = s.guard ∧
    (s.read call elapsed).booked = s.booked ∧ (s.read call elapsed).roundings = s.roundings := by
  unfold Accounts.read
  split
  · exact ⟨rfl, rfl, rfl⟩
  · exact ⟨rfl, rfl, rfl⟩
  · split <;> exact ⟨rfl, rfl, rfl⟩

theorem Balanced.congr {t : Accounts F} (h : Balanced s) (hids : t.guard.usageIds = s.guard.usageIds)
    (hcumulative : t.guard.cumulative = s.guard.cumulative) (htokens : t.guard.tokens = s.guard.tokens)
    (hcost : t.guard.costUsd = s.guard.costUsd) (hbooked : t.booked = s.booked) (hroundings : t.roundings = s.roundings) :
    Balanced t where
  ids := by rw [hids, hbooked, h.ids]
  distinct := by rw [hbooked]; exact h.distinct
  snapshots := by rw [hcumulative, hbooked]; exact h.snapshots
  tokens := by rw [htokens, hbooked, h.tokens]
  cost := by
    intro G _ val
    rw [hcost, hbooked, hroundings, h.cost G val]

theorem step_balanced (h : Balanced s) (event : Event F) : Balanced (s.step float event) := by
  cases event with
  | record r => exact book_balanced h r
  | enter kind => cases kind <;> exact h.congr rfl rfl rfl rfl rfl rfl
  | read call elapsed =>
    obtain ⟨hguard, hbooked, hroundings⟩ := read_books s call elapsed
    exact h.congr (congrArg _ hguard) (congrArg _ hguard) (congrArg _ hguard) (congrArg _ hguard) hbooked hroundings

/-! ## one call -/

theorem charged_count (g : BudgetGuard F) (tokens : Int) (cost : F) (amount : Int × F) (key usageId : Option String)
    (kind : Kind) : (g.charged tokens cost amount key usageId).count kind = g.count kind := by
  cases kind <;> rfl

theorem book_counted {limits : BudgetLimits F} (h : Counted limits s)
    (hids : s.guard.usageIds = s.booked.filterMap (·.usageId)) (r : Record F) : Counted limits (s.book float r) := by
  rcases book_cases hids r with heq | ⟨e, amount, -, -, -, heq⟩
  · rw [heq]
    exact h
  · rw [heq]
    refine ⟨h.same, fun kind => ?_, h.cleared⟩
    rw [charged_count]
    exact h.entered kind

theorem enter_counted {limits : BudgetLimits F} (h : Counted limits s) (kind : Kind) :
    Counted limits (s.step float (.enter kind)) where
  same := by
    rw [← h.same]
    cases kind <;> rfl
  entered := by
    intro kind'
    have := h.entered kind'
    show (s.passed kind' + (s.checks ++ [(kind, gates)]).countP (fun c => c.1 = kind') : Int) ≤ (s.guard.counted kind).count kind'
    rw [count_counted, List.countP_append, List.countP_singleton]
    by_cases hkind : kind = kind'
    · simp only [hkind, decide_true, if_true]
      omega
    · simp only [hkind, decide_false, if_false, Bool.false_eq_true]
      omega
  cleared := by
    intro kind'
    have := h.cleared kind'
    show (s.passed kind' + (s.checks ++ [(kind, gates)]).countP (fun c => c.1 = kind' ∧ Gate.calls kind' ∉ c.2) : Int) ≤ _
    have hgates : Gate.calls kind' ∈ gates := by cases kind' <;> decide
    rw [List.countP_append, List.countP_singleton]
    simpa [hgates] using this

theorem exists_at {α : Type} {l : List α} {i : Nat} {x : α} (h : l[i]? = some x) :
    ∃ pre post, l = pre ++ x :: post ∧ l.eraseIdx i = pre ++ post ∧ ∀ y, l.set i y = pre ++ y :: post := by
  obtain ⟨hi, rfl⟩ := List.getElem?_eq_some_iff.1 h
  refine ⟨l.take i, l.drop (i + 1), ?_, List.eraseIdx_eq_take_drop_succ l i, fun y => ?_⟩
  · rw [List.getElem_cons_drop, List.take_append_drop]
  · rw [List.set_eq_take_append_cons_drop, if_pos hi]

theorem countP_at {α : Type} (p : α → Bool) (pre post : List α) (x : α) :
    (pre ++ x :: post).countP p = (pre ++ post).countP p + (p x).toNat := by
  rw [List.countP_append, List.countP_append, List.countP_cons]
  cases p x <;> simp [Nat.add_assoc]

theorem returned_counted {limits : BudgetLimits F} (h : Counted limits s) {call : Nat} {kind : Kind}
    (hcall : s.checks[call]? = some (kind, [])) :
    Counted limits
      { s with checks := s.checks.eraseIdx call, passed := Function.update s.passed kind (s.passed kind + 1) } := by
  obtain ⟨pre, post, hsplit, herase, -⟩ := exists_at hcall
  refine ⟨h.same, fun kind' => ?_, fun kind' => ?_⟩
  · have hentered := h.entered kind'
    rw [hsplit, countP_at] at hentered
    show (Function.update s.passed kind (s.passed kind + 1) kind' + (s.checks.eraseIdx call).countP _ : Int) ≤ s.guard.count kind'
    rw [herase, Function.update_apply]
    by_cases hkind : kind' = kind
    · subst hkind
      simp only [decide_true, Bool.toNat_true, if_true] at hentered ⊢
      omega
    · simp only [hkind, if_false]
      omega
  · have hcleared := h.cleared kind'
    rw [hsplit, countP_at] at hcleared
    show (Function.update s.passed kind (s.passed kind + 1) kind' + (s.checks.eraseIdx call).countP _ : Int) ≤ _
    rw [herase, Function.update_apply]
    by_cases hkind : kind' = kind
    · subst hkind
      simp only [List.not_mem_nil, not_false_eq_true, and_self, decide_true, Bool.toNat_true, if_true] at hcleared ⊢
      omega
    · simp only [hkind, if_false]
      omega

theorem raised_counted {limits : BudgetLimits F} (h : Counted limits s) {call : Nat} {check : Kind × List Gate}
    (hcall : s.checks[call]? = some check) : Counted limits { s with checks := s.checks.eraseIdx call } := by
  obtain ⟨pre, post, hsplit, herase, -⟩ := exists_at hcall
  refine ⟨h.same, fun kind' => ?_, fun kind' => ?_⟩
  · have hentered := h.entered kind'
    rw [hsplit, countP_at] at hentered
    show (s.passed kind' + (s.checks.eraseIdx call).countP _ : Int) ≤ s.guard.count kind'
    rw [herase]
    omega
  · have hcleared := h.cleared kind'
    rw [hsplit, countP_at] at hcleared
    show (s.passed kind' + (s.checks.eraseIdx call).countP _ : Int) ≤ _
    rw [herase]
    omega

/-- **A call passes the limit of its kind only while no more calls than that have counted themselves.** -/
theorem passed_counted {limits : BudgetLimits F} (h : Counted limits s) {call : Nat} {kind : Kind} {gate : Gate} {rest : List Gate}
    (hcall : s.checks[call]? = some (kind, gate :: rest)) {elapsed : F} (hpass : gate.reason s.guard elapsed = none) :
    Counted limits { s with checks := s.checks.set call (kind, rest) } := by
  obtain ⟨pre, post, hsplit, -, hset⟩ := exists_at hcall
  have hentered : ∀ kind', (s.passed kind' + (s.checks.set call (kind, rest)).countP (fun c => c.1 = kind') : Int) ≤
      s.guard.count kind' := by
    intro kind'
    have hentered := h.entered kind'
    rw [hsplit, countP_at] at hentered
    rw [hset, countP_at]
    exact hentered
  refine ⟨h.same, hentered, fun kind' => ?_⟩
  show (s.passed kind' + (s.checks.set call (kind, rest)).countP _ : Int) ≤ _
  by_cases hgate : kind = kind' ∧ gate = .calls kind'
  · -- the limit of the call's own kind: all calls of the kind are counted
    obtain ⟨rfl, rfl⟩ := hgate
    have hmost : s.guard.count kind ≤ limits.most kind := by
      rw [← h.same]
      by_contra hlt
      rw [Gate.reason, if_pos (Int.not_le.1 hlt)] at hpass
      cases hpass
    have hmono : (s.checks.set call (kind, rest)).countP (fun c => c.1 = kind ∧ Gate.calls kind ∉ c.2) ≤
        (s.checks.set call (kind, rest)).countP (fun c => c.1 = kind) := by
      refine List.countP_mono_left (fun c _ hc => ?_)
      exact decide_eq_true (of_decide_eq_true hc).1
    have := hentered kind
    omega
  · have hcleared := h.cleared kind'
    rw [hsplit, countP_at] at hcleared
    rw [hset, countP_at]
    have hsame : (decide (kind = kind' ∧ Gate.calls kind' ∉ rest)) = decide (kind = kind' ∧ Gate.calls kind' ∉ gate :: rest) := by
      refine decide_eq_decide.2 (and_congr_right (fun hkind => not_congr ?_))
      rw [List.mem_cons]
      exact (or_iff_right (fun he => hgate ⟨hkind, he.symm⟩)).symm
    simp only [hsame]
    exact hcleared

theorem read_counted {limits : BudgetLimits F} (h : Counted limits s) (call : Nat) (elapsed : F) :
    Counted limits (s.read call elapsed) := by
  unfold Accounts.read
  split
  · exact h
  · rename_i kind hcall
    exact returned_counted h hcall
  · rename_i kind gate rest hcall
    split
    · exact raised_counted h hcall
    · rename_i hpass
      exact passed_counted h hcall hpass

theorem step_counted {limits : BudgetLimits F} (hbooks : Balanced s) (h : Counted limits s) (event : Event F) :
    Counted limits (s.step float event) := by
  cases event with
  | record r => exact book_counted h hbooks.ids r
  | enter kind => exact enter_counted h kind
  | read call elapsed => exact read_counted h call elapsed

end

/-! ## any order -/

section
variable (float : Floats F)

theorem balanced_new (limits : BudgetLimits F) : Balanced ({ guard := { limits := limits } } : Accounts F) where
  ids := rfl
  distinct := .nil
  snapshots := fun _ => rfl
  tokens := rfl
  cost := by
    intro G _ val
    show val 0 = (0 : G) + 0 + 0
    rw [map_zero, add_zero, add_zero]

theorem counted_new (limits : BudgetLimits F) : Counted limits ({ guard := { limits := limits } } : Accounts F) where
  same := rfl
  entered := by
    intro kind
    cases kind <;> exact Int.le_refl 0
  cleared := by
    intro kind
    cases kind
    · exact Int.le_of_lt limits.steps_pos
    · exact Int.le_of_lt limits.calls_pos
    · exact limits.replans_nonneg

theorem run_accounts (limits : BudgetLimits F) (events : List (Event F)) :
    Balanced (Accounts.run float limits events) ∧ Counted limits (Accounts.run float limits events) := by
  unfold Accounts.run
  induction events using List.reverseRecOn with
  | nil => exact ⟨balanced_new limits, counted_new limits⟩
  | append_singleton events event ih =>
    rw [List.foldl_append]
    exact ⟨step_balanced ih.1 event, step_counted ih.1 ih.2 event⟩

structure Accounting (limits : BudgetLimits F) (s : Accounts F) : Prop where
  distinct : (s.booked.filterMap (·.usageId)).Nodup
  tokens : s.guard.tokens = Meter.total Entry.key Entry.tokens s.booked
  cost : ∀ (G : Type) [AddCommGroup G] (val : ZeroHom F G), val s.guard.costUsd =
    Meter.total Entry.key (fun e => val e.cost) s.booked + (s.roundings.map (Rounding.error val)).sum
  passed : ∀ kind, (s.passed kind : Int) ≤ limits.most kind
  rejected : ∀ r e g, runFrom (addUsage float r) s.guard = (.error e, g) → g = s.guard

/-- **The accounts of a budget guard**, for records and calls in any order. -/
theorem budget_accounts (limits : BudgetLimits F) (events : List (Event F)) :
    Accounting float limits (Accounts.run float limits events) := by
  obtain ⟨hbooks, hcalls⟩ := run_accounts float limits events
  refine ⟨hbooks.distinct, hbooks.tokens, hbooks.cost, fun kind => ?_, fun r e g => addUsage_rejected⟩
  have := hcalls.cleared kind
  omega

end

/-! ## doubles -/

/-- An IEEE double; its unit is `2 ^ -1074`.  A sum past the largest double stays a number here. -/
abbrev Double := Binary 53

/-- The texts are those of whole numbers. -/
instance : Metered Double where
  zero := 0
  add a b := a + b
  sub a b := a - b
  le a b := a ≤ b
  lt a b := a < b
  decidableLe := inferInstance
  decidableLt := inferInstance
  isFinite x := x.units.natAbs < 2 ^ 2098
  str x := toString (x.units / 2 ^ 1074) ++ ".0"
  general x := toString (x.units / 2 ^ 1074)

def doubleOf (n : Int) : Option Double :=
  let x := Binary.round 53 (n * 2 ^ 1074)
  if Metered.isFinite x then some x else none

def defaultLimits : BudgetLimits Double where
  maxAgentSteps := 24
  maxToolCalls := 40
  maxReplanCount := 2
  maxRuntimeSeconds := Binary.ofMantissa 300 1074 (by decide)
  maxToolOutputChars := 8000
  maxTotalTokens := 160000
  maxCostUsd := Binary.ofMantissa 5 1074 (by decide)
  steps_pos := Int.natCast_pos.2 (by decide : 0 < 24)
  calls_pos := Int.natCast_pos.2 (by decide : 0 < 40)
  tokens_pos := Int.natCast_pos.2 (by decide : 0 < 160000)
  chars_min := Int.ofNat_le.2 (by decide : 16 ≤ 8000)
  replans_nonneg := Int.natCast_nonneg 2
  runtime_pos := by decide +kernel
  cost_pos := by decide +kernel

def twoSnapshots : List (Event Double) :=
  [.record { costUsd := .float (Binary.ofMantissa 1080863910568919 1019 (by decide)), cumulative := true, source := some "llm" },
   .record { costUsd := .float (Binary.ofMantissa 5224175567749775 1020 (by decide)), cumulative := true, source := some "llm" }]

/-- **Doubles round**: after the snapshots $0.03 and $0.29 of one source the guard has charged $0.29000000000000004. -/
theorem snapshot_rounds : ¬ ∀ (limits : BudgetLimits Double) (events : List (Event Double)),
    (Accounts.run doubleOf limits events).guard.costUsd.units =
      Meter.total Entry.key (fun e => e.cost.units) (Accounts.run doubleOf limits events).booked := by
  intro h
  have heq := h defaultLimits twoSnapshots
  revert heq
  decide +kernel

/-- What a float is worth. -/
abbrev Worth (F G : Type) [Metered F] [AddCommGroup G] := ZeroHom F G

def units : Worth Double Int := ⟨Binary.units, rfl⟩

def Rounding.exact : Rounding Double → Int
  | .sum a b => a.units + b.units
  | .difference a b => a.units - b.units

theorem rounding_error (r : Rounding Double) : 2 ^ 53 * (r.error units).natAbs ≤ r.exact.natAbs := by
  cases r with
  | sum a b => exact Binary.add_error a b
  | difference a b => exact Binary.sub_error a b

end Budget
end MyGpt
