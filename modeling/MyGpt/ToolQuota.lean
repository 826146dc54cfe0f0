import MyGpt.RunQuota
import MyGpt.Lib.Trace
/-!
# ToolQuota — the distinct tools of a run

`check_tool` of `quotas.py`, one operation on the counter backend after the other.  A call that finds its tool in the set
takes it for used, so it can be answered from a member that another call has added and will take back.  The limit holds in
every run in which no call does (`tools_bounded`).
-/
namespace MyGpt
namespace Quotas
namespace PerRun

open Trace (Runs)

structure Request where
  tenant : Tenant
  toolName : String
  runId : Option String
  deriving DecidableEq

/-- `_k("tools", f"{tenant}:{scope}")` -/
def Request.key (req : Request) : String :=
  "quota:tools:" ++ (req.tenant ++ (":" ++ (match req.runId with
    | some runId => if runId = "" then "global" else runId
    | none => "global")))

inductive Phase
  | idle
  | adding (req : Request)
  | counting (req : Request)
  | rollingBack (req : Request) (size : Nat)
  | allowed (req : Request)
  | refused (req : Request) (error : QuotaExceeded)
  /-- cancelled before its `_set_add` -/
  | unwound
  | cut (req : Request)
  deriving DecidableEq

structure World where
  sets : String → Finset String := fun _ => ∅
  calls : Nat → Phase := fun _ => .idle
  allowed : String → Finset String := fun _ => ∅

def World.setCall (w : World) (call : Nat) (phase : Phase) : World :=
  { w with calls := Function.update w.calls call phase }

def World.allow (w : World) (call : Nat) (req : Request) : World :=
  { w.setCall call (.allowed req) with
    allowed := Function.update w.allowed req.key (insert req.toolName (w.allowed req.key)) }

/-- `_set_add` of a tool that is not in the set. -/
def World.add (w : World) (call : Nat) (req : Request) : World :=
  { w.setCall call (.counting req) with
    sets := Function.update w.sets req.key (insert req.toolName (w.sets req.key)) }

def toolsExceeded (limits : QuotaLimits) (req : Request) (size : Nat) : QuotaExceeded where
  reason := "tool quota (" ++ toString limits.maxToolsPerRun ++ " distinct/run) reached"
  limit := limits.maxToolsPerRun
  used := size - 1
  quotaType := .tools
  tenant := req.tenant
  extra := some (req.toolName, req.runId)

def World.refuse (w : World) (call : Nat) (req : Request) (error : QuotaExceeded) : World :=
  { w.setCall call (.refused req error) with
    sets := Function.update w.sets req.key ((w.sets req.key).erase req.toolName) }

inductive Act
  | checkTool (call : Nat) (req : Request)
  | add (call : Nat)
  | count (call : Nat)
  | rollBack (call : Nat)
  | unwind (call : Nat)
  deriving DecidableEq

section
variable (limits : QuotaLimits)

def step (w : World) : Act → Option World
  | .checkTool call req =>
    if w.calls call ≠ .idle then none
    else if limits.enabled then some (w.setCall call (.adding req))
    else some (w.allow call req)
  | .add call =>
    match w.calls call with
    | .adding req => if req.toolName ∈ w.sets req.key then some (w.allow call req) else some (w.add call req)
    | _ => none
  | .count call =>
    match w.calls call with
    | .counting req =>
      if limits.maxToolsPerRun < (w.sets req.key).card then
        some (w.setCall call (.rollingBack req (w.sets req.key).card))
      else some (w.allow call req)
    | _ => none
  | .rollBack call =>
    match w.calls call with
    | .rollingBack req size => some (w.refuse call req (toolsExceeded limits req size))
    | _ => none
  | .unwind call =>
    match w.calls call with
    | .adding _ => some (w.setCall call .unwound)
    | .counting req | .rollingBack req _ => some (w.setCall call (.cut req))
    | _ => none

/-! ## the condition -/

def Phase.undecided : Phase → Option (String × String)
  | .counting req | .rollingBack req _ | .cut req => some (req.key, req.toolName)
  | _ => none

def Decided (w : World) : Act → Prop
  | .checkTool _ _ => limits.enabled = true
  | .add call => ∀ req, w.calls call = .adding req → req.toolName ∈ w.sets req.key →
      ∀ other, (w.calls other).undecided ≠ some (req.key, req.toolName)
  | _ => True

end

structure Inv (limits : QuotaLimits) (w : World) : Prop where
  found : ∀ key tool, tool ∈ w.sets key → tool ∈ w.allowed key ∨ ∃ call, (w.calls call).undecided = some (key, tool)
  kept : ∀ key tool, tool ∈ w.allowed key → tool ∈ w.sets key
  open_ : ∀ call key tool, (w.calls call).undecided = some (key, tool) → tool ∈ w.sets key ∧ tool ∉ w.allowed key
  apart : ∀ call call' p, (w.calls call).undecided = some p → (w.calls call').undecided = some p → call = call'
  bound : ∀ key, (w.allowed key).card ≤ limits.maxToolsPerRun.toNat

variable {limits : QuotaLimits} {w w' : World}

theorem inv_start : Inv limits {} := by
  constructor
  case bound =>
    intro key
    simp
  case found =>
    intro key tool h
    cases h
  case kept =>
    intro key tool h
    cases h
  case open_ =>
    intro call key tool h
    cases h
  case apart =>
    intro call call' p h
    cases h

/-! ## one operation -/

section
variable {call : Nat} {req : Request}

theorem undecided_update {phase : Phase} (c : Nat) : (Function.update w.calls call phase c).undecided =
    if c = call then phase.undecided else (w.calls c).undecided := by
  by_cases h : c = call
  · rw [h, Function.update_self, if_pos rfl]
  · rw [Function.update_of_ne h, if_neg h]

theorem inv_setCall (hinv : Inv limits w) {phase : Phase} (hsame : phase.undecided = (w.calls call).undecided) :
    Inv limits (w.setCall call phase) := by
  have hund : ∀ c, ((w.setCall call phase).calls c).undecided = (w.calls c).undecided := by
    intro c
    show (Function.update w.calls call phase c).undecided = _
    rw [undecided_update]
    split
    · rename_i h
      rw [h, hsame]
    · rfl
  constructor
  case found =>
    intro key tool h
    refine (hinv.found key tool h).imp_right (fun ⟨c, hc⟩ => ⟨c, ?_⟩)
    rw [hund]
    exact hc
  case kept => exact hinv.kept
  case open_ =>
    intro c key tool h
    rw [hund] at h
    exact hinv.open_ c key tool h
  case apart =>
    intro c c' p h h'
    rw [hund] at h h'
    exact hinv.apart c c' p h h'
  case bound => exact hinv.bound

theorem inv_again (hinv : Inv limits w) (hcall : (w.calls call).undecided = none) (hmem : req.toolName ∈ w.allowed req.key) :
    Inv limits (w.allow call req) := by
  have hallowed : w.allow call req = w.setCall call (.allowed req) := by
    unfold World.allow
    rw [Finset.insert_eq_self.2 hmem, Function.update_eq_self]
    rfl
  rw [hallowed]
  exact inv_setCall hinv hcall.symm

theorem inv_add (hinv : Inv limits w) (hcall : (w.calls call).undecided = none) (hnew : req.toolName ∉ w.sets req.key) :
    Inv limits (w.add call req) := by
  have hsets : ∀ key tool, tool ∈ (w.add call req).sets key ↔ tool ∈ w.sets key ∨ (key = req.key ∧ tool = req.toolName) := by
    intro key tool
    show tool ∈ Function.update w.sets req.key _ key ↔ _
    by_cases hk : key = req.key
    · subst hk
      rw [Function.update_self, Finset.mem_insert]
      tauto
    · rw [Function.update_of_ne hk]
      tauto
  have hund : ∀ c, ((w.add call req).calls c).undecided =
      if c = call then some (req.key, req.toolName) else (w.calls c).undecided := undecided_update
  constructor
  case found =>
    intro key tool h
    rcases (hsets key tool).1 h with hold | ⟨rfl, rfl⟩
    · refine (hinv.found key tool hold).imp_right (fun ⟨c, hc⟩ => ⟨c, ?_⟩)
      rw [hund, if_neg (fun heq => by rw [heq, hcall] at hc; cases hc)]
      exact hc
    · exact .inr ⟨call, by rw [hund, if_pos rfl]⟩
  case kept => exact fun key tool h => (hsets key tool).2 (.inl (hinv.kept key tool h))
  case open_ =>
    intro c key tool h
    rw [hund] at h
    split at h
    · cases h
      exact ⟨(hsets _ _).2 (.inr ⟨rfl, rfl⟩), fun ha => hnew (hinv.kept _ _ ha)⟩
    · obtain ⟨hmem, hfree⟩ := hinv.open_ c key tool h
      exact ⟨(hsets key tool).2 (.inl hmem), hfree⟩
  case apart =>
    -- what is under way is in the set, so nobody else has added this tool
    have hother : ∀ c, c ≠ call → (w.calls c).undecided ≠ some (req.key, req.toolName) :=
      fun c _ hc => hnew (hinv.open_ c _ _ hc).1
    intro c c' p h h'
    rw [hund] at h h'
    split at h <;> split at h'
    · rename_i hc hc'
      rw [hc, hc']
    · rename_i hc hc'
      cases h
      exact absurd h' (hother c' hc')
    · rename_i hc hc'
      cases h'
      exact absurd h (hother c hc)
    · exact hinv.apart c c' p h h'
  case bound => exact hinv.bound

theorem mem_allow {key tool : String} :
    tool ∈ (w.allow call req).allowed key ↔ tool ∈ w.allowed key ∨ (key = req.key ∧ tool = req.toolName) := by
  show tool ∈ Function.update w.allowed req.key _ key ↔ _
  by_cases hk : key = req.key
  · subst hk
    rw [Function.update_self, Finset.mem_insert]
    tauto
  · rw [Function.update_of_ne hk]
    tauto

theorem inv_allow (hinv : Inv limits w) (hcall : w.calls call = .counting req)
    (hcount : ((w.sets req.key).card : Int) ≤ limits.maxToolsPerRun) : Inv limits (w.allow call req) := by
  have hmine : (w.calls call).undecided = some (req.key, req.toolName) := by rw [hcall]; rfl
  have hund : ∀ c, ((w.allow call req).calls c).undecided = if c = call then none else (w.calls c).undecided :=
    undecided_update
  constructor
  case found =>
    intro key tool h
    rcases hinv.found key tool h with ha | ⟨c, hc⟩
    · exact .inl (mem_allow.2 (.inl ha))
    · by_cases heq : c = call
      · rw [heq, hmine] at hc
        cases hc
        exact .inl (mem_allow.2 (.inr ⟨rfl, rfl⟩))
      · exact .inr ⟨c, by rw [hund, if_neg heq]; exact hc⟩
  case kept =>
    intro key tool h
    rcases mem_allow.1 h with ha | ⟨rfl, rfl⟩
    · exact hinv.kept key tool ha
    · exact (hinv.open_ call _ _ hmine).1
  case open_ =>
    intro c key tool h
    rw [hund] at h
    split at h
    · cases h
    · rename_i hne
      obtain ⟨hmem, hfree⟩ := hinv.open_ c key tool h
      refine ⟨hmem, fun ha => (mem_allow.1 ha).elim hfree ?_⟩
      rintro ⟨rfl, rfl⟩
      exact hne (hinv.apart c call _ h hmine)
  case apart =>
    intro c c' p h h'
    rw [hund] at h h'
    split at h <;> split at h'
    · cases h
    · cases h
    · cases h'
    · exact hinv.apart c c' p h h'
  case bound =>
    intro key
    by_cases hk : key = req.key
    · subst hk
      refine le_trans (Finset.card_le_card (t := w.sets req.key) ?_) (by omega)
      intro tool h
      rcases mem_allow.1 h with ha | ⟨-, rfl⟩
      · exact hinv.kept _ tool ha
      · exact (hinv.open_ call _ _ hmine).1
    · show (Function.update w.allowed req.key _ key).card ≤ _
      rw [Function.update_of_ne hk]
      exact hinv.bound key

theorem inv_refuse (hinv : Inv limits w) {size : Nat} (hcall : w.calls call = .rollingBack req size) (error : QuotaExceeded) :
    Inv limits (w.refuse call req error) := by
  have hmine : (w.calls call).undecided = some (req.key, req.toolName) := by rw [hcall]; rfl
  have hund : ∀ c, ((w.refuse call req error).calls c).undecided = if c = call then none else (w.calls c).undecided :=
    undecided_update
  have hsets : ∀ key tool, tool ∈ (w.refuse call req error).sets key ↔
      tool ∈ w.sets key ∧ ¬ (key = req.key ∧ tool = req.toolName) := by
    intro key tool
    show tool ∈ Function.update w.sets req.key _ key ↔ _
    by_cases hk : key = req.key
    · subst hk
      rw [Function.update_self, Finset.mem_erase]
      tauto
    · rw [Function.update_of_ne hk]
      tauto
  constructor
  case found =>
    intro key tool h
    obtain ⟨hold, hne⟩ := (hsets key tool).1 h
    refine (hinv.found key tool hold).imp_right (fun ⟨c, hc⟩ => ⟨c, ?_⟩)
    rw [hund, if_neg (fun heq => hne ?_)]
    · exact hc
    · rw [heq, hmine] at hc
      cases hc
      exact ⟨rfl, rfl⟩
  case kept =>
    intro key tool h
    refine (hsets key tool).2 ⟨hinv.kept key tool h, ?_⟩
    rintro ⟨rfl, rfl⟩
    exact (hinv.open_ call _ _ hmine).2 h
  case open_ =>
    intro c key tool h
    rw [hund] at h
    split at h
    · cases h
    · rename_i hne
      obtain ⟨hmem, hfree⟩ := hinv.open_ c key tool h
      refine ⟨(hsets key tool).2 ⟨hmem, ?_⟩, hfree⟩
      rintro ⟨rfl, rfl⟩
      exact hne (hinv.apart c call _ h hmine)
  case apart =>
    intro c c' p h h'
    rw [hund] at h h'
    split at h <;> split at h'
    · cases h
    · cases h
    · cases h'
    · exact hinv.apart c c' p h h'
  case bound => exact hinv.bound

theorem inv_step (hinv : Inv limits w) {act : Act} (hok : Decided limits w act) (h : step limits w act = some w') :
    Inv limits w' := by
  cases act with
  | checkTool call req =>
    simp only [step] at h
    split at h
    · cases h
    rename_i hidle
    rw [not_not] at hidle
    rw [if_pos (show limits.enabled = true from hok)] at h
    cases h
    exact inv_setCall hinv (by rw [hidle]; rfl)
  | add call =>
    cases hcall : w.calls call with
    | adding req =>
      simp only [step, hcall] at h
      split at h
      · rename_i hmem
        cases h
        refine inv_again hinv (by rw [hcall]; rfl) ((hinv.found _ _ hmem).resolve_right ?_)
        rintro ⟨other, hother⟩
        exact hok req hcall hmem other hother
      · rename_i hnew
        cases h
        exact inv_add hinv (by rw [hcall]; rfl) hnew
    | _ =>
      simp only [step, hcall] at h
      cases h
  | count call =>
    cases hcall : w.calls call with
    | counting req =>
      simp only [step, hcall] at h
      split at h
      · cases h
        exact inv_setCall hinv (by rw [hcall]; rfl)
      · rename_i hcount
        cases h
        exact inv_allow hinv hcall (not_lt.1 hcount)
    | _ =>
      simp only [step, hcall] at h
      cases h
  | rollBack call =>
    cases hcall : w.calls call with
    | rollingBack req size =>
      simp only [step, hcall] at h
      cases h
      exact inv_refuse hinv hcall _
    | _ =>
      simp only [step, hcall] at h
      cases h
  | unwind call =>
    cases hcall : w.calls call with
    | adding | counting | rollingBack =>
      simp only [step, hcall] at h
      cases h
      exact inv_setCall hinv (by rw [hcall]; rfl)
    | _ =>
      simp only [step, hcall] at h
      cases h

end

/-! ## the quota -/

/-- **The distinct tools of a run stay within the limit** while no call takes a member for decided that is not. -/
theorem tools_bounded (h : Runs (step limits) (Decided limits) {} w) (key : String) :
    (w.allowed key).card ≤ limits.maxToolsPerRun.toNat :=
  (h.invariant inv_start (fun _ _ _ hinv hok hs => inv_step hinv hok hs)).bound key

def oneTool : QuotaLimits where
  enabled := true
  maxConcurrentRuns := 8
  maxTokensPerPeriod := 100
  maxCostUsdPerPeriod := 1
  maxCostText := "1"
  runTtlSeconds := 3600
  maxToolsPerRun := 1

def usedTwice : List Act :=
  let a : Request := ⟨"t", "a", some "r"⟩
  let b : Request := ⟨"t", "b", some "r"⟩
  [.checkTool 0 a, .add 0, .count 0, .checkTool 1 a, .add 1, .checkTool 2 b, .add 2, .count 2, .rollBack 2]

theorem decided_used_twice (n : Nat) (a : Act) (ha : usedTwice[n]? = some a) :
    Decided oneTool (Trace.play (step oneTool) {} (usedTwice.take n)) a := by
  match n with
  | 0 | 3 | 5 =>
    cases ha
    rfl
  | 2 | 7 | 8 =>
    cases ha
    trivial
  | 1 | 6 =>
    cases ha
    intro req hreq hmem
    cases hreq
    exact absurd hmem (by decide +kernel)
  | 4 =>
    -- the first call has been answered
    cases ha
    intro req hreq _ other h
    match other with
    | 0 => cases h
    | 1 => cases h
    | other + 2 => cases h
  | n + 9 => cases ha

theorem tools_bounded_used_twice : ((Trace.play (step oneTool) {} usedTwice).allowed "quota:tools:t:r").card ≤ 1 :=
  @tools_bounded oneTool _ (Trace.runs_play (by decide +kernel) decided_used_twice) _

def atOnce : List Act :=
  let a : Request := ⟨"t", "a", some "r"⟩
  let b : Request := ⟨"t", "b", some "r"⟩
  [.checkTool 0 a, .add 0, .count 0, .checkTool 1 b, .checkTool 2 b, .add 1, .add 2, .count 1, .rollBack 1]

theorem tool_allowed_beyond_limit :
    ¬ ∀ (limits : QuotaLimits) (w : World), limits.enabled = true → Trace.Reaches (step limits) {} w → ∀ key,
      (w.allowed key).card ≤ limits.maxToolsPerRun.toNat := by
  intro h
  have hplayed : (Trace.exec (step oneTool) {} atOnce).isSome := by decide +kernel
  have hbound := h oneTool _ rfl (Trace.reaches_play hplayed) "quota:tools:t:r"
  revert hbound
  decide +kernel

end PerRun
end Quotas
end MyGpt
