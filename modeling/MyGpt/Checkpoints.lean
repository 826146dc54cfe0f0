import MyGpt.PlanRevision
import MyGpt.Lib.Trace
/-!
# Checkpoints — resuming a run from the steps it stored

Every step that succeeds leaves a row; a new process takes the rows up again and skips the steps whose dependencies it
has too.  The rows of a step that ran twice carry the same sequence number, and nothing in a row says what it was
computed from: after a revision a crash leaves the new observation of a step beside the old one of its dependents, and
both are reused (`stale_dependent_reused`).  Runs whose resumes find the rows of every step after those of its
dependencies reuse consistent observations only (`resume_consistent`).
-/
namespace MyGpt
namespace Workflow

open Trace (Runs Reaches play reaches_play)

structure Computed where
  obs : StepObservation
  stamp : Nat
  inputs : List (String × Nat)
  deriving DecidableEq

structure CheckpointRow where
  agentId : String
  sequence : Int := 0
  payload : Computed
  deriving DecidableEq

def Computed.usedFor (input : Computed) (dep : String) (c : Computed) : Prop := (dep, input.stamp) ∈ c.inputs

/-! ## the store -/

def maxOutputChars : Nat := 200000

/-- `StepCheckpointStore.save` -/
def saveRow (c : Computed) : Option CheckpointRow :=
  if c.obs.output = "" ∨ maxOutputChars < c.obs.output.length then none
  else some { agentId := c.obs.stepId, payload := c }

/-- `StepCheckpointStore.load` on the rows in the order the query returns them: the last one of a step counts. -/
def loadRows (order : List CheckpointRow) : String → Option Computed := fun sid =>
  (order.reverse.find? (fun row => row.agentId == sid && row.agentId != "" && row.payload.obs.output != "")).map (·.payload)

/-! ## `apply_checkpoints` -/

variable {O : Type}

/-- The loop of `apply_checkpoints`: each turn reuses the pending steps whose dependencies are done. -/
def applyLoop (plan : Plan O) : Nat → List String → List String → List String → List String
  | 0, _, _, reused => reused
  | fuel + 1, pending, done, reused =>
    let ready := (pending.filter (fun sid => (plan.depsOf sid).all (done.contains ·))).insertionSort (· ≤ ·)
    if ready = [] then reused
    else applyLoop plan fuel (pending.filter (fun sid => !ready.contains sid)) (done ++ ready) (reused ++ ready)

def reusedSteps (plan : Plan O) (checkpoints : String → Option O) : List String :=
  applyLoop plan plan.steps.length (plan.stepIds.filter (fun sid => (checkpoints sid).isSome))
    ((plan.steps.filter (fun s => s.skip && (plan.carryObservations s.id).isSome)).map (·.id)) []

def applyCheckpoints (plan : Plan O) (checkpoints : String → Option O) : Plan O × List String :=
  let reused := reusedSteps plan checkpoints
  ({ plan with
      steps := plan.steps.map (fun s => if reused.contains s.id then { s with skip := true } else s)
      carryObservations := fun sid => if reused.contains sid then checkpoints sid else plan.carryObservations sid },
    reused)

/-! ## the run -/

structure Process where
  plan : Plan Computed
  observations : String → Option Computed
  settled : String → Bool
  reused : List String
  loaded : String → Option Computed

structure CheckpointedRun where
  rows : List CheckpointRow
  next : Nat
  process : Option Process

inductive RunAct
  | resume (order : List CheckpointRow) (loads : Bool)
  | skipped (sid : String)
  /-- A step succeeds; `written`: the write of its row does too. -/
  | executed (sid : String) (obs : StepObservation) (written : Bool)
  | revised (stepIds : List String) (findings : List String)
  /-- The round is over and accepted; `cleared`: the rows are deleted. -/
  | accepted (cleared : Bool)
  | stopped

def Process.roundOver (p : Process) : Bool := p.plan.steps.all (fun s => p.settled s.id)

def Process.inputs (p : Process) (sid : String) : List (String × Nat) :=
  (p.plan.depsOf sid).filterMap (fun dep => (p.observations dep).map (fun c => (dep, c.stamp)))

def startProcess (plan : Plan Computed) (checkpoints : String → Option Computed) : Process :=
  let (applied, reused) := applyCheckpoints plan checkpoints
  { plan := applied, observations := applied.carryObservations, settled := fun _ => false, reused := reused
    loaded := checkpoints }

def processStep (s : CheckpointedRun) (p : Process) : RunAct → Option CheckpointedRun
  | .resume _ _ => none
  | .skipped sid =>
    match p.plan.get sid with
    | some st =>
      if st.skip ∧ p.settled sid = false ∧ st.dependencies.all p.settled then
        some { s with process := some { p with settled := Function.update p.settled sid true } }
      else none
    | none => none
  | .executed sid obs written =>
    match p.plan.get sid with
    | some st =>
      if st.skip = false ∧ p.settled sid = false ∧ st.dependencies.all p.settled ∧ obs.stepId = sid then
        let computed : Computed := ⟨obs, s.next, p.inputs sid⟩
        some
          { rows := s.rows ++ (if written then (saveRow computed).toList else [])
            next := s.next + 1
            process := some { p with
              observations := Function.update p.observations sid (some computed)
              settled := Function.update p.settled sid true } }
      else none
    | none => none
  | .revised stepIds findings =>
    if p.roundOver then
      match revisePlan p.plan stepIds p.observations findings with
      | .ok plan => some { s with process := some { p with plan := plan, settled := fun _ => false } }
      | .error _ => none
    else none
  | .accepted cleared =>
    if p.roundOver then some { s with rows := if cleared then [] else s.rows, process := none } else none
  | .stopped => some { s with process := none }

def runStep (plan : Plan Computed) (s : CheckpointedRun) (act : RunAct) : Option CheckpointedRun :=
  match s.process, act with
  | none, .resume order loads =>
    if order.isPerm s.rows ∧ order.Pairwise (fun a b => a.sequence ≤ b.sequence) then
      some { s with process := some (startProcess plan (if loads then loadRows order else fun _ => none)) }
    else none
  | none, _ => none
  | some p, act => processStep s p act

def freshRun : CheckpointedRun := ⟨[], 0, none⟩

/-! ## what a resume is for -/

/-- **What is reused belongs together**: with a reused step all its dependencies are reused, each with the very
observation the step was computed from. -/
def Process.ReusesTogether (p : Process) : Prop :=
  ∀ sid ∈ p.reused, ∀ dep ∈ p.plan.depsOf sid, dep ∈ p.reused ∧
    ∃ c d, p.loaded sid = some c ∧ p.loaded dep = some d ∧ d.usedFor dep c

/-- **No mixture**: a step that is over stands on the observations its own was computed from. -/
def Process.Unmixed (p : Process) : Prop :=
  ∀ sid, p.settled sid = true → ∀ dep ∈ p.plan.depsOf sid, p.settled dep = true ∧
    ∃ c d, p.observations sid = some c ∧ p.observations dep = some d ∧ d.usedFor dep c

def CheckpointedRun.Consistent (s : CheckpointedRun) : Prop :=
  ∀ p, s.process = some p → p.ReusesTogether ∧ p.Unmixed

/-! ## when a resume meets it -/

def Follows (rows : List CheckpointRow) (sid dep : String) : Prop :=
  ∀ pre row post, rows = pre ++ row :: post → row.agentId = sid → (∀ r ∈ post, r.agentId ≠ sid) →
    ∀ r ∈ post, r.agentId ≠ dep

inductive Stored (plan : Plan Computed) (rows : List CheckpointRow) : String → Prop
  | intro {sid : String} : (loadRows rows sid).isSome → (∀ dep ∈ plan.depsOf sid, Stored plan rows dep) →
      Stored plan rows sid

/-- **The steps that keep checkpoints consistent**: a resume that reads rows gets the row written last of every step, and
finds the rows of the steps it can reuse after those of their dependencies; a step that has a row already stores a new
one when it runs again. -/
def KeepsOrder (plan : Plan Computed) (s : CheckpointedRun) : RunAct → Prop
  | .resume order true => (∀ sid, loadRows order sid = loadRows s.rows sid) ∧
      ∀ sid, Stored plan s.rows sid → ∀ dep ∈ plan.depsOf sid, Follows s.rows sid dep
  | .executed sid obs written =>
      (written = true ∧ obs.output ≠ "" ∧ obs.output.length ≤ maxOutputChars) ∨ ∀ row ∈ s.rows, row.agentId ≠ sid
  | _ => True

/-! ## rows -/

theorem loadRows_append_ne {rows : List CheckpointRow} {row : CheckpointRow} {sid : String} (h : row.agentId ≠ sid) :
    loadRows (rows ++ [row]) sid = loadRows rows sid := by
  unfold loadRows
  rw [List.reverse_append, List.reverse_singleton, List.singleton_append, List.find?_cons_of_neg]
  simp [h]

theorem loadRows_append_self {rows : List CheckpointRow} {row : CheckpointRow} {sid : String} {c : Computed}
    (hself : row.agentId = sid) (h : loadRows (rows ++ [row]) sid = some c) (hout : row.payload.obs.output ≠ "") :
    c = row.payload := by
  subst hself
  unfold loadRows at h
  rw [List.reverse_append, List.reverse_singleton, List.singleton_append] at h
  by_cases hid : row.agentId = ""
  · obtain ⟨r, hr, -⟩ := Option.map_eq_some_iff.1 h
    have hfound := List.find?_some hr
    simp [hid] at hfound
  · rw [List.find?_cons_of_pos (by simp [hid, hout])] at h
    exact (Option.some.inj h).symm

theorem loadRows_none {rows : List CheckpointRow} {sid : String} (h : ∀ row ∈ rows, row.agentId ≠ sid) :
    loadRows rows sid = none := by
  unfold loadRows
  rw [Option.map_eq_none_iff, List.find?_eq_none]
  intro row hrow
  simp [h row (by simpa using hrow)]

theorem loadRows_split : ∀ {rows : List CheckpointRow} {sid : String} {c : Computed}, loadRows rows sid = some c →
    (∀ row ∈ rows, row.payload.obs.output ≠ "") →
    ∃ pre row post, rows = pre ++ row :: post ∧ row.agentId = sid ∧ row.payload = c ∧ ∀ r ∈ post, r.agentId ≠ sid := by
  intro rows
  induction rows using List.reverseRecOn with
  | nil =>
    intro sid c h
    cases h
  | append_singleton rows row ih =>
    intro sid c h hout
    by_cases hid : row.agentId = sid
    · subst hid
      have hc := loadRows_append_self rfl h (hout row (by simp))
      exact ⟨rows, row, [], rfl, rfl, hc.symm, nofun⟩
    · rw [loadRows_append_ne hid] at h
      obtain ⟨pre, r, post, rfl, hr, hpayload, hpost⟩ := ih h (fun r hr => hout r (List.mem_append_left _ hr))
      refine ⟨pre, r, post ++ [row], by simp, hr, hpayload, fun x hx => ?_⟩
      rcases List.mem_append.1 hx with hx | hx
      · exact hpost x hx
      · obtain rfl := List.mem_singleton.1 hx
        exact hid

theorem loadRows_before {pre post : List CheckpointRow} {row : CheckpointRow} {sid : String} (hrow : row.agentId ≠ sid) :
    (∀ r ∈ post, r.agentId ≠ sid) → loadRows (pre ++ row :: post) sid = loadRows pre sid := by
  induction post using List.reverseRecOn with
  | nil =>
    intro _
    exact loadRows_append_ne hrow
  | append_singleton post r ih =>
    intro hpost
    have hr : r.agentId ≠ sid := hpost r (by simp)
    have hrest := ih (fun x hx => hpost x (List.mem_append_left _ hx))
    have hassoc : pre ++ row :: (post ++ [r]) = (pre ++ row :: post) ++ [r] := by simp
    rw [hassoc, loadRows_append_ne hr, hrest]

/-! ## what is reused -/

theorem applyLoop_spec (plan : Plan O) {P : String → Prop} (before : List String) :
    ∀ (fuel : Nat) {pending done reused : List String},
    (∀ sid ∈ done, sid ∈ reused ∨ sid ∈ before) → (∀ sid ∈ pending, P sid) →
    (∀ sid ∈ reused, P sid ∧ ∀ dep ∈ plan.depsOf sid, dep ∈ reused ∨ dep ∈ before) →
    ∀ sid ∈ applyLoop plan fuel pending done reused,
      P sid ∧ ∀ dep ∈ plan.depsOf sid, dep ∈ applyLoop plan fuel pending done reused ∨ dep ∈ before := by
  intro fuel
  induction fuel with
  | zero =>
    intro pending done reused _ _ hreused
    exact hreused
  | succ fuel ih =>
    intro pending done reused hdone hpending hreused
    unfold applyLoop
    dsimp only
    split
    · exact hreused
    · refine ih (fun sid hsid => ?_) (fun sid hsid => hpending sid (List.mem_filter.1 hsid).1) (fun sid hsid => ?_)
      · rcases List.mem_append.1 hsid with hsid | hsid
        · exact (hdone sid hsid).imp_left (List.mem_append_left _)
        · exact .inl (List.mem_append_right _ hsid)
      · rcases List.mem_append.1 hsid with hsid | hsid
        · exact ⟨(hreused sid hsid).1, fun dep hdep => ((hreused sid hsid).2 dep hdep).imp_left (List.mem_append_left _)⟩
        · rw [List.mem_insertionSort, List.mem_filter, List.all_eq_true] at hsid
          obtain ⟨hmem, hdeps⟩ := hsid
          refine ⟨hpending sid hmem, fun dep hdep => (hdone dep ?_).imp_left (List.mem_append_left _)⟩
          simpa using hdeps dep hdep

def Plan.Fresh (plan : Plan O) : Prop := ∀ st ∈ plan.steps, st.skip = false

theorem reusedSteps_spec {plan : Plan O} (hfresh : plan.Fresh) (checkpoints : String → Option O) :
    ∀ sid ∈ reusedSteps plan checkpoints,
      (sid ∈ plan.stepIds ∧ (checkpoints sid).isSome) ∧ ∀ dep ∈ plan.depsOf sid, dep ∈ reusedSteps plan checkpoints := by
  have hdone : plan.steps.filter (fun s => s.skip && (plan.carryObservations s.id).isSome) = [] := by
    rw [List.filter_eq_nil_iff]
    intro st hst
    simp [hfresh st hst]
  unfold reusedSteps
  rw [hdone]
  intro sid hsid
  have hnone : ∀ {Q : String → Prop}, ∀ x ∈ ([] : List String), Q x := fun _ hx => absurd hx List.not_mem_nil
  obtain ⟨hstored, hdeps⟩ := applyLoop_spec plan (P := fun x => x ∈ plan.stepIds ∧ (checkpoints x).isSome = true) []
    plan.steps.length hnone (fun x hx => List.mem_filter.1 hx) hnone sid hsid
  exact ⟨hstored, fun dep hdep => (hdeps dep hdep).resolve_right List.not_mem_nil⟩

/-! ## the invariant -/

def Matched (observations : String → Option Computed) (sid dep : String) : Prop :=
  ∃ c d, observations sid = some c ∧ observations dep = some d ∧ d.usedFor dep c

def Process.skips (p : Process) (sid : String) : Prop := (p.plan.get sid).map (·.skip) = some true

def RowsSound (plan : Plan Computed) (rows : List CheckpointRow) : Prop :=
  ∀ pre row post, rows = pre ++ row :: post → row.payload.obs.output ≠ "" ∧
    ∀ dep ∈ plan.depsOf row.agentId, ∃ n, (dep, n) ∈ row.payload.inputs ∧
      ∀ c, loadRows pre dep = some c → c.stamp = n

structure ProcessInv (plan : Plan Computed) (rows : List CheckpointRow) (p : Process) : Prop where
  ids : p.plan.stepIds = plan.stepIds
  deps : ∀ sid, p.plan.depsOf sid = plan.depsOf sid
  skipped : ∀ sid, p.skips sid → ∀ dep ∈ plan.depsOf sid, p.skips dep ∧ Matched p.observations sid dep
  settled : ∀ sid, p.settled sid = true → ∀ dep ∈ plan.depsOf sid, p.settled dep = true ∧ Matched p.observations sid dep
  stored : ∀ sid, p.skips sid ∨ p.settled sid = true → ∃ c, p.observations sid = some c ∧
    ∀ d, loadRows rows sid = some d → d.stamp = c.stamp
  together : ∀ sid ∈ p.reused, ∀ dep ∈ plan.depsOf sid, dep ∈ p.reused ∧ Matched p.loaded sid dep

structure RunInv (plan : Plan Computed) (s : CheckpointedRun) : Prop where
  rows : RowsSound plan s.rows
  process : ∀ p, s.process = some p → ProcessInv plan s.rows p

section
variable {plan : Plan Computed}

theorem rowsSound_outputs {rows : List CheckpointRow} (h : RowsSound plan rows) :
    ∀ row ∈ rows, row.payload.obs.output ≠ "" := by
  intro row hrow
  obtain ⟨pre, post, rfl⟩ := List.append_of_mem hrow
  exact (h pre row post rfl).1

theorem not_own_dep (hv : plan.Valid) {sid dep : String} (hsid : sid ∈ plan.stepIds) (hdep : dep ∈ plan.depsOf sid) :
    dep ≠ sid := by
  obtain ⟨order, hord, hall⟩ := hv.ordered
  rintro rfl
  exact hord.irrefl dep (hall dep hsid) hdep

theorem mem_of_dep {sid dep : String} (h : dep ∈ plan.depsOf sid) : sid ∈ plan.stepIds := by
  unfold Plan.depsOf at h
  cases hget : plan.get sid with
  | none => simp [hget] at h
  | some st =>
    obtain ⟨hst, rfl⟩ := Plan.get_some plan hget
    exact List.mem_map_of_mem hst

theorem matched_of_follows (hv : plan.Valid) {rows : List CheckpointRow} (hrows : RowsSound plan rows)
    {sid dep : String} (hdep : dep ∈ plan.depsOf sid) (hfollows : Follows rows sid dep) {c d : Computed}
    (hc : loadRows rows sid = some c) (hd : loadRows rows dep = some d) : d.usedFor dep c := by
  obtain ⟨pre, row, post, hsplit, hid, hpayload, hpost⟩ := loadRows_split hc (rowsSound_outputs hrows)
  obtain ⟨-, hinputs⟩ := hrows pre row post hsplit
  obtain ⟨n, hn, hlast⟩ := hinputs dep (by rw [hid]; exact hdep)
  have hne : row.agentId ≠ dep := by
    rw [hid]
    exact (not_own_dep hv (mem_of_dep hdep) hdep).symm
  have hnone := hfollows pre row post hsplit hid hpost
  rw [hsplit, loadRows_before hne hnone] at hd
  have hstamp := hlast d hd
  unfold Computed.usedFor
  rw [hstamp, ← hpayload]
  exact hn

theorem stored_of_reused (hv : plan.Valid) (hfresh : plan.Fresh) {rows : List CheckpointRow}
    {checkpoints : String → Option Computed} (hcp : ∀ sid, checkpoints sid = loadRows rows sid) {sid : String}
    (h : sid ∈ reusedSteps plan checkpoints) : Stored plan rows sid := by
  obtain ⟨order, hord, hall⟩ := hv.ordered
  have hreused := reusedSteps_spec hfresh checkpoints
  have hup : ∀ x ∈ order, x ∈ reusedSteps plan checkpoints → Stored plan rows x := by
    refine hord.induct (fun x ih hx => ?_)
    obtain ⟨⟨-, hsome⟩, hdeps⟩ := hreused x hx
    rw [hcp x] at hsome
    exact .intro hsome (fun dep hdep => ih dep hdep (hdeps dep hdep))
  exact hup sid (hall sid (hreused sid h).1.1) h

theorem applied_get (plan : Plan Computed) (checkpoints : String → Option Computed) (sid : String) :
    (applyCheckpoints plan checkpoints).1.get sid =
      (plan.get sid).map (fun s => if (reusedSteps plan checkpoints).contains s.id then { s with skip := true } else s) := by
  unfold Plan.get applyCheckpoints
  rw [List.find?_map]
  congr 2
  funext st
  dsimp only [Function.comp]
  split <;> rfl

theorem applied_deps (plan : Plan Computed) (checkpoints : String → Option Computed) (sid : String) :
    (applyCheckpoints plan checkpoints).1.depsOf sid = plan.depsOf sid := by
  unfold Plan.depsOf
  rw [applied_get, Option.map_map]
  congr 2
  funext st
  dsimp only [Function.comp]
  split <;> rfl

theorem applied_ids (plan : Plan Computed) (checkpoints : String → Option Computed) :
    (applyCheckpoints plan checkpoints).1.stepIds = plan.stepIds := by
  unfold Plan.stepIds applyCheckpoints
  rw [List.map_map]
  refine List.map_congr_left (fun st _ => ?_)
  dsimp only [Function.comp]
  split <;> rfl

theorem startProcess_inv (hv : plan.Valid) (hfresh : plan.Fresh) {rows : List CheckpointRow}
    {checkpoints : String → Option Computed}
    (hstamps : ∀ sid c d, checkpoints sid = some c → loadRows rows sid = some d → d = c)
    (hmatched : ∀ sid ∈ reusedSteps plan checkpoints, ∀ dep ∈ plan.depsOf sid, Matched checkpoints sid dep) :
    ProcessInv plan rows (startProcess plan checkpoints) := by
  have hreused := reusedSteps_spec hfresh checkpoints
  have hskips : ∀ sid, (startProcess plan checkpoints).skips sid → sid ∈ reusedSteps plan checkpoints := by
    intro sid h
    unfold Process.skips at h
    have hget : (startProcess plan checkpoints).plan.get sid = _ := applied_get plan checkpoints sid
    rw [hget] at h
    cases hst : plan.get sid with
    | none => simp [hst] at h
    | some st =>
      obtain ⟨hmem, rfl⟩ := Plan.get_some plan hst
      by_cases hin : st.id ∈ reusedSteps plan checkpoints
      · exact hin
      · simp [hst, hin, hfresh st hmem] at h
  have hskipsOf : ∀ sid ∈ reusedSteps plan checkpoints, (startProcess plan checkpoints).skips sid := by
    intro sid h
    unfold Process.skips
    have hget : (startProcess plan checkpoints).plan.get sid = _ := applied_get plan checkpoints sid
    obtain ⟨st, hst, rfl⟩ := mem_stepIds.1 (hreused sid h).1.1
    rw [hget, get_mem hv.distinct hst]
    simp [h]
  have hcarries : ∀ sid ∈ reusedSteps plan checkpoints,
      (startProcess plan checkpoints).observations sid = checkpoints sid := by
    intro sid h
    show (if (reusedSteps plan checkpoints).contains sid then checkpoints sid else plan.carryObservations sid) = _
    simp [h]
  refine ⟨applied_ids plan checkpoints, applied_deps plan checkpoints, fun sid h dep hdep => ?_, nofun,
    fun sid h => ?_, fun sid h dep hdep => ⟨(hreused sid h).2 dep hdep, hmatched sid h dep hdep⟩⟩
  · have hin := hskips sid h
    have hdepIn := (hreused sid hin).2 dep hdep
    obtain ⟨c, d, hc, hd, hused⟩ := hmatched sid hin dep hdep
    exact ⟨hskipsOf dep hdepIn, c, d, (hcarries sid hin).trans hc, (hcarries dep hdepIn).trans hd, hused⟩
  · rcases h with h | h
    · have hin := hskips sid h
      obtain ⟨c, hc⟩ := Option.isSome_iff_exists.1 (hreused sid hin).1.2
      exact ⟨c, (hcarries sid hin).trans hc, fun d hd => congrArg Computed.stamp (hstamps sid c d hc hd)⟩
    · cases h

theorem Matched.update {observations : String → Option Computed} {sid dep x : String} {c : Computed}
    (h : Matched observations sid dep) (hsid : sid ≠ x) (hdep : dep ≠ x) :
    Matched (Function.update observations x (some c)) sid dep := by
  obtain ⟨c', d, hc, hd, hused⟩ := h
  exact ⟨c', d, (Function.update_of_ne hsid ..).trans hc, (Function.update_of_ne hdep ..).trans hd, hused⟩

theorem get_skip {p : Process} {sid : String} {st : Step} (hget : p.plan.get sid = some st) :
    p.skips sid ↔ st.skip = true := by
  simp [Process.skips, hget]

theorem processInv_skipped {rows : List CheckpointRow} {p : Process} (hp : ProcessInv plan rows p) {sid : String}
    {st : Step} (hget : p.plan.get sid = some st) (hskip : st.skip = true)
    (hdeps : st.dependencies.all p.settled = true) :
    ProcessInv plan rows { p with settled := Function.update p.settled sid true } := by
  have hst : p.skips sid := (get_skip hget).2 hskip
  have hdepsOf : plan.depsOf sid = st.dependencies := by
    rw [← hp.deps sid, Plan.depsOf, hget]
    rfl
  refine { hp with settled := fun x hx dep hdep => ?_, stored := fun x hx => ?_ }
  · have hkeep : ∀ y, p.settled y = true → Function.update p.settled sid true y = true := by
      intro y hy
      by_cases hne : y = sid
      · subst hne
        exact Function.update_self ..
      · exact (Function.update_of_ne hne ..).trans hy
    by_cases hne : x = sid
    · subst hne
      rw [hdepsOf] at hdep
      have hdepSettled := List.all_eq_true.1 hdeps dep hdep
      exact ⟨hkeep dep hdepSettled, (hp.skipped x hst dep (hdepsOf ▸ hdep)).2⟩
    · have hx' : p.settled x = true := by
        rw [← Function.update_of_ne hne true p.settled]
        exact hx
      obtain ⟨hdepSettled, hmatched⟩ := hp.settled x hx' dep hdep
      exact ⟨hkeep dep hdepSettled, hmatched⟩
  · by_cases hne : x = sid
    · subst hne
      exact hp.stored x (.inl hst)
    · refine hp.stored x (hx.imp_right (fun hx => ?_))
      rw [← Function.update_of_ne hne true p.settled]
      exact hx

/-- What `sid` adds to the rows when it succeeds. -/
def rowsWith (rows : List CheckpointRow) (written : Bool) (c : Computed) : List CheckpointRow :=
  rows ++ (if written then (saveRow c).toList else [])

theorem rowsWith_cases (rows : List CheckpointRow) (written : Bool) (c : Computed) :
    rowsWith rows written c = rows ∨
      (c.obs.output ≠ "" ∧ rowsWith rows written c = rows ++ [{ agentId := c.obs.stepId, payload := c }]) := by
  unfold rowsWith saveRow
  cases written with
  | false => exact .inl (List.append_nil _)
  | true =>
    rw [if_pos rfl]
    split
    · exact .inl (List.append_nil _)
    · rename_i hok
      exact .inr ⟨(not_or.1 hok).1, rfl⟩

/-- **A step that succeeds** is over on the observations it was given, and its row says so. -/
theorem runInv_executed {s : CheckpointedRun} {p : Process} (hp : ProcessInv plan s.rows p)
    (hrows : RowsSound plan s.rows) {sid : String} {st : Step} {obs : StepObservation} {written : Bool}
    (hget : p.plan.get sid = some st) (hskip : st.skip = false) (hopen : p.settled sid = false)
    (hdeps : st.dependencies.all p.settled = true) (hid : obs.stepId = sid)
    (hok : KeepsOrder plan s (.executed sid obs written)) :
    RowsSound plan (rowsWith s.rows written ⟨obs, s.next, p.inputs sid⟩) ∧
      ProcessInv plan (rowsWith s.rows written ⟨obs, s.next, p.inputs sid⟩)
        { p with
          observations := Function.update p.observations sid (some ⟨obs, s.next, p.inputs sid⟩)
          settled := Function.update p.settled sid true } := by
  have hdepsOf : plan.depsOf sid = st.dependencies := by
    rw [← hp.deps sid, Plan.depsOf, hget]
    rfl
  have hnotSkip : ¬ p.skips sid := by
    rw [get_skip hget, hskip]
    exact Bool.false_ne_true
  -- the dependencies are over, each with the observation the step was given
  have hgiven : ∀ dep ∈ plan.depsOf sid, p.settled dep = true ∧ dep ≠ sid ∧ ∃ d, p.observations dep = some d ∧
      (dep, d.stamp) ∈ p.inputs sid ∧ ∀ c, loadRows s.rows dep = some c → c.stamp = d.stamp := by
    intro dep hdep
    have hover := List.all_eq_true.1 hdeps dep (hdepsOf ▸ hdep)
    obtain ⟨d, hd, hstamp⟩ := hp.stored dep (.inr hover)
    refine ⟨hover, ?_, d, hd, ?_, hstamp⟩
    · rintro rfl
      rw [hopen] at hover
      cases hover
    · refine List.mem_filterMap.2 ⟨dep, by rw [hp.deps]; exact hdep, ?_⟩
      rw [hd]
      rfl
  have hsettled : ∀ y, Function.update p.settled sid true y = true ↔ p.settled y = true ∨ y = sid := by
    intro y
    by_cases hne : y = sid
    · subst hne
      simp
    · simp [hne]
  have hload : ∀ x, x ≠ sid → loadRows (rowsWith s.rows written ⟨obs, s.next, p.inputs sid⟩) x = loadRows s.rows x := by
    intro x hne
    rcases rowsWith_cases s.rows written ⟨obs, s.next, p.inputs sid⟩ with hsame | ⟨-, hnew⟩
    · rw [hsame]
    · rw [hnew]
      exact loadRows_append_ne (by rw [hid]; exact Ne.symm hne)
  refine ⟨fun pre row post hsplit => ?_, hp.ids, hp.deps, fun x hx dep hdep => ?_, fun x hx dep hdep => ?_,
    fun x hx => ?_, hp.together⟩
  · rcases rowsWith_cases s.rows written ⟨obs, s.next, p.inputs sid⟩ with hsame | ⟨hout, hnew⟩
    · exact hrows pre row post (hsame ▸ hsplit)
    · rw [hnew] at hsplit
      rcases List.eq_nil_or_concat' post with rfl | ⟨post, last, rfl⟩
      · -- the new row
        obtain ⟨rfl, hrow⟩ := List.append_inj' hsplit rfl
        obtain rfl := (List.singleton_inj.1 hrow).symm
        refine ⟨hout, fun dep hdep => ?_⟩
        rw [hid] at hdep
        obtain ⟨-, -, d, -, hinput, hstamp⟩ := hgiven dep hdep
        exact ⟨d.stamp, hinput, hstamp⟩
      · have hassoc : pre ++ row :: (post ++ [last]) = (pre ++ row :: post) ++ [last] := by simp
        rw [hassoc] at hsplit
        obtain ⟨hold, -⟩ := List.append_inj' hsplit rfl
        exact hrows pre row post hold
  · obtain ⟨hdepSkips, hmatched⟩ := hp.skipped x hx dep hdep
    refine ⟨hdepSkips, hmatched.update ?_ ?_⟩
    · rintro rfl
      exact hnotSkip hx
    · rintro rfl
      exact hnotSkip hdepSkips
  · rw [hsettled] at hx ⊢
    by_cases hne : x = sid
    · subst hne
      obtain ⟨hover, hdepNe, d, hd, hinput, -⟩ := hgiven dep hdep
      refine ⟨.inl hover, _, d, Function.update_self .., (Function.update_of_ne hdepNe ..).trans hd, hinput⟩
    · obtain ⟨hover, hmatched⟩ := hp.settled x (hx.resolve_right hne) dep hdep
      refine ⟨.inl hover, hmatched.update hne ?_⟩
      rintro rfl
      rw [hopen] at hover
      cases hover
  · rw [hsettled] at hx
    by_cases hne : x = sid
    · subst hne
      refine ⟨_, Function.update_self .., fun d hd => ?_⟩
      rcases rowsWith_cases s.rows written ⟨obs, s.next, p.inputs x⟩ with hsame | ⟨hout, hnew⟩
      · -- nothing was stored: the step had no row before
        rcases hok with ⟨hwritten, hout, hlen⟩ | hnone
        · have hsaved : rowsWith s.rows written ⟨obs, s.next, p.inputs x⟩ =
              s.rows ++ [{ agentId := obs.stepId, payload := ⟨obs, s.next, p.inputs x⟩ }] := by
            unfold rowsWith saveRow
            rw [if_pos hwritten, if_neg (not_or.2 ⟨hout, by simpa using hlen⟩)]
            rfl
          rw [hsaved] at hsame
          have hlength := congrArg List.length hsame
          simp at hlength
        · rw [hsame, loadRows_none hnone] at hd
          cases hd
      · rw [hnew] at hd
        rw [loadRows_append_self hid hd hout]
    · rw [hload x hne]
      obtain ⟨c, hc, hstamp⟩ := hp.stored x (hx.imp_right (fun hx => hx.resolve_right hne))
      exact ⟨c, (Function.update_of_ne hne ..).trans hc, hstamp⟩

theorem processInv_revised (hv : plan.Valid) {rows : List CheckpointRow} {p : Process} (hp : ProcessInv plan rows p)
    (hover : p.roundOver = true) {ids findings : List String} {revised : Plan Computed}
    (h : revisePlan p.plan ids p.observations findings = .ok revised) :
    ProcessInv plan rows { p with plan := revised, settled := fun _ => false } := by
  have hdistinct : p.plan.stepIds.Nodup := by rw [hp.ids]; exact hv.distinct
  have hspec := revisePlan_spec hdistinct h
  have hsettled : ∀ sid ∈ plan.stepIds, p.settled sid = true := by
    intro sid hsid
    rw [← hp.ids] at hsid
    obtain ⟨st, hst, rfl⟩ := mem_stepIds.1 hsid
    exact List.all_eq_true.1 hover st hst
  have hskips : ∀ sid, (revised.get sid).map (·.skip) = some true ↔
      sid ∈ plan.stepIds ∧ sid ∉ mustRerun p.plan ids.eraseDups := by
    intro sid
    rw [hspec.get, ← hp.ids]
    cases hget : p.plan.get sid with
    | none =>
      refine ⟨nofun, fun h => ?_⟩
      obtain ⟨st, hst, rfl⟩ := mem_stepIds.1 h.1
      rw [get_mem hdistinct hst] at hget
      cases hget
    | some st =>
      obtain ⟨hst, rfl⟩ := Plan.get_some _ hget
      simp [mem_stepIds.2 ⟨st, hst, rfl⟩]
  refine ⟨hspec.ids.trans hp.ids, fun sid => (hspec.deps sid).trans (hp.deps sid), fun sid hskip dep hdep => ?_, nofun,
    fun sid hskip => ?_, hp.together⟩
  · obtain ⟨hsid, hkept⟩ := (hskips sid).1 hskip
    have hdepKept := hspec.kept sid (hp.ids ▸ hsid) dep (by rw [hp.deps]; exact hdep) hkept
    have hdepId : dep ∈ plan.stepIds := by
      obtain ⟨st, hst, rfl⟩ := mem_stepIds.1 hsid
      rw [depsOf_mem hv.distinct hst] at hdep
      exact hv.known st hst dep hdep
    exact ⟨(hskips dep).2 ⟨hdepId, hdepKept⟩, (hp.settled sid (hsettled sid hsid) dep hdep).2⟩
  · rcases hskip with hskip | hskip
    · exact hp.stored sid (.inr (hsettled sid ((hskips sid).1 hskip).1))
    · cases hskip

theorem runInv_step (hv : plan.Valid) (hfresh : plan.Fresh) {s s' : CheckpointedRun} {act : RunAct}
    (hs : RunInv plan s) (hok : KeepsOrder plan s act) (h : runStep plan s act = some s') : RunInv plan s' := by
  obtain ⟨rows, next, process⟩ := s
  cases process with
  | none =>
    cases act with
    | resume order loads =>
      obtain ⟨⟨hperm, -⟩, ⟨⟩⟩ := Option.ite_none_right_eq_some.1 h
      refine ⟨hs.rows, fun p hp => ?_⟩
      cases hp
      cases loads with
      | false =>
        refine startProcess_inv hv hfresh nofun (fun sid hsid => ?_)
        have hsome := (reusedSteps_spec hfresh _ sid hsid).1.2
        cases hsome
      | true =>
        obtain ⟨hload, hfollows⟩ := hok
        refine startProcess_inv hv hfresh (fun sid c d hc hd => ?_) (fun sid hsid dep hdep => ?_)
        · have hsame : loadRows order sid = some c := hc
          rw [hload sid] at hsame
          exact Option.some.inj (hd.symm.trans hsame)
        · have hreused := reusedSteps_spec hfresh (loadRows order)
          obtain ⟨⟨-, hsome⟩, hdeps⟩ := hreused sid hsid
          obtain ⟨c, hc⟩ := Option.isSome_iff_exists.1 hsome
          obtain ⟨d, hd⟩ := Option.isSome_iff_exists.1 (hreused dep (hdeps dep hdep)).1.2
          refine ⟨c, d, hc, hd, ?_⟩
          have hstored := stored_of_reused hv hfresh hload hsid
          exact matched_of_follows hv hs.rows hdep (hfollows sid hstored dep hdep) ((hload sid).symm.trans hc)
            ((hload dep).symm.trans hd)
    | _ => cases h
  | some p =>
    have hp := hs.process p rfl
    cases act with
    | resume order loads => cases h
    | skipped sid =>
      simp only [runStep, processStep] at h
      cases hget : p.plan.get sid with
      | none => simp [hget] at h
      | some st =>
        simp only [hget] at h
        obtain ⟨⟨hskip, -, hdeps⟩, ⟨⟩⟩ := Option.ite_none_right_eq_some.1 h
        refine ⟨hs.rows, fun p' hp' => ?_⟩
        cases hp'
        exact processInv_skipped hp hget hskip hdeps
    | executed sid obs written =>
      simp only [runStep, processStep] at h
      cases hget : p.plan.get sid with
      | none => simp [hget] at h
      | some st =>
        simp only [hget] at h
        obtain ⟨⟨hskip, hopen, hdeps, hid⟩, ⟨⟩⟩ := Option.ite_none_right_eq_some.1 h
        obtain ⟨hrows, hinv⟩ := runInv_executed hp hs.rows hget hskip hopen hdeps hid hok
        refine ⟨hrows, fun p' hp' => ?_⟩
        cases hp'
        exact hinv
    | revised ids findings =>
      simp only [runStep, processStep] at h
      split at h
      · rename_i hover
        split at h
        · rename_i revised hrevised
          cases h
          refine ⟨hs.rows, fun p' hp' => ?_⟩
          cases hp'
          exact processInv_revised hv hp hover hrevised
        · cases h
      · cases h
    | accepted cleared =>
      obtain ⟨-, ⟨⟩⟩ := Option.ite_none_right_eq_some.1 h
      refine ⟨?_, nofun⟩
      cases cleared with
      | true =>
        intro pre row post hsplit
        cases pre <;> cases hsplit
      | false => exact hs.rows
    | stopped =>
      cases h
      exact ⟨hs.rows, nofun⟩

theorem consistent_of_inv {s : CheckpointedRun} (hs : RunInv plan s) : s.Consistent := by
  intro p hp
  have hinv := hs.process p hp
  refine ⟨fun sid hsid dep hdep => ?_, fun sid hsid dep hdep => ?_⟩
  · rw [hinv.deps] at hdep
    exact hinv.together sid hsid dep hdep
  · rw [hinv.deps] at hdep
    exact hinv.settled sid hsid dep hdep

end

/-- `write` builds on `read`. -/
def notesPlan : Plan Computed := { steps := [{ id := "read" }, { id := "write", dependencies := ["read"] }] }

def readObs (output : String) : StepObservation := { stepId := "read", output := output }
def writeObs : StepObservation := { stepId := "write", output := "report" }

def storedRead : CheckpointRow := { agentId := "read", payload := ⟨readObs "notes", 0, []⟩ }
def storedWrite : CheckpointRow := { agentId := "write", payload := ⟨writeObs, 1, [("read", 0)]⟩ }

def crashedRun : List RunAct :=
  [.resume [] false, .executed "read" (readObs "notes") true, .executed "write" writeObs true, .stopped]

def rewrittenRead : CheckpointRow := { agentId := "read", payload := ⟨readObs "new notes", 2, []⟩ }

/-- `read` runs again, and the process crashes before `write` does. -/
def crashedRevision : List RunAct :=
  [.resume [] true, .executed "read" (readObs "notes") true, .executed "write" writeObs true, .revised ["read"] [],
    .executed "read" (readObs "new notes") true, .stopped, .resume [storedRead, storedWrite, rewrittenRead] true]

end Workflow
end MyGpt
