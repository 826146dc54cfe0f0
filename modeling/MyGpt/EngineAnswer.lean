import MyGpt.EnginePath
/-!
# EngineAnswer — the answer of the engine is the answer of the turn

Once the engine has returned a completed result the turn can only go on to its done event, with the output of the
terminal step as the message, and the fallback starts after a failure only.  The one way out of this is the end marker:
where a burst of events keeps it out of the queue the drain never ends, and the answer is never taken.
-/
namespace MyGpt
namespace EnginePath

open Budget (Metered BudgetGuard BudgetLimits)
open Workflow (Plan Step StepObservation EngineRun EngineAct engineStep RunStatus WorkflowResult validate_ok toposort_ok
  checkIds_ok)
open Trace (Runs Reaches exec exec_append play runs_play)

variable {F : Type} [Metered F] {settings : Settings}

/-! ## what the turn owes -/

def Turn.Succeeded (t : Turn F) : Prop := ∃ r, t.run = some r ∧ succeeded r = true

def Turn.HoldsAnswer (t : Turn F) : Prop :=
  ∃ plan r result terminal, t.plan = some plan ∧ t.run = some r ∧ returned r = some result ∧
    result.status = .completed ∧ terminalStep plan = some terminal ∧
    t.content = ((result.observations terminal).map (·.output)).getD ""

def TurnAct.own : TurnAct F → Bool
  | .engineEnds | .concluded | .drain .callback | .drain .get => true
  | _ => false

/-- **The engine's answer is used**: after the engine has succeeded the fallback does not start, and the turn gets by
itself to its one done event, with the answer in the message; a fallback has a real failure behind it. -/
structure Turn.UsesAnswer (settings : Settings) (t : Turn F) : Prop where
  kept : t.Succeeded → t.stage = .running ∨ t.stage = .answered ∨ t.stage = .cancelled
  ends : t.Succeeded → t.stage = .running → ∃ acts t', (∀ act ∈ acts, act.own = true) ∧
    exec (step settings) t acts = some t' ∧ t'.stage = .answered
  once : t.doneEvents = if t.stage = .answered then 1 else 0
  answer : t.stage = .answered → t.HoldsAnswer
  fallback : t.stage = .fallback → t.failure ≠ none

def MarkerFits (t : Turn F) : TurnAct F → Prop
  | .drain act => Drain.MarkerFindsRoom t.drain act
  | _ => True

/-! ## the terminal step -/

theorem terminalStep_isSome {plan : Plan StepObservation} (h : plan.validate = .ok ()) (hsteps : plan.steps ≠ []) :
    ∃ terminal, terminalStep plan = some terminal := by
  obtain ⟨hids, -, order, htopo⟩ := validate_ok h
  obtain ⟨-, hall⟩ := toposort_ok (checkIds_ok hids).1 htopo
  obtain ⟨st, hst⟩ := List.exists_mem_of_ne_nil _ hsteps
  have hmem : st.id ∈ order := hall st.id (List.mem_map_of_mem hst)
  refine ⟨order.getLast (List.ne_nil_of_mem hmem), ?_⟩
  unfold terminalStep
  rw [htopo]
  exact List.getLast?_eq_some_getLast (List.ne_nil_of_mem hmem)

theorem succeeded_over {r : EngineRun StepObservation F} (h : succeeded r = true) : r.phase.over = true := by
  unfold succeeded returned at h
  cases hphase : r.phase with
  | returned result => rfl
  | raised => rfl
  | executing => simp [hphase] at h
  | verifying => simp [hphase] at h

theorem succeeded_iff {r : EngineRun StepObservation F} :
    succeeded r = true ↔ ∃ result, returned r = some result ∧ result.status = .completed := by
  unfold succeeded
  cases returned r with
  | none => simp
  | some result => simp

theorem engineStep_over {r r' : EngineRun StepObservation F} {act : EngineAct StepObservation F}
    (hover : r.phase.over = true) (h : engineStep r act = some r') : r'.phase = r.phase := by
  cases act with
  | executed | verified =>
    simp only [engineStep] at h
    split at h
    · rename_i hphase
      rw [hphase] at hover
      cases hover
    · cases h
  | raised =>
    simp only [engineStep, hover, if_true] at h
    cases h
  | metered used =>
    obtain ⟨g, -, rfl⟩ := Option.map_eq_some_iff.1 h
    rfl

/-! ## the invariant -/

structure TurnInv (t : Turn F) : Prop where
  drain : Drain.MarkerInv t.drain
  closed : t.drain.closed = true → ∃ r, t.run = some r ∧ r.phase.over = true
  planned : ∀ plan, t.plan = some plan → plan.validate = .ok () ∧ plan.steps ≠ []
  running : ∀ r, t.run = some r → (∃ plan, t.plan = some plan) ∧
    t.stage ≠ .planning ∧ t.stage ≠ .gate ∧ t.stage ≠ .assembling ∧ (t.stage = .fallback → succeeded r = false)
  finished : ∀ r, t.run = some r → r.phase.over = true → succeeded r = true ∨ t.failure ≠ none
  failed : t.stage = .fallback → t.failure ≠ none
  once : t.doneEvents = if t.stage = .answered then 1 else 0
  answer : t.stage = .answered → t.HoldsAnswer

theorem turnInv_start (selection : RuntimeSelection) (hroute : shouldRouteToEngine settings selection = true) :
    TurnInv (Turn.start settings selection : Turn F) := by
  have hstage : (Turn.start settings selection : Turn F).stage = .planning := by
    unfold Turn.start
    rw [hroute]
    rfl
  have hrun : (Turn.start settings selection : Turn F).run = none := rfl
  refine ⟨Drain.inv_start.marker, nofun, nofun, fun r h => ?_, fun r h => ?_, fun h => ?_, ?_, fun h => ?_⟩
  · rw [hrun] at h
    cases h
  · rw [hrun] at h
    cases h
  · rw [hstage] at h
    cases h
  · rw [hstage]
    rfl
  · rw [hstage] at h
    cases h

theorem TurnInv.none_done {t : Turn F} (ht : TurnInv t) (hnow : t.stage ≠ .answered) : t.doneEvents = 0 := by
  rw [ht.once, if_neg hnow]

theorem TurnInv.move {t : Turn F} (ht : TurnInv t) (hbefore : t.run = none) {stage : Stage}
    (hstage : stage ≠ .answered ∧ stage ≠ .fallback) (hnow : t.stage ≠ .answered) : TurnInv { t with stage := stage } := by
  refine ⟨ht.drain, ht.closed, ht.planned, fun r hr => ?_, ht.finished, fun h => absurd h hstage.2, ?_,
    fun h => absurd h hstage.1⟩
  · rw [show ({ t with stage := stage } : Turn F).run = t.run from rfl, hbefore] at hr
    cases hr
  · rw [if_neg hstage.1]
    exact ht.none_done hnow

theorem TurnInv.fails {t : Turn F} (ht : TurnInv t) (hbefore : t.run = none) (hnow : t.stage ≠ .answered)
    (failure : Failure) : TurnInv (t.fails failure) := by
  refine ⟨ht.drain, ht.closed, ht.planned, fun r hr => ?_, fun _ _ _ => .inr nofun, fun _ => nofun, ht.none_done hnow,
    nofun⟩
  rw [show (t.fails failure).run = t.run from rfl, hbefore] at hr
  cases hr

theorem TurnInv.before {t : Turn F} (ht : TurnInv t)
    (hstage : t.stage = .planning ∨ t.stage = .gate ∨ t.stage = .assembling) : t.run = none := by
  cases hr : t.run with
  | none => rfl
  | some r =>
    obtain ⟨-, h1, h2, h3, -⟩ := ht.running r hr
    rcases hstage with h | h | h
    · exact absurd h h1
    · exact absurd h h2
    · exact absurd h h3

theorem drain_of_step {t t' : Turn F} {act : Drain.Act} (h : step settings t (.drain act) = some t') :
    act ≠ .close ∧ ∃ drain, Drain.step t.drain act = some drain ∧ t' = { t with drain := drain } := by
  cases act with
  | close => cases h
  | get =>
    simp only [step] at h
    split at h
    · obtain ⟨drain, hdrain, rfl⟩ := Option.map_eq_some_iff.1 h
      exact ⟨nofun, drain, hdrain, rfl⟩
    · cases h
  | emit | callback =>
    simp only [step] at h
    obtain ⟨drain, hdrain, rfl⟩ := Option.map_eq_some_iff.1 h
    exact ⟨nofun, drain, hdrain, rfl⟩

theorem turnInv_drain {t t' : Turn F} (ht : TurnInv t) {act : Drain.Act} (hok : Drain.MarkerFindsRoom t.drain act)
    (h : step settings t (.drain act) = some t') : TurnInv t' := by
  obtain ⟨hact, drain, hdrain, rfl⟩ := drain_of_step h
  have hclosed := Drain.closed_of_step hact hdrain
  exact { ht with drain := Drain.markerInv_step ht.drain hok hdrain, closed := fun hc => ht.closed (hclosed ▸ hc) }

/-- **The end of the drain**: the engine is over, and its completed result becomes the answer. -/
theorem turnInv_conclude {t : Turn F} (ht : TurnInv t) (hstage : t.stage = .running) (hended : t.drain.ended = true) :
    TurnInv t.conclude ∧ (t.Succeeded → t.conclude.stage = .answered) := by
  have hclosed : t.drain.closed = true := by
    cases hc : t.drain.closed with
    | true => rfl
    | false =>
      rw [(ht.drain.opened hc).2] at hended
      cases hended
  obtain ⟨r, hr, hover⟩ := ht.closed hclosed
  obtain ⟨⟨plan, hplan⟩, -⟩ := ht.running r hr
  obtain ⟨hvalid, hsteps⟩ := ht.planned plan hplan
  have honce := ht.once
  rw [hstage] at honce
  rcases Bool.eq_false_or_eq_true (succeeded r) with hsucceeded | hsucceeded
  · obtain ⟨result, hresult, hstatus⟩ := succeeded_iff.1 hsucceeded
    obtain ⟨terminal, hterminal⟩ := terminalStep_isSome hvalid hsteps
    have hconclude : t.conclude = { t with
        stage := .answered
        content := ((result.observations terminal).map (·.output)).getD ""
        doneEvents := t.doneEvents + 1 } := by
      unfold Turn.conclude
      simp [hplan, hr, hresult, hstatus, hterminal]
    rw [hconclude]
    refine ⟨⟨ht.drain, ht.closed, ht.planned, fun r' hr' => ?_, ht.finished, nofun, ?_, fun _ => ?_⟩, fun _ => rfl⟩
    · exact ⟨⟨plan, hplan⟩, nofun, nofun, nofun, nofun⟩
    · show t.doneEvents + 1 = 1
      rw [honce]
      rfl
    · exact ⟨plan, r, result, terminal, hplan, hr, hresult, hstatus, hterminal, rfl⟩
  · have hfailure : t.failure ≠ none := by
      rcases ht.finished r hr hover with h | h
      · rw [hsucceeded] at h
        cases h
      · exact h
    have hconclude : t.conclude = t.fallBack := by
      unfold Turn.conclude
      rw [hplan, hr]
      cases hreturned : returned r with
      | none => simp [hreturned]
      | some result =>
        have hstatus : result.status ≠ .completed := by
          intro hstatus
          rw [succeeded_iff.2 ⟨result, hreturned, hstatus⟩] at hsucceeded
          cases hsucceeded
        simp [hreturned, hstatus]
    rw [hconclude]
    refine ⟨⟨ht.drain, ht.closed, ht.planned, fun r' hr' => ?_, ht.finished, fun _ => hfailure, honce, nofun⟩,
      fun ⟨r', hr', hs⟩ => ?_⟩
    · have hr'' : t.run = some r' := hr'
      obtain rfl : r = r' := Option.some.inj (hr.symm.trans hr'')
      exact ⟨⟨plan, hplan⟩, nofun, nofun, nofun, fun _ => hsucceeded⟩
    · obtain rfl : r = r' := Option.some.inj (hr.symm.trans hr')
      rw [hsucceeded] at hs
      cases hs

theorem turnInv_engine {t t' : Turn F} (ht : TurnInv t) {act : EngineAct StepObservation F}
    (h : step settings t (.engine act) = some t') : TurnInv t' := by
  simp only [step] at h
  split at h
  · rename_i r hstage hr
    obtain ⟨next, hnext, rfl⟩ := Option.map_eq_some_iff.1 h
    refine ⟨ht.drain, fun hclosed => ?_, ht.planned, fun r' hr' => ?_, fun r' hr' hover => ?_, fun hfallback => ?_, ?_,
      fun hanswered => ?_⟩
    · obtain ⟨r', hr', hover⟩ := ht.closed hclosed
      obtain rfl : r = r' := Option.some.inj (hr.symm.trans hr')
      refine ⟨next, rfl, ?_⟩
      rw [engineStep_over hover hnext]
      exact hover
    · obtain rfl : next = r' := Option.some.inj hr'
      refine ⟨(ht.running r hr).1, ?_, ?_, ?_, fun hfallback => ?_⟩
      · rw [hstage]; nofun
      · rw [hstage]; nofun
      · rw [hstage]; nofun
      · have hfallback' : t.stage = .fallback := hfallback
        rw [hstage] at hfallback'
        cases hfallback'
    · obtain rfl : next = r' := Option.some.inj hr'
      cases hsucceeded : succeeded next with
      | true => exact .inl rfl
      | false =>
        right
        simp [hover]
    · have hfallback' : t.stage = .fallback := hfallback
      rw [hstage] at hfallback'
      cases hfallback'
    · exact ht.once
    · have hanswered' : t.stage = .answered := hanswered
      rw [hstage] at hanswered'
      cases hanswered'
  · cases h

theorem turnInv_planned {t t' : Turn F} (ht : TurnInv t) {planned : PlannedPlan}
    (h : step settings t (.planned planned) = some t') : TurnInv t' := by
  simp only [step] at h
  split at h
  · rename_i hstage
    have hbefore := ht.before (.inl hstage)
    have hnow : t.stage ≠ .answered := by rw [hstage]; nofun
    split at h
    · cases h
      exact ht.fails hbefore hnow .planning
    · rename_i u hvalid
      cases h
      have hplanned : TurnInv { t with plan := some planned.plan } := by
        refine { ht with planned := fun plan hplan => ?_, running := fun r hr => ?_, answer := fun ha => absurd ha hnow }
        · obtain rfl : planned.plan = plan := Option.some.inj hplan
          exact ⟨hvalid, planned.nonempty⟩
        · rw [show ({ t with plan := some planned.plan } : Turn F).run = t.run from rfl, hbefore] at hr
          cases hr
      refine hplanned.move hbefore ?_ hnow
      split
      · exact ⟨nofun, nofun⟩
      · exact ⟨nofun, nofun⟩
  · cases h

theorem turnInv_assembled {t t' : Turn F} (ht : TurnInv t) {checkpoints : String → Option StepObservation}
    {guard : Option (BudgetGuard F)} (h : step settings t (.assembled checkpoints guard) = some t') : TurnInv t' := by
  simp only [step] at h
  split at h
  · rename_i plan hstage hplan
    cases h
    have hbefore := ht.before (.inr (.inr hstage))
    obtain ⟨hvalid, -⟩ := ht.planned plan hplan
    refine ⟨ht.drain, fun hclosed => ?_, ht.planned, fun r hr => ?_, fun r hr hover => ?_, nofun,
      ht.none_done (by rw [hstage]; nofun), nofun⟩
    · obtain ⟨r, hr, -⟩ := ht.closed hclosed
      rw [hbefore] at hr
      cases hr
    · exact ⟨⟨plan, hplan⟩, nofun, nofun, nofun, nofun⟩
    · cases hr
      unfold EngineRun.start at hover
      rw [hvalid] at hover
      cases hover
  · cases h

theorem turnInv_step {t t' : Turn F} {act : TurnAct F} (ht : TurnInv t) (hok : MarkerFits t act)
    (h : step settings t act = some t') : TurnInv t' := by
  cases act with
  | planned planned => exact turnInv_planned ht h
  | assembled checkpoints guard => exact turnInv_assembled ht h
  | engine act => exact turnInv_engine ht h
  | drain act => exact turnInv_drain ht hok h
  | planningFailed =>
    simp only [step] at h
    split at h
    · rename_i hstage
      cases h
      exact ht.fails (ht.before (.inl hstage)) (by rw [hstage]; nofun) .planning
    · cases h
  | gate act =>
    simp only [step] at h
    split at h
    · rename_i hstage
      have hnow : t.stage ≠ .answered := by rw [hstage]; nofun
      split at h
      · cases h
        exact ht.move (ht.before (.inr (.inl hstage))) ⟨nofun, nofun⟩ hnow
      · cases h
        exact ht
    · rename_i hstage hother
      cases h
      exact ht.move (ht.before (.inr (.inl hstage))) ⟨nofun, nofun⟩ (by rw [hstage]; nofun)
    · cases h
  | assemblyFailed =>
    simp only [step] at h
    split at h
    · rename_i hstage
      cases h
      exact ht.fails (ht.before (.inr (.inr hstage))) (by rw [hstage]; nofun) .assembly
    · cases h
  | engineEnds =>
    simp only [step] at h
    split at h
    · rename_i r hstage hr
      split at h
      · rename_i hover
        obtain ⟨drain, hdrain, rfl⟩ := Option.map_eq_some_iff.1 h
        exact { ht with drain := @Drain.markerInv_step _ _ .close ht.drain trivial hdrain, closed := fun _ => ⟨r, hr, hover⟩ }
      · cases h
    · cases h
  | concluded =>
    simp only [step] at h
    split at h
    · rename_i hstage
      cases h
      exact (turnInv_conclude ht hstage.1 hstage.2).1
    · cases h
  | cancelled =>
    simp only [step] at h
    split at h
    · cases h
    · rename_i hstage
      cases h
      exact ⟨ht.drain, ht.closed, ht.planned, fun r hr => ⟨(ht.running r hr).1, nofun, nofun, nofun, nofun⟩, ht.finished,
        nofun, ht.none_done (fun ha => hstage (.inl ha)), nofun⟩

/-! ## the way to the answer -/

theorem step_drain {t : Turn F} {act : Drain.Act} {drain : Drain.Run} (hclose : act ≠ .close)
    (hget : act = .get → t.stage = .running) (h : Drain.step t.drain act = some drain) :
    step settings t (.drain act) = some { t with drain := drain } := by
  cases act with
  | emit | callback => simp only [step, h, Option.map_some]
  | close => exact absurd rfl hclose
  | get => simp only [step, h, Option.map_some, if_pos (hget rfl)]

theorem step_engineEnds {t : Turn F} {r : EngineRun StepObservation F} {drain : Drain.Run} (hstage : t.stage = .running)
    (hr : t.run = some r) (hover : r.phase.over = true) (h : Drain.step t.drain .close = some drain) :
    step settings t .engineEnds = some { t with drain := drain } := by
  simp only [step, hstage, hr, hover, if_true, h, Option.map_some]

theorem exec_drain {settings : Settings} : ∀ (acts : List Drain.Act) {t : Turn F} {drain : Drain.Run}, t.stage = .running →
    (∀ act ∈ acts, act = .callback ∨ act = .get) → exec Drain.step t.drain acts = some drain →
    exec (step settings) t (acts.map .drain) = some { t with drain := drain }
  | [], _, _, _, _, h => by
    cases h
    rfl
  | act :: acts, t, drain, hstage, hacts, h => by
    obtain ⟨next, hnext, hrest⟩ := Option.bind_eq_some_iff.1 h
    have hstep : step settings t (.drain act) = some { t with drain := next } := by
      refine step_drain ?_ (fun _ => hstage) hnext
      rcases hacts act (List.mem_cons_self ..) with rfl | rfl <;> nofun
    have hlater := @exec_drain settings acts { t with drain := next } drain hstage
      (fun a ha => hacts a (List.mem_cons_of_mem _ ha)) hrest
    show (step settings t (.drain act)).bind _ = _
    rw [hstep]
    exact hlater

theorem ends_of_closed {t : Turn F} (ht : TurnInv t) (hsucceeded : t.Succeeded) (hstage : t.stage = .running)
    (hclosed : t.drain.closed = true) :
    ∃ acts t', (∀ act ∈ acts, act.own = true) ∧ exec (step settings) t acts = some t' ∧ t'.stage = .answered := by
  have hread : ∃ acts drain, (∀ act ∈ acts, act = .callback ∨ act = .get) ∧
      exec Drain.step t.drain acts = some drain ∧ drain.ended = true ∧ Drain.MarkerInv drain := by
    cases hended : t.drain.ended with
    | true => exact ⟨[], t.drain, nofun, rfl, hended, ht.drain⟩
    | false => exact Drain.drains_to_end _ (Nat.le_refl _) ht.drain hclosed hended
  obtain ⟨acts, drain, hacts, hexec, hended, hmarker⟩ := hread
  have hdrained := @exec_drain F _ settings acts t drain hstage hacts hexec
  have hinv : TurnInv { t with drain := drain } :=
    { ht with drain := hmarker, closed := fun _ => ht.closed hclosed }
  have hconcluded : exec (step settings) { t with drain := drain } [.concluded] =
      some ({ t with drain := drain } : Turn F).conclude := by
    show (step settings _ _).bind _ = _
    rw [show step settings { t with drain := drain } .concluded = some ({ t with drain := drain } : Turn F).conclude from
      if_pos ⟨hstage, hended⟩]
    rfl
  refine ⟨acts.map .drain ++ [.concluded], _, fun act hact => ?_, exec_append _ _ hdrained hconcluded, ?_⟩
  · rcases List.mem_append.1 hact with hact | hact
    · obtain ⟨a, ha, rfl⟩ := List.mem_map.1 hact
      rcases hacts a ha with rfl | rfl <;> rfl
    · rw [List.mem_singleton.1 hact]
      rfl
  · exact (turnInv_conclude hinv hstage hended).2 hsucceeded

theorem ends_of_succeeded {t : Turn F} (ht : TurnInv t) (hsucceeded : t.Succeeded) (hstage : t.stage = .running) :
    ∃ acts t', (∀ act ∈ acts, act.own = true) ∧ exec (step settings) t acts = some t' ∧ t'.stage = .answered := by
  cases hclosed : t.drain.closed with
  | true => exact ends_of_closed ht hsucceeded hstage hclosed
  | false =>
    obtain ⟨r, hr, hs⟩ := hsucceeded
    have hclose : Drain.step t.drain .close = some { t.drain with ctx := t.drain.ctx.close, closed := true } := by
      simp [Drain.step, hclosed]
    have hstep := @step_engineEnds F _ settings t r _ hstage hr (succeeded_over hs) hclose
    have hnext := @turnInv_step F _ settings t _ .engineEnds ht trivial hstep
    obtain ⟨acts, t', hacts, hexec, hanswered⟩ := @ends_of_closed F _ settings _ hnext ⟨r, hr, hs⟩ hstage rfl
    refine ⟨.engineEnds :: acts, t', fun act hact => ?_, ?_, hanswered⟩
    · rcases List.mem_cons.1 hact with rfl | hact
      · rfl
      · exact hacts act hact
    · show (step settings t .engineEnds).bind _ = _
      rw [hstep]
      exact hexec

theorem usesAnswer_of_inv {t : Turn F} (ht : TurnInv t) : t.UsesAnswer settings := by
  refine ⟨fun ⟨r, hr, hs⟩ => ?_, fun hsucceeded hstage => ends_of_succeeded ht hsucceeded hstage, ht.once, ht.answer,
    ht.failed⟩
  obtain ⟨-, h1, h2, h3, h4⟩ := ht.running r hr
  cases hstage : t.stage with
  | planning => exact absurd hstage h1
  | gate => exact absurd hstage h2
  | assembling => exact absurd hstage h3
  | running => exact .inl rfl
  | answered => exact .inr (.inl rfl)
  | fallback =>
    rw [h4 hstage] at hs
    cases hs
  | cancelled => exact .inr (.inr rfl)

/-- **The engine's answer is used whenever the engine succeeds**: for every setting of the roster and the plan gate, every
plan, any rounds, verdicts and events, in every run in which the end marker finds room in the queue. -/
theorem engine_answer_used (settings : Settings) (selection : RuntimeSelection)
    (hroute : shouldRouteToEngine settings selection = true) {t : Turn F}
    (h : Runs (step settings) MarkerFits (Turn.start settings selection) t) : t.UsesAnswer settings :=
  usesAnswer_of_inv (h.invariant (turnInv_start selection hroute) (fun _ _ _ ht hok hstep => turnInv_step ht hok hstep))

def roster : Settings := ⟨"true", "deep_research, debate", false⟩

def research : RuntimeSelection := ⟨true, "deep_research"⟩

def reportPlan : PlannedPlan := ⟨{ steps := [{ id := "writer" }] }, by decide⟩

def report : String → Option StepObservation := fun sid =>
  if sid = "writer" then some { stepId := "writer", output := "report" } else none

def passed : EngineAct StepObservation Int := .verified { verdict := .pass } true 0

def answeredActs : List (TurnAct Int) :=
  [.planned reportPlan, .assembled (fun _ => none) none, .engine (.executed report 1 none), .engine passed, .engineEnds,
    .drain .callback, .drain .get, .concluded]

theorem engine_answer_used_report :
    (play (step roster) (Turn.start roster research) answeredActs).UsesAnswer roster ∧
      (play (step roster) (Turn.start roster research) answeredActs).content = "report" := by
  refine ⟨engine_answer_used roster research (by decide) (runs_play (by decide) ?_), by decide⟩
  intro n act hact
  match n with
  | 0 | 1 | 2 | 3 | 4 | 6 | 7 =>
    cases hact
    trivial
  | 5 =>
    -- the marker: the drainer has read nothing, and the queue is empty
    cases hact
    intro rest _
    exact Nat.zero_lt_succ _
  | n + 8 => cases hact

/-! ## the marker is lost -/

structure Lost (t : Turn F) : Prop where
  stage : t.stage = .running
  closed : t.drain.closed = true
  gone : none ∉ t.drain.pending
  waiting : t.drain.ended = false

theorem lost_step {t t' : Turn F} (ht : Lost t) {act : TurnAct F} (hown : act.own = true)
    (h : step settings t act = some t') : Lost t' := by
  cases act with
  | engineEnds =>
    simp only [step] at h
    split at h
    · split at h
      · simp [Drain.step, ht.closed] at h
      · cases h
    · cases h
  | concluded =>
    simp only [step, ht.waiting] at h
    simp at h
  | drain act =>
    obtain ⟨hact, drain, hdrain, rfl⟩ := drain_of_step h
    obtain ⟨hgone, hwaiting⟩ := Drain.gone_of_step ht.closed ht.gone ht.waiting hdrain
    exact ⟨ht.stage, (Drain.closed_of_step hact hdrain).trans ht.closed, hgone, hwaiting⟩
  | planned | planningFailed | gate | assemblyFailed | assembled | engine | cancelled => cases hown

theorem lost_exec : ∀ (acts : List (TurnAct F)) {t t' : Turn F}, Lost t → (∀ act ∈ acts, act.own = true) →
    exec (step settings) t acts = some t' → Lost t'
  | [], _, _, ht, _, h => by
    cases h
    exact ht
  | act :: acts, _, _, ht, hown, h => by
    obtain ⟨next, hnext, hrest⟩ := Option.bind_eq_some_iff.1 h
    exact lost_exec acts (lost_step ht (hown act (List.mem_cons_self ..)) hnext)
      (fun a ha => hown a (List.mem_cons_of_mem _ ha)) hrest

def startedTurn : Turn Int := play (step roster) (Turn.start roster research) (answeredActs.take 2)

def succeededTurn : Turn Int := play (step roster) (Turn.start roster research) (answeredActs.take 4)

theorem burst_turn : ∀ n ≤ Drain.queueMax,
    Reaches (step roster) (Turn.start roster research) { startedTurn with drain := Drain.burst n }
  | 0, _ => .next (.assembled (fun _ => none) none) (.next (.planned reportPlan) .refl trivial rfl) trivial rfl
  | n + 1, h => by
    obtain ⟨mid, hemit, hput⟩ := Drain.burst_steps n h
    have hfirst := @step_drain Int _ roster { startedTurn with drain := Drain.burst n }
      (.emit Drain.tokenEvent true) mid nofun nofun hemit
    have hsecond := @step_drain Int _ roster { startedTurn with drain := mid } .callback _ nofun nofun hput
    exact .next _ (.next _ (burst_turn n (Nat.le_of_succ_le h)) trivial hfirst) trivial hsecond

theorem succeeded_turn : Reaches (step roster) (Turn.start roster research)
    { succeededTurn with drain := Drain.markerGone } := by
  obtain ⟨mid, hclose, hput⟩ := Drain.markerGone_steps
  have hexecuted : ∀ drain, step roster { startedTurn with drain := drain } (.engine (.executed report 1 none)) =
      some { play (step roster) (Turn.start roster research) (answeredActs.take 3) with drain := drain } := fun _ => rfl
  have hpassed : ∀ drain, step roster
      { play (step roster) (Turn.start roster research) (answeredActs.take 3) with drain := drain } (.engine passed) =
      some { succeededTurn with drain := drain } := fun _ => rfl
  have hends := @step_engineEnds Int _ roster { succeededTurn with drain := Drain.burst Drain.queueMax } _ mid rfl rfl rfl
    hclose
  have hlost := @step_drain Int _ roster { succeededTurn with drain := mid } .callback _ nofun nofun hput
  exact .next _ (.next _ (.next _ (.next _ (burst_turn _ (Nat.le_refl _)) trivial (hexecuted _)) trivial (hpassed _))
    trivial hends) trivial hlost

/-- **The answer is never taken.**  The engine has succeeded, and the drain waits for a marker that was dropped. -/
theorem answer_waits_for_marker :
    ¬ ∀ (settings : Settings) (selection : RuntimeSelection), shouldRouteToEngine settings selection = true →
      ∀ t : Turn Int, Reaches (step settings) (Turn.start settings selection) t → t.UsesAnswer settings := by
  intro h
  have huses := h roster research (by decide) _ succeeded_turn
  obtain ⟨acts, t', hown, hexec, hanswered⟩ := huses.ends ⟨_, rfl, rfl⟩ rfl
  have hlost : Lost { succeededTurn with drain := Drain.markerGone } := by
    refine ⟨rfl, rfl, ?_, rfl⟩
    show none ∉ Drain.markerGone.ctx.queue ++ []
    rw [List.append_nil]
    exact Drain.markerGone_queue
  have hstage := (lost_exec acts hlost hown hexec).stage
  rw [hanswered] at hstage
  cases hstage

end EnginePath
end MyGpt
