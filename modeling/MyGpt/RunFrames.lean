import MyGpt.RunMoves
/-!
# RunFrames — what the steps leave alone

A run that exists stays; a durable run is never streamed by the API process; a worker gets past its claim by the claim
alone, and before it writes neither status nor event; the executor yields no terminal event before its end.
-/
namespace MyGpt
namespace Run

/-! ## the run row stays -/

theorem setRunStatus_isSome (db : Db) (t : Turn) (status : RunStatus) (ok : Bool) :
    (setRunStatus db t status ok).1.run.isSome = db.run.isSome := by
  unfold setRunStatus
  split
  · rfl
  · exact Option.isSome_map

theorem turnMove_isSome {now : Nat} {db db' : Db} {t t' : Turn} {a : TurnAct} (h : TurnMove now db t a db' t') :
    db'.run.isSome = db.run.isSome := by
  cases h with
  | startRun | update => exact Option.isSome_map
  | flip | approvalCancelled => exact setRunStatus_isSome _ _ _ _
  | settle => rw [settleTurn_run]
  | interrupt e usage ok => cases ok <;> rfl
  | _ => rfl

theorem workerMove_isSome {cfg : Settings} {me : Owner} {s s' : Shared} {w w' : Worker} {a : WorkerAct}
    (h : WorkerMove cfg me s w a s' w') : s'.db.run.isSome = s.db.run.isSome := by
  cases h with
  | claim row lease now logged db hp hc =>
    obtain ⟨row', acq, hr, -, rfl⟩ := claim_spec hc
    simp [hr]
  | turn ta db t hp ht => exact turnMove_isSome (turnStep_move ht).2
  | persistGoOn ok | persistFinal _ ok | persistAbandon ok => cases ok <;> rfl
  | finalize terminal own run hp =>
    dsimp only [Db.finalizeSuccess]
    split
    · split
      · rfl
      · exact Option.isSome_map
    · rfl
  | renewWrite l now db hr hdb =>
    obtain ⟨row, -, -, rfl⟩ := renew_spec hdb
    rfl
  | _ => rfl

theorem move_isSome {cfg : Settings} {s s' : World} {a : Act} (h : Move cfg s a s')
    (hr : s.shared.db.run.isSome = true) : s'.shared.db.run.isSome = true := by
  cases h with
  | worker me wa sh w hm => exact (workerMove_isSome hm).trans hr
  | scan sa sh r hm =>
    cases hm with
    | commit leaseId row n =>
      dsimp only [Db.reconcile]
      split <;> exact Option.isSome_map.trans hr
    | requeue ok => cases ok <;> exact hr
    | _ => exact hr
  | cancel k ca sh c hm =>
    cases hm with
    | commit => exact Option.isSome_map.trans hr
    | _ => exact hr
  | inline ia sh t hm =>
    cases hm with
    | create runtime db t' hs hc =>
      unfold createRun at hc
      split at hc
      · cases hc
      · cases hc; rfl
    | turn ta db t' hs ht => exact (turnMove_isSome (turnStep_move ht).2).trans hr
    | send => exact hr
  | _ => exact hr

structure DurableRun (s : World) : Prop where
  exists_run : s.shared.db.run.isSome = true
  notStreamed : s.inline = {}

theorem durableRun_initial : DurableRun World.durable := ⟨rfl, rfl⟩

theorem DurableRun.not_inline {s : World} (hd : DurableRun s) {ia : InlineAct} {sh : Shared} {t : Turn}
    (hm : InlineMove s.shared s.inline ia sh t) : False := by
  cases hm with
  | create runtime db t' hs hc =>
    unfold createRun at hc
    obtain ⟨row, hrow⟩ := Option.isSome_iff_exists.1 hd.exists_run
    rw [hrow] at hc
    cases hc
  | turn ta db t' hs => rw [hd.notStreamed] at hs; exact hs rfl
  | send evt rest ho => rw [hd.notStreamed] at ho; cases ho

theorem durableRun_step {cfg : Settings} {s s' : World} {a : Act} (hd : DurableRun s) (h : Move cfg s a s') :
    DurableRun s' := by
  refine ⟨move_isSome h hd.exists_run, ?_⟩
  cases h with
  | inline ia sh t hm => exact absurd hm (fun hm => hd.not_inline hm)
  | _ => exact hd.notStreamed

/-! ## one worker at a time -/

theorem workerMove_pastClaim {cfg : Settings} {me : Owner} {s s' : Shared} {w w' : Worker} {a : WorkerAct}
    (h : WorkerMove cfg me s w a s' w') (hp : w'.phase.pastClaim = true) :
    (∃ logged, a = .claim logged) ∨ w.phase.pastClaim = true := by
  cases h with
  | claim row lease now logged => exact .inl ⟨logged, rfl⟩
  | turn | renewRead | renewLost | renewWrite | renewEnds => exact .inr hp
  | deliver | loadOver | load | skip | readLease | noClaim | abandon | abandonFails | finalizeFails | ack | killed
  | crash => cases hp
  | next evt rest due hr => rw [hr]; exact .inr rfl
  | exhausted hr | raised hr | persistGoOn ok hr | persistFinal terminal ok hr | persistAbandon ok hr | abandonRead hr
  | finLease terminal hr | finRun terminal own hr | finalize terminal own run hr => rw [hr]; exact .inr rfl

def Alone (s : World) : Prop :=
  ∀ v w, (s.workers v).phase.pastClaim = true → (s.workers w).phase.pastClaim = true → v = w

theorem Alone.others {cfg : Settings} {s : World} (halone : Alone s) {me : Owner} {wa : WorkerAct} {sh : Shared}
    {w : Worker} (hm : WorkerMove cfg me s.shared (s.workers me) wa sh w)
    (hclaim : ∀ logged, wa = .claim logged → ∀ v, v ≠ me → (s.workers v).phase.pastClaim = false)
    (hpast : w.phase.pastClaim = true) : ∀ v, v ≠ me → (s.workers v).phase.pastClaim = false := by
  intro v hv
  rcases workerMove_pastClaim hm hpast with ⟨logged, rfl⟩ | hbefore
  · exact hclaim logged rfl v hv
  · by_contra hne
    exact hv (halone v me (by simpa using hne) hbefore)

theorem alone_worker {cfg : Settings} {s : World} (halone : Alone s) {me : Owner} {wa : WorkerAct} {sh : Shared}
    {w : Worker} (hm : WorkerMove cfg me s.shared (s.workers me) wa sh w)
    (hclaim : ∀ logged, wa = .claim logged → ∀ v, v ≠ me → (s.workers v).phase.pastClaim = false) :
    ∀ u v, (Function.update s.workers me w u).phase.pastClaim = true →
      (Function.update s.workers me w v).phase.pastClaim = true → u = v := by
  intro u v hu hv
  by_cases hum : u = me <;> by_cases hvm : v = me
  · rw [hum, hvm]
  · subst hum
    rw [Function.update_self] at hu
    rw [Function.update_of_ne hvm, halone.others hm hclaim hu v hvm] at hv
    cases hv
  · subst hvm
    rw [Function.update_self] at hv
    rw [Function.update_of_ne hum, halone.others hm hclaim hv u hum] at hu
    cases hu
  · rw [Function.update_of_ne hum] at hu
    rw [Function.update_of_ne hvm] at hv
    exact halone u v hu hv

theorem workerMove_outside {cfg : Settings} {me : Owner} {s s' : Shared} {w w' : Worker} {a : WorkerAct}
    (h : WorkerMove cfg me s w a s' w') (hp : w.phase.pastClaim = false) (hc : ∀ logged, a ≠ .claim logged) :
    s'.db.status = s.db.status ∧ s'.db.events = s.db.events := by
  cases h with
  | claim row lease now logged => exact absurd rfl (hc logged)
  | renewWrite l now db hr hdb =>
    obtain ⟨row, -, -, rfl⟩ := renew_spec hdb
    exact ⟨rfl, rfl⟩
  | deliver | loadOver | load | skip | readLease | noClaim | renewRead | renewLost | renewEnds | crash => exact ⟨rfl, rfl⟩
  | turn _ _ _ hq | next _ _ _ hq | exhausted hq | raised hq | killed hq | persistGoOn _ hq | persistFinal _ _ hq
  | persistAbandon _ hq | abandonRead hq | abandon _ hq | abandonFails _ hq | finLease _ hq | finRun _ _ hq
  | finalize _ _ _ hq | finalizeFails _ _ _ hq | ack _ hq => rw [hq] at hp; cases hp

/-! ## what the executor yields -/

def Turn.OutOpen (t : Turn) : Prop :=
  t.stage ≠ .ended → ∀ evt ∈ t.out, evt.kind.terminal = false ∧ evt.kind.outcome = false

theorem turnMove_outOpen {now : Nat} {db db' : Db} {t t' : Turn} {a : TurnAct} (h : TurnMove now db t a db' t')
    (hout : t.out = []) : t'.OutOpen := by
  intro hend evt hevt
  have hstays : t.out = t'.out → evt.kind.terminal = false ∧ evt.kind.outcome = false := by
    intro heq
    rw [← heq, hout] at hevt
    cases hevt
  cases h with
  | notFound | earlyError | refuse => exact absurd rfl hend
  | emit name data =>
    obtain rfl := List.mem_singleton.1 hevt
    exact ⟨rfl, rfl⟩
  | flip | approvalCancelled =>
    refine hstays ?_
    unfold setRunStatus
    split <;> rfl
  | settle e answer ok hs =>
    unfold settleTurn at hend hstays
    split at hend
    · rename_i hk; rw [if_pos hk] at hstays; exact hstays rfl
    · split at hend <;> exact absurd rfl hend
  | _ => exact hstays rfl

end Run
end MyGpt
