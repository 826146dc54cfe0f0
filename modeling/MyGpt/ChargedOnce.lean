import MyGpt.EngineUsage
/-!
# ChargedOnce — the account of an engine run

What the step executions of a run used, against what its guard has counted.  A step that is reused from a checkpoint is
charged with the usage it carries, once: the process that executed it died before the bill.
-/
namespace MyGpt
namespace Workflow

open Budget (Metered BudgetGuard BudgetLimits Usage addUsage_record)
open Trace (Runs Reaches exec play reaches_play)

variable {F : Type} [Metered F]

/-! ## what was used -/

variable (price : Usage F → Option F)

def stageAmount (usage : Usage F) : Option (Int × F) := usage.amount (usage.costUsd.or (price usage))

/-- What the step executions that end with this action have used, each once: the calls the model client charged in real
time, and every attempt that was not charged so; beside them the tools and the other models of the run. -/
def executionUsage (s : UsageRun F) : UsageAct F → List (Int × F)
  | .called delta => (stageAmount price delta).toList
  | .completed st _ usage =>
    match s.tasks st.id with
    | .executing _ generation => if s.realtimeUsage generation then [] else (stageAmount price (usage.getD {})).toList
    | _ => []
  | .failed st (some usage) _ _ =>
    match s.tasks st.id with
    | .executing _ generation => if s.realtimeUsage generation then [] else (stageAmount price usage).toList
    | _ => []
  | .recorded key usage => if s.usageRecords.contains key.text then [] else (usage.amount usage.costUsd).toList
  | _ => []

structure Account (F : Type) where
  entries : List (Int × F) := []
  reported : List String := []

def UsageRun.carriedUsage (s : UsageRun F) (st : Step) : Option (Usage F) :=
  if s.run.reusedSteps.contains st.id then (s.run.observations st.id).bind (·.usage) else none

def reuseUsage (s : UsageRun F) (account : Account F) : UsageAct F → List (Int × F)
  | .skipped st =>
    if account.reported.contains st.id then [] else ((s.carriedUsage st).bind (stageAmount price)).toList
  | _ => []

def newlyReported (s : UsageRun F) (account : Account F) : UsageAct F → List String
  | .completed st _ usage => ((stageAmount price (usage.getD {})).map (fun _ => st.id)).toList
  | .skipped st =>
    if account.reported.contains st.id then []
    else (((s.carriedUsage st).bind (stageAmount price)).map (fun _ => st.id)).toList
  | _ => []

def Account.note (s : UsageRun F) (account : Account F) (act : UsageAct F) : Account F where
  entries := account.entries ++ (executionUsage price s act ++ reuseUsage price s account act)
  reported := account.reported ++ newlyReported price s account act

def auditStep (s : UsageRun F × Account F) (act : UsageAct F) : Option (UsageRun F × Account F) :=
  (usageStep price s.1 act).map (fun next => (next, s.2.note price s.1 act))

def tokensOf (entries : List (Int × F)) : Int := (entries.map Prod.fst).sum

def costOf (entries : List (Int × F)) : F := entries.foldl (fun total entry => total + entry.2) 0

/-- **The guard's totals are these entries.** -/
def UsageRun.Totals (s : UsageRun F) (entries : List (Int × F)) : Prop :=
  ∃ g, s.run.guard = some g ∧ g.tokens = tokensOf entries ∧ g.costUsd = costOf entries

variable {price}

def CompletesOnce (s : UsageRun F × Account F) : UsageAct F → Prop
  | .completed st _ _ => s.2.reported.contains st.id = false ∧
      ∀ attempt generation, s.1.tasks st.id = .executing attempt generation → s.1.realtimeUsage generation = false
  | _ => True

/-! ## the ids -/

theorem stageUsageId_inj {a b : String} (h : stageUsageId a = stageUsageId b) : a = b := by
  have := congrArg String.toList h
  simp only [stageUsageId, String.toList_append] at this
  exact String.toList_injective (List.append_cancel_left this)

theorem callUsageId_inj {m n : Nat} (h : callUsageId m = callUsageId n) : m = n := by
  have hlist := congrArg String.toList h
  simp only [callUsageId, String.toList_append] at hlist
  have hdigits := List.append_cancel_left hlist
  have hvalue := congrArg (fun digits => Nat.ofDigitChars 10 digits 0) hdigits
  simpa [Nat.repr_eq_ofList_toDigits] using hvalue

theorem callUsageId_ne_stage (n : Nat) (sid : String) : callUsageId n ≠ stageUsageId sid := by
  intro h
  have := congrArg String.toList h
  simp [stageUsageId, callUsageId, String.toList_append] at this

theorem recordKey_ne_stage (key : RecordKey) (sid : String) : key.text ≠ stageUsageId sid := by
  intro h
  have := congrArg String.toList h
  cases key <;> simp [stageUsageId, RecordKey.text, String.toList_append] at this

theorem recordKey_ne_call (key : RecordKey) (n : Nat) : key.text ≠ callUsageId n := by
  intro h
  have := congrArg String.toList h
  cases key <;> simp [callUsageId, RecordKey.text, String.toList_append] at this

/-! ## the guard against the account -/

structure GuardInv (g : BudgetGuard F) (account : Account F) (sequence : Nat) (records : List String) : Prop where
  tokens : g.tokens = tokensOf account.entries
  cost : g.costUsd = costOf account.entries
  stages : ∀ sid, stageUsageId sid ∈ g.usageIds ↔ sid ∈ account.reported
  calls : ∀ n, callUsageId n ∈ g.usageIds → n < sequence
  keys : ∀ key : RecordKey, key.text ∈ g.usageIds → key.text ∈ records

variable {g : BudgetGuard F} {account : Account F} {sequence : Nat} {records : List String}

omit [Metered F] in
theorem tokensOf_append (entries : List (Int × F)) (entry : Int × F) :
    tokensOf (entries ++ [entry]) = tokensOf entries + entry.1 := by
  simp [tokensOf]

theorem costOf_append (entries : List (Int × F)) (entry : Int × F) :
    costOf (entries ++ [entry]) = costOf entries + entry.2 := by
  simp [costOf]

theorem mem_record {entry : Int × F} {usageId id : String} :
    id ∈ (g.record entry usageId).usageIds ↔ id ∈ g.usageIds ∨ id = usageId := by
  simp [BudgetGuard.record]

theorem GuardInv.weaken (hg : GuardInv g account sequence records) {sequence' : Nat} {records' : List String}
    (hsequence : sequence ≤ sequence') (hrecords : ∀ key ∈ records, key ∈ records') :
    GuardInv g account sequence' records' :=
  { hg with
    calls := fun n hn => Nat.lt_of_lt_of_le (hg.calls n hn) hsequence
    keys := fun key hkey => hrecords _ (hg.keys key hkey) }

theorem GuardInv.add (hg : GuardInv g account sequence records) (entry : Int × F) {id : String} {added : List String}
    {sequence' : Nat} {records' : List String} (hsequence : sequence ≤ sequence')
    (hrecords : ∀ key ∈ records, key ∈ records') (hstage : ∀ sid, stageUsageId sid = id ↔ sid ∈ added)
    (hcall : ∀ n, callUsageId n = id → n < sequence') (hkey : ∀ key : RecordKey, key.text = id → key.text ∈ records') :
    GuardInv (g.record entry id) ⟨account.entries ++ [entry], account.reported ++ added⟩ sequence' records' := by
  refine ⟨?_, ?_, fun sid => ?_, fun n hn => ?_, fun key hk => ?_⟩
  · rw [tokensOf_append, ← hg.tokens]
    rfl
  · rw [costOf_append, ← hg.cost]
    rfl
  · rw [mem_record, hg.stages, hstage, List.mem_append]
  · rcases mem_record.1 hn with hn | hn
    · exact Nat.lt_of_lt_of_le (hg.calls n hn) hsequence
    · exact hcall n hn
  · rcases mem_record.1 hk with hk | hk
    · exact hrecords _ (hg.keys key hk)
    · exact hkey key hk

theorem GuardInv.stage (hg : GuardInv g account sequence records) (sid : String) (entry : Int × F) :
    GuardInv (g.record entry (stageUsageId sid)) ⟨account.entries ++ [entry], account.reported ++ [sid]⟩ sequence
      records := by
  refine hg.add entry (Nat.le_refl _) (fun _ h => h) (fun other => ?_) (fun n h => ?_) (fun key h => ?_)
  · rw [List.mem_singleton]
    exact ⟨stageUsageId_inj, congrArg stageUsageId⟩
  · exact absurd h (callUsageId_ne_stage n sid)
  · exact absurd h (recordKey_ne_stage key sid)

theorem GuardInv.call (hg : GuardInv g account sequence records) (entry : Int × F) :
    GuardInv (g.record entry (callUsageId sequence)) ⟨account.entries ++ [entry], account.reported ++ []⟩ (sequence + 1)
      records := by
  refine hg.add entry (Nat.le_succ _) (fun _ h => h) (fun sid => ?_) (fun n h => ?_) (fun key h => ?_)
  · exact ⟨fun h => absurd h.symm (callUsageId_ne_stage _ sid), nofun⟩
  · rw [callUsageId_inj h]
    exact Nat.lt_succ_self _
  · exact absurd h (recordKey_ne_call key _)

theorem GuardInv.key (hg : GuardInv g account sequence records) (key : RecordKey) (entry : Int × F) :
    GuardInv (g.record entry key.text) ⟨account.entries ++ [entry], account.reported ++ []⟩ sequence
      (records ++ [key.text]) := by
  refine hg.add entry (Nat.le_refl _) (fun _ h => List.mem_append_left _ h) (fun sid => ?_) (fun n h => ?_)
    (fun other h => ?_)
  · exact ⟨fun h => absurd h.symm (recordKey_ne_stage key sid), nofun⟩
  · exact absurd h.symm (recordKey_ne_call key n)
  · exact List.mem_append_right _ (List.mem_singleton.2 h)

def Balanced (s : UsageRun F) (account : Account F) : Prop :=
  ∃ g, s.run.guard = some g ∧ GuardInv g account s.usageSequence s.usageRecords

theorem Balanced.of_same {s s' : UsageRun F} (hs : Balanced s account) (hguard : s'.run.guard = s.run.guard)
    (hsequence : s'.usageSequence = s.usageSequence) (hrecords : s'.usageRecords = s.usageRecords) :
    Balanced s' account := by
  obtain ⟨g, hg, hinv⟩ := hs
  refine ⟨g, hguard.trans hg, ?_⟩
  rw [hsequence, hrecords]
  exact hinv

/-! ## the charges -/

theorem addUsage_cases (s : UsageRun F) (hguard : s.run.guard = some g) (usage : Usage F) (cost : Option F)
    (usageId : String) :
    (usage.amount cost = none ∧ s.addUsage usage cost usageId = (s, false)) ∨
      ∃ entry, usage.amount cost = some entry ∧ s.addUsage usage cost usageId =
        ({ s with run := { s.run with
            guard := some (if g.usageIds.contains usageId then g else g.record entry usageId) } }, true) := by
  unfold UsageRun.addUsage
  rw [hguard]
  rcases addUsage_record g usage cost usageId with ⟨hnone, e, he⟩ | ⟨entry, hentry, hok⟩
  · refine .inl ⟨hnone, ?_⟩
    dsimp only
    rw [he]
  · refine .inr ⟨entry, hentry, ?_⟩
    dsimp only
    rw [hok]

/-- **A step is reported once**: the first time its usage comes in, and later reports change nothing. -/
theorem onStepEnd_balanced {s : UsageRun F} (hs : Balanced s account) (sid : String) (usage : Usage F) :
    Balanced (s.onStepEnd price sid (some usage))
      (if account.reported.contains sid then account
        else ⟨account.entries ++ (stageAmount price usage).toList,
          account.reported ++ ((stageAmount price usage).map (fun _ => sid)).toList⟩) := by
  obtain ⟨g, hg, hinv⟩ := hs
  have hcharge : s.onStepEnd price sid (some usage) =
      (s.addUsage usage (usage.costUsd.or (price usage)) (stageUsageId sid)).1 := rfl
  have hseen : g.usageIds.contains (stageUsageId sid) = account.reported.contains sid := by
    rw [Bool.eq_iff_iff]
    simpa using hinv.stages sid
  rw [hcharge]
  rcases addUsage_cases s hg usage (usage.costUsd.or (price usage)) (stageUsageId sid) with
    ⟨hnone, hadd⟩ | ⟨entry, hentry, hadd⟩
  · have hnone' : stageAmount price usage = none := hnone
    rw [hadd, hnone']
    refine ⟨g, hg, ?_⟩
    split
    · exact hinv
    · simpa using hinv
  · have hentry' : stageAmount price usage = some entry := hentry
    rw [hadd, hentry', hseen]
    refine ⟨_, rfl, ?_⟩
    split
    · exact hinv
    · exact hinv.stage sid entry

theorem skip_eq (s : UsageRun F) (st : Step) :
    s.skip price st = (match s.carriedUsage st with
      | none => s.setTask st.id .done
      | some usage => (s.setTask st.id .done).onStepEnd price st.id (some usage)) := by
  unfold UsageRun.skip UsageRun.carriedUsage
  cases hreused : s.run.reusedSteps.contains st.id with
  | false => cases s.run.observations st.id <;> rfl
  | true =>
    cases s.run.observations st.id with
    | none => rfl
    | some carried =>
      obtain ⟨stepId, output, usage, attempts⟩ := carried
      cases usage <;> rfl

theorem skip_balanced {s : UsageRun F} (hs : Balanced s account) (st : Step) :
    Balanced (s.skip price st) (account.note price s (.skipped st)) := by
  have hdone : Balanced (s.setTask st.id .done) account := hs.of_same rfl rfl rfl
  rw [skip_eq]
  cases hcarried : s.carriedUsage st with
  | none =>
    have hnote : account.note price s (.skipped st) = account := by
      simp [Account.note, executionUsage, reuseUsage, newlyReported, hcarried]
    rw [hnote]
    exact hdone
  | some usage =>
    have hnote : account.note price s (.skipped st) = (if account.reported.contains st.id then account
        else ⟨account.entries ++ (stageAmount price usage).toList,
          account.reported ++ ((stageAmount price usage).map (fun _ => st.id)).toList⟩) := by
      simp only [Account.note, executionUsage, reuseUsage, newlyReported, hcarried, Option.bind_some]
      split <;> simp
    rw [hnote]
    exact onStepEnd_balanced hdone st.id usage

theorem recordUsage_balanced {s : UsageRun F} (hs : Balanced s account) (key : RecordKey) (usage : Usage F)
    (charge : Bool) :
    Balanced (s.recordUsage price key usage charge)
      (if s.usageRecords.contains key.text || !charge then account
        else ⟨account.entries ++
          (usage.amount (usage.costUsd.or (if key.isModel then price usage else none))).toList, account.reported⟩) := by
  obtain ⟨g, hg, hinv⟩ := hs
  unfold UsageRun.recordUsage
  have hgrow : GuardInv g account s.usageSequence (s.usageRecords ++ [key.text]) :=
    hinv.weaken (Nat.le_refl _) (fun _ h => List.mem_append_left _ h)
  cases hknown : s.usageRecords.contains key.text with
  | true => exact ⟨g, hg, hinv⟩
  | false =>
    cases charge with
    | false => exact ⟨g, hg, hgrow⟩
    | true =>
      have hnew : g.usageIds.contains key.text = false := by
        rw [Bool.eq_false_iff]
        intro hmem
        have hrecord := hinv.keys key (by simpa using hmem)
        simp [hrecord] at hknown
      rcases addUsage_cases { s with usageRecords := s.usageRecords ++ [key.text] } hg usage
          (usage.costUsd.or (if key.isModel then price usage else none)) key.text with
        ⟨hnone, hadd⟩ | ⟨entry, hentry, hadd⟩
      · simp only [Bool.false_eq_true, if_false, if_true, Bool.not_true, Bool.or_self, hnone, hadd, Option.toList_none,
          List.append_nil]
        exact ⟨g, hg, hgrow⟩
      · simp only [Bool.false_eq_true, if_false, if_true, Bool.not_true, Bool.or_self, hentry, hadd,
          Option.toList_some, hnew]
        have hcharged := hinv.key key entry
        rw [List.append_nil] at hcharged
        exact ⟨_, rfl, hcharged⟩

theorem chargeCall_balanced {s : UsageRun F} (hs : Balanced s account) (delta : Usage F) :
    Balanced (s.chargeCall price delta)
      ⟨account.entries ++ (stageAmount price delta).toList, account.reported⟩ := by
  obtain ⟨g, hg, hinv⟩ := hs
  unfold UsageRun.chargeCall
  have hgrow : GuardInv g account (s.usageSequence + 1) s.usageRecords :=
    hinv.weaken (Nat.le_succ _) (fun _ h => h)
  have hnew : g.usageIds.contains (callUsageId s.usageSequence) = false := by
    rw [Bool.eq_false_iff]
    intro hmem
    exact Nat.lt_irrefl _ (hinv.calls _ (by simpa using hmem))
  rcases addUsage_cases s hg delta (delta.costUsd.or (price delta)) (callUsageId s.usageSequence) with
    ⟨hnone, hadd⟩ | ⟨entry, hentry, hadd⟩
  · have hnone' : stageAmount price delta = none := hnone
    rw [hadd, hnone']
    refine ⟨g, hg, ?_⟩
    simpa using hgrow
  · have hentry' : stageAmount price delta = some entry := hentry
    rw [hadd, hentry', hnew]
    have hcharged := hinv.call entry
    rw [List.append_nil] at hcharged
    exact ⟨_, rfl, hcharged⟩

/-! ## every run -/

theorem verified_guard (r : EngineRun (UsageObservation F) F) (verdict : VerifierResult) (reads : Bool) (elapsed : F)
    (hg : r.guard = some g) : ∃ replans, (r.verified verdict reads elapsed).guard = some { g with replans := replans } := by
  have hkeep : some g = some { g with replans := g.replans } := rfl
  unfold EngineRun.verified
  cases verdict.verdict with
  | pass | fail => exact ⟨g.replans, hg⟩
  | revise =>
    dsimp only
    split
    · exact ⟨g.replans, hg⟩
    split
    · exact ⟨g.replans, hg⟩
    rw [hg]
    split
    · rename_i hspent
      exact ⟨g.replans + 1, (congrArg Prod.fst hspent).symm⟩
    · rename_i hspent
      unfold EngineRun.revise
      split
      · exact ⟨g.replans + 1, (congrArg Prod.fst hspent).symm⟩
      · exact ⟨g.replans + 1, (congrArg Prod.fst hspent).symm⟩

theorem note_quiet {s : UsageRun F} {act : UsageAct F} (hused : executionUsage price s act = [])
    (hreuse : reuseUsage price s account act = []) (hreported : newlyReported price s account act = []) :
    account.note price s act = account := by
  unfold Account.note
  rw [hused, hreuse, hreported]
  simp

theorem completed_balanced {s s' : UsageRun F} (hs : Balanced s account) {st : Step} {raw : String} {usage : Option (Usage F)}
    (hok : CompletesOnce (s, account) (.completed st raw usage))
    (h : usageStep price s (.completed st raw usage) = some s') :
    Balanced s' (account.note price s (.completed st raw usage)) := by
  simp only [usageStep] at h
  split at h
  · rename_i attempt generation htask
    split at h
    · cases h
      obtain ⟨hnew, hrealtime⟩ := hok
      have hnotcharged := hrealtime attempt generation htask
      have hdone : Balanced (s.setTask st.id .done) account := hs.of_same rfl rfl rfl
      have hreported : Balanced ((s.setTask st.id .done).onStepEnd price st.id (some (usage.getD {}))) _ :=
        onStepEnd_balanced hdone st.id (usage.getD {})
      simp only [hnew] at hreported
      have hnote : account.note price s (.completed st raw usage) =
          ⟨account.entries ++ (stageAmount price (usage.getD {})).toList,
            account.reported ++ ((stageAmount price (usage.getD {})).map (fun _ => st.id)).toList⟩ := by
        simp [Account.note, executionUsage, reuseUsage, newlyReported, htask, hnotcharged]
      rw [hnote]
      exact hreported.of_same rfl rfl rfl
    · cases h
  · cases h

theorem failed_balanced {s s' : UsageRun F} (hs : Balanced s account) {st : Step} {usage : Option (Usage F)} {uuid : String}
    {next : AfterFailure} (h : usageStep price s (.failed st usage uuid next) = some s') :
    Balanced s' (account.note price s (.failed st usage uuid next)) := by
  simp only [usageStep] at h
  split at h
  · rename_i attempt generation htask
    split at h
    · rename_i hfresh
      cases h
      cases usage with
      | none =>
        rw [note_quiet rfl rfl rfl]
        exact hs.of_same rfl rfl rfl
      | some usage =>
        have hrecorded : Balanced (s.recordUsage price (.model st.id uuid) usage (!s.realtimeUsage generation)) _ :=
          recordUsage_balanced hs (.model st.id uuid) usage (!s.realtimeUsage generation)
        rw [hfresh.2.1, Bool.false_or, Bool.not_not] at hrecorded
        have hnote : account.note price s (.failed st (some usage) uuid next) =
            (if s.realtimeUsage generation then account
              else ⟨account.entries ++ (stageAmount price usage).toList, account.reported⟩) := by
          simp only [Account.note, executionUsage, reuseUsage, newlyReported, htask]
          split <;> simp
        rw [hnote]
        exact hrecorded.of_same rfl rfl rfl
    · cases h
  · cases h

theorem recorded_balanced {s s' : UsageRun F} (hs : Balanced s account) {key : RecordKey} {usage : Usage F}
    (h : usageStep price s (.recorded key usage) = some s') : Balanced s' (account.note price s (.recorded key usage)) := by
  simp only [usageStep] at h
  split at h
  · cases h
  · rename_i hkey
    cases h
    have hrecorded : Balanced (s.recordUsage price key usage true) _ := recordUsage_balanced hs key usage true
    have hnote : account.note price s (.recorded key usage) =
        (if s.usageRecords.contains key.text then account
          else ⟨account.entries ++ (usage.amount usage.costUsd).toList, account.reported⟩) := by
      simp only [Account.note, executionUsage, reuseUsage, newlyReported]
      split <;> simp
    rw [hnote]
    simpa [hkey] using hrecorded

theorem auditStep_balanced {s s' : UsageRun F} {act : UsageAct F} (hs : Balanced s account)
    (hok : CompletesOnce (s, account) act) (h : usageStep price s act = some s') :
    Balanced s' (account.note price s act) := by
  cases act with
  | completed st raw usage => exact completed_balanced hs hok h
  | failed st usage uuid next => exact failed_balanced hs h
  | recorded key usage => exact recorded_balanced hs h
  | called delta =>
    cases h
    have hcharged : Balanced (s.chargeCall price delta) _ := chargeCall_balanced hs delta
    simpa [Account.note, executionUsage, reuseUsage, newlyReported] using hcharged
  | started | cut =>
    rw [note_quiet rfl rfl rfl]
    simp only [usageStep] at h
    split at h
    · cases h
      exact hs.of_same rfl rfl rfl
    · cases h
  | skipped st =>
    simp only [usageStep] at h
    split at h
    · cases h
      exact skip_balanced hs st
    · cases h
  | collected peak failedStep =>
    rw [note_quiet rfl rfl rfl]
    simp only [usageStep] at h
    split at h
    · split at h
      · cases h
        refine hs.of_same ?_ rfl rfl
        cases failedStep <;> rfl
      · cases h
    · cases h
  | verified verdict reads elapsed =>
    rw [note_quiet rfl rfl rfl]
    simp only [usageStep] at h
    split at h
    · cases h
      obtain ⟨g, hg, hinv⟩ := hs
      obtain ⟨replans, hguard⟩ := verified_guard s.run verdict reads elapsed hg
      exact ⟨_, hguard, hinv.tokens, hinv.cost, hinv.stages, hinv.calls, hinv.keys⟩
    · cases h
  | raised =>
    rw [note_quiet rfl rfl rfl]
    simp only [usageStep] at h
    split at h
    · cases h
    · cases h
      exact hs.of_same rfl rfl rfl

/-- **Usage is charged once.**  For every plan, checkpoints, limits and price table, and every run with any rounds,
retries and revisions whose steps complete once and are not charged in real time: the guard's totals are the usage of the
executions of the run, each once, and what the steps reused from checkpoints carry, once as well. -/
theorem usage_charged_once (price : Usage F → Option F) (plan : Plan (UsageObservation F))
    (checkpoints : String → Option (UsageObservation F)) (limits : BudgetLimits F) {s : UsageRun F} {account : Account F}
    (h : Runs (auditStep price) CompletesOnce (UsageRun.start plan checkpoints limits, {}) (s, account)) :
    s.Totals account.entries := by
  have hstart : Balanced (UsageRun.start plan checkpoints limits) {} := by
    refine ⟨{ limits := limits }, rfl, rfl, rfl, fun sid => ?_, nofun, nofun⟩
    exact ⟨nofun, nofun⟩
  have hinv : Balanced s account := by
    refine @Runs.invariant _ _ (auditStep price) CompletesOnce (fun t => Balanced t.1 t.2) _ _ h hstart ?_
    intro t act t' ht hok hstep
    obtain ⟨next, hnext, rfl⟩ := Option.map_eq_some_iff.1 hstep
    exact auditStep_balanced ht hok hnext
  obtain ⟨g, hg, hguard⟩ := hinv
  exact ⟨g, hg, hguard.tokens, hguard.cost⟩

/-! ## a run that resumes -/

def defaultLimits : BudgetLimits Int where
  maxAgentSteps := 24
  maxToolCalls := 40
  maxReplanCount := 2
  maxRuntimeSeconds := 300
  maxToolOutputChars := 8000
  maxTotalTokens := 160000
  maxCostUsd := 5
  steps_pos := by decide
  calls_pos := by decide
  tokens_pos := by decide
  chars_min := by decide
  replans_nonneg := by decide
  runtime_pos := by decide
  cost_pos := by decide

def unpriced : Usage Int → Option Int := fun _ => none

def twoSteps : Plan (UsageObservation Int) := { steps := [{ id := "read" }, { id := "write", dependencies := ["read"] }] }

/-- `read` was executed by a process that died. -/
def readCheckpoint : String → Option (UsageObservation Int) := fun sid =>
  if sid = "read" then some { stepId := "read", output := "notes", usage := some { totalTokens := some 120 } } else none

def reportStep : Step := { id := "write", dependencies := ["read"] }

/-- `read` is reused, and `write` is executed. -/
def resumedActs : List (UsageAct Int) :=
  [.skipped { id := "read", skip := true }, .started reportStep,
    .completed reportStep "report" (some { promptTokens := some 30, completionTokens := some 10 })]

def resumedRun : UsageRun Int × Account Int :=
  play (auditStep unpriced) (UsageRun.start twoSteps readCheckpoint defaultLimits, {}) resumedActs

theorem usage_charged_once_resumed :
    resumedRun.1.Totals resumedRun.2.entries ∧ resumedRun.2.entries = [(120, 0), (40, 0)] := by
  refine ⟨usage_charged_once unpriced twoSteps readCheckpoint defaultLimits ?_, by decide⟩
  refine .next (.completed reportStep "report" _) (.next (.started reportStep)
    (.next (.skipped { id := "read", skip := true }) .refl trivial rfl) trivial rfl) ⟨by decide, ?_⟩ rfl
  intro attempt generation htask
  obtain ⟨-, rfl⟩ := StepTask.executing.inj htask
  decide

def executionsStep (price : Usage F → Option F) (s : UsageRun F × List (Int × F)) (act : UsageAct F) :
    Option (UsageRun F × List (Int × F)) :=
  (usageStep price s.1 act).map (fun next => (next, s.2 ++ executionUsage price s.1 act))

/-- A reused step adds the usage it carries, although nothing was executed. -/
theorem reused_step_charged :
    ¬ ∀ (price : Usage Int → Option Int) (plan : Plan (UsageObservation Int))
      (checkpoints : String → Option (UsageObservation Int)) (limits : BudgetLimits Int) (s : UsageRun Int)
      (entries : List (Int × Int)),
      Reaches (executionsStep price) (UsageRun.start plan checkpoints limits, []) (s, entries) → s.Totals entries := by
  intro h
  obtain ⟨g, hg, htokens, -⟩ := h unpriced twoSteps readCheckpoint defaultLimits _ _
    (@reaches_play _ _ (executionsStep unpriced) _ [.skipped { id := "read", skip := true }] (by decide))
  cases hg
  exact absurd htokens (by decide)

end Workflow
end MyGpt
