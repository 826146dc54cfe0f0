import MyGpt.IngestionQueue
import Mathlib.Data.List.Pairwise
/-!
# IngestionFencing — who may still write back

Only `claim_job` gives out a version, and each time a higher one, so `renew` and `finish` accept one claim at most.
`enqueue` clears the owner and the lease but leaves the version: `renew` then refuses the old claim, `finish` does not
(`finished_after_enqueue`).  Runs in which `finish` never meets an unowned row of its version are fenced
(`ingestion_fencing`).
-/
namespace MyGpt
namespace Ingest

open Trace (Runs Reaches play reaches_play)

/-! ## what the queue promises -/

/-- `renew` or `finish` under the claim would be accepted. -/
def Accepted (cfg : Settings) (row : Option Document) (c : Claim) : Prop :=
  (∃ now, (renew cfg row c.owner (some c.version) now).2 = true) ∨
    ∃ attempts outcome now, finishRead row c.owner (some c.version) = .ok attempts ∧
      (finishWrite cfg row c.owner (some c.version) attempts outcome now).2 ≠ .lost

def Queue.OneAccepted (cfg : Settings) (s : Queue) : Prop :=
  ∀ c₁ ∈ s.taken, ∀ c₂ ∈ s.taken, Accepted cfg s.row c₁ → Accepted cfg s.row c₂ → c₁ = c₂

/-- A part of `renew` or `finish` by this worker. -/
def Act.writesBack (w : Nat) : Act → Prop
  | .renew x _ => x = w
  | .finishRead x => x = w
  | .finishWrite x _ => x = w
  | _ => False

/-- No renewal and no finish under a claim taken by `s₀` changes the row in `s`. -/
def FencedSince (cfg : Settings) (name : Nat → String) (ok : Queue → Act → Prop) (s₀ s : Queue) : Prop :=
  ∀ w, ∀ c ∈ s₀.taken, s.claimOf name w = some c → ∀ act s', act.writesBack w → ok s act →
    step cfg name s act = some s' → s'.row = s.row

/-- **The writes of `finish` that are in order**: the row of the version it quotes still has an owner. -/
def FinishOk (s : Queue) : Act → Prop
  | .finishWrite w _ => ∀ d, s.row = some d → (s.workers w).version = some d.claimVersion → d.claimedBy ≠ none
  | _ => True

/-! ## one claim -/

structure TakenInv (s : Queue) : Prop where
  distinct : s.taken.Pairwise (fun a b => b.version < a.version)
  bounded : ∀ d, s.row = some d → ∀ c ∈ s.taken, c.version ≤ d.claimVersion

section
variable {cfg : Settings} {name : Nat → String} {s s' s₀ s₁ s₂ : Queue} {act : Act}

theorem TakenInv.of_version (hs : TakenInv s) (htaken : s'.taken = s.taken)
    (hrow : ∀ d', s'.row = some d' → ∃ d, s.row = some d ∧ d'.claimVersion = d.claimVersion) : TakenInv s' := by
  refine ⟨htaken ▸ hs.distinct, fun d' hd' c hc => ?_⟩
  obtain ⟨d, hd, hversion⟩ := hrow d' hd'
  rw [hversion]
  exact hs.bounded d hd c (htaken ▸ hc)

theorem finishValues_version (cfg : Settings) (attempts : Nat) (outcome : IngestionOutcome) (now : Int) (d : Document) :
    (finishValues cfg attempts outcome now d).claimVersion = d.claimVersion := by
  unfold finishValues
  dsimp only
  split
  · rfl
  · split <;> rfl

theorem finishValues_claimedBy (cfg : Settings) (attempts : Nat) (outcome : IngestionOutcome) (now : Int) (d : Document) :
    (finishValues cfg attempts outcome now d).claimedBy = none := by
  unfold finishValues
  dsimp only
  split
  · rfl
  · split <;> rfl

theorem takenInv_step (hs : TakenInv s) (h : step cfg name s act = some s') : TakenInv s' := by
  cases step_move h with
  | same => exact hs
  | queued hd | renewed _ hd _ => exact hs.of_version rfl (fun d' hd' => ⟨_, hd, by obtain rfl := Option.some.inj hd'; rfl⟩)
  | claimed _ hd _ =>
    refine ⟨List.pairwise_cons.2 ⟨fun c hc => Nat.lt_succ_of_le (hs.bounded _ hd c hc), hs.distinct⟩,
      fun d' hd' c hc => ?_⟩
    cases hd'
    rcases List.mem_cons.1 hc with rfl | hc
    · exact Nat.le_refl _
    · exact Nat.le_succ_of_le (hs.bounded _ hd c hc)
  | progress _ hd hjob =>
    exact hs.of_version rfl (fun d' hd' => ⟨_, hd, by obtain rfl := Option.some.inj hd'; exact hjob.version⟩)
  | worker => exact hs.of_version rfl (fun d' hd' => ⟨d', hd', rfl⟩)
  | finished _ hd =>
    refine hs.of_version rfl (fun d' hd' => ⟨_, hd, ?_⟩)
    cases hd'
    exact finishValues_version ..
  | deleted => exact hs.of_version rfl (fun d' hd' => by cases hd')

theorem takenInv_start (status : DocStatus) : TakenInv (.start status) := ⟨.nil, fun _ _ _ hc => by cases hc⟩

theorem takenInv_reaches {status : DocStatus} (h : Reaches (step cfg name) (.start status) s) : TakenInv s :=
  h.invariant (takenInv_start status) (fun _ _ _ hs _ hstep => takenInv_step hs hstep)

theorem accepted_version {row : Option Document} {c : Claim} (h : Accepted cfg row c) :
    ∃ d, row = some d ∧ d.claimVersion = c.version := by
  rcases h with ⟨now, h⟩ | ⟨attempts, outcome, now, h, -⟩
  · rcases renew_cases cfg row c.owner c.version now with hsame | ⟨d, hd, hversion, -, -⟩
    · rw [hsame] at h
      cases h
    · exact ⟨d, hd, hversion⟩
  · cases row with
    | none => cases h
    | some d =>
      refine ⟨d, rfl, ?_⟩
      by_contra hne
      simp [finishRead, hne] at h

theorem version_inj {l : List Claim} (h : l.Pairwise (fun a b => b.version < a.version)) {a b : Claim} (ha : a ∈ l)
    (hb : b ∈ l) (heq : a.version = b.version) : a = b := by
  have hne : l.Pairwise (fun a b => a.version ≠ b.version) := h.imp (fun hlt => Nat.ne_of_gt hlt)
  have hsymm : Std.Symm (fun a b : Claim => a.version ≠ b.version) := ⟨fun _ _ => Ne.symm⟩
  by_contra hab
  exact hne.forall ha hb hab heq

theorem oneAccepted_of_inv (hs : TakenInv s) : s.OneAccepted cfg := by
  intro c₁ h₁ c₂ h₂ ha₁ ha₂
  obtain ⟨d, hd, hv₁⟩ := accepted_version ha₁
  obtain ⟨d', hd', hv₂⟩ := accepted_version ha₂
  obtain rfl : d' = d := Option.some.inj (hd'.symm.trans hd)
  exact version_inj hs.distinct h₁ h₂ (hv₁.symm.trans hv₂)

/-! ## after `enqueue` -/

def ReleasedAt (v : Nat) (s : Queue) : Prop :=
  ∀ d, s.row = some d → v ≤ d.claimVersion ∧ (d.claimVersion = v → d.claimedBy = none)

theorem ReleasedAt.of_owner {v : Nat} (hs : ReleasedAt v s) (hrow : ∀ d', s'.row = some d' → ∃ d, s.row = some d ∧
    d'.claimVersion = d.claimVersion ∧ (d.claimedBy = none → d'.claimedBy = none)) : ReleasedAt v s' := by
  intro d' hd'
  obtain ⟨d, hd, hversion, howner⟩ := hrow d' hd'
  obtain ⟨hle, hnone⟩ := hs d hd
  rw [hversion]
  exact ⟨hle, fun heq => howner (hnone heq)⟩

theorem releasedAt_step {v : Nat} (hs : ReleasedAt v s) (h : step cfg name s act = some s') : ReleasedAt v s' := by
  cases step_move h with
  | same => exact hs
  | queued hd =>
    refine hs.of_owner (fun d' hd' => ⟨_, hd, ?_⟩)
    cases hd'
    exact ⟨rfl, fun _ => rfl⟩
  | claimed _ hd _ =>
    intro d' hd'
    cases hd'
    have hle := (hs _ hd).1
    refine ⟨Nat.le_succ_of_le hle, fun heq => ?_⟩
    rw [← heq] at hle
    exact absurd hle (Nat.not_succ_le_self _)
  | renewed _ hd _ =>
    refine hs.of_owner (fun d' hd' => ⟨_, hd, ?_⟩)
    cases hd'
    exact ⟨rfl, id⟩
  | progress _ hd hjob =>
    refine hs.of_owner (fun d' hd' => ⟨_, hd, ?_⟩)
    cases hd'
    exact ⟨hjob.version, hjob.claimedBy.trans⟩
  | worker => exact hs.of_owner (fun d' hd' => ⟨d', hd', rfl, id⟩)
  | finished _ hd =>
    refine hs.of_owner (fun d' hd' => ⟨_, hd, ?_⟩)
    cases hd'
    exact ⟨finishValues_version .., fun _ => finishValues_claimedBy ..⟩
  | deleted => exact fun d' hd' => by cases hd'

theorem releasedAt_enqueue {now : Int} {resetAttempts : Bool} (hqueued : (enqueue s.row now resetAttempts).2 = true)
    (h : step cfg name s (.enqueue now resetAttempts) = some s') :
    ∃ d, s.row = some d ∧ ReleasedAt d.claimVersion s' := by
  cases h
  rcases enqueue_cases s.row now resetAttempts with hsame | ⟨d, hd, -, hnew⟩
  · rw [hsame] at hqueued
    cases hqueued
  · refine ⟨d, hd, fun d' hd' => ?_⟩
    have hrow : (enqueue s.row now resetAttempts).1 = some d' := hd'
    rw [hnew] at hrow
    cases hrow
    exact ⟨Nat.le_refl _, fun _ => rfl⟩

/-- **A released row** refuses the renewals and the orderly finishes of every claim up to its version. -/
theorem writesBack_released {v w : Nat} {c : Claim} (hs : ReleasedAt v s) (hc : s.claimOf name w = some c)
    (hv : c.version ≤ v) (hact : act.writesBack w) (hok : FinishOk s act) (h : step cfg name s act = some s') :
    s'.row = s.row := by
  obtain ⟨u, hu, rfl⟩ := Option.map_eq_some_iff.1 hc
  have hunowned : ∀ d, s.row = some d → d.claimVersion = u → d.claimedBy = none := by
    intro d hd hversion
    obtain ⟨hle, hnone⟩ := hs d hd
    exact hnone (Nat.le_antisymm (hversion ▸ hv) hle)
  cases act with
  | renew x now =>
    obtain rfl : x = w := hact
    obtain ⟨u', hu', rfl⟩ := Option.map_eq_some_iff.1 h
    obtain rfl : u' = u := Option.some.inj (hu'.symm.trans hu)
    rcases renew_cases cfg s.row (name x) u' now with hsame | ⟨d, hd, hversion, howner, -⟩
    · exact congrArg Prod.fst hsame
    · rw [hunowned d hd hversion] at howner
      cases howner
  | finishRead x =>
    simp only [step] at h
    split at h
    · split at h <;>
      · cases h
        rfl
    · cases h
  | finishWrite x now =>
    obtain rfl : x = w := hact
    simp only [step] at h
    split at h
    · rename_i u' attempts outcome hw
      obtain rfl : u' = u := by simpa [hw, WorkerState.version] using hu
      cases h
      rcases finishWrite_cases cfg s.row (name x) u' attempts outcome now with hsame | ⟨d, hd, hversion, -⟩
      · exact hsame
      · exact absurd (hunowned d hd hversion) (hok d hd (hversion ▸ hu))
    · cases h
  | _ => cases hact

end

/-- **Ingestion fencing.**  In every run, renewal and finish accept at most one of the claims taken so far; and in every
run whose finishes are in order, from an `enqueue` that returned True on, nothing issued under a claim taken before it
changes the row. -/
theorem ingestion_fencing (cfg : Settings) (name : Nat → String) (status : DocStatus) :
    (∀ s, Reaches (step cfg name) (.start status) s → s.OneAccepted cfg) ∧
    ∀ s₀ s₁ s₂ now resetAttempts, Runs (step cfg name) FinishOk (.start status) s₀ →
      (enqueue s₀.row now resetAttempts).2 = true → step cfg name s₀ (.enqueue now resetAttempts) = some s₁ →
      Runs (step cfg name) FinishOk s₁ s₂ → FencedSince cfg name FinishOk s₀ s₂ := by
  refine ⟨fun s h => oneAccepted_of_inv (takenInv_reaches h), fun s₀ s₁ s₂ now resetAttempts hrun hqueued henqueue hlater => ?_⟩
  have htaken : TakenInv s₀ := hrun.invariant (takenInv_start status) (fun _ _ _ hs _ hstep => takenInv_step hs hstep)
  obtain ⟨d, hd, hreleased⟩ := releasedAt_enqueue hqueued henqueue
  have hlast : ReleasedAt d.claimVersion s₂ :=
    hlater.invariant hreleased (fun _ _ _ hs _ hstep => releasedAt_step hs hstep)
  intro w c hc hclaim act s' hact hok hstep
  exact writesBack_released hlast hclaim (htaken.bounded d hd c hc) hact hok hstep

def takenOver : List Act := [.claim 0 0 0, .enqueue 300 true, .claim 1 310 310]

theorem ingestion_fencing_taken_over :
    FencedSince {} (fun _ => "ingest") FinishOk
      (play (step {} (fun _ => "ingest")) (.start .pending) [.claim 0 0 0])
      (play (step {} (fun _ => "ingest")) (.start .pending) takenOver) :=
  (ingestion_fencing {} (fun _ => "ingest") .pending).2 _ _ _ 300 true (.next (.claim 0 0 0) .refl trivial rfl) (by decide)
    rfl (.next (.claim 1 310 310) .refl trivial rfl)

def slowWorker : List Act := [.returns 0 "boom" false, .finishRead 0]

/-- **A stale finish**: it fails the document that is waiting for its new run. -/
theorem finished_after_enqueue :
    ¬ ∀ (cfg : Settings) (name : Nat → String) (status : DocStatus),
      (∀ s, Reaches (step cfg name) (.start status) s → s.OneAccepted cfg) ∧
      ∀ s₀ s₁ s₂ now resetAttempts, Reaches (step cfg name) (.start status) s₀ →
        (enqueue s₀.row now resetAttempts).2 = true → step cfg name s₀ (.enqueue now resetAttempts) = some s₁ →
        Reaches (step cfg name) s₁ s₂ → FencedSince cfg name (fun _ _ => True) s₀ s₂ := by
  intro h
  have hfenced := (h {} (fun _ => "ingest") .pending).2
    (play (step {} (fun _ => "ingest")) (.start .pending) [.claim 0 0 0]) _ _ 300 true (reaches_play (by decide)) (by decide)
    rfl (@reaches_play _ _ _ _ slowWorker (by decide))
  have hsame := hfenced 0 ⟨"ingest", 1⟩ (by decide) rfl (.finishWrite 0 310) _ rfl trivial rfl
  exact absurd hsame (by decide)

end Ingest
end MyGpt
