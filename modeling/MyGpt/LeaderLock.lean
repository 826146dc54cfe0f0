import MyGpt.Lib.Trace
import Mathlib.Data.List.Induction
import Mathlib.Logic.Function.Basic
/-!
# LeaderLock — the leader election of `leader.py`

The lock lives in a database session, the leadership in a process.  A process that stops leading lets go of its connection,
and the connection goes back to the pool or is left to the collector: the lock is free when the session has unlocked or has
ended, and only then (`leaders_kept_iff`).
-/
namespace MyGpt
namespace Leader

open Trace (exec)

/-- What `_resolve_engine` finds. -/
inductive Backend
  | absent | postgresql | other
  deriving DecidableEq

inductive SessionState
  | unused | pooled | out | ended
  deriving DecidableEq

inductive Phase
  | idle
  | connecting
  | probing (conn : Nat)
  | declining (conn : Nat)
  | renewing (conn : Nat)
  | unlocking (conn : Nat)
  | closing (conn : Nat)
  deriving DecidableEq

structure AdvisoryLeader where
  conn : Option Nat := none
  held : Bool := false
  phase : Phase := .idle
  deriving DecidableEq

structure World where
  /-- the session that has the lock, a process and the number of its connection, and how often it has taken it -/
  lock : Option ((Nat × Nat) × Nat) := none
  sessions : Nat × Nat → SessionState := fun _ => .unused
  leaders : Nat → AdvisoryLeader := fun _ => {}

namespace World

def holds (w : World) (s : Nat × Nat) : Prop := ∃ n, w.lock = some (s, n)

def setLeader (w : World) (p : Nat) (leader : AdvisoryLeader) : World :=
  { w with leaders := Function.update w.leaders p leader }

def setSession (w : World) (s : Nat × Nat) (state : SessionState) : World :=
  { w with sessions := Function.update w.sessions s state }

/-- `pg_try_advisory_lock`: free, or taken by the session itself. -/
def grants (w : World) (s : Nat × Nat) : Bool :=
  match w.lock with
  | none => true
  | some (holder, _) => holder = s

def tryLock (w : World) (s : Nat × Nat) : World :=
  match w.lock with
  | none => { w with lock := some (s, 1) }
  | some (holder, n) => if holder = s then { w with lock := some (s, n + 1) } else w

/-- `pg_advisory_unlock`: once. -/
def unlock (w : World) (s : Nat × Nat) : World :=
  match w.lock with
  | none => w
  | some (holder, n) => if holder = s then { w with lock := if n ≤ 1 then none else some (s, n - 1) } else w

def endSession (w : World) (s : Nat × Nat) : World :=
  { w.setSession s .ended with
    lock := match w.lock with
      | none => none
      | some (holder, n) => if holder = s then none else some (holder, n) }

def afterFailure (w : World) (s : Nat × Nat) (ends : Bool) : World := if ends then w.endSession s else w

end World

inductive Act
  | tryAcquire (p : Nat)
  | connected (p conn : Nat)
  | connectFails (p : Nat)
  | probe (p : Nat)
  | probeFails (p : Nat) (executed ends : Bool)
  | release (p : Nat)
  | unlock (p : Nat)
  | unlockFails (p : Nat) (executed ends : Bool)
  | close (p : Nat) (ends : Bool)
  | closeFails (p : Nat) (ends : Bool)
  | renew (p : Nat)
  | renewProbe (p : Nat)
  | renewFails (p : Nat) (ends : Bool)
  /-- `LeaderGate.acquire` -/
  | gateAcquire (p : Nat)
  | drop (p conn : Nat)
  deriving DecidableEq

/-- `try_acquire`, up to its first await. -/
def tryAcquire (backend : Backend) (w : World) (p : Nat) : World :=
  if (w.leaders p).held then w
  else match backend with
    | .absent => w
    | .other => w.setLeader p { w.leaders p with held := true }
    | .postgresql => w.setLeader p { w.leaders p with phase := .connecting }

/-- `release`, up to its first await. -/
def release (w : World) (p : Nat) : World :=
  if (w.leaders p).held then
    match (w.leaders p).conn with
    | none => w.setLeader p {}
    | some conn => w.setLeader p { phase := .unlocking conn }
  else w

/-- `renew`, up to its await. -/
def renew (w : World) (p : Nat) : World :=
  if (w.leaders p).held then
    match (w.leaders p).conn with
    | none => w
    | some conn => w.setLeader p { w.leaders p with phase := .renewing conn }
  else w

/-- `close()` of a connection: the pool closes it, or takes it back as it is. -/
def checkIn (w : World) (s : Nat × Nat) (ends : Bool) : World :=
  if ends then w.endSession s else if w.sessions s = .ended then w else w.setSession s .pooled

section
variable (backend : Backend) (enabled : Bool)

def step (w : World) : Act → Option World
  | .tryAcquire p => if (w.leaders p).phase = .idle then some (tryAcquire backend w p) else none
  | .connected p conn =>
    if (w.leaders p).phase = .connecting ∧ (w.sessions (p, conn) = .unused ∨ w.sessions (p, conn) = .pooled) then
      some ((w.setSession (p, conn) .out).setLeader p { w.leaders p with phase := .probing conn })
    else none
  | .connectFails p =>
    if (w.leaders p).phase = .connecting then some (w.setLeader p { w.leaders p with phase := .idle }) else none
  | .probe p =>
    match (w.leaders p).phase with
    | .probing conn =>
      if w.sessions (p, conn) ≠ .out then none
      else if w.grants (p, conn) then
        some ((w.tryLock (p, conn)).setLeader p { conn := some conn, held := true, phase := .idle })
      else some (w.setLeader p { w.leaders p with phase := .declining conn })
    | _ => none
  | .probeFails p executed ends =>
    match (w.leaders p).phase with
    | .probing conn =>
      -- the answer is lost, and the connection with it: nothing closes it
      if executed ∧ w.sessions (p, conn) ≠ .out then none
      else some (((if executed then w.tryLock (p, conn) else w).afterFailure (p, conn) ends).setLeader p
        { w.leaders p with phase := .idle })
    | _ => none
  | .release p => if (w.leaders p).phase = .idle then some (release w p) else none
  | .unlock p =>
    match (w.leaders p).phase with
    | .unlocking conn =>
      if w.sessions (p, conn) ≠ .out then none
      else some ((w.unlock (p, conn)).setLeader p { w.leaders p with phase := .closing conn })
    | _ => none
  | .unlockFails p executed ends =>
    match (w.leaders p).phase with
    | .unlocking conn =>
      if executed ∧ w.sessions (p, conn) ≠ .out then none
      else some (((if executed then w.unlock (p, conn) else w).afterFailure (p, conn) ends).setLeader p
        { w.leaders p with phase := .closing conn })
    | _ => none
  | .close p ends =>
    match (w.leaders p).phase with
    | .declining conn | .closing conn =>
      some ((checkIn w (p, conn) ends).setLeader p { w.leaders p with phase := .idle })
    | _ => none
  | .closeFails p ends =>
    match (w.leaders p).phase with
    | .declining conn | .closing conn =>
      some ((w.afterFailure (p, conn) ends).setLeader p { w.leaders p with phase := .idle })
    | _ => none
  | .renew p => if (w.leaders p).phase = .idle then some (renew w p) else none
  | .renewProbe p =>
    match (w.leaders p).phase with
    | .renewing conn =>
      if w.sessions (p, conn) ≠ .out then none
      else if (w.lock.map (·.1)) = some (p, conn) then some (w.setLeader p { w.leaders p with phase := .idle })
      else some (w.setLeader p {})
    | _ => none
  | .renewFails p ends =>
    match (w.leaders p).phase with
    | .renewing conn =>
      -- `_conn = None`: neither unlocked nor closed
      some ((w.afterFailure (p, conn) ends).setLeader p {})
    | _ => none
  | .gateAcquire p =>
    if (w.leaders p).phase ≠ .idle then none
    else if !enabled then some w
    else if (w.leaders p).held then some (renew w p)
    else some (tryAcquire backend w p)
  | .drop p conn => if w.sessions (p, conn) = .unused then none else some (w.endSession (p, conn))

/-! ## what is to hold -/

def Leads (w : World) (p : Nat) : Prop := (w.leaders p).held = true ∧ ∃ conn, w.holds (p, conn)

def Stands (w : World) (p : Nat) : Prop := (w.leaders p).phase = .idle ∧ (w.leaders p).held = false

structure Kept (w : World) : Prop where
  one : ∀ p q, Leads w p → Leads w q → p = q
  freed : ∀ p, Stands w p → ∀ conn, ¬ w.holds (p, conn)
  next : backend = .postgresql → (∀ p, Stands w p) → ∀ q conn,
    w.sessions (q, conn) = .unused ∨ w.sessions (q, conn) = .pooled →
    ∃ w', exec (step backend enabled) w [.tryAcquire q, .connected q conn, .probe q] = some w' ∧ Leads w' q

def Clean (w : World) : Act → Prop
  | .probeFails p executed ends => ∀ conn, (w.leaders p).phase = .probing conn → executed = true →
      w.grants (p, conn) = true → ends = true
  | .renewFails p ends => ∀ conn, (w.leaders p).phase = .renewing conn → w.holds (p, conn) → ends = true
  | .close p ends | .closeFails p ends => ∀ conn, (w.leaders p).phase = .closing conn → w.holds (p, conn) → ends = true
  | _ => True

end

theorem setLeader_self (w : World) (p : Nat) (leader : AdvisoryLeader) : (w.setLeader p leader).leaders p = leader := by
  unfold World.setLeader
  simp

/-! ## the lock under the operations of the server -/

section
variable {w : World} {s s' : Nat × Nat} {n : Nat}

theorem grants_of_free (h : w.lock = none) (s : Nat × Nat) : w.grants s = true := by
  unfold World.grants
  rw [h]

theorem free_of_grants (h : w.grants s = true) (hs : ¬ w.holds s) : w.lock = none := by
  unfold World.grants at h
  split at h
  · assumption
  · next holder m hlock =>
    rw [of_decide_eq_true h] at hlock
    exact absurd ⟨m, hlock⟩ hs

theorem tryLock_of_grants (h : w.grants s = true) : (w.tryLock s).holds s := by
  unfold World.grants at h
  unfold World.tryLock
  split
  · exact ⟨1, rfl⟩
  · next holder m hlock =>
    rw [hlock] at h
    rw [if_pos (of_decide_eq_true h)]
    exact ⟨m + 1, rfl⟩

theorem tryLock_of_free (h : w.lock = none) : (w.tryLock s).lock = some (s, 1) := by
  unfold World.tryLock
  rw [h]

theorem tryLock_of_not_grants (h : ¬ w.grants s = true) : w.tryLock s = w := by
  unfold World.grants at h
  unfold World.tryLock
  split
  · next hlock =>
    rw [hlock] at h
    exact absurd rfl h
  · next holder m hlock =>
    rw [hlock] at h
    exact if_neg (fun heq => h (decide_eq_true heq))

theorem unlock_lock (h : (w.unlock s).lock = some (s', n)) :
    (s' = s ∧ 0 < n ∧ w.lock = some (s, n + 1)) ∨ (s' ≠ s ∧ w.lock = some (s', n)) := by
  unfold World.unlock at h
  split at h
  · next hnone =>
    rw [hnone] at h
    cases h
  · next holder m hlock =>
    split at h
    · next heq =>
      subst heq
      split at h
      · cases h
      · next hm =>
        cases h
        refine .inl ⟨rfl, by omega, hlock.trans ?_⟩
        rw [Nat.sub_add_cancel (by omega)]
    · next hne =>
      rw [hlock] at h
      cases h
      exact .inr ⟨hne, hlock⟩

theorem endSession_lock (h : (w.endSession s).lock = some (s', n)) : s' ≠ s ∧ w.lock = some (s', n) := by
  unfold World.endSession at h
  split at h
  · cases h
  · next holder m hlock =>
    split at h
    · cases h
    · next hne =>
      cases h
      exact ⟨hne, hlock⟩

theorem afterFailure_lock {ends : Bool} (h : (w.afterFailure s ends).lock = some (s', n)) :
    w.lock = some (s', n) ∧ (ends = true → s' ≠ s) := by
  cases ends with
  | true => exact ⟨(endSession_lock h).2, fun _ => (endSession_lock h).1⟩
  | false => exact ⟨h, fun hends => (by cases hends)⟩

theorem checkIn_lock {ends : Bool} (h : (checkIn w s ends).lock = some (s', n)) :
    w.lock = some (s', n) ∧ (ends = true → s' ≠ s) := by
  unfold checkIn at h
  cases ends with
  | true => exact ⟨(endSession_lock h).2, fun _ => (endSession_lock h).1⟩
  | false =>
    refine ⟨?_, fun hends => (by cases hends)⟩
    rw [if_neg Bool.false_ne_true] at h
    split at h
    · exact h
    · exact h

end

/-! ## the processes -/

def SoundIn (leader : AdvisoryLeader) : Phase → Prop
  | .idle => True
  | .renewing conn => leader.held = true ∧ leader.conn = some conn
  | _ => leader.held = false

def Sound (leader : AdvisoryLeader) : Prop := SoundIn leader leader.phase

def OwnsIn (leader : AdvisoryLeader) (conn : Nat) : Phase → Prop
  | .idle => leader.held = true ∧ leader.conn = some conn
  | .renewing conn' | .unlocking conn' | .closing conn' => conn' = conn
  | _ => False

def Owns (leader : AdvisoryLeader) (conn : Nat) : Prop := OwnsIn leader conn leader.phase

theorem Sound.at {leader : AdvisoryLeader} {phase : Phase} (h : Sound leader) (hphase : leader.phase = phase) :
    SoundIn leader phase :=
  hphase ▸ h

theorem Owns.at {leader : AdvisoryLeader} {conn : Nat} {phase : Phase} (h : Owns leader conn)
    (hphase : leader.phase = phase) : OwnsIn leader conn phase :=
  hphase ▸ h

section
variable {backend : Backend} {enabled : Bool} {w w' : World} {p : Nat} {leader : AdvisoryLeader}

structure Inv (w : World) : Prop where
  sound : ∀ p, Sound (w.leaders p)
  locked : ∀ p conn n, w.lock = some ((p, conn), n) → n = 1 ∧ Owns (w.leaders p) conn

theorem inv_set (h : Inv w) (hleaders : w'.leaders = Function.update w.leaders p leader) (hsound : Sound leader)
    (hlock : ∀ q conn n, w'.lock = some ((q, conn), n) → q ≠ p → w.lock = some ((q, conn), n))
    (hown : ∀ conn n, w'.lock = some ((p, conn), n) → n = 1 ∧ Owns leader conn) : Inv w' := by
  constructor
  case sound =>
    intro q
    rw [hleaders]
    by_cases heq : q = p
    · rw [heq, Function.update_self]
      exact hsound
    · rw [Function.update_of_ne heq]
      exact h.sound q
  case locked =>
    intro q conn n hq
    by_cases heq : q = p
    · subst heq
      rw [hleaders, Function.update_self]
      exact hown conn n hq
    · rw [hleaders, Function.update_of_ne heq]
      exact h.locked q conn n (hlock q conn n hq heq)

theorem inv_without (h : Inv w) (hphase : ∀ conn, ¬ Owns (w.leaders p) conn)
    (hleaders : w'.leaders = Function.update w.leaders p leader) (hsound : Sound leader)
    (hlock : ∀ s n, w'.lock = some (s, n) → w.lock = some (s, n)) : Inv w' :=
  inv_set h hleaders hsound (fun q conn n hq _ => hlock (q, conn) n hq)
    (fun conn n hp => absurd (h.locked p conn n (hlock (p, conn) n hp)).2 (hphase conn))

theorem leaders_afterFailure (w : World) (s : Nat × Nat) (ends : Bool) : (w.afterFailure s ends).leaders = w.leaders := by
  unfold World.afterFailure
  split <;> rfl

theorem leaders_checkIn (w : World) (s : Nat × Nat) (ends : Bool) : (checkIn w s ends).leaders = w.leaders := by
  unfold checkIn
  split
  · rfl
  · split <;> rfl

theorem leaders_tryLock (w : World) (s : Nat × Nat) : (w.tryLock s).leaders = w.leaders := by
  unfold World.tryLock
  split
  · rfl
  · split <;> rfl

theorem leaders_unlock (w : World) (s : Nat × Nat) : (w.unlock s).leaders = w.leaders := by
  unfold World.unlock
  split
  · rfl
  · split <;> rfl

theorem not_owns_idle (hphase : (w.leaders p).phase = .idle) (hheld : ¬ (w.leaders p).held = true) (conn : Nat) :
    ¬ Owns (w.leaders p) conn := fun h => hheld (h.at hphase).1

theorem inv_tryAcquire (h : Inv w) (hphase : (w.leaders p).phase = .idle) : Inv (tryAcquire backend w p) := by
  unfold tryAcquire
  split
  · exact h
  · next hheld =>
    have hnot := not_owns_idle hphase hheld
    cases backend with
    | absent => exact h
    | other =>
      refine inv_without h hnot rfl ?_ (fun _ _ hlock => hlock)
      show SoundIn _ (w.leaders p).phase
      rw [hphase]
      trivial
    | postgresql =>
      have hfalse : (w.leaders p).held = false := by rwa [Bool.not_eq_true] at hheld
      exact inv_without h hnot rfl hfalse (fun _ _ hlock => hlock)

theorem inv_release (h : Inv w) (hphase : (w.leaders p).phase = .idle) : Inv (release w p) := by
  unfold release
  split
  · split
    · next hconn =>
      refine inv_without h (fun conn hown => ?_) rfl trivial (fun _ _ hlock => hlock)
      cases hconn.symm.trans (hown.at hphase).2
    · next conn hconn =>
      refine inv_set h rfl rfl (fun _ _ _ hlock _ => hlock) (fun conn' n hlock => ?_)
      obtain ⟨hone, hown⟩ := h.locked p conn' n hlock
      exact ⟨hone, Option.some.inj (hconn.symm.trans (hown.at hphase).2)⟩
  · exact h

theorem inv_renew (h : Inv w) (hphase : (w.leaders p).phase = .idle) : Inv (renew w p) := by
  unfold renew
  split
  · next hheld =>
    split
    · exact h
    · next conn hconn =>
      refine inv_set h rfl ⟨hheld, hconn⟩ (fun _ _ _ hlock _ => hlock) (fun conn' n hlock => ?_)
      obtain ⟨hone, hown⟩ := h.locked p conn' n hlock
      exact ⟨hone, Option.some.inj (hconn.symm.trans (hown.at hphase).2)⟩
  · exact h

theorem inv_probe {c : Nat} (h : Inv w) (hphase : (w.leaders p).phase = .probing c) (hgrants : w.grants (p, c) = true) :
    Inv ((w.tryLock (p, c)).setLeader p { conn := some c, held := true, phase := .idle }) := by
  have hnot : ¬ w.holds (p, c) := by
    rintro ⟨n, hlock⟩
    exact (h.locked p c n hlock).2.at hphase
  have hlocked : (w.tryLock (p, c)).lock = some ((p, c), 1) := tryLock_of_free (free_of_grants hgrants hnot)
  refine inv_set h (congrArg (fun l => Function.update l p _) (leaders_tryLock w (p, c))) trivial
    (fun q conn n hlock hne => ?_) (fun conn n hlock => ?_)
  · obtain ⟨hs, -⟩ := Prod.mk.inj (Option.some.inj (hlocked.symm.trans hlock))
    exact absurd (Prod.mk.inj hs).1.symm hne
  · obtain ⟨hs, rfl⟩ := Prod.mk.inj (Option.some.inj (hlocked.symm.trans hlock))
    exact ⟨rfl, rfl, congrArg some (Prod.mk.inj hs).2⟩

theorem inv_probeFails {c : Nat} {executed ends : Bool} (h : Inv w) (hphase : (w.leaders p).phase = .probing c)
    (hclean : executed = true → w.grants (p, c) = true → ends = true) :
    Inv (((if executed then w.tryLock (p, c) else w).afterFailure (p, c) ends).setLeader p
      { w.leaders p with phase := .idle }) := by
  have hnot : ∀ conn, ¬ Owns (w.leaders p) conn := fun _ hown => hown.at hphase
  refine inv_without h hnot (congrArg (fun l => Function.update l p _) ?_) trivial (fun s n hlock => ?_)
  · rw [leaders_afterFailure]
    split
    · exact leaders_tryLock w (p, c)
    · rfl
  · obtain ⟨hbefore, hends⟩ := afterFailure_lock hlock
    by_cases hexec : executed = true
    · rw [if_pos hexec] at hbefore
      by_cases hgrants : w.grants (p, c) = true
      · have hfree : w.lock = none := free_of_grants hgrants
          (fun ⟨m, hm⟩ => hnot c (h.locked p c m hm).2)
        rw [tryLock_of_free hfree] at hbefore
        cases hbefore
        exact absurd rfl (hends (hclean hexec hgrants))
      · rwa [tryLock_of_not_grants hgrants] at hbefore
    · rwa [if_neg hexec] at hbefore

theorem locked_unlock {c : Nat} {executed : Bool} (h : Inv w) (hphase : (w.leaders p).phase = .unlocking c) {q conn n : Nat}
    (hlock : (if executed then w.unlock (p, c) else w).lock = some ((q, conn), n)) :
    w.lock = some ((q, conn), n) ∧ (q = p → c = conn) := by
  have hmine : ∀ n, w.lock = some ((p, conn), n) → n = 1 ∧ c = conn := by
    intro n hw
    obtain ⟨hone, hown⟩ := h.locked p conn n hw
    exact ⟨hone, hown.at hphase⟩
  by_cases hexec : executed = true
  · rw [if_pos hexec] at hlock
    rcases unlock_lock hlock with ⟨heq, hpos, hw⟩ | ⟨-, hw⟩
    · obtain ⟨rfl, rfl⟩ := Prod.mk.inj heq
      have := (hmine (n + 1) hw).1
      omega
    · refine ⟨hw, ?_⟩
      rintro rfl
      exact (hmine n hw).2
  · rw [if_neg hexec] at hlock
    refine ⟨hlock, ?_⟩
    rintro rfl
    exact (hmine n hlock).2

theorem inv_unlock {c : Nat} {executed ends : Bool} (h : Inv w) (hphase : (w.leaders p).phase = .unlocking c) :
    Inv (((if executed then w.unlock (p, c) else w).afterFailure (p, c) ends).setLeader p
      { w.leaders p with phase := .closing c }) := by
  have hheld : (w.leaders p).held = false := (h.sound p).at hphase
  refine inv_set h (congrArg (fun l => Function.update l p _) ?_) hheld (fun q conn n hlock _ => ?_) (fun conn n hlock => ?_)
  · rw [leaders_afterFailure]
    split
    · exact leaders_unlock w (p, c)
    · rfl
  · exact (locked_unlock h hphase (afterFailure_lock hlock).1).1
  · obtain ⟨hw, hmine⟩ := locked_unlock h hphase (afterFailure_lock hlock).1
    exact ⟨(h.locked p conn n hw).1, hmine rfl⟩

theorem inv_letGo {c : Nat} {ends : Bool} {w₁ : World} (h : Inv w) (hleaders : w₁.leaders = w.leaders)
    (hlock : ∀ s n, w₁.lock = some (s, n) → w.lock = some (s, n) ∧ (ends = true → s ≠ (p, c)))
    (hown : ∀ conn, Owns (w.leaders p) conn → conn = c) (hclean : w.holds (p, c) → ends = true)
    (hsound : Sound leader) : Inv (w₁.setLeader p leader) := by
  refine inv_set h (congrArg (fun l => Function.update l p _) hleaders) hsound
    (fun q conn n hq _ => (hlock (q, conn) n hq).1) (fun conn n hp => ?_)
  obtain ⟨hw, hends⟩ := hlock (p, conn) n hp
  obtain rfl := hown conn (h.locked p conn n hw).2
  exact absurd rfl (hends (hclean ⟨n, hw⟩))

theorem owns_closing {c : Nat} (hphase : (w.leaders p).phase = .closing c) (conn : Nat) (h : Owns (w.leaders p) conn) :
    conn = c :=
  (h.at hphase).symm

theorem owns_renewing {c : Nat} (hphase : (w.leaders p).phase = .renewing c) (conn : Nat) (h : Owns (w.leaders p) conn) :
    conn = c :=
  (h.at hphase).symm

theorem owns_declining {c : Nat} (hphase : (w.leaders p).phase = .declining c) (conn : Nat) : ¬ Owns (w.leaders p) conn :=
  fun h => h.at hphase

theorem inv_step {a : Act} (h : Inv w) (hclean : Clean w a) (hstep : step backend enabled w a = some w') : Inv w' := by
  cases a with
  | tryAcquire p =>
    simp only [step] at hstep
    split at hstep
    · next hphase =>
      cases hstep
      exact inv_tryAcquire h hphase
    · cases hstep
  | connected p conn =>
    simp only [step] at hstep
    split at hstep
    · next hopen =>
      cases hstep
      have hheld : (w.leaders p).held = false := (h.sound p).at hopen.1
      refine inv_without h (fun _ hown => hown.at hopen.1) rfl hheld (fun _ _ hlock => hlock)
    · cases hstep
  | connectFails p =>
    simp only [step] at hstep
    split at hstep
    · next hphase =>
      cases hstep
      refine inv_without h (fun _ hown => hown.at hphase) rfl trivial (fun _ _ hlock => hlock)
    · cases hstep
  | probe p =>
    cases hphase : (w.leaders p).phase with
    | probing c =>
      simp only [step, hphase] at hstep
      split at hstep
      · cases hstep
      split at hstep
      · next hgrants =>
        cases hstep
        exact inv_probe h hphase hgrants
      · cases hstep
        have hheld : (w.leaders p).held = false := (h.sound p).at hphase
        refine inv_without h (fun _ hown => hown.at hphase) rfl hheld (fun _ _ hlock => hlock)
    | _ => simp [step, hphase] at hstep
  | probeFails p executed ends =>
    cases hphase : (w.leaders p).phase with
    | probing c =>
      simp only [step, hphase] at hstep
      split at hstep
      · cases hstep
      cases hstep
      exact inv_probeFails h hphase (hclean c hphase)
    | _ => simp [step, hphase] at hstep
  | release p =>
    simp only [step] at hstep
    split at hstep
    · next hphase =>
      cases hstep
      exact inv_release h hphase
    · cases hstep
  | unlock p =>
    cases hphase : (w.leaders p).phase with
    | unlocking c =>
      simp only [step, hphase] at hstep
      split at hstep
      · cases hstep
      cases hstep
      show Inv (((if true = true then w.unlock (p, c) else w).afterFailure (p, c) false).setLeader p _)
      exact inv_unlock h hphase
    | _ => simp [step, hphase] at hstep
  | unlockFails p executed ends =>
    cases hphase : (w.leaders p).phase with
    | unlocking c =>
      simp only [step, hphase] at hstep
      split at hstep
      · cases hstep
      cases hstep
      exact inv_unlock h hphase
    | _ => simp [step, hphase] at hstep
  | close p ends =>
    cases hphase : (w.leaders p).phase with
    | declining c =>
      simp only [step, hphase] at hstep
      cases hstep
      exact inv_without h (owns_declining hphase)
        (congrArg (fun l => Function.update l p _) (leaders_checkIn w (p, c) ends)) trivial
        (fun _ _ hlock => (checkIn_lock hlock).1)
    | closing c =>
      simp only [step, hphase] at hstep
      cases hstep
      exact inv_letGo h (leaders_checkIn w (p, c) ends) (fun _ _ hlock => checkIn_lock hlock) (owns_closing hphase)
        (hclean c hphase) trivial
    | _ => simp [step, hphase] at hstep
  | closeFails p ends =>
    cases hphase : (w.leaders p).phase with
    | declining c =>
      simp only [step, hphase] at hstep
      cases hstep
      exact inv_without h (owns_declining hphase)
        (congrArg (fun l => Function.update l p _) (leaders_afterFailure w (p, c) ends)) trivial
        (fun _ _ hlock => (afterFailure_lock hlock).1)
    | closing c =>
      simp only [step, hphase] at hstep
      cases hstep
      exact inv_letGo h (leaders_afterFailure w (p, c) ends) (fun _ _ hlock => afterFailure_lock hlock)
        (owns_closing hphase) (hclean c hphase) trivial
    | _ => simp [step, hphase] at hstep
  | renew p =>
    simp only [step] at hstep
    split at hstep
    · next hphase =>
      cases hstep
      exact inv_renew h hphase
    · cases hstep
  | renewProbe p =>
    cases hphase : (w.leaders p).phase with
    | renewing c =>
      have hsound : (w.leaders p).held = true ∧ (w.leaders p).conn = some c := (h.sound p).at hphase
      simp only [step, hphase] at hstep
      split at hstep
      · cases hstep
      split at hstep
      · cases hstep
        refine inv_set h rfl trivial (fun _ _ _ hlock _ => hlock) (fun conn n hlock => ?_)
        obtain ⟨hone, hown⟩ := h.locked p conn n hlock
        obtain rfl := owns_renewing hphase conn hown
        exact ⟨hone, hsound⟩
      · next hlost =>
        cases hstep
        refine inv_set h rfl trivial (fun _ _ _ hlock _ => hlock) (fun conn n hlock => ?_)
        obtain rfl := owns_renewing hphase conn (h.locked p conn n hlock).2
        exact absurd (congrArg (Option.map (·.1)) hlock) hlost
    | _ => simp [step, hphase] at hstep
  | renewFails p ends =>
    cases hphase : (w.leaders p).phase with
    | renewing c =>
      simp only [step, hphase] at hstep
      cases hstep
      exact inv_letGo h (leaders_afterFailure w (p, c) ends) (fun _ _ hlock => afterFailure_lock hlock)
        (owns_renewing hphase) (hclean c hphase) trivial
    | _ => simp [step, hphase] at hstep
  | gateAcquire p =>
    simp only [step] at hstep
    split at hstep
    · cases hstep
    next hidle =>
    have hphase : (w.leaders p).phase = .idle := not_not.1 hidle
    split at hstep
    · cases hstep
      exact h
    split at hstep
    · cases hstep
      exact inv_renew h hphase
    · cases hstep
      exact inv_tryAcquire h hphase
  | drop p conn =>
    simp only [step] at hstep
    split at hstep
    · cases hstep
    cases hstep
    exact ⟨h.sound, fun q c n hlock => h.locked q c n (endSession_lock hlock).2⟩

/-! ## what is kept -/

theorem leads_unique {q : Nat} (hp : Leads w p) (hq : Leads w q) : p = q := by
  obtain ⟨-, conn, n, hlock⟩ := hp
  obtain ⟨-, conn', n', hlock'⟩ := hq
  exact (Prod.mk.inj (Prod.mk.inj (Option.some.inj (hlock.symm.trans hlock'))).1).1

theorem freed_of_inv (h : Inv w) (hp : Stands w p) (conn : Nat) : ¬ w.holds (p, conn) := by
  rintro ⟨n, hlock⟩
  have hheld : (w.leaders p).held = true := ((h.locked p conn n hlock).2.at hp.1).1
  rw [hp.2] at hheld
  cases hheld

theorem probe_leads {c : Nat} (hphase : (w.leaders p).phase = .probing c) (hout : w.sessions (p, c) = .out)
    (hfree : w.lock = none) : ∃ w', step backend enabled w (.probe p) = some w' ∧ Leads w' p := by
  refine ⟨(w.tryLock (p, c)).setLeader p { conn := some c, held := true, phase := .idle }, ?_, ?_, c, 1, ?_⟩
  · simp only [step, hphase]
    rw [if_neg (not_not.2 hout), if_pos (grants_of_free hfree (p, c))]
  · rw [setLeader_self]
  · exact tryLock_of_free hfree

theorem next_leads (hbackend : backend = .postgresql) (hfree : w.lock = none) {q conn : Nat} (hq : Stands w q)
    (hs : w.sessions (q, conn) = .unused ∨ w.sessions (q, conn) = .pooled) :
    ∃ w', exec (step backend enabled) w [.tryAcquire q, .connected q conn, .probe q] = some w' ∧ Leads w' q := by
  subst hbackend
  obtain ⟨hphase, hheld⟩ := hq
  have hask : step .postgresql enabled w (.tryAcquire q) =
      some (w.setLeader q { w.leaders q with phase := .connecting }) := by
    simp [step, tryAcquire, hphase, hheld]
  have hconnect : step .postgresql enabled (w.setLeader q { w.leaders q with phase := .connecting }) (.connected q conn) =
      some (((w.setLeader q { w.leaders q with phase := .connecting }).setSession (q, conn) .out).setLeader q
        { w.leaders q with phase := .probing conn }) := by
    simp [step, World.setLeader, World.setSession, hs]
  have hprobing : ((((w.setLeader q { w.leaders q with phase := .connecting }).setSession (q, conn) .out).setLeader q
      { w.leaders q with phase := .probing conn }).leaders q).phase = .probing conn := by
    simp [World.setLeader]
  obtain ⟨w', hw', hleads⟩ : ∃ w', step .postgresql enabled _ (.probe q) = some w' ∧ Leads w' q :=
    probe_leads hprobing (by simp [World.setLeader, World.setSession]) hfree
  refine ⟨w', ?_, hleads⟩
  show (step .postgresql enabled w (.tryAcquire q)).bind _ = _
  rw [hask]
  show (step .postgresql enabled _ (.connected q conn)).bind _ = _
  rw [hconnect]
  show (step .postgresql enabled _ (.probe q)).bind _ = _
  rw [hw']
  rfl

theorem kept_of_inv (h : Inv w) : Kept backend enabled w := by
  constructor
  case one => exact fun p q hp hq => leads_unique hp hq
  case freed => exact fun p hp conn => freed_of_inv h hp conn
  case next =>
    intro hbackend hall q conn hs
    have hfree : w.lock = none := by
      cases hlock : w.lock with
      | none => rfl
      | some taken => exact absurd ⟨taken.2, hlock⟩ (freed_of_inv h (hall taken.1.1) taken.1.2)
    exact next_leads hbackend hfree (hall q) hs

theorem ends_of_freed {c : Nat} {ends : Bool} {w₁ : World} (h : Kept backend enabled (w₁.setLeader p leader))
    (hphase : leader.phase = .idle) (hheld : leader.held = false) (hholds : ends = false → w₁.holds (p, c)) :
    ends = true := by
  by_contra hends
  have hleader := setLeader_self w₁ p leader
  have hstands : Stands (w₁.setLeader p leader) p := by
    unfold Stands
    rw [hleader]
    exact ⟨hphase, hheld⟩
  exact h.freed p hstands c (hholds (Bool.not_eq_true _ ▸ hends))

theorem clean_of_kept {a : Act} (h : Inv w) (hstep : step backend enabled w a = some w')
    (hkept : Kept backend enabled w') : Clean w a := by
  cases a with
  | probeFails p executed ends =>
    intro c hphase hexec hgrants
    have hheld : (w.leaders p).held = false := (h.sound p).at hphase
    simp only [step, hphase] at hstep
    split at hstep
    · cases hstep
    cases hstep
    refine ends_of_freed hkept rfl hheld (c := c) (fun hends => ?_)
    subst hexec
    subst hends
    exact tryLock_of_grants hgrants
  | renewFails p ends =>
    intro c hphase hholds
    simp only [step, hphase] at hstep
    cases hstep
    refine ends_of_freed hkept rfl rfl (c := c) (fun hends => ?_)
    rw [hends]
    exact hholds
  | close p ends =>
    intro c hphase hholds
    have hheld : (w.leaders p).held = false := (h.sound p).at hphase
    simp only [step, hphase] at hstep
    cases hstep
    refine ends_of_freed hkept rfl hheld (c := c) (fun hends => ?_)
    rw [hends]
    unfold checkIn
    rw [if_neg Bool.false_ne_true]
    split
    · exact hholds
    · exact hholds
  | closeFails p ends =>
    intro c hphase hholds
    have hheld : (w.leaders p).held = false := (h.sound p).at hphase
    simp only [step, hphase] at hstep
    cases hstep
    refine ends_of_freed hkept rfl hheld (c := c) (fun hends => ?_)
    rw [hends]
    exact hholds
  | _ => trivial

end

theorem inv_start : Inv {} := ⟨fun _ => trivial, fun _ _ _ hlock => (by cases hlock)⟩

theorem inv_prefixes {backend : Backend} {enabled : Bool} {as : List Act}
    (hclean : ∀ pre a w w', pre ++ [a] <+: as → exec (step backend enabled) {} pre = some w → Inv w →
      step backend enabled w a = some w' → Clean w a) :
    ∀ pre w, pre <+: as → exec (step backend enabled) {} pre = some w → Inv w := by
  intro pre
  induction pre using List.reverseRecOn with
  | nil =>
    intro w _ hw
    cases hw
    exact inv_start
  | append_singleton pre a ih =>
    intro w' hpre hw'
    rw [Trace.exec_snoc] at hw'
    obtain ⟨w, hw, hstep⟩ := Option.bind_eq_some_iff.1 hw'
    have hinv := ih w ((List.prefix_append pre [a]).trans hpre) hw
    exact inv_step hinv (hclean pre a w w' hpre hw hinv hstep) hstep

/-- **One leader at most, and no lock without a leader, exactly when every step is clean**: what ends a leadership or fails
to begin one leaves no session behind that has the lock. -/
theorem leaders_kept_iff (backend : Backend) (enabled : Bool) (as : List Act) :
    (∀ pre w, pre <+: as → exec (step backend enabled) {} pre = some w → Kept backend enabled w) ↔
    ∀ pre a w w', pre ++ [a] <+: as → exec (step backend enabled) {} pre = some w →
      step backend enabled w a = some w' → Clean w a := by
  constructor
  · intro h
    have hkept : ∀ pre a w w', pre ++ [a] <+: as → exec (step backend enabled) {} pre = some w →
        step backend enabled w a = some w' → Kept backend enabled w' := by
      intro pre a w w' hpre hw hstep
      refine h (pre ++ [a]) w' hpre ?_
      rw [Trace.exec_snoc, hw]
      exact hstep
    have hinv := inv_prefixes (fun pre a w w' hpre hw hinv hstep =>
      clean_of_kept hinv hstep (hkept pre a w w' hpre hw hstep))
    intro pre a w w' hpre hw hstep
    exact clean_of_kept (hinv pre w ((List.prefix_append pre [a]).trans hpre) hw) hstep (hkept pre a w w' hpre hw hstep)
  · intro h pre w hpre hw
    exact kept_of_inv (inv_prefixes (fun pre a w w' hpre hw _ hstep => h pre a w w' hpre hw hstep) pre w hpre hw)

/-- A renewal that fails with its session alive leaves a lock without a leader, and so does an unlock that does not come
through: nobody else can lead. -/
theorem lock_without_leader :
    let led := [Act.tryAcquire 0, .connected 0 0, .probe 0]
    let asked := [Act.tryAcquire 1, .connected 1 0, .probe 1]
    let w := exec (step .postgresql true) {} (led ++ [.renew 0, .renewFails 0 false] ++ asked)
    let w' := exec (step .postgresql true) {} (led ++ [.release 0, .unlockFails 0 false false, .close 0 false] ++ asked)
    ((w.map (fun w => (w.lock, w.leaders 0, w.leaders 1)) = some (some ((0, 0), 1), {}, { phase := .declining 0 })) ∧
      w'.map (fun w => (w.lock, w.leaders 0, w.leaders 1)) = some (some ((0, 0), 1), {}, { phase := .declining 0 })) ∧
    ¬ ∀ backend enabled as pre w, pre <+: as → exec (step backend enabled) {} pre = some w → Kept backend enabled w := by
  intro led asked w w'
  refine ⟨⟨by decide, by decide⟩, fun h => ?_⟩
  obtain ⟨t, ht⟩ := Option.isSome_iff_exists.1
    (show (exec (step .postgresql true) {} (led ++ [.renew 0, .renewFails 0 false])).isSome = true by decide)
  have hfacts : (exec (step .postgresql true) {} (led ++ [.renew 0, .renewFails 0 false])).map
      (fun w => (w.lock, w.leaders 0)) = some (some ((0, 0), 1), {}) := by decide
  rw [ht] at hfacts
  obtain ⟨hlock, hleader⟩ := Prod.mk.inj (Option.some.inj hfacts)
  refine (h .postgresql true _ _ t (List.prefix_refl _) ht).freed 0 ?_ 0 ⟨1, hlock⟩
  unfold Stands
  rw [hleader]
  exact ⟨rfl, rfl⟩

end Leader
end MyGpt
