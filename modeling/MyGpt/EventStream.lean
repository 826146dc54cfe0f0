import MyGpt.RunDb
import MyGpt.Lib.Trace
import Mathlib.Data.List.Sort
/-!
# EventStream — the event log of a run and a subscriber that tails it

`EventStore.append_many` by any number of sessions, the commits that write the run's status, and `tail_run_events` from any
cursor.  Each poll of the subscriber reads the events and the status in two queries.
-/
namespace MyGpt
namespace Tail

open Run (RunEvent RunStatus EventKind)

/-! ## the log -/

/-- A row of `run_events`. -/
structure Row where
  sequence : Nat
  event : RunEvent
  deriving DecidableEq

/-- `coalesce(max(sequence), 0)`. -/
def maxSequence (rows : List Row) : Nat := (rows.map (·.sequence)).foldl max 0

def numbered (top : Nat) (batch : List RunEvent) : List Row := batch.mapIdx (fun i e => ⟨top + i + 1, e⟩)

/-- The unique constraint on `(run_id, sequence)`. -/
def taken (log rows : List Row) : Bool := rows.any (fun r => log.any (·.sequence == r.sequence))

def replay (log : List Row) (afterSequence : Int) : List Row :=
  (log.filter (fun r => afterSequence < r.sequence)).insertionSort (fun r r' => r.sequence ≤ r'.sequence)

/-- `_run_is_terminal`. -/
def isTerminal : Option RunStatus → Bool
  | none => true
  | some status => status.terminal

/-! ## the subscriber -/

inductive Phase
  | closed
  | polling
  | read (events : List Row)
  | sending (events rest : List Row) (terminal : Bool)
  | ended
  | disconnected
  deriving DecidableEq

structure State where
  log : List Row
  status : Option RunStatus
  staged : Nat → List Row
  endedAt : Option Nat
  cursor : Int
  lastSeq : Int
  alreadyTerminal : Bool
  phase : Phase
  frames : List Row
  seen : Nat

inductive Act
  /-- `append_many` in the session `a`; `append` is the batch of one. -/
  | appends (a : Nat) (batch : List RunEvent)
  | commits (a : Nat) (status : Option RunStatus)
  | rollsBack (a : Nat)
  | opens (cursor : Int)
  | readsEvents
  | readsStatus
  | sends
  | polls
  | disconnects

def State.commit (s : State) (a : Nat) (status : Option RunStatus) : State :=
  let log := s.log ++ s.staged a
  let written := s.status.map status.getD
  { s with
    log := log, status := written, staged := Function.update s.staged a []
    endedAt := if isTerminal written && !isTerminal s.status then some log.length else s.endedAt }

def step (s : State) : Act → Option State
  | .appends a batch =>
    let rows := numbered (maxSequence (s.log ++ s.staged a)) batch
    some { s with staged := Function.update s.staged a (s.staged a ++ rows) }
  | .commits a status =>
    if taken s.log (s.staged a) then some { s with staged := Function.update s.staged a [] } else some (s.commit a status)
  | .rollsBack a => some { s with staged := Function.update s.staged a [] }
  | .opens cursor =>
    match s.phase with
    | .closed =>
      some { s with cursor := cursor, lastSeq := cursor, alreadyTerminal := isTerminal s.status, phase := .polling }
    | _ => none
  | .readsEvents =>
    match s.phase with
    | .polling => some { s with phase := .read (replay s.log s.lastSeq), seen := s.log.length }
    | _ => none
  | .readsStatus =>
    match s.phase with
    | .read events => some { s with phase := .sending events events (isTerminal s.status) }
    | _ => none
  | .sends =>
    match s.phase with
    | .sending events (evt :: rest) terminal =>
      some { s with phase := .sending events rest terminal, frames := s.frames ++ [evt], lastSeq := evt.sequence }
    | _ => none
  | .polls =>
    match s.phase with
    | .sending events [] terminal =>
      let terminalSent := events.any (·.event.kind.terminal)
      if terminalSent || (s.alreadyTerminal && events.isEmpty) then some { s with phase := .ended }
      else if terminal && events.isEmpty then some { s with phase := .ended }
      else some { s with phase := .polling }
    | _ => none
  | .disconnects =>
    match s.phase with
    | .closed => none
    | .ended => none
    | _ => some { s with phase := .disconnected }

def State.start : State := ⟨[], some .pending, fun _ => [], none, 0, 0, false, .closed, [], 0⟩

/-- **What a step does.** -/
inductive Move (s : State) : Act → State → Prop
  | staged {act : Act} {a : Nat} {rows : List Row} :
      rows = [] ∨ (∃ batch, rows = s.staged a ++ numbered (maxSequence (s.log ++ s.staged a)) batch) →
      Move s act { s with staged := Function.update s.staged a rows }
  | committed {a : Nat} {status : Option RunStatus} : taken s.log (s.staged a) = false →
      Move s (.commits a status) (s.commit a status)
  | opened {cursor : Int} : s.phase = .closed →
      Move s (.opens cursor)
        { s with cursor := cursor, lastSeq := cursor, alreadyTerminal := isTerminal s.status, phase := .polling }
  | read : s.phase = .polling →
      Move s .readsEvents { s with phase := .read (replay s.log s.lastSeq), seen := s.log.length }
  | probed {events : List Row} : s.phase = .read events →
      Move s .readsStatus { s with phase := .sending events events (isTerminal s.status) }
  | sent {events rest : List Row} {evt : Row} {terminal : Bool} : s.phase = .sending events (evt :: rest) terminal →
      Move s .sends { s with phase := .sending events rest terminal, frames := s.frames ++ [evt], lastSeq := evt.sequence }
  | ended {events : List Row} {terminal : Bool} : s.phase = .sending events [] terminal →
      (∃ r ∈ events, r.event.kind.terminal = true) ∨ (events = [] ∧ (s.alreadyTerminal = true ∨ terminal = true)) →
      Move s .polls { s with phase := .ended }
  | again {events : List Row} {terminal : Bool} : s.phase = .sending events [] terminal →
      Move s .polls { s with phase := .polling }
  | gone : s.phase ≠ .closed → s.phase ≠ .ended → Move s .disconnects { s with phase := .disconnected }

theorem step_move {s s' : State} {act : Act} (h : step s act = some s') : Move s act s' := by
  unfold step at h
  cases act with
  | appends a batch =>
    cases h
    exact .staged (.inr ⟨batch, rfl⟩)
  | commits a status =>
    dsimp only at h
    split at h
    next =>
      cases h
      exact .staged (.inl rfl)
    next hfree =>
      cases h
      exact .committed (Bool.eq_false_iff.2 hfree)
  | rollsBack a =>
    cases h
    exact .staged (.inl rfl)
  | opens cursor =>
    dsimp only at h
    split at h
    next hphase =>
      cases h
      exact .opened hphase
    next => cases h
  | readsEvents =>
    dsimp only at h
    split at h
    next hphase =>
      cases h
      exact .read hphase
    next => cases h
  | readsStatus =>
    dsimp only at h
    split at h
    next events hphase =>
      cases h
      exact .probed hphase
    next => cases h
  | sends =>
    dsimp only at h
    split at h
    next events evt rest terminal hphase =>
      cases h
      exact .sent hphase
    next => cases h
  | polls =>
    dsimp only at h
    split at h
    next events terminal hphase =>
      split at h
      next hsent =>
        cases h
        refine .ended hphase ?_
        simp only [Bool.or_eq_true, Bool.and_eq_true, List.any_eq_true, List.isEmpty_iff] at hsent
        exact hsent.imp id (fun hboth => ⟨hboth.2, .inl hboth.1⟩)
      next =>
        split at h
        next hover =>
          cases h
          simp only [Bool.and_eq_true, List.isEmpty_iff] at hover
          exact .ended hphase (.inr ⟨hover.2, .inr hover.1⟩)
        next =>
          cases h
          exact .again hphase
    next => cases h
  | disconnects =>
    dsimp only at h
    split at h
    next => cases h
    next => cases h
    next hopen hrunning =>
      cases h
      exact .gone hopen hrunning

end Tail
end MyGpt
