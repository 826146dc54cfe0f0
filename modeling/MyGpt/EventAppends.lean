import MyGpt.EventStream
/-!
# EventAppends — concurrent appenders to the event log of one run

`EventStore.append` and `append_many` in any number of sessions.  An append reads the maximum in one statement and inserts in
another; an insert waits while another session holds the sequence uncommitted, and fails when it is committed.
-/
namespace MyGpt
namespace Appends

open Run (RunEvent)
open Tail (Row maxSequence numbered taken)

structure Request where
  events : List RunEvent
  /-- `append_many`; otherwise `append`. -/
  many : Bool
  /-- Its caller logs an error and goes on: `append_event_safe`, `_emit`, `_persist_event`, `_persist_event_batch`. -/
  bestEffort : Bool

def maxSequenceAttempts : Nat := 3

structure Working where
  call : Nat
  attemptsLeft : Nat
  top : Option Nat
  deriving DecidableEq

inductive Status
  | idle
  | running (session : Nat)
  | flushed (session : Nat)
  | stored
  | failed
  deriving DecidableEq

structure Staged where
  session : Nat
  row : Row

structure State where
  log : List Row
  staged : List Staged
  working : Nat → Option Working
  status : Nat → Status
  flushed : Nat → List Nat
  stored : List Nat

def State.start : State := ⟨[], [], fun _ => none, fun _ => .idle, fun _ => [], []⟩

def State.stagedBy (s : State) (a : Nat) : List Row := (s.staged.filter (fun p => p.session = a)).map (·.row)

def State.heldByOthers (s : State) (a : Nat) : List Row := (s.staged.filter (fun p => p.session ≠ a)).map (·.row)

inductive Act
  | begins (a k : Nat)
  | reads (a : Nat)
  | inserts (a : Nat)
  | commits (a : Nat)
  | rollsBack (a : Nat)

def State.flush (s : State) (a k : Nat) (rows : List Row) : State :=
  { s with
    staged := s.staged ++ rows.map (fun row => ⟨a, row⟩)
    working := Function.update s.working a none
    status := Function.update s.status k (.flushed a)
    flushed := Function.update s.flushed a (s.flushed a ++ [k]) }

def State.commit (s : State) (a : Nat) : State :=
  { s with
    log := s.log ++ s.stagedBy a
    staged := s.staged.filter (fun p => p.session ≠ a)
    status := fun k => if s.status k = .flushed a then .stored else s.status k
    flushed := Function.update s.flushed a []
    stored := s.stored ++ s.flushed a }

def State.rollBack (s : State) (a : Nat) : State :=
  { s with
    staged := s.staged.filter (fun p => p.session ≠ a)
    working := Function.update s.working a none
    status := fun k => if s.status k = .flushed a ∨ s.status k = .running a then .failed else s.status k
    flushed := Function.update s.flushed a [] }

/-- The `IntegrityError`: `append` goes back to its SAVEPOINT and reads again, `append_many` loses its transaction. -/
def State.collide (s : State) (a : Nat) (many : Bool) (w : Working) : State :=
  if many then s.rollBack a
  else if 1 < w.attemptsLeft then { s with working := Function.update s.working a (some ⟨w.call, w.attemptsLeft - 1, none⟩) }
  else { s with
    working := Function.update s.working a none
    status := Function.update s.status w.call .failed }

def step (requests : Nat → Request) (s : State) : Act → Option State
  | .begins a k =>
    if s.working a = none ∧ s.status k = .idle then
      if (requests k).events = [] then some (s.flush a k [])
      else some { s with
        working := Function.update s.working a (some ⟨k, maxSequenceAttempts, none⟩)
        status := Function.update s.status k (.running a) }
    else none
  | .reads a =>
    match s.working a with
    | some ⟨k, left, none⟩ =>
      some { s with working := Function.update s.working a (some ⟨k, left, some (maxSequence (s.log ++ s.stagedBy a))⟩) }
    | _ => none
  | .inserts a =>
    match s.working a with
    | some ⟨k, left, some top⟩ =>
      let rows := numbered top (requests k).events
      if taken s.log rows then some (s.collide a (requests k).many ⟨k, left, some top⟩)
      else if taken (s.heldByOthers a) rows then none
      else some (s.flush a k rows)
    | _ => none
  | .commits a => if s.working a = none then some (s.commit a) else none
  | .rollsBack a => some (s.rollBack a)

end Appends
end MyGpt
