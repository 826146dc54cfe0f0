import MyGpt.RunControls
import Mathlib.Data.List.Sort
import Mathlib.Data.Prod.Lex
/-!
# CommandDrain — the table of durable commands and the drains of one run

`CommandStore` and `drain_durable_commands` in any number of workers.  A drain claims, applies and marks in one transaction:
the claim's UPDATE waits for the rows that another drain has locked, the effect is on the `RunControl` in memory, and what
the transaction wrote is gone when it does not commit.  The live signal of an endpoint is not a drain's.
-/
namespace MyGpt
namespace Commands

open Chat (Text strip)
open Control (RunControl)

/-- `command_type` with its payload. -/
inductive CommandType
  /-- `pause`, `resume`, `cancel` or `instruction`. -/
  | control (command : Control.Command)
  | gate (enabled : Bool)
  /-- `approve` or `reject`, which the approval bus consumes. -/
  | approval
  deriving DecidableEq

/-- The `RunControl` with the flag that `gate` sets. -/
structure Controls extends RunControl where
  gateRequested : Bool

def Controls.apply (ctl : Controls) : CommandType → Controls
  | .control command => { ctl with toRunControl := ctl.toRunControl.applyRow command }
  | .gate enabled => { ctl with gateRequested := enabled }
  | .approval => ctl

def CommandType.effective : CommandType → Bool
  | .control (.instruct text) => strip text ≠ []
  | .control _ => true
  | .gate _ => true
  | .approval => false

/-- What is committed of a row's status; `claimed` is seen by its own drain only. -/
inductive Status
  | pending | applied
  deriving DecidableEq

/-- A row of `run_commands`. -/
structure Row where
  seq : Nat
  command : CommandType
  /-- `(created_at, id)`. -/
  rank : Int ×ₗ Nat
  status : Status
  lock : Option Nat
  deriving DecidableEq

/-- A call of `drain_durable_commands`. -/
inductive Drain
  | idle
  | active (worker : Nat) (todo : List Row) (marked : List Nat)
  | done

structure State where
  rows : List Row
  controls : Nat → Controls
  drains : Nat → Drain
  effects : List Nat

def State.start : State := ⟨[], fun _ => ⟨⟨false, false, []⟩, false⟩, fun _ => .idle, []⟩

inductive Act
  | enqueues (command : CommandType) (createdAt : Int) (id : Nat)
  /-- The claim of the drain `d`, which sees the first `n` commands. -/
  | claims (d worker n : Nat)
  | applies (d : Nat)
  | commits (d : Nat)
  | breaks (d : Nat)
  | drainInstructions (worker : Nat)

def Row.claimable (row : Row) (n : Nat) : Bool := row.seq < n && row.status = .pending

def State.setDrain (s : State) (d : Nat) (drain : Drain) : State := { s with drains := Function.update s.drains d drain }

/-- `claim_pending`, when none of its rows is locked. -/
def State.claim (s : State) (d worker n : Nat) : State :=
  let claimed := s.rows.filter (·.claimable n)
  let locked : State := { s with
    rows := s.rows.map (fun row => if row.claimable n then { row with lock := some d } else row) }
  locked.setDrain d (.active worker (claimed.insertionSort (fun row row' => row.rank ≤ row'.rank)) [])

def State.unlock (s : State) (d : Nat) (f : Row → Row) : State :=
  let ended : State := { s with
    rows := s.rows.map (fun row => if row.lock = some d then { f row with lock := none } else row) }
  ended.setDrain d .done

def step (s : State) : Act → Option State
  | .enqueues command createdAt id =>
    some { s with rows := s.rows ++ [⟨s.rows.length, command, toLex (createdAt, id), .pending, none⟩] }
  | .claims d worker n =>
    match s.drains d with
    | .idle => if s.rows.any (fun row => row.claimable n && row.lock.isSome) then none else some (s.claim d worker n)
    | _ => none
  | .applies d =>
    match s.drains d with
    | .active worker (row :: todo) marked =>
      match row.command with
      | .approval => some (s.setDrain d (.active worker todo marked))
      | command =>
        let applied : State := { s with
          controls := Function.update s.controls worker ((s.controls worker).apply command)
          effects := if command.effective then s.effects ++ [row.seq] else s.effects }
        some (applied.setDrain d (.active worker todo (row.seq :: marked)))
    | _ => none
  | .commits d =>
    match s.drains d with
    | .active _ [] marked =>
      some (s.unlock d (fun row => { row with status := if row.seq ∈ marked then .applied else row.status }))
    | _ => none
  | .breaks d =>
    match s.drains d with
    | .active _ _ _ => some (s.unlock d id)
    | _ => none
  | .drainInstructions worker =>
    some { s with controls := Function.update s.controls worker { s.controls worker with instructions := [] } }

end Commands
end MyGpt
