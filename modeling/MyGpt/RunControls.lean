import MyGpt.Continuation
import MyGpt.Lib.Trace
import Mathlib.Logic.Function.Basic
/-!
# RunControls — how a pause, a resume, a cancel or an instruction reaches a run

An endpoint commits a row of `run_commands`, then changes the `RunControl` of its own process when it holds one, then
answers.  The native runtime and the streaming writer only look at the control; `respect_controls`, which the walker and
the engine call before a stage, also drains the table.  An instruction that a runtime has taken waits for the next prompt.
-/
namespace MyGpt
namespace Control

open Chat (Text strip)

/-! ## commands and the control -/

inductive Command
  | pause | resume | cancel | instruct (text : Text)
  deriving DecidableEq

structure RunControl where
  paused : Bool
  cancel : Bool
  instructions : List Text
  deriving DecidableEq

def RunControl.addInstruction (ctl : RunControl) (text : Text) : RunControl :=
  if text ≠ [] ∧ text ∉ ctl.instructions then { ctl with instructions := ctl.instructions ++ [text] } else ctl

def RunControl.signal (ctl : RunControl) : Command → RunControl
  | .pause => { ctl with paused := true }
  | .resume => { ctl with paused := false }
  | .cancel => { ctl with cancel := true }
  | .instruct text => ctl.addInstruction text

/-- What `drain_durable_commands` does to it for a row. -/
def RunControl.applyRow (ctl : RunControl) : Command → RunControl
  | .instruct text => ctl.addInstruction (strip text)
  | command => ctl.signal command

inductive Request
  | idle
  | loaded (command : Command)
  | committed (command : Command)
  | signalled (command : Command)
  | answered (command : Command)
  | refused
  | broken (command : Command)
  deriving DecidableEq

def Request.sent : Request → Option Command
  | .committed command | .signalled command | .answered command | .broken command => some command
  | _ => none

/-! ## the runtimes -/

inductive Outcome
  | completed | cancelled | failed
  deriving DecidableEq

inductive NativePhase
  | round | admitted | streaming | paused | followUp
  deriving DecidableEq

inductive Writer
  | off | streaming | paused | stopped
  deriving DecidableEq

/-- The walker and the engine: the stages that each boundary still to come opens, the boundaries inside
`respect_controls` (after its cancel check, or in its pause loop), and the stages opened and executing. -/
structure Stages where
  engine : Bool
  plan : List Nat
  checked : List Nat
  held : List Nat
  tickets : Nat
  running : Nat
  writer : Writer
  cancelling : Bool
  deriving DecidableEq

def Stages.start (engine : Bool) (plan : List Nat) : Stages := ⟨engine, plan, [], [], 0, 0, .off, false⟩

def Stages.atRest (st : Stages) : Bool := st.checked = [] ∧ st.held = [] ∧ st.tickets = 0 ∧ st.running = 0

def Stages.alone (st : Stages) : Bool :=
  st.engine = false ∧ st.checked = [] ∧ st.held = [] ∧ st.tickets = 1 ∧ st.running = 0

inductive Phase
  | queued
  | native (p : NativePhase)
  | stages (st : Stages)
  | finished (outcome : Outcome)
  deriving DecidableEq

def Phase.isFinished : Phase → Bool
  | .finished _ => true
  | _ => false

inductive Site
  | round | followUp | delta | nativePoll | check | drain | stagePoll | writerDelta | writerPoll
  deriving DecidableEq

/-- The commands that a place is the control boundary for.  `respect_controls` looks for a cancel first and for the rest
after its drain; a pause loop waits for what ends a pause. -/
def Site.answers : Site → Command → Bool
  | .round, _ | .followUp, _ | .delta, _ | .writerDelta, _ => true
  | .check, command => command = .cancel
  | .drain, command => command ≠ .cancel
  | .nativePoll, .instruct _ | .stagePoll, .instruct _ | .writerPoll, .instruct _ => false
  | .nativePoll, _ | .stagePoll, _ | .writerPoll, _ => true

/-- The commands that the code there acts on.  The pause loop of `respect_controls` ends on a cancel, and its stage then
goes on. -/
def Site.takes : Site → Command → Bool
  | .round, command | .followUp, command | .check, command => command = .cancel
  | .delta, _ => true
  | .drain, command => command ≠ .cancel
  | .stagePoll, command => command = .pause ∨ command = .resume
  | .nativePoll, .instruct _ | .writerDelta, .instruct _ | .writerPoll, .instruct _ => false
  | .nativePoll, _ | .writerDelta, _ | .writerPoll, _ => true

/-! ## the world -/

/-- What happened to the command of each request: whether it was put on the control, whether it was answered ok while the
run was not finished, whether a boundary took it, whether a prompt had it, whether a boundary left it, whether a boundary
came while it was a committed cancel, and whether a dispatch followed one. -/
structure Record where
  seen : Nat → Bool
  accepted : Nat → Bool
  observed : Nat → Bool
  prompted : Nat → Bool
  missed : Nat → Bool
  warned : Nat → Bool
  stray : Nat → Bool

structure World where
  phase : Phase
  ctl : RunControl
  registered : Bool
  queued : List (Nat × Command)
  requests : Nat → Request
  carried : List Text
  cancelledRow : Bool
  record : Record

def World.start : World :=
  ⟨.queued, ⟨false, false, []⟩, false, [], fun _ => .idle, [], false,
    ⟨fun _ => false, fun _ => false, fun _ => false, fun _ => false, fun _ => false, fun _ => false, fun _ => false⟩⟩

def World.sent (s : World) (k : Nat) : Option Command := (s.requests k).sent

def World.meet (s : World) (site : Site) (ended : Bool) : World :=
  { s with record := { s.record with
      observed := fun k => s.record.observed k || s.record.seen k && (s.sent k).any site.takes
      missed := fun k => s.record.missed k || !ended && s.record.accepted k && !s.record.observed k &&
        (s.sent k).any site.answers && !(s.record.seen k && (s.sent k).any site.takes)
      warned := fun k => s.record.warned k || site.answers .cancel && s.sent k == some .cancel } }

def carries (line text : Text) : Bool := line = text ∨ line = strip text

def World.dispatch (s : World) (kept : List Text) : World :=
  { s with
    carried := []
    record := { s.record with
      prompted := fun k => s.record.prompted k || match s.sent k with
        | some (.instruct text) => s.carried.any (fun line => kept.contains line && carries line text)
        | _ => false
      stray := fun k => s.record.stray k || s.record.warned k } }

def World.redispatch (s : World) : World :=
  { s with record := { s.record with stray := fun k => s.record.stray k || s.record.warned k } }

def World.finish (s : World) (outcome : Outcome) : World := { s with phase := .finished outcome, registered := false }

/-- `drain_instructions`, into what waits for the next prompt. -/
def World.drainInstructions (s : World) : World :=
  { s with ctl := { s.ctl with instructions := [] }, carried := s.carried ++ s.ctl.instructions }

def World.claimed (s : World) (ok : Bool) (n : Nat) : List (Nat × Command) := if ok then s.queued else s.queued.take n

/-- `drain_durable_commands`.  When it fails after some rows, these are on the control and all rows stay pending. -/
def World.drainDurable (s : World) (ok : Bool) (n : Nat) : World :=
  { s with
    ctl := (s.claimed ok n).foldl (fun ctl row => ctl.applyRow row.2) s.ctl
    queued := if ok then [] else s.queued
    record := { s.record with
      seen := fun k => s.record.seen k || (s.claimed ok n).any (fun row => row.1 == k) } }

/-! ## the native runtime -/

inductive NativeAct
  | round | dispatch (kept : List Text) | redispatch | delta | poll | tools | stop | length (again : Bool) | followUp
  | abort (outcome : Outcome)
  deriving DecidableEq

def World.nativeSite (s : World) (site : Site) (next : World) : World :=
  if s.ctl.cancel then (s.meet site true).finish .cancelled else next.meet site false

def nativeStep (s : World) (p : NativePhase) : NativeAct → Option World
  | .round => if p = .round then some (s.nativeSite .round { s with phase := .native .admitted }) else none
  | .dispatch kept => if p = .admitted then some { s.dispatch kept with phase := .native .streaming } else none
  | .redispatch => if p = .streaming then some s.redispatch else none
  | .delta =>
    if p = .streaming then
      some (s.nativeSite .delta
        { s.drainInstructions with phase := .native (if s.ctl.paused then .paused else .streaming) })
    else none
  | .poll =>
    if p = .paused then
      some (s.nativeSite .nativePoll { s with phase := .native (if s.ctl.paused then .paused else .streaming) })
    else none
  | .tools => if p = .streaming then some { s with phase := .native .round } else none
  | .stop => if p = .streaming then some (s.finish .completed) else none
  | .length again =>
    if p = .streaming then
      some (s.nativeSite .followUp (if again then { s with phase := .native .followUp } else s.finish .completed))
    else none
  | .followUp => if p = .followUp then some (s.nativeSite .followUp { s with phase := .native .round }) else none
  | .abort outcome => if outcome ≠ .completed then some (s.finish outcome) else none

/-! ## the walker and the engine -/

inductive StageAct
  | check | drain (ok : Bool) (n : Nat) | poll | dispatch (kept : List Text) (writer : Bool) | retry (kept : List Text)
  | redispatch | delta | writerPoll | followUp | endStage | verify | revise (steps : List Nat) | fallback (plan : List Nat)
  | settle | finish | abort (outcome : Outcome)
  deriving DecidableEq

def World.writerSite (s : World) (st : Stages) (site : Site) (next : Writer) : World :=
  { s.meet site s.ctl.cancel with phase := .stages { st with writer := if s.ctl.cancel then .stopped else next } }

def World.writerPause (s : World) : Writer := if s.ctl.paused then .paused else .streaming

def stageStep (s : World) (st : Stages) : StageAct → Option World
  | .check =>
    match st.plan with
    | [] => none
    | n :: rest =>
      -- the walker comes to a boundary when the stages before it are done
      if st.cancelling ∨ (st.engine = false ∧ st.atRest = false) then none
      else if s.ctl.cancel then
        if st.engine then some { s.meet .check true with phase := .stages { st with cancelling := true } }
        else some ((s.meet .check true).finish .cancelled)
      else some { s.meet .check false with phase := .stages { st with plan := rest, checked := st.checked ++ [n] } }
  | .drain ok n =>
    match st.checked with
    | [] => none
    | k :: rest =>
      let t := (s.drainDurable ok n).drainInstructions.meet .drain false
      if t.ctl.paused then some { t with phase := .stages { st with checked := rest, held := st.held ++ [k] } }
      else some { t with phase := .stages { st with checked := rest, tickets := st.tickets + k } }
  | .poll =>
    match st.held with
    | [] => none
    | k :: rest =>
      if s.ctl.paused ∧ s.ctl.cancel = false then some (s.meet .stagePoll false)
      else some { s.meet .stagePoll false with phase := .stages { st with held := rest, tickets := st.tickets + k } }
  | .dispatch kept writer =>
    if st.tickets = 0 ∨ (writer = true ∧ st.alone = false) then none
    else some { s.dispatch kept with phase := .stages { st with
      tickets := st.tickets - 1, running := st.running + 1, writer := if writer then .streaming else st.writer } }
  | .retry kept => if st.engine ∧ 0 < st.running then some (s.dispatch kept) else none
  | .redispatch =>
    if 0 < st.running ∧ (st.writer = .off ∨ st.writer = .streaming) then some s.redispatch else none
  | .delta => if st.writer = .streaming then some (s.writerSite st .writerDelta s.writerPause) else none
  | .writerPoll => if st.writer = .paused then some (s.writerSite st .writerPoll s.writerPause) else none
  | .followUp => if st.writer = .streaming then some (s.writerSite st .followUp .streaming) else none
  | .endStage =>
    if 0 < st.running ∧ st.writer ≠ .paused then
      some { s with phase := .stages { st with
        running := st.running - 1, writer := if st.writer = .stopped then .stopped else .off } }
    else none
  | .verify => if st.engine ∧ st.plan = [] ∧ st.atRest ∧ st.cancelling = false then some s.redispatch else none
  | .revise steps =>
    if st.engine ∧ st.plan = [] ∧ st.atRest ∧ st.cancelling = false then
      some { s with phase := .stages { st with plan := steps } }
    else none
  | .fallback plan =>
    -- a failed engine falls back to the walker, with a stage context of its own
    if st.engine ∧ st.cancelling = false then
      some { s with phase := .stages (.start false plan), carried := [] }
    else none
  | .settle => if st.cancelling then some (s.finish .cancelled) else none
  | .finish =>
    if st.plan = [] ∧ st.atRest ∧ st.cancelling = false then
      some (s.finish (if st.writer = .stopped then .cancelled else .completed))
    else none
  | .abort outcome => if outcome ≠ .completed then some (s.finish outcome) else none

/-! ## the endpoints -/

inductive RequestAct
  | load (command : Command) | commit (position : Nat) | signal | answer | die
  deriving DecidableEq

def World.setRequest (s : World) (k : Nat) (r : Request) : World :=
  { s with requests := Function.update s.requests k r }

def requestStep (served : Nat → Bool) (s : World) (k : Nat) : RequestAct → Option World
  | .load command =>
    if s.requests k = .idle then
      if command = .cancel ∧ (s.cancelledRow ∨ s.phase.isFinished) then some (s.setRequest k .refused)
      else some (s.setRequest k (.loaded command))
    else none
  | .commit position =>
    match s.requests k with
    | .loaded command =>
      -- rows are drained by the time of their transactions, which is not the order of the commits
      some { s.setRequest k (.committed command) with
        queued := s.queued.take position ++ (k, command) :: s.queued.drop position
        cancelledRow := s.cancelledRow || command == .cancel }
    | _ => none
  | .signal =>
    match s.requests k with
    | .committed command =>
      if served k ∧ s.registered then
        some { s.setRequest k (.signalled command) with
          ctl := s.ctl.signal command
          record := { s.record with seen := fun j => s.record.seen j || j == k } }
      else some (s.setRequest k (.signalled command))
    | _ => none
  | .answer =>
    match s.requests k with
    | .signalled command =>
      some { s.setRequest k (.answered command) with
        record := { s.record with accepted := fun j => s.record.accepted j || (j == k && !s.phase.isFinished) } }
    | _ => none
  | .die =>
    match s.requests k with
    | .loaded _ => some (s.setRequest k .refused)
    | .committed command | .signalled command => some (s.setRequest k (.broken command))
    | _ => none

inductive Act
  | startNative
  | startStages (engine : Bool) (plan : List Nat)
  | native (a : NativeAct)
  | stages (a : StageAct)
  | request (k : Nat) (a : RequestAct)
  deriving DecidableEq

/-- One step of the system; `served` tells which requests the executing process serves. -/
def step (served : Nat → Bool) (s : World) : Act → Option World
  | .startNative => if s.phase = .queued then some { s with phase := .native .round, registered := true } else none
  | .startStages engine plan =>
    if s.phase = .queued then some { s with phase := .stages (.start engine plan), registered := true } else none
  | .native a =>
    match s.phase with
    | .native p => nativeStep s p a
    | _ => none
  | .stages a =>
    match s.phase with
    | .stages st => stageStep s st a
    | _ => none
  | .request k a => requestStep served s k a

end Control
end MyGpt
