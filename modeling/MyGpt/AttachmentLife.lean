import MyGpt.Characters
import MyGpt.Lib.Trace
import Mathlib.Logic.Function.Basic
/-!
# AttachmentLife — one chat attachment

Its upload, any number of parses, deletions and sweeps, each suspended at its awaits, and what reads it: the list, the binding
to a message and the two texts for a prompt.  A session writes the columns that it has changed since it read the row.
-/
namespace MyGpt
namespace Attachment

open Chat (Text strip)

inductive Status
  | uploading | uploaded | parsing | ready | failed | deleted
  deriving DecidableEq

inductive ParseStatus
  | pending | parsing | ready | failed
  deriving DecidableEq

/-- A row of `chat_attachments`. -/
structure Row where
  status : Status
  parseStatus : ParseStatus
  extractedText : Option Text
  messageId : Option Nat
  isImage : Bool

def indexThresholdChars : Nat := 12000

def shouldIndex (text : Text) : Bool := indexThresholdChars < (strip text).length

/-- `(att.extracted_text or "").strip()` is not empty. -/
def Row.hasText (row : Row) : Bool := !(strip (row.extractedText.getD [])).isEmpty

/-- Where a task of `_parse_attachment_bg` is. -/
inductive Parse
  | idle
  | spawned
  /-- The row is read; `parsing` is to be committed. -/
  | loaded (status : Status) (parseStatus : ParseStatus)
  | opening
  | reading
  | failing
  /-- In `ensure_index`, before the old points are deleted and after it. -/
  | clearing (text : Text)
  | upserting (text : Text)
  | committing (text : Text)
  | done
  deriving DecidableEq

/-- Where a call of `delete` is. -/
inductive Delete
  | idle | loaded | unlinked | dropped | done
  deriving DecidableEq

inductive Sweep
  | idle
  | selected
  | requeued
  | done
  deriving DecidableEq

structure State where
  row : Option Row
  file : Bool
  points : Nat
  unspawned : Bool
  parses : Nat → Parse
  deletes : Nat → Delete
  sweeps : Nat → Sweep
  /-- A call of `delete` has returned. -/
  deleted : Bool
  listed : Bool
  prompted : Bool

def State.start : State :=
  ⟨none, false, 0, false, fun _ => .idle, fun _ => .idle, fun _ => .idle, false, false, false⟩

inductive Act
  | uploads (isImage : Bool)
  /-- The upload starts the parse `t`. -/
  | spawns (t : Nat)
  | loads (t : Nat)
  | commitsParsing (t : Nat)
  | opens (t : Nat)
  | extracts (t : Nat) (text : Option Text)
  | commitsFailed (t : Nat)
  | clears (t : Nat)
  | upserts (t : Nat)
  /-- `ensure_index` returns, having failed or not. -/
  | indexed (t : Nat)
  | commitsReady (t : Nat)
  | dies (t : Nat)
  | asks (d : Nat)
  | unlinks (d : Nat) (ok : Bool)
  | drops (d : Nat) (ok : Bool)
  | commitsDeleted (d : Nat)
  | abandons (d : Nat)
  | selects (w : Nat)
  | requeues (w : Nat)
  /-- The sweep starts the parse `t`. -/
  | schedules (w t : Nat)
  | lists
  | binds (messageId : Nat)
  /-- `smart_attachment_text`. -/
  | asksText
  /-- `history_attachment_texts`. -/
  | rehydrates

def State.setParse (s : State) (t : Nat) (parse : Parse) : State := { s with parses := Function.update s.parses t parse }

def State.setDelete (s : State) (d : Nat) (delete : Delete) : State := { s with deletes := Function.update s.deletes d delete }

def State.setSweep (s : State) (w : Nat) (sweep : Sweep) : State := { s with sweeps := Function.update s.sweeps w sweep }

def State.write (s : State) (f : Row → Row) : State := { s with row := s.row.map f }

def spawn (s : State) (t : Nat) : Option State :=
  match s.parses t with
  | .idle => some (s.setParse t .spawned)
  | _ => none

def parseStep (s : State) (t : Nat) : Act → Parse → Option State
  | .loads _, .spawned =>
    match s.row with
    | none => some (s.setParse t .done)
    | some row => some (s.setParse t (.loaded row.status row.parseStatus))
  | .commitsParsing _, .loaded status parseStatus =>
    some ((s.write (fun row => { row with
      status := if status = .parsing then row.status else .parsing
      parseStatus := if parseStatus = .parsing then row.parseStatus else .parsing })).setParse t .opening)
  | .opens _, .opening => some (s.setParse t (if s.file then .reading else .failing))
  | .extracts _ none, .reading => some (s.setParse t .failing)
  | .extracts _ (some text), .reading => some (s.setParse t (if shouldIndex text then .clearing text else .committing text))
  | .commitsFailed _, .failing =>
    some ((s.write (fun row => { row with status := .failed, parseStatus := .failed })).setParse t .done)
  | .clears _, .clearing text => some ({ s with points := 0 }.setParse t (.upserting text))
  | .upserts _, .upserting _ => some { s with points := s.points + 1 }
  | .indexed _, .clearing text => some (s.setParse t (.committing text))
  | .indexed _, .upserting text => some (s.setParse t (.committing text))
  | .commitsReady _, .committing text =>
    some ((s.write (fun row => { row with
      status := .ready
      parseStatus := .ready
      extractedText := some text })).setParse t .done)
  | .dies _, .idle => none
  | .dies _, .done => none
  | .dies _, _ => some (s.setParse t .done)
  | _, _ => none

def deleteStep (s : State) (d : Nat) : Act → Delete → Option State
  | .asks _, .idle =>
    match s.row with
    | none => some (s.setDelete d .done)
    | some row => some (s.setDelete d (if row.status = .deleted then .done else .loaded))
  | .unlinks _ ok, .loaded => some ({ s with file := s.file && !ok }.setDelete d .unlinked)
  | .drops _ ok, .unlinked => some ({ s with points := if ok then 0 else s.points }.setDelete d .dropped)
  | .commitsDeleted _, .dropped =>
    match s.row with
    | none => some (s.setDelete d .done)
    | some row => some ({ s with row := some { row with status := .deleted }, deleted := true }.setDelete d .done)
  | .abandons _, .idle => none
  | .abandons _, .done => none
  | .abandons _, _ => some (s.setDelete d .done)
  | _, _ => none

/-- The next step of a sweep, which looks at `parse_status` and the age. -/
def sweepStep (s : State) (w : Nat) : Act → Sweep → Option State
  | .selects _, .idle =>
    match s.row with
    | none => none
    | some row => if row.parseStatus = .pending ∨ row.parseStatus = .parsing then some (s.setSweep w .selected) else none
  | .requeues _, .selected =>
    some ((s.write (fun row => { row with
      parseStatus := if row.parseStatus = .parsing then .pending else row.parseStatus })).setSweep w .requeued)
  | .schedules _ t, .requeued => (spawn s t).map (·.setSweep w .done)
  | _, _ => none

def step (s : State) : Act → Option State
  | .uploads isImage =>
    match s.row with
    | none => some { s with row := some ⟨.uploaded, .pending, none, none, isImage⟩, file := true, unspawned := true }
    | some _ => none
  | .spawns t => if s.unspawned then spawn { s with unspawned := false } t else none
  | .loads t => parseStep s t (.loads t) (s.parses t)
  | .commitsParsing t => parseStep s t (.commitsParsing t) (s.parses t)
  | .opens t => parseStep s t (.opens t) (s.parses t)
  | .extracts t text => parseStep s t (.extracts t text) (s.parses t)
  | .commitsFailed t => parseStep s t (.commitsFailed t) (s.parses t)
  | .clears t => parseStep s t (.clears t) (s.parses t)
  | .upserts t => parseStep s t (.upserts t) (s.parses t)
  | .indexed t => parseStep s t (.indexed t) (s.parses t)
  | .commitsReady t => parseStep s t (.commitsReady t) (s.parses t)
  | .dies t => parseStep s t (.dies t) (s.parses t)
  | .asks d => deleteStep s d (.asks d) (s.deletes d)
  | .unlinks d ok => deleteStep s d (.unlinks d ok) (s.deletes d)
  | .drops d ok => deleteStep s d (.drops d ok) (s.deletes d)
  | .commitsDeleted d => deleteStep s d (.commitsDeleted d) (s.deletes d)
  | .abandons d => deleteStep s d (.abandons d) (s.deletes d)
  | .selects w => sweepStep s w (.selects w) (s.sweeps w)
  | .requeues w => sweepStep s w (.requeues w) (s.sweeps w)
  | .schedules w t => sweepStep s w (.schedules w t) (s.sweeps w)
  | .lists =>
    match s.row with
    | none => some s
    | some row => some { s with listed := s.listed || (s.deleted && row.status ≠ .deleted) }
  | .binds messageId =>
    match s.row with
    | none => none
    | some _ => some (s.write (fun row => { row with messageId := some messageId }))
  | .asksText =>
    match s.row with
    | none => some s
    | some row => some { s with prompted := s.prompted || (s.deleted && !row.isImage && row.hasText) }
  | .rehydrates =>
    match s.row with
    | none => some s
    | some row =>
      some { s with
        prompted := s.prompted || (s.deleted && row.status ≠ .deleted && row.messageId.isSome && row.hasText) }

end Attachment
end MyGpt
