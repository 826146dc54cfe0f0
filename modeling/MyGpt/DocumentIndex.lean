import MyGpt.IngestionQueue
/-!
# DocumentIndex — the chunk rows and the vector points of a document

`document_service.index_document` by any number of workers of the queue.  The chunk rows are written in the worker's
session and committed with its next progress write; the points go to the vector store at once.  A progress write commits
the session before it looks at whether the claim is still the worker's.
-/
namespace MyGpt
namespace Index

open Ingest (Document DocStatus Settings IngestionOutcome claimLost)

/-! ## chunk rows and points -/

/-- A row of `document_chunks`. -/
structure ChunkRow where
  id : Nat
  chunkIndex : Nat
  content : String
  deriving DecidableEq

structure VectorPoint where
  id : Nat
  chunkIndex : Nat
  text : String
  deriving DecidableEq

def ChunkRow.point (c : ChunkRow) : VectorPoint := ⟨c.id, c.chunkIndex, c.content⟩

def chunkRows (firstId : Nat) (chunkTexts : List String) : List ChunkRow :=
  chunkTexts.mapIdx (fun i txt => ⟨firstId + i, i, txt⟩)

/-- `store.upsert`: a point replaces the one with its id. -/
def upsert (points batch : List VectorPoint) : List VectorPoint :=
  points.filter (fun p => batch.all (·.id ≠ p.id)) ++ batch

def embedBatch : Nat := 32

structure Session where
  cleared : List Nat := []
  added : List ChunkRow := []
  deriving DecidableEq

def Session.commit (session : Session) (rows : List ChunkRow) : List ChunkRow :=
  rows.filter (fun c => c.id ∉ session.cleared) ++ session.added

/-! ## the workers -/

/-- Where `index_document` is. -/
inductive Stage
  | starting
  | parsing
  | chunking
  | split (chunkTexts : List String)
  | embedding (chunkTexts : List String)
  | cleared (chunkTexts : List String)
  /-- The first `stored` of the added rows have their points. -/
  | storing (chunkTexts : List String) (session : Session) (stored : Nat)
  deriving DecidableEq

inductive Worker
  | idle
  | running (version : Nat) (stage : Stage)
  | executed (version : Nat) (outcome : IngestionOutcome)
  | finishing (version : Nat) (attempts : Nat) (outcome : IngestionOutcome)
  deriving DecidableEq

def Worker.version : Worker → Option Nat
  | .idle => none
  | .running v _ => some v
  | .executed v _ => some v
  | .finishing v _ _ => some v

def Worker.storing : Worker → Bool
  | .running _ (.cleared _) => true
  | .running _ (.storing _ _ _) => true
  | _ => false

def Stage.session : Stage → Session
  | .storing _ session _ => session
  | _ => {}

structure State where
  row : Option Document
  rows : List ChunkRow
  points : List VectorPoint
  workers : Nat → Worker
  nextId : Nat
  parsed : List String

def State.setWorker (s : State) (w : Nat) (worker : Worker) : State :=
  { s with workers := Function.update s.workers w worker }

/-- `_write_progress`: the session is committed whether the row is still the worker's or not. -/
def State.progress (s : State) (w v : Nat) (session : Session) (set : Document → Document) (written lost : Worker) : State :=
  let (row, matched) := Ingest.writeProgress s.row v set
  { s with row := row, rows := session.commit s.rows }.setWorker w (if matched then written else lost)

inductive Act
  | enqueue (now : Int) (resetAttempts : Bool)
  | claim (w : Nat) (began now : Int)
  | renew (w : Nat) (now : Int)
  | advance (w : Nat)
  | splits (w : Nat) (chunkTexts : List String)
  /-- `delete_by_filter`; its error is swallowed. -/
  | clears (w : Nat) (ok : Bool)
  | inserts (w : Nat)
  | upserts (w : Nat)
  | fails (w : Nat) (error : String) (retryable : Bool)
  | returns (w : Nat) (error : String) (retryable : Bool)
  | finishRead (w : Nat)
  | finishWrite (w : Nat) (now : Int)
  | crash (w : Nat)

def Document.failedWith (error : String) (d : Document) : Document :=
  { d with status := .failed, errorMessage := some (String.ofList (error.toList.take 500)) }

def advance (s : State) (w v : Nat) : Stage → Option State
  | .starting => some (s.progress w v {} (Ingest.Stage.write .parsing) (.running v .parsing) (.executed v claimLost))
  | .parsing => some (s.progress w v {} (Ingest.Stage.write .chunking) (.running v .chunking) (.executed v claimLost))
  | .split texts =>
    some (s.progress w v {} (Ingest.Stage.write .embedding) (.running v (.embedding texts)) (.executed v claimLost))
  | .storing texts session stored =>
    if session.added.length ≤ stored then
      let s' := s.progress w v session (Ingest.Stage.write .indexed) (.executed v { ok := true }) (.executed v claimLost)
      some { s' with parsed := if (Ingest.writeProgress s.row v id).2 then texts else s.parsed }
    else none
  | _ => none

def step (cfg : Settings) (name : Nat → String) (s : State) : Act → Option State
  | .enqueue now resetAttempts => some { s with row := (Ingest.enqueue s.row now resetAttempts).1 }
  | .claim w began now =>
    match s.workers w with
    | .idle =>
      match Ingest.claimJob cfg s.row (name w) began now with
      | (row, some v) => some ({ s with row := row }.setWorker w (.running v .starting))
      | (_, none) => some s
    | _ => none
  | .renew w now => (s.workers w).version.map (fun v => { s with row := (Ingest.renew cfg s.row (name w) (some v) now).1 })
  | .advance w =>
    match s.workers w with
    | .running v stage => advance s w v stage
    | _ => none
  | .splits w chunkTexts =>
    match s.workers w with
    | .running v .chunking => if chunkTexts = [] then none else some (s.setWorker w (.running v (.split chunkTexts)))
    | _ => none
  | .clears w ok =>
    match s.workers w with
    | .running v (.embedding texts) =>
      some ({ s with points := if ok then [] else s.points }.setWorker w (.running v (.cleared texts)))
    | _ => none
  | .inserts w =>
    match s.workers w with
    | .running v (.cleared texts) =>
      let session : Session := ⟨s.rows.map (·.id), chunkRows s.nextId texts⟩
      some ({ s with nextId := s.nextId + texts.length }.setWorker w (.running v (.storing texts session 0)))
    | _ => none
  | .upserts w =>
    match s.workers w with
    | .running v (.storing texts session stored) =>
      let batch := (session.added.drop stored).take embedBatch
      if session.added.length ≤ stored then none
      else some ({ s with points := upsert s.points (batch.map ChunkRow.point) }.setWorker w
        (.running v (.storing texts session (stored + embedBatch))))
    | _ => none
  | .fails w error retryable =>
    match s.workers w with
    | .running v stage =>
      some (s.progress w v stage.session (Document.failedWith error) (.executed v ⟨false, some error, retryable⟩)
        (.executed v ⟨false, some error, false⟩))
    | _ => none
  | .returns w error retryable =>
    match s.workers w with
    | .running v _ => some (s.setWorker w (.executed v ⟨false, some error, retryable⟩))
    | _ => none
  | .finishRead w =>
    match s.workers w with
    | .executed v outcome =>
      match Ingest.finishRead s.row (name w) (some v) with
      | .ok attempts => some (s.setWorker w (.finishing v attempts outcome))
      | .error _ => some (s.setWorker w .idle)
    | _ => none
  | .finishWrite w now =>
    match s.workers w with
    | .finishing v attempts outcome =>
      some ({ s with row := (Ingest.finishWrite cfg s.row (name w) (some v) attempts outcome now).1 }.setWorker w .idle)
    | _ => none
  | .crash w => some (s.setWorker w .idle)

def State.start : State := ⟨some { status := .pending }, [], [], fun _ => .idle, 0, []⟩

def State.Current (s : State) (w : Nat) : Prop := ∃ d, s.row = some d ∧ (s.workers w).version = some d.claimVersion

end Index
end MyGpt
