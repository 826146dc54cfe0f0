import MyGpt.TurnEntry
/-!
# HoldReturn — which turns give their hold back

`stream` gives the hold back in its `finally`, and `create_and_enqueue_durable_run` on its last line only: every error
between the two keeps the credits until the sweep (`refused_turn_keeps_hold`).  `hold_returned_iff` says exactly which
turns release what they reserved; on both paths a call of `admit_turn` that is cut off after its commit is not among them,
and on the inline path neither is a turn that is cancelled while it returns its quota slot.
-/
namespace MyGpt
namespace Entry

open Credit (Db TurnHold CreditLedger)
open Scope (User Rows)
open Raising (runFrom runFrom_bind runFrom_tryCatch runFrom_tryFinally)

/-! ## what is promised of a turn -/

inductive Path
  | inline (calls : StreamCalls)
  | durable (rows : Rows) (request : TurnRequest) (calls : SubmitCalls)

def Path.admission : Path → AdmitCall
  | .inline calls => calls.admission
  | .durable _ _ calls => calls.admission

def Path.leaves (user : User) (db : Db) : Path → Turn
  | .inline calls => (runFrom (stream user calls) { db := db }).2
  | .durable rows request calls => (runFrom (createAndEnqueueDurableRun user rows request calls) { db := db }).2

/-- For each hold row written since there is one call of `release_turn_hold` with its key. -/
def Turn.Returned (db : Db) (turn : Turn) : Prop :=
  ∀ row ∈ turn.db.ledger.drop db.ledger.length, row.reason = .turnHold → ∀ key, row.refId = some key →
    (turn.attempts.filter (fun hold => hold.turnKey == key)).length = 1

/-- **The hold is given back.** -/
def HoldReturned (user : User) (db : Db) (path : Path) : Prop := (path.leaves user db).Returned db

def AdmitCall.Creates (a : AdmitCall) (user : User) (db : Db) : Prop :=
  (∀ cut ∈ a.cut, cut.committed = true) ∧
    ∃ db' hold, Credit.admitTurn a.policy a.now a.fresh db user.id none = .ok (db', some hold) ∧ db'.ledger ≠ db.ledger

def StreamCalls.AsksCredit (calls : StreamCalls) : Prop :=
  (calls.quotasEnabled = true → calls.admitRun = .ok ()) ∧ calls.refreshToggles = .ok ()

/-- **Nothing goes wrong from the conversation to the queue.** -/
def SubmitCalls.Submits (user : User) (rows : Rows) (request : TurnRequest) (calls : SubmitCalls) : Prop :=
  ∃ conversation cfg applied,
    getOrCreateConversation user request calls = .ok conversation ∧ calls.inFlight = .ok 0 ∧
      resolveModelConfig request conversation calls = .ok cfg ∧ cfg.userId.any (· != user.id) = false ∧
      calls.mentionReads = .ok () ∧
      Scope.applyMentions rows user request.toChatRequest request.knowledgeBaseIds.items = .ok applied ∧
      persistUserMessage request applied.attachmentIds calls = .ok () ∧ calls.assistantFlush = .ok () ∧
      calls.route = .ok () ∧ (∃ runId, calls.runFlush = .ok runId) ∧
      autoTitle request conversation calls = .ok () ∧ calls.commit = .ok () ∧ enqueueRun calls = .ok ()

/-- **The turns that give their hold back**: those that create none, and those whose admission returns, that on the inline
path are not cancelled while the quota slot is returned, and on the durable path get through to the queue. -/
def Path.Meets (user : User) (db : Db) : Path → Prop
  | .inline calls => calls.AsksCredit → calls.admission.Creates user db →
    calls.admission.cut = none ∧ ¬ (calls.quotasEnabled = true ∧ calls.releaseRun = .error .cancelled)
  | .durable rows request calls => calls.admission.Creates user db →
    calls.admission.cut = none ∧ calls.Submits user rows request

/-! ## the credit calls -/

theorem admitTurn_none {a : AdmitCall} {user : User} {db db' : Db}
    (h : Credit.admitTurn a.policy a.now a.fresh db user.id none = .ok (db', none)) : db'.ledger = db.ledger := by
  unfold Credit.admitTurn at h
  split_ifs at h
  · cases h
    rfl
  dsimp only at h
  split_ifs at h
  split at h <;> cases h

theorem runFrom_transact {α : Type} (cut : Option Cut) (op : Db → Except Exit (Db × α)) (turn : Turn) :
    runFrom (transact cut op) turn =
      ((settle cut turn.db (op turn.db)).1, { turn with db := (settle cut turn.db (op turn.db)).2 }) := rfl

theorem settle_db {α : Type} (cut : Option Cut) (db : Db) (result : Except Exit (Db × α)) :
    (settle cut db result).2 = db ∨ ∃ db' value, result = .ok (db', value) ∧ (settle cut db result).2 = db' := by
  cases result with
  | error e => exact .inl rfl
  | ok pair =>
    obtain ⟨db', value⟩ := pair
    cases cut with
    | none => exact .inr ⟨db', value, rfl, rfl⟩
    | some cut =>
      obtain ⟨committed, exit⟩ := cut
      cases committed with
      | true => exact .inr ⟨db', value, rfl, rfl⟩
      | false => exact .inl rfl

/-- **What a call of `admit_turn` does**: where it creates a hold it writes its row, and hands it out unless it is cut off;
elsewhere it writes nothing. -/
theorem admitTurn_spec (a : AdmitCall) (user : User) (db : Db) : ∃ ends db',
    (∀ turn : Turn, turn.db = db → runFrom (admitTurn a user) turn = (ends, { turn with db := db' })) ∧
      (¬ a.Creates user db → db'.ledger = db.ledger) ∧
      (a.Creates user db → ∃ row hold, db'.ledger = db.ledger ++ [row] ∧ row.reason = .turnHold ∧
        row.refId = some hold.turnKey ∧ (a.cut = none → ends = .ok (some hold)) ∧
        (∀ cut ∈ a.cut, ends = .error cut.exit)) := by
  refine ⟨_, _, fun turn hturn => by rw [admitTurn, runFrom_transact, hturn], ?_, ?_⟩
  · intro hnone
    cases hadmission : Credit.admitTurn a.policy a.now a.fresh db user.id none with
    | error e => rfl
    | ok result =>
      obtain ⟨db', hold⟩ := result
      by_cases hsame : db'.ledger = db.ledger
      · rcases settle_db (if a.policy.enforced then a.cut else none) db (.ok (db', hold)) with hdb | ⟨db'', value, hok, hdb⟩
        · exact congrArg Db.ledger hdb
        · cases hok
          exact (congrArg Db.ledger hdb).trans hsame
      -- a row was written, so there is a handle, and only a cut before the commit is left
      cases hold with
      | none => exact absurd (admitTurn_none hadmission) hsame
      | some hold =>
        obtain ⟨henforced, -, -, -⟩ := Credit.admitTurn_rows hadmission
        have hcut : ∃ cut ∈ a.cut, cut.committed = false := by
          by_contra hall
          refine hnone ⟨fun cut hc => ?_, db', hold, hadmission, hsame⟩
          by_contra hcommitted
          exact hall ⟨cut, hc, by simpa using hcommitted⟩
        obtain ⟨cut, hc, hcommitted⟩ := hcut
        rw [if_pos henforced, Option.mem_def.1 hc]
        show (if cut.committed then db' else db).ledger = _
        rw [hcommitted]
        rfl
  · rintro ⟨hcut, db', hold, hadmission, hwritten⟩
    obtain ⟨henforced, -, -, hrows⟩ := Credit.admitTurn_rows hadmission
    rcases hrows with ⟨hsame, -⟩ | ⟨-, row, hrow, hid, hholds⟩
    · exact absurd hsame hwritten
    refine ⟨row, hold, ?_, hholds.reason, hid, ?_, ?_⟩
    · rw [hadmission, if_pos henforced]
      cases hc : a.cut with
      | none => exact hrow
      | some cut =>
        show (if cut.committed then db' else db).ledger = _
        rw [if_pos (hcut cut hc)]
        exact hrow
    · intro hc
      rw [hadmission, hc, ite_self]
      rfl
    · intro cut hc
      rw [hadmission, if_pos henforced, Option.mem_def.1 hc]
      rfl

/-- **What a call of `release_turn_hold` does**: it is counted, and of the ledger it can only add release rows. -/
theorem releaseTurnHold_spec (r : ReleaseCall) (hold : TurnHold) (turn : Turn) : ∃ db' rows,
    (runFrom (releaseTurnHold r hold) turn).2 = { turn with db := db', attempts := turn.attempts ++ [hold] } ∧
      db'.ledger = turn.db.ledger ++ rows ∧ ∀ row ∈ rows, row.reason = .turnHoldRelease := by
  have hrun : (runFrom (releaseTurnHold r hold) turn).2 =
      { turn with
        db := (settle r.cut turn.db ((Credit.releaseTurnHold r.now turn.db (some hold)).mapError Exit.ofRaised)).2,
        attempts := turn.attempts ++ [hold] } := by
    unfold releaseTurnHold
    rw [runFrom_bind, Raising.runFrom_modify]
    dsimp only
    rw [runFrom_bind, runFrom_transact]
    split <;> rename_i heq <;> obtain ⟨-, rfl⟩ := Prod.mk.inj heq <;> rfl
  refine ⟨(settle r.cut turn.db ((Credit.releaseTurnHold r.now turn.db (some hold)).mapError Exit.ofRaised)).2, ?_⟩
  rw [hrun]
  rcases settle_db r.cut turn.db ((Credit.releaseTurnHold r.now turn.db (some hold)).mapError Exit.ofRaised) with
    hdb | ⟨db', written, hok, hdb⟩
  · rw [hdb]
    exact ⟨[], rfl, (List.append_nil _).symm, List.forall_mem_nil _⟩
  · rw [hdb]
    cases hrelease : Credit.releaseTurnHold r.now turn.db (some hold) with
    | error e =>
      rw [hrelease] at hok
      cases hok
    | ok result =>
      rw [hrelease] at hok
      obtain rfl : result = (db', written) := Except.ok.inj hok
      rcases Credit.lockedWrite_ledger hrelease with ⟨-, hsame⟩ | ⟨-, row, hrow, -, -, hreason, -, -⟩
      · exact ⟨[], rfl, by rw [hsame, List.append_nil], List.forall_mem_nil _⟩
      · refine ⟨[row], rfl, hrow, fun row' hmem => ?_⟩
        rw [List.mem_singleton.1 hmem, hreason]

theorem swallow_leaves (x : Handler Unit) (turn : Turn) : (runFrom (swallow x) turn).2 = (runFrom x turn).2 := by
  unfold swallow
  rw [runFrom_tryCatch]
  cases hrun : runFrom x turn with
  | mk ends left =>
    cases ends with
    | ok _ => rfl
    | error e => cases e <;> rfl

/-! ## which turns have returned their hold -/

section
variable {db : Db} {turn : Turn} {rows : List CreditLedger}

theorem returned_of_uncreated (h : turn.db.ledger = db.ledger ++ rows) (hrows : ∀ row ∈ rows, row.reason = .turnHoldRelease) :
    turn.Returned db := by
  intro row hrow hreason
  rw [h, List.drop_left] at hrow
  rw [hrows row hrow] at hreason
  cases hreason

theorem returned_iff {row : CreditLedger} {key : String} (h : turn.db.ledger = db.ledger ++ row :: rows)
    (hrow : row.reason = .turnHold) (hid : row.refId = some key) (hrows : ∀ row ∈ rows, row.reason = .turnHoldRelease) :
    turn.Returned db ↔ (turn.attempts.filter (fun hold => hold.turnKey == key)).length = 1 := by
  constructor
  · intro hall
    refine hall row ?_ hrow key hid
    rw [h, List.drop_left]
    exact List.mem_cons_self
  · intro hone row' hmem hreason key' hid'
    rw [h, List.drop_left, List.mem_cons] at hmem
    rcases hmem with rfl | hmem
    · cases hid.symm.trans hid'
      exact hone
    · rw [hrows row' hmem] at hreason
      cases hreason

theorem not_returned {row : CreditLedger} {key : String} (h : turn.db.ledger = db.ledger ++ [row])
    (hrow : row.reason = .turnHold) (hid : row.refId = some key) (hnone : turn.attempts = []) : ¬ turn.Returned db := by
  rw [returned_iff h hrow hid (List.forall_mem_nil _), hnone]
  exact Nat.zero_ne_one

end

theorem returned_of_release (r : ReleaseCall) {db : Db} {turn : Turn} {hold : TurnHold} (hnone : turn.attempts = [])
    (h : turn.db.ledger = db.ledger ∨ ∃ row : CreditLedger, turn.db.ledger = db.ledger ++ [row] ∧ row.reason = .turnHold ∧
      row.refId = some hold.turnKey) : (runFrom (swallow (releaseTurnHold r hold)) turn).2.Returned db := by
  obtain ⟨db', rows, hleft, hledger, hrows⟩ := releaseTurnHold_spec r hold turn
  rw [swallow_leaves, hleft]
  rcases h with hsame | ⟨row, hrow, hreason, hid⟩
  · exact returned_of_uncreated (hledger.trans (by rw [hsame])) hrows
  · have hwritten : db'.ledger = db.ledger ++ row :: rows := by
      rw [hledger, hrow, List.append_assoc]
      rfl
    refine (returned_iff hwritten hreason hid hrows).2 ?_
    rw [hnone]
    simp

/-! ## the durable path -/

theorem bind_ok {α β : Type} {x : Except Exit α} {f : α → Except Exit β} {b : β} :
    (x >>= f) = .ok b ↔ ∃ a, x = .ok a ∧ f a = .ok b := by
  cases x with
  | error e => exact iff_of_false nofun nofun
  | ok a => exact ⟨fun h => ⟨a, rfl, h⟩, fun ⟨_, ha, hf⟩ => Except.ok.inj ha ▸ hf⟩

theorem refuse_ok {condition : Bool} {e : Scope.AppException} : refuse condition e = .ok () ↔ condition = false := by
  unfold refuse
  cases condition <;> simp

theorem submitRun_ok {user : User} {rows : Rows} {request : TurnRequest} {calls : SubmitCalls} :
    (∃ runId, submitRun user rows request calls = .ok runId) ↔ calls.Submits user rows request := by
  unfold submitRun SubmitCalls.Submits
  simp only [bind_ok]
  constructor
  · rintro ⟨_, conversation, hconversation, inFlight, hinFlight, _, hidle, cfg, hcfg, _, howner, _, hreads, applied, happlied,
      _, huser, _, hassistant, _, hroute, runId, hrun, _, htitle, _, hcommit, _, henqueue, -⟩
    have hzero : inFlight = 0 := by simpa using refuse_ok.1 hidle
    refine ⟨conversation, cfg, applied, hconversation, hzero ▸ hinFlight, hcfg, refuse_ok.1 howner, hreads, ?_, huser,
      hassistant, hroute, ⟨runId, hrun⟩, htitle, hcommit, henqueue⟩
    cases hmentions : Scope.applyMentions rows user request.toChatRequest request.knowledgeBaseIds.items with
    | error e =>
      rw [hmentions] at happlied
      cases happlied
    | ok applied' =>
      rw [hmentions] at happlied
      exact congrArg Except.ok (Except.ok.inj happlied)
  · rintro ⟨conversation, cfg, applied, hconversation, hinFlight, hcfg, howner, hreads, happlied, huser, hassistant, hroute,
      ⟨runId, hrun⟩, htitle, hcommit, henqueue⟩
    refine ⟨runId, conversation, hconversation, 0, hinFlight, (), refuse_ok.2 rfl, cfg, hcfg, (), refuse_ok.2 howner, (), hreads,
      applied, ?_, (), huser, (), hassistant, (), hroute, runId, hrun, (), htitle, (), hcommit, (), henqueue, rfl⟩
    rw [happlied]
    rfl

theorem durable_leaves {user : User} {db db' : Db} {rows : Rows} {request : TurnRequest} {calls : SubmitCalls}
    {ends : Except Exit (Option TurnHold)} : runFrom (admitTurn calls.admission user) { db := db } = (ends, { db := db' }) →
    (Path.durable rows request calls).leaves user db =
      match ends, submitRun user rows request calls with
      | .ok (some hold), .ok _ => (runFrom (swallow (releaseTurnHold calls.release hold)) { db := db' }).2
      | _, _ => { db := db' } := by
  intro hcall
  unfold Path.leaves
  dsimp only
  unfold createAndEnqueueDurableRun
  rw [runFrom_bind, runFrom_tryCatch, hcall]
  cases ends with
  | error e =>
    cases e with
    | credit code message =>
      dsimp only
      rw [runFrom_bind, Raising.runFrom_await]
      cases calls.readAccount <;> rfl
    | _ => rfl
  | ok hold =>
    dsimp only
    rw [runFrom_bind, Raising.runFrom_await]
    cases submitRun user rows request calls with
    | error e => cases hold <;> rfl
    | ok runId =>
      cases hold with
      | none => rfl
      | some hold =>
        dsimp only
        rw [runFrom_bind]
        cases runFrom (swallow (releaseTurnHold calls.release hold)) { db := db' } with
        | mk ended left => cases ended <;> rfl

theorem durable_returned_iff (user : User) (db : Db) (rows : Rows) (request : TurnRequest) (calls : SubmitCalls) :
    HoldReturned user db (.durable rows request calls) ↔ (Path.durable rows request calls).Meets user db := by
  obtain ⟨ends, db', hrun, huncreated, hcreated⟩ := admitTurn_spec calls.admission user db
  have hleaves := @durable_leaves user db db' rows request calls ends (hrun { db := db } rfl)
  have hsubmits := @submitRun_ok user rows request calls
  unfold HoldReturned Path.Meets
  rw [hleaves]
  dsimp only
  by_cases hcreates : calls.admission.Creates user db
  · obtain ⟨row, hold, hrow, hreason, hid, hwhole, hcut⟩ := hcreated hcreates
    rw [forall_prop_of_true hcreates]
    cases hc : calls.admission.cut with
    | some cut =>
      rw [hcut cut hc]
      exact iff_of_false (not_returned hrow hreason hid rfl) (fun h => by cases h.1)
    | none =>
      rw [hwhole hc, ← hsubmits, eq_self, true_and]
      cases submitRun user rows request calls with
      | error e => exact iff_of_false (not_returned hrow hreason hid rfl) nofun
      | ok runId => exact iff_of_true (returned_of_release calls.release rfl (.inr ⟨row, hrow, hreason, hid⟩)) ⟨runId, rfl⟩
  · have hsame := huncreated hcreates
    refine iff_of_true ?_ (fun h => absurd h hcreates)
    split
    · exact returned_of_release calls.release rfl (.inl hsame)
    · exact @returned_of_uncreated db { db := db' } [] (hsame.trans (List.append_nil _).symm) (List.forall_mem_nil _)

/-! ## the inline path -/

/-- The handle that a call of `admit_turn` leaves its caller with. -/
def handedOut : Except Exit (Option TurnHold) → Option TurnHold
  | .ok hold => hold
  | .error _ => none

def Turn.muted (turn : Turn) : Turn := { turn with events := [] }

section
variable {user : User} {db : Db} {calls : StreamCalls}

theorem yieldError_muted (calls : StreamCalls) (event : ErrorEvent) (turn : Turn) :
    (runFrom (yieldError calls event) turn).2.muted = turn.muted := by
  unfold yieldError
  rw [runFrom_bind, Raising.runFrom_modify]
  rfl

theorem streamExcept_muted (e : Exit) (turn : Turn) : (runFrom (streamExcept calls e) turn).2.muted = turn.muted := by
  cases e with
  | cancelled => rfl
  | _ => exact yieldError_muted calls _ turn

theorem streamBody_refused (h : ¬ calls.AsksCredit) : ∃ ticket,
    (runFrom (streamBody user calls) { db := db }).2.muted = { db := db, quotaTicket := ticket } := by
  unfold streamBody quotaAdmission
  rw [runFrom_bind]
  cases henabled : calls.quotasEnabled with
  | false =>
    rw [if_neg (by decide), Raising.runFrom_pure]
    dsimp only
    rw [if_pos rfl, runFrom_bind, Raising.runFrom_await]
    cases htoggles : calls.refreshToggles with
    | error e => exact ⟨false, rfl⟩
    | ok _ =>
      refine absurd ⟨fun htrue => ?_, htoggles⟩ h
      rw [henabled] at htrue
      cases htrue
  | true =>
    rw [if_pos rfl, runFrom_tryCatch, runFrom_bind, Raising.runFrom_await]
    cases hadmitRun : calls.admitRun with
    | error e =>
      refine ⟨false, ?_⟩
      cases e with
      | quotaExceeded reason =>
        dsimp only
        rw [runFrom_bind]
        have hmuted := yieldError_muted calls ⟨"quota_exceeded", reason, none⟩ { db := db }
        cases hyield : runFrom (yieldError calls ⟨"quota_exceeded", reason, none⟩) { db := db } with
        | mk ended left =>
          rw [hyield] at hmuted
          cases ended <;> exact hmuted
      | _ => rfl
    | ok _ =>
      dsimp only
      rw [runFrom_bind, Raising.runFrom_modify]
      dsimp only
      rw [Raising.runFrom_pure]
      dsimp only
      rw [if_pos rfl, runFrom_bind, Raising.runFrom_await]
      cases htoggles : calls.refreshToggles with
      | error e => exact ⟨true, rfl⟩
      | ok _ => exact absurd ⟨fun _ => hadmitRun, htoggles⟩ h

theorem creditAdmission_muted {db' : Db} {ends : Except Exit (Option TurnHold)} {turn : Turn} :
    runFrom (admitTurn calls.admission user) turn = (ends, { turn with db := db' }) → turn.creditHold = none →
    (runFrom (creditAdmission user calls) turn).2.muted =
      { turn.muted with db := db', creditHold := handedOut ends } := by
  intro hcall hnone
  unfold creditAdmission
  rw [runFrom_tryCatch, runFrom_bind, hcall]
  cases ends with
  | ok hold => rfl
  | error e =>
    have hleft : ({ turn with db := db' } : Turn).muted = { turn.muted with db := db', creditHold := none } := by
      unfold Turn.muted
      rw [hnone]
    cases e with
    | credit code message =>
      dsimp only
      rw [runFrom_bind, Raising.runFrom_await]
      cases calls.readAccount with
      | error e => exact hleft
      | ok account =>
        dsimp only
        rw [runFrom_bind]
        have hmuted := yieldError_muted calls ⟨code, message, some (account.getD 0)⟩ { turn with db := db' }
        cases hyield : runFrom (yieldError calls ⟨code, message, some (account.getD 0)⟩) { turn with db := db' } with
        | mk ended left =>
          rw [hyield] at hmuted
          cases ended <;> exact hmuted.trans hleft
    | _ => exact hleft

theorem streamBody_asks (h : calls.AsksCredit) {db' : Db} {ends : Except Exit (Option TurnHold)} :
    (∀ turn : Turn, turn.db = db → runFrom (admitTurn calls.admission user) turn = (ends, { turn with db := db' })) →
    (runFrom (streamBody user calls) { db := db }).2.muted =
      { db := db', quotaTicket := calls.quotasEnabled, creditHold := handedOut ends } := by
  intro hcall
  have hquota : runFrom (quotaAdmission calls) { db := db } = (.ok true, { db := db, quotaTicket := calls.quotasEnabled }) := by
    unfold quotaAdmission
    cases henabled : calls.quotasEnabled with
    | false => rfl
    | true =>
      rw [if_pos rfl, runFrom_tryCatch, runFrom_bind, Raising.runFrom_await, h.1 henabled]
      rfl
  unfold streamBody
  rw [runFrom_bind, hquota]
  dsimp only
  rw [if_pos rfl, runFrom_bind, Raising.runFrom_await, h.2]
  dsimp only
  rw [runFrom_bind]
  have hmuted := creditAdmission_muted (hcall { db := db, quotaTicket := calls.quotasEnabled } rfl) rfl
  cases hcredit : runFrom (creditAdmission user calls) { db := db, quotaTicket := calls.quotasEnabled } with
  | mk ended left =>
    rw [hcredit] at hmuted
    cases ended with
    | error e => exact hmuted
    | ok goOn => cases goOn <;> exact hmuted

theorem streamFinally_leaves (turn : Turn) : (runFrom (streamFinally calls) turn).2 =
    if turn.quotaTicket = true ∧ calls.releaseRun = .error .cancelled then turn
    else
      match turn.creditHold with
      | some hold => (runFrom (swallow (releaseTurnHold calls.release hold)) turn).2
      | none => turn := by
  have hgive : (runFrom (match turn.creditHold with
      | some hold => swallow (releaseTurnHold calls.release hold)
      | none => pure ()) turn).2 =
      match turn.creditHold with
      | some hold => (runFrom (swallow (releaseTurnHold calls.release hold)) turn).2
      | none => turn := by
    cases turn.creditHold <;> rfl
  unfold streamFinally
  rw [runFrom_bind, Raising.runFrom_get]
  dsimp only
  cases hticket : turn.quotaTicket with
  | false =>
    rw [if_neg (by decide), if_neg (fun h => by cases h.1)]
    exact hgive
  | true =>
    rw [if_pos rfl, runFrom_bind]
    have hslot : runFrom (swallow (Raising.await calls.releaseRun)) turn = (swallowed calls.releaseRun, turn) := by
      unfold swallow
      rw [runFrom_tryCatch, Raising.runFrom_await]
      cases calls.releaseRun with
      | ok _ => rfl
      | error e => cases e <;> rfl
    rw [hslot]
    cases hrelease : calls.releaseRun with
    | ok _ =>
      rw [if_neg (fun h => by cases h.2)]
      exact hgive
    | error e =>
      cases e with
      | cancelled =>
        rw [if_pos ⟨rfl, rfl⟩]
        rfl
      | _ =>
        rw [if_neg (fun h => by cases h.2)]
        exact hgive

end

theorem stream_leaves (user : User) (db : Db) (calls : StreamCalls) : ∃ turn : Turn,
    (Path.inline calls).leaves user db = (runFrom (streamFinally calls) turn).2 ∧
      turn.muted = (runFrom (streamBody user calls) { db := db }).2.muted := by
  refine ⟨(runFrom (tryCatch (streamBody user calls) (streamExcept calls)) { db := db }).2, ?_, ?_⟩
  · unfold Path.leaves stream
    dsimp only
    rw [runFrom_tryFinally]
    cases runFrom (streamFinally calls) (runFrom (tryCatch (streamBody user calls) (streamExcept calls)) { db := db }).2 with
    | mk ended left => cases ended <;> rfl
  · rw [runFrom_tryCatch]
    cases runFrom (streamBody user calls) { db := db } with
    | mk ended left =>
      cases ended with
      | ok _ => rfl
      | error e => exact streamExcept_muted e left

/-- **The inline path** gives the hold back unless the admission is cut off after its commit, or the return of the quota
slot is cancelled. -/
theorem inline_returned_iff (user : User) (db : Db) (calls : StreamCalls) :
    HoldReturned user db (.inline calls) ↔ (Path.inline calls).Meets user db := by
  obtain ⟨turn, hleaves, hmuted⟩ := stream_leaves user db calls
  unfold HoldReturned Path.Meets
  rw [hleaves, streamFinally_leaves]
  dsimp only
  by_cases hasks : calls.AsksCredit
  · rw [forall_prop_of_true hasks]
    obtain ⟨ends, db', hrun, huncreated, hcreated⟩ := admitTurn_spec calls.admission user db
    have hturn := hmuted.trans (streamBody_asks hasks hrun)
    have hdb : turn.db = db' := congrArg Turn.db hturn
    have hattempts : turn.attempts = [] := congrArg Turn.attempts hturn
    have hticket : turn.quotaTicket = calls.quotasEnabled := congrArg Turn.quotaTicket hturn
    have hheld : turn.creditHold = handedOut ends := congrArg Turn.creditHold hturn
    rw [hticket]
    by_cases hcreates : calls.admission.Creates user db
    · obtain ⟨row, hold, hrow, hreason, hid, hwhole, hcut⟩ := hcreated hcreates
      rw [← hdb] at hrow
      rw [forall_prop_of_true hcreates]
      cases hc : calls.admission.cut with
      | some cut =>
        have hnone : turn.creditHold = none := hheld.trans (by rw [hcut cut hc]; rfl)
        rw [hnone, ite_self]
        exact iff_of_false (not_returned hrow hreason hid hattempts) (fun h => by cases h.1)
      | none =>
        have hsome : turn.creditHold = some hold := hheld.trans (by rw [hwhole hc]; rfl)
        rw [hsome]
        by_cases hslot : calls.quotasEnabled = true ∧ calls.releaseRun = .error .cancelled
        · rw [if_pos hslot]
          exact iff_of_false (not_returned hrow hreason hid hattempts) (fun h => h.2 hslot)
        · rw [if_neg hslot]
          exact iff_of_true (returned_of_release calls.release hattempts (.inr ⟨row, hrow, hreason, hid⟩)) ⟨rfl, hslot⟩
    · have hsame : turn.db.ledger = db.ledger := hdb ▸ huncreated hcreates
      have hkept : turn.Returned db := @returned_of_uncreated db turn [] (hsame.trans (List.append_nil _).symm) (List.forall_mem_nil _)
      refine iff_of_true ?_ (fun h => absurd h hcreates)
      split
      · exact hkept
      · split
        · exact returned_of_release calls.release hattempts (.inl hsame)
        · exact hkept
  · obtain ⟨ticket, hrefused⟩ := @streamBody_refused user db calls hasks
    have hturn := hmuted.trans hrefused
    have hdb : turn.db = db := congrArg Turn.db hturn
    have hheld : turn.creditHold = none := congrArg Turn.creditHold hturn
    refine iff_of_true ?_ (fun h => absurd h hasks)
    rw [hheld, ite_self]
    exact @returned_of_uncreated db turn [] (by rw [hdb, List.append_nil]) (List.forall_mem_nil _)

/-- **Every turn returns its hold** exactly where its path gets to its release. -/
theorem hold_returned_iff (user : User) (db : Db) (path : Path) : HoldReturned user db path ↔ path.Meets user db := by
  cases path with
  | inline calls => exact inline_returned_iff user db calls
  | durable rows request calls => exact durable_returned_iff user db rows request calls

def paidUp : Db := { accounts := fun u => if u = 1 then some { balance := 100 } else none }

def secondMessage : Path :=
  .durable { knowledgeBase := fun _ => none, document := fun _ => none }
    { knowledgeBaseId := none, knowledgeBaseIds := .empty, mentions := .empty, attachmentIds := [],
      conversationId := some ⟨List.replicate 32 'c', by decide, rfl⟩, modelId := none, content := "again".toList }
    { admission := { policy := { enforced := true }, fresh := "t" },
      conversationRow := .ok (some { userId := 1, title := "chat".toList, modelId := none }), inFlight := .ok 1 }

/-- **A refused turn keeps its hold**: the 409 of the turn guard leaves fifty credits reserved. -/
theorem refused_turn_keeps_hold : ¬ ∀ (user : User) (db : Db) (path : Path), HoldReturned user db path := by
  intro h
  have hmeets := (durable_returned_iff ⟨1, "user"⟩ paidUp _ _ _).1 (h ⟨1, "user"⟩ paidUp secondMessage)
  obtain ⟨-, conversation, cfg, applied, -, hidle, -⟩ := hmeets ⟨nofun, _, _, rfl, by decide⟩
  exact absurd hidle (by decide)

end Entry
end MyGpt
