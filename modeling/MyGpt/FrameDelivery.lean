import MyGpt.McpTransport
/-!
# FrameDelivery — which frame completes which request

A frame completes the request whose id it carries and touches no other, as long as its id and its error are of the shapes that
the reader converts; over HTTP the first object of the body is taken.
-/
namespace MyGpt
namespace Mcp

open Trace

/-! ## what each request is owed -/

def isResponse (msg : Fields) : Bool :=
  (Json.field msg "method").isNone && ((Json.field msg "result").isSome || (Json.field msg "error").isSome)

def carries (msg : Fields) (id : Nat) : Bool := isResponse msg && (Json.get msg "id").any (·.isNumber id)

def answer (msg : Fields) : Answer :=
  match Json.field msg "error" with
  | none => .result (Json.get msg "result")
  | some (.obj err) => .error (Json.get err "code") (Json.get err "message")
  | some _ => .error none none

/-- What an act means for the request `id`. -/
def owe (id : Nat) (request : Request) : Act → Request
  | .sends i => if i = id then .waiting else request
  | .sendFails i => if i = id then request.end .closed else request
  | .reads (.json (.obj msg)) => if carries msg id then request.end (.answered msg (answer msg)) else request
  | .reads _ => request
  | .eof => request.end .closed
  | .timesOut i => if i = id then request.end .timedOut else request
  | .cancels i => if i = id then request.end .cancelled else request
  | .closes => request.end .closed

/-- What has become of the request `id` by what it is owed. -/
def owed (id : Nat) : List Act → Request
  | [] => .unsent
  | a :: past => owe id (owed id past) a

def Act.disconnects : Act → Bool
  | .eof => true
  | .closes => true
  | _ => false

def connected : List Act → Bool
  | [] => true
  | a :: past => !a.disconnects && connected past

/-- Every request is completed by, and only by, the response that carries its id, its timeout, its cancellation or the
connection's end, and the reader runs until the connection ends. -/
structure Delivers (s : State) : Prop where
  requests : ∀ id, s.requests id = owed id s.past
  reader : s.reading = connected s.past

/-! ## the condition -/

/-- The line does not stop the reader: its id is a number in the eyes of `int`, and what has the id of a pending request by
`int` is its response, whose error is falsy or an object. -/
def LineOk (s : State) : Line → Prop
  | .raises => False
  | .json (.obj msg) => ∀ value, Json.get msg "id" = some value →
      ∃ reqId, value.toInt = some reqId ∧ ∀ id ∈ s.pending, (id : Int) = reqId → carries msg id = true ∧ (reply msg).isSome
  | _ => True

def FrameOk (s : State) : Act → Prop
  | .reads line => LineOk s line
  | _ => True

/-! ## HTTP -/

def frames : Body → List Fields
  | .json (some (.obj msg)) => [msg]
  | .json _ => []
  | .sse lines => lines.filterMap (fun line => match line with
    | .data (.obj msg) => some msg
    | _ => none)

def received : Post → List Fields
  | .response r => if 400 ≤ r.status then [] else frames r.body
  | _ => []

def answersPost (reqId : Nat) (msg : Fields) : Bool :=
  isResponse msg && ((Json.get msg "id").isNone || carries msg reqId)

def HttpDelivers (reqId : Nat) (post : Post) : Prop :=
  match (received post).find? (answersPost reqId) with
  | some msg => sendRequest reqId post = .ok (msg, answer msg)
  | none => ∀ got, sendRequest reqId post ≠ .ok got

def firstObject : Body → Option Fields
  | .json (some (.obj msg)) => some msg
  | .json _ => none
  | .sse lines =>
    match lines.find? (fun line => match line with
      | .data (.obj _) => true
      | .raises => true
      | _ => false) with
    | some (.data (.obj msg)) => some msg
    | _ => none

def firstReceived : Post → Option Fields
  | .response r => if 400 ≤ r.status then none else firstObject r.body
  | _ => none

/-- Where something answers the request, the first object does, and its error is falsy or an object; a first object whose id
passes is no request or notification of the server's. -/
structure HttpOk (reqId : Nat) (post : Post) : Prop where
  first : ∀ msg ∈ received post, answersPost reqId msg = true →
    ∃ first, firstReceived post = some first ∧ answersPost reqId first = true ∧ (reply first).isSome
  alone : ∀ msg, firstReceived post = some msg → idPasses reqId msg = true → (reply msg).isSome → answersPost reqId msg = true

/-! ## a request and its future -/

theorem end_of_not_waiting {request : Request} (outcome : Outcome) (h : request ≠ .waiting) : request.end outcome = request := by
  cases request with
  | waiting => exact absurd rfl h
  | _ => rfl

theorem end_ne_waiting (outcome : Outcome) (request : Request) : request.end outcome ≠ .waiting := by
  intro h
  cases request <;> cases h

theorem isWaiting_iff {request : Request} : request.isWaiting = true ↔ request = .waiting := by
  cases request with
  | waiting => exact ⟨fun _ => rfl, fun _ => rfl⟩
  | _ => exact ⟨(fun h => by cases h), fun h => by cases h⟩

/-! ## what a frame carries -/

theorem reply_answer {msg : Fields} {a : Answer} (h : reply msg = some a) : a = answer msg := by
  unfold reply at h
  unfold answer
  cases herr : Json.field msg "error" with
  | none =>
    rw [herr] at h
    exact (Option.some.inj h).symm
  | some err =>
    rw [herr] at h
    cases err with
    | obj fields => exact (Option.some.inj h).symm
    | _ =>
      simp only at h
      split at h
      · cases h
      · exact (Option.some.inj h).symm

theorem carries_id {msg : Fields} {id : Nat} (h : carries msg id = true) :
    ∃ value, Json.get msg "id" = some value ∧ value.toInt = some (id : Int) ∧ value.eqInt id = true := by
  have hid : (Json.get msg "id").any (·.isNumber id) = true := ((Bool.and_eq_true _ _).mp h).2
  cases hvalue : Json.get msg "id" with
  | none =>
    rw [hvalue] at hid
    cases hid
  | some value =>
    rw [hvalue] at hid
    exact ⟨value, rfl, Json.toInt_of_isNumber hid, Json.eqInt_of_isNumber hid⟩

/-! ## a step -/

def Registered (s : State) : Prop := ∀ id, id ∈ s.pending ↔ s.requests id = .waiting

structure Moves (s : State) (a : Act) (s' : State) : Prop where
  requests : ∀ id, s'.requests id = owe id (s.requests id) a
  reader : s'.reading = (!a.disconnects && s.reading)
  registered : Registered s'

theorem failPending_requests {s : State} (h : Registered s) (id : Nat) :
    s.failPending.requests id = (s.requests id).end .closed := by
  show (if id ∈ s.pending then _ else _) = _
  by_cases hid : id ∈ s.pending
  · rw [if_pos hid]
  · rw [if_neg hid, end_of_not_waiting _ (fun hw => hid ((h id).2 hw))]

theorem failPending_registered {s : State} (h : Registered s) : Registered s.failPending := by
  intro id
  rw [failPending_requests h]
  exact ⟨fun hid => absurd hid List.not_mem_nil, fun hw => absurd hw (end_ne_waiting _ _)⟩

theorem finish_requests {s : State} {id : Nat} (outcome : Outcome) (i : Nat) :
    (s.finish id outcome).requests i = if i = id then (s.requests i).end outcome else s.requests i := by
  show Function.update s.requests id _ i = _
  rw [Function.update_apply]
  split
  · next h => rw [h]
  · rfl

theorem finish_registered {s : State} {id : Nat} (outcome : Outcome) (h : Registered s) : Registered (s.finish id outcome) := by
  intro i
  rw [finish_requests]
  have hmem : i ∈ (s.finish id outcome).pending ↔ i ∈ s.pending ∧ i ≠ id := by
    show i ∈ s.pending.filter _ ↔ _
    simp
  rw [hmem, h i]
  by_cases hi : i = id
  · rw [if_pos hi]
    exact ⟨fun hw => absurd hi hw.2, fun hw => absurd hw (end_ne_waiting _ _)⟩
  · rw [if_neg hi]
    exact ⟨fun hw => hw.1, fun hw => ⟨hw, hi⟩⟩

theorem finish_moves {s s' : State} {a : Act} {id : Nat} {outcome : Outcome} (h : Registered s)
    (hact : (if (s.requests id).isWaiting then some (s.finish id outcome) else none) = some s') (ha : a.disconnects = false)
    (howe : ∀ i request, owe i request a = if id = i then request.end outcome else request) : Moves s a s' := by
  split at hact
  · cases hact
    refine ⟨fun i => ?_, ?_, finish_registered _ h⟩
    · rw [finish_requests, howe]
      simp only [eq_comm]
    · rw [ha]
      rfl
  · cases hact

theorem dispatch_spec {s : State} {msg : Fields} (h : Registered s) (hok : LineOk s (.json (.obj msg))) :
    (∀ id, (dispatch s msg).requests id = if carries msg id then (s.requests id).end (.answered msg (answer msg)) else s.requests id) ∧
      (dispatch s msg).reading = s.reading ∧ Registered (dispatch s msg) := by
  -- a frame that no pending request takes is carried by none
  have hfree : (∀ id, carries msg id = true → id ∉ s.pending) → ∀ id,
      s.requests id = if carries msg id then (s.requests id).end (.answered msg (answer msg)) else s.requests id := by
    intro hno id
    split
    · next hc => exact (end_of_not_waiting _ (fun hw => hno id hc ((h id).2 hw))).symm
    · rfl
  cases hid : Json.get msg "id" with
  | none =>
    have hd : dispatch s msg = s := by
      unfold dispatch
      rw [hid]
    rw [hd]
    refine ⟨hfree (fun id hc => ?_), rfl, h⟩
    obtain ⟨value, hvalue, -⟩ := carries_id hc
    rw [hid] at hvalue
    cases hvalue
  | some value =>
    obtain ⟨reqId, hint, hpend⟩ := hok value hid
    have hcarries : ∀ id, carries msg id = true → (id : Int) = reqId := by
      intro id hc
      obtain ⟨v, hv, hn, -⟩ := carries_id hc
      cases hid.symm.trans hv
      exact Option.some.inj (hn.symm.trans hint)
    cases hfind : s.pending.find? (fun id : Nat => (id : Int) = reqId) with
    | none =>
      have hd : dispatch s msg = s := by
        unfold dispatch
        simp only [hid, hint, hfind]
      rw [hd]
      refine ⟨hfree (fun id hc hmem => ?_), rfl, h⟩
      exact List.find?_eq_none.1 hfind id hmem (decide_eq_true (hcarries id hc))
    | some id =>
      have hmem : id ∈ s.pending := List.mem_of_find?_eq_some hfind
      have heq : (id : Int) = reqId := by simpa using List.find?_some hfind
      obtain ⟨hc, hr⟩ := hpend id hmem heq
      obtain ⟨a, ha⟩ := Option.isSome_iff_exists.1 hr
      have hw : (s.requests id).isWaiting = true := isWaiting_iff.2 ((h id).1 hmem)
      have hd : dispatch s msg = s.finish id (.answered msg (answer msg)) := by
        unfold dispatch
        simp only [hid, hint, hfind, hw, ha, if_true, reply_answer ha]
      rw [hd]
      refine ⟨fun i => ?_, rfl, finish_registered _ h⟩
      rw [finish_requests]
      by_cases hi : i = id
      · rw [if_pos hi, if_pos (hi ▸ hc)]
      · rw [if_neg hi, if_neg (fun hci => hi (Int.ofNat_inj.1 ((hcarries i hci).trans heq.symm)))]

theorem act_moves {s s' : State} {a : Act} (h : Registered s) (hok : FrameOk s a) (hact : act s a = some s') : Moves s a s' := by
  cases a with
  | sends id =>
    simp only [act] at hact
    cases hr : s.requests id with
    | unsent =>
      simp only [hr] at hact
      split at hact
      · cases hact
      · cases hact
        refine ⟨fun i => ?_, by simp [Act.disconnects], fun i => ?_⟩
        · show Function.update s.requests id .waiting i = if id = i then _ else _
          rw [Function.update_apply]
          simp only [eq_comm]
        · show i ∈ id :: s.pending ↔ Function.update s.requests id .waiting i = _
          rw [Function.update_apply, List.mem_cons, h i]
          by_cases hi : i = id
          · simp [hi]
          · simp [hi]
    | _ =>
      rw [hr] at hact
      cases hact
  | sendFails | timesOut | cancels => exact finish_moves h hact rfl (fun _ _ => rfl)
  | reads line =>
    simp only [act] at hact
    split at hact
    · cases hact
      cases line with
      | raises => exact hok.elim
      | blank | malformed => exact ⟨fun _ => rfl, rfl, h⟩
      | json value =>
        cases value with
        | obj msg =>
          obtain ⟨hrequests, hreading, hregistered⟩ := dispatch_spec h hok
          exact ⟨hrequests, hreading, hregistered⟩
        | _ => exact ⟨fun _ => rfl, rfl, h⟩
    · cases hact
  | eof =>
    simp only [act] at hact
    split at hact
    · cases hact
      exact ⟨failPending_requests h, rfl, failPending_registered h⟩
    · cases hact
  | closes =>
    cases hact
    exact ⟨failPending_requests h, rfl, failPending_registered h⟩

theorem step_moves {s s' : State} {a : Act} (h : Registered s) (hok : FrameOk s a) (hstep : step s a = some s') :
    Moves s a s' ∧ s'.past = a :: s.past := by
  obtain ⟨t, ht, rfl⟩ := Option.map_eq_some_iff.1 hstep
  have hm := act_moves h hok ht
  exact ⟨{ hm with }, rfl⟩

theorem delivers_start : Delivers .start := ⟨fun _ => rfl, rfl⟩

theorem delivers_step {s s' : State} {a : Act} (h : Delivers s) (hm : Moves s a s') (hpast : s'.past = a :: s.past) :
    Delivers s' := by
  refine ⟨fun id => ?_, ?_⟩
  · rw [hm.requests, h.requests, hpast]
    rfl
  · rw [hm.reader, h.reader, hpast]
    rfl

/-! ## the response to a POST -/

theorem parseBody_cases (body : Body) :
    (∃ msg rest, parseBody body = .ok msg ∧ firstObject body = some msg ∧ frames body = msg :: rest) ∨
      firstObject body = none ∧ ∃ failure, parseBody body = .error failure := by
  cases body with
  | json value =>
    cases value with
    | none => exact .inr ⟨rfl, .notJson, rfl⟩
    | some v =>
      cases v with
      | obj msg => exact .inl ⟨msg, [], rfl, rfl, rfl⟩
      | _ => exact .inr ⟨rfl, .notObject, rfl⟩
  | sse lines =>
    induction lines with
    | nil => exact .inr ⟨rfl, .noFrame, rfl⟩
    | cons line lines ih =>
      cases line with
      | other => exact ih
      | malformed => exact ih
      | raises => exact .inr ⟨rfl, .raised, rfl⟩
      | data v =>
        cases v with
        | obj msg => exact .inl ⟨msg, _, rfl, rfl, rfl⟩
        | _ => exact ih

theorem parseResponse_ok {body : Body} {reqId : Nat} {msg : Fields} {a : Answer} (h : parseResponse body reqId = .ok (msg, a)) :
    parseBody body = .ok msg ∧ idPasses reqId msg = true ∧ reply msg = some a := by
  unfold parseResponse at h
  cases hb : parseBody body with
  | error failure =>
    rw [hb] at h
    cases h
  | ok first =>
    rw [hb] at h
    simp only [Except.bind] at h
    split at h
    · next hid =>
      split at h
      · cases h
      · next b hr =>
        cases h
        exact ⟨rfl, hid, hr⟩
    · cases h

/-- **A request is answered by the first object exactly when its id passes and its error can be read.** -/
theorem sendRequest_ok_iff (reqId : Nat) (post : Post) (msg : Fields) (a : Answer) :
    sendRequest reqId post = .ok (msg, a) ↔ firstReceived post = some msg ∧ idPasses reqId msg = true ∧ reply msg = some a := by
  cases post with
  | response r =>
    by_cases hs : 400 ≤ r.status
    · simp [sendRequest, firstReceived, hs]
    · simp only [sendRequest, firstReceived, hs, if_false]
      obtain ⟨first, rest, hb, hf, -⟩ | ⟨hf, failure, hb⟩ := parseBody_cases r.body
      · refine ⟨fun h => ?_, fun ⟨hmsg, hid, hr⟩ => ?_⟩
        · obtain ⟨hok, hid, hr⟩ := parseResponse_ok h
          rw [hf, ← Except.ok.inj (hb.symm.trans hok)]
          exact ⟨rfl, Except.ok.inj (hb.symm.trans hok) ▸ hid, Except.ok.inj (hb.symm.trans hok) ▸ hr⟩
        · cases hf.symm.trans hmsg
          simp only [parseResponse, hb, Except.bind, hid, if_true, hr]
      · refine ⟨fun h => ?_, fun ⟨hmsg, _⟩ => ?_⟩
        · cases hb.symm.trans (parseResponse_ok h).1
        · cases hf.symm.trans hmsg
  | _ => exact ⟨(fun h => by cases h), fun h => by cases h.1⟩

theorem received_of_first {post : Post} {msg : Fields} (h : firstReceived post = some msg) : ∃ rest, received post = msg :: rest := by
  cases post with
  | response r =>
    simp only [firstReceived, received] at h ⊢
    split at h
    · cases h
    · next hs =>
      rw [if_neg hs]
      obtain ⟨first, rest, -, hf, hall⟩ | ⟨hf, -⟩ := parseBody_cases r.body
      · cases hf.symm.trans h
        exact ⟨rest, hall⟩
      · cases hf.symm.trans h
  | _ => cases h

theorem idPasses_of_answers {reqId : Nat} {msg : Fields} (h : answersPost reqId msg = true) : idPasses reqId msg = true := by
  have hid : ((Json.get msg "id").isNone || carries msg reqId) = true := ((Bool.and_eq_true _ _).mp h).2
  unfold idPasses
  cases hget : Json.get msg "id" with
  | none => rfl
  | some value =>
    rw [hget] at hid
    have hcarries : carries msg reqId = true := by simpa using hid
    obtain ⟨v, hv, -, heq⟩ := carries_id hcarries
    cases hget.symm.trans hv
    exact heq

theorem httpDelivers_iff (reqId : Nat) (post : Post) : HttpDelivers reqId post ↔ HttpOk reqId post := by
  unfold HttpDelivers
  cases hfind : (received post).find? (answersPost reqId) with
  | none =>
    have hnone := List.find?_eq_none.1 hfind
    refine ⟨fun h => ⟨fun msg hmem ha => absurd ha (hnone msg hmem), fun msg hf hid hr => ?_⟩, fun h got hgot => ?_⟩
    · obtain ⟨a, ha⟩ := Option.isSome_iff_exists.1 hr
      exact absurd ((sendRequest_ok_iff reqId post msg a).2 ⟨hf, hid, ha⟩) (h _)
    · obtain ⟨hf, hid, hr⟩ := (sendRequest_ok_iff reqId post got.1 got.2).1 hgot
      obtain ⟨rest, hall⟩ := received_of_first hf
      exact hnone got.1 (hall ▸ List.mem_cons_self) (h.alone got.1 hf hid (hr ▸ rfl))
  | some msg =>
    have hans : answersPost reqId msg = true := List.find?_some hfind
    have hmem : msg ∈ received post := List.mem_of_find?_eq_some hfind
    refine ⟨fun h => ?_, fun h => ?_⟩
    · obtain ⟨hf, hid, hr⟩ := (sendRequest_ok_iff reqId post _ _).1 h
      refine ⟨fun _ _ _ => ⟨msg, hf, hans, hr ▸ rfl⟩, fun other hother _ _ => ?_⟩
      cases hf.symm.trans hother
      exact hans
    · obtain ⟨first, hf, hfa, hr⟩ := h.first msg hmem hans
      obtain ⟨rest, hall⟩ := received_of_first hf
      have hsame : first = msg := by
        rw [hall, List.find?_cons_of_pos hfa] at hfind
        exact Option.some.inj hfind
      obtain ⟨a, ha⟩ := Option.isSome_iff_exists.1 hr
      show sendRequest reqId post = .ok (msg, answer msg)
      rw [← hsame, ← reply_answer ha]
      exact (sendRequest_ok_iff reqId post first a).2 ⟨hf, idPasses_of_answers hfa, ha⟩

/-- **Every response to its request**: over stdio in every run whose lines meet the condition, over HTTP exactly when the first
object of the body does. -/
theorem responses_delivered (s : State) (reqId : Nat) (post : Post) :
    (Runs step FrameOk .start s → Delivers s) ∧ (HttpDelivers reqId post ↔ HttpOk reqId post) := by
  refine ⟨fun h => ?_, httpDelivers_iff reqId post⟩
  have hstart : Registered .start := fun id => ⟨(fun h => by cases h), fun h => by cases h⟩
  have hinv : Delivers s ∧ Registered s := by
    refine h.invariant (P := fun t => Delivers t ∧ Registered t) ⟨delivers_start, hstart⟩ (fun t a t' ht hok hstep => ?_)
    obtain ⟨hm, hpast⟩ := step_moves ht.2 hok hstep
    exact ⟨delivers_step ht.1 hm hpast, hm.registered⟩
  exact hinv.1

def twoRequests : List Act :=
  [.sends 1, .sends 2, .reads (.json (.obj [("method", .str "notifications/progress")])),
    .reads (.json (.obj [("id", .int 7), ("method", .str "roots/list")])), .reads .malformed,
    .reads (.json (.obj [("id", .int 2), ("result", .obj [])])),
    .reads (.json (.obj [("id", .int 1), ("error", .obj [("code", .int (-32601))])]))]

theorem twoRequests_runs : Runs step FrameOk .start (play step .start twoRequests) := by
  have h1 : Runs step FrameOk .start (play step .start (twoRequests.take 2)) :=
    .next (.sends 2) (.next (.sends 1) .refl trivial rfl) trivial rfl
  have h2 : FrameOk (play step .start (twoRequests.take 2)) (.reads (.json (.obj [("method", .str "notifications/progress")]))) := by
    intro value h
    cases h
  have h3 : FrameOk (play step .start (twoRequests.take 3))
      (.reads (.json (.obj [("id", .int 7), ("method", .str "roots/list")]))) := by
    intro value h
    cases h
    exact ⟨7, rfl, by decide⟩
  have h5 : FrameOk (play step .start (twoRequests.take 5)) (.reads (.json (.obj [("id", .int 2), ("result", .obj [])]))) := by
    intro value h
    cases h
    exact ⟨2, rfl, by decide⟩
  have h6 : FrameOk (play step .start (twoRequests.take 6))
      (.reads (.json (.obj [("id", .int 1), ("error", .obj [("code", .int (-32601))])]))) := by
    intro value h
    cases h
    exact ⟨1, rfl, by decide⟩
  exact .next _ (.next _ (.next (.reads .malformed) (.next _ (.next _ h1 h2 rfl) h3 rfl) trivial rfl) h5 rfl) h6 rfl

theorem responses_delivered_two : Delivers (play step .start twoRequests) ∧
    HttpDelivers 1 (.response ⟨200, .sse [.malformed, .data (.obj [("id", .int 1), ("result", .obj [])])]⟩) := by
  have h := responses_delivered (play step .start twoRequests) 1
    (.response ⟨200, .sse [.malformed, .data (.obj [("id", .int 1), ("result", .obj [])])]⟩)
  refine ⟨h.1 twoRequests_runs, h.2.2 ⟨fun msg hmem _ => ?_, fun msg h _ _ => ?_⟩⟩
  · exact ⟨_, rfl, by decide, by decide⟩
  · cases h
    decide

def strangeId : List Act := [.sends 1, .reads (.json (.obj [("id", .str "abc"), ("method", .str "ping")]))]

/-- **Stopped by an id, and answered by a notification.** -/
theorem strange_id_stops_the_reader :
    ¬ (∀ s, Reaches step .start s → Delivers s) ∧ ¬ ∀ reqId post, HttpDelivers reqId post := by
  refine ⟨fun h => ?_, fun h => ?_⟩
  · have hs := (h (play step .start strangeId) (reaches_play rfl)).reader
    exact absurd hs (by decide)
  · exact h 1 (.response ⟨200, .sse [.data (.obj [("method", .str "notifications/progress")])]⟩) _ rfl

end Mcp
end MyGpt
