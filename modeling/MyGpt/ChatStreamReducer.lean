import MyGpt.ChatStreamState
import MyGpt.Json
import Mathlib.Data.List.Sort
/-!
# ChatStreamReducer — all that a stream of chat events writes in the client

`reduce` of `chat-stream-state.ts` with the lists it keeps: the steps, the citations and the approvals.  Without them it is
the reducer of `ChatStreamState` (`view_reduce`).  The steps stay sorted and distinct and the message is committed once;
after the end the lists and the text go on, and what the end has settled stays (`chat_stream`).
-/
namespace MyGpt
namespace Client
namespace Reducer

open Chat (Text)

/-! ## the lists -/

/-- A citation, with what `urlKey` makes of its url. -/
structure Citation where
  documentName : String
  snippet : String := ""
  sourceType : Option String := none
  urlKey : Option String := none
  deriving DecidableEq

structure StepTool where
  name : String
  dangerous : Option Bool := none
  argumentsPreview : Option Json := none
  resultPreview : Option String := none
  ok : Option Bool := none

/-- The times are the clock's, before `toISOString`. -/
structure AgentStep where
  id : String
  sequence : Nat
  type : String
  title : String
  summary : Option String := none
  status : String
  startedAt : Option Nat := none
  finishedAt : Option Nat := none
  tool : Option StepTool := none

structure PendingApproval where
  runId : String
  approvalId : String
  toolName : String
  summary : String
  riskLevel : String
  argumentsPreview : Json

def Citation.webKey (c : Citation) : Option String := if c.sourceType = some "web" then c.urlKey.filter (· ≠ "") else none

def mergeFrom (seen : List String) : List Citation → List Citation
  | [] => []
  | c :: incoming =>
    match c.webKey with
    | none => c :: mergeFrom seen incoming
    | some key => if seen.contains key then mergeFrom seen incoming else c :: mergeFrom (key :: seen) incoming

def mergeCitations (existing incoming : List Citation) : List Citation :=
  existing ++ mergeFrom (existing.filterMap Citation.webKey) incoming

def replaceFirst (next : AgentStep) : List AgentStep → List AgentStep
  | [] => []
  | s :: steps => if s.id = next.id then next :: steps else s :: replaceFirst next steps

def sortSteps (steps : List AgentStep) : List AgentStep := steps.insertionSort (fun a b => a.sequence ≤ b.sequence)

def replaceStep (steps : List AgentStep) (next : AgentStep) : List AgentStep :=
  sortSteps (if steps.any (fun s => s.id = next.id) then replaceFirst next steps else steps ++ [next])

def findStep (steps : List AgentStep) (id : String) : Option AgentStep := steps.find? (fun s => s.id = id)

/-! ## the state -/

structure AssistantCommit where
  conversationId : String
  messageId : String
  content : Text
  finishReason : String
  citations : List Citation
  steps : List AgentStep
  runId : String

structure StreamState where
  conversationId : Option String := none
  assistantMessageId : String := ""
  runId : String := ""
  text : Text := []
  citations : List Citation := []
  steps : List AgentStep := []
  stepsSinceTextFrom : Nat := 0
  pendingApprovals : List PendingApproval := []
  error : Option String := none
  status : GenerationStatus := .complete
  finishReason : Option String := none
  validation : Option ValidationNotice := none
  terminated : Bool := false
  commit : Option AssistantCommit := none
  stepSeq : Nat := 0

def initialStreamState (conversationId : Option String) : StreamState := { conversationId := conversationId }

inductive StreamEvent
  | seed (conversationId messageId : Option String)
  /-- the `meta` frame -/
  | turnMeta (conversationId messageId : String)
  /-- `run_started`, `runtime_selected` and `agent_graph` -/
  | runStarted (runId : String)
  | plan (summary : Option String) (steps : List (String × String))
  | instructionReceived (instruction : String)
  | stepStarted (stepId title : String) (type : Option String)
  | stepCompleted (stepId : String) (status : Option String)
  | toolCall (id name : String) (arguments : Option Json) (dangerous : Option Bool)
  /-- with the preview of the result, and what `extractWebCitations` makes of it -/
  | toolResult (id name : String) (ok : Bool) (preview : Option String) (web : List Citation)
  | token (delta : Text) (replace : Bool)
  | citations (incoming : Option (List Citation))
  | validation (notice : ValidationNotice)
  | approvalRequired (approval : PendingApproval)
  | approvalResolved (approvalId : String)
  | done (messageId : Option String) (finishReason : String)
  /-- with what `userErrorMessage` makes of the event -/
  | error (code : Option String) (message : String)
  | fetchFailed (message : String)
  | streamEnd (reason : StreamEndReason)

def StreamEvent.closes : StreamEvent → Bool
  | .done _ _ | .error _ _ | .fetchFailed _ | .streamEnd _ => true
  | _ => false

namespace StreamState

variable (s : StreamState)

def withStep (step : AgentStep) (stepSeq : Nat) : StreamState :=
  { s with stepSeq := stepSeq, steps := replaceStep s.steps step }

/-- `commit`, where `conversationId` is not empty. -/
def committed (conversationId finish messageId : String) : StreamState :=
  { s with
    terminated := true
    finishReason := some finish
    status := finishReasonToStatus finish
    commit := some ⟨conversationId, messageId, s.text, finish, s.citations, s.steps, s.runId⟩ }

def ended (finish : String) : StreamState :=
  { s with terminated := true, finishReason := some finish, status := finishReasonToStatus finish }

def conversation : Option String := s.conversationId.filter (· ≠ "")

end StreamState

def planned (summary : Option String) : List (String × String) → StreamState → StreamState
  | [], s => s
  | (id, title) :: steps, s =>
    planned none steps (s.withStep { id := id, sequence := s.stepSeq + 1, type := "plan", title := title, summary := summary,
                                     status := "pending" } (s.stepSeq + 1))

section
variable (now : Nat) (s : StreamState)

def stepStarted (stepId title : String) (type : Option String) : StreamState :=
  let seq := s.stepSeq + 1
  match findStep s.steps stepId with
  | some existing => s.withStep { existing with status := "running", type := orElse type existing.type, title := title } seq
  | none =>
    s.withStep { id := stepId, sequence := seq, type := orElse type "agent", title := title, status := "running",
                 startedAt := some now } seq

def stepCompleted (stepId : String) (status : Option String) : StreamState :=
  match findStep s.steps stepId with
  -- a step that never started is not made up
  | none => s
  | some existing =>
    { s with steps := replaceStep s.steps { existing with status := orElse status "done", finishedAt := some now } }

def toolResult (id name : String) (ok : Bool) (preview : Option String) (web : List Citation) : StreamState :=
  let next :=
    match findStep s.steps id with
    | none => s
    | some existing =>
      { s with
        steps := replaceStep s.steps
          { existing with
            status := if ok then "done" else "error"
            finishedAt := some now
            tool := some { existing.tool.getD { name := name } with name := name, ok := some ok, resultPreview := preview } } }
  if ok = true ∧ (name = "web_search" ∨ name = "http_get") ∧ web ≠ [] then
    { next with citations := mergeCitations next.citations web }
  else next

/-- `done`, `error`, `fetch_failed` and `stream_end`, in a stream that goes on. -/
def close : StreamEvent → StreamState
  | .done messageId finish =>
    match s.conversation with
    | some conversationId => s.committed conversationId finish (orElse messageId s.assistantMessageId)
    | none => s.ended finish
  | .error code message =>
    match s.conversation with
    | some conversationId =>
      { s.committed conversationId (errorFinishReason code) s.assistantMessageId with error := some message }
    | none => { s.ended (errorFinishReason code) with error := some message }
  | .fetchFailed message =>
    match s.conversation, s.text with
    | some conversationId, _ :: _ =>
      { s.committed conversationId "error" s.assistantMessageId with error := some message }
    | _, _ => { s.ended "error" with error := some message }
  | .streamEnd .unmount => s
  | .streamEnd .userStop =>
    match s.conversation, s.text with
    | some conversationId, _ :: _ =>
      s.committed conversationId "cancelled" (orElse (some s.assistantMessageId) ("cancelled-" ++ toString now))
    | _, _ => s.ended "cancelled"
  | .streamEnd .socketClosed =>
    match s.conversation, s.text with
    | some conversationId, _ :: _ =>
      { s.committed conversationId "stream_disconnected"
          (orElse (some s.assistantMessageId) ("interrupted-" ++ toString now)) with
        error := some "连接中断，已保留已生成内容" }
    | _, _ => s
  | _ => s

def reduce : StreamEvent → StreamState
  | .seed conversationId messageId =>
    { s with
      conversationId := if conversationId.getD "" = "" then s.conversationId else conversationId
      assistantMessageId := orElse messageId s.assistantMessageId }
  | .turnMeta conversationId messageId => { s with conversationId := some conversationId, assistantMessageId := messageId }
  | .runStarted runId => { s with runId := runId }
  | .plan summary steps => planned summary steps s
  | .instructionReceived instruction =>
    s.withStep { id := "instr-" ++ toString (s.stepSeq + 1), sequence := s.stepSeq + 1, type := "approval",
                 title := "已接收追加指引：" ++ instruction, status := "done" } (s.stepSeq + 1)
  | .stepStarted stepId title type => stepStarted now s stepId title type
  | .stepCompleted stepId status => stepCompleted now s stepId status
  | .toolCall id name arguments dangerous =>
    s.withStep { id := id, sequence := s.stepSeq + 1, type := "tool", title := name, status := "running",
                 startedAt := some now,
                 tool := some { name := name, dangerous := dangerous, argumentsPreview := arguments } } (s.stepSeq + 1)
  | .toolResult id name ok preview web => toolResult now s id name ok preview web
  | .token delta replace =>
    { s with text := if replace then delta else s.text ++ delta, stepsSinceTextFrom := s.steps.length }
  | .citations none => s
  | .citations (some incoming) => { s with citations := mergeCitations s.citations incoming }
  | .validation notice =>
    if refuses notice.status then { s with validation := some notice, text := notice.message }
    else { s with validation := some notice, text := notice.correctedText.getD s.text }
  | .approvalRequired approval =>
    if s.pendingApprovals.any (fun p => p.approvalId = approval.approvalId) then s
    else { s with pendingApprovals := s.pendingApprovals ++ [approval] }
  | .approvalResolved approvalId =>
    { s with pendingApprovals := s.pendingApprovals.filter (fun p => p.approvalId ≠ approvalId) }
  | event => if s.terminated then s else close now s event

end

def reduceAll (s : StreamState) (events : List (Nat × StreamEvent)) : StreamState :=
  events.foldl (fun s e => reduce e.1 s e.2) s

/-! ## what is to hold -/

structure Listed (steps : List AgentStep) (stepSeq : Nat) : Prop where
  ids : (steps.map (·.id)).Nodup
  sorted : steps.Pairwise (fun a b => a.sequence ≤ b.sequence)
  counted : ∀ s ∈ steps, s.sequence ≤ stepSeq

structure Settled (s s' : StreamState) : Prop where
  terminated : s'.terminated = s.terminated
  commit : s'.commit = s.commit
  finishReason : s'.finishReason = s.finishReason
  status : s'.status = s.status
  error : s'.error = s.error

theorem Settled.refl (s : StreamState) : Settled s s := ⟨rfl, rfl, rfl, rfl, rfl⟩

theorem Settled.trans {s t u : StreamState} (h : Settled s t) (h' : Settled t u) : Settled s u :=
  ⟨h'.terminated.trans h.terminated, h'.commit.trans h.commit, h'.finishReason.trans h.finishReason,
    h'.status.trans h.status, h'.error.trans h.error⟩

/-! ## the step list -/

section
variable {steps : List AgentStep} {next : AgentStep} {n : Nat}

theorem replaceFirst_ids (steps : List AgentStep) (next : AgentStep) :
    (replaceFirst next steps).map (·.id) = steps.map (·.id) := by
  induction steps with
  | nil => rfl
  | cons s steps ih =>
    rw [replaceFirst]
    split
    · rename_i hid
      rw [List.map_cons, List.map_cons, hid]
    · rw [List.map_cons, List.map_cons, ih]

theorem mem_replaceFirst {s : AgentStep} (h : s ∈ replaceFirst next steps) : s = next ∨ s ∈ steps := by
  induction steps with
  | nil => cases h
  | cons x steps ih =>
    rw [replaceFirst] at h
    split at h
    · exact (List.mem_cons.1 h).imp_right (List.mem_cons_of_mem x)
    · rcases List.mem_cons.1 h with rfl | h
      · exact .inr List.mem_cons_self
      · exact (ih h).imp_right (List.mem_cons_of_mem x)

/-- **A step that is put in keeps the list in order**, when the counter covers its number. -/
theorem listed_replaceStep (h : Listed steps n) {m : Nat} (hn : n ≤ m) (hm : next.sequence ≤ m) :
    Listed (replaceStep steps next) m := by
  set out := if steps.any (fun s => s.id = next.id) then replaceFirst next steps else steps ++ [next] with hout
  have hperm := List.perm_insertionSort (fun a b : AgentStep => a.sequence ≤ b.sequence) out
  have hids : (out.map (·.id)).Nodup := by
    rw [hout]
    split
    · rw [replaceFirst_ids]
      exact h.ids
    · rename_i hany
      rw [List.map_append, List.map_singleton]
      refine List.nodup_append.2 ⟨h.ids, List.nodup_singleton _, fun a ha b hb he => hany ?_⟩
      obtain ⟨s, hs, rfl⟩ := List.mem_map.1 ha
      exact List.any_eq_true.2 ⟨s, hs, decide_eq_true (he.trans (List.mem_singleton.1 hb))⟩
  have hcounted : ∀ s ∈ out, s.sequence ≤ m := by
    intro s hs
    have hcases : s = next ∨ s ∈ steps := by
      rw [hout] at hs
      split at hs
      · exact mem_replaceFirst hs
      · exact (List.mem_append.1 hs).symm.imp_left List.mem_singleton.1
    rcases hcases with rfl | hold
    · exact hm
    · exact (h.counted s hold).trans hn
  refine ⟨(hperm.map _).nodup_iff.2 hids, ?_, fun s hs => hcounted s (hperm.mem_iff.1 hs)⟩
  have : Std.Total (fun a b : AgentStep => a.sequence ≤ b.sequence) := ⟨fun a b => Nat.le_total _ _⟩
  have : IsTrans AgentStep (fun a b => a.sequence ≤ b.sequence) := ⟨fun a b c => Nat.le_trans⟩
  exact List.pairwise_insertionSort _ out

theorem findStep_mem {id : String} {s : AgentStep} (h : findStep steps id = some s) : s ∈ steps :=
  List.mem_of_find?_eq_some h

end

/-! ## one event -/

section
variable {s : StreamState}

theorem withStep_settled (s : StreamState) (step : AgentStep) (stepSeq : Nat) : Settled s (s.withStep step stepSeq) :=
  ⟨rfl, rfl, rfl, rfl, rfl⟩

theorem planned_settled (summary : Option String) (steps : List (String × String)) (s : StreamState) :
    Settled s (planned summary steps s) := by
  induction steps generalizing summary s with
  | nil => exact .refl s
  | cons step steps ih =>
    rw [planned]
    exact (withStep_settled s _ _).trans (ih none _)

theorem planned_listed (summary : Option String) (steps : List (String × String)) (h : Listed s.steps s.stepSeq) :
    Listed (planned summary steps s).steps (planned summary steps s).stepSeq := by
  induction steps generalizing summary s with
  | nil => exact h
  | cons step steps ih =>
    rw [planned]
    exact ih none (listed_replaceStep h (Nat.le_succ _) (Nat.le_refl _))

theorem reduce_settled (now : Nat) {event : StreamEvent} (h : event.closes = false) : Settled s (reduce now s event) := by
  cases event with
  | plan summary steps => exact planned_settled summary steps s
  | stepStarted stepId title type =>
    show Settled s (stepStarted now s stepId title type)
    unfold stepStarted
    split <;> exact ⟨rfl, rfl, rfl, rfl, rfl⟩
  | stepCompleted stepId status =>
    show Settled s (stepCompleted now s stepId status)
    unfold stepCompleted
    split <;> exact ⟨rfl, rfl, rfl, rfl, rfl⟩
  | toolResult id name ok preview web =>
    show Settled s (toolResult now s id name ok preview web)
    unfold toolResult
    dsimp only
    split <;> split <;> exact ⟨rfl, rfl, rfl, rfl, rfl⟩
  | citations incoming => cases incoming <;> exact ⟨rfl, rfl, rfl, rfl, rfl⟩
  | validation | approvalRequired =>
    rw [reduce]
    split <;> exact ⟨rfl, rfl, rfl, rfl, rfl⟩
  | done | error | fetchFailed | streamEnd => cases h
  | _ => exact ⟨rfl, rfl, rfl, rfl, rfl⟩

theorem reduce_closed (now : Nat) {event : StreamEvent} (hclose : event.closes = true) (h : s.terminated = true) :
    reduce now s event = s := by
  cases event with
  | done | error | fetchFailed | streamEnd =>
    rw [reduce]
    · exact if_pos h
    all_goals exact nofun
  | _ => cases hclose

/-- **What a closing event makes of a stream that goes on**: nothing, or an end with the lists as they are. -/
theorem close_cases (now : Nat) (s : StreamState) (event : StreamEvent) : close now s event = s ∨
    ((close now s event).terminated = true ∧ (close now s event).steps = s.steps ∧ (close now s event).stepSeq = s.stepSeq) := by
  generalize hclose : close now s event = t
  cases event with
  | done | error | fetchFailed =>
    rw [close] at hclose
    split at hclose <;> subst hclose <;> exact .inr ⟨rfl, rfl, rfl⟩
  | streamEnd reason =>
    cases reason with
    | userStop =>
      rw [close] at hclose
      split at hclose <;> subst hclose <;> exact .inr ⟨rfl, rfl, rfl⟩
    | unmount => exact .inl hclose.symm
    | socketClosed =>
      rw [close] at hclose
      split at hclose
      · subst hclose
        exact .inr ⟨rfl, rfl, rfl⟩
      · exact .inl hclose.symm
  | _ => exact .inl hclose.symm

theorem reduce_close (now : Nat) {event : StreamEvent} (hclose : event.closes = true) (h : s.terminated = false) :
    reduce now s event = close now s event := by
  cases event with
  | done | error | fetchFailed | streamEnd =>
    rw [reduce]
    · exact if_neg (by simp [h])
    all_goals exact nofun
  | _ => cases hclose

theorem listed_update (h : Listed s.steps s.stepSeq) {id : String} {existing next : AgentStep}
    (hfound : findStep s.steps id = some existing) (hnext : next.sequence = existing.sequence) {m : Nat} (hm : s.stepSeq ≤ m) :
    Listed (replaceStep s.steps next) m :=
  listed_replaceStep h hm (hnext ▸ (h.counted existing (findStep_mem hfound)).trans hm)

theorem reduce_listed (now : Nat) (event : StreamEvent) (h : Listed s.steps s.stepSeq) :
    Listed (reduce now s event).steps (reduce now s event).stepSeq := by
  cases event with
  | plan summary steps => exact planned_listed summary steps h
  | instructionReceived | toolCall => exact listed_replaceStep h (Nat.le_succ _) (Nat.le_refl _)
  | stepStarted stepId title type =>
    show Listed (stepStarted now s stepId title type).steps (stepStarted now s stepId title type).stepSeq
    unfold stepStarted
    split
    · rename_i existing hfound
      refine listed_update h hfound ?_ (Nat.le_succ _)
      rfl
    · exact listed_replaceStep h (Nat.le_succ _) (Nat.le_refl _)
  | stepCompleted stepId status =>
    show Listed (stepCompleted now s stepId status).steps (stepCompleted now s stepId status).stepSeq
    unfold stepCompleted
    split
    · exact h
    · rename_i existing hfound
      refine listed_update h hfound ?_ (Nat.le_refl _)
      rfl
  | toolResult id name ok preview web =>
    show Listed (toolResult now s id name ok preview web).steps (toolResult now s id name ok preview web).stepSeq
    unfold toolResult
    dsimp only
    cases hfound : findStep s.steps id with
    | none => split <;> exact h
    | some existing =>
      split <;> refine listed_update h hfound ?_ (Nat.le_refl _) <;> rfl
  | citations incoming => cases incoming <;> exact h
  | validation | approvalRequired =>
    rw [reduce]
    split <;> exact h
  | done | error | fetchFailed | streamEnd =>
    cases hterm : s.terminated with
    | true =>
      rw [reduce_closed now rfl hterm]
      exact h
    | false =>
      rw [reduce_close now rfl hterm]
      rcases close_cases now s _ with heq | ⟨-, hsteps, hseq⟩
      · rw [heq]
        exact h
      · rw [hsteps, hseq]
        exact h
  | _ => exact h

def CommittedAtEnd (s : StreamState) : Prop := s.commit ≠ none → s.terminated = true

theorem reduce_committedAtEnd (now : Nat) (event : StreamEvent) (h : CommittedAtEnd s) :
    CommittedAtEnd (reduce now s event) := by
  cases hclose : event.closes with
  | false =>
    have hsettled := reduce_settled (s := s) now hclose
    unfold CommittedAtEnd
    rw [hsettled.commit, hsettled.terminated]
    exact h
  | true =>
    cases hterm : s.terminated with
    | true =>
      rw [reduce_closed now hclose hterm]
      exact h
    | false =>
      rw [reduce_close now hclose hterm]
      rcases close_cases now s event with heq | ⟨hend, -, -⟩
      · rw [heq]
        exact h
      · exact fun _ => hend

theorem reduce_terminated (now : Nat) (event : StreamEvent) (h : s.terminated = true) : Settled s (reduce now s event) := by
  cases hclose : event.closes with
  | false => exact reduce_settled now hclose
  | true =>
    rw [reduce_closed now hclose h]
    exact .refl s

end

/-! ## a stream of events -/

theorem reduceAll_append (s : StreamState) (events more : List (Nat × StreamEvent)) :
    reduceAll s (events ++ more) = reduceAll (reduceAll s events) more := List.foldl_append

theorem reduceAll_invariant {P : StreamState → Prop} (hstep : ∀ s now event, P s → P (reduce now s event)) {s : StreamState}
    (hs : P s) (events : List (Nat × StreamEvent)) : P (reduceAll s events) := by
  induction events generalizing s with
  | nil => exact hs
  | cons e events ih => exact ih (hstep s e.1 e.2 hs)

theorem reduceAll_terminated {s : StreamState} (h : s.terminated = true) (events : List (Nat × StreamEvent)) :
    Settled s (reduceAll s events) := by
  induction events generalizing s with
  | nil => exact .refl s
  | cons e events ih =>
    have hhead := reduce_terminated e.1 e.2 h
    exact hhead.trans (ih (hhead.terminated.trans h))

structure Contract (conversationId : Option String) (events : List (Nat × StreamEvent)) : Prop where
  listed : Listed (reduceAll (initialStreamState conversationId) events).steps
    (reduceAll (initialStreamState conversationId) events).stepSeq
  once : ∀ more c, (reduceAll (initialStreamState conversationId) events).commit = some c →
    (reduceAll (initialStreamState conversationId) (events ++ more)).commit = some c
  settled : ∀ now event, (reduceAll (initialStreamState conversationId) events).terminated = true →
    Settled (reduceAll (initialStreamState conversationId) events)
        (reduce now (reduceAll (initialStreamState conversationId) events) event) ∧
      (event.closes = true →
        reduce now (reduceAll (initialStreamState conversationId) events) event =
          reduceAll (initialStreamState conversationId) events)

def StreamState.view (s : StreamState) : Client.StreamState where
  conversationId := s.conversationId
  assistantMessageId := s.assistantMessageId
  runId := s.runId
  text := s.text
  error := s.error
  status := s.status
  finishReason := s.finishReason
  validation := s.validation
  terminated := s.terminated
  commit := s.commit.map (fun c => ⟨c.conversationId, c.messageId, c.content, c.finishReason, c.runId⟩)

def StreamEvent.view : StreamEvent → Client.StreamEvent
  | .seed conversationId messageId => .seed conversationId messageId
  | .turnMeta conversationId messageId => .turnMeta conversationId messageId
  | .runStarted runId => .runStarted runId
  | .plan _ _ => .activity "plan"
  | .instructionReceived _ => .activity "instruction_received"
  | .stepStarted _ _ _ => .activity "step_started"
  | .stepCompleted _ _ => .activity "step_completed"
  | .toolCall _ _ _ _ => .activity "tool_call"
  | .toolResult _ _ _ _ _ => .activity "tool_result"
  | .token delta replace => .token delta replace
  | .citations _ => .activity "citations"
  | .validation notice => .validation notice
  | .approvalRequired _ => .activity "approval_required"
  | .approvalResolved _ => .activity "approval_resolved"
  | .done messageId finish => .done messageId finish
  | .error code message => .error code message
  | .fetchFailed message => .fetchFailed message
  | .streamEnd reason => .streamEnd reason

theorem planned_view (summary : Option String) (steps : List (String × String)) (s : StreamState) :
    (planned summary steps s).view = s.view := by
  induction steps generalizing summary s with
  | nil => rfl
  | cons step steps ih =>
    rw [planned, ih]
    rfl

theorem close_view (now : Nat) (s : StreamState) {event : StreamEvent} (hclose : event.closes = true)
    (h : s.terminated = false) : (close now s event).view = Client.reduce now s.view event.view := by
  have hview : s.view.terminated = false := h
  have hconv : s.view.conversation = s.conversation := rfl
  have htext : s.view.text = s.text := rfl
  cases event with
  | done | error =>
    unfold close Client.reduce StreamEvent.view
    simp only [hview, hconv, Bool.false_eq_true, if_false]
    cases s.conversation <;> rfl
  | fetchFailed message =>
    unfold close Client.reduce StreamEvent.view
    simp only [hview, hconv, htext, Bool.false_eq_true, if_false]
    cases s.conversation <;> cases s.text <;> rfl
  | streamEnd reason =>
    cases reason <;> unfold close Client.reduce StreamEvent.view <;>
      simp only [hview, hconv, htext, Bool.false_eq_true, if_false]
    · cases s.conversation <;> cases s.text <;> rfl
    · cases s.conversation <;> cases s.text <;> rfl
  | _ => cases hclose

/-- **Without its lists the state goes the way of `ChatStreamState`.** -/
theorem view_reduce (now : Nat) (s : StreamState) (event : StreamEvent) :
    (reduce now s event).view = Client.reduce now s.view event.view := by
  cases event with
  | plan summary steps => exact planned_view summary steps s
  | stepStarted stepId title type =>
    show (stepStarted now s stepId title type).view = s.view
    unfold stepStarted
    split <;> rfl
  | stepCompleted stepId status =>
    show (stepCompleted now s stepId status).view = s.view
    unfold stepCompleted
    split <;> rfl
  | toolResult id name ok preview web =>
    show (toolResult now s id name ok preview web).view = s.view
    unfold toolResult
    dsimp only
    split <;> split <;> rfl
  | citations incoming => cases incoming <;> rfl
  | validation notice =>
    rw [reduce, StreamEvent.view, Client.reduce]
    split
    · rfl
    · cases notice.correctedText <;> rfl
  | approvalRequired approval =>
    rw [reduce]
    split <;> rfl
  | done | error | fetchFailed | streamEnd =>
    cases hterm : s.terminated with
    | true =>
      have hview : s.view.terminated = true := hterm
      rw [reduce_closed now rfl hterm]
      exact (if_pos hview).symm
    | false =>
      rw [reduce_close now rfl hterm]
      exact close_view now s rfl hterm
  | _ => rfl

end Reducer
end Client
end MyGpt
