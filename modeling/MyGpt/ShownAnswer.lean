import MyGpt.AnswerGate
import MyGpt.ChatStreamState
/-!
# ShownAnswer — the text in the client and the text on the message

The frames of a turn behind the answer gate, read by the client's reducer, against the text the turn stores at its done.
The gate replaces the text in the client when it refuses, when it holds the answer back and when it cuts claims; markers
of no evidence are taken out of the stored text only, and are all the two texts can differ in (`shown_is_stored`).
-/
namespace MyGpt
namespace Client

open Chat (Text AnswerStatus GateResult GatedTurn TurnGate TurnState PostprocessOutcome RuntimeStep RuntimeEnd Path DoneExit
  finalize tokenText stripMarkers sanitizeMarkers sourceMarker collapseBlanks tidyPunctuation strip isSpace runTurn
  refusals)
open Rag (ContextItem EvidenceDb gateAnswer schemaFails)

/-! ## the frames -/

inductive Frame
  | token (delta : Text) (replace : Bool)
  | validation (notice : ValidationNotice)
  | progress (kind : String)
  | done (finish : String)
  | error (code : String)
  deriving DecidableEq

def Frame.sent : Frame → Chat.ChatEvent
  | .token delta replace => .token delta replace
  | .validation notice => .validation notice.message notice.correctedText
  | .progress kind => .progress kind
  | .done finish => .done finish
  | .error code => .error code

/-- `dispatchChatStreamEvent`. -/
def Frame.event : Frame → StreamEvent
  | .token delta replace => .token delta replace
  | .validation notice => .validation notice
  | .progress kind => .activity kind
  | .done finish => .done none finish
  | .error code => .error (some code) code

/-- What `stream_gated` lets through of a step. -/
def stepFrames (gate : TurnGate) : RuntimeStep → List Frame
  | .token delta => if gate.buffered then [] else [.token delta false]
  | .progress kind => [.progress kind]
  | .write _ | .commit | .checkpoint => []

/-- `GateResult.event`. -/
def noticeOf (outcome : PostprocessOutcome) : ValidationNotice where
  status := outcome.status
  message := (finalize outcome).message
  correctedText := (finalize outcome).correctedText
  droppedClaimCount := outcome.droppedClaims

/-- `stream_gated` before it lets the `done` through. -/
def gateFrames (gate : TurnGate) (outcome : PostprocessOutcome) : List Frame :=
  .validation (noticeOf outcome) ::
    if gate.buffered || (finalize outcome).refused then [.token (finalize outcome).answer true] else []

/-- `_refuse_before_generation`. -/
def refusalFrames (gate : TurnGate) (refusal : Text) : List Frame :=
  [.validation { status := if gate.kbExplicit then .insufficientEvidence else .refused, message := refusal
                 correctedText := none },
    .token refusal true, .done "stop"]

def endFrames (t : GatedTurn) : List Frame :=
  match t.ending with
  | .done finish =>
    match t.doneExit with
    | .passes => gateFrames t.gate (t.gateAnswer (tokenText t.steps)) ++ [.done finish]
    | .settleFails | .settleCancelled => gateFrames t.gate (t.gateAnswer (tokenText t.steps))
    | .gateFails | .gateCancelled => []
  | .error code => if t.commits then [.error code] else []
  | .cancelled | .stopped => []

def turnFrames (t : GatedTurn) : List Frame :=
  match t.gate.preGenerationRefusal with
  | some refusal => if t.commits then refusalFrames t.gate refusal else []
  | none => t.steps.flatMap (stepFrames t.gate) ++ endFrames t

def storedText (t : GatedTurn) : Option Text := (runTurn t).stored.getLast?.map (·.text)

/-! ## the frames are what the turn sends -/

theorem run_steps (gate : TurnGate) : ∀ (steps : List RuntimeStep) (s : TurnState),
    (steps.foldl (Chat.runStep gate) s).sent = s.sent ++ (steps.flatMap (stepFrames gate)).map Frame.sent ∧
      (steps.foldl (Chat.runStep gate) s).collected = s.collected ++ tokenText steps
  | [], s => by simp [tokenText]
  | step :: steps, s => by
    obtain ⟨hsent, hcollected⟩ := run_steps gate steps (Chat.runStep gate s step)
    rw [List.foldl_cons, hsent, hcollected, List.flatMap_cons, List.map_append, ← List.append_assoc]
    cases step with
    | token delta =>
      simp only [Chat.runStep, stepFrames]
      cases gate.buffered <;> simp [Chat.TurnState.send, tokenText, Frame.sent]
    | _ => simp [Chat.runStep, stepFrames, Chat.TurnState.send, Chat.TurnState.store, tokenText, Frame.sent]

theorem passGate_frames (t : GatedTurn) {s : TurnState} (hcollected : s.collected = tokenText t.steps) :
    (Chat.passGate t s).sent = s.sent ++ (gateFrames t.gate (t.gateAnswer (tokenText t.steps))).map Frame.sent := by
  unfold Chat.passGate gateFrames
  dsimp only
  rw [hcollected]
  split
  · simp [Chat.TurnState.send, Frame.sent, noticeOf]
  · simp [Chat.TurnState.send, Frame.sent, noticeOf]

/-- **The frames are the events the turn sends**, with the status of the gate added. -/
theorem turnFrames_sent (t : GatedTurn) : (turnFrames t).map Frame.sent = (runTurn t).sent := by
  unfold turnFrames runTurn
  cases t.gate.preGenerationRefusal with
  | some refusal =>
    unfold Chat.refuseTurn
    cases t.commits <;> rfl
  | none =>
    obtain ⟨hsent, hcollected⟩ := run_steps t.gate t.steps {}
    have hgate := passGate_frames t hcollected
    rw [List.map_append]
    unfold endFrames Chat.finishTurn
    rw [hsent] at hgate
    cases t.ending with
    | done finish =>
      cases t.doneExit with
      | passes =>
        rw [List.map_append, ← List.append_assoc]
        exact congrArg (· ++ [Chat.ChatEvent.done finish]) hgate.symm
      | gateFails => simp [hsent]
      | gateCancelled => cases t.commits <;> simp [hsent, Chat.TurnState.store]
      | settleFails => exact hgate.symm
      | settleCancelled => cases t.commits <;> exact hgate.symm
    | error code => cases t.commits <;> simp [hsent, Chat.TurnState.store, Chat.TurnState.send, Frame.sent]
    | cancelled => cases t.commits <;> simp [hsent, Chat.TurnState.store]
    | stopped => simp [hsent]

/-! ## turns that end in done -/

def EndsInDone (t : GatedTurn) (finish : String) : Prop :=
  match t.gate.preGenerationRefusal with
  | some _ => t.commits = true
  | none => t.ending = .done finish ∧ t.doneExit = .passes

theorem done_notMem_steps (gate : TurnGate) (steps : List RuntimeStep) (finish : String) :
    Frame.done finish ∉ steps.flatMap (stepFrames gate) := by
  intro h
  obtain ⟨step, -, hmem⟩ := List.mem_flatMap.1 h
  cases step with
  | token delta =>
    simp only [stepFrames] at hmem
    split at hmem
    · cases hmem
    · cases List.mem_singleton.1 hmem
  | progress kind => cases List.mem_singleton.1 hmem
  | _ => cases hmem

theorem done_notMem_gate (gate : TurnGate) (outcome : PostprocessOutcome) (finish : String) :
    Frame.done finish ∉ gateFrames gate outcome := by
  unfold gateFrames
  split <;> simp

theorem endsInDone_of_mem {t : GatedTurn} {finish : String} (h : Frame.done finish ∈ turnFrames t) :
    EndsInDone t finish := by
  unfold turnFrames at h
  unfold EndsInDone
  split at h
  · split at h
    · assumption
    · cases h
  · have hend := (List.mem_append.1 h).resolve_left (done_notMem_steps _ _ _)
    unfold endFrames at hend
    split at hend
    · split at hend
      · rename_i hending _ hexit
        have hlast := (List.mem_append.1 hend).resolve_left (done_notMem_gate _ _ _)
        obtain rfl := Frame.done.inj (List.mem_singleton.1 hlast)
        exact ⟨hending, hexit⟩
      · exact absurd hend (done_notMem_gate _ _ _)
      · exact absurd hend (done_notMem_gate _ _ _)
      · cases hend
      · cases hend
    · split at hend
      · cases List.mem_singleton.1 hend
      · cases hend
    · cases hend
    · cases hend

/-! ## taking markers out -/

def unbacked (citations : Nat) (text : Text) : Bool := (stripMarkers citations text.length text).2

theorem afterSourceWord_suffix {text rest : Text} (h : Chat.afterSourceWord text = some rest) : rest <:+ text := by
  unfold Chat.afterSourceWord at h
  dsimp only at h
  split at h
  · rw [← Option.some.inj h]
    exact List.drop_suffix 6 text
  · split at h
    · rw [← Option.some.inj h]
      exact (List.suffix_cons _ _).trans (List.suffix_cons _ _)
    · cases h

theorem sourceMarker_suffix {c : Char} {text rest : Text} {n : Nat} (h : sourceMarker (c :: text) = some (n, rest)) :
    rest <:+ text := by
  unfold sourceMarker at h
  split at h
  · rename_i inner hcons
    obtain ⟨-, rfl⟩ := List.cons.inj hcons
    split at h
    · cases h
    · rename_i named hword
      dsimp only at h
      split at h
      · rename_i last _ hclose
        obtain ⟨-, rfl⟩ := Prod.mk.inj (Option.some.inj h)
        have hafter : ']' :: last <:+ named := by
          rw [← hclose]
          exact ((List.dropWhile_suffix _).trans (List.dropWhile_suffix _)).trans (List.dropWhile_suffix _)
        exact ((List.suffix_cons _ _).trans hafter).trans
          ((afterSourceWord_suffix hword).trans (List.dropWhile_suffix _))
      · cases h
  · cases h

theorem stripMarkers_spec (citations : Nat) : ∀ (fuel : Nat) (text : Text), text.length ≤ fuel →
    stripMarkers citations fuel text = (text, false) ∨
      ((stripMarkers citations fuel text).2 = true ∧ (stripMarkers citations fuel text).1.length < text.length)
  | 0, text, h => by
    obtain rfl : text = [] := List.eq_nil_of_length_eq_zero (by omega)
    exact .inl rfl
  | _ + 1, [], _ => .inl rfl
  | fuel + 1, c :: text, h => by
    have hlen : text.length ≤ fuel := by simpa using h
    unfold stripMarkers
    cases hmarker : sourceMarker (c :: text) with
    | none =>
      rcases stripMarkers_spec citations fuel text hlen with hrest | ⟨hchanged, hshort⟩
      · rw [hrest]
        exact .inl rfl
      · exact .inr ⟨hchanged, by simpa using hshort⟩
    | some found =>
      obtain ⟨n, rest⟩ := found
      obtain ⟨pre, hpre⟩ := sourceMarker_suffix hmarker
      have hsplit : text.length = pre.length + rest.length := by rw [← hpre, List.length_append]
      have hrest := stripMarkers_spec citations fuel rest (by omega)
      dsimp only
      split
      · -- the marker stays as it is
        have htake : (c :: text).take (text.length + 1 - rest.length) = c :: pre := by
          rw [show text.length + 1 - rest.length = (c :: pre).length by simp only [List.length_cons]; omega, ← hpre,
            ← List.cons_append, List.take_left]
        rcases hrest with hrest | ⟨hchanged, hshort⟩
        · rw [hrest, htake]
          exact .inl (by rw [← hpre]; rfl)
        · refine .inr ⟨hchanged, ?_⟩
          rw [htake]
          simp only [List.length_append, List.length_cons]
          omega
      · refine .inr ⟨rfl, ?_⟩
        simp only [List.length_cons]
        rcases hrest with hrest | ⟨-, hshort⟩
        · rw [hrest]
          dsimp only
          omega
        · omega

theorem length_collapseBlanks : ∀ (run text : Text), (collapseBlanks run text).length ≤ run.length + text.length
  | run, [] => by
    unfold collapseBlanks
    split <;> simp
    omega
  | run, c :: text => by
    unfold collapseBlanks
    split
    · have := length_collapseBlanks (run ++ [c]) text
      simp only [List.length_append, List.length_cons, List.length_nil] at this ⊢
      omega
    · have := length_collapseBlanks [] text
      simp only [List.length_append, List.length_cons, List.length_nil] at this ⊢
      split
      · simp only [List.length_cons, List.length_nil]
        omega
      · omega

theorem length_tidyPunctuation : ∀ (run text : Text), (tidyPunctuation run text).length ≤ run.length + text.length
  | run, [] => by simp [tidyPunctuation]
  | run, c :: text => by
    unfold tidyPunctuation
    split
    · have := length_tidyPunctuation (run ++ [c]) text
      simp only [List.length_append, List.length_cons, List.length_nil] at this ⊢
      omega
    · have := length_tidyPunctuation [] text
      split
      · simp only [List.length_cons, List.length_nil] at this ⊢
        omega
      · simp only [List.length_append, List.length_cons, List.length_nil] at this ⊢
        omega

theorem length_strip (text : Text) : (strip text).length ≤ text.length := by
  unfold strip
  rw [List.length_reverse]
  calc _ ≤ ((text.dropWhile isSpace).reverse).length := (List.dropWhile_suffix _).length_le
    _ = (text.dropWhile isSpace).length := List.length_reverse
    _ ≤ text.length := (List.dropWhile_suffix _).length_le

theorem sanitizeMarkers_backed {citations : Nat} {text : Text} (h : unbacked citations text = false) :
    sanitizeMarkers text citations = text := by
  rcases stripMarkers_spec citations text.length text le_rfl with hsame | ⟨hchanged, -⟩
  · unfold sanitizeMarkers
    rw [hsame]
  · rw [unbacked, hchanged] at h
    cases h

theorem length_sanitizeMarkers {citations : Nat} {text : Text} (h : unbacked citations text = true) :
    (sanitizeMarkers text citations).length < text.length := by
  rcases stripMarkers_spec citations text.length text le_rfl with hsame | ⟨hchanged, hshort⟩
  · rw [unbacked, hsame] at h
    cases h
  · unfold sanitizeMarkers
    generalize stripMarkers citations text.length text = stripped at hchanged hshort
    obtain ⟨out, changed⟩ := stripped
    obtain rfl : changed = true := hchanged
    calc _ ≤ _ := length_strip _
      _ ≤ _ := length_tidyPunctuation _ _
      _ ≤ out.length := by simpa using length_collapseBlanks [] out
      _ < text.length := hshort

theorem length_sanitizeMarkers_le (citations : Nat) (text : Text) :
    (sanitizeMarkers text citations).length ≤ text.length := by
  cases hun : unbacked citations text with
  | false => rw [sanitizeMarkers_backed hun]
  | true => exact (length_sanitizeMarkers hun).le

theorem sourceMarker_none {c : Char} (hc : c ≠ '[') (text : Text) : sourceMarker (c :: text) = none := by
  unfold sourceMarker
  split
  · rename_i inner hcons
    exact absurd (List.cons.inj hcons).1 hc
  · rfl

theorem stripMarkers_plain (citations : Nat) : ∀ (fuel : Nat) (text : Text), '[' ∉ text →
    stripMarkers citations fuel text = (text, false)
  | 0, _, _ => rfl
  | _ + 1, [], _ => rfl
  | fuel + 1, c :: text, h => by
    have hc : c ≠ '[' := fun hc => h (hc ▸ List.mem_cons_self)
    have hrest := stripMarkers_plain citations fuel text (fun hmem => h (List.mem_cons_of_mem _ hmem))
    unfold stripMarkers
    rw [sourceMarker_none hc, hrest]

theorem insufficientEvidence_plain : '[' ∉ Chat.refusalInsufficientEvidence :=
  Chat.notMem_literal (by rfl) (by decide +kernel)

theorem highRisk_plain : '[' ∉ Chat.refusalHighRisk := by
  unfold Chat.refusalHighRisk
  rw [String.toList_append, List.mem_append, not_or]
  exact ⟨Chat.notMem_literal (by rfl) (by decide +kernel), Chat.notMem_literal (by rfl) (by decide +kernel)⟩

theorem refusal_backed {refusal : Text} (h : refusal ∈ refusals) (citations : Nat) : unbacked citations refusal = false := by
  have hplain : '[' ∉ refusal := by
    rcases List.mem_cons.1 h with h | h
    · rw [h]
      exact insufficientEvidence_plain
    · rw [List.mem_singleton.1 h]
      exact highRisk_plain
  rw [unbacked, stripMarkers_plain _ _ _ hplain]

/-! ## the text the reducer ends with -/

theorem reduceAll_steps (now : Nat) (gate : TurnGate) : ∀ (steps : List RuntimeStep) (s : StreamState),
    (reduceAll now s ((steps.flatMap (stepFrames gate)).map Frame.event)).text =
      if gate.buffered then s.text else s.text ++ tokenText steps
  | [], s => by simp [reduceAll, tokenText]
  | step :: steps, s => by
    rw [List.flatMap_cons, List.map_append, reduceAll_append, reduceAll_steps now gate steps]
    cases step with
    | token delta =>
      simp only [stepFrames]
      cases hb : gate.buffered <;> simp [reduceAll, reduce, Frame.event, tokenText]
    | _ => simp [stepFrames, reduceAll, reduce, Frame.event, tokenText]

theorem refuses_eq (outcome : PostprocessOutcome) : refuses outcome.status = (finalize outcome).refused := rfl

theorem reduceAll_gate (now : Nat) (gate : TurnGate) (outcome : PostprocessOutcome) (s : StreamState) :
    (reduceAll now s ((gateFrames gate outcome).map Frame.event)).text =
      if gate.buffered || (finalize outcome).refused then (finalize outcome).answer
      else (finalize outcome).correctedText.getD s.text := by
  unfold gateFrames
  cases hr : (finalize outcome).refused with
  | true =>
    rw [Bool.or_true, if_pos rfl, if_pos rfl]
    simp [reduceAll, reduce, Frame.event]
  | false =>
    rw [Bool.or_false]
    cases gate.buffered with
    | true => simp [reduceAll, reduce, Frame.event]
    | false =>
      have hstatus : refuses (noticeOf outcome).status = false := (refuses_eq outcome).trans hr
      have htext : (noticeOf outcome).correctedText = (finalize outcome).correctedText := rfl
      simp only [reduceAll, reduce, Frame.event, List.map_cons, List.map_nil, List.foldl_cons, List.foldl_nil, hstatus,
        Bool.false_eq_true, if_false, htext]
      cases (finalize outcome).correctedText <;> rfl

theorem reduceAll_refusal (now : Nat) (gate : TurnGate) (refusal : Text) (s : StreamState) :
    (reduceAll now s ((refusalFrames gate refusal).map Frame.event)).text = refusal := by
  unfold refusalFrames
  simp only [List.map_cons, List.map_nil, Frame.event, reduceAll, List.foldl_cons, List.foldl_nil]
  rw [reduce_done_text]
  rfl

theorem shown_done (now : Nat) {t : GatedTurn} {finish : String} (hpre : t.gate.preGenerationRefusal = none)
    (hending : t.ending = .done finish) (hexit : t.doneExit = .passes) {s : StreamState} (hs : s.text = []) :
    (reduceAll now s ((turnFrames t).map Frame.event)).text =
      let result := finalize (t.gateAnswer (tokenText t.steps))
      if t.gate.buffered || result.refused then result.answer else result.correctedText.getD (tokenText t.steps) := by
  unfold turnFrames endFrames
  rw [hpre, hending, hexit]
  rw [List.map_append, List.map_append, reduceAll_append, reduceAll_append]
  have hlast : ∀ u : StreamState, (reduceAll now u ([Frame.done finish].map Frame.event)).text = u.text :=
    fun u => reduce_done_text now u none finish
  rw [hlast, reduceAll_gate, reduceAll_steps, hs]
  cases t.gate.buffered <;> rfl

theorem stored_done {t : GatedTurn} {finish : String} (hpre : t.gate.preGenerationRefusal = none)
    (hending : t.ending = .done finish) (hexit : t.doneExit = .passes) :
    storedText t = some (match t.path with
      | .inline => sanitizeMarkers (finalize (t.gateAnswer (tokenText t.steps))).answer t.citations
      | .durable => (finalize (t.gateAnswer (tokenText t.steps))).answer) := by
  obtain ⟨-, hcollected⟩ := run_steps t.gate t.steps {}
  have hresult : (Chat.passGate t (t.steps.foldl (Chat.runStep t.gate) {})).result =
      some (finalize (t.gateAnswer (tokenText t.steps))) := by
    unfold Chat.passGate
    rw [hcollected]
    dsimp only
    split <;> rfl
  unfold storedText runTurn Chat.finishTurn
  rw [hpre, hending, hexit]
  cases hpath : t.path <;> simp [Chat.TurnState.send, Chat.TurnState.store, Chat.replaceContent, hresult, hpath]

/-! ## a turn behind the real gate -/

/-- A turn of the chat service: `source_index` and the citations come from one list of hits. -/
structure RagTurn where
  path : Path := .inline
  gate : TurnGate
  items : List ContextItem := []
  db : Option EvidenceDb := none
  user : Option Nat := none
  maxAnswerChars : Nat := 0
  steps : List RuntimeStep
  ending : RuntimeEnd := .done "stop"
  doneExit : DoneExit := .passes
  commits : Bool := true

/-- What `TurnGate.finalize` asks of `gate_answer`. -/
def RagTurn.input (t : RagTurn) (answer : Text) : Rag.Input where
  answer := answer
  items := t.items
  db := t.db
  user := t.user
  isHighRisk := t.gate.highRisk
  kbExplicit := t.gate.kbExplicit
  retrievalInsufficient := t.gate.retrievalInsufficient
  maxAnswerChars := t.maxAnswerChars

def RagTurn.turn (t : RagTurn) : GatedTurn where
  path := t.path
  gate := t.gate
  citations := t.items.length
  gateAnswer := fun answer => (gateAnswer (t.input answer)).brief
  steps := t.steps
  ending := t.ending
  doneExit := t.doneExit
  commits := t.commits

def RagTurn.streamed (t : RagTurn) : Text := tokenText t.steps

def RagTurn.decision (t : RagTurn) : PostprocessOutcome := (gateAnswer (t.input t.streamed)).brief

def RagTurn.passesLive (t : RagTurn) : Bool :=
  !t.gate.buffered && t.decision.status = .answered && t.decision.droppedClaims = 0 &&
    !schemaFails t.streamed (t.input t.streamed).claims

def RagTurn.strips (t : RagTurn) : Nat :=
  if t.gate.preGenerationRefusal.isSome then 0
  else (if t.passesLive then 1 else 0) + (match t.path with | .inline => 1 | .durable => 0)

/-- `sanitize_unbacked_source_markers`, `n` times. -/
def sanitizeTimes (citations : Nat) : Nat → Text → Text
  | 0, text => text
  | n + 1, text => sanitizeTimes citations n (sanitizeMarkers text citations)

theorem length_sanitizeTimes (citations : Nat) : ∀ (n : Nat) (text : Text),
    (sanitizeTimes citations n text).length ≤ text.length
  | 0, _ => le_rfl
  | n + 1, text => (length_sanitizeTimes citations n _).trans (length_sanitizeMarkers_le citations text)

theorem sanitizeTimes_backed {citations : Nat} {text : Text} (h : unbacked citations text = false) :
    ∀ n : Nat, sanitizeTimes citations n text = text
  | 0 => rfl
  | n + 1 => by
    unfold sanitizeTimes
    rw [sanitizeMarkers_backed h]
    exact sanitizeTimes_backed h n

theorem sanitizeTimes_eq_iff {citations n : Nat} {text : Text} :
    sanitizeTimes citations n text = text ↔ n = 0 ∨ unbacked citations text = false := by
  constructor
  · intro h
    cases hun : unbacked citations text with
    | false => exact .inr rfl
    | true =>
      cases n with
      | zero => exact .inl rfl
      | succ n =>
        have hshort := (length_sanitizeTimes citations n _).trans_lt (length_sanitizeMarkers hun)
        exact absurd hshort (by rw [show sanitizeTimes citations n (sanitizeMarkers text citations) = text from h]
                                exact lt_irrefl _)
  · rintro (rfl | h)
    · rfl
    · exact sanitizeTimes_backed h n

theorem answered_plain {i : Rag.Input} (hstatus : (gateAnswer i).brief.status = .answered)
    (hdropped : (gateAnswer i).brief.droppedClaims = 0) :
    (gateAnswer i).brief.answer =
      if schemaFails i.answer i.claims then i.answer else sanitizeMarkers i.answer i.items.length := by
  cases hearly : i.early with
  | true =>
    have ho : gateAnswer i = _ := if_pos hearly
    rw [ho] at hstatus
    cases hstatus
  | false =>
    have hnot : ¬ i.early = true := by rw [hearly]; exact Bool.false_ne_true
    cases hschema : schemaFails i.answer i.claims with
    | true =>
      have ho : gateAnswer i = _ := (if_neg hnot).trans (if_pos hschema)
      rw [ho]
      rfl
    | false =>
      have ho : gateAnswer i = _ := (if_neg hnot).trans (if_neg (by
        rw [show schemaFails i.answer (Rag.buildClaims i.answer i.items) = false from hschema]
        exact Bool.false_ne_true))
      rw [if_neg Bool.false_ne_true]
      rw [ho] at hstatus hdropped ⊢
      dsimp only at hstatus hdropped ⊢
      split at hstatus
      · cases hstatus
      · rename_i hhard
        rw [if_neg hhard] at hdropped ⊢
        split at hstatus
        · cases hstatus
        · rename_i hall
          rw [if_neg hall] at hdropped ⊢
          have hnone : (Rag.settleClaims i).1.any (·.dropped) = false := by
            rw [List.any_eq_false]
            exact fun c hc hd => List.filter_eq_nil_iff.1 (List.eq_nil_of_length_eq_zero hdropped) c hc hd
          simp only [Rag.Outcome.brief, Rag.cutDropped, hnone, Bool.false_eq_true, if_false]

/-! ## the two texts -/

def shownText (now : Nat) (start : StreamState) (t : GatedTurn) : Text :=
  (reduceAll now start ((turnFrames t).map Frame.event)).text

theorem preRefusal_texts (now : Nat) (start : StreamState) {t : GatedTurn} {refusal : Text} (hcommits : t.commits = true)
    (hpre : t.gate.preGenerationRefusal = some refusal) :
    shownText now start t = refusal ∧ storedText t = some refusal := by
  refine ⟨?_, ?_⟩
  · unfold shownText turnFrames
    rw [hpre, hcommits]
    exact reduceAll_refusal now t.gate refusal start
  · unfold storedText runTurn
    rw [hpre]
    unfold Chat.refuseTurn
    rw [hcommits]
    rfl

theorem finalize_answer {outcome : PostprocessOutcome} (h : (finalize outcome).refused = false) :
    (finalize outcome).answer = outcome.answer ∧
      (finalize outcome).correctedText = if outcome.droppedClaims = 0 then none else some outcome.answer := by
  simp only [finalize, decide_eq_false_iff_not] at h ⊢
  have hinsufficient : outcome.status ≠ .insufficientEvidence := fun hs => h (.inr hs)
  have hrefused : outcome.status ≠ .refused := fun hs => h (.inl hs)
  simp [hrefused, hinsufficient]

theorem status_of_not_refused {i : Rag.Input} (h : (finalize (gateAnswer i).brief).refused = false) :
    (gateAnswer i).brief.status = .answered := by
  simp only [finalize, decide_eq_false_iff_not, not_or] at h
  obtain ⟨hrefused, hinsufficient⟩ := h
  revert hrefused hinsufficient
  unfold gateAnswer
  split
  · intro _ h
    exact absurd rfl h
  · split
    · intro _ _
      rfl
    · dsimp only
      split
      · intro h _
        exact absurd rfl h
      · split
        · intro _ h
          exact absurd rfl h
        · intro _ _
          rfl

theorem gated_answer (t : RagTurn) :
    (finalize t.decision).answer = sanitizeTimes t.items.length (if t.passesLive then 1 else 0)
      (if t.gate.buffered || (finalize t.decision).refused then (finalize t.decision).answer
        else (finalize t.decision).correctedText.getD t.streamed) := by
  have hkept : t.passesLive = false → ∀ text : Text,
      sanitizeTimes t.items.length (if t.passesLive then 1 else 0) text = text := by
    intro h text
    rw [h]
    rfl
  cases hb : t.gate.buffered with
  | true =>
    have hlive : t.passesLive = false := by simp [RagTurn.passesLive, hb]
    rw [hkept hlive, Bool.true_or, if_pos rfl]
  | false =>
    cases hr : (finalize t.decision).refused with
    | true =>
      have hlive : t.passesLive = false := by
        cases hs : t.passesLive with
        | false => rfl
        | true =>
          simp only [RagTurn.passesLive, Bool.and_eq_true, decide_eq_true_eq] at hs
          rw [(Rag.finalize_answered hs.1.1.2).1] at hr
          cases hr
      rw [hkept hlive, Bool.or_true, if_pos rfl]
    | false =>
      obtain ⟨hanswer, hcorrected⟩ := finalize_answer hr
      have hstatus : t.decision.status = .answered := status_of_not_refused hr
      rw [Bool.or_false, if_neg Bool.false_ne_true, hanswer, hcorrected]
      by_cases hdropped : t.decision.droppedClaims = 0
      · have hplain := answered_plain hstatus hdropped
        rw [if_pos hdropped]
        cases hschema : schemaFails t.streamed (t.input t.streamed).claims with
        | true =>
          have hlive : t.passesLive = false := by simp [RagTurn.passesLive, hschema]
          rw [hkept hlive]
          exact hplain.trans (if_pos hschema)
        | false =>
          have hlive : t.passesLive = true := by simp [RagTurn.passesLive, hb, hstatus, hdropped, hschema]
          rw [hlive]
          exact hplain.trans (if_neg (by
            rw [show schemaFails (t.input t.streamed).answer (t.input t.streamed).claims = false from hschema]
            exact Bool.false_ne_true))
      · have hlive : t.passesLive = false := by simp [RagTurn.passesLive, hdropped]
        rw [hkept hlive, if_neg hdropped]
        rfl

theorem sanitizeTimes_add (citations : Nat) : ∀ (m n : Nat) (text : Text),
    sanitizeTimes citations n (sanitizeTimes citations m text) = sanitizeTimes citations (m + n) text
  | 0, n, text => by rw [Nat.zero_add]; rfl
  | m + 1, n, text => by
    rw [Nat.add_right_comm]
    exact sanitizeTimes_add citations m n _

theorem stored_of_shown (t : RagTurn) {finish : String} (now : Nat) {start : StreamState} (hstart : start.text = [])
    (hdone : Frame.done finish ∈ turnFrames t.turn) :
    storedText t.turn = some (sanitizeTimes t.items.length t.strips (shownText now start t.turn)) := by
  have hends := endsInDone_of_mem hdone
  unfold EndsInDone at hends
  cases hpre : t.turn.gate.preGenerationRefusal with
  | some refusal =>
    rw [hpre] at hends
    obtain ⟨hshown, hstored⟩ := preRefusal_texts now start hends hpre
    have hpre' : t.gate.preGenerationRefusal = some refusal := hpre
    rw [hshown, hstored]
    unfold RagTurn.strips
    rw [hpre']
    rfl
  | none =>
    rw [hpre] at hends
    obtain ⟨hending, hexit⟩ := hends
    have hpre' : t.gate.preGenerationRefusal = none := hpre
    have hshown : shownText now start t.turn =
        if t.gate.buffered || (finalize t.decision).refused then (finalize t.decision).answer
        else (finalize t.decision).correctedText.getD t.streamed := shown_done now hpre hending hexit hstart
    have hstored := stored_done hpre hending hexit
    have hanswer := gated_answer t
    rw [← hshown] at hanswer
    rw [hstored, Option.some.injEq]
    unfold RagTurn.strips
    rw [hpre', show (none : Option Text).isSome = false from rfl, if_neg Bool.false_ne_true, ← sanitizeTimes_add, ← hanswer]
    show (match t.path with
      | .inline => sanitizeMarkers (finalize t.decision).answer t.items.length
      | .durable => (finalize t.decision).answer) = _
    cases t.path <;> rfl

/-- **What the client shows is what the message stores, but for markers of no evidence.**  At the done of a turn the stored
text is the client's, stripped of them once when a live gate passes the answer as it is and once more when the turn is
inline; so the two are one text exactly when nothing strips it or it has no such marker. -/
theorem shown_is_stored (t : RagTurn) {finish : String} (now : Nat) {start : StreamState} (hstart : start.text = [])
    (hdone : Frame.done finish ∈ turnFrames t.turn) :
    storedText t.turn = some (sanitizeTimes t.items.length t.strips (shownText now start t.turn)) ∧
      (storedText t.turn = some (shownText now start t.turn) ↔
        t.strips = 0 ∨ unbacked t.items.length (shownText now start t.turn) = false) ∧
      ((t.gate.preGenerationRefusal.isSome = true ∨ (finalize t.decision).refused = true) →
        storedText t.turn = some (shownText now start t.turn)) := by
  have hstored := stored_of_shown t now hstart hdone
  have hiff : storedText t.turn = some (shownText now start t.turn) ↔
      t.strips = 0 ∨ unbacked t.items.length (shownText now start t.turn) = false := by
    rw [hstored, Option.some.injEq]
    exact sanitizeTimes_eq_iff
  refine ⟨hstored, hiff, fun hrefused => hiff.2 ?_⟩
  cases hpre : t.gate.preGenerationRefusal with
  | some refusal => exact .inl (by unfold RagTurn.strips; rw [hpre]; rfl)
  | none =>
    have hends := endsInDone_of_mem hdone
    unfold EndsInDone at hends
    rw [show t.turn.gate.preGenerationRefusal = none from hpre] at hends
    have hr : (finalize t.decision).refused = true := hrefused.resolve_left (by rw [hpre]; exact Bool.false_ne_true)
    have hshown : shownText now start t.turn =
        if t.gate.buffered || (finalize t.decision).refused then (finalize t.decision).answer
        else (finalize t.decision).correctedText.getD t.streamed := shown_done now hpre hends.1 hends.2 hstart
    rw [hr, Bool.or_true, if_pos rfl] at hshown
    refine .inr (refusal_backed (hshown ▸ ?_) _)
    have hcase : t.decision.status = .refused ∨ t.decision.status = .insufficientEvidence := by
      simpa [finalize] using hr
    by_cases hins : t.decision.status = .insufficientEvidence
    · exact List.mem_cons.2 (.inl (by simp only [finalize, hins, if_true]))
    · exact List.mem_cons_of_mem _ (List.mem_singleton.2 (by
        simp only [finalize, if_neg hins, if_pos hcase]))

def codeTurn : RagTurn where
  gate := Chat.openTurnGate true false false 0
  steps := [.token ['o', 'k', '\n', '`', '`', '`', '\n'],
    .token ['[', 's', 'o', 'u', 'r', 'c', 'e', ' ', '1', ']', '\n', '`', '`', '`']]

theorem shown_is_stored_code :
    storedText codeTurn.turn = some (sanitizeTimes 0 2 (shownText 0 (initialStreamState none) codeTurn.turn)) :=
  (shown_is_stored codeTurn 0 rfl (show Frame.done "stop" ∈ turnFrames codeTurn.turn by decide)).1

/-- The client keeps the marker that the stored text has lost. -/
theorem code_turn_differs : ¬ ∀ t : RagTurn, Frame.done "stop" ∈ turnFrames t.turn →
    storedText t.turn = some (shownText 0 (initialStreamState none) t.turn) := by
  intro h
  have hsame := h codeTurn (by decide)
  revert hsame
  decide

end Client
end MyGpt
