import MyGpt.StreamingWriter
import Mathlib.Data.List.Perm.Subperm
/-!
# WriterAccount — what the writer shows, and what it records

Whatever the provider, the guard, the run control and the checkpoints do, what is stored is what was shown, and the usage a
dispatch reported is recorded once, under its own key (`streamWriter_kept`).  A chunk at which a cancel is noticed is discarded
with its usage (`stoppedLast_unrecorded`).
-/
namespace MyGpt
namespace Writer

open Chat (Text ContinuationPolicy ContinuationBuffer PersistEnd CheckpointStatus)
open Raising (runFrom runFrom_bind Keeps)

section
variable {U : Type} {agentId : String} {env : Env U} {policy : ContinuationPolicy}

/-! ## what a text does to the turn -/

structure Hears (R : Turn U → Turn U → Prop) : Prop where
  refl : ∀ s, R s s
  trans : ∀ s t u, R s t → R t u → R s u
  say : ∀ novel, Keeps R (say novel : Writing U Unit)
  hears : ∀ s content, R s { s with rawParts := s.rawParts ++ [content] }
  buffers : ∀ s buffer, R s { s with buffer := some buffer }

variable {R : Turn U → Turn U → Prop}

theorem Hears.sayNovel (h : Hears R) (novel : Text) : Keeps R (sayNovel novel : Writing U Unit) := by
  unfold Writer.sayNovel
  split
  · exact Keeps.pure h.refl _
  · exact h.say novel

theorem Hears.feed (h : Hears R) (content : Text) : Keeps R (feed content : Writing U Text) := by
  refine Keeps.get_bind (fun s => ?_)
  cases s.buffer with
  | none => exact h.refl s
  | some buffer => exact h.buffers s _

theorem Hears.flush (h : Hears R) : Keeps R (flush : Writing U Unit) := by
  refine Keeps.get_bind (fun s => ?_)
  cases s.buffer with
  | none => exact h.refl s
  | some buffer =>
    rw [runFrom_bind]
    exact h.trans s _ _ (h.buffers s { buffer with resolved := true }) (h.sayNovel buffer.flush _)

theorem Hears.takeContent (h : Hears R) (content : Text) : Keeps R (takeContent content : Writing U Unit) := by
  unfold Writer.takeContent
  split
  · exact Keeps.pure h.refl _
  · exact Keeps.bind h.trans (Keeps.modify (fun s => h.hears s content))
      (fun _ => Keeps.bind h.trans (h.feed content) (fun novel => h.sayNovel novel))

/-! ## what is stored is what was shown -/

/-- The message is `c` and then the token events. -/
structure Stored (c : Text) (t : Turn U) : Prop where
  full : t.full = t.content
  tokens : t.content = c ++ t.tokens.flatten

def Shown (s t : Turn U) : Prop := ∀ c, Stored c s → Stored c t

theorem Shown.refl (s : Turn U) : Shown s s := fun _ h => h

theorem Shown.trans (s t u : Turn U) (hst : Shown s t) (htu : Shown t u) : Shown s u := fun c h => htu c (hst c h)

structure Untouched (s t : Turn U) : Prop where
  full : t.full = s.full
  content : t.content = s.content
  tokens : t.tokens = s.tokens
  asked : t.asked = s.asked
  usageRecords : t.usageRecords = s.usageRecords
  modelDispatches : t.modelDispatches = s.modelDispatches

theorem Untouched.refl (s : Turn U) : Untouched s s := ⟨rfl, rfl, rfl, rfl, rfl, rfl⟩

theorem Untouched.trans (s t u : Turn U) (hst : Untouched s t) (htu : Untouched t u) : Untouched s u :=
  ⟨htu.full.trans hst.full, htu.content.trans hst.content, htu.tokens.trans hst.tokens, htu.asked.trans hst.asked,
    htu.usageRecords.trans hst.usageRecords, htu.modelDispatches.trans hst.modelDispatches⟩

theorem Shown.of_same {s t : Turn U} (hfull : t.full = s.full) (hcontent : t.content = s.content)
    (htokens : t.tokens = s.tokens) : Shown s t :=
  fun _ h => ⟨hfull.trans (h.full.trans hcontent.symm), hcontent.trans (h.tokens.trans (by rw [htokens]))⟩

theorem Untouched.shown {s t : Turn U} (h : Untouched s t) : Shown s t := .of_same h.full h.content h.tokens

theorem say_shown (novel : Text) : Keeps Shown (say novel : Writing U Unit) := by
  refine Keeps.modify (fun t c h => ⟨rfl, ?_⟩)
  rw [h.full, h.tokens]
  simp

theorem shown_hears : Hears (Shown : Turn U → Turn U → Prop) where
  refl := Shown.refl
  trans := Shown.trans
  say := say_shown
  hears := fun _ _ => Shown.of_same rfl rfl rfl
  buffers := fun _ _ => Shown.of_same rfl rfl rfl

theorem takeIn_shown (delta : Delta U) : Keeps Shown (takeIn delta) :=
  Keeps.bind Shown.trans (shown_hears.takeContent delta.content) (fun _ => Keeps.modify (fun _ => Shown.of_same rfl rfl rfl))

theorem readChunks_shown (ends : StreamEnd) : ∀ chunks : List (Delta U × Signal), Keeps Shown (readChunks ends chunks)
  | [] => by
    cases ends with
    | exhausted => exact Keeps.pure Shown.refl _
    | raises e => exact Keeps.throw Shown.refl e
  | (delta, signal) :: rest => by
    have hgo : Keeps Shown (do takeIn delta; readChunks ends rest) :=
      Keeps.bind Shown.trans (takeIn_shown delta) (fun _ => readChunks_shown ends rest)
    have hcancel : Keeps Shown (modify fun t => { t with finishReason := "cancelled" } : Writing U Unit) :=
      Keeps.modify (fun _ => Shown.of_same rfl rfl rfl)
    cases signal with
    | go => exact hgo
    | cancelled => exact hcancel
    | paused pause =>
      cases pause with
      | resumed => exact hgo
      | cancelled => exact hcancel
      | raises e => exact Keeps.throw Shown.refl e

theorem recordUsage_shown (n : Nat) (usage : U) : Keeps Shown (recordUsage agentId env n usage) := by
  refine Keeps.get_bind (fun s => ?_)
  split
  · exact Shown.refl s
  · rw [runFrom_bind]
    dsimp only [Raising.runFrom_set]
    split <;> exact Shown.of_same rfl rfl rfl

theorem setCheckpoint_untouched (round : Nat) (status : CheckpointStatus) :
    Keeps Untouched (setCheckpoint policy round status : Writing U Unit) :=
  Keeps.modify (fun _ => ⟨rfl, rfl, rfl, rfl, rfl, rfl⟩)

theorem persist_untouched (ends : PersistEnd) : Keeps Untouched (persist ends : Writing U Unit) := by
  cases ends with
  | ok => exact Keeps.pure Untouched.refl _
  | cancelled | fails => exact Keeps.throw Untouched.refl _

theorem persistCancelled_untouched (round : Nat) (ends : PersistEnd) :
    Keeps Untouched (persistCancelled policy round ends : Writing U Unit) :=
  Keeps.bind Untouched.trans (setCheckpoint_untouched round .cancelled) (fun _ => persist_untouched ends)

theorem openStream_shown (n : Nat) : Keeps Shown (openStream env n) := by
  unfold openStream
  split
  · exact Keeps.throw Shown.refl _
  · refine Keeps.bind Shown.trans (Keeps.modify (fun _ => Shown.of_same rfl rfl rfl)) (fun _ => ?_)
    refine Keeps.bind Shown.trans (readChunks_shown _ _) (fun _ => ?_)
    split
    · exact Keeps.throw Shown.refl _
    · exact Keeps.pure Shown.refl _

theorem raiseOn_untouched (round : Nat) (e : Exc) : Keeps Untouched (raiseOn env policy round e) := by
  cases e with
  | cancelled =>
    unfold raiseOn
    dsimp only
    split
    · exact Keeps.throw Untouched.refl _
    · exact Keeps.bind Untouched.trans (persistCancelled_untouched round _) (fun _ => Keeps.throw Untouched.refl _)
  | timeout | provider | budget | metering | noGuard | other => exact Keeps.throw Untouched.refl _

theorem raiseOn_raises (round : Nat) (e : Exc) : Raising.Raises (raiseOn env policy round e) := by
  cases e with
  | cancelled =>
    unfold raiseOn
    dsimp only
    split
    · exact Raising.Raises.throw _
    · exact Raising.Raises.bind (fun _ => Raising.Raises.throw _)
  | timeout | provider | budget | metering | noGuard | other => exact Raising.Raises.throw _

theorem recordFailedUsage_shown (n : Nat) (current : Option U) : Keeps Shown (recordFailedUsage agentId env n current) := by
  cases current with
  | none => exact Keeps.pure Shown.refl _
  | some usage => exact recordUsage_shown n usage

theorem onExc_shown (round n : Nat) (e : Exc) : Keeps Shown (onExc agentId env policy round n e) := by
  refine Keeps.bind Shown.trans shown_hears.flush (fun _ => ?_)
  refine Keeps.bind Shown.trans (Keeps.modify (fun _ => Shown.of_same rfl rfl rfl)) (fun _ => ?_)
  refine Keeps.get_bind (fun s => ?_)
  exact Keeps.bind Shown.trans (recordFailedUsage_shown n _)
    (fun _ => (raiseOn_untouched round e).mono (fun _ _ h => h.shown)) s

theorem settle_shown (n : Nat) : Keeps Shown (settle agentId env n) := by
  have husage : ∀ usage, Keeps Shown (settleUsage agentId env n usage) := by
    intro usage
    refine Keeps.bind Shown.trans (Keeps.modify (fun _ => Shown.of_same rfl rfl rfl)) (fun _ => ?_)
    refine Keeps.bind Shown.trans (recordUsage_shown n usage) (fun _ => ?_)
    split
    · exact Keeps.throw Shown.refl _
    · exact Keeps.pure Shown.refl _
  refine Keeps.get_bind (fun s => ?_)
  cases s.roundUsage with
  | none => exact Shown.refl s
  | some usage => exact husage usage s

theorem openDispatch_shown (round : Nat) : Keeps Shown (openDispatch policy round : Writing U Nat) :=
  Keeps.bind Shown.trans (Keeps.modify (fun _ => Shown.of_same rfl rfl rfl))
    (fun _ => Keeps.get_bind (fun s => Shown.refl s))

theorem attempt_shown (round : Nat) : Keeps Shown (attempt agentId env policy round) := by
  refine Keeps.bind Shown.trans (openDispatch_shown round) (fun n => ?_)
  refine Keeps.bind Shown.trans (Keeps.tryCatch Shown.trans (openStream_shown n) (onExc_shown round n)) (fun _ => ?_)
  refine Keeps.bind Shown.trans shown_hears.flush (fun _ => ?_)
  refine Keeps.bind Shown.trans (settle_shown n) (fun _ => ?_)
  exact Keeps.get_bind (fun s => Shown.refl s)

/-! ## the usage of every dispatch is recorded -/

def passes : Signal → Bool
  | .go | .paused .resumed => true
  | .cancelled | .paused .cancelled | .paused (.raises _) => false

def heard (chunks : List (Delta U × Signal)) : List (Delta U) := (chunks.takeWhile (fun c => passes c.2)).map (·.1)

def lastUsage (usage : Option U) (deltas : List (Delta U)) : Option U := deltas.foldl (fun u d => d.usage.or u) usage

def Dispatch.taken (d : Dispatch U) : Option U := lastUsage none (heard d.chunks)

def kept (agentId : String) (records : List (String × U)) (n : Nat) : Option U → List (String × U)
  | none => records
  | some usage =>
    if (records.map (·.1)).contains (usageKey agentId n) then records else records ++ [(usageKey agentId n, usage)]

structure Took (deltas : List (Delta U)) (s t : Turn U) : Prop where
  asked : t.asked = s.asked
  usageRecords : t.usageRecords = s.usageRecords
  modelDispatches : t.modelDispatches = s.modelDispatches
  roundUsage : t.roundUsage = lastUsage s.roundUsage deltas

theorem Took.refl (s : Turn U) : Took [] s s := ⟨rfl, rfl, rfl, rfl⟩

theorem Took.append {ds ds' : List (Delta U)} (s t u : Turn U) (hst : Took ds s t) (htu : Took ds' t u) :
    Took (ds ++ ds') s u where
  asked := htu.asked.trans hst.asked
  usageRecords := htu.usageRecords.trans hst.usageRecords
  modelDispatches := htu.modelDispatches.trans hst.modelDispatches
  roundUsage := by
    rw [htu.roundUsage, hst.roundUsage]
    simp [lastUsage]

theorem Took.trans (s t u : Turn U) (hst : Took [] s t) (htu : Took [] t u) : Took [] s u := Took.append s t u hst htu

theorem took_hears : Hears (Took [] : Turn U → Turn U → Prop) where
  refl := Took.refl
  trans := Took.trans
  say := fun _ => Keeps.modify (fun _ => ⟨rfl, rfl, rfl, rfl⟩)
  hears := fun _ _ => ⟨rfl, rfl, rfl, rfl⟩
  buffers := fun _ _ => ⟨rfl, rfl, rfl, rfl⟩

theorem sayNovel_returns (novel : Text) : Raising.Returns (sayNovel novel : Writing U Unit) := by
  unfold sayNovel
  split
  · exact Raising.Returns.pure _
  · exact Raising.Returns.modify _

theorem flush_returns : Raising.Returns (flush : Writing U Unit) := by
  intro s
  unfold flush
  rw [runFrom_bind]
  dsimp only [Raising.runFrom_get]
  cases s.buffer with
  | none => exact ⟨(), rfl⟩
  | some buffer =>
    rw [runFrom_bind]
    exact sayNovel_returns buffer.flush _

theorem takeContent_returns (content : Text) : Raising.Returns (takeContent content : Writing U Unit) := by
  have hfeed : Raising.Returns (feed content : Writing U Text) := by
    intro s
    unfold feed
    rw [runFrom_bind]
    dsimp only [Raising.runFrom_get]
    cases s.buffer with
    | none => exact ⟨content, rfl⟩
    | some buffer => exact ⟨_, rfl⟩
  unfold takeContent
  split
  · exact Raising.Returns.pure _
  · exact Raising.Returns.bind (Raising.Returns.modify _)
      (fun _ => Raising.Returns.bind hfeed (fun novel => sayNovel_returns novel))

theorem takeIn_took (delta : Delta U) : Keeps (Took [delta]) (takeIn delta) :=
  Keeps.bind_returns (takeContent_returns delta.content) (took_hears.takeContent delta.content)
    (fun _ => Keeps.modify (fun _ => ⟨rfl, rfl, rfl, rfl⟩)) (fun s t u hst htu => Took.append s t u hst htu)

theorem takeIn_returns (delta : Delta U) : Raising.Returns (takeIn delta) :=
  Raising.Returns.bind (takeContent_returns delta.content) (fun _ => Raising.Returns.modify _)

theorem readChunks_took (ends : StreamEnd) : ∀ chunks : List (Delta U × Signal),
    Keeps (Took (heard chunks)) (readChunks ends chunks)
  | [] => by
    cases ends with
    | exhausted => exact Keeps.pure Took.refl _
    | raises e => exact Keeps.throw Took.refl e
  | (delta, signal) :: rest => by
    have hgo : Keeps (Took (delta :: heard rest)) (do takeIn delta; readChunks ends rest) :=
      Keeps.bind_returns (takeIn_returns delta) (takeIn_took delta) (fun _ => readChunks_took ends rest)
        (fun s t u hst htu => Took.append s t u hst htu)
    have hcancel : Keeps (Took []) (modify fun t => { t with finishReason := "cancelled" } : Writing U Unit) :=
      Keeps.modify (fun _ => ⟨rfl, rfl, rfl, rfl⟩)
    cases signal with
    | go => exact hgo
    | cancelled => exact hcancel
    | paused pause =>
      cases pause with
      | resumed => exact hgo
      | cancelled => exact hcancel
      | raises e => exact Keeps.throw Took.refl e

structure Opened (env : Env U) (n : Nat) (s t : Turn U) : Prop where
  usageRecords : t.usageRecords = s.usageRecords
  modelDispatches : t.modelDispatches = s.modelDispatches
  asked : (t.asked = s.asked ∧ t.roundUsage = s.roundUsage) ∨
    (t.asked = s.asked ++ [n] ∧ t.roundUsage = lastUsage s.roundUsage (heard (env.dispatch n).chunks))

theorem openStream_opened (n : Nat) : Keeps (Opened env n) (openStream env n) := by
  unfold openStream
  split
  · exact Keeps.throw (fun _ => ⟨rfl, rfl, .inl ⟨rfl, rfl⟩⟩) _
  · have hread : Keeps (Took (heard (env.dispatch n).chunks)) (do
        readChunks (env.dispatch n).ends (env.dispatch n).chunks
        if env.hasGuard && (env.dispatch n).overBudget then throw .budget else return ()) := by
      refine Keeps.bind_add (readChunks_took _ _) (S := Took []) (fun _ => ?_) (fun _ _ h => h) (fun s t u hst htu => ?_)
      · split
        · exact Keeps.throw Took.refl _
        · exact Keeps.pure Took.refl _
      · have h := Took.append s t u hst htu
        rwa [List.append_nil] at h
    refine Keeps.bind_returns (Raising.Returns.modify _) (R := fun s t => t = { s with asked := s.asked ++ [n] })
      (Keeps.modify (fun _ => rfl)) (fun _ => hread) (fun s t u hst htu => ?_)
    subst hst
    exact ⟨htu.usageRecords, htu.modelDispatches, .inr ⟨htu.asked, htu.roundUsage⟩⟩

structure Recorded (agentId : String) (n : Nat) (s t : Turn U) : Prop where
  asked : t.asked = s.asked
  modelDispatches : t.modelDispatches = s.modelDispatches
  usageRecords : t.usageRecords = kept agentId s.usageRecords n s.roundUsage

theorem recordUsage_kept (s : Turn U) (n : Nat) (usage : U) :
    (runFrom (recordUsage agentId env n usage) s).2 =
      { s with usageRecords := kept agentId s.usageRecords n (some usage) } := by
  unfold recordUsage kept
  rw [runFrom_bind]
  dsimp only [Raising.runFrom_get]
  split
  · rfl
  · rw [runFrom_bind]
    dsimp only [Raising.runFrom_set]
    split <;> rfl

theorem Recorded.after_took {agentId : String} {n : Nat} (s t u : Turn U) (hst : Took [] s t) (htu : Recorded agentId n t u) :
    Recorded agentId n s u where
  asked := htu.asked.trans hst.asked
  modelDispatches := htu.modelDispatches.trans hst.modelDispatches
  usageRecords := by
    rw [htu.usageRecords, hst.usageRecords, hst.roundUsage]
    rfl

theorem Recorded.untouched {agentId : String} {n : Nat} (s t u : Turn U) (hst : Recorded agentId n s t)
    (htu : Untouched t u) : Recorded agentId n s u where
  asked := htu.asked.trans hst.asked
  modelDispatches := htu.modelDispatches.trans hst.modelDispatches
  usageRecords := htu.usageRecords.trans hst.usageRecords

theorem onExc_recorded (round n : Nat) (e : Exc) : Keeps (Recorded agentId n) (onExc agentId env policy round n e) := by
  refine Keeps.bind_returns flush_returns took_hears.flush (fun _ => ?_) Recorded.after_took
  refine Keeps.bind_returns (Raising.Returns.modify _) (Keeps.modify (fun _ => ⟨rfl, rfl, rfl, rfl⟩)) (fun _ => ?_)
    Recorded.after_took
  refine Keeps.get_bind (fun s => ?_)
  have hrecord : Keeps (fun t u => s = t → Recorded agentId n t u) (recordFailedUsage agentId env n s.roundUsage) := by
    rintro t rfl
    unfold recordFailedUsage
    cases husage : s.roundUsage with
    | none => exact ⟨rfl, rfl, by rw [husage]; rfl⟩
    | some usage =>
      rw [recordUsage_kept]
      exact ⟨rfl, rfl, by rw [husage]⟩
  exact Keeps.bind_add hrecord (fun _ => raiseOn_untouched round e) (fun _ _ h => h)
    (fun t u v htu huv hs => Recorded.untouched t u v (htu hs) huv) s rfl

theorem onExc_raises (round n : Nat) (e : Exc) : Raising.Raises (onExc agentId env policy round n e) :=
  Raising.Raises.bind (fun _ => Raising.Raises.bind (fun _ => Raising.Raises.bind (fun _ =>
    Raising.Raises.bind (fun _ => raiseOn_raises round e))))

theorem settle_recorded (n : Nat) : Keeps (Recorded agentId n) (settle agentId env n) := by
  refine Keeps.get_bind (fun s => ?_)
  cases husage : s.roundUsage with
  | none => exact ⟨rfl, rfl, by rw [husage]; rfl⟩
  | some usage =>
    have hsettled : Keeps (fun t u => t.roundUsage = some usage → Recorded agentId n t u)
        (settleUsage agentId env n usage) := by
      refine Keeps.bind_returns (Raising.Returns.modify _) (R := Took []) (Keeps.modify (fun _ => ⟨rfl, rfl, rfl, rfl⟩))
        (S := fun t u => t.roundUsage = some usage → Recorded agentId n t u) (fun _ => ?_)
        (fun t u v htu huv ht => Recorded.after_took t u v htu (huv (htu.roundUsage.trans ht)))
      refine Keeps.bind_add (R := fun t u => t.roundUsage = some usage → Recorded agentId n t u) (S := Untouched) ?_
        (fun _ => ?_) (fun _ _ h => h) (fun t u v htu huv ht => Recorded.untouched t u v (htu ht) huv)
      · intro t ht
        rw [recordUsage_kept]
        exact ⟨rfl, rfl, by rw [ht]⟩
      · split
        · exact Keeps.throw Untouched.refl _
        · exact Keeps.pure Untouched.refl _
    exact hsettled s husage

theorem flush_settle_recorded (n : Nat) : Keeps (Recorded agentId n) (do
    flush
    settle agentId env n
    let t ← get
    return t.rawParts.flatten ≠ [] || t.finishReason = "cancelled" : Writing U Bool) := by
  refine Keeps.bind_returns flush_returns took_hears.flush (fun _ => ?_) Recorded.after_took
  exact Keeps.bind_add (settle_recorded n) (fun _ => Keeps.get_bind Untouched.refl) (fun _ _ h => h) Recorded.untouched

structure Begun (s t : Turn U) : Prop where
  modelDispatches : t.modelDispatches = s.modelDispatches + 1
  asked : t.asked = s.asked
  usageRecords : t.usageRecords = s.usageRecords
  roundUsage : t.roundUsage = none

structure Attempted (agentId : String) (env : Env U) (s t : Turn U) : Prop where
  modelDispatches : t.modelDispatches = s.modelDispatches + 1
  log : (t.asked = s.asked ∧ t.usageRecords = s.usageRecords) ∨
    (t.asked = s.asked ++ [s.modelDispatches + 1] ∧
      t.usageRecords = kept agentId s.usageRecords (s.modelDispatches + 1) (env.dispatch (s.modelDispatches + 1)).taken)

theorem Begun.attempted {s s' t u : Turn U} (hbegun : Begun s s') (hopened : Opened env (s.modelDispatches + 1) s' t)
    (hrecorded : Recorded agentId (s.modelDispatches + 1) t u) : Attempted agentId env s u where
  modelDispatches := hrecorded.modelDispatches.trans (hopened.modelDispatches.trans hbegun.modelDispatches)
  log := by
    rw [hrecorded.asked, hrecorded.usageRecords, hopened.usageRecords, hbegun.usageRecords]
    obtain ⟨hasked, hround⟩ | ⟨hasked, hround⟩ := hopened.asked
    · left
      rw [hasked, hround, hbegun.asked, hbegun.roundUsage]
      exact ⟨rfl, rfl⟩
    · right
      rw [hasked, hround, hbegun.asked, hbegun.roundUsage]
      exact ⟨rfl, rfl⟩

theorem attempt_attempted (round : Nat) : Keeps (Attempted agentId env) (attempt agentId env policy round) := by
  intro s
  unfold attempt
  rw [runFrom_bind]
  exact Keeps.tryCatch_bind (R := Opened env (s.modelDispatches + 1)) (S := Recorded agentId (s.modelDispatches + 1))
    (T := fun s' u => Begun s s' → Attempted agentId env s u) (openStream_opened _) (onExc_raises round _)
    (onExc_recorded round _) (fun _ => flush_settle_recorded _)
    (fun s' t u hopened hrecorded hbegun => hbegun.attempted hopened hrecorded) _ ⟨rfl, rfl, rfl, rfl⟩

/-! ## a whole run -/

def keptAll (agentId : String) (env : Env U) (records : List (String × U)) (ns : List Nat) : List (String × U) :=
  ns.foldl (fun records n => kept agentId records n (env.dispatch n).taken) records

/-- At most `k` dispatches further: the text was shown, and the dispatches that reached the provider are retained. -/
structure Ran (agentId : String) (env : Env U) (k : Nat) (s t : Turn U) : Prop where
  shown : Shown s t
  ge : s.modelDispatches ≤ t.modelDispatches
  le : t.modelDispatches ≤ s.modelDispatches + k
  log : ∃ ns : List Nat, t.asked = s.asked ++ ns ∧ t.usageRecords = keptAll agentId env s.usageRecords ns ∧
    ns.Pairwise (· < ·) ∧ (∀ n ∈ ns, s.modelDispatches < n ∧ n ≤ t.modelDispatches)

theorem Untouched.ran {s t : Turn U} (h : Untouched s t) (k : Nat) : Ran agentId env k s t where
  shown := h.shown
  ge := Nat.le_of_eq h.modelDispatches.symm
  le := h.modelDispatches ▸ Nat.le_add_right _ k
  log := ⟨[], by rw [h.asked, List.append_nil], h.usageRecords, List.Pairwise.nil, nofun⟩

theorem Attempted.ran {s t : Turn U} (hshown : Shown s t) (h : Attempted agentId env s t) : Ran agentId env 1 s t where
  shown := hshown
  ge := h.modelDispatches ▸ Nat.le_succ _
  le := Nat.le_of_eq h.modelDispatches
  log := by
    obtain ⟨hasked, hrecords⟩ | ⟨hasked, hrecords⟩ := h.log
    · exact ⟨[], by rw [hasked, List.append_nil], hrecords, List.Pairwise.nil, nofun⟩
    · refine ⟨[s.modelDispatches + 1], hasked, hrecords, List.pairwise_singleton _ _, fun n hn => ?_⟩
      rw [List.mem_singleton.1 hn, h.modelDispatches]
      exact ⟨Nat.lt_succ_self _, Nat.le_refl _⟩

theorem Ran.mono {j k : Nat} {s t : Turn U} (h : Ran agentId env j s t) (hjk : j ≤ k) : Ran agentId env k s t :=
  ⟨h.shown, h.ge, Nat.le_trans h.le (Nat.add_le_add_left hjk _), h.log⟩

theorem Ran.add {j k : Nat} (s t u : Turn U) (hst : Ran agentId env j s t) (htu : Ran agentId env k t u) :
    Ran agentId env (j + k) s u where
  shown := Shown.trans s t u hst.shown htu.shown
  ge := Nat.le_trans hst.ge htu.ge
  le := by
    have hs := hst.le
    have ht := htu.le
    omega
  log := by
    obtain ⟨ns, hasked, hrecords, hsorted, hbounds⟩ := hst.log
    obtain ⟨ms, hasked', hrecords', hsorted', hbounds'⟩ := htu.log
    have hlt : ∀ n ∈ ns, ∀ m ∈ ms, n < m := fun n hn m hm => Nat.lt_of_le_of_lt (hbounds n hn).2 (hbounds' m hm).1
    refine ⟨ns ++ ms, ?_, ?_, List.pairwise_append.2 ⟨hsorted, hsorted', hlt⟩, fun n hn => ?_⟩
    · rw [hasked', hasked, List.append_assoc]
    · rw [hrecords', hrecords]
      exact (List.foldl_append ..).symm
    · obtain hn | hn := List.mem_append.1 hn
      · exact ⟨(hbounds n hn).1, Nat.le_trans (hbounds n hn).2 htu.ge⟩
      · exact ⟨Nat.lt_of_le_of_lt hst.ge (hbounds' n hn).1, (hbounds' n hn).2⟩

theorem attempts_ran (round : Nat) : Keeps (Ran agentId env 2) (attempts agentId env policy round) := by
  have hattempt : Keeps (Ran agentId env 1) (attempt agentId env policy round) :=
    fun s => (attempt_attempted round s).ran (attempt_shown round s)
  refine Keeps.bind_add hattempt (S := Ran agentId env 1) (fun answered => ?_) (fun _ _ h => h.mono (by decide)) Ran.add
  split
  · exact Keeps.pure (fun s => (Untouched.refl s).ran 1) _
  · exact Keeps.bind_add hattempt (S := Untouched) (fun _ => Keeps.pure Untouched.refl _) (fun _ _ h => h)
      (fun s t u hst htu => Ran.add s t u hst (htu.ran 0))

theorem cancel_untouched : Keeps Untouched (modify fun t => { t with finishReason := "cancelled" } : Writing U Unit) :=
  Keeps.modify (fun _ => ⟨rfl, rfl, rfl, rfl, rfl, rfl⟩)

theorem noticeCancel_untouched (round : Nat) : Keeps Untouched (noticeCancel env policy round) := by
  refine Keeps.get_bind (fun s => ?_)
  split
  · exact Keeps.bind Untouched.trans cancel_untouched (fun _ => setCheckpoint_untouched round .cancelled) s
  · exact Untouched.refl s

theorem conclude_untouched (round : Nat) : Keeps Untouched (conclude env policy round) := by
  refine Keeps.bind Untouched.trans (Keeps.modify (fun t => ?_)) (fun _ => Keeps.get_bind (fun s => ?_))
  · split
    · exact Untouched.refl t
    · exact ⟨rfl, rfl, rfl, rfl, rfl, rfl⟩
  · cases s.checkpoint with
    | none => exact Untouched.refl s
    | some checkpoint =>
      obtain ⟨_, _, status⟩ := checkpoint
      cases status with
      | continuing => exact Untouched.refl s
      | maxed | cancelled | completed => exact persist_untouched _ s

theorem followUp_untouched (round : Nat) : Keeps Untouched (followUp env policy round) := by
  refine Keeps.bind Untouched.trans (Keeps.modify (fun _ => ⟨rfl, rfl, rfl, rfl, rfl, rfl⟩)) (fun _ => ?_)
  refine Keeps.bind Untouched.trans (setCheckpoint_untouched _ _) (fun _ => ?_)
  have hcancelled : Keeps Untouched (persistCancelled policy (round + 1) (env.around round).persistsThen : Writing U Unit) :=
    persistCancelled_untouched (round + 1) _
  split
  · exact Keeps.bind Untouched.trans hcancelled (fun _ => Keeps.throw Untouched.refl _)
  · exact Keeps.throw Untouched.refl _
  · split
    · exact Keeps.bind Untouched.trans cancel_untouched
        (fun _ => Keeps.bind Untouched.trans hcancelled (fun _ => Keeps.pure Untouched.refl _))
    · exact Keeps.pure Untouched.refl _

theorem Ran.quiet {k : Nat} (s t u : Turn U) (hst : Ran agentId env k s t) (htu : Untouched t u) : Ran agentId env k s u :=
  Ran.add s t u hst (htu.ran 0)

theorem rounds_ran (round : Nat) :
    Keeps (Ran agentId env (2 * (policy.maxRounds - round + 1))) (rounds agentId env policy round) := by
  rw [rounds]
  split
  · intro s
    exact (Keeps.bind Untouched.trans cancel_untouched (fun _ => persistCancelled_untouched round _) s).ran _
  · have hend : ∀ s t, Ran agentId env 2 s t → Ran agentId env (2 * (policy.maxRounds - round + 1)) s t :=
      fun _ _ h => h.mono (by omega)
    have hadd : ∀ s t u, Ran agentId env 2 s t → Ran agentId env (2 * (policy.maxRounds - round)) t u →
        Ran agentId env (2 * (policy.maxRounds - round + 1)) s u :=
      fun s t u hst htu => (Ran.add s t u hst htu).mono (by omega)
    refine Keeps.bind_add (attempts_ran round) (fun _ => ?_) hend hadd
    have hquiet : ∀ s t u, Untouched s t → Ran agentId env (2 * (policy.maxRounds - round)) t u →
        Ran agentId env (2 * (policy.maxRounds - round)) s u :=
      fun s t u hst htu => (Ran.add s t u (hst.ran 0) htu).mono (by omega)
    refine Keeps.bind_add (noticeCancel_untouched round) (fun _ => ?_) (fun _ _ h => h.ran _) hquiet
    refine Keeps.get_bind (fun s => ?_)
    split
    next h =>
      have hround : round < policy.maxRounds := by
        simp only [ContinuationPolicy.shouldContinue, Bool.and_eq_true, decide_eq_true_eq] at h
        exact h.1.1.2
      refine Keeps.bind_add (followUp_untouched round) (fun goesOn => ?_) (fun _ _ h => h.ran _) hquiet s
      cases goesOn with
      | true =>
        intro t
        exact (rounds_ran (round + 1) t).mono (by omega)
      | false => exact fun t => (Untouched.refl t).ran _
    next => exact (conclude_untouched round s).ran _
termination_by policy.maxRounds - round

theorem stored_ran (t : Turn U) : Ran agentId env 0 t { t with writerStreamed := true, content := t.full } where
  shown := fun _ h => ⟨rfl, h.full.trans h.tokens⟩
  ge := Nat.le_refl _
  le := Nat.le_refl _
  log := ⟨[], by simp, rfl, List.Pairwise.nil, nofun⟩

theorem streamWriter_ran (aggregateUsage : List U → Option U) :
    Keeps (Ran agentId env (2 * (policy.maxRounds + 1))) (streamWriter agentId env policy aggregateUsage) := by
  unfold streamWriter
  cases env.rejected with
  | some e => exact Keeps.throw (fun s => (Untouched.refl s).ran _) e
  | none =>
    refine Keeps.bind_add (rounds_ran 0) (S := Ran agentId env 0) (fun _ => ?_) (fun _ _ h => h) Ran.add
    refine Keeps.bind_add (Keeps.modify stored_ran) (fun _ => ?_) (fun _ _ h => h) Ran.quiet
    exact Keeps.get_bind Untouched.refl

/-! ## the records of a run -/

theorem usageKey_inj {m n : Nat} (h : usageKey agentId m = usageKey agentId n) : m = n := by
  have hrepr : Nat.repr m = Nat.repr n := (String.append_right_inj _).1 h
  simp only [Nat.repr_eq_ofList_toDigits, String.ofList_inj] at hrepr
  calc
    m = Nat.ofDigitChars 10 (Nat.toDigits 10 m) 0 := Nat.ofDigitChars_ten_toDigits.symm
    _ = n := by rw [hrepr, Nat.ofDigitChars_ten_toDigits]

def reports (agentId : String) (env : Env U) (ns : List Nat) : List (String × U) :=
  ns.filterMap (fun n => (env.dispatch n).taken.map (usageKey agentId n, ·))

def unheld (records entries : List (String × U)) : List (String × U) :=
  entries.filter (fun entry => !(records.map (·.1)).contains entry.1)

theorem mem_reports {ns : List Nat} {entry : String × U} (h : entry ∈ reports agentId env ns) :
    ∃ n ∈ ns, entry.1 = usageKey agentId n := by
  obtain ⟨n, hn, hreport⟩ := List.mem_filterMap.1 h
  obtain ⟨usage, -, rfl⟩ := Option.map_eq_some_iff.1 hreport
  exact ⟨n, hn, rfl⟩

theorem keptAll_eq {ns : List Nat} (hns : ns.Nodup) (records : List (String × U)) :
    keptAll agentId env records ns = records ++ unheld records (reports agentId env ns) := by
  induction ns generalizing records with
  | nil => simp [keptAll, reports, unheld]
  | cons n ns ih =>
    obtain ⟨hn, hns⟩ := List.nodup_cons.1 hns
    have hstep : keptAll agentId env records (n :: ns) =
        keptAll agentId env (kept agentId records n (env.dispatch n).taken) ns := rfl
    rw [hstep, ih hns]
    cases htaken : (env.dispatch n).taken with
    | none => simp [kept, reports, htaken]
    | some usage =>
      have hreports : reports agentId env (n :: ns) = (usageKey agentId n, usage) :: reports agentId env ns := by
        simp [reports, htaken]
      rw [hreports]
      unfold kept
      dsimp only
      split
      next hheld =>
        have hunheld : unheld records ((usageKey agentId n, usage) :: reports agentId env ns) =
            unheld records (reports agentId env ns) := by
          simp only [unheld, List.filter_cons, hheld, Bool.not_true, Bool.false_eq_true, if_false]
        rw [hunheld]
      next hheld =>
        have hunheld : unheld records ((usageKey agentId n, usage) :: reports agentId env ns) =
            (usageKey agentId n, usage) :: unheld records (reports agentId env ns) := by
          simp only [unheld, List.filter_cons, hheld, Bool.not_false, if_true]
        have hsame : unheld (records ++ [(usageKey agentId n, usage)]) (reports agentId env ns) =
            unheld records (reports agentId env ns) := by
          refine List.filter_congr (fun entry hentry => ?_)
          obtain ⟨m, hm, hkey⟩ := mem_reports hentry
          have hne : usageKey agentId m ≠ usageKey agentId n := fun h => hn (usageKey_inj h ▸ hm)
          simp [hkey, hne]
        rw [hunheld, hsame, List.append_assoc, List.singleton_append]

theorem reports_filter_of_notMem {n : Nat} {ns : List Nat} (hn : n ∉ ns) :
    (reports agentId env ns).filter (fun entry => entry.1 = usageKey agentId n) = [] := by
  refine List.filter_eq_nil_iff.2 (fun entry hentry hkey => hn ?_)
  obtain ⟨m, hm, hkey'⟩ := mem_reports hentry
  exact usageKey_inj ((of_decide_eq_true hkey).symm.trans hkey') ▸ hm

theorem reports_filter {n : Nat} {ns : List Nat} (hns : ns.Nodup) (hn : n ∈ ns) {usage : U}
    (htaken : (env.dispatch n).taken = some usage) :
    (reports agentId env ns).filter (fun entry => entry.1 = usageKey agentId n) = [(usageKey agentId n, usage)] := by
  obtain ⟨before, after, rfl⟩ := List.append_of_mem hn
  have hsplit : reports agentId env (before ++ n :: after) =
      reports agentId env before ++ (usageKey agentId n, usage) :: reports agentId env after := by
    simp [reports, htaken]
  have hnotin : n ∉ before ∧ n ∉ after := by
    obtain ⟨-, hafter, hdisjoint⟩ := List.nodup_append.1 hns
    exact ⟨fun h => hdisjoint n h n List.mem_cons_self rfl, (List.nodup_cons.1 hafter).1⟩
  rw [hsplit, List.filter_append, List.filter_cons, reports_filter_of_notMem hnotin.1, reports_filter_of_notMem hnotin.2]
  simp

theorem recorded_once {n : Nat} {ns : List Nat} (hns : ns.Nodup) (hn : n ∈ ns) {usage : U}
    (htaken : (env.dispatch n).taken = some usage) {records : List (String × U)}
    (hunheld : usageKey agentId n ∉ records.map (·.1)) :
    (records ++ unheld records (reports agentId env ns)).filter (fun entry => entry.1 = usageKey agentId n) =
      [(usageKey agentId n, usage)] := by
  have hold : records.filter (fun entry => entry.1 = usageKey agentId n) = [] :=
    List.filter_eq_nil_iff.2 (fun entry hentry hkey =>
      hunheld (of_decide_eq_true hkey ▸ List.mem_map_of_mem hentry))
  have hnew : (unheld records (reports agentId env ns)).filter (fun entry => entry.1 = usageKey agentId n) =
      (reports agentId env ns).filter (fun entry => entry.1 = usageKey agentId n) := by
    unfold unheld
    rw [List.filter_filter]
    refine List.filter_congr (fun entry _ => ?_)
    by_cases hkey : entry.1 = usageKey agentId n
    · simpa [hkey] using hunheld
    · simp [hkey]
  rw [List.filter_append, hold, hnew, List.nil_append]
  exact reports_filter hns hn htaken

/-- **Whatever the writer meets and however it ends**, the message is its first content and the token events, the model was
asked at most twice a round, and the usage of every dispatch is recorded once, under the dispatch's own key. -/
theorem streamWriter_kept (aggregateUsage : List U → Option U) (content : Text) (metadata : Option Checkpoint)
    (records : List (String × U)) (messages : List (String × Text)) :
    let t := (runFrom (streamWriter agentId env policy aggregateUsage) (Turn.start content metadata records messages)).2
    t.content = content ++ t.tokens.flatten ∧
    t.asked.length ≤ 2 * (policy.maxRounds + 1) ∧ t.asked.Nodup ∧
    t.usageRecords = records ++ unheld records (reports agentId env t.asked) ∧
    ∀ n ∈ t.asked, ∀ usage, (env.dispatch n).taken = some usage → usageKey agentId n ∉ records.map (·.1) →
      t.usageRecords.filter (fun entry => entry.1 = usageKey agentId n) = [(usageKey agentId n, usage)] := by
  intro t
  have hran : Ran agentId env (2 * (policy.maxRounds + 1)) (Turn.start content metadata records messages) t :=
    streamWriter_ran aggregateUsage _
  obtain ⟨ns, hasked, hrecords, hsorted, hbounds⟩ := hran.log
  have hasked : t.asked = ns := hasked
  have hnodup : ns.Nodup := hsorted.imp (fun h => Nat.ne_of_lt h)
  have hrecorded : t.usageRecords = records ++ unheld records (reports agentId env ns) :=
    hrecords.trans (keptAll_eq hnodup records)
  have hlength : ns.length ≤ 2 * (policy.maxRounds + 1) := by
    have hsub : ns ⊆ List.range' 1 (2 * (policy.maxRounds + 1)) := by
      intro n hn
      obtain ⟨hpos, hlast⟩ := hbounds n hn
      have hle := Nat.le_trans hlast hran.le
      simp only [Turn.start] at hle hpos
      rw [List.mem_range'_1]
      omega
    simpa using (hnodup.subperm hsub).length_le
  rw [hasked]
  refine ⟨?_, hlength, hnodup, hrecorded, fun n hn usage htaken hunheld => ?_⟩
  · exact (hran.shown content ⟨rfl, by simp [Turn.start]⟩).tokens
  · rw [hrecorded]
    exact recorded_once hnodup hn htaken hunheld

/-! ## the chunk at which a cancel is noticed -/

def Dispatch.reported (d : Dispatch U) : Option U :=
  lastUsage none (heard d.chunks ++ ((d.chunks.dropWhile (fun c => passes c.2)).head?.map (·.1)).toList)

end

def stoppedLast : Env Nat where
  dispatch := fun _ =>
    { chunks := [({ content := "Hi".toList }, .go), ({ finishReason := "stop", usage := some 7 }, .cancelled)] }
  around := fun _ => {}

theorem stoppedLast_unrecorded :
    let t := (runFrom (streamWriter "writer" stoppedLast {} (fun _ => none)) (Turn.start [] none [] [])).2
    t.asked = [1] ∧ (stoppedLast.dispatch 1).reported = some 7 ∧ t.usageRecords = [] := by
  have hrounds : runFrom (rounds "writer" stoppedLast {} 0) (Turn.start [] none [] []) =
      (.ok (), { content := "Hi".toList, full := "Hi".toList, tokens := ["Hi".toList], finishReason := "cancelled",
                 asked := [1], modelDispatches := 1, rawParts := ["Hi".toList] }) := by
    rw [rounds]
    rfl
  have hadmitted : stoppedLast.rejected = none := rfl
  unfold streamWriter
  rw [hadmitted]
  rw [runFrom_bind, hrounds]
  exact ⟨rfl, rfl, rfl⟩

end Writer
end MyGpt
