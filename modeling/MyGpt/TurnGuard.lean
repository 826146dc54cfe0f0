import MyGpt.ChatScope
import MyGpt.RunDb
import MyGpt.Lib.Trace
/-!
# TurnGuard — one turn of a conversation at a time

An inline request asks the registry of its own process, a durable submission counts the runs that are pending or
running.  Neither sees what only the other does, nor a run that waits for an approval (`approval_admits_second`).  Runs
of the system in which every admission finds only turns that its own guard looks at have one turn at a time
(`one_turn`).
-/
namespace MyGpt
namespace Guard

open Run (RunStatus)
open Scope (AppException)
open Trace (Runs Reaches play reaches_play)

/-! ## the requests of one conversation -/

inductive Path
  | inline (proc : Nat)
  | durable
  deriving DecidableEq

inductive Phase
  | arrived
  | admitted
  | refused (e : AppException)
  | over
  deriving DecidableEq

structure Turn where
  phase : Phase := .arrived
  wrote : Bool := false

def turnInProgress : AppException := ⟨409, "turn_in_progress", "上一条回复还在生成中，请先停止或稍候再发送"⟩

structure Conversation where
  /-- `_counts` of each process. -/
  counts : Nat → Nat
  turns : Nat → Turn
  /-- The rows of `agent_runs`, each with the turn it belongs to. -/
  runs : List (Nat × RunStatus)

def Conversation.start : Conversation := ⟨fun _ => 0, fun _ => {}, []⟩

/-! ## the two guards -/

def acquire (count : Nat) : Nat × Bool := if 1 ≤ count then (count, false) else (count + 1, true)

def release (count : Nat) : Nat := if count ≤ 1 then 0 else count - 1

/-- The count query of `create_and_enqueue_durable_run`. -/
def Conversation.inFlight (s : Conversation) : Nat := s.runs.countP (fun r => r.2 == .pending || r.2 == .running)

def Conversation.setTurn (s : Conversation) (k : Nat) (t : Turn) : Conversation :=
  { s with turns := Function.update s.turns k t }

def Conversation.setPhase (s : Conversation) (k : Nat) (phase : Phase) : Conversation :=
  s.setTurn k { s.turns k with phase := phase }

def Conversation.setCount (s : Conversation) (p n : Nat) : Conversation :=
  { s with counts := Function.update s.counts p n }

def Conversation.passGuard (path : Nat → Path) (s : Conversation) (k : Nat) : Conversation :=
  match path k with
  | .inline p =>
    match acquire (s.counts p) with
    | (_, false) => s.setPhase k (.refused turnInProgress)
    | (n, true) => (s.setPhase k .admitted).setCount p n
  | .durable => if s.inFlight > 0 then s.setPhase k (.refused turnInProgress) else s.setPhase k .admitted

/-- The `finally` of the inline turn; a durable submission that raises is rolled back. -/
def Conversation.leave (path : Nat → Path) (s : Conversation) (k : Nat) : Conversation :=
  match path k with
  | .inline p => (s.setPhase k .over).setCount p (release (s.counts p))
  | .durable => s.setPhase k .over

def Conversation.create (path : Nat → Path) (s : Conversation) (k : Nat) : Conversation :=
  match path k with
  | .inline _ => { s.setTurn k { s.turns k with wrote := true } with runs := s.runs ++ [(k, .running)] }
  | .durable => { s.setTurn k { phase := .over, wrote := true } with runs := s.runs ++ [(k, .pending)] }

def Conversation.crash (path : Nat → Path) (s : Conversation) (p : Nat) : Conversation :=
  { s with
    counts := Function.update s.counts p 0
    turns := fun k =>
      if path k = .inline p ∧ (s.turns k).phase = .admitted then { s.turns k with phase := .over } else s.turns k }

inductive Act
  | guard (k : Nat)
  | write (k : Nat)
  | create (k : Nat)
  | status (k : Nat) (status : RunStatus)
  | leave (k : Nat)
  | crash (p : Nat)

def step (path : Nat → Path) (s : Conversation) : Act → Option Conversation
  | .guard k => if (s.turns k).phase = .arrived then some (s.passGuard path k) else none
  | .write k => if (s.turns k).phase = .admitted then some (s.setTurn k { s.turns k with wrote := true }) else none
  | .create k => if (s.turns k).phase = .admitted ∧ ∀ r ∈ s.runs, r.1 ≠ k then some (s.create path k) else none
  | .status k st =>
    if ∀ r ∈ s.runs, r.1 ≠ k then none
    else some { s with runs := s.runs.map (fun r => if r.1 = k then (k, st) else r) }
  | .leave k => if (s.turns k).phase = .admitted then some (s.leave path k) else none
  | .crash p => some (s.crash path p)

/-! ## what must hold, and when it does -/

def Conversation.Unfinished (s : Conversation) (k : Nat) : Prop :=
  (s.turns k).phase = .admitted ∨ ∃ st, (k, st) ∈ s.runs ∧ st.terminal = false

/-- **One turn at a time**, and a refused request has written nothing. -/
structure OneTurn (s : Conversation) : Prop where
  one : ∀ k k', s.Unfinished k → s.Unfinished k' → k = k'
  refused : ∀ k e, (s.turns k).phase = .refused e → e = turnInProgress ∧ (s.turns k).wrote = false ∧ ∀ st, (k, st) ∉ s.runs

def SecondRefused (path : Nat → Path) (ok : Conversation → Act → Prop) (s : Conversation) : Prop :=
  ∀ k s', ok s (.guard k) → step path s (.guard k) = some s' → (∃ k', k' ≠ k ∧ s.Unfinished k') →
    (s'.turns k).phase = .refused turnInProgress

def Conversation.Sees (path : Nat → Path) (s : Conversation) (k k' : Nat) : Prop :=
  match path k with
  | .inline p => path k' = .inline p ∧ (s.turns k').phase = .admitted
  | .durable => (k', .pending) ∈ s.runs ∨ (k', .running) ∈ s.runs

/-- **An admission meets no turn that its guard does not look at**, and a run that is brought back meets no other. -/
def AdmitOk (path : Nat → Path) (s : Conversation) : Act → Prop
  | .guard k => ∀ k', k' ≠ k → s.Unfinished k' → s.Sees path k k'
  | .status k st => st.terminal = false → s.Unfinished k ∨ ∀ k', k' ≠ k → ¬ s.Unfinished k'
  | _ => True

/-! ## the guards refuse what they see -/

section
variable {path : Nat → Path} {s s' : Conversation} {k k' : Nat}

@[simp] theorem setPhase_eq {phase : Phase} : s.setPhase k phase = s.setTurn k { s.turns k with phase := phase } := rfl

@[simp] theorem setTurn_counts {t : Turn} : (s.setTurn k t).counts = s.counts := rfl

@[simp] theorem setCount_turns {p n : Nat} : (s.setCount p n).turns = s.turns := rfl

@[simp] theorem setTurn_self {t : Turn} : (s.setTurn k t).turns k = t := by
  simp [Conversation.setTurn]

theorem setTurn_ne {t : Turn} (h : k' ≠ k) : (s.setTurn k t).turns k' = s.turns k' := by
  simp [Conversation.setTurn, h]

def Counted (path : Nat → Path) (s : Conversation) : Prop :=
  ∀ k p, path k = .inline p → (s.turns k).phase = .admitted → 1 ≤ s.counts p

def Clean (s : Conversation) : Prop :=
  ∀ k, ((s.turns k).wrote = true ∨ ∃ st, (k, st) ∈ s.runs) → (s.turns k).phase = .admitted ∨ (s.turns k).phase = .over

theorem inFlight_pos (h : (k, RunStatus.pending) ∈ s.runs ∨ (k, RunStatus.running) ∈ s.runs) : 0 < s.inFlight := by
  rw [Conversation.inFlight, List.countP_pos_iff]
  rcases h with h | h
  · exact ⟨_, h, rfl⟩
  · exact ⟨_, h, rfl⟩

theorem admit_seen (hc : Counted path s) (h : s.Sees path k k') :
    s.passGuard path k = s.setPhase k (.refused turnInProgress) := by
  unfold Conversation.Sees at h
  unfold Conversation.passGuard
  split at h
  · rename_i p hp
    have hcount : 1 ≤ s.counts p := hc k' p h.1 h.2
    simp only [acquire, if_pos hcount]
  · exact if_pos (inFlight_pos h)

theorem admit_cases (path : Nat → Path) (s : Conversation) (k : Nat) :
    s.passGuard path k = s.setPhase k (.refused turnInProgress) ∨
      (path k = .durable ∧ s.passGuard path k = s.setPhase k .admitted) ∨
      ∃ p, path k = .inline p ∧ s.passGuard path k = (s.setPhase k .admitted).setCount p (s.counts p + 1) := by
  unfold Conversation.passGuard
  cases hp : path k with
  | inline p =>
    by_cases hcount : 1 ≤ s.counts p
    · exact .inl (by simp only [acquire, if_pos hcount])
    · exact .inr (.inr ⟨p, rfl, by simp only [acquire, if_neg hcount]⟩)
  | durable =>
    by_cases hflight : s.inFlight > 0
    · exact .inl (if_pos hflight)
    · exact .inr (.inl ⟨rfl, if_neg hflight⟩)

/-! ## what a step leaves -/

structure GuardInv (path : Nat → Path) (s : Conversation) : Prop where
  one : ∀ k k', s.Unfinished k → s.Unfinished k' → k = k'
  counted : Counted path s
  clean : Clean s
  refused : ∀ k e, (s.turns k).phase = .refused e → e = turnInProgress

structure Others (s s' : Conversation) (k : Nat) : Prop where
  turns : ∀ j, j ≠ k → s'.turns j = s.turns j
  runs : ∀ j st, j ≠ k → ((j, st) ∈ s'.runs ↔ (j, st) ∈ s.runs)

theorem Others.unfinished (ho : Others s s' k) (h : k' ≠ k) : s'.Unfinished k' ↔ s.Unfinished k' := by
  unfold Conversation.Unfinished
  rw [ho.turns k' h]
  simp only [ho.runs k' _ h]

theorem others_setTurn (s : Conversation) (k : Nat) (t : Turn) : Others s (s.setTurn k t) k :=
  ⟨fun _ h => setTurn_ne h, fun _ _ _ => Iff.rfl⟩

theorem GuardInv.of_others (hs : GuardInv path s) (ho : Others s s' k)
    (hone : s'.Unfinished k → s.Unfinished k ∨ ∀ j, j ≠ k → ¬ s.Unfinished j)
    (hcounted : ∀ p, (∃ j, path j = .inline p ∧ (s'.turns j).phase = .admitted) → 1 ≤ s'.counts p)
    (hclean : ((s'.turns k).wrote = true ∨ ∃ st, (k, st) ∈ s'.runs) →
      (s'.turns k).phase = .admitted ∨ (s'.turns k).phase = .over)
    (hrefused : ∀ e, (s'.turns k).phase = .refused e → e = turnInProgress) : GuardInv path s' := by
  have hother : ∀ j, j ≠ k → s'.Unfinished j → s'.Unfinished k → False := by
    intro j hj hju hku
    have hju' := (ho.unfinished hj).1 hju
    rcases hone hku with hold | halone
    · exact hj (hs.one j k hju' hold)
    · exact halone j hj hju'
  refine ⟨fun j j' hju hju' => ?_, fun j p hp h => hcounted p ⟨j, hp, h⟩, fun j h => ?_, fun j e h => ?_⟩
  · by_cases hj : j = k
    · by_cases hj' : j' = k
      · rw [hj, hj']
      · exact absurd (hj ▸ hju) (fun hk => hother j' hj' hju' hk)
    · by_cases hj' : j' = k
      · exact absurd (hj' ▸ hju') (fun hk => hother j hj hju hk)
      · exact hs.one j j' ((ho.unfinished hj).1 hju) ((ho.unfinished hj').1 hju')
  · by_cases hj : j = k
    · subst hj
      exact hclean h
    · rw [ho.turns j hj] at h ⊢
      simp only [ho.runs j _ hj] at h
      exact hs.clean j h
  · by_cases hj : j = k
    · subst hj
      exact hrefused e h
    · rw [ho.turns j hj] at h
      exact hs.refused j e h

theorem GuardInv.untouched (hs : GuardInv path s) (ha : (s.turns k).phase ≠ .admitted) (ho : (s.turns k).phase ≠ .over) :
    (s.turns k).wrote = false ∧ ∀ st, (k, st) ∉ s.runs := by
  have hnot : ¬ ((s.turns k).wrote = true ∨ ∃ st, (k, st) ∈ s.runs) := by
    intro h
    rcases hs.clean k h with h | h
    · exact ha h
    · exact ho h
  exact ⟨by simpa using fun h => hnot (.inl h), fun st h => hnot (.inr ⟨st, h⟩)⟩

theorem guardInv_start : GuardInv path .start := by
  refine ⟨?_, ?_, ?_, ?_⟩
  · rintro k k' (h | ⟨st, h, -⟩)
    · cases h
    · cases h
  · intro k p _ h
    cases h
  · rintro k (h | ⟨st, h⟩)
    · cases h
    · cases h
  · intro k e h
    cases h

/-! ## one step -/

theorem guardInv_refuse (hs : GuardInv path s) (harrived : (s.turns k).phase = .arrived) :
    GuardInv path (s.setPhase k (.refused turnInProgress)) := by
  obtain ⟨hwrote, hruns⟩ := hs.untouched (k := k) (by simp [harrived]) (by simp [harrived])
  rw [setPhase_eq]
  refine hs.of_others (others_setTurn s k _) ?_ ?_ ?_ ?_
  · rintro (h | ⟨st, h, -⟩)
    · simp at h
    · exact absurd h (hruns st)
  · rintro p ⟨j, hp, h⟩
    by_cases hj : j = k
    · subst hj
      simp at h
    · rw [setTurn_ne hj] at h
      exact hs.counted j p hp h
  · rintro (h | ⟨st, h⟩)
    · simp [hwrote] at h
    · exact absurd h (hruns st)
  · intro e h
    simpa using h.symm

theorem guardInv_admit (hs : GuardInv path s) (hok : AdmitOk path s (.guard k)) (harrived : (s.turns k).phase = .arrived) :
    GuardInv path (s.passGuard path k) := by
  by_cases halone : ∀ j, j ≠ k → ¬ s.Unfinished j
  · rcases admit_cases path s k with h | ⟨hdurable, h⟩ | ⟨p, hp, h⟩
    · rw [h]
      exact guardInv_refuse hs harrived
    · rw [h, setPhase_eq]
      refine hs.of_others (others_setTurn s k _) (fun _ => .inr halone) ?_ (fun _ => .inl (by simp)) (fun e he => by simp at he)
      rintro p ⟨j, hp, hadmitted⟩
      by_cases hj : j = k
      · subst hj
        rw [hdurable] at hp
        cases hp
      · rw [setTurn_ne hj] at hadmitted
        exact hs.counted j p hp hadmitted
    · rw [h, setPhase_eq]
      refine hs.of_others ⟨fun j hj => setTurn_ne hj, fun _ _ _ => Iff.rfl⟩ (fun _ => .inr halone) ?_ (fun _ => .inl (by simp))
        (fun e he => by simp at he)
      rintro q ⟨j, hq, hadmitted⟩
      by_cases hqp : q = p
      · subst hqp
        simp [Conversation.setCount]
      · have hj : j ≠ k := by
          rintro rfl
          rw [hp] at hq
          exact hqp (Path.inline.inj hq).symm
        rw [setCount_turns, setTurn_ne hj] at hadmitted
        simpa [Conversation.setCount, hqp] using hs.counted j q hq hadmitted
  · push Not at halone
    obtain ⟨j, hj, hju⟩ := halone
    rw [admit_seen hs.counted (hok j hj hju)]
    exact guardInv_refuse hs harrived

theorem guardInv_leave (hs : GuardInv path s) (hadmitted : (s.turns k).phase = .admitted) : GuardInv path (s.leave path k) := by
  have hold : s.Unfinished k := .inl hadmitted
  have hother : ∀ j, j ≠ k → (s.turns j).phase ≠ .admitted := fun j hj h => hj (hs.one j k (.inl h) hold)
  unfold Conversation.leave
  split <;>
  · rw [setPhase_eq]
    refine hs.of_others ⟨fun j hj => setTurn_ne hj, fun _ _ _ => Iff.rfl⟩ (fun _ => .inl hold) ?_ (fun _ => .inr (by simp))
      (fun e he => by simp at he)
    rintro q ⟨j, -, h⟩
    by_cases hj : j = k
    · subst hj
      simp at h
    · exact absurd (by simpa [setTurn_ne hj] using h) (hother j hj)

theorem guardInv_create (hs : GuardInv path s) (hadmitted : (s.turns k).phase = .admitted) : GuardInv path (s.create path k) := by
  have hold : s.Unfinished k := .inl hadmitted
  have hother : ∀ j, j ≠ k → (s.turns j).phase ≠ .admitted := fun j hj h => hj (hs.one j k (.inl h) hold)
  have hrow : ∀ (t : Turn) (st₀ : RunStatus), Others s { s.setTurn k t with runs := s.runs ++ [(k, st₀)] } k :=
    fun t st₀ => ⟨fun j hj => setTurn_ne hj, fun j st hj => by simp [hj]⟩
  unfold Conversation.create
  split
  · rename_i p hp
    refine hs.of_others (hrow _ _) (fun _ => .inl hold) ?_ (fun _ => .inl (by simpa using hadmitted)) (fun e he => ?_)
    · rintro q ⟨j, hq, h⟩
      by_cases hj : j = k
      · subst hj
        exact hs.counted j q hq hadmitted
      · exact absurd (by simpa [setTurn_ne hj] using h) (hother j hj)
    · simp [hadmitted] at he
  · refine hs.of_others (hrow _ _) (fun _ => .inl hold) ?_ (fun _ => .inr (by simp)) (fun e he => by simp at he)
    rintro q ⟨j, -, h⟩
    by_cases hj : j = k
    · subst hj
      simp at h
    · exact absurd (by simpa [setTurn_ne hj] using h) (hother j hj)

theorem guardInv_status {st : RunStatus} (hs : GuardInv path s) (hok : AdmitOk path s (.status k st)) :
    GuardInv path { s with runs := s.runs.map (fun r => if r.1 = k then (k, st) else r) } := by
  have hrow : ∀ {st'}, (k, st') ∈ s.runs.map (fun r => if r.1 = k then (k, st) else r) → st' = st ∧ ∃ st₀, (k, st₀) ∈ s.runs := by
    intro st' h
    obtain ⟨⟨j, st₀⟩, hr, heq⟩ := List.mem_map.1 h
    by_cases hj : j = k
    · subst hj
      rw [if_pos rfl] at heq
      exact ⟨(Prod.mk.inj heq).2.symm, st₀, hr⟩
    · rw [if_neg hj] at heq
      exact absurd (Prod.mk.inj heq).1 hj
  refine hs.of_others ⟨fun _ _ => rfl, fun j st' hj => ?_⟩ (fun hu => ?_) ?_ (fun h => ?_) (hs.refused k)
  · constructor
    · intro h
      obtain ⟨⟨i, st₀⟩, hr, heq⟩ := List.mem_map.1 h
      by_cases hi : i = k
      · rw [if_pos hi] at heq
        exact absurd (Prod.mk.inj heq).1.symm hj
      · rw [if_neg hi] at heq
        exact heq ▸ hr
    · intro h
      exact List.mem_map.2 ⟨(j, st'), h, if_neg hj⟩
  · rcases hu with h | ⟨st', h, hopen⟩
    · exact .inl (.inl h)
    · obtain ⟨rfl, -⟩ := hrow h
      exact hok hopen
  · rintro p ⟨j, hp, h⟩
    exact hs.counted j p hp h
  · rcases h with h | ⟨st', h⟩
    · exact hs.clean k (.inl h)
    · exact hs.clean k (.inr (hrow h).2)

theorem crash_turn (path : Nat → Path) (s : Conversation) (p j : Nat) :
    (s.crash path p).turns j = s.turns j ∧ ¬ (path j = .inline p ∧ (s.turns j).phase = .admitted) ∨
      path j = .inline p ∧ (s.turns j).phase = .admitted ∧ (s.crash path p).turns j = { s.turns j with phase := .over } := by
  by_cases h : path j = .inline p ∧ (s.turns j).phase = .admitted
  · exact .inr ⟨h.1, h.2, if_pos h⟩
  · exact .inl ⟨if_neg h, h⟩

theorem guardInv_crash (hs : GuardInv path s) (p : Nat) : GuardInv path (s.crash path p) := by
  have hunfinished : ∀ j, (s.crash path p).Unfinished j → s.Unfinished j := by
    rintro j (h | h)
    · rcases crash_turn path s p j with ⟨heq, -⟩ | ⟨-, hadmitted, -⟩
      · exact .inl (heq ▸ h)
      · exact .inl hadmitted
    · exact .inr h
  refine ⟨fun j j' h h' => hs.one j j' (hunfinished j h) (hunfinished j' h'), fun j q hq h => ?_, fun j h => ?_, fun j e h => ?_⟩
  · rcases crash_turn path s p j with ⟨heq, hnot⟩ | ⟨-, -, heq⟩
    · rw [heq] at h
      have hqp : q ≠ p := by
        rintro rfl
        exact hnot ⟨hq, h⟩
      simpa [Conversation.crash, hqp] using hs.counted j q hq h
    · rw [heq] at h
      cases h
  · rcases crash_turn path s p j with ⟨heq, -⟩ | ⟨-, -, heq⟩
    · rw [heq] at h ⊢
      exact hs.clean j h
    · rw [heq]
      exact .inr rfl
  · rcases crash_turn path s p j with ⟨heq, -⟩ | ⟨-, -, heq⟩
    · rw [heq] at h
      exact hs.refused j e h
    · rw [heq] at h
      cases h

theorem guardInv_step {act : Act} (hs : GuardInv path s) (hok : AdmitOk path s act) (h : step path s act = some s') :
    GuardInv path s' := by
  cases act with
  | guard k =>
    obtain ⟨harrived, ⟨⟩⟩ := Option.ite_none_right_eq_some.1 h
    exact guardInv_admit hs hok harrived
  | write k =>
    obtain ⟨hadmitted, ⟨⟩⟩ := Option.ite_none_right_eq_some.1 h
    refine hs.of_others (others_setTurn s k _) (fun _ => .inl (.inl hadmitted)) ?_ (fun _ => .inl (by simpa using hadmitted))
      (fun e he => by simp [hadmitted] at he)
    rintro p ⟨j, hp, hj⟩
    refine hs.counted j p hp ?_
    by_cases hjk : j = k
    · rw [hjk]
      exact hadmitted
    · rwa [setTurn_ne hjk] at hj
  | create k =>
    obtain ⟨⟨hadmitted, -⟩, ⟨⟩⟩ := Option.ite_none_right_eq_some.1 h
    exact guardInv_create hs hadmitted
  | status k st =>
    obtain ⟨-, ⟨⟩⟩ := Option.ite_none_left_eq_some.1 h
    exact guardInv_status hs hok
  | leave k =>
    obtain ⟨hadmitted, ⟨⟩⟩ := Option.ite_none_right_eq_some.1 h
    exact guardInv_leave hs hadmitted
  | crash p =>
    cases h
    exact guardInv_crash hs p

theorem oneTurn_of_inv (hs : GuardInv path s) : OneTurn s := by
  refine ⟨hs.one, fun k e h => ⟨hs.refused k e h, ?_⟩⟩
  exact hs.untouched (by simp [h]) (by simp [h])

theorem secondRefused_of_inv (hs : GuardInv path s) : SecondRefused path (AdmitOk path) s := by
  rintro k s' hok h ⟨k', hk', hopen⟩
  obtain ⟨-, ⟨⟩⟩ := Option.ite_none_right_eq_some.1 h
  rw [admit_seen hs.counted (hok k' hk' hopen)]
  simp

end

/-- **One turn of a conversation at a time**, in every run whose admissions meet no turn that their guard does not look
at. -/
theorem one_turn (path : Nat → Path) (s : Conversation) (h : Runs (step path) (AdmitOk path) .start s) :
    OneTurn s ∧ SecondRefused path (AdmitOk path) s := by
  have hs : GuardInv path s := h.invariant guardInv_start (fun _ _ _ hs hok hstep => guardInv_step hs hok hstep)
  exact ⟨oneTurn_of_inv hs, secondRefused_of_inv hs⟩

def twoSubmissions : List Act := [.guard 0, .create 0, .guard 1]

theorem one_turn_two_submissions :
    OneTurn (play (step fun _ => .durable) .start twoSubmissions) ∧
      SecondRefused (fun _ => .durable) (AdmitOk fun _ => .durable) (play (step fun _ => .durable) .start twoSubmissions) := by
  refine one_turn _ _ (.next (.guard 1) (.next (.create 0) (.next (.guard 0) .refl ?_ rfl) trivial rfl) ?_ rfl)
  · rintro k' - (h | ⟨st, h, -⟩)
    · cases h
    · cases h
  · rintro k' - (h | ⟨st, h, -⟩)
    · cases k' with
      | zero => cases h
      | succ k' => cases h
    · obtain ⟨rfl, rfl⟩ := Prod.mk.inj (List.mem_singleton.1 h)
      exact .inl h

/-- **A run that waits for an approval** is no turn in progress to the count query: a second submission gets past it. -/
theorem approval_admits_second :
    ¬ ∀ (path : Nat → Path) (s : Conversation), Reaches (step path) .start s →
      OneTurn s ∧ SecondRefused path (fun _ _ => True) s := by
  intro h
  have hone := (h (fun _ => .durable)
    (play (step fun _ => .durable) .start [.guard 0, .create 0, .status 0 .running, .status 0 .waitingApproval, .guard 1])
    (reaches_play (by decide))).1.one 0 1
  have hsame : (0 : Nat) = 1 := hone (.inr ⟨.waitingApproval, by decide, rfl⟩) (.inl (by decide))
  cases hsame

end Guard
end MyGpt
