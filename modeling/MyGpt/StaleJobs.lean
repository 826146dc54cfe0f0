import MyGpt.Lib.Raising
import MyGpt.Lib.Trace
import Mathlib.Data.List.Basic
/-!
# StaleJobs — the sweep over abandoned attachments in one process

`requeue_stale_jobs_once` selects and resets the rows in one step and schedules their parses in another; the parses are tasks
that begin, end and are cancelled in between.  `add_done_callback` takes one positional argument, the callback: `_spawn`
raises after it has created its task, so the loop stops at its first attachment, and no task ever leaves the table.
-/
namespace MyGpt
namespace Stale

inductive Status
  | pending | parsing | ready | failed
  deriving DecidableEq

/-- A row of `chat_attachments`. -/
structure Attachment where
  id : Nat
  createdAt : Int
  parseStatus : Status
  deriving DecidableEq

inductive Phase
  | created
  | parsing
  | cancelled
  | done
  deriving DecidableEq

/-- A task of `_run`; its number is its place. -/
structure Task where
  attachment : Nat
  phase : Phase
  deriving DecidableEq

structure Tick where
  selected : List Nat
  scheduled : List Nat
  deriving DecidableEq

structure State where
  rows : List Attachment
  tasks : List Task
  /-- `_tasks`. -/
  table : List (Nat × Nat)
  callbacks : List Nat
  selected : Option (List Nat)
  ticks : List Tick
  deriving DecidableEq

def State.start (rows : List Attachment) : State := ⟨rows, [], [], [], none, []⟩

/-- `_STALE_AFTER`, in seconds. -/
def staleAfter : Int := 600

def maxRequeuePerSweep : Nat := 50

def Attachment.stale (now : Int) (row : Attachment) : Bool :=
  (row.parseStatus = .pending || row.parseStatus = .parsing) && row.createdAt < now - staleAfter

def Task.live (task : Task) : Bool := task.phase ≠ .done

/-- `task.cancel()`, unless the task is done. -/
def Task.cancel (task : Task) : Task := if task.live then { task with phase := .cancelled } else task

/-- The `TypeError` of a call with too many arguments. -/
inductive PyError
  | typeError
  deriving DecidableEq

/-- What is passed to `add_done_callback`. -/
inductive Argument
  | tasksPop
  | name (attachment : Nat)

def addDoneCallback (task : Nat) : List Argument → Raising PyError State Unit
  | [_] => modify (fun s => { s with callbacks := task :: s.callbacks })
  | _ => throw .typeError

/-- The task that `_tasks` has for a name is cancelled. -/
def State.cancelExisting (s : State) (attachment : Nat) : State :=
  match s.table.lookup attachment with
  | some task => { s with tasks := s.tasks.modify task Task.cancel }
  | none => s

/-- `create_task`, and its entry in `_tasks`. -/
def State.create (s : State) (attachment : Nat) : State :=
  { s with
    tasks := s.tasks ++ [⟨attachment, .created⟩]
    table := (attachment, s.tasks.length) :: s.table.filter (fun entry => entry.1 ≠ attachment) }

def spawn (attachment : Nat) : Raising PyError State Unit := do
  modify (fun s => s.cancelExisting attachment)
  let s ← get
  modify (fun s => s.create attachment)
  addDoneCallback s.tasks.length [.tasksPop, .name attachment]

/-- The loop of `requeue_stale_jobs_once`. -/
def spawnAll : List Nat → Raising PyError State Unit
  | [] => pure ()
  | attachment :: attachments => do
    spawn attachment
    spawnAll attachments

def State.schedule (s : State) (selected : List Nat) : State :=
  let s' := (Raising.runFrom (spawnAll selected) { s with selected := none }).2
  { s' with ticks := s.ticks ++ [⟨selected, (s'.tasks.drop s.tasks.length).map (·.attachment)⟩] }

def State.setStatus (s : State) (attachment : Nat) (status : Status) : State :=
  { s with rows := s.rows.map (fun row => if row.id = attachment then { row with parseStatus := status } else row) }

def State.setPhase (s : State) (task : Nat) (phase : Phase) : State :=
  { s with tasks := s.tasks.modify task (fun t => { t with phase := phase }) }

inductive Act
  /-- `_stale_attachments`; the query returns these rows. -/
  | selects (now : Int) (rows : List Attachment)
  | schedules
  | begins (task : Nat)
  | ends (task : Nat) (status : Status)
  | delivers (task : Nat)
  | dies

def step (s : State) : Act → Option State
  | .selects now rows =>
    if s.selected = none ∧ rows.Nodup ∧ rows.all (fun row => s.rows.contains row && row.stale now) = true ∧
        rows.length = min maxRequeuePerSweep (s.rows.countP (·.stale now)) then
      some { s with
        rows := s.rows.map (fun row =>
          if row ∈ rows ∧ row.parseStatus = .parsing then { row with parseStatus := .pending } else row)
        selected := some (rows.map (·.id)) }
    else none
  | .schedules =>
    match s.selected with
    | some selected => some (s.schedule selected)
    | none => none
  | .begins task =>
    match s.tasks[task]? with
    | some ⟨attachment, .created⟩ => some ((s.setPhase task .parsing).setStatus attachment .parsing)
    | _ => none
  | .ends task status =>
    match s.tasks[task]? with
    | some ⟨attachment, .parsing⟩ => some ((s.setPhase task .done).setStatus attachment status)
    | _ => none
  | .delivers task =>
    match s.tasks[task]? with
    | some ⟨_, .cancelled⟩ => some (s.setPhase task .done)
    | _ => none
  | .dies => some { s with tasks := [], table := [], callbacks := [], selected := none }

/-! ## what is asked for -/

def State.Parses (s : State) (attachment task : Nat) : Prop :=
  ∃ t, s.tasks[task]? = some t ∧ t.attachment = attachment ∧ t.live = true

/-- **The contract of the sweep.** -/
structure Sound (s : State) : Prop where
  scheduled : ∀ tick ∈ s.ticks, tick.scheduled = tick.selected
  one : ∀ attachment i j, s.Parses attachment i → s.Parses attachment j → i = j
  table : ∀ attachment task, (attachment, task) ∈ s.table ↔ s.Parses attachment task

/-- **The condition**: a tick schedules at most one attachment and none whose parse is live, and no parse ends. -/
def StepOk (s : State) : Act → Prop
  | .schedules => ∀ selected, s.selected = some selected →
      selected.length ≤ 1 ∧ ∀ attachment ∈ selected, ∀ task, ¬ s.Parses attachment task
  | .ends _ _ => False
  | _ => True

/-! ## `_spawn` -/

/-- What `_spawn` leaves. -/
def State.spawned (s : State) (attachment : Nat) : State := (s.cancelExisting attachment).create attachment

theorem runFrom_spawn (attachment : Nat) (s : State) :
    Raising.runFrom (spawn attachment) s = (.error .typeError, s.spawned attachment) := by
  simp [spawn, Raising.runFrom_bind, addDoneCallback, State.spawned]

theorem runFrom_spawnAll (attachments : List Nat) (s : State) : (Raising.runFrom (spawnAll attachments) s).2 =
    match attachments with
    | [] => s
    | attachment :: _ => s.spawned attachment := by
  cases attachments with
  | nil => rfl
  | cons attachment attachments => simp [spawnAll, Raising.runFrom_bind, runFrom_spawn]

section steps

variable {s : State}

theorem schedule_nil (s : State) : s.schedule [] = { s with selected := none, ticks := s.ticks ++ [⟨[], []⟩] } := by
  simp [State.schedule, runFrom_spawnAll]

theorem length_cancelExisting (s : State) (attachment : Nat) : (s.cancelExisting attachment).tasks.length = s.tasks.length := by
  unfold State.cancelExisting
  split
  · simp
  · rfl

theorem schedule_cons (s : State) (attachment : Nat) (attachments : List Nat) :
    s.schedule (attachment :: attachments) = { (s.spawned attachment) with
      selected := none
      ticks := s.ticks ++ [⟨attachment :: attachments, [attachment]⟩] } := by
  have hspawned : State.spawned { s with selected := none } attachment = { (s.spawned attachment) with selected := none } := by
    unfold State.spawned State.cancelExisting
    cases s.table.lookup attachment <;> rfl
  have hcreated : ((s.spawned attachment).tasks.drop s.tasks.length).map (·.attachment) = [attachment] := by
    rw [State.spawned, State.create, ← length_cancelExisting s attachment, List.drop_left]
    rfl
  simp only [State.schedule, runFrom_spawnAll, hspawned, hcreated]

/-! ## the steps -/

theorem parses_setPhase {task : Nat} {t : Task} {phase : Phase} (ht : s.tasks[task]? = some t) (hlive : t.live = true)
    (hphase : phase ≠ .done) (attachment task' : Nat) : (s.setPhase task phase).Parses attachment task' ↔ s.Parses attachment task' := by
  unfold State.Parses State.setPhase
  simp only [List.getElem?_modify]
  by_cases hsame : task = task'
  · subst hsame
    simp [ht, Task.live, hphase] at hlive ⊢
    intro _
    exact hlive
  · simp [hsame]

theorem Sound.same (h : Sound s) {s' : State} (htasks : s'.tasks = s.tasks) (htable : s'.table = s.table)
    (hticks : s'.ticks = s.ticks) : Sound s' := by
  have hparses : ∀ attachment task, s'.Parses attachment task ↔ s.Parses attachment task := by
    intro attachment task
    unfold State.Parses
    rw [htasks]
  refine ⟨?_, ?_, ?_⟩
  · rw [hticks]
    exact h.scheduled
  · intro attachment i j hi hj
    exact h.one attachment i j ((hparses attachment i).1 hi) ((hparses attachment j).1 hj)
  · intro attachment task
    rw [htable, hparses]
    exact h.table attachment task

theorem Sound.begins (h : Sound s) {s' : State} {task : Nat} (hstep : step s (.begins task) = some s') : Sound s' := by
  simp only [step] at hstep
  split at hstep
  · rename_i attachment ht
    cases hstep
    have hparses : ∀ a i, (s.setPhase task .parsing).Parses a i ↔ s.Parses a i := parses_setPhase ht rfl (by simp)
    have hmoved : Sound (s.setPhase task .parsing) := by
      refine ⟨h.scheduled, ?_, ?_⟩
      · intro a i j hi hj
        exact h.one a i j ((hparses a i).1 hi) ((hparses a j).1 hj)
      · intro a i
        rw [hparses]
        exact h.table a i
    exact hmoved.same rfl rfl rfl
  · cases hstep

theorem cancelExisting_of_free {attachment : Nat} (h : Sound s) (hnone : ∀ task, ¬ s.Parses attachment task) :
    s.cancelExisting attachment = s := by
  unfold State.cancelExisting
  split
  · rename_i task hlookup
    obtain ⟨before, after, hsplit, -⟩ := List.lookup_eq_some_iff.1 hlookup
    have hentry : (attachment, task) ∈ s.table := by simp [hsplit]
    exact absurd ((h.table attachment task).1 hentry) (hnone task)
  · rfl

theorem Sound.create (h : Sound s) {attachment : Nat} (hnone : ∀ task, ¬ s.Parses attachment task) :
    Sound (s.create attachment) := by
  have hparses : ∀ a task, (s.create attachment).Parses a task ↔ s.Parses a task ∨ a = attachment ∧ task = s.tasks.length := by
    intro a task
    unfold State.Parses State.create
    rcases Nat.lt_trichotomy task s.tasks.length with hlt | heq | hgt
    · rw [List.getElem?_append_left hlt]
      simp
      omega
    · subst heq
      simp [Task.live]
      exact eq_comm
    · rw [List.getElem?_eq_none (by simp; omega), List.getElem?_eq_none (by omega)]
      simp
      omega
  refine ⟨h.scheduled, ?_, ?_⟩
  · intro a i j hi hj
    rcases (hparses a i).1 hi with hold | ⟨rfl, rfl⟩
    · rcases (hparses a j).1 hj with hother | ⟨rfl, rfl⟩
      · exact h.one a i j hold hother
      · exact absurd hold (hnone i)
    · rcases (hparses a j).1 hj with hother | ⟨-, rfl⟩
      · exact absurd hother (hnone j)
      · rfl
  · intro a task
    rw [hparses, ← h.table]
    simp only [State.create, List.mem_cons, Prod.mk.injEq, List.mem_filter, ne_eq, decide_not, Bool.not_eq_true',
      decide_eq_false_iff_not]
    constructor
    · rintro (hnew | ⟨hold, -⟩)
      · exact .inr hnew
      · exact .inl hold
    · rintro (hold | hnew)
      · refine .inr ⟨hold, ?_⟩
        rintro rfl
        exact hnone task ((h.table a task).1 hold)
      · exact .inl hnew

theorem Sound.schedules (h : Sound s) {s' : State} (hok : StepOk s .schedules) (hstep : step s .schedules = some s') :
    Sound s' := by
  simp only [step] at hstep
  split at hstep
  · rename_i selected hselected
    cases hstep
    obtain ⟨hshort, hnone⟩ := hok selected hselected
    cases selected with
    | nil =>
      rw [schedule_nil]
      refine ⟨?_, h.one, h.table⟩
      intro tick htick
      rcases List.mem_append.1 htick with htick | htick
      · exact h.scheduled tick htick
      · rw [List.mem_singleton.1 htick]
    | cons attachment attachments =>
      obtain rfl : attachments = [] := by
        simp at hshort
        exact hshort
      have hfree := hnone attachment List.mem_cons_self
      rw [schedule_cons, State.spawned, cancelExisting_of_free h hfree]
      have hcreated := h.create hfree
      refine ⟨?_, hcreated.one, hcreated.table⟩
      intro tick htick
      rcases List.mem_append.1 htick with htick | htick
      · exact h.scheduled tick htick
      · rw [List.mem_singleton.1 htick]
  · cases hstep

/-- **The invariant**: the contract, and no task is cancelled. -/
structure Inv (s : State) : Prop where
  sound : Sound s
  uncancelled : ∀ t ∈ s.tasks, t.phase ≠ .cancelled

theorem Inv.step (h : Inv s) (act : Act) (hok : StepOk s act) {s' : State} (hstep : step s act = some s') : Inv s' := by
  cases act with
  | selects now rows =>
    simp only [Stale.step] at hstep
    split at hstep
    · cases hstep
      exact ⟨h.sound.same rfl rfl rfl, h.uncancelled⟩
    · cases hstep
  | schedules =>
    refine ⟨h.sound.schedules hok hstep, ?_⟩
    simp only [Stale.step] at hstep
    split at hstep
    · rename_i selected hselected
      cases hstep
      obtain ⟨-, hnone⟩ := hok selected hselected
      cases selected with
      | nil =>
        rw [schedule_nil]
        exact h.uncancelled
      | cons attachment attachments =>
        rw [schedule_cons, State.spawned, cancelExisting_of_free h.sound (hnone attachment List.mem_cons_self)]
        intro t ht
        rcases List.mem_append.1 ht with ht | ht
        · exact h.uncancelled t ht
        · rw [List.mem_singleton.1 ht]
          simp
    · cases hstep
  | begins task =>
    refine ⟨h.sound.begins hstep, ?_⟩
    simp only [Stale.step] at hstep
    split at hstep
    · cases hstep
      intro t ht
      obtain ⟨i, hi⟩ := List.mem_iff_getElem?.1 ht
      simp only [State.setStatus, State.setPhase, List.getElem?_modify] at hi
      obtain ⟨old, hold, hphase⟩ := Option.map_eq_some_iff.1 hi
      by_cases hsame : task = i
      · simp [hsame] at hphase
        rw [← hphase]
        simp
      · simp [hsame] at hphase
        rw [← hphase]
        exact h.uncancelled old (List.mem_of_getElem? hold)
    · cases hstep
  | ends task status => exact hok.elim
  | delivers task =>
    simp only [Stale.step] at hstep
    split at hstep
    · rename_i attachment ht
      exact absurd rfl (h.uncancelled _ (List.mem_of_getElem? ht))
    · cases hstep
  | dies =>
    cases hstep
    refine ⟨⟨h.sound.scheduled, ?_, ?_⟩, ?_⟩
    · rintro attachment i j ⟨t, ht, -⟩
      simp at ht
    · intro attachment task
      simp [State.Parses]
    · intro t ht
      cases ht

/-! ## the other steps -/

theorem parses_replaced {attachment task : Nat} (h : s.Parses attachment task) : (s.spawned attachment).Parses attachment task := by
  obtain ⟨t, ht, hattachment, hlive⟩ := h
  have hcancel : t.cancel = { t with phase := .cancelled } := by
    unfold Task.cancel
    rw [if_pos hlive]
  have hcancelled : ∃ t', (s.cancelExisting attachment).tasks[task]? = some t' ∧ t'.attachment = attachment ∧ t'.live = true := by
    unfold State.cancelExisting
    split
    · rename_i other hlookup
      rw [List.getElem?_modify, ht]
      by_cases hsame : other = task
      · exact ⟨t.cancel, by simp [hsame], by rw [hcancel]; exact hattachment, by rw [hcancel]; rfl⟩
      · exact ⟨t, by simp [hsame], hattachment, hlive⟩
    · exact ⟨t, ht, hattachment, hlive⟩
  obtain ⟨t', ht', hrest⟩ := hcancelled
  refine ⟨t', ?_, hrest⟩
  have hlt := (List.getElem?_eq_some_iff.1 ht').1
  rw [State.spawned, State.create]
  exact (List.getElem?_append_left hlt).trans ht'

theorem Sound.broken (h : Sound s) (act : Act) (hbad : ¬ StepOk s act) {s' : State} (hstep : Stale.step s act = some s') :
    ¬ Sound s' := by
  intro hsound
  cases act with
  | selects | begins | delivers | dies => exact hbad trivial
  | schedules =>
    simp only [Stale.step] at hstep
    split at hstep
    · rename_i selected hselected
      cases hstep
      refine hbad ?_
      intro selected' hsame
      cases hselected.symm.trans hsame
      cases selected with
      | nil => exact ⟨Nat.zero_le _, fun a ha => nomatch ha⟩
      | cons attachment attachments =>
        rw [schedule_cons] at hsound
        have htick := hsound.scheduled ⟨attachment :: attachments, [attachment]⟩ (by simp)
        obtain rfl : attachments = [] := (List.cons.inj htick).2.symm
        refine ⟨Nat.le_refl _, ?_⟩
        intro a ha task hparses
        obtain rfl : a = attachment := by simpa using ha
        -- the new task is behind all old ones
        have hnew : (s.spawned a).Parses a s.tasks.length := by
          refine ⟨⟨a, .created⟩, ?_, rfl, rfl⟩
          rw [State.spawned, State.create, ← length_cancelExisting s a]
          simp
        have hequal := hsound.one a task s.tasks.length (parses_replaced hparses) hnew
        obtain ⟨t, ht, -⟩ := hparses
        have hlt := (List.getElem?_eq_some_iff.1 ht).1
        omega
    · cases hstep
  | ends task status =>
    simp only [Stale.step] at hstep
    split at hstep
    · rename_i attachment ht
      cases hstep
      -- nobody takes the entry out of the table
      have hentry := (h.table attachment task).2 ⟨_, ht, rfl, rfl⟩
      obtain ⟨t, ht', -, hlive⟩ := (hsound.table attachment task).1 hentry
      simp only [State.setStatus, State.setPhase, List.getElem?_modify, ht] at ht'
      simp at ht'
      rw [← ht'] at hlive
      cases hlive
    · cases hstep

end steps

theorem Inv.start (rows : List Attachment) : Inv (State.start rows) := by
  refine ⟨⟨?_, ?_, ?_⟩, ?_⟩
  all_goals simp [State.start, State.Parses]

/-- **Abandoned attachments are all re-parsed** in every run whose steps meet the condition, and the first step that does not
meet it breaks the contract. -/
theorem recovery_iff (rows : List Attachment) {s : State} (h : Trace.Runs step StepOk (State.start rows) s) :
    Sound s ∧ ∀ act s', step s act = some s' → (Sound s' ↔ StepOk s act) := by
  have hinv : Inv s := h.invariant (Inv.start rows) (fun s act s' hs hok hstep => hs.step act hok hstep)
  refine ⟨hinv.sound, ?_⟩
  intro act s' hstep
  constructor
  · intro hsound
    by_contra hbad
    exact hinv.sound.broken act hbad hstep hsound
  · intro hok
    exact (hinv.step act hok hstep).sound

def abandoned : List Attachment := [⟨0, 0, .parsing⟩, ⟨1, 900, .pending⟩]

def firstTick : List Act := [.selects 1000 [⟨0, 0, .parsing⟩], .schedules, .begins 0]

theorem recovery_iff_firstTick : Sound (Trace.play step (State.start abandoned) firstTick) := by
  let at_ (n : Nat) : State := Trace.play step (State.start abandoned) (firstTick.take n)
  have hselected : Trace.Runs step StepOk (State.start abandoned) (at_ 1) :=
    Trace.Runs.refl.next (Act.selects 1000 [⟨0, 0, .parsing⟩]) trivial rfl
  have hscheduled : Trace.Runs step StepOk (State.start abandoned) (at_ 2) := by
    refine hselected.next Act.schedules ?_ rfl
    intro selected hsame
    obtain rfl : [0] = selected := Option.some.inj hsame
    refine ⟨Nat.le_refl _, ?_⟩
    rintro attachment - task ⟨t, ht, -⟩
    cases ht
  have hbegun : Trace.Runs step StepOk (State.start abandoned) (at_ 3) := hscheduled.next (Act.begins 0) trivial rfl
  exact (recovery_iff abandoned hbegun).1

/-- **A tick that selects two attachments schedules one of them.** -/
theorem second_left : ¬ ∀ rows s, Trace.Reaches step (State.start rows) s → Sound s := by
  intro hall
  let acts : List Act := [.selects 2000 abandoned, .schedules]
  have hreaches : Trace.Reaches step (State.start abandoned) (Trace.play step (State.start abandoned) acts) :=
    Trace.reaches_play (by decide)
  have htick := (hall _ _ hreaches).scheduled ⟨[0, 1], [0]⟩ (by decide)
  cases htick

end Stale
end MyGpt
