import MyGpt.Lib.Trace
import Mathlib.Data.List.Basic
import Mathlib.Data.List.Nodup
import Mathlib.Logic.Function.Basic
/-!
# InMemoryQueue — the run queue of a single process

`InMemoryQueue` of `queue.py`.  Each section under the lock is one step; between the two sections of an `enqueue` the leases
are read, and any other call may run.  What has entered is what has been delivered and then what is pending, in that order,
and a run stays in one of the two places until it is acknowledged (`in_memory_queue`).
-/
namespace MyGpt
namespace InMemoryQueue

open Trace (Reaches exec)

variable {RunId Owner : Type} [DecidableEq RunId] [DecidableEq Owner]

structure Queue (RunId Owner : Type) where
  pending : List RunId := []
  inFlight : RunId → Option Owner := fun _ => none

namespace Queue

variable (q : Queue RunId Owner)

def has (run : RunId) : Prop := run ∈ q.pending ∨ (q.inFlight run).isSome

instance decidableHas (run : RunId) : Decidable (q.has run) := inferInstanceAs (Decidable (_ ∨ _))

def pendingIds : List RunId := q.pending

/-- The second section of `enqueue`. -/
def insert (run : RunId) : Queue RunId Owner := if q.has run then q else { q with pending := q.pending ++ [run] }

def dequeue (owner : Owner) : Queue RunId Owner × Option RunId :=
  match q.pending with
  | [] => (q, none)
  | run :: rest => ({ pending := rest, inFlight := Function.update q.inFlight run (some owner) }, some run)

def ack (run : RunId) (owner : Owner) : Queue RunId Owner × Bool :=
  if q.inFlight run = some owner then ({ q with inFlight := Function.update q.inFlight run none }, true) else (q, false)

def requeue (run : RunId) : Queue RunId Owner :=
  { pending := if run ∈ q.pending then q.pending else q.pending ++ [run]
    inFlight := Function.update q.inFlight run none }

/-- `reclaim_stale`: nothing to reclaim. -/
def reclaimStale (_owner : Owner) (_limit : Int) : Queue RunId Owner × Nat := (q, 0)

end Queue

/-- The queue, the calls of `enqueue` that read the leases, and what has happened so far. -/
structure World (RunId Owner : Type) where
  queue : Queue RunId Owner := {}
  checking : List RunId := []
  /-- the runs put into `_pending`, in order -/
  entered : List RunId := []
  delivered : List (RunId × Owner) := []
  acks : List RunId := []
  promises : List (RunId × Nat) := []

inductive Act (RunId Owner : Type)
  /-- the first section of `enqueue` -/
  | enqueue (run : RunId)
  | refused (call : Nat)
  | insert (call : Nat)
  | dequeue (owner : Owner)
  | ack (run : RunId) (owner : Owner)
  | requeue (run : RunId)
  | reclaimStale (owner : Owner) (limit : Int)
  deriving DecidableEq

namespace World

variable (w : World RunId Owner)

def promise (run : RunId) : World RunId Owner := { w with promises := w.promises ++ [(run, w.acks.length)] }

def deliveredTo (run : RunId) : Option Owner := ((w.delivered.filter (fun d => d.1 = run)).getLast?).map (·.2)

def step : Act RunId Owner → Option (World RunId Owner)
  | .enqueue run =>
    if w.queue.has run then some (w.promise run) else some { w with checking := w.checking ++ [run] }
  | .refused call => if call < w.checking.length then some { w with checking := w.checking.eraseIdx call } else none
  | .insert call =>
    match w.checking[call]? with
    | none => none
    | some run =>
      some ({ w with
        queue := w.queue.insert run
        checking := w.checking.eraseIdx call
        entered := if w.queue.has run then w.entered else w.entered ++ [run] }.promise run)
  | .dequeue owner =>
    some { w with
      queue := (w.queue.dequeue owner).1
      delivered := w.delivered ++ ((w.queue.dequeue owner).2.map (fun run => (run, owner))).toList }
  | .ack run owner =>
    some { w with
      queue := (w.queue.ack run owner).1
      acks := if (w.queue.ack run owner).2 then w.acks ++ [run] else w.acks }
  | .requeue run =>
    some ({ w with
      queue := w.queue.requeue run
      entered := if run ∈ w.queue.pending then w.entered else w.entered ++ [run] }.promise run)
  | .reclaimStale owner limit => some { w with queue := (w.queue.reclaimStale owner limit).1 }

/-! ## the contract -/

/-- An `enqueue` of a run that is there leaves the queue alone, in its first section and in its second. -/
structure Idempotent (run : RunId) : Prop where
  first : ∀ w', w.step (.enqueue run) = some w' → w'.queue = w.queue ∧ w'.checking = w.checking ∧ w'.entered = w.entered
  second : ∀ call w', w.checking[call]? = some run → w.step (.insert call) = some w' →
    w'.queue = w.queue ∧ w'.entered = w.entered

structure Contract : Prop where
  once : w.queue.pending.Nodup
  exclusive : ∀ run, run ∈ w.queue.pending → w.queue.inFlight run = none
  idempotent : ∀ run, w.queue.has run → w.Idempotent run
  fifo : w.entered = w.delivered.map (·.1) ++ w.queue.pending
  owned : ∀ run owner, (w.queue.ack run owner).2 = true → w.deliveredTo run = some owner
  refused : ∀ run owner, (w.queue.ack run owner).2 = false → (w.queue.ack run owner).1 = w.queue
  kept : ∀ p ∈ w.promises, w.queue.has p.1 ∨ p.1 ∈ w.acks.drop p.2

/-! ## the invariant -/

structure Inv : Prop where
  once : w.queue.pending.Nodup
  exclusive : ∀ run, run ∈ w.queue.pending → w.queue.inFlight run = none
  fifo : w.entered = w.delivered.map (·.1) ++ w.queue.pending
  owner : ∀ run owner, w.queue.inFlight run = some owner → w.deliveredTo run = some owner
  kept : ∀ p ∈ w.promises, w.queue.has p.1 ∨ p.1 ∈ w.acks.drop p.2
  stamped : ∀ p ∈ w.promises, p.2 ≤ w.acks.length

end World

/-! ## the queue -/

section
variable {q : Queue RunId Owner} {run r : RunId} {owner : Owner}

omit [DecidableEq RunId] [DecidableEq Owner] in
theorem not_has : ¬ q.has run ↔ run ∉ q.pending ∧ q.inFlight run = none := by
  unfold Queue.has
  rw [not_or, Option.not_isSome_iff_eq_none]

omit [DecidableEq Owner] in
theorem has_insert : (q.insert run).has r ↔ q.has r ∨ r = run := by
  unfold Queue.insert
  split
  · rename_i hin
    exact ⟨.inl, fun h => h.elim id (fun he => he ▸ hin)⟩
  · unfold Queue.has
    rw [List.mem_append, List.mem_singleton]
    tauto

omit [DecidableEq Owner] in
theorem has_requeue : (q.requeue run).has r ↔ q.has r ∨ r = run := by
  unfold Queue.requeue Queue.has
  dsimp only
  by_cases hr : r = run
  · subst hr
    refine ⟨fun _ => .inr rfl, fun _ => .inl ?_⟩
    split
    · assumption
    · exact List.mem_append_right _ (List.mem_singleton_self r)
  · rw [Function.update_of_ne hr]
    split
    · exact ⟨.inl, fun h => h.resolve_right hr⟩
    · rw [List.mem_append, List.mem_singleton]
      tauto

omit [DecidableEq Owner] in
theorem has_dequeue : (q.dequeue owner).1.has r ↔ q.has r := by
  unfold Queue.dequeue
  split
  · rfl
  · rename_i next rest hpending
    unfold Queue.has
    rw [hpending, List.mem_cons]
    dsimp only
    by_cases hr : r = next
    · subst hr
      simp
    · rw [Function.update_of_ne hr]
      tauto

theorem ack_true : (q.ack run owner).2 = true ↔ q.inFlight run = some owner := by
  unfold Queue.ack
  split
  · rename_i h
    exact ⟨fun _ => h, fun _ => rfl⟩
  · rename_i h
    exact ⟨fun hf => (by cases hf), fun h' => absurd h' h⟩

theorem ack_refused (h : (q.ack run owner).2 = false) : (q.ack run owner).1 = q := by
  unfold Queue.ack at h ⊢
  split
  · rename_i heq
    rw [if_pos heq] at h
    cases h
  · rfl

theorem has_ack (h : q.has r) : (q.ack run owner).1.has r ∨ (r = run ∧ (q.ack run owner).2 = true) := by
  unfold Queue.ack
  split
  · by_cases hr : r = run
    · exact .inr ⟨hr, rfl⟩
    · left
      unfold Queue.has at h ⊢
      dsimp only
      rwa [Function.update_of_ne hr]
  · exact .inl h

end

/-! ## one step -/

section
variable {w w' : World RunId Owner}

omit [DecidableEq Owner] in
theorem kept_of {v : World RunId Owner} (h : w.Inv) (hhas : ∀ r, w.queue.has r → v.queue.has r ∨ v.acks = w.acks ++ [r])
    (hacks : v.acks = w.acks ∨ ∃ r, v.acks = w.acks ++ [r])
    (hnew : ∀ p ∈ v.promises, p ∈ w.promises ∨ (v.queue.has p.1 ∧ p.2 = v.acks.length)) :
    (∀ p ∈ v.promises, v.queue.has p.1 ∨ p.1 ∈ v.acks.drop p.2) ∧ ∀ p ∈ v.promises, p.2 ≤ v.acks.length := by
  have hgrows : w.acks <+: v.acks := by
    rcases hacks with heq | ⟨r, heq⟩
    · exact ⟨[], by rw [heq, List.append_nil]⟩
    · rw [heq]
      exact List.prefix_append _ _
  refine ⟨fun p hp => ?_, fun p hp => ?_⟩
  · rcases hnew p hp with hold | ⟨hin, -⟩
    · have hstamp := h.stamped p hold
      rcases h.kept p hold with hin | hacked
      · rcases hhas p.1 hin with hin' | hnow
        · exact .inl hin'
        · right
          rw [hnow, List.drop_append_of_le_length hstamp]
          exact List.mem_append_right _ (List.mem_singleton_self _)
      · right
        obtain ⟨more, hmore⟩ := hgrows
        rw [← hmore, List.drop_append_of_le_length hstamp]
        exact List.mem_append_left _ hacked
    · exact .inl hin
  · rcases hnew p hp with hold | ⟨-, hlen⟩
    · exact Nat.le_trans (h.stamped p hold) hgrows.length_le
    · exact Nat.le_of_eq hlen

omit [DecidableEq RunId] [DecidableEq Owner] in
theorem mem_promise {w : World RunId Owner} {run : RunId} {p : RunId × Nat} (hin : w.queue.has run)
    (h : p ∈ (w.promise run).promises) : p ∈ w.promises ∨ (w.queue.has p.1 ∧ p.2 = w.acks.length) := by
  rcases List.mem_append.1 h with hold | hnew
  · exact .inl hold
  · rw [List.mem_singleton.1 hnew]
    exact .inr ⟨hin, rfl⟩

theorem inv_enqueue {run : RunId} (h : w.Inv) (hs : w.step (.enqueue run) = some w') : w'.Inv := by
  rw [World.step] at hs
  split at hs
  · rename_i hin
    cases hs
    obtain ⟨hkept, hstamp⟩ := kept_of (v := w.promise run) h (fun r hr => .inl hr) (.inl rfl)
      (fun p hp => mem_promise hin hp)
    exact ⟨h.once, h.exclusive, h.fifo, h.owner, hkept, hstamp⟩
  · cases hs
    exact { h with }

theorem inv_refused {call : Nat} (h : w.Inv) (hs : w.step (.refused call) = some w') : w'.Inv := by
  rw [World.step] at hs
  split at hs
  · cases hs
    exact { h with }
  · cases hs

theorem inv_insert {call : Nat} (h : w.Inv) (hs : w.step (.insert call) = some w') : w'.Inv := by
  rw [World.step] at hs
  split at hs
  · cases hs
  · rename_i run hcall
    cases hs
    obtain ⟨hkept, hstamp⟩ := kept_of (v := { w with
        queue := w.queue.insert run
        checking := w.checking.eraseIdx call
        entered := if w.queue.has run then w.entered else w.entered ++ [run] }.promise run) h
      (fun r hr => .inl (has_insert.2 (.inl hr))) (.inl rfl)
      (fun p hp => mem_promise (has_insert.2 (.inr rfl)) hp)
    unfold Queue.insert at hkept ⊢
    by_cases hin : w.queue.has run
    · simp only [if_pos hin] at hkept ⊢
      exact ⟨h.once, h.exclusive, h.fifo, h.owner, hkept, hstamp⟩
    · obtain ⟨hpending, hfree⟩ := not_has.1 hin
      simp only [if_neg hin] at hkept ⊢
      refine ⟨?_, fun r hr => ?_, ?_, h.owner, hkept, hstamp⟩
      · exact List.nodup_append.2 ⟨h.once, List.nodup_singleton run, fun a ha b hb he =>
          hpending (List.mem_singleton.1 hb ▸ he ▸ ha)⟩
      · rcases List.mem_append.1 hr with hold | hnew
        · exact h.exclusive r hold
        · rw [List.mem_singleton.1 hnew]
          exact hfree
      · show w.entered ++ [run] = w.delivered.map (·.1) ++ (w.queue.pending ++ [run])
        rw [h.fifo, List.append_assoc]

omit [DecidableEq Owner] in
theorem deliveredTo_append (run : RunId) (owner : Owner) (r : RunId) :
    ({ w with delivered := w.delivered ++ [(run, owner)] } : World RunId Owner).deliveredTo r =
      if r = run then some owner else w.deliveredTo r := by
  unfold World.deliveredTo
  rw [List.filter_append]
  by_cases hr : r = run
  · simp [hr]
  · simp [hr, Ne.symm hr]

theorem inv_dequeue {owner : Owner} (h : w.Inv) (hs : w.step (.dequeue owner) = some w') : w'.Inv := by
  cases hs
  obtain ⟨hkept, hstamp⟩ := kept_of (v := { w with
      queue := (w.queue.dequeue owner).1
      delivered := w.delivered ++ ((w.queue.dequeue owner).2.map (fun run => (run, owner))).toList }) h
    (fun r hr => .inl (has_dequeue.2 hr)) (.inl rfl) (fun p hp => .inl hp)
  unfold Queue.dequeue at hkept ⊢
  split
  · rename_i hpending
    rw [hpending] at hkept
    simp only [Option.map_none, Option.toList_none, List.append_nil]
    exact { h with stamped := hstamp }
  · rename_i run rest hpending
    simp only [hpending] at hkept
    have honce := h.once
    rw [hpending, List.nodup_cons] at honce
    refine ⟨honce.2, fun r hr => ?_, ?_, fun r o ho => ?_, hkept, hstamp⟩
    · have hne : r ≠ run := fun he => honce.1 (he ▸ hr)
      show Function.update w.queue.inFlight run (some owner) r = none
      rw [Function.update_of_ne hne]
      exact h.exclusive r (hpending ▸ List.mem_cons_of_mem _ hr)
    · show w.entered = (w.delivered ++ [(run, owner)]).map (·.1) ++ rest
      rw [h.fifo, hpending, List.map_append, List.append_assoc]
      rfl
    · refine (deliveredTo_append run owner r).trans ?_
      change Function.update w.queue.inFlight run (some owner) r = some o at ho
      by_cases hr : r = run
      · subst hr
        rw [Function.update_self] at ho
        rw [if_pos rfl, ho]
      · rw [Function.update_of_ne hr] at ho
        rw [if_neg hr]
        exact h.owner r o ho

theorem inv_ack {run : RunId} {owner : Owner} (h : w.Inv) (hs : w.step (.ack run owner) = some w') : w'.Inv := by
  cases hs
  obtain ⟨hkept, hstamp⟩ := kept_of (v := { w with
      queue := (w.queue.ack run owner).1
      acks := if (w.queue.ack run owner).2 then w.acks ++ [run] else w.acks }) h
    (fun r hr => (has_ack hr).imp_right (fun hgone => by
      obtain ⟨rfl, htrue⟩ := hgone
      exact if_pos htrue))
    (by
      split
      · exact .inr ⟨run, rfl⟩
      · exact .inl rfl)
    (fun p hp => .inl hp)
  by_cases howned : w.queue.inFlight run = some owner
  · have hack : w.queue.ack run owner = ({ w.queue with inFlight := Function.update w.queue.inFlight run none }, true) :=
      if_pos howned
    simp only [hack] at hkept hstamp ⊢
    refine ⟨h.once, fun r hr => ?_, h.fifo, fun r o ho => ?_, hkept, hstamp⟩
    · show Function.update w.queue.inFlight run none r = none
      by_cases he : r = run
      · rw [he, Function.update_self]
      · rw [Function.update_of_ne he]
        exact h.exclusive r hr
    · change Function.update w.queue.inFlight run none r = some o at ho
      by_cases he : r = run
      · rw [he, Function.update_self] at ho
        cases ho
      · rw [Function.update_of_ne he] at ho
        exact h.owner r o ho
  · have hack : w.queue.ack run owner = (w.queue, false) := if_neg howned
    simp only [hack]
    exact h

theorem inv_requeue {run : RunId} (h : w.Inv) (hs : w.step (.requeue run) = some w') : w'.Inv := by
  cases hs
  obtain ⟨hkept, hstamp⟩ := kept_of (v := { w with
      queue := w.queue.requeue run
      entered := if run ∈ w.queue.pending then w.entered else w.entered ++ [run] }.promise run) h
    (fun r hr => .inl (has_requeue.2 (.inl hr))) (.inl rfl)
    (fun p hp => mem_promise (has_requeue.2 (.inr rfl)) hp)
  refine ⟨?_, fun r hr => ?_, ?_, fun r o ho => ?_, hkept, hstamp⟩
  · show (if run ∈ w.queue.pending then w.queue.pending else w.queue.pending ++ [run]).Nodup
    split
    · exact h.once
    · rename_i hnot
      exact List.nodup_append.2 ⟨h.once, List.nodup_singleton run, fun a ha b hb he =>
        hnot (List.mem_singleton.1 hb ▸ he ▸ ha)⟩
  · change r ∈ (if run ∈ w.queue.pending then w.queue.pending else w.queue.pending ++ [run]) at hr
    show Function.update w.queue.inFlight run none r = none
    by_cases he : r = run
    · rw [he, Function.update_self]
    · rw [Function.update_of_ne he]
      refine h.exclusive r ?_
      split at hr
      · exact hr
      · exact (List.mem_append.1 hr).resolve_right (fun hmem => he (List.mem_singleton.1 hmem))
  · show (if run ∈ w.queue.pending then w.entered else w.entered ++ [run]) = w.delivered.map (·.1) ++
      (if run ∈ w.queue.pending then w.queue.pending else w.queue.pending ++ [run])
    split
    · exact h.fifo
    · rw [h.fifo, List.append_assoc]
  · change Function.update w.queue.inFlight run none r = some o at ho
    by_cases he : r = run
    · rw [he, Function.update_self] at ho
      cases ho
    · rw [Function.update_of_ne he] at ho
      exact h.owner r o ho

theorem inv_step {a : Act RunId Owner} (h : w.Inv) (hs : w.step a = some w') : w'.Inv := by
  cases a with
  | enqueue run => exact inv_enqueue h hs
  | refused call => exact inv_refused h hs
  | insert call => exact inv_insert h hs
  | dequeue owner => exact inv_dequeue h hs
  | ack run owner => exact inv_ack h hs
  | requeue run => exact inv_requeue h hs
  | reclaimStale owner limit =>
    cases hs
    exact h

omit [DecidableEq Owner] in
theorem inv_start : ({} : World RunId Owner).Inv where
  once := List.nodup_nil
  exclusive := fun _ _ => rfl
  fifo := rfl
  owner := fun _ _ h => by cases h
  kept := fun _ h => by cases h
  stamped := fun _ h => by cases h

end

/-! ## the contract in every state -/

theorem idempotent (w : World RunId Owner) {run : RunId} (h : w.queue.has run) : w.Idempotent run where
  first := by
    intro w' hs
    rw [World.step] at hs
    rw [if_pos h] at hs
    cases hs
    exact ⟨rfl, rfl, rfl⟩
  second := by
    intro call w' hcall hs
    rw [World.step] at hs
    rw [hcall] at hs
    cases hs
    exact ⟨if_pos h, if_pos h⟩

/-- **The queue keeps its contract along every sequence of operations.** -/
theorem in_memory_queue {w : World RunId Owner} (h : Reaches World.step {} w) : w.Contract := by
  have hinv := h.invariant inv_start (fun _ _ _ hw _ hs => inv_step hw hs)
  exact
    { once := hinv.once
      exclusive := hinv.exclusive
      idempotent := fun run hrun => idempotent w hrun
      fifo := hinv.fifo
      owned := fun run owner hack => hinv.owner run owner (ack_true.1 hack)
      refused := fun run owner hack => ack_refused hack
      kept := hinv.kept }

def redelivered : List (Act Nat Bool) :=
  [.enqueue 1, .enqueue 2, .insert 0, .enqueue 1, .insert 0, .dequeue true, .requeue 1, .ack 1 true, .dequeue false, .ack 2 false,
    .dequeue false, .ack 1 false]

theorem in_memory_queue_redelivered : ∃ w, exec World.step ({} : World Nat Bool) redelivered = some w ∧
    w.delivered = [(1, true), (2, false), (1, false)] ∧ w.acks = [2, 1] ∧ w.Contract :=
  ⟨_, rfl, rfl, rfl, in_memory_queue (Trace.reaches_of_exec redelivered .refl rfl)⟩

end InMemoryQueue
end MyGpt
