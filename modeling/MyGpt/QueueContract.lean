import MyGpt.RedisStream
import Mathlib.Data.List.Basic
/-!
# QueueContract — what the run queue promises

An entry is outstanding from its `XADD` until its `XACK`, unless trimming takes it away undelivered.  The queue keeps its
promises as long as the scan of an `enqueue` sees what is outstanding (`Seen`), and as long as the `XADD`s succeed and trim
only what has been acknowledged (`Sure`).
-/
namespace MyGpt
namespace RedisQueue

open Trace

/-! ## what is asked for -/

def outstanding (q : Stream) (run : RunId) : List Nat :=
  (List.range q.log.length).filter (fun id =>
    q.log[id]? == some run && ((decide (q.delivered ≤ id) && decide (q.trimmed ≤ id)) || q.pelIds.contains id))

/-- **A run has at most one outstanding entry.** -/
def Single (w : World) : Prop := ∀ run, (outstanding w.stream run).length ≤ 1

def Vouched (q : Stream) (acks : List RunId) (run : RunId) (since : Nat) : Prop :=
  outstanding q run ≠ [] ∨ run ∈ acks.drop since

/-- **A submission that has returned leaves the run outstanding until it is acknowledged.** -/
def Kept (w : World) : Prop := ∀ p ∈ w.promises, Vouched w.stream w.acks p.1 p.2

def World.awaits (w : World) (i : Nat) : Option Await := w.calls[i]?.bind (·.await)

/-- An `enqueue` of the run between its scan and its `XADD`. -/
def Await.past (run : RunId) : Await → Bool
  | .range (.enqueue r) _ => r == run
  | .add r => r == run
  | _ => false

/-- Runs get into the queue by `enqueue` alone. -/
def EnqueueOnly : Action → Prop
  | .begin (.requeue _) _ => False
  | .begin (.reclaimStale _ _) _ => False
  | _ => True

/-- **The condition for single entries**: what is outstanding when an `enqueue` scans is reached by the scan and can be read,
and no other `enqueue` of the run is past its own scan. -/
def Seen (cfg : Settings) (w : World) : Action → Prop
  | .resume i fault _ =>
    match w.awaits i with
    | some (.pending (.enqueue run)) =>
      (∀ id ∈ outstanding w.stream run, fault = .none ∧ id ∈ w.stream.xpendingRange cfg.scan) ∧
        ∀ j a, w.awaits j = some a → a.past run = false
    | some (.range (.enqueue run) _) => ∀ id ∈ outstanding w.stream run, fault = .none ∧ w.stream.trimmed ≤ id
    | _ => True
  | _ => True

/-- Whatever an `XADD` trims has been acknowledged. -/
def TrimsDone (cfg : Settings) (q : Stream) (run : RunId) (trim : Nat) : Prop :=
  ∀ id, q.trimmed ≤ id → id < (q.xadd cfg.maxlen run trim).trimmed → id < q.delivered ∧ id ∉ q.pelIds

/-- **The condition for kept promises**: the `XADD` of a submission does not fail, no `XADD` trims what is outstanding, and a
run with a live lease is outstanding when it is submitted. -/
def Sure (cfg : Settings) (w : World) : Action → Prop
  | .begin (.enqueue run true) _ => outstanding w.stream run ≠ []
  | .resume i fault trim =>
    match w.awaits i with
    | some (.add run) => fault ≠ .failed ∧ TrimsDone cfg w.stream run trim
    | some (.readd run _ _) => fault ≠ .failed → TrimsDone cfg w.stream run trim
    | _ => True
  | _ => True

/-! ## the commands -/

theorem mem_outstanding {q : Stream} {run : RunId} {id : Nat} : id ∈ outstanding q run ↔
    q.log[id]? = some run ∧ ((q.delivered ≤ id ∧ q.trimmed ≤ id) ∨ id ∈ q.pelIds) := by
  unfold outstanding
  simp only [List.mem_filter, List.mem_range, Bool.and_eq_true, beq_iff_eq, Bool.or_eq_true, decide_eq_true_eq,
    List.contains_iff_mem]
  constructor
  · exact fun h => h.2
  · exact fun h => ⟨(List.getElem?_eq_some_iff.1 h.1).1, h⟩

theorem pelIds_xack (q : Stream) (ids : List Nat) : (q.xack ids).pelIds = q.pelIds.filter (fun id => !ids.contains id) := by
  simp [Stream.xack, Stream.pelIds, List.filter_map, Function.comp_def]

theorem mem_outstanding_xack {q : Stream} {ids : List Nat} {run : RunId} {id : Nat} : id ∈ outstanding (q.xack ids) run ↔
    q.log[id]? = some run ∧ ((q.delivered ≤ id ∧ q.trimmed ≤ id) ∨ (id ∈ q.pelIds ∧ id ∉ ids)) := by
  rw [mem_outstanding, pelIds_xack]
  simp [Stream.xack]

theorem xreadgroup_cases (q : Stream) (owner : Owner) (now : Nat) : q.xreadgroup owner now = q ∨
    ∃ id, id = max q.delivered q.trimmed ∧ id < q.log.length ∧
      q.xreadgroup owner now = { q with delivered := id + 1, pel := q.pel ++ [⟨id, owner, now⟩] } := by
  unfold Stream.xreadgroup
  dsimp only
  split
  · rename_i h
    exact .inr ⟨_, rfl, h.2, rfl⟩
  · exact .inl rfl

theorem mem_outstanding_xreadgroup {q : Stream} (owner : Owner) (now : Nat) {run : RunId} {id : Nat} :
    id ∈ outstanding (q.xreadgroup owner now) run ↔ id ∈ outstanding q run := by
  rcases xreadgroup_cases q owner now with h | ⟨next, hnext, -, h⟩
  · rw [h]
  · rw [h, mem_outstanding, mem_outstanding]
    simp only [Stream.pelIds, List.map_append, List.map_cons, List.map_nil, List.mem_append, List.mem_singleton]
    constructor
    · rintro ⟨hlog, hwait | hpel | rfl⟩
      · exact ⟨hlog, .inl (by omega)⟩
      · exact ⟨hlog, .inr hpel⟩
      · exact ⟨hlog, .inl (by omega)⟩
    · rintro ⟨hlog, hwait | hpel⟩
      · by_cases heq : id = next
        · exact ⟨hlog, .inr (.inr heq)⟩
        · exact ⟨hlog, .inl (by omega)⟩
      · exact ⟨hlog, .inr (.inl hpel)⟩

@[simp] theorem xadd_log (q : Stream) (maxlen : Nat) (run : RunId) (trim : Nat) :
    (q.xadd maxlen run trim).log = q.log ++ [run] := rfl

@[simp] theorem xadd_delivered (q : Stream) (maxlen : Nat) (run : RunId) (trim : Nat) :
    (q.xadd maxlen run trim).delivered = q.delivered := rfl

@[simp] theorem xadd_pelIds (q : Stream) (maxlen : Nat) (run : RunId) (trim : Nat) :
    (q.xadd maxlen run trim).pelIds = q.pelIds := rfl

theorem mem_outstanding_xadd {q : Stream} {maxlen : Nat} {run r : RunId} {trim id : Nat}
    (h : id ∈ outstanding (q.xadd maxlen run trim) r) : id ∈ outstanding q r ∨ (r = run ∧ id = q.log.length) := by
  obtain ⟨hlog, hout⟩ := mem_outstanding.1 h
  rw [xadd_log] at hlog
  by_cases hold : id < q.log.length
  · rw [List.getElem?_append_left hold] at hlog
    refine .inl (mem_outstanding.2 ⟨hlog, hout.imp (fun hwait => ⟨hwait.1, ?_⟩) (fun hpel => hpel)⟩)
    have hge : q.trimmed ≤ (q.xadd maxlen run trim).trimmed := Nat.le_add_right _ _
    exact Nat.le_trans hge hwait.2
  · have hlt := (List.getElem?_eq_some_iff.1 hlog).1
    rw [List.length_append, List.length_singleton] at hlt
    obtain rfl : id = q.log.length := by omega
    rw [List.getElem?_concat_length] at hlog
    exact .inr ⟨(Option.some.inj hlog).symm, rfl⟩

theorem between_ends {ids : List Nat} (h : ids.Pairwise (· < ·)) {id : Nat} (hid : id ∈ ids) :
    ids.headD 0 ≤ id ∧ id ≤ ids.getLastD 0 := by
  constructor
  · cases ids with
    | nil => cases hid
    | cons a l =>
      rcases List.mem_cons.1 hid with rfl | hl
      · exact Nat.le_refl _
      · exact Nat.le_of_lt ((List.pairwise_cons.1 h).1 id hl)
  · obtain ⟨before, after, rfl⟩ := List.append_of_mem hid
    rw [List.getLastD_eq_getLast?, List.getLast?_append_of_ne_nil _ (List.cons_ne_nil _ _)]
    cases hlast : (id :: after).getLast? with
    | none => simp at hlast
    | some last =>
      rcases List.mem_cons.1 (List.mem_of_getLast? hlast) with rfl | hmem
      · exact Nat.le_refl _
      · exact Nat.le_of_lt ((List.pairwise_cons.1 (List.pairwise_append.1 h).2.1).1 last hmem)

theorem mem_xrange {q : Stream} {ids : List Nat} (h : ids.Pairwise (· < ·)) {id : Nat} {run : RunId} (hid : id ∈ ids)
    (hbody : q.trimmed ≤ id) (hlog : q.log[id]? = some run) :
    (id, run) ∈ (q.xrange (ids.headD 0) (ids.getLastD 0)).filter (fun e => ids.contains e.1) := by
  have hends := between_ends h hid
  rw [List.mem_filter]
  refine ⟨List.mem_filterMap.2 ⟨id, List.mem_range.2 (List.getElem?_eq_some_iff.1 hlog).1, ?_⟩, by simp [hid]⟩
  rw [if_pos hends]
  simp [Stream.body, hbody, hlog]

theorem of_mem_xrange {q : Stream} {first last : Nat} {e : Nat × RunId} (h : e ∈ q.xrange first last) :
    q.log[e.1]? = some e.2 := by
  obtain ⟨id, -, hrow⟩ := List.mem_filterMap.1 h
  split at hrow
  · obtain ⟨run, hbody, rfl⟩ := Option.map_eq_some_iff.1 hrow
    unfold Stream.body at hbody
    split at hbody
    · exact hbody
    · cases hbody
  · cases hrow

/-! ## a step of the system -/

theorem awaits_append (w : World) (c : Call) (w' : World) (h : w'.calls = w.calls ++ [c]) {i : Nat} {a : Await}
    (ha : w'.awaits i = some a) : w.awaits i = some a ∨ c.await = some a := by
  unfold World.awaits at ha ⊢
  rw [h] at ha
  rcases Nat.lt_trichotomy i w.calls.length with hlt | rfl | hgt
  · rw [List.getElem?_append_left hlt] at ha
    exact .inl ha
  · rw [List.getElem?_concat_length] at ha
    exact .inr ha
  · rw [List.getElem?_eq_none (by simp; omega)] at ha
    cases ha

theorem awaits_set {w w' : World} {c : Call} {i : Nat} (h : w'.calls = w.calls.set i c) {j : Nat} {a : Await}
    (ha : w'.awaits j = some a) : (j = i ∧ c.await = some a) ∨ (j ≠ i ∧ w.awaits j = some a) := by
  unfold World.awaits at ha ⊢
  rw [h, List.getElem?_set] at ha
  by_cases hji : i = j
  · subst hji
    by_cases hlt : i < w.calls.length
    · simp [hlt] at ha
      exact .inl ⟨rfl, ha⟩
    · simp [hlt] at ha
  · rw [if_neg hji] at ha
    exact .inr ⟨fun heq => hji heq.symm, ha⟩

theorem step_cases {cfg : Settings} {w w' : World} {act : Action} (h : step cfg w act = some w') :
    (∃ op initialized, act = .begin op initialized ∧ w' = { w with
        calls := w.calls ++ [⟨op.start initialized, w.acks.length⟩]
        promises := w.promises ++ promise op.submits w.acks.length (op.start initialized) }) ∨
      (∃ i fault trim await since, act = .resume i fault trim ∧ w.calls[i]? = some ⟨some await, since⟩ ∧ w' = { w with
        stream := (await.exec cfg w.stream w.now fault trim).1
        calls := w.calls.set i ⟨(await.exec cfg w.stream w.now fault trim).2, since⟩
        acks := w.acks ++ await.acks w.stream fault
        promises := w.promises ++ promise await.submits since (await.exec cfg w.stream w.now fault trim).2 }) ∨
      (∃ i c, act = .crash i ∧ w.calls[i]? = some c ∧ w' = { w with calls := w.calls.set i { c with await := none } }) ∨
      (act = .wait ∧ w' = { w with now := w.now + 1 }) := by
  cases act with
  | begin op initialized => exact .inl ⟨op, initialized, rfl, (Option.some.inj h).symm⟩
  | resume i fault trim =>
    simp only [step] at h
    split at h
    · rename_i await since hcall
      exact .inr (.inl ⟨i, fault, trim, await, since, rfl, hcall, (Option.some.inj h).symm⟩)
    · cases h
  | crash i =>
    simp only [step] at h
    split at h
    · rename_i c hcall
      exact .inr (.inr (.inl ⟨i, c, rfl, hcall, (Option.some.inj h).symm⟩))
    · cases h
  | wait => exact .inr (.inr (.inr ⟨rfl, (Option.some.inj h).symm⟩))

theorem awaits_of_call {w : World} {i since : Nat} {a : Await} (h : w.calls[i]? = some ⟨some a, since⟩) :
    w.awaits i = some a := by
  unfold World.awaits
  rw [h]
  rfl

/-! ## single entries -/

/-- What a call of `enqueue`, `dequeue` or `ack` knows. -/
def Tracked (q : Stream) : Await → Prop
  | .group next => (∃ use, next = .pending use) ∨ ∃ owner, next = .read owner
  | .range (.enqueue run) ids => ids.Pairwise (· < ·) ∧ ∀ id ∈ outstanding q run, id ∈ ids ∧ id ∈ q.pelIds
  | .add run => outstanding q run = []
  | .claim _ _ => False
  | .readd _ _ _ => False
  | .confirm _ _ _ => False
  | .drop _ _ => False
  | _ => True

structure Scanned (w : World) : Prop where
  sorted : w.stream.pelIds.Pairwise (· < ·)
  before : ∀ id ∈ w.stream.pelIds, id < w.stream.delivered
  single : ∀ run id id', id ∈ outstanding w.stream run → id' ∈ outstanding w.stream run → id = id'
  tracked : ∀ i a, w.awaits i = some a → Tracked w.stream a
  alone : ∀ i j a b run, w.awaits i = some a → w.awaits j = some b → a.past run = true → b.past run = true → i = j

/-- A stream in which nothing of a run has become outstanding, unless it is `added`. -/
structure Less (added : RunId → Prop) (q q' : Stream) : Prop where
  sorted : q'.pelIds.Pairwise (· < ·)
  before : ∀ id ∈ q'.pelIds, id < q'.delivered
  delivered : q.delivered ≤ q'.delivered
  less : ∀ run, ¬ added run → ∀ id ∈ outstanding q' run, id ∈ outstanding q run

theorem less_xack {q : Stream} (hsorted : q.pelIds.Pairwise (· < ·)) (hbefore : ∀ id ∈ q.pelIds, id < q.delivered)
    (ids : List Nat) : Less (fun _ => False) q (q.xack ids) where
  sorted := by
    rw [pelIds_xack]
    exact hsorted.filter _
  before := by
    rw [pelIds_xack]
    exact fun id hid => hbefore id (List.mem_of_mem_filter hid)
  delivered := Nat.le_refl _
  less := by
    intro run _ id hid
    obtain ⟨hlog, hout⟩ := mem_outstanding_xack.1 hid
    exact mem_outstanding.2 ⟨hlog, hout.imp_right And.left⟩

theorem less_xreadgroup {q : Stream} (hsorted : q.pelIds.Pairwise (· < ·)) (hbefore : ∀ id ∈ q.pelIds, id < q.delivered)
    (owner : Owner) (now : Nat) : Less (fun _ => False) q (q.xreadgroup owner now) := by
  have hless : ∀ run, ¬ False → ∀ id ∈ outstanding (q.xreadgroup owner now) run, id ∈ outstanding q run :=
    fun run _ id hid => (mem_outstanding_xreadgroup owner now).1 hid
  rcases xreadgroup_cases q owner now with h | ⟨next, hnext, -, h⟩
  · rw [h] at hless ⊢
    exact ⟨hsorted, hbefore, Nat.le_refl _, hless⟩
  · rw [h] at hless ⊢
    refine ⟨?_, ?_, by simp only; omega, hless⟩
    · simp only [Stream.pelIds, List.map_append, List.map_cons, List.map_nil]
      refine List.pairwise_append.2 ⟨hsorted, List.pairwise_singleton _ _, ?_⟩
      intro id hid id' hid'
      have hlt := hbefore id hid
      rw [List.mem_singleton] at hid'
      omega
    · intro id hid
      simp only [Stream.pelIds, List.map_append, List.map_cons, List.map_nil, List.mem_append, List.mem_singleton] at hid
      rcases hid with hold | rfl
      · have hlt := hbefore id hold
        simp only
        omega
      · exact Nat.lt_succ_self _

theorem exec_less (cfg : Settings) {q : Stream} (hsorted : q.pelIds.Pairwise (· < ·))
    (hbefore : ∀ id ∈ q.pelIds, id < q.delivered) (now : Nat) (fault : Fault) (trim : Nat) {a : Await} (h : Tracked q a) :
    Less (fun run => a = .add run) q (a.exec cfg q now fault trim).1 := by
  have hsame : Less (fun run => a = .add run) q q := ⟨hsorted, hbefore, Nat.le_refl _, fun _ _ _ hid => hid⟩
  cases a with
  | group next =>
    simp only [Await.exec]
    split
    · exact hsame
    · exact ⟨hsorted, hbefore, Nat.le_refl _, fun _ _ _ hid => hid⟩
  | pending use => exact hsame
  | range use ids => exact hsame
  | add run =>
    simp only [Await.exec]
    split
    · exact hsame
    · refine ⟨hsorted, hbefore, Nat.le_refl _, ?_⟩
      intro r hr id hid
      rcases mem_outstanding_xadd hid with hold | ⟨rfl, -⟩
      · exact hold
      · exact absurd rfl hr
  | acknowledge run ids =>
    simp only [Await.exec]
    split
    · exact hsame
    · have hless := less_xack hsorted hbefore ids
      exact { hless with less := fun r _ => hless.less r not_false }
  | read owner =>
    simp only [Await.exec]
    split
    · exact hsame
    · have hless := less_xreadgroup hsorted hbefore owner now
      exact { hless with less := fun r _ => hless.less r not_false }
  | claim | readd | confirm | drop => exact h.elim

theorem tracked_less {added : RunId → Prop} {q q' : Stream} (hless : Less added q q')
    (hbefore : ∀ id ∈ q.pelIds, id < q.delivered) {a : Await} (h : Tracked q a) (ha : ∀ run, added run → a.past run = false) :
    Tracked q' a := by
  cases a with
  | range use ids =>
    cases use with
    | enqueue run =>
      have hno : ¬ added run := by
        intro hadd
        have hpast := ha run hadd
        simp [Await.past] at hpast
      refine ⟨h.1, fun id hid => ?_⟩
      obtain ⟨hin, hpel⟩ := h.2 id (hless.less run hno id hid)
      refine ⟨hin, ?_⟩
      rcases (mem_outstanding.1 hid).2 with ⟨hwait, -⟩ | hpel'
      · have hlt := hbefore id hpel
        have hle := hless.delivered
        omega
      · exact hpel'
    | ack run => trivial
  | add run =>
    have hno : ¬ added run := by
      intro hadd
      have hpast := ha run hadd
      simp [Await.past] at hpast
    have hnone : outstanding q run = [] := h
    refine List.eq_nil_iff_forall_not_mem.2 (fun id hid => ?_)
    have hold := hless.less run hno id hid
    rw [hnone] at hold
    cases hold
  | _ => exact h

theorem afterScan_past {found : List (Nat × RunId)} {use : Use} {b : Await} (h : afterScan found use = some b) :
    (∃ run, use = .enqueue run ∧ b = .add run ∧ ∀ e ∈ found, e.2 ≠ run) ∨
      ∃ run, use = .ack run ∧ b = .acknowledge run ((found.filter (fun e => e.2 == run)).map (·.1)) := by
  cases use with
  | enqueue run =>
    simp only [afterScan] at h
    split at h
    · cases h
    · rename_i hno
      refine .inl ⟨run, rfl, (Option.some.inj h).symm, fun e he heq => ?_⟩
      exact hno (List.any_eq_true.2 ⟨e, he, by simp [heq]⟩)
  | ack run =>
    simp only [afterScan] at h
    split at h
    · cases h
    · exact .inr ⟨run, rfl, (Option.some.inj h).symm⟩

/-- **What the command after it knows**: an `enqueue` that goes on to its `XADD` has seen that nothing is outstanding. -/
theorem exec_tracked (cfg : Settings) {q : Stream} (hsorted : q.pelIds.Pairwise (· < ·)) (now : Nat) (fault : Fault)
    (trim : Nat) {a b : Await} (h : Tracked q a) (hb : (a.exec cfg q now fault trim).2 = some b)
    (hscan : ∀ run, a = .pending (.enqueue run) →
      ∀ id ∈ outstanding q run, fault = .none ∧ id ∈ q.xpendingRange cfg.scan)
    (hread : ∀ run ids, a = .range (.enqueue run) ids → ∀ id ∈ outstanding q run, fault = .none ∧ q.trimmed ≤ id) :
    Tracked (a.exec cfg q now fault trim).1 b ∧
      ∀ run, b.past run = true → a.past run = true ∨ a = .pending (.enqueue run) := by
  cases a with
  | group next =>
    obtain rfl : next = b := Option.some.inj hb
    rcases h with ⟨use, rfl⟩ | ⟨owner, rfl⟩
    · exact ⟨trivial, fun run hp => absurd hp (by simp [Await.past])⟩
    · exact ⟨trivial, fun run hp => absurd hp (by simp [Await.past])⟩
  | pending use =>
    simp only [Await.exec] at hb ⊢
    generalize hids : (if fault = .none then q.xpendingRange cfg.scan else []) = ids at hb
    have hsub : ids.Pairwise (· < ·) ∧ ∀ id ∈ ids, id ∈ q.pelIds := by
      rw [← hids]
      unfold Stream.xpendingRange
      split
      · split
        · exact ⟨hsorted.sublist (List.take_sublist _ _), fun id hid => List.mem_of_mem_take hid⟩
        · exact ⟨List.Pairwise.nil, fun id hid => absurd hid List.not_mem_nil⟩
      · exact ⟨List.Pairwise.nil, fun id hid => absurd hid List.not_mem_nil⟩
    have hreach : ∀ run, use = .enqueue run → ∀ id ∈ outstanding q run, id ∈ ids := by
      intro run huse id hid
      obtain ⟨hnone, hin⟩ := hscan run (by rw [huse]) id hid
      rw [← hids, if_pos hnone]
      exact hin
    split at hb
    · rename_i hempty
      rcases afterScan_past hb with ⟨run, huse, rfl, -⟩ | ⟨run, huse, rfl⟩
      · constructor
        · refine List.eq_nil_iff_forall_not_mem.2 (fun id hid => ?_)
          have hin := hreach run huse id hid
          rw [hempty] at hin
          cases hin
        · intro r hp
          obtain rfl : run = r := by simpa [Await.past] using hp
          exact .inr (by rw [huse])
      · exact ⟨trivial, fun r hp => absurd hp (by simp [Await.past])⟩
    · cases hb
      cases use with
      | enqueue run =>
        refine ⟨⟨hsub.1, fun id hid => ?_⟩, fun r hp => ?_⟩
        · have hin := hreach run rfl id hid
          exact ⟨hin, hsub.2 id hin⟩
        · obtain rfl : run = r := by simpa [Await.past] using hp
          exact .inr rfl
      | ack run => exact ⟨trivial, fun r hp => absurd hp (by simp [Await.past])⟩
  | range use ids =>
    simp only [Await.exec] at hb ⊢
    rcases afterScan_past hb with ⟨run, rfl, rfl, hnot⟩ | ⟨run, rfl, rfl⟩
    · constructor
      · refine List.eq_nil_iff_forall_not_mem.2 (fun id hid => ?_)
        obtain ⟨hnone, hbody⟩ := hread run ids rfl id hid
        have hrow := mem_xrange h.1 (h.2 id hid).1 hbody (mem_outstanding.1 hid).1
        rw [if_pos hnone] at hnot
        exact hnot _ hrow rfl
      · exact fun r hp => .inl hp
    · exact ⟨trivial, fun r hp => absurd hp (by simp [Await.past])⟩
  | add | acknowledge | read => cases hb
  | claim | readd | confirm | drop => exact h.elim

theorem scanned_begin {w : World} (h : Scanned w) {op : Op} {initialized : Bool}
    (honly : EnqueueOnly (.begin op initialized)) {w' : World} (hstream : w'.stream = w.stream)
    (hcalls : w'.calls = w.calls ++ [⟨op.start initialized, w.acks.length⟩]) : Scanned w' := by
  -- the new call has not scanned yet
  have hfresh : ∀ a, op.start initialized = some a → Tracked w.stream a ∧ ∀ run, a.past run = false := by
    intro a ha
    cases op with
    | enqueue run live =>
      cases live <;> cases initialized <;> cases ha
      · exact ⟨.inl ⟨_, rfl⟩, fun _ => rfl⟩
      · exact ⟨trivial, fun _ => rfl⟩
    | dequeue owner =>
      cases initialized <;> cases ha
      · exact ⟨.inr ⟨_, rfl⟩, fun _ => rfl⟩
      · exact ⟨trivial, fun _ => rfl⟩
    | ack run =>
      cases initialized <;> cases ha
      · exact ⟨.inl ⟨_, rfl⟩, fun _ => rfl⟩
      · exact ⟨trivial, fun _ => rfl⟩
    | requeue run => exact honly.elim
    | reclaimStale owner limit => exact honly.elim
  have hnew : ∀ i a, w'.awaits i = some a → w.awaits i = some a ∨ op.start initialized = some a :=
    fun i a ha => awaits_append w _ w' hcalls ha
  refine ⟨by rw [hstream]; exact h.sorted, by rw [hstream]; exact h.before, by rw [hstream]; exact h.single, ?_, ?_⟩
  · intro i a ha
    rw [hstream]
    rcases hnew i a ha with hold | hstart
    · exact h.tracked i a hold
    · exact (hfresh a hstart).1
  · intro i j a b run ha hb hpa hpb
    rcases hnew i a ha with hi | hi
    · rcases hnew j b hb with hj | hj
      · exact h.alone i j a b run hi hj hpa hpb
      · rw [(hfresh b hj).2 run] at hpb
        cases hpb
    · rw [(hfresh a hi).2 run] at hpa
      cases hpa

theorem scanned_step {cfg : Settings} {w w' : World} {act : Action} (h : Scanned w) (hok : EnqueueOnly act ∧ Seen cfg w act)
    (hs : step cfg w act = some w') : Scanned w' := by
  obtain ⟨honly, hseen⟩ := hok
  rcases step_cases hs with ⟨op, initialized, rfl, rfl⟩ | ⟨i, fault, trim, a, since, rfl, hcall, rfl⟩ |
    ⟨i, c, rfl, -, rfl⟩ | ⟨rfl, rfl⟩
  · exact scanned_begin h honly rfl rfl
  · have ha := awaits_of_call hcall
    have htracked := h.tracked i a ha
    simp only [Seen] at hseen
    rw [ha] at hseen
    have hless := exec_less cfg h.sorted h.before w.now fault trim htracked
    have hothers : ∀ j b, j ≠ i → w.awaits j = some b → ∀ run, a = .add run → b.past run = false := by
      intro j b hji hb run hadd
      by_contra hpast
      refine hji (h.alone j i b a run hb ha (by simpa using hpast) ?_)
      rw [hadd]
      simp [Await.past]
    have hnext : ∀ b, (a.exec cfg w.stream w.now fault trim).2 = some b →
        Tracked (a.exec cfg w.stream w.now fault trim).1 b ∧
          ∀ run, b.past run = true → a.past run = true ∨ a = .pending (.enqueue run) := by
      intro b hb
      refine exec_tracked cfg h.sorted w.now fault trim htracked hb ?_ ?_
      · rintro run rfl
        exact hseen.1
      · rintro run ids rfl
        exact hseen
    -- two calls of one run past their scans: the one that goes on, and another
    have hpair : ∀ j b c run, j ≠ i → w.awaits j = some b → (a.exec cfg w.stream w.now fault trim).2 = some c →
        b.past run = true → c.past run = true → False := by
      intro j b c run hji hb hc hpb hpc
      rcases (hnext c hc).2 run hpc with hpa | rfl
      · exact hji (h.alone j i b a run hb ha hpb hpa)
      · rw [hseen.2 j b hb] at hpb
        cases hpb
    refine ⟨hless.sorted, hless.before, ?_, ?_, ?_⟩
    · intro run id id' hid hid'
      by_cases hadd : a = .add run
      · subst hadd
        have hnone : outstanding w.stream run = [] := htracked
        have hlast : ∀ n ∈ outstanding (Await.exec cfg w.stream w.now fault trim (.add run)).1 run,
            n = w.stream.log.length := by
          intro n hn
          simp only [Await.exec] at hn
          split at hn
          · rw [hnone] at hn
            cases hn
          · rcases mem_outstanding_xadd hn with hold | ⟨-, hlen⟩
            · rw [hnone] at hold
              cases hold
            · exact hlen
        rw [hlast id hid, hlast id' hid']
      · exact h.single run id id' (hless.less run hadd id hid) (hless.less run hadd id' hid')
    · intro j b hb
      rcases awaits_set rfl hb with ⟨-, hb⟩ | ⟨hji, hb⟩
      · exact (hnext b hb).1
      · exact tracked_less hless h.before (h.tracked j b hb) (hothers j b hji hb)
    · intro j k b c run hb hc hpb hpc
      rcases awaits_set rfl hb with ⟨hji, hb'⟩ | ⟨hji, hb'⟩
      · rcases awaits_set rfl hc with ⟨hki, -⟩ | ⟨hki, hc'⟩
        · rw [hji, hki]
        · exact (hpair k c b run hki hc' hb' hpc hpb).elim
      · rcases awaits_set rfl hc with ⟨hki, hc'⟩ | ⟨hki, hc'⟩
        · exact (hpair j b c run hji hb' hc' hpb hpc).elim
        · exact h.alone j k b c run hb' hc' hpb hpc
  · have hold : ∀ j b, World.awaits { w with calls := w.calls.set i { c with await := none } } j = some b →
        w.awaits j = some b := by
      intro j b hb
      rcases awaits_set rfl hb with ⟨-, hb⟩ | ⟨-, hb⟩
      · cases hb
      · exact hb
    exact ⟨h.sorted, h.before, h.single, fun j b hb => h.tracked j b (hold j b hb),
      fun j k b c run hb hc => h.alone j k b c run (hold j b hb) (hold k c hc)⟩
  · exact { h with }

theorem scanned_initial : Scanned {} where
  sorted := List.Pairwise.nil
  before := by simp [Stream.pelIds]
  single := by simp [outstanding]
  tracked := by simp [World.awaits]
  alone := by simp [World.awaits]

theorem Scanned.entries {w : World} (h : Scanned w) : Single w := by
  intro run
  have hnodup : (outstanding w.stream run).Nodup := List.nodup_range.filter _
  have hall := h.single run
  generalize outstanding w.stream run = ids at hnodup hall ⊢
  cases ids with
  | nil => simp
  | cons id ids =>
    cases ids with
    | nil => simp
    | cons id' ids =>
      obtain rfl := hall id id' (by simp) (by simp)
      simp at hnodup

end RedisQueue
end MyGpt
