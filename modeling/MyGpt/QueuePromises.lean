import MyGpt.QueueContract
/-!
# QueuePromises — a submitted run stays in the queue

A run that has been submitted keeps an outstanding entry until `ack` acknowledges it: `XREADGROUP` and `XAUTOCLAIM` only move
entries, `reclaim_stale` acknowledges an entry behind a younger one of the same run, and an `ack` that acknowledges an entry
acknowledges the older ones of the run too.
-/
namespace MyGpt
namespace RedisQueue

open Trace

/-! ## what the stream keeps -/

structure Sound (q : Stream) : Prop where
  trimmed : q.trimmed ≤ q.delivered
  delivered : q.delivered ≤ q.log.length
  pel : ∀ id ∈ q.pelIds, q.trimmed ≤ id ∧ id < q.delivered
  sorted : q.pelIds.Pairwise (· < ·)

def Replaced (q : Stream) (msg : Nat) (run : RunId) : Prop := msg ∈ q.pelIds → ∃ id ∈ outstanding q run, msg < id

/-- **What happens to the stream** while a call waits: entries and acknowledgements are only added, entries only leave the PEL
once they have been delivered, and nobody is forgotten. -/
structure Later (q : Stream) (acks : List RunId) (q' : Stream) (acks' : List RunId) : Prop where
  log : ∀ (id : Nat) (run : RunId), q.log[id]? = some run → q'.log[id]? = some run
  pel : ∀ id ∈ q'.pelIds, id ∈ q.pelIds ∨ q.delivered ≤ id
  delivered : q.delivered ≤ q'.delivered
  longer : acks.length ≤ acks'.length
  vouched : ∀ run since, since ≤ acks.length → Vouched q acks run since → Vouched q' acks' run since
  replaced : ∀ (msg : Nat) (run : RunId), msg < q.delivered → q.log[msg]? = some run → Replaced q msg run → Replaced q' msg run

theorem vouched_of_mem {q : Stream} {acks : List RunId} {run : RunId} {since id : Nat} (h : id ∈ outstanding q run) :
    Vouched q acks run since :=
  .inl (List.ne_nil_of_mem h)

theorem later_of_subset {q q' : Stream} (acks : List RunId)
    (log : ∀ (id : Nat) (run : RunId), q.log[id]? = some run → q'.log[id]? = some run)
    (pel : ∀ id ∈ q'.pelIds, id ∈ q.pelIds ∨ q.delivered ≤ id) (delivered : q.delivered ≤ q'.delivered)
    (out : ∀ run, ∀ id ∈ outstanding q run, id ∈ outstanding q' run) : Later q acks q' acks where
  log := log
  pel := pel
  delivered := delivered
  longer := Nat.le_refl _
  vouched := by
    intro run since _ h
    rcases h with hne | hack
    · obtain ⟨id, hid⟩ := List.exists_mem_of_ne_nil _ hne
      exact vouched_of_mem (out run id hid)
    · exact .inr hack
  replaced := by
    intro msg run hmsg _ h hpel
    obtain ⟨id, hid, hlt⟩ := h ((pel msg hpel).resolve_right (by omega))
    exact ⟨id, out run id hid, hlt⟩

theorem later_xack {q : Stream} {acks : List RunId} {ids : List Nat} {run : RunId} {marked : List RunId}
    (hids : ∀ id ∈ ids, q.log[id]? = some run)
    (hmarked : (∃ id ∈ ids, id ∈ q.pelIds) → run ∈ marked ∨ ∃ id ∈ outstanding (q.xack ids) run, ∀ msg ∈ ids, msg < id)
    (hold : ∀ id ∈ q.pelIds, q.log[id]? = some run → ∀ msg ∈ ids, msg ∈ q.pelIds → id < msg →
      id ∈ ids ∨ ∃ id' ∈ outstanding (q.xack ids) run, id < id') :
    Later q acks (q.xack ids) (acks ++ marked) where
  log := fun _ _ h => h
  pel := by
    rw [pelIds_xack]
    exact fun id hid => .inl (List.mem_of_mem_filter hid)
  delivered := Nat.le_refl _
  longer := by simp
  vouched := by
    intro r since hsince h
    rcases h with hne | hack
    · obtain ⟨id, hid⟩ := List.exists_mem_of_ne_nil _ hne
      by_cases hgone : id ∈ ids ∧ id ∈ q.pelIds
      · obtain rfl : r = run := Option.some.inj ((mem_outstanding.1 hid).1.symm.trans (hids id hgone.1))
        rcases hmarked ⟨id, hgone⟩ with hmark | ⟨id', hid', -⟩
        · refine .inr ?_
          rw [List.drop_append_of_le_length hsince]
          exact List.mem_append_right _ hmark
        · exact vouched_of_mem hid'
      · obtain ⟨hlog, hwait | hpel⟩ := mem_outstanding.1 hid
        · exact vouched_of_mem (mem_outstanding_xack.2 ⟨hlog, .inl hwait⟩)
        · exact vouched_of_mem (mem_outstanding_xack.2 ⟨hlog, .inr ⟨hpel, fun hin => hgone ⟨hin, hpel⟩⟩⟩)
    · refine .inr ?_
      rw [List.drop_append_of_le_length hsince]
      exact List.mem_append_left _ hack
  replaced := by
    intro msg r hmsg hlog h hpel
    rw [pelIds_xack, List.mem_filter] at hpel
    obtain ⟨id, hid, hlt⟩ := h hpel.1
    have hstay : msg ∉ ids := by simpa using hpel.2
    by_cases hgone : id ∈ ids ∧ id ∈ q.pelIds
    · obtain rfl : r = run := Option.some.inj ((mem_outstanding.1 hid).1.symm.trans (hids id hgone.1))
      rcases hold msg hpel.1 hlog id hgone.1 hgone.2 hlt with hin | hyounger
      · exact absurd hin hstay
      · exact hyounger
    · refine ⟨id, mem_outstanding_xack.2 ?_, hlt⟩
      obtain ⟨hlog', hwait | hpel'⟩ := mem_outstanding.1 hid
      · exact ⟨hlog', .inl hwait⟩
      · exact ⟨hlog', .inr ⟨hpel', fun hin => hgone ⟨hin, hpel'⟩⟩⟩

/-! ## the commands -/

section commands

variable {cfg : Settings} {q : Stream} {acks : List RunId}

theorem later_refl : Later q acks q acks :=
  later_of_subset acks (fun _ _ h => h) (fun _ h => .inl h) (Nat.le_refl _) (fun _ _ h => h)

theorem xadd_trimmed {run : RunId} {trim : Nat} (h : Sound q) (htrim : TrimsDone cfg q run trim) :
    (q.xadd cfg.maxlen run trim).trimmed ≤ q.delivered ∧
      ∀ id ∈ q.pelIds, (q.xadd cfg.maxlen run trim).trimmed ≤ id := by
  have hge : q.trimmed ≤ (q.xadd cfg.maxlen run trim).trimmed := Nat.le_add_right _ _
  constructor
  · by_contra hno
    have hcut := (htrim q.delivered h.trimmed (by omega)).1
    omega
  · intro id hid
    by_contra hno
    exact (htrim id (h.pel id hid).1 (by omega)).2 hid

theorem sound_xadd {run : RunId} {trim : Nat} (h : Sound q) (htrim : TrimsDone cfg q run trim) :
    Sound (q.xadd cfg.maxlen run trim) := by
  obtain ⟨hdelivered, hpel⟩ := xadd_trimmed h htrim
  refine ⟨hdelivered, ?_, fun id hid => ⟨hpel id hid, (h.pel id hid).2⟩, h.sorted⟩
  have hle := h.delivered
  simp only [xadd_delivered, xadd_log, List.length_append]
  omega

theorem later_xadd {run : RunId} {trim : Nat} (h : Sound q) (htrim : TrimsDone cfg q run trim) :
    Later q acks (q.xadd cfg.maxlen run trim) acks ∧ q.log.length ∈ outstanding (q.xadd cfg.maxlen run trim) run := by
  obtain ⟨hdelivered, -⟩ := xadd_trimmed h htrim
  have hlog : ∀ (id : Nat) (r : RunId), q.log[id]? = some r → (q.xadd cfg.maxlen run trim).log[id]? = some r := by
    intro id r hid
    rw [xadd_log, List.getElem?_append_left (List.getElem?_eq_some_iff.1 hid).1]
    exact hid
  refine ⟨later_of_subset acks hlog (fun _ hid => .inl hid) (Nat.le_refl _) ?_, ?_⟩
  · intro r id hid
    obtain ⟨hrun, hwait | hpel⟩ := mem_outstanding.1 hid
    · exact mem_outstanding.2 ⟨hlog id r hrun, .inl ⟨hwait.1, Nat.le_trans hdelivered hwait.1⟩⟩
    · exact mem_outstanding.2 ⟨hlog id r hrun, .inr hpel⟩
  · refine mem_outstanding.2 ⟨by rw [xadd_log, List.getElem?_concat_length], .inl ⟨h.delivered, ?_⟩⟩
    exact Nat.le_trans hdelivered h.delivered

theorem sound_xreadgroup (h : Sound q) (owner : Owner) (now : Nat) : Sound (q.xreadgroup owner now) := by
  have hless := less_xreadgroup h.sorted (fun id hid => (h.pel id hid).2) owner now
  have hnext : max q.delivered q.trimmed = q.delivered := Nat.max_eq_left h.trimmed
  have htrimmed := h.trimmed
  rcases xreadgroup_cases q owner now with heq | ⟨next, hid, hlt, heq⟩
  · rw [heq]
    exact h
  · rw [heq] at hless ⊢
    refine ⟨by simp only; omega, by simp only; omega, fun id hmem => ⟨?_, hless.before id hmem⟩, hless.sorted⟩
    simp only [Stream.pelIds, List.map_append, List.map_cons, List.map_nil, List.mem_append, List.mem_singleton] at hmem
    rcases hmem with hold | rfl
    · exact (h.pel id hold).1
    · simp only
      omega

theorem later_xreadgroup (h : Sound q) (owner : Owner) (now : Nat) : Later q acks (q.xreadgroup owner now) acks := by
  have hless := less_xreadgroup h.sorted (fun id hid => (h.pel id hid).2) owner now
  refine later_of_subset acks ?_ ?_ hless.delivered (fun run id hid => (mem_outstanding_xreadgroup owner now).2 hid)
  · rcases xreadgroup_cases q owner now with heq | ⟨next, -, -, heq⟩
    · rw [heq]
      exact fun _ _ hid => hid
    · rw [heq]
      exact fun _ _ hid => hid
  · rcases xreadgroup_cases q owner now with heq | ⟨next, hnext, -, heq⟩
    · rw [heq]
      exact fun _ hid => .inl hid
    · rw [heq]
      intro id hmem
      simp only [Stream.pelIds, List.map_append, List.map_cons, List.map_nil, List.mem_append, List.mem_singleton] at hmem
      rcases hmem with hold | rfl
      · exact .inl hold
      · exact .inr (by omega)

theorem sound_xack (h : Sound q) (ids : List Nat) : Sound (q.xack ids) := by
  refine ⟨h.trimmed, h.delivered, ?_, ?_⟩
  · rw [pelIds_xack]
    exact fun id hid => h.pel id (List.mem_of_mem_filter hid)
  · rw [pelIds_xack]
    exact h.sorted.filter _

theorem xautoclaim_spec (h : Sound q) (owner : Owner) (now limit : Nat) :
    (q.xautoclaim cfg owner now limit).1.pelIds = q.pelIds ∧
      ∀ e ∈ (q.xautoclaim cfg owner now limit).2, e.1 ∈ q.pelIds ∧ ∃ run, e.2 = some run ∧ q.log[e.1]? = some run := by
  have hbody : ∀ d ∈ q.pel, ∃ run, q.body d.id = some run ∧ q.log[d.id]? = some run := by
    intro d hd
    have hin := h.pel d.id (List.mem_map_of_mem hd)
    have hlen := h.delivered
    refine ⟨q.log[d.id], ?_, List.getElem?_eq_getElem _⟩
    rw [Stream.body, if_pos hin.1, List.getElem?_eq_getElem]
  constructor
  · have hall : q.pel.filter (fun d => !(cfg.dropsDeleted && (q.pel.take (10 * limit)).contains d && (q.body d.id).isNone)) =
        q.pel := by
      refine List.filter_eq_self.2 (fun d hd => ?_)
      obtain ⟨run, hrun, -⟩ := hbody d hd
      simp [hrun]
    simp only [Stream.xautoclaim, Stream.pelIds]
    rw [hall, List.map_map]
    refine List.map_congr_left (fun d _ => ?_)
    simp only [Function.comp_apply]
    split
    · rfl
    · rfl
  · intro e he
    obtain ⟨d, hd, rfl⟩ := List.mem_map.1 he
    have hpel : d ∈ q.pel := List.mem_of_mem_take (List.mem_of_mem_filter (List.mem_of_mem_take hd))
    obtain ⟨run, hrun, hlog⟩ := hbody d hpel
    exact ⟨List.mem_map_of_mem hpel, run, hrun, hlog⟩

end commands

/-! ## the calls -/

/-- An entry that `reclaim_stale` has claimed. -/
def Claimed (q : Stream) (e : Nat × Option RunId) : Prop :=
  e.1 < q.delivered ∧ ∃ run, e.2 = some run ∧ q.log[e.1]? = some run

/-- **What a call knows** about the entries it is going to act on. -/
def Knows (q : Stream) (acks : List RunId) (since : Nat) : Await → Prop
  | .group next => (∃ use, next = .pending use) ∨ (∃ owner, next = .read owner) ∨ ∃ owner limit, next = .claim owner limit
  | .range use ids => ids.Pairwise (· < ·) ∧ (∀ id ∈ ids, id < q.delivered) ∧
      (∀ id ∈ q.pelIds, ∀ msg ∈ ids, id < msg → id ∈ ids) ∧
      ∀ run, use = .enqueue run → ∀ id ∈ ids, q.log[id]? = some run → Vouched q acks run since
  | .acknowledge run ids => (∀ id ∈ ids, id < q.delivered ∧ q.log[id]? = some run) ∧
      ∀ id ∈ q.pelIds, q.log[id]? = some run → ∀ msg ∈ ids, id < msg → id ∈ ids
  | .readd run msg rest => Claimed q (msg, some run) ∧ ∀ e ∈ rest, Claimed q e
  | .confirm run msg rest => Claimed q (msg, some run) ∧ Replaced q msg run ∧ ∀ e ∈ rest, Claimed q e
  | .drop _ _ => False
  | _ => True

theorem claimed_later {q q' : Stream} {acks acks' : List RunId} (h : Later q acks q' acks') {e : Nat × Option RunId}
    (he : Claimed q e) : Claimed q' e := by
  obtain ⟨hlt, run, hrun, hlog⟩ := he
  exact ⟨Nat.lt_of_lt_of_le hlt h.delivered, run, hrun, h.log _ _ hlog⟩

theorem knows_later {q q' : Stream} {acks acks' : List RunId} {since : Nat} (hsound : Sound q) (h : Later q acks q' acks')
    (hsince : since ≤ acks.length) {a : Await} (ha : Knows q acks since a) : Knows q' acks' since a := by
  have hold : ∀ {ids : List Nat}, (∀ id ∈ ids, id < q.delivered) → ∀ id ∈ q'.pelIds, ∀ msg ∈ ids, id < msg → id ∈ q.pelIds := by
    intro ids hids id hid msg hmsg hlt
    have hmsg' := hids msg hmsg
    exact (h.pel id hid).resolve_right (by omega)
  have hlog : ∀ {id : Nat} {run : RunId}, id < q.delivered → q'.log[id]? = some run → q.log[id]? = some run := by
    intro id run hlt hid
    have hin : id < q.log.length := Nat.lt_of_lt_of_le hlt hsound.delivered
    have heq := h.log id q.log[id] (List.getElem?_eq_getElem hin)
    rw [List.getElem?_eq_getElem hin, ← heq]
    exact hid
  cases a with
  | range use ids =>
    obtain ⟨hsorted, hdelivered, hclosed, hvouched⟩ := ha
    refine ⟨hsorted, fun id hid => Nat.lt_of_lt_of_le (hdelivered id hid) h.delivered, ?_, ?_⟩
    · intro id hid msg hmsg hlt
      exact hclosed id (hold hdelivered id hid msg hmsg hlt) msg hmsg hlt
    · intro run huse id hid hrun
      exact h.vouched run since hsince (hvouched run huse id hid (hlog (hdelivered id hid) hrun))
  | acknowledge run ids =>
    obtain ⟨hids, hclosed⟩ := ha
    refine ⟨fun id hid => ⟨Nat.lt_of_lt_of_le (hids id hid).1 h.delivered, h.log _ _ (hids id hid).2⟩, ?_⟩
    intro id hid hrun msg hmsg hlt
    have hpel := hold (fun id hid => (hids id hid).1) id hid msg hmsg hlt
    exact hclosed id hpel (hlog (hsound.pel id hpel).2 hrun) msg hmsg hlt
  | readd run msg rest => exact ⟨claimed_later h ha.1, fun e he => claimed_later h (ha.2 e he)⟩
  | confirm run msg rest =>
    obtain ⟨hmsg, hreplaced, hrest⟩ := ha
    refine ⟨claimed_later h hmsg, ?_, fun e he => claimed_later h (hrest e he)⟩
    obtain ⟨hlt, run', hrun', hmsglog⟩ := hmsg
    cases hrun'
    exact h.replaced msg run hlt hmsglog hreplaced
  | _ => exact ha

theorem knows_reclaimNext {q : Stream} {acks : List RunId} {since : Nat} {l : List (Nat × Option RunId)}
    (h : ∀ e ∈ l, Claimed q e) {b : Await} (hb : reclaimNext l = some b) : Knows q acks since b := by
  cases l with
  | nil => cases hb
  | cons e l =>
    obtain ⟨msg, run⟩ := e
    have hmsg := h (msg, run) List.mem_cons_self
    obtain ⟨-, r, hrun, -⟩ := hmsg
    cases hrun
    cases hb
    exact ⟨h _ List.mem_cons_self, fun e he => h e (List.mem_cons_of_mem _ he)⟩

theorem mem_take_of_lt {ids : List Nat} (h : ids.Pairwise (· < ·)) {n id msg : Nat} (hid : id ∈ ids) (hmsg : msg ∈ ids.take n)
    (hlt : id < msg) : id ∈ ids.take n := by
  rw [← List.take_append_drop n ids] at hid h
  rcases List.mem_append.1 hid with hin | hout
  · exact hin
  · have hgt := (List.pairwise_append.1 h).2.2 msg hmsg id hout
    omega

theorem knows_scan {cfg : Settings} {q : Stream} {acks : List RunId} {since : Nat} (h : Sound q) (use : Use) (fault : Fault) :
    Knows q acks since (.range use (if fault = .none then q.xpendingRange cfg.scan else [])) := by
  generalize hids : (if fault = .none then q.xpendingRange cfg.scan else []) = ids
  have hcases : ids = q.pelIds.take cfg.scan ∨ ids = [] := by
    rw [← hids]
    unfold Stream.xpendingRange
    split
    · split
      · exact .inl rfl
      · exact .inr rfl
    · exact .inr rfl
  rcases hcases with rfl | rfl
  · refine ⟨h.sorted.sublist (List.take_sublist _ _), fun id hid => (h.pel id (List.mem_of_mem_take hid)).2, ?_, ?_⟩
    · exact fun id hid msg hmsg hlt => mem_take_of_lt h.sorted hid hmsg hlt
    · exact fun run _ id hid hrun => vouched_of_mem (mem_outstanding.2 ⟨hrun, .inr (List.mem_of_mem_take hid)⟩)
  · refine ⟨List.Pairwise.nil, ?_, ?_, ?_⟩
    · simp
    · simp
    · simp

/-- **What a command does to the stream and what the call knows then**; a submission that returns is vouched for. -/
structure Advances (cfg : Settings) (q : Stream) (acks : List RunId) (since now : Nat) (fault : Fault) (trim : Nat) (a : Await) :
    Prop where
  sound : Sound (a.exec cfg q now fault trim).1
  later : Later q acks (a.exec cfg q now fault trim).1 (acks ++ a.acks q fault)
  knows : ∀ b, (a.exec cfg q now fault trim).2 = some b →
    Knows (a.exec cfg q now fault trim).1 (acks ++ a.acks q fault) since b
  returns : ∀ run, (a.exec cfg q now fault trim).2 = none → a.submits = some run →
    Vouched (a.exec cfg q now fault trim).1 (acks ++ a.acks q fault) run since

section calls

variable {cfg : Settings} {q : Stream} {acks : List RunId} {since : Nat} (now : Nat) (fault : Fault) (trim : Nat)

theorem advances_pending (h : Sound q) (use : Use) : Advances cfg q acks since now fault trim (.pending use) := by
  have hscan : Knows q acks since (.range use (if fault = .none then q.xpendingRange cfg.scan else [])) := knows_scan h use fault
  refine ⟨h, by simpa [Await.exec, Await.acks] using later_refl, ?_, ?_⟩
  · intro b hb
    simp only [Await.exec, Await.acks, List.append_nil] at hb ⊢
    generalize (if fault = .none then q.xpendingRange cfg.scan else []) = ids at hscan hb
    split at hb
    · rcases afterScan_past hb with ⟨run, -, rfl, -⟩ | ⟨run, -, rfl⟩
      · trivial
      · exact ⟨by simp, by simp⟩
    · cases hb
      exact hscan
  · intro run hnone hsubmits
    cases use with
    | enqueue r =>
      simp only [Await.exec] at hnone
      generalize (if fault = .none then q.xpendingRange cfg.scan else []) = ids at hnone
      split at hnone
      · cases hnone
      · cases hnone
    | ack r => cases hsubmits

theorem advances_range (h : Sound q) {use : Use} {ids : List Nat} (ha : Knows q acks since (.range use ids)) :
    Advances cfg q acks since now fault trim (.range use ids) := by
  obtain ⟨hsorted, hdelivered, hclosed, hvouched⟩ := ha
  refine ⟨h, by simpa [Await.exec, Await.acks] using later_refl, ?_, ?_⟩
  · intro b hb
    simp only [Await.exec, Await.acks, List.append_nil] at hb ⊢
    rcases afterScan_past hb with ⟨run, -, rfl, -⟩ | ⟨run, -, rfl⟩
    · trivial
    · refine ⟨?_, ?_⟩
      · intro id hid
        obtain ⟨e, he, rfl⟩ := List.mem_map.1 hid
        obtain ⟨hfound, hrun⟩ := List.mem_filter.1 he
        obtain ⟨hrow, hin⟩ := List.mem_filter.1 hfound
        split at hrow
        · have hlog := of_mem_xrange hrow
          have heq : e.2 = run := by simpa using hrun
          rw [heq] at hlog
          exact ⟨hdelivered e.1 (by simpa using hin), hlog⟩
        · cases hrow
      · intro id hid hlog msg hmsg hlt
        obtain ⟨e, he, rfl⟩ := List.mem_map.1 hmsg
        obtain ⟨hfound, -⟩ := List.mem_filter.1 he
        obtain ⟨hrow, hin⟩ := List.mem_filter.1 hfound
        have hinids := hclosed id hid e.1 (by simpa using hin) hlt
        split at hrow
        · rename_i hnone
          have hseen := mem_xrange hsorted hinids (h.pel id hid).1 hlog
          rw [if_pos hnone]
          exact List.mem_map.2 ⟨(id, run), List.mem_filter.2 ⟨hseen, by simp⟩, rfl⟩
        · cases hrow
  · intro run hnone hsubmits
    cases use with
    | enqueue r =>
      obtain rfl : r = run := Option.some.inj hsubmits
      simp only [Await.exec, Await.acks, List.append_nil, afterScan] at hnone ⊢
      by_cases hfault : fault = .none
      · rw [if_pos hfault] at hnone
        split at hnone
        · rename_i hany
          obtain ⟨e, he, hrun⟩ := List.any_eq_true.1 hany
          obtain ⟨hrow, hin⟩ := List.mem_filter.1 he
          have hlog := of_mem_xrange hrow
          have heq : e.2 = r := by simpa using hrun
          rw [heq] at hlog
          exact hvouched r rfl e.1 (by simpa using hin) hlog
        · cases hnone
      · rw [if_neg hfault] at hnone
        cases hnone
    | ack r => cases hsubmits

theorem advances_acknowledge (h : Sound q) {run : RunId} {ids : List Nat} (ha : Knows q acks since (.acknowledge run ids)) :
    Advances cfg q acks since now fault trim (.acknowledge run ids) := by
  obtain ⟨hids, hclosed⟩ := ha
  by_cases hfailed : fault = .failed
  · refine ⟨?_, ?_, fun b hb => (by cases hb), fun r _ hs => (by cases hs)⟩
    · simpa [Await.exec, hfailed] using h
    · simpa [Await.exec, Await.acks, hfailed] using later_refl
  · refine ⟨?_, ?_, fun b hb => (by cases hb), fun r _ hs => (by cases hs)⟩
    · simpa [Await.exec, hfailed] using sound_xack h ids
    · have hlater : Later q acks (q.xack ids) (acks ++ Await.acks q fault (.acknowledge run ids)) := by
        refine later_xack (fun id hid => (hids id hid).2) ?_ ?_
        · rintro ⟨id, hid, hpel⟩
          refine .inl ?_
          have hany : ∃ id, id ∈ ids ∧ id ∈ q.pelIds := ⟨id, hid, hpel⟩
          simpa [Await.acks, hfailed] using hany
        · exact fun id hid hlog msg hmsg _ hlt => .inl (hclosed id hid hlog msg hmsg hlt)
      simpa [Await.exec, hfailed] using hlater

theorem advances_add (h : Sound q) {run : RunId} (hok : fault ≠ .failed) (htrim : TrimsDone cfg q run trim) :
    Advances cfg q acks since now fault trim (.add run) := by
  obtain ⟨hlater, hnew⟩ := @later_xadd cfg q acks run trim h htrim
  refine ⟨?_, ?_, fun b hb => (by cases hb), ?_⟩
  · simpa [Await.exec, hok] using sound_xadd h htrim
  · simpa [Await.exec, Await.acks, hok] using hlater
  · intro r _ hs
    obtain rfl : run = r := Option.some.inj hs
    simpa [Await.exec, Await.acks, hok] using vouched_of_mem hnew

theorem advances_read (h : Sound q) (owner : Owner) : Advances cfg q acks since now fault trim (.read owner) := by
  refine ⟨?_, ?_, fun b hb => (by cases hb), fun r _ hs => (by cases hs)⟩
  · simp only [Await.exec]
    split
    · exact h
    · exact sound_xreadgroup h owner now
  · simp only [Await.exec, Await.acks, List.append_nil]
    split
    · exact later_refl
    · exact later_xreadgroup h owner now

theorem advances_claim (h : Sound q) (owner : Owner) (limit : Nat) :
    Advances cfg q acks since now fault trim (.claim owner limit) := by
  obtain ⟨hpel, hclaimed⟩ := @xautoclaim_spec cfg q h owner now limit
  have hsound : Sound (q.xautoclaim cfg owner now limit).1 :=
    ⟨h.trimmed, h.delivered, by rw [hpel]; exact h.pel, by rw [hpel]; exact h.sorted⟩
  have hlater : Later q acks (q.xautoclaim cfg owner now limit).1 acks := by
    refine later_of_subset acks (fun _ _ hid => hid) (fun id hid => .inl (by rwa [hpel] at hid)) (Nat.le_refl _) ?_
    intro run id hid
    rw [mem_outstanding] at hid ⊢
    rw [hpel]
    exact hid
  refine ⟨?_, ?_, ?_, fun r _ hs => (by cases hs)⟩
  · simp only [Await.exec]
    split
    · exact h
    · exact hsound
  · simp only [Await.exec, Await.acks, List.append_nil]
    split
    · exact later_refl
    · exact hlater
  · intro b hb
    simp only [Await.exec] at hb ⊢
    split at hb
    · rename_i hnone
      rw [if_neg (by rw [hnone]; exact Fault.noConfusion)]
      refine knows_reclaimNext (fun e he => ?_) hb
      obtain ⟨hin, run, hrun, hlog⟩ := hclaimed e he
      exact claimed_later hlater ⟨(h.pel e.1 hin).2, run, hrun, hlog⟩
    · cases hb

theorem advances_readd (h : Sound q) {run : RunId} {msg : Nat} {rest : List (Nat × Option RunId)}
    (ha : Knows q acks since (.readd run msg rest)) (htrim : fault ≠ .failed → TrimsDone cfg q run trim) :
    Advances cfg q acks since now fault trim (.readd run msg rest) := by
  obtain ⟨hmsg, hrest⟩ := ha
  by_cases hfailed : fault = .failed
  · refine ⟨?_, ?_, ?_, fun r _ hs => (by cases hs)⟩
    · simpa [Await.exec, hfailed] using h
    · simpa [Await.exec, Await.acks, hfailed] using later_refl
    · intro b hb
      have hb' : reclaimNext rest = some b := by simpa [Await.exec, hfailed] using hb
      simpa [Await.exec, Await.acks, hfailed] using knows_reclaimNext hrest hb'
  · obtain ⟨hlater, hnew⟩ := @later_xadd cfg q acks run trim h (htrim hfailed)
    have hkept := fun e he => claimed_later hlater (hrest e he)
    refine ⟨?_, ?_, ?_, fun r _ hs => (by cases hs)⟩
    · simpa [Await.exec, hfailed] using sound_xadd h (htrim hfailed)
    · simpa [Await.exec, Await.acks, hfailed] using hlater
    · intro b hb
      simp only [Await.exec, if_neg hfailed, Await.acks, List.append_nil] at hb ⊢
      split at hb
      · cases hb
        refine ⟨claimed_later hlater hmsg, fun _ => ⟨_, hnew, ?_⟩, hkept⟩
        exact Nat.lt_of_lt_of_le hmsg.1 h.delivered
      · exact knows_reclaimNext hkept hb

theorem advances_confirm (h : Sound q) {run : RunId} {msg : Nat} {rest : List (Nat × Option RunId)}
    (ha : Knows q acks since (.confirm run msg rest)) : Advances cfg q acks since now fault trim (.confirm run msg rest) := by
  obtain ⟨hmsg, hreplaced, hrest⟩ := ha
  obtain ⟨-, run', hrun', hlog⟩ := hmsg
  cases hrun'
  have hlater : Later q acks (q.xack [msg]) (acks ++ []) := by
    have hyounger : msg ∈ q.pelIds → ∃ id ∈ outstanding (q.xack [msg]) run, msg < id := by
      intro hpel
      obtain ⟨id, hid, hlt⟩ := hreplaced hpel
      refine ⟨id, mem_outstanding_xack.2 ?_, hlt⟩
      obtain ⟨hidlog, hwait | hidpel⟩ := mem_outstanding.1 hid
      · exact ⟨hidlog, .inl hwait⟩
      · exact ⟨hidlog, .inr ⟨hidpel, by simp; omega⟩⟩
    refine @later_xack q acks [msg] run [] ?_ ?_ ?_
    · intro id hid
      obtain rfl := List.mem_singleton.1 hid
      exact hlog
    · rintro ⟨id, hid, hpel⟩
      obtain rfl := List.mem_singleton.1 hid
      obtain ⟨id', hid', hlt⟩ := hyounger hpel
      exact .inr ⟨id', hid', fun m hm => by rwa [List.mem_singleton.1 hm]⟩
    · intro id _ _ m hm hpel hlt
      obtain rfl := List.mem_singleton.1 hm
      obtain ⟨id', hid', hlt'⟩ := hyounger hpel
      exact .inr ⟨id', hid', Nat.lt_trans hlt hlt'⟩
  refine ⟨?_, ?_, ?_, fun r _ hs => (by cases hs)⟩
  · simp only [Await.exec]
    split
    · exact h
    · exact sound_xack h _
  · simp only [Await.exec, Await.acks]
    split
    · simpa using later_refl
    · exact hlater
  · intro b hb
    refine knows_reclaimNext (fun e he => ?_) hb
    simp only [Await.exec]
    split
    · exact hrest e he
    · exact claimed_later hlater (hrest e he)

theorem advances_group (h : Sound q) {next : Await} (ha : Knows q acks since (.group next)) :
    Advances cfg q acks since now fault trim (.group next) := by
  refine ⟨?_, ?_, ?_, fun r hn _ => (by cases hn)⟩
  · simp only [Await.exec]
    split
    · exact h
    · exact { h with }
  · simp only [Await.exec, Await.acks, List.append_nil]
    split
    · exact later_refl
    · exact later_of_subset acks (fun _ _ hid => hid) (fun _ hid => .inl hid) (Nat.le_refl _) (fun _ _ hid => hid)
  · intro b hb
    cases hb
    rcases ha with ⟨use, rfl⟩ | ⟨owner, rfl⟩ | ⟨owner, limit, rfl⟩
    · trivial
    · trivial
    · trivial

end calls

theorem advances {cfg : Settings} {w : World} {i : Nat} {fault : Fault} {trim since : Nat} {a : Await} (h : Sound w.stream)
    (ha : Knows w.stream w.acks since a) (hi : w.awaits i = some a) (hok : Sure cfg w (.resume i fault trim)) :
    Advances cfg w.stream w.acks since w.now fault trim a := by
  simp only [Sure] at hok
  rw [hi] at hok
  cases a with
  | group next => exact advances_group w.now fault trim h ha
  | pending use => exact advances_pending w.now fault trim h use
  | range use ids => exact advances_range w.now fault trim h ha
  | add run => exact advances_add w.now fault trim h hok.1 hok.2
  | acknowledge run ids => exact advances_acknowledge w.now fault trim h ha
  | read owner => exact advances_read w.now fault trim h owner
  | claim owner limit => exact advances_claim w.now fault trim h owner limit
  | readd run msg rest => exact advances_readd w.now fault trim h ha hok
  | confirm run msg rest => exact advances_confirm w.now fault trim h ha
  | drop msg rest => exact ha.elim

/-! ## the system -/

structure Promised (w : World) : Prop where
  sound : Sound w.stream
  begun : ∀ c ∈ w.calls, c.since ≤ w.acks.length
  knows : ∀ c ∈ w.calls, ∀ a, c.await = some a → Knows w.stream w.acks c.since a
  returned : ∀ p ∈ w.promises, p.2 ≤ w.acks.length
  kept : Kept w

theorem mem_promise {submits : Option RunId} {since : Nat} {next : Option Await} {p : RunId × Nat}
    (h : p ∈ promise submits since next) : next = none ∧ submits = some p.1 ∧ since = p.2 := by
  unfold promise at h
  split at h
  · rename_i hnone
    obtain ⟨run, hrun, rfl⟩ := List.mem_map.1 h
    exact ⟨Option.isNone_iff_eq_none.1 hnone, Option.mem_toList.1 hrun, rfl⟩
  · cases h

theorem promised_begin {cfg : Settings} {w : World} (h : Promised w) {op : Op} {initialized : Bool}
    (hok : Sure cfg w (.begin op initialized)) : Promised { w with
      calls := w.calls ++ [⟨op.start initialized, w.acks.length⟩]
      promises := w.promises ++ promise op.submits w.acks.length (op.start initialized) } := by
  have hfresh : ∀ a, op.start initialized = some a → Knows w.stream w.acks w.acks.length a := by
    intro a ha
    cases op with
    | enqueue run live =>
      cases live <;> cases initialized <;> cases ha
      · exact .inl ⟨_, rfl⟩
      · trivial
    | dequeue owner =>
      cases initialized <;> cases ha
      · exact .inr (.inl ⟨_, rfl⟩)
      · trivial
    | ack run =>
      cases initialized <;> cases ha
      · exact .inl ⟨_, rfl⟩
      · trivial
    | requeue run =>
      cases ha
      trivial
    | reclaimStale owner limit =>
      cases initialized <;> cases ha
      · exact .inr (.inr ⟨_, _, rfl⟩)
      · trivial
  refine ⟨h.sound, ?_, ?_, ?_, ?_⟩
  · intro c hc
    rcases List.mem_append.1 hc with hold | hnew
    · exact h.begun c hold
    · obtain rfl := List.mem_singleton.1 hnew
      exact Nat.le_refl _
  · intro c hc a ha
    rcases List.mem_append.1 hc with hold | hnew
    · exact h.knows c hold a ha
    · rw [List.mem_singleton.1 hnew] at ha ⊢
      exact hfresh a ha
  · intro p hp
    rcases List.mem_append.1 hp with hold | hnew
    · exact h.returned p hold
    · exact Nat.le_of_eq (mem_promise hnew).2.2.symm
  · intro p hp
    rcases List.mem_append.1 hp with hold | hnew
    · exact h.kept p hold
    · -- only a live lease lets a submission return at once
      obtain ⟨hnone, hsubmits, -⟩ := mem_promise hnew
      cases op with
      | enqueue run live =>
        cases live with
        | false => cases hnone
        | true =>
          cases hsubmits
          exact .inl hok
      | requeue run => cases hnone
      | dequeue | ack | reclaimStale => cases hsubmits

theorem promised_step {cfg : Settings} {w w' : World} {act : Action} (h : Promised w) (hok : Sure cfg w act)
    (hs : step cfg w act = some w') : Promised w' := by
  rcases step_cases hs with ⟨op, initialized, rfl, rfl⟩ | ⟨i, fault, trim, a, since, rfl, hcall, rfl⟩ |
    ⟨i, c, rfl, hcall, rfl⟩ | ⟨rfl, rfl⟩
  · exact promised_begin h hok
  · have hmem := List.mem_of_getElem? hcall
    have hadv := advances h.sound (h.knows _ hmem a rfl) (awaits_of_call hcall) hok
    have hsince := h.begun _ hmem
    refine ⟨hadv.sound, ?_, ?_, ?_, ?_⟩
    · intro c hc
      rcases List.mem_or_eq_of_mem_set hc with hold | rfl
      · exact Nat.le_trans (h.begun c hold) hadv.later.longer
      · exact Nat.le_trans hsince hadv.later.longer
    · intro c hc b hb
      rcases List.mem_or_eq_of_mem_set hc with hold | rfl
      · exact knows_later h.sound hadv.later (h.begun c hold) (h.knows c hold b hb)
      · exact hadv.knows b hb
    · intro p hp
      rcases List.mem_append.1 hp with hold | hnew
      · exact Nat.le_trans (h.returned p hold) hadv.later.longer
      · rw [← (mem_promise hnew).2.2]
        exact Nat.le_trans hsince hadv.later.longer
    · intro p hp
      rcases List.mem_append.1 hp with hold | hnew
      · exact hadv.later.vouched p.1 p.2 (h.returned p hold) (h.kept p hold)
      · obtain ⟨hnone, hsubmits, heq⟩ := mem_promise hnew
        rw [← heq]
        exact hadv.returns p.1 hnone hsubmits
  · have hmem := List.mem_of_getElem? hcall
    refine ⟨h.sound, ?_, ?_, h.returned, h.kept⟩
    · intro c' hc
      rcases List.mem_or_eq_of_mem_set hc with hold | rfl
      · exact h.begun c' hold
      · exact h.begun c hmem
    · intro c' hc b hb
      rcases List.mem_or_eq_of_mem_set hc with hold | rfl
      · exact h.knows c' hold b hb
      · cases hb
  · exact { h with }

theorem promised_initial : Promised {} where
  sound := ⟨Nat.le_refl _, Nat.le_refl _, by simp [Stream.pelIds], List.Pairwise.nil⟩
  begun := by simp
  knows := by simp
  returned := by simp
  kept := by simp [Kept]

/-- **The queue contract**, for every interleaving of the calls of all processes: a run has at most one outstanding entry while
runs get into the queue by `enqueue` alone and the scans see what is outstanding; and every submission that has returned is
outstanding until it is acknowledged, while the `XADD`s of submissions succeed and trim only acknowledged entries. -/
theorem queue_contract (cfg : Settings) :
    (∀ w, Runs (step cfg) (fun w act => EnqueueOnly act ∧ Seen cfg w act) {} w → Single w) ∧
      ∀ w, Runs (step cfg) (Sure cfg) {} w → Kept w := by
  constructor
  · intro w hruns
    have hscanned := hruns.invariant scanned_initial (fun _ _ _ h hok hs => scanned_step h hok hs)
    exact hscanned.entries
  · intro w hruns
    have hpromised := hruns.invariant promised_initial (fun _ _ _ h hok hs => promised_step h hok hs)
    exact hpromised.kept

section onerun

def submitted : World :=
  play (step {}) {} [.begin (.enqueue 7 false) false, .resume 0 .none 0, .resume 0 .none 0, .resume 0 .none 0]

theorem queue_contract_submitted : Single submitted ∧ Kept submitted := by
  refine ⟨(queue_contract {}).1 submitted ?_, (queue_contract {}).2 submitted ?_⟩
  · refine .next (.resume 0 .none 0) (.next (.resume 0 .none 0) (.next (.resume 0 .none 0)
      (.next (.begin (.enqueue 7 false) false) .refl ⟨trivial, trivial⟩ rfl) ⟨trivial, trivial⟩ rfl)
      ⟨trivial, ?_, ?_⟩ rfl) ⟨trivial, trivial⟩ rfl
    · intro id hid
      cases hid
    · intro j a ha
      cases j with
      | zero =>
        cases ha
        rfl
      | succ j => cases ha
  · refine .next (.resume 0 .none 0) (.next (.resume 0 .none 0) (.next (.resume 0 .none 0)
      (.next (.begin (.enqueue 7 false) false) .refl trivial rfl) trivial rfl) trivial rfl) ⟨Fault.noConfusion, ?_⟩ rfl
    intro id _ hid
    exact absurd hid (Nat.not_lt_zero id)

/-- **A run is in the queue twice when it is enqueued again before a worker takes it**, and it is not in the queue when its
`XADD` has failed. -/
theorem queue_breaks_contract :
    (∃ w, Runs (step {}) (fun _ act => EnqueueOnly act) {} w ∧ ¬ Single w) ∧
      ∃ w, Runs (step {}) (fun _ act => EnqueueOnly act) {} w ∧ ¬ Kept w := by
  constructor
  · refine ⟨_, .next (.resume 1 .none 0) (.next (.resume 1 .none 0) (.next (.begin (.enqueue 7 false) true)
      (.next (.resume 0 .none 0) (.next (.resume 0 .none 0) (.next (.resume 0 .none 0)
      (.next (.begin (.enqueue 7 false) false) .refl trivial rfl) trivial rfl) trivial rfl) trivial rfl) trivial rfl)
      trivial rfl) trivial rfl, fun hsingle => ?_⟩
    have htwo := hsingle 7
    revert htwo
    decide
  · refine ⟨_, .next (.resume 0 .failed 0) (.next (.resume 0 .none 0) (.next (.resume 0 .none 0)
      (.next (.begin (.enqueue 7 false) false) .refl trivial rfl) trivial rfl) trivial rfl) trivial rfl, fun hkept => ?_⟩
    have hlost := hkept (7, 0) (by decide)
    revert hlost
    unfold Vouched
    decide

end onerun

end RedisQueue
end MyGpt
