import MyGpt.CreditBooks
import MyGpt.Lib.Trace
/-!
# TurnHolds — a turn's hold and its return

Hold and return are two rows matched by the turn's key alone, and each is written once.  A repeated admission writes
nothing and still hands out a handle over the reserve of its own policy: after a change of the policy that handle gives
back more than was reserved, and after a return it stands for nothing (`raised_reserve_creates_credit`).  Where every
admission finds the turn as its own policy would have left it, the rows of a turn are those of one reservation
(`Reservation.Tells`) and nothing is created or lost (`turn_conserved`).
-/
namespace MyGpt
namespace Credit

open Trace (Runs Reaches exec play reaches_play)
open RunningTotal (total)

/-! ## the handles -/

/-- The database, and the handles that `admit_turn` has returned. -/
structure Turns where
  db : Db := {}
  holds : List TurnHold := []

def Turns.step (s : Turns) (c : Call) : Option Turns :=
  match c.op with
  | .admitTurn u turnKey fresh =>
    match admitTurn c.policy c.now fresh s.db u turnKey with
    | .ok (db, hold) => some { db := db, holds := s.holds ++ hold.toList }
    | .error _ => some s
  | .releaseTurnHold (some hold) => if hold ∈ s.holds then some { s with db := s.db.step c } else none
  | _ => some { s with db := s.db.step c }

/-! ## the rows of a turn -/

def CreditLedger.ofTurn (key : String) (row : CreditLedger) : Bool := row.reason.isHold && row.refId == some key

def Db.turnRows (db : Db) (key : String) : List CreditLedger := db.ledger.filter (·.ofTurn key)

def Db.turnTotal (db : Db) (key : String) : Int := total (·.delta) (db.turnRows key)

def Db.Reserves (db : Db) (hold : TurnHold) : Prop :=
  db.turnTotal hold.turnKey = -hold.amount ∧
    ∃ row ∈ db.turnRows hold.turnKey, row.reason = .turnHold ∧ row.userId = hold.userId ∧ row.delta = -hold.amount

/-- **Conservation of a turn's hold**: the rows never sum up to a gain; they cancel once there is a release, and after
every call of `release_turn_hold` with a handle of the turn; and an admission reserves what its handle says. -/
def TurnConserved (key : String) (ok : Turns → Call → Prop) (s : Turns) : Prop :=
  s.db.turnTotal key ≤ 0 ∧
    ((∃ row ∈ s.db.turnRows key, row.reason = .turnHoldRelease) → s.db.turnTotal key = 0) ∧
    (∀ hold ∈ s.holds, hold.turnKey = key → ∀ now db' row, releaseTurnHold now s.db (some hold) = .ok (db', row) →
      db'.turnTotal key = 0) ∧
    ∀ c u turnKey fresh db' hold, c.op = .admitTurn u turnKey fresh → turnKeyOr turnKey fresh = key → ok s c →
      admitTurn c.policy c.now fresh s.db u turnKey = .ok (db', some hold) → hold.turnKey = key ∧ db'.Reserves hold

/-- **The admissions that keep it**: where the account covers the reserve, the turn has no rows yet, or one hold of the
same user over the same reserve that was not given back. -/
def AdmitOk (key : String) (s : Turns) (c : Call) : Prop :=
  ∀ u turnKey fresh, c.op = .admitTurn u turnKey fresh → turnKeyOr turnKey fresh = key → c.policy.enforced = true →
    c.policy.reserve ≤ (lockedAccount s.db u).2.balance →
    ∀ row ∈ s.db.turnRows key, row.reason = .turnHold ∧ row.userId = u ∧ row.delta = -c.policy.reserve

/-! ## one reservation -/

inductive Reservation
  | none
  | held (userId : UserId) (amount : Int)
  | returned (userId : UserId) (amount : Int)

namespace Reservation

def settle : Reservation → Reservation
  | .none => .none
  | .held u amount => .returned u amount
  | .returned u amount => .returned u amount

def Backs (r : Reservation) (hold : TurnHold) : Prop :=
  r = .held hold.userId hold.amount ∨ r = .returned hold.userId hold.amount

end Reservation

structure CreditLedger.Holds (row : CreditLedger) (u : UserId) (amount : Int) : Prop where
  reason : row.reason = .turnHold
  refType : row.refType = some "turn_hold"
  userId : row.userId = u
  delta : row.delta = -amount
  pos : 0 < amount

structure CreditLedger.Returns (row : CreditLedger) (amount : Int) : Prop where
  reason : row.reason = .turnHoldRelease
  refType : row.refType = some "turn_hold_release"
  delta : row.delta = amount

/-- **The rows of a turn are those of this reservation.** -/
def Reservation.Tells : Reservation → List CreditLedger → Prop
  | .none, rows => rows = []
  | .held u amount, rows => ∃ h : CreditLedger, rows = [h] ∧ h.Holds u amount
  | .returned u amount, rows => ∃ h r : CreditLedger, rows = [h, r] ∧ h.Holds u amount ∧ r.Returns amount

section
variable {key : String} {db db' : Db} {resv : Reservation} {hold : TurnHold} {now : Int}

theorem Reservation.Backs.settle {r : Reservation} (h : r.Backs hold) : r.settle = .returned hold.userId hold.amount := by
  rcases h with rfl | rfl <;> rfl

theorem Reservation.Backs.of_settle {r : Reservation} (h : r.Backs hold) : r.settle.Backs hold := .inr h.settle

theorem Reservation.Tells.total_nonpos {rows : List CreditLedger} (h : resv.Tells rows) : total (·.delta) rows ≤ 0 := by
  cases resv with
  | none =>
    obtain rfl := h
    simp
  | held u amount =>
    obtain ⟨row, rfl, hrow⟩ := h
    have hpos := hrow.pos
    rw [RunningTotal.total_singleton, hrow.delta]
    omega
  | returned u amount =>
    obtain ⟨row, ret, rfl, hrow, hret⟩ := h
    have hboth : [row, ret] = [row] ++ [ret] := rfl
    rw [hboth, RunningTotal.total_append, RunningTotal.total_singleton, RunningTotal.total_singleton, hrow.delta, hret.delta]
    omega

theorem Reservation.Tells.total_returned {u : UserId} {amount : Int} {rows : List CreditLedger}
    (h : (Reservation.returned u amount).Tells rows) : total (·.delta) rows = 0 := by
  obtain ⟨row, ret, rfl, hrow, hret⟩ := h
  have hboth : [row, ret] = [row] ++ [ret] := rfl
  rw [hboth, RunningTotal.total_append, RunningTotal.total_singleton, RunningTotal.total_singleton, hrow.delta, hret.delta]
  omega

/-! ## what the operations do to the rows of a turn -/

theorem turnRows_concat {entry : CreditLedger} (h : db'.ledger = db.ledger ++ [entry]) :
    db'.turnRows key = db.turnRows key ++ if entry.ofTurn key then [entry] else [] := by
  unfold Db.turnRows
  rw [h, List.filter_append, List.filter_singleton]
  cases entry.ofTurn key <;> rfl

theorem clashes_iff (db : Db) (key : String) {reason : Reason} (refType : String) (hreason : reason.isHold = true) :
    db.ledger.any (·.clashes reason (some refType) (some key)) = true ↔
      ∃ row ∈ db.turnRows key, row.reason = reason ∧ row.refType = some refType := by
  rw [List.any_eq_true]
  unfold Db.turnRows CreditLedger.clashes CreditLedger.ofTurn
  constructor
  · rintro ⟨row, hrow, hclash⟩
    simp only [Option.isSome_some, Bool.true_and, Bool.and_eq_true, beq_iff_eq] at hclash
    obtain ⟨⟨htype, hid⟩, rfl⟩ := hclash
    exact ⟨row, List.mem_filter.2 ⟨hrow, by simp [hreason, hid]⟩, rfl, htype⟩
  · rintro ⟨row, hrow, rfl, htype⟩
    obtain ⟨hmem, hof⟩ := List.mem_filter.1 hrow
    rw [Bool.and_eq_true, beq_iff_eq] at hof
    exact ⟨row, hmem, by simp [htype, hof.2]⟩

/-- **What the locked read and the write do to the ledger**: nothing, where a row clashes, and otherwise one row more. -/
theorem lockedWrite_ledger {u : UserId} {delta : Int} {reason : Reason} {refType refId : Option String}
    {actorId : Option UserId} {note : Option String} {count : Bool} {r : Option CreditLedger}
    (h : writeEntry now (lockedAccount db u).1 u (lockedAccount db u).2 delta reason refType refId actorId note count =
      .ok (db', r)) :
    (db.ledger.any (·.clashes reason refType refId) = true ∧ db'.ledger = db.ledger) ∨
      (¬ db.ledger.any (·.clashes reason refType refId) = true ∧ ∃ entry : CreditLedger,
        db'.ledger = db.ledger ++ [entry] ∧ entry.userId = u ∧ entry.delta = delta ∧ entry.reason = reason ∧
          entry.refType = refType ∧ entry.refId = refId) := by
  obtain ⟨-, -, hledger, -⟩ := lockedAccount_spec db u
  unfold writeEntry at h
  dsimp only at h
  rw [hledger] at h
  split_ifs at h with _ hclash _
  · cases h
    exact .inl ⟨hclash, hledger⟩
  · cases h
    exact .inr ⟨hclash, _, rfl, rfl, rfl, rfl, rfl, rfl⟩

theorem turnRows_of_write {u : UserId} {delta : Int} {reason : Reason} {refType refId : Option String}
    {actorId : Option UserId} {note : Option String} {count : Bool} {r : Option CreditLedger}
    (h : writeEntry now (lockedAccount db u).1 u (lockedAccount db u).2 delta reason refType refId actorId note count =
      .ok (db', r)) (hother : reason.isHold = false ∨ refId ≠ some key) : db'.turnRows key = db.turnRows key := by
  rcases lockedWrite_ledger h with ⟨-, hsame⟩ | ⟨-, entry, hentry, -, -, hreason, -, hid⟩
  · unfold Db.turnRows
    rw [hsame]
  · have hof : entry.ofTurn key = false := by
      unfold CreditLedger.ofTurn
      rcases hother with hother | hother
      · simp [hreason, hother]
      · simp [hid, hother]
    rw [turnRows_concat hentry, hof]
    exact List.append_nil _

/-- **Giving back a handle of the reservation settles it**, the first time and every time. -/
theorem releaseHoldIn_tells {r : Option CreditLedger} (h : releaseHoldIn now db hold = .ok (db', r))
    (htells : resv.Tells (db.turnRows hold.turnKey)) (hbacks : resv.Backs hold) :
    resv.settle.Tells (db'.turnRows hold.turnKey) := by
  rw [hbacks.settle]
  have hclash := clashes_iff db hold.turnKey "turn_hold_release" (show Reason.turnHoldRelease.isHold = true from rfl)
  rcases lockedWrite_ledger h with ⟨hseen, hsame⟩ | ⟨hnew, entry, hentry, -, hdelta, hreason, htype, hid⟩
  · have hrows : db'.turnRows hold.turnKey = db.turnRows hold.turnKey := by
      unfold Db.turnRows
      rw [hsame]
    obtain ⟨row, hmem, hreason, -⟩ := hclash.1 hseen
    rw [hrows]
    rcases hbacks with rfl | rfl
    · -- only a hold is there, and it is no release
      obtain ⟨held, hheld, hholds⟩ := htells
      rw [hheld, List.mem_singleton] at hmem
      rw [hmem, hholds.reason] at hreason
      cases hreason
    · exact htells
  · have hof : entry.ofTurn hold.turnKey = true := by
      unfold CreditLedger.ofTurn
      simp [hreason, hid, Reason.isHold]
    rcases hbacks with rfl | rfl
    · obtain ⟨held, hheld, hholds⟩ := htells
      rw [turnRows_concat hentry, hof, hheld]
      exact ⟨held, entry, rfl, hholds, ⟨hreason, htype, hdelta⟩⟩
    · obtain ⟨held, ret, hrows, -, hret⟩ := htells
      refine absurd (hclash.2 ⟨ret, ?_, hret.reason, hret.refType⟩) hnew
      rw [hrows]
      exact List.mem_cons_of_mem _ List.mem_cons_self

theorem releaseHoldIn_other {r : Option CreditLedger} (h : releaseHoldIn now db hold = .ok (db', r))
    (hother : hold.turnKey ≠ key) : db'.turnRows key = db.turnRows key :=
  turnRows_of_write h (.inr (fun heq => hother (Option.some.inj heq)))

theorem releaseEach_tells (released : List String) : ∀ (entries : List CreditLedger) {resv : Reservation} {db db' : Db}
    {n : Nat}, releaseEach now released entries db = .ok (db', n) →
      (∀ entry ∈ entries, entry.refId = some key → resv.Backs ⟨entry.userId, key, -entry.delta⟩) →
      resv.Tells (db.turnRows key) → resv.Tells (db'.turnRows key) ∨ resv.settle.Tells (db'.turnRows key)
  | [], resv, db, db', n, h, _, htells => by
    cases h
    exact .inl htells
  | entry :: entries, resv, db, db', n, h, hbacks, htells => by
    have hrest : ∀ e ∈ entries, e.refId = some key → resv.Backs ⟨e.userId, key, -e.delta⟩ :=
      fun e he => hbacks e (List.mem_cons_of_mem _ he)
    unfold releaseEach at h
    split at h
    · exact releaseEach_tells released entries h hrest htells
    · rename_i entryKey hid
      split_ifs at h
      · exact releaseEach_tells released entries h hrest htells
      · split at h
        · cases h
        · rename_i db₁ row hone
          split at h
          · cases h
          · rename_i db₂ m hloop
            cases h
            by_cases hkey : entryKey = key
            · rw [hkey] at hone hid
              have hback := hbacks entry List.mem_cons_self hid
              have hsettled := releaseHoldIn_tells hone htells hback
              have hagain : resv.settle.settle = resv.settle := by rw [hback.settle, Reservation.settle]
              have hthen := releaseEach_tells released entries hloop (fun e he hkey => (hrest e he hkey).of_settle) hsettled
              rw [hagain, or_self] at hthen
              exact .inr hthen
            · exact releaseEach_tells released entries hloop hrest (by rwa [releaseHoldIn_other hone hkey])

theorem staleHolds_backed {cutoff : Int} {seen : CreditLedger → Bool} (htells : resv.Tells (db.turnRows key)) :
    ∀ entry ∈ staleHolds cutoff (db.ledger.filter seen), entry.refId = some key →
      resv.Backs ⟨entry.userId, key, -entry.delta⟩ := by
  intro entry hmem hid
  have hrow := (List.mem_filter.1 (List.mem_of_mem_take hmem))
  rw [Bool.and_eq_true, beq_iff_eq] at hrow
  have hturn : entry ∈ db.turnRows key :=
    List.mem_filter.2 ⟨(List.mem_filter.1 hrow.1).1, by simp [CreditLedger.ofTurn, hrow.2.1, Reason.isHold, hid]⟩
  cases resv with
  | none =>
    rw [htells] at hturn
    cases hturn
  | held u amount =>
    obtain ⟨held, hheld, hholds⟩ := htells
    obtain rfl := List.mem_singleton.1 (hheld ▸ hturn)
    refine .inl ?_
    rw [hholds.userId, hholds.delta, Int.neg_neg]
  | returned u amount =>
    obtain ⟨held, ret, hrows, hholds, hret⟩ := htells
    rcases List.mem_cons.1 (hrows ▸ hturn) with rfl | hmem
    · refine .inr ?_
      rw [hholds.userId, hholds.delta, Int.neg_neg]
    · obtain rfl := List.mem_singleton.1 hmem
      exact absurd (hret.reason.symm.trans hrow.2.1) (by decide)

theorem admitTurn_rows {policy : CreditPolicy} {fresh : String} {u : UserId} {turnKey : Option String}
    (h : admitTurn policy now fresh db u turnKey = .ok (db', some hold)) :
    policy.enforced = true ∧ policy.reserve ≤ (lockedAccount db u).2.balance ∧
      hold = ⟨u, turnKeyOr turnKey fresh, policy.reserve⟩ ∧
      (db'.ledger = db.ledger ∧ (∃ row ∈ db.turnRows hold.turnKey, row.reason = .turnHold) ∨
        ((∀ row ∈ db.turnRows hold.turnKey, ¬ (row.reason = .turnHold ∧ row.refType = some "turn_hold")) ∧
          ∃ entry : CreditLedger, db'.ledger = db.ledger ++ [entry] ∧ entry.refId = some hold.turnKey ∧
            entry.Holds u policy.reserve)) := by
  unfold admitTurn at h
  split_ifs at h with henforced
  · obtain ⟨-, hnone⟩ := Prod.mk.inj (Except.ok.inj h)
    cases hnone
  dsimp only at h
  split_ifs at h with hbalance
  split at h
  · cases h
  · rename_i hwrite
    obtain ⟨rfl, hhold⟩ := Prod.mk.inj (Except.ok.inj h)
    cases hhold
    refine ⟨by simpa using henforced, Int.not_lt.1 hbalance, rfl, ?_⟩
    have hclash := clashes_iff db (turnKeyOr turnKey fresh) "turn_hold" (show Reason.turnHold.isHold = true from rfl)
    have hpos : 0 < policy.reserve := by
      unfold CreditPolicy.reserve
      split <;> omega
    rcases lockedWrite_ledger hwrite with ⟨hseen, hsame⟩ | ⟨hnew, entry, hentry, huser, hdelta, hreason, htype, hid⟩
    · obtain ⟨row, hrow, hreason, -⟩ := hclash.1 hseen
      exact .inl ⟨hsame, row, hrow, hreason⟩
    · exact .inr ⟨fun row hrow hboth => hnew (hclash.2 ⟨row, hrow, hboth⟩), entry, hentry, hid, ⟨hreason, htype, huser, hdelta, hpos⟩⟩

theorem admitTurn_other {policy : CreditPolicy} {fresh : String} {u : UserId} {turnKey : Option String}
    {r : Option TurnHold} (h : admitTurn policy now fresh db u turnKey = .ok (db', r))
    (hother : turnKeyOr turnKey fresh ≠ key) : db'.turnRows key = db.turnRows key := by
  unfold admitTurn at h
  split_ifs at h
  · cases h
    rfl
  dsimp only at h
  split_ifs at h
  split at h
  · cases h
  · rename_i hwrite
    cases h
    exact turnRows_of_write hwrite (.inr (fun heq => hother (Option.some.inj heq)))

/-- **An admission that finds the turn as its own policy leaves it** reserves what its handle says. -/
theorem admitTurn_tells {policy : CreditPolicy} {fresh : String} {u : UserId} {turnKey : Option String}
    (h : admitTurn policy now fresh db u turnKey = .ok (db', some hold)) (htells : resv.Tells (db.turnRows hold.turnKey))
    (hok : policy.enforced = true → policy.reserve ≤ (lockedAccount db u).2.balance →
      ∀ row ∈ db.turnRows hold.turnKey, row.reason = .turnHold ∧ row.userId = u ∧ row.delta = -policy.reserve) :
    (Reservation.held hold.userId hold.amount).Tells (db'.turnRows hold.turnKey) ∧
      (resv = .none ∨ resv = .held hold.userId hold.amount) := by
  obtain ⟨henforced, hbalance, hhold, hrows⟩ := admitTurn_rows h
  have hfound := hok henforced hbalance
  rw [hhold] at hfound hrows htells ⊢
  cases resv with
  | none =>
    have hnone : db.turnRows (turnKeyOr turnKey fresh) = [] := htells
    rcases hrows with ⟨-, row, hrow, -⟩ | ⟨-, entry, hentry, hid, hholds⟩
    · rw [hnone] at hrow
      cases hrow
    · have hof : entry.ofTurn (turnKeyOr turnKey fresh) = true := by
        unfold CreditLedger.ofTurn
        simp [hholds.reason, hid, Reason.isHold]
      refine ⟨⟨entry, ?_, hholds⟩, .inl rfl⟩
      rw [turnRows_concat hentry, hof, hnone]
      rfl
  | held v amount =>
    obtain ⟨held, hheld, hholds⟩ := htells
    have hmem : held ∈ db.turnRows (turnKeyOr turnKey fresh) := by
      rw [hheld]
      exact List.mem_singleton_self held
    obtain ⟨-, huser, hdelta⟩ := hfound held hmem
    obtain rfl : v = u := hholds.userId.symm.trans huser
    obtain rfl : amount = policy.reserve := by
      have hboth := hholds.delta.symm.trans hdelta
      omega
    rcases hrows with ⟨hsame, -⟩ | ⟨hnew, -⟩
    · refine ⟨⟨held, ?_, hholds⟩, .inr rfl⟩
      unfold Db.turnRows at hheld ⊢
      rw [hsame, hheld]
    · exact absurd ⟨hholds.reason, hholds.refType⟩ (hnew held hmem)
  | returned v amount =>
    obtain ⟨held, ret, hboth, -, hret⟩ := htells
    have hmem : ret ∈ db.turnRows (turnKeyOr turnKey fresh) := by
      rw [hboth]
      exact List.mem_cons_of_mem _ List.mem_cons_self
    exact absurd (hret.reason.symm.trans (hfound ret hmem).1) (by decide)

theorem Reservation.Tells.reserves (h : (Reservation.held hold.userId hold.amount).Tells (db.turnRows hold.turnKey)) :
    db.Reserves hold := by
  obtain ⟨row, hrow, hholds⟩ := h
  refine ⟨?_, row, ?_, hholds.reason, hholds.userId, hholds.delta⟩
  · rw [Db.turnTotal, hrow, RunningTotal.total_singleton, hholds.delta]
  · rw [hrow]
    exact List.mem_singleton_self row

end

/-! ## the run -/

/-- **The invariant**: the turn's rows are those of one reservation, and so are the handles given out. -/
def TurnInv (key : String) (s : Turns) : Prop :=
  ∃ resv : Reservation, resv.Tells (s.db.turnRows key) ∧ ∀ hold ∈ s.holds, hold.turnKey = key → resv.Backs hold

theorem turnInv_init (key : String) : TurnInv key {} := ⟨.none, rfl, nofun⟩

theorem step_tells {db : Db} {key : String} {resv : Reservation} (c : Call) (htells : resv.Tells (db.turnRows key))
    (hadmission : ∀ u turnKey fresh, c.op ≠ .admitTurn u turnKey fresh)
    (hbacks : ∀ hold, c.op = .releaseTurnHold (some hold) → hold.turnKey = key → resv.Backs hold) :
    resv.Tells ((db.step c).turnRows key) ∨ resv.settle.Tells ((db.step c).turnRows key) := by
  unfold Db.step
  cases hrun : c.run db with
  | error e => exact .inl htells
  | ok db' =>
    have hsame : db'.turnRows key = db.turnRows key → resv.Tells (db'.turnRows key) := fun h => h ▸ htells
    obtain ⟨op, now, policy⟩ := c
    cases op with
    | admitTurn u turnKey fresh => exact absurd rfl (hadmission u turnKey fresh)
    | releaseTurnHold hold =>
      obtain ⟨r, h⟩ := map_fst_ok hrun
      cases hold with
      | none =>
        cases h
        exact .inl htells
      | some hold =>
        by_cases hkey : hold.turnKey = key
        · subst hkey
          exact .inr (releaseHoldIn_tells h htells (hbacks hold rfl rfl))
        · exact .inl (hsame (releaseHoldIn_other h hkey))
    | releaseStaleTurnHolds seenReleases seenHolds older =>
      obtain ⟨n, h⟩ := map_fst_ok hrun
      exact releaseEach_tells _ _ h (staleHolds_backed htells) htells
    | grant u amount reason refType refId actorId note =>
      obtain ⟨r, h⟩ := map_fst_ok hrun
      unfold grant at h
      split_ifs at h
      exact .inl (hsame (turnRows_of_write h (.inl (by cases reason <;> rfl))))
    | chargeUsage u amount refType refId note =>
      obtain ⟨r, h⟩ := map_fst_ok hrun
      unfold chargeUsage at h
      split_ifs at h
      · cases h
        exact .inl htells
      · exact .inl (hsame (turnRows_of_write h (.inl rfl)))
    | adjust u delta actorId note =>
      obtain ⟨r, h⟩ := map_fst_ok hrun
      unfold adjust at h
      split_ifs at h
      dsimp only at h
      split at h
      · cases h
      · cases h
      · rename_i hwrite
        cases h
        exact .inl (hsame (turnRows_of_write hwrite (.inl rfl)))

theorem turnInv_stepped {key : String} {s : Turns} (c : Call) (hinv : TurnInv key s)
    (hadmission : ∀ u turnKey fresh, c.op ≠ .admitTurn u turnKey fresh)
    (hissued : ∀ hold, c.op = .releaseTurnHold (some hold) → hold ∈ s.holds) :
    TurnInv key { s with db := s.db.step c } := by
  obtain ⟨resv, htells, hbacks⟩ := hinv
  rcases step_tells c htells hadmission (fun hold hop hkey => hbacks hold (hissued hold hop) hkey) with h | h
  · exact ⟨resv, h, hbacks⟩
  · exact ⟨resv.settle, h, fun hold hmem hkey => (hbacks hold hmem hkey).of_settle⟩

theorem turnInv_step {key : String} (s : Turns) (c : Call) (s' : Turns) (hinv : TurnInv key s) (hok : AdmitOk key s c)
    (h : s.step c = some s') : TurnInv key s' := by
  unfold Turns.step at h
  split at h
  · rename_i u turnKey fresh hop
    split at h
    · rename_i db hold hadmission
      cases h
      obtain ⟨resv, htells, hbacks⟩ := hinv
      by_cases hkey : turnKeyOr turnKey fresh = key
      · cases hold with
        | none =>
          have hsame : db.turnRows key = s.db.turnRows key := by
            unfold admitTurn at hadmission
            split_ifs at hadmission
            · cases hadmission
              rfl
            dsimp only at hadmission
            split_ifs at hadmission
            split at hadmission <;> cases hadmission
          refine ⟨resv, hsame ▸ htells, fun hold hmem => hbacks hold ?_⟩
          simpa using hmem
        | some hold =>
          obtain ⟨-, -, hhold, -⟩ := admitTurn_rows hadmission
          have hturn : hold.turnKey = key := by rw [hhold, hkey]
          subst hturn
          obtain ⟨hheld, hbefore⟩ := admitTurn_tells hadmission htells (hok u turnKey fresh hop hkey)
          refine ⟨_, hheld, fun hold' hmem hkey' => ?_⟩
          rcases List.mem_append.1 hmem with hmem | hmem
          · have hbacked := hbacks hold' hmem hkey'
            rcases hbefore with rfl | rfl
            · rcases hbacked with hnone | hnone <;> cases hnone
            · exact hbacked
          · obtain rfl := List.mem_singleton.1 hmem
            exact .inl rfl
      · refine ⟨resv, admitTurn_other hadmission hkey ▸ htells, fun hold' hmem hkey' => hbacks hold' ?_ hkey'⟩
        rcases List.mem_append.1 hmem with hmem | hmem
        · exact hmem
        · obtain rfl := Option.mem_toList.1 hmem
          obtain ⟨-, -, hhold, -⟩ := admitTurn_rows hadmission
          rw [hhold] at hkey'
          exact absurd hkey' hkey
    · cases h
      exact hinv
  · rename_i hold hop
    split_ifs at h with hmem
    cases h
    refine turnInv_stepped c hinv (fun u turnKey fresh => by rw [hop]; nofun) (fun hold' hop' => ?_)
    obtain rfl := Option.some.inj (Op.releaseTurnHold.inj (hop.symm.trans hop'))
    exact hmem
  · rename_i hadmission hrelease
    cases h
    exact turnInv_stepped c hinv (fun u turnKey fresh => hadmission u turnKey fresh) (fun hold hop => absurd hop (hrelease hold))

theorem turnConserved_of_inv {key : String} {s : Turns} (hinv : TurnInv key s) : TurnConserved key (AdmitOk key) s := by
  obtain ⟨resv, htells, hbacks⟩ := hinv
  refine ⟨htells.total_nonpos, ?_, fun hold hmem hkey now db' row h => ?_, ?_⟩
  · rintro ⟨row, hrow, hreason⟩
    cases resv with
    | none =>
      rw [htells] at hrow
      cases hrow
    | held u amount =>
      obtain ⟨held, hheld, hholds⟩ := htells
      obtain rfl := List.mem_singleton.1 (hheld ▸ hrow)
      exact absurd (hholds.reason.symm.trans hreason) (by decide)
    | returned u amount => exact htells.total_returned
  · subst hkey
    have hsettled := releaseHoldIn_tells h htells (hbacks hold hmem rfl)
    rw [(hbacks hold hmem rfl).settle] at hsettled
    exact hsettled.total_returned
  · intro c u turnKey fresh db' hold hop hkey hok h
    obtain ⟨-, -, hhold, -⟩ := admitTurn_rows h
    have hturn : hold.turnKey = key := by rw [hhold, hkey]
    subst hturn
    exact ⟨rfl, (admitTurn_tells h htells (hok u turnKey fresh hop hkey)).1.reserves⟩

/-- **Turn-hold conservation**: in every run whose admissions of a turn find it as their own policy leaves it. -/
theorem turn_conserved (key : String) (s : Turns) (h : Runs Turns.step (AdmitOk key) {} s) :
    TurnConserved key (AdmitOk key) s :=
  turnConserved_of_inv (h.invariant (turnInv_init key) turnInv_step)

def admitted : List Call :=
  [{ op := .grant 0 1000 .redeem none none none none },
    { op := .admitTurn 0 (some "t") "", policy := { enforced := true, turnReserve := 50 } }]

def admittedTwice : List Call :=
  admitted ++ [{ op := .admitTurn 0 (some "t") "", policy := { enforced := true, turnReserve := 50 } },
    { op := .releaseTurnHold (some ⟨0, "t", 50⟩) }]

theorem turn_conserved_repeated :
    TurnConserved "t" (AdmitOk "t") (play Turns.step {} admittedTwice) := by
  have hfirst : ∀ t ∈ exec Turns.step {} (admitted.take 1), ∀ row ∈ t.db.turnRows "t",
      row.reason = .turnHold ∧ row.userId = 0 ∧ row.delta = -50 := by decide +kernel
  have hsecond : ∀ t ∈ exec Turns.step {} admitted, ∀ row ∈ t.db.turnRows "t",
      row.reason = .turnHold ∧ row.userId = 0 ∧ row.delta = -50 := by decide +kernel
  obtain ⟨s, hs⟩ : ∃ s, exec Turns.step {} admittedTwice = some s := Option.isSome_iff_exists.1 (by decide +kernel)
  rw [play, hs]
  refine turn_conserved "t" s (Trace.runs_of_exec admittedTwice .refl hs (fun pre c post t hsplit ht => ?_))
  intro u turnKey fresh hop hkey henforced hbalance
  rcases pre with _ | ⟨c₀, _ | ⟨c₁, _ | ⟨c₂, _ | ⟨c₃, pre⟩⟩⟩⟩ <;> simp [admittedTwice, admitted] at hsplit
  · obtain ⟨rfl, -⟩ := hsplit
    cases hop
  · obtain ⟨rfl, rfl, -⟩ := hsplit
    cases hop
    exact hfirst t ht
  · obtain ⟨rfl, rfl, rfl, -⟩ := hsplit
    cases hop
    exact hsecond t ht
  · obtain ⟨rfl, rfl, rfl, rfl, -⟩ := hsplit
    cases hop

def raisedReserve : List Call :=
  admitted ++ [{ op := .admitTurn 0 (some "t") "", policy := { enforced := true, turnReserve := 100 } },
    { op := .releaseTurnHold (some ⟨0, "t", 100⟩) }]

/-- **The second handle gives back what was never reserved.** -/
theorem raised_reserve_creates_credit :
    ¬ ∀ (key : String) (s : Turns), Reaches Turns.step {} s → TurnConserved key (fun _ _ => True) s := by
  intro h
  have hsum := (h "t" (play Turns.step {} raisedReserve) (reaches_play (by decide +kernel))).1
  exact absurd hsum (by decide +kernel)

end Credit
end MyGpt
