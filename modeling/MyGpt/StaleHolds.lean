import MyGpt.CreditBooks
import MyGpt.Lib.Windows
import Mathlib.Data.List.Nodup
/-!
# StaleHolds — when the sweep of stale holds gets through

The sweep asks for any five hundred holds past the cutoff and leaves out of them those that have a release.  Those stay in
the ledger, so they fill the batch, and a hold behind them is never returned.
-/
namespace MyGpt
namespace Credit

open RunningTotal (total)
open Windows (Window Times)

/-! ## the sweep -/

def sweepCutoff (now olderThanSeconds : Int) : Int := now - max olderThanSeconds 60 * microsPerSecond

def CreditLedger.isStale (cutoff : Int) (row : CreditLedger) : Bool :=
  row.reason == .turnHold && decide (row.createdAt < cutoff)

def CreditLedger.owed (released : List String) (row : CreditLedger) : Bool := row.refId.any (fun key => !released.contains key)

def Db.unreleased (db : Db) (cutoff : Int) (row : CreditLedger) : Bool :=
  row.isStale cutoff && row.owed (releasedKeys db.ledger)

def Db.swept (db : Db) (now : Int) (win : List CreditLedger) : Db :=
  match releaseEach now (releasedKeys db.ledger) win db with
  | .ok (after, _) => after
  | .error _ => db

/-- `release_stale_turn_holds` in a transaction of its own: its query has a limit and no order. -/
def Sweeps (now olderThanSeconds : Int) (db db' : Db) : Prop :=
  ∃ win, Window (fun _ : CreditLedger => 0) 500 (db.ledger.filter (·.isStale (sweepCutoff now olderThanSeconds))) win ∧
    db' = db.swept now win

structure Releases (hold row : CreditLedger) : Prop where
  userId : row.userId = hold.userId
  delta : row.delta = -hold.delta
  reason : row.reason = .turnHoldRelease
  refType : row.refType = some "turn_hold_release"
  refId : row.refId = hold.refId

/-- **The sweep makes progress**: it only writes releases of stale holds that have none, each once; it releases one if there
is one; and after finitely many sweeps there is none. -/
structure SweepProgress (now olderThanSeconds : Int) (db : Db) : Prop where
  touches : ∀ db', Sweeps now olderThanSeconds db db' → ∃ holds rows : List CreditLedger, holds.Nodup ∧
    (∀ hold ∈ holds, hold ∈ db.ledger ∧ db.unreleased (sweepCutoff now olderThanSeconds) hold = true) ∧
      db'.ledger = db.ledger ++ rows ∧ List.Forall₂ Releases holds rows
  handles : (∃ hold ∈ db.ledger, db.unreleased (sweepCutoff now olderThanSeconds) hold = true) →
    ∀ db', Sweeps now olderThanSeconds db db' → ∃ hold ∈ db.ledger,
      db.unreleased (sweepCutoff now olderThanSeconds) hold = true ∧
        db'.unreleased (sweepCutoff now olderThanSeconds) hold = false
  finishes : ∃ k, ∀ db', Times (Sweeps now olderThanSeconds) k db db' → ∀ hold ∈ db'.ledger,
    db'.unreleased (sweepCutoff now olderThanSeconds) hold = false

def maxBigInt : Int := 9223372036854775807

def Db.balance (db : Db) (u : UserId) : Int := ((db.accounts u).getD {}).balance

def due (released : List String) (u : UserId) (entries : List CreditLedger) : Int :=
  total (fun e => -e.delta) (entries.filter (fun e => e.owed released && e.userId == u))

structure Room (db : Db) (released : List String) (entries : List CreditLedger) : Prop where
  amounts : ∀ e ∈ entries, e.owed released = true → -e.delta ≤ maxBigInt
  balances : ∀ u, db.balance u + due released u entries ≤ maxBigInt

def SweepFits (now olderThanSeconds : Int) (db : Db) : Prop :=
  (∀ hold ∈ db.ledger, db.unreleased (sweepCutoff now olderThanSeconds) hold = false) ∨
    (db.ledger.countP (·.isStale (sweepCutoff now olderThanSeconds)) ≤ 500 ∧
      Room db (releasedKeys db.ledger) (db.ledger.filter (·.isStale (sweepCutoff now olderThanSeconds))))

/-! ## the ledger as the operations keep it -/

structure Db.Kept (db : Db) : Prop where
  accounts : ∀ u a, db.accounts u = some a → a.fits = true
  unique : db.ledger.Pairwise (fun a b => a.clashes b.reason b.refType b.refId = false)
  holds : ∀ row ∈ db.ledger, row.reason = .turnHold →
    row.refType = some "turn_hold" ∧ row.delta < 0 ∧ ∃ key, row.refId = some key ∧ key.length ≤ 64

section
variable {now : Int} {db db' : Db}

theorem fits_new : ({} : CreditAccount).fits = true := by decide

theorem kept_lockedAccount (hk : db.Kept) (u : UserId) :
    (lockedAccount db u).1.Kept ∧ (lockedAccount db u).2.fits = true := by
  unfold lockedAccount
  cases hu : db.accounts u with
  | some a => exact ⟨hk, hk.accounts u a hu⟩
  | none =>
    refine ⟨⟨fun v a hv => ?_, hk.unique, hk.holds⟩, fits_new⟩
    by_cases hvu : v = u
    · rw [hvu, setAccount_self] at hv
      cases hv
      exact fits_new
    · rw [setAccount_ne db {} hvu] at hv
      exact hk.accounts v a hv

theorem kept_write (hk : db.Kept) {u : UserId} {delta : Int} {reason : Reason} {refType refId : Option String}
    {actorId : Option UserId} {note : Option String} {count : Bool} {r : Option CreditLedger}
    (hhold : reason = .turnHold → refType = some "turn_hold" ∧ delta < 0 ∧ refId.isSome = true)
    (h : writeEntry now (lockedAccount db u).1 u (lockedAccount db u).2 delta reason refType refId actorId note count =
      .ok (db', r)) : db'.Kept := by
  obtain ⟨hopen, -⟩ := kept_lockedAccount hk u
  unfold writeEntry at h
  dsimp only at h
  split_ifs at h with hvalues hclash hfits
  · cases h
    exact hopen
  · cases h
    refine ⟨fun v a hv => ?_, ?_, fun row hrow hreason => ?_⟩
    · by_cases hvu : v = u
      · rw [hvu] at hv
        rw [setAccount_self] at hv
        cases hv
        simpa using hfits
      · change (Db.setAccount _ u _).accounts v = some a at hv
        rw [setAccount_ne _ _ hvu] at hv
        exact hopen.accounts v a hv
    · refine List.pairwise_append.2 ⟨hopen.unique, List.pairwise_singleton _ _, fun a ha b hb => ?_⟩
      obtain rfl := List.mem_singleton.1 hb
      simpa using fun hc => hclash (List.any_eq_true.2 ⟨a, ha, hc⟩)
    · rcases List.mem_append.1 hrow with hold | hnew
      · exact hopen.holds row hold hreason
      · obtain rfl := List.mem_singleton.1 hnew
        obtain ⟨htype, hdelta, hid⟩ := hhold hreason
        obtain ⟨key, hkey⟩ := Option.isSome_iff_exists.1 hid
        refine ⟨htype, hdelta, key, hkey, ?_⟩
        subst hkey
        simp [refFits] at hvalues
        omega

theorem kept_releaseHoldIn (hk : db.Kept) {hold : TurnHold} {r : Option CreditLedger}
    (h : releaseHoldIn now db hold = .ok (db', r)) : db'.Kept := kept_write hk (fun hr => by cases hr) h

theorem kept_releaseEach (released : List String) : ∀ (entries : List CreditLedger) {db db' : Db} {n : Nat}, db.Kept →
    releaseEach now released entries db = .ok (db', n) → db'.Kept
  | [], db, db', n, hk, h => by
    cases h
    exact hk
  | entry :: entries, db, db', n, hk, h => by
    unfold releaseEach at h
    split at h
    · exact kept_releaseEach released entries hk h
    · split_ifs at h
      · exact kept_releaseEach released entries hk h
      · split at h
        · cases h
        · rename_i hone
          split at h
          · cases h
          · rename_i hrest
            cases h
            exact kept_releaseEach released entries (kept_releaseHoldIn hk hone) hrest

theorem reserve_pos (policy : CreditPolicy) : 0 < policy.reserve := by
  unfold CreditPolicy.reserve
  split <;> omega

theorem kept_step (hk : db.Kept) (c : Call) : (db.step c).Kept := by
  unfold Db.step
  cases hrun : c.run db with
  | error e => exact hk
  | ok db' =>
    obtain ⟨op, now, policy⟩ := c
    cases op with
    | grant u amount reason refType refId actorId note =>
      obtain ⟨r, h⟩ := map_fst_ok hrun
      unfold grant at h
      split_ifs at h
      exact kept_write hk (fun hr => by cases reason <;> cases hr) h
    | chargeUsage u amount refType refId note =>
      obtain ⟨r, h⟩ := map_fst_ok hrun
      unfold chargeUsage at h
      split_ifs at h
      · cases h
        exact hk
      · exact kept_write hk (fun hr => by cases hr) h
    | adjust u delta actorId note =>
      obtain ⟨r, h⟩ := map_fst_ok hrun
      unfold adjust at h
      split_ifs at h
      dsimp only at h
      split at h
      · cases h
      · cases h
      · rename_i hw
        cases h
        exact kept_write hk (fun hr => by cases hr) hw
    | admitTurn u turnKey fresh =>
      obtain ⟨r, h⟩ := map_fst_ok hrun
      unfold admitTurn at h
      split_ifs at h
      · cases h
        exact hk
      · dsimp only at h
        split_ifs at h
        split at h
        · cases h
        · rename_i hw
          cases h
          have hpos := reserve_pos policy
          exact kept_write hk (fun _ => ⟨rfl, by omega, rfl⟩) hw
    | releaseTurnHold hold =>
      obtain ⟨r, h⟩ := map_fst_ok hrun
      cases hold with
      | none =>
        cases h
        exact hk
      | some hold => exact kept_releaseHoldIn hk h
    | releaseStaleTurnHolds seenReleases seenHolds olderThanSeconds =>
      obtain ⟨r, h⟩ := map_fst_ok hrun
      exact kept_releaseEach _ _ hk h

theorem kept_runAll : ∀ (calls : List Call) {db : Db}, db.Kept → (db.runAll calls).Kept
  | [], _, hk => hk
  | c :: calls, _, hk => kept_runAll calls (kept_step hk c)

theorem kept_empty : ({} : Db).Kept where
  accounts := fun _ _ h => by cases h
  unique := List.Pairwise.nil
  holds := fun _ h => by cases h

end

/-! ## the loop -/

section
variable {now : Int} {db db' : Db} {released : List String}

structure Ready (db : Db) (released : List String) (entries : List CreditLedger) : Prop where
  accounts : ∀ u a, db.accounts u = some a → a.fits = true
  fresh : ∀ e ∈ entries, e.owed released = true → ∀ key, e.refId = some key → db.hasRef (releaseRef key) = false
  keys : ((entries.filter (·.owed released)).map (·.refId)).Nodup
  holds : ∀ e ∈ entries, e.delta < 0 ∧ ∃ key, e.refId = some key ∧ key.length ≤ 64

theorem balance_bounds (haccounts : ∀ u a, db.accounts u = some a → a.fits = true) (u : UserId) :
    -9223372036854775808 ≤ db.balance u ∧ db.balance u ≤ maxBigInt := by
  unfold Db.balance maxBigInt
  cases hu : db.accounts u with
  | none => decide
  | some a =>
    have hfits := haccounts u a hu
    simp only [CreditAccount.fits, fitsBigInt, Bool.and_eq_true, decide_eq_true_eq] at hfits
    exact hfits.1.1

theorem lockedAccount_balance (db : Db) (u : UserId) : (lockedAccount db u).2 = (db.accounts u).getD {} := by
  unfold lockedAccount
  cases db.accounts u <;> rfl

theorem fits_apply {a : CreditAccount} (ha : a.fits = true) {amount : Int} (h : fitsBigInt (a.balance + amount) = true) :
    (a.apply amount false).fits = true := by
  unfold CreditAccount.fits at ha ⊢
  simp only [Bool.and_eq_true] at ha ⊢
  exact ⟨⟨h, ha.1.2⟩, ha.2⟩

/-- **One release**: a row and the amount, where the columns hold it, and an error where they do not. -/
theorem releaseHoldIn_fresh (now : Int) (haccounts : ∀ u a, db.accounts u = some a → a.fits = true) {hold : TurnHold}
    (hfresh : db.hasRef (releaseRef hold.turnKey) = false) (hkey : hold.turnKey.length ≤ 64) (hpos : 0 < hold.amount) :
    match releaseHoldIn now db hold with
    | .ok (db', _) => (hold.amount ≤ maxBigInt ∧ db.balance hold.userId + hold.amount ≤ maxBigInt) ∧
        (∀ u a, db'.accounts u = some a → a.fits = true) ∧
        (∀ u, db'.balance u = db.balance u + if u = hold.userId then hold.amount else 0) ∧
        ∃ row, db'.ledger = db.ledger ++ [row] ∧ row.userId = hold.userId ∧ row.delta = hold.amount ∧
          row.reason = .turnHoldRelease ∧ row.refType = some "turn_hold_release" ∧ row.refId = some hold.turnKey
    | .error _ => ¬ (hold.amount ≤ maxBigInt ∧ db.balance hold.userId + hold.amount ≤ maxBigInt) := by
  obtain ⟨-, hacc, hledger, -⟩ := lockedAccount_spec db hold.userId
  have hbalance : (lockedAccount db hold.userId).2.balance = db.balance hold.userId := by
    rw [lockedAccount_balance]
    rfl
  have hfits : (lockedAccount db hold.userId).2.fits = true := by
    rw [lockedAccount_balance]
    cases hu : db.accounts hold.userId with
    | none => exact fits_new
    | some a => exact haccounts _ a hu
  have hlow := (balance_bounds haccounts hold.userId).1
  have hrefs : refFits (some "turn_hold_release") (some hold.turnKey) = true := by
    unfold refFits
    simpa using ⟨by decide, hkey⟩
  have hclash : ¬ (lockedAccount db hold.userId).1.ledger.any
      (·.clashes .turnHoldRelease (some "turn_hold_release") (some hold.turnKey)) = true := by
    rw [hledger]
    exact Bool.not_eq_true _ ▸ hfresh
  have hvalues : (fitsBigInt hold.amount && fitsBigInt ((lockedAccount db hold.userId).2.balance + hold.amount)
      && refFits (some "turn_hold_release") (some hold.turnKey)) = true ↔
      hold.amount ≤ maxBigInt ∧ db.balance hold.userId + hold.amount ≤ maxBigInt := by
    rw [hrefs, hbalance, Bool.and_true, Bool.and_eq_true]
    simp only [fitsBigInt, Bool.and_eq_true, decide_eq_true_eq, maxBigInt]
    omega
  unfold releaseHoldIn writeEntry
  dsimp only
  rw [if_neg hclash]
  by_cases hroom : hold.amount ≤ maxBigInt ∧ db.balance hold.userId + hold.amount ≤ maxBigInt
  · have hall := hvalues.2 hroom
    have happly : ((lockedAccount db hold.userId).2.apply hold.amount false).fits = true := by
      refine fits_apply hfits ?_
      simp only [Bool.and_eq_true] at hall
      exact hall.1.2
    rw [hall, happly]
    refine ⟨hroom, fun u a hu => ?_, fun u => ?_, _, by rw [← hledger], rfl, rfl, rfl, rfl, rfl⟩
    · change (Db.setAccount _ hold.userId _).accounts u = some a at hu
      by_cases heq : u = hold.userId
      · rw [heq, setAccount_self] at hu
        cases hu
        exact happly
      · rw [setAccount_ne _ _ heq] at hu
        unfold lockedAccount at hu
        cases hmine : db.accounts hold.userId with
        | some b =>
          rw [hmine] at hu
          exact haccounts u a hu
        | none =>
          rw [hmine] at hu
          exact haccounts u a ((setAccount_ne db {} heq).symm.trans hu)
    · show ((Db.setAccount _ hold.userId _).accounts u |>.getD {}).balance = _
      by_cases heq : u = hold.userId
      · rw [heq, setAccount_self, if_pos rfl, ← hbalance]
        rfl
      · rw [setAccount_ne _ _ heq, if_neg heq, Int.add_zero]
        unfold lockedAccount Db.balance
        cases hmine : db.accounts hold.userId with
        | some b => rfl
        | none =>
          rw [setAccount_ne db {} heq]
  · have hall : (fitsBigInt hold.amount && fitsBigInt ((lockedAccount db hold.userId).2.balance + hold.amount)
        && refFits (some "turn_hold_release") (some hold.turnKey)) = false := by
      rw [← Bool.not_eq_true]
      exact fun h => hroom (hvalues.1 h)
    rw [hall]
    exact hroom

theorem due_cons (u : UserId) (e : CreditLedger) (entries : List CreditLedger) :
    due released u (e :: entries) = (if e.owed released = true ∧ u = e.userId then -e.delta else 0) + due released u entries := by
  unfold due total
  rw [List.filter_cons]
  by_cases h : e.owed released = true ∧ u = e.userId
  · rw [if_pos (by simp [h.1, h.2]), if_pos h, List.map_cons, List.sum_cons]
  · rw [if_neg (by simpa using fun ho hu => h ⟨ho, hu.symm⟩), if_neg h, Int.zero_add]

theorem due_nonneg (released : List String) (u : UserId) : ∀ {entries : List CreditLedger}, (∀ e ∈ entries, e.delta < 0) → 0 ≤ due released u entries
  | [], _ => le_refl _
  | e :: entries, h => by
    rw [due_cons]
    have hhead := h e List.mem_cons_self
    have hrest := due_nonneg released u (fun e' he' => h e' (List.mem_cons_of_mem _ he'))
    split <;> omega

theorem room_cons {e : CreditLedger} {entries : List CreditLedger} {db₁ : Db} (howed : e.owed released = true)
    (hamount : -e.delta ≤ maxBigInt)
    (hbalance : ∀ u, db₁.balance u = db.balance u + if u = e.userId then -e.delta else 0) :
    Room db₁ released entries ↔ Room db released (e :: entries) := by
  have hsum : ∀ u, db₁.balance u + due released u entries = db.balance u + due released u (e :: entries) := by
    intro u
    rw [hbalance, due_cons]
    simp only [howed, true_and]
    omega
  constructor
  · rintro ⟨hamounts, hbalances⟩
    refine ⟨fun e' he' ho => ?_, fun u => hsum u ▸ hbalances u⟩
    rcases List.mem_cons.1 he' with rfl | hrest
    · exact hamount
    · exact hamounts e' hrest ho
  · rintro ⟨hamounts, hbalances⟩
    exact ⟨fun e' he' => hamounts e' (List.mem_cons_of_mem _ he'), fun u => (hsum u).symm ▸ hbalances u⟩

theorem room_skip {e : CreditLedger} {entries : List CreditLedger} (howed : e.owed released = false) :
    Room db released entries ↔ Room db released (e :: entries) := by
  have hsum : ∀ u, due released u (e :: entries) = due released u entries := by
    intro u
    rw [due_cons, howed, if_neg (fun h => by cases h.1), Int.zero_add]
  constructor
  · rintro ⟨hamounts, hbalances⟩
    refine ⟨fun e' he' ho => ?_, fun u => (hsum u).symm ▸ hbalances u⟩
    rcases List.mem_cons.1 he' with rfl | hrest
    · rw [howed] at ho
      cases ho
    · exact hamounts e' hrest ho
  · rintro ⟨hamounts, hbalances⟩
    exact ⟨fun e' he' => hamounts e' (List.mem_cons_of_mem _ he'), fun u => hsum u ▸ hbalances u⟩

theorem ready_tail {e : CreditLedger} {entries : List CreditLedger} (h : Ready db released (e :: entries)) :
    Ready db released entries where
  accounts := h.accounts
  fresh := fun e' he' => h.fresh e' (List.mem_cons_of_mem _ he')
  keys := by
    have hkeys := h.keys
    rw [List.filter_cons] at hkeys
    split at hkeys
    · exact (List.nodup_cons.1 hkeys).2
    · exact hkeys
  holds := fun e' he' => h.holds e' (List.mem_cons_of_mem _ he')

theorem ready_released {e : CreditLedger} {entries : List CreditLedger} (h : Ready db released (e :: entries))
    (howed : e.owed released = true) {key : String} (hkey : e.refId = some key) {db₁ : Db}
    (haccounts : ∀ u a, db₁.accounts u = some a → a.fits = true) {row : CreditLedger} (hledger : db₁.ledger = db.ledger ++ [row])
    (hrow : row.refId = some key) : Ready db₁ released entries where
  accounts := haccounts
  fresh := by
    intro e' he' ho' key' hkey'
    have hold := h.fresh e' (List.mem_cons_of_mem _ he') ho' key' hkey'
    have hkeys := h.keys
    rw [List.filter_cons_of_pos (by simpa using howed), List.map_cons, List.nodup_cons] at hkeys
    have hne : key' ≠ key := by
      rintro rfl
      refine hkeys.1 (List.mem_map.2 ⟨e', List.mem_filter.2 ⟨he', ho'⟩, ?_⟩)
      rw [hkey', hkey]
    unfold Db.hasRef at hold ⊢
    rw [hledger, List.any_append, hold, Bool.false_or]
    simp [CreditLedger.clashes, releaseRef, hrow, hne.symm]
  keys := (ready_tail h).keys
  holds := (ready_tail h).holds

/-- **The loop**: every hold it does not skip is released, or the columns are too small and nothing is. -/
theorem releaseEach_ready (now : Int) : ∀ (entries : List CreditLedger) {db : Db}, Ready db released entries →
    match releaseEach now released entries db with
    | .ok (db', _) => Room db released entries ∧
        ∃ rows, db'.ledger = db.ledger ++ rows ∧ List.Forall₂ Releases (entries.filter (·.owed released)) rows
    | .error _ => ¬ Room db released entries
  | [], db, h => by
    refine ⟨⟨fun e he => (by cases he), fun u => ?_⟩, [], (List.append_nil _).symm, .nil⟩
    have hbound := (balance_bounds h.accounts u).2
    have hnone : due released u [] = 0 := rfl
    omega
  | e :: entries, db, h => by
    obtain ⟨hneg, key, hkey, hlength⟩ := h.holds e List.mem_cons_self
    unfold releaseEach
    rw [hkey]
    dsimp only
    by_cases hskip : released.contains key = true
    · -- it has a release
      have howed : e.owed released = false := by simpa [CreditLedger.owed, hkey] using hskip
      rw [if_pos hskip, List.filter_cons_of_neg (by simp [howed])]
      have hrest := releaseEach_ready now entries (ready_tail h)
      split at hrest
      · exact ⟨(room_skip howed).1 hrest.1, hrest.2⟩
      · exact fun hroom => hrest ((room_skip howed).2 hroom)
    · have howed : e.owed released = true := by simpa [CreditLedger.owed, hkey] using hskip
      rw [if_neg hskip, List.filter_cons_of_pos (by simpa using howed)]
      have hone := @releaseHoldIn_fresh db now h.accounts ⟨e.userId, key, -e.delta⟩
        (h.fresh e List.mem_cons_self howed key hkey) hlength (by show 0 < -e.delta; omega)
      cases hrelease : releaseHoldIn now db ⟨e.userId, key, -e.delta⟩ with
      | error err =>
        rw [hrelease] at hone
        intro hroom
        refine hone ⟨hroom.amounts e List.mem_cons_self howed, ?_⟩
        have hbalance := hroom.balances e.userId
        have hlater := due_nonneg released e.userId (fun e' he' => ((ready_tail h).holds e' he').1)
        rw [due_cons, if_pos ⟨howed, rfl⟩] at hbalance
        show db.balance e.userId + -e.delta ≤ maxBigInt
        omega
      | ok result =>
        obtain ⟨db₁, r⟩ := result
        rw [hrelease] at hone
        obtain ⟨⟨hamount, -⟩, haccounts, hbalance, row, hledger, huser, hdelta, hreason, htype, hid⟩ := hone
        dsimp only
        have hrest := releaseEach_ready now entries (ready_released h howed hkey haccounts hledger hid)
        have hroom := @room_cons db released e entries db₁ howed hamount hbalance
        split at hrest
        · rename_i heq
          rw [heq]
          obtain ⟨hfits, rows, hrows, hall⟩ := hrest
          refine ⟨hroom.1 hfits, row :: rows, ?_, .cons ⟨huser, hdelta, hreason, htype, hid.trans hkey.symm⟩ hall⟩
          rw [hrows, hledger, List.append_assoc]
          rfl
        · rename_i heq
          rw [heq]
          exact fun hall => hrest (hroom.2 hall)

end

/-! ## sweeps -/

section
variable {now olderThanSeconds cutoff : Int} {db db' : Db}

theorem mem_releasedKeys {key : String} {rows : List CreditLedger} :
    key ∈ releasedKeys rows ↔ ∃ row ∈ rows, row.reason = .turnHoldRelease ∧ row.refId = some key := by
  unfold releasedKeys
  rw [List.mem_filterMap]
  constructor
  · rintro ⟨row, hrow, hid⟩
    obtain ⟨hmem, hreason⟩ := List.mem_filter.1 hrow
    exact ⟨row, hmem, by simpa using hreason, hid⟩
  · rintro ⟨row, hmem, hreason, hid⟩
    exact ⟨row, List.mem_filter.2 ⟨hmem, by simp [hreason]⟩, hid⟩

theorem isStale_reason {row : CreditLedger} (h : row.isStale cutoff = true) : row.reason = .turnHold := by
  unfold CreditLedger.isStale at h
  simp only [Bool.and_eq_true, beq_iff_eq] at h
  exact h.1

theorem owed_iff {released : List String} {row : CreditLedger} {key : String} (hid : row.refId = some key) :
    row.owed released = true ↔ key ∉ released := by
  unfold CreditLedger.owed
  rw [hid]
  simp

theorem stale_keys (hk : db.Kept) (cutoff : Int) : ((db.ledger.filter (·.isStale cutoff)).map (·.refId)).Nodup := by
  refine List.pairwise_map.2 (List.Pairwise.imp_of_mem ?_ (hk.unique.filter _))
  intro a b ha hb hclash heq
  obtain ⟨hma, hsa⟩ := List.mem_filter.1 ha
  obtain ⟨hmb, hsb⟩ := List.mem_filter.1 hb
  obtain ⟨hta, -, key, hida, -⟩ := hk.holds a hma (isStale_reason hsa)
  obtain ⟨htb, -, -⟩ := hk.holds b hmb (isStale_reason hsb)
  rw [← heq] at hclash
  simp [CreditLedger.clashes, hta, htb, hida, isStale_reason hsa, isStale_reason hsb] at hclash

theorem window_keys (hk : db.Kept) {win : List CreditLedger}
    (hwin : Window (fun _ : CreditLedger => 0) 500 (db.ledger.filter (·.isStale cutoff)) win) :
    (win.map (·.refId)).Nodup := by
  obtain ⟨l, hperm, -, rfl⟩ := hwin
  exact (((List.take_sublist 500 l).map _).nodup ((hperm.map (·.refId)).nodup_iff.2 (stale_keys hk cutoff)))

theorem ready_window (hk : db.Kept) {win : List CreditLedger}
    (hwin : Window (fun _ : CreditLedger => 0) 500 (db.ledger.filter (·.isStale cutoff)) win) :
    Ready db (releasedKeys db.ledger) win where
  accounts := hk.accounts
  fresh := by
    intro e _ howed key hid
    unfold Db.hasRef
    rw [List.any_eq_false]
    intro row hrow hclash
    simp only [CreditLedger.clashes, releaseRef, Bool.and_eq_true, beq_iff_eq] at hclash
    exact (owed_iff hid).1 howed (mem_releasedKeys.2 ⟨row, hrow, hclash.2, hclash.1.2⟩)
  keys := ((List.filter_sublist.map _).nodup (window_keys hk hwin))
  holds := by
    intro e he
    obtain ⟨hmem, hstale⟩ := List.mem_filter.1 (hwin.mem he)
    obtain ⟨-, hneg, hkey⟩ := hk.holds e hmem (isStale_reason hstale)
    exact ⟨hneg, hkey⟩

/-- **What a sweep does**: it releases every hold of its batch that has no release, or it raises and does nothing. -/
theorem swept_spec (now : Int) (hk : db.Kept) {win : List CreditLedger}
    (hwin : Window (fun _ : CreditLedger => 0) 500 (db.ledger.filter (·.isStale cutoff)) win) :
    (db.swept now win).Kept ∧ ((Room db (releasedKeys db.ledger) win ∧ ∃ rows, (db.swept now win).ledger = db.ledger ++ rows ∧
        List.Forall₂ Releases (win.filter (·.owed (releasedKeys db.ledger))) rows) ∨
      (¬ Room db (releasedKeys db.ledger) win ∧ db.swept now win = db)) := by
  have hloop := releaseEach_ready now win (ready_window hk hwin)
  unfold Db.swept
  cases hrun : releaseEach now (releasedKeys db.ledger) win db with
  | error err =>
    rw [hrun] at hloop
    exact ⟨hk, .inr ⟨hloop, rfl⟩⟩
  | ok result =>
    obtain ⟨after, n⟩ := result
    rw [hrun] at hloop
    exact ⟨kept_releaseEach _ _ hk hrun, .inl hloop⟩

theorem exists_key_iff {holds rows : List CreditLedger} (hall : List.Forall₂ Releases holds rows) {key : String} :
    (∃ row ∈ rows, row.reason = .turnHoldRelease ∧ row.refId = some key) ↔ ∃ hold ∈ holds, hold.refId = some key := by
  induction hall with
  | nil => simp
  | cons hhead _ ih =>
    simp only [List.mem_cons, exists_eq_or_imp]
    rw [ih, hhead.refId, hhead.reason]
    simp

theorem released_after {holds rows : List CreditLedger} (hledger : db'.ledger = db.ledger ++ rows)
    (hall : List.Forall₂ Releases holds rows) {key : String} :
    key ∈ releasedKeys db'.ledger ↔ key ∈ releasedKeys db.ledger ∨ ∃ hold ∈ holds, hold.refId = some key := by
  rw [mem_releasedKeys, mem_releasedKeys, hledger, ← exists_key_iff hall]
  simp only [List.mem_append, or_and_right, exists_or]

theorem reason_of_releases {holds rows : List CreditLedger} (hall : List.Forall₂ Releases holds rows) :
    ∀ row ∈ rows, row.reason = .turnHoldRelease := by
  induction hall with
  | nil => exact fun _ h => by cases h
  | cons hhead _ ih => exact List.forall_mem_cons.2 ⟨hhead.reason, ih⟩

theorem stale_after {holds rows : List CreditLedger} (hledger : db'.ledger = db.ledger ++ rows)
    (hall : List.Forall₂ Releases holds rows) (cutoff : Int) :
    db'.ledger.filter (·.isStale cutoff) = db.ledger.filter (·.isStale cutoff) := by
  have hnone : rows.filter (·.isStale cutoff) = [] := by
    rw [List.filter_eq_nil_iff]
    intro row hrow hstale
    have hreason := isStale_reason hstale
    rw [reason_of_releases hall row hrow] at hreason
    cases hreason
  rw [hledger, List.filter_append, hnone, List.append_nil]

/-! ## progress -/

theorem sweep_touches (hk : db.Kept) (h : Sweeps now olderThanSeconds db db') : ∃ holds rows : List CreditLedger,
    holds.Nodup ∧ (∀ hold ∈ holds, hold ∈ db.ledger ∧ db.unreleased (sweepCutoff now olderThanSeconds) hold = true) ∧
      db'.ledger = db.ledger ++ rows ∧ List.Forall₂ Releases holds rows := by
  obtain ⟨win, hwin, rfl⟩ := h
  obtain ⟨-, ⟨-, rows, hledger, hall⟩ | ⟨-, hsame⟩⟩ := swept_spec now hk hwin
  · refine ⟨_, rows, ?_, fun hold hmem => ?_, hledger, hall⟩
    · exact List.Nodup.of_map _ ((List.filter_sublist.map _).nodup (window_keys hk hwin))
    · obtain ⟨hmem, howed⟩ := List.mem_filter.1 hmem
      obtain ⟨hin, hstale⟩ := List.mem_filter.1 (hwin.mem hmem)
      refine ⟨hin, ?_⟩
      rw [Db.unreleased, hstale, howed]
      rfl
  · rw [hsame]
    exact ⟨[], [], List.nodup_nil, List.forall_mem_nil _, (List.append_nil _).symm, .nil⟩

theorem room_perm {released : List String} {entries entries' : List CreditLedger} (hperm : entries.Perm entries') :
    Room db released entries ↔ Room db released entries' := by
  have hdue : ∀ u, due released u entries = due released u entries' :=
    fun u => ((hperm.filter _).map _).sum_eq
  constructor
  · rintro ⟨hamounts, hbalances⟩
    exact ⟨fun e he => hamounts e (hperm.mem_iff.2 he), fun u => hdue u ▸ hbalances u⟩
  · rintro ⟨hamounts, hbalances⟩
    exact ⟨fun e he => hamounts e (hperm.mem_iff.1 he), fun u => (hdue u).symm ▸ hbalances u⟩

theorem window_all {rows win : List CreditLedger} (hwin : Window (fun _ : CreditLedger => 0) 500 rows win)
    (hfew : rows.length ≤ 500) : win.Perm rows := by
  obtain ⟨l, hperm, -, rfl⟩ := hwin
  rw [List.take_of_length_le (by rw [hperm.length_eq]; exact hfew)]
  exact hperm

theorem sweep_all (hk : db.Kept) (hfew : db.ledger.countP (·.isStale (sweepCutoff now olderThanSeconds)) ≤ 500)
    (hroom : Room db (releasedKeys db.ledger) (db.ledger.filter (·.isStale (sweepCutoff now olderThanSeconds))))
    (h : Sweeps now olderThanSeconds db db') :
    ∀ hold, hold ∈ db'.ledger ∨ hold ∈ db.ledger → db'.unreleased (sweepCutoff now olderThanSeconds) hold = false := by
  obtain ⟨win, hwin, rfl⟩ := h
  obtain ⟨-, hcases⟩ := swept_spec now hk hwin
  have hperm := window_all hwin (by rw [← List.countP_eq_length_filter]; exact hfew)
  obtain ⟨-, rows, hledger, hall⟩ | ⟨hnot, -⟩ := hcases
  swap
  · exact absurd ((room_perm hperm).2 hroom) hnot
  intro hold hmem
  cases hun : (db.swept now win).unreleased (sweepCutoff now olderThanSeconds) hold with
  | false => rfl
  | true =>
    unfold Db.unreleased at hun
    rw [Bool.and_eq_true] at hun
    obtain ⟨hstale, howed⟩ := hun
    have hin : hold ∈ db.ledger.filter (·.isStale (sweepCutoff now olderThanSeconds)) := by
      rcases hmem with hmem | hmem
      · rw [← stale_after hledger hall]
        exact List.mem_filter.2 ⟨hmem, hstale⟩
      · exact List.mem_filter.2 ⟨hmem, hstale⟩
    obtain ⟨-, -, key, hid, -⟩ := hk.holds hold (List.mem_filter.1 hin).1 (isStale_reason hstale)
    refine absurd ((released_after hledger hall).2 ?_) ((owed_iff hid).1 howed)
    by_cases hseen : key ∈ releasedKeys db.ledger
    · exact .inl hseen
    · exact .inr ⟨hold, List.mem_filter.2 ⟨hperm.mem_iff.2 hin, (owed_iff hid).2 hseen⟩, hid⟩

theorem sweep_stuck (hk : db.Kept) {hold : CreditLedger} (hin : hold ∈ db.ledger)
    (hun : db.unreleased (sweepCutoff now olderThanSeconds) hold = true)
    (hmany : 500 < db.ledger.countP (·.isStale (sweepCutoff now olderThanSeconds))) :
    ∃ db', Sweeps now olderThanSeconds db db' ∧ db'.Kept ∧ hold ∈ db'.ledger ∧
      db'.unreleased (sweepCutoff now olderThanSeconds) hold = true ∧
        500 < db'.ledger.countP (·.isStale (sweepCutoff now olderThanSeconds)) := by
  obtain ⟨win, hwin, hlast⟩ := Windows.exists_window_last (fun _ : CreditLedger => 0) 500
    (db.ledger.filter (·.isStale (sweepCutoff now olderThanSeconds))) (fun row => decide (row = hold))
  have hboth := hun
  unfold Db.unreleased at hboth
  rw [Bool.and_eq_true] at hboth
  obtain ⟨hstale, howed⟩ := hboth
  have hkeys := stale_keys hk (sweepCutoff now olderThanSeconds)
  have hout : hold ∉ win := by
    intro hmem
    have hfew := hlast hold hmem (by simp)
    have hone : (db.ledger.filter (·.isStale (sweepCutoff now olderThanSeconds))).count hold ≤ 1 :=
      List.nodup_iff_count_le_one.1 (List.Nodup.of_map _ hkeys) hold
    have hsplit := List.length_eq_countP_add_countP (fun row => decide (row = hold))
      (l := db.ledger.filter (·.isStale (sweepCutoff now olderThanSeconds)))
    rw [← List.countP_eq_length_filter] at hsplit
    simp only [List.count, beq_eq_decide] at hone
    simp only [Nat.le_refl, decide_true, Bool.and_true, decide_eq_true_eq, decide_not] at hfew hsplit
    omega
  obtain ⟨hk', hcases⟩ := swept_spec now hk hwin
  refine ⟨_, ⟨win, hwin, rfl⟩, hk', ?_⟩
  rcases hcases with ⟨-, rows, hledger, hall⟩ | ⟨-, hsame⟩
  · refine ⟨by rw [hledger]; exact List.mem_append_left _ hin, ?_, ?_⟩
    · obtain ⟨-, -, key, hid, -⟩ := hk.holds hold hin (isStale_reason hstale)
      have hkept : key ∉ releasedKeys (db.swept now win).ledger := by
        rw [released_after hledger hall, not_or]
        refine ⟨(owed_iff hid).1 howed, ?_⟩
        -- another hold has another key
        rintro ⟨other, hother, hsame⟩
        have hmem := (List.mem_filter.1 hother).1
        refine hout (List.inj_on_of_nodup_map hkeys (hwin.mem hmem) ?_ (hsame.trans hid.symm) ▸ hmem)
        exact List.mem_filter.2 ⟨hin, hstale⟩
      rw [Db.unreleased, hstale, (owed_iff hid).2 hkept]
      rfl
    · rw [List.countP_eq_length_filter, stale_after hledger hall, ← List.countP_eq_length_filter]
      exact hmany
  · rw [hsame]
    exact ⟨hin, hun, hmany⟩

/-- **The sweep makes progress** exactly when nothing is left to release, or everything stale is in one batch and fits. -/
theorem sweep_progress_kept (hk : db.Kept) : SweepProgress now olderThanSeconds db ↔ SweepFits now olderThanSeconds db := by
  constructor
  · rintro ⟨-, hhandles, k, hfinishes⟩
    by_contra hnot
    unfold SweepFits at hnot
    rw [not_or] at hnot
    obtain ⟨hsome, hnofit⟩ := hnot
    obtain ⟨hold, hin, hun⟩ : ∃ hold ∈ db.ledger, db.unreleased (sweepCutoff now olderThanSeconds) hold = true := by
      by_contra hnone
      exact hsome (fun hold hin => by simpa using fun h => hnone ⟨hold, hin, h⟩)
    rcases Nat.lt_or_ge 500 (db.ledger.countP (·.isStale (sweepCutoff now olderThanSeconds))) with hmany | hfew
    · -- one hold is left out for ever
      obtain ⟨db', htimes, -, hstays, hwaits, -⟩ := Windows.times_stuck (Sweeps now olderThanSeconds)
        (P := fun s => s.Kept ∧ hold ∈ s.ledger ∧ s.unreleased (sweepCutoff now olderThanSeconds) hold = true ∧
          500 < s.ledger.countP (·.isStale (sweepCutoff now olderThanSeconds)))
        (fun s hs => sweep_stuck hs.1 hs.2.1 hs.2.2.1 hs.2.2.2) k ⟨hk, hin, hun, hmany⟩
      rw [hfinishes db' htimes hold hstays] at hwaits
      cases hwaits
    · -- every sweep raises
      have hwin : Window (fun _ : CreditLedger => 0) 500 (db.ledger.filter (·.isStale (sweepCutoff now olderThanSeconds)))
          (db.ledger.filter (·.isStale (sweepCutoff now olderThanSeconds))) := by
        refine ⟨_, List.Perm.refl _, List.pairwise_of_forall (fun _ _ => le_refl _), List.take_of_length_le ?_⟩
        rw [← List.countP_eq_length_filter]
        exact hfew
      rcases (swept_spec now hk hwin).2 with ⟨hroom, -⟩ | ⟨-, hsame⟩
      · exact hnofit ⟨hfew, hroom⟩
      · obtain ⟨other, -, hbefore, hafter⟩ := hhandles ⟨hold, hin, hun⟩ _ ⟨_, hwin, rfl⟩
        rw [hsame, hbefore] at hafter
        cases hafter
  · rintro (hnone | ⟨hfew, hroom⟩)
    · refine ⟨fun db' h => sweep_touches hk h, ?_, 0, ?_⟩
      · rintro ⟨hold, hin, hun⟩
        rw [hnone hold hin] at hun
        cases hun
      · rintro db' rfl
        exact hnone
    · refine ⟨fun db' h => sweep_touches hk h, ?_, 1, ?_⟩
      · rintro ⟨hold, hin, hun⟩ db' h
        exact ⟨hold, hin, hun, sweep_all hk hfew hroom h hold (.inr hin)⟩
      · rintro db' ⟨_, h, rfl⟩ hold hin
        exact sweep_all hk hfew hroom h hold (.inl hin)

/-- **After every history** the sweep makes progress exactly when nothing is left to release, or no more than five hundred
holds are past the cutoff, released or not, and no column is too small for what is given back. -/
theorem stale_sweep_iff (calls : List Call) (now olderThanSeconds : Int) :
    SweepProgress now olderThanSeconds (Db.runAll {} calls) ↔ SweepFits now olderThanSeconds (Db.runAll {} calls) :=
  sweep_progress_kept (kept_runAll calls kept_empty)

end

/-! ## more holds than a batch -/

def holdKey (i : Nat) : String := String.singleton (Char.ofNat (0x4e00 + i))

theorem holdKey_inj {i j : Nat} (hi : i < 1000) (hj : j < 1000) (h : holdKey i = holdKey j) : i = j := by
  have hval : ∀ k < 1000, (Char.ofNat (0x4e00 + k)).toNat = 0x4e00 + k := by
    intro k hk
    unfold Char.ofNat
    rw [dif_pos (.inl (by omega))]
    rfl
  have hchar := congrArg Char.toNat (String.singleton_inj.1 h)
  rw [hval i hi, hval j hj] at hchar
  omega

theorem holdKey_length (i : Nat) : (holdKey i).length = 1 := String.length_singleton

theorem holdKey_ne (i : Nat) : holdKey i ≠ "" := by
  intro h
  have hlength := holdKey_length i
  rw [h] at hlength
  cases hlength

def admitAt (i : Nat) : Call where
  op := .admitTurn 0 (some (holdKey i)) ""
  policy := { enforced := true, turnReserve := 1 }

def abandoned (n : Nat) : List Call :=
  { op := .grant 0 1000 .signupBonus none none none none } :: (List.range n).map admitAt

/-- `n` holds, a credit each, and no release. -/
structure Abandoned (n : Nat) (db : Db) : Prop where
  account : db.accounts 0 = some ⟨1000 - n, 1000, 0⟩
  stale : db.ledger.countP (·.isStale 1) = n
  keys : ∀ row ∈ db.ledger, row.reason = .turnHold → ∃ i < n, row.refId = some (holdKey i)
  none_released : ∀ row ∈ db.ledger, row.reason ≠ .turnHoldRelease

/-- The row of the hold `n`. -/
def heldRow (n : Nat) (db : Db) : CreditLedger :=
  ⟨db.ledger.length, 0, -1, 1000 - n + -1, .turnHold, some "turn_hold", some (holdKey n), none, none, 0⟩

def Db.held (db : Db) (n : Nat) : Db :=
  { db.setAccount 0 ⟨1000 - n + -1, 1000, 0⟩ with ledger := db.ledger ++ [heldRow n db] }

theorem admitAt_run {n : Nat} (hn : n < 1000) {db : Db} (h : Abandoned n db) : (admitAt n).run db = .ok (db.held n) := by
  have hlocked : lockedAccount db 0 = (db, ⟨1000 - n, 1000, 0⟩) := by
    unfold lockedAccount
    rw [h.account]
  have hclash : ¬ db.ledger.any (·.clashes .turnHold (some "turn_hold") (some (holdKey n))) = true := by
    rw [List.any_eq_true]
    rintro ⟨row, hrow, hc⟩
    simp only [CreditLedger.clashes, Bool.and_eq_true, beq_iff_eq] at hc
    obtain ⟨i, hi, hid⟩ := h.keys row hrow hc.2
    rw [hc.1.2, Option.some.injEq] at hid
    have heq := holdKey_inj hn (by omega) hid
    omega
  have hvalues : (fitsBigInt (-1) && fitsBigInt (1000 - n + -1) && refFits (some "turn_hold") (some (holdKey n))) = true := by
    have hrefs : refFits (some "turn_hold") (some (holdKey n)) = true := by
      unfold refFits
      rw [Option.all_some, Option.all_some, holdKey_length]
      decide
    rw [hrefs]
    simp [fitsBigInt]
    omega
  have hfits : (CreditAccount.apply ⟨1000 - n, 1000, 0⟩ (-1) false).fits = true := by
    simp [CreditAccount.fits, CreditAccount.apply, fitsBigInt]
    omega
  have hwrite : writeEntry 0 db 0 ⟨1000 - n, 1000, 0⟩ (-1) .turnHold (some "turn_hold") (some (holdKey n)) none none false =
      .ok (db.held n, some (heldRow n db)) := by
    unfold writeEntry
    dsimp only
    rw [hvalues, if_neg hclash, hfits]
    rfl
  have hhold : admitTurn { enforced := true, turnReserve := 1 } 0 "" db 0 (some (holdKey n)) =
      .ok (db.held n, some ⟨0, holdKey n, 1⟩) := by
    unfold admitTurn
    dsimp only [turnKeyOr]
    rw [hlocked, if_neg (holdKey_ne n)]
    have hreserve : CreditPolicy.reserve { enforced := true, turnReserve := 1 } = 1 := rfl
    rw [hreserve, if_neg (show ¬ (1000 - (n : Int) < 1) by omega), hwrite]
    rfl
  show (admitTurn { enforced := true, turnReserve := 1 } 0 "" db 0 (some (holdKey n))).map Prod.fst = _
  rw [hhold]
  rfl

theorem abandoned_step {n : Nat} (hn : n < 1000) {db : Db} (h : Abandoned n db) : Abandoned (n + 1) (db.step (admitAt n)) := by
  have hstep : db.step (admitAt n) = db.held n := by
    unfold Db.step
    rw [admitAt_run hn h]
  rw [hstep]
  refine ⟨?_, ?_, fun row hrow hreason => ?_, fun row hrow => ?_⟩
  · have hbalance : (1000 : Int) - n + -1 = 1000 - (n + 1 : Nat) := by omega
    rw [← hbalance]
    exact setAccount_self db 0 _
  · show (db.ledger ++ [heldRow n db]).countP _ = _
    rw [List.countP_append, h.stale]
    rfl
  · rcases List.mem_append.1 hrow with hold | hnew
    · obtain ⟨i, hi, hid⟩ := h.keys row hold hreason
      exact ⟨i, by omega, hid⟩
    · obtain rfl := List.mem_singleton.1 hnew
      exact ⟨n, by omega, rfl⟩
  · rcases List.mem_append.1 hrow with hold | hnew
    · exact h.none_released row hold
    · obtain rfl := List.mem_singleton.1 hnew
      exact fun hr => by cases hr

theorem abandoned_spec : ∀ {n : Nat}, n ≤ 1000 → Abandoned n (Db.runAll {} (abandoned n))
  | 0, _ => by
    refine ⟨rfl, rfl, fun row hrow hreason => ?_, fun row hrow => ?_⟩
    · obtain rfl := List.mem_singleton.1 hrow
      cases hreason
    · obtain rfl := List.mem_singleton.1 hrow
      exact fun hr => by cases hr
  | n + 1, hn => by
    have hlast : Db.runAll {} (abandoned (n + 1)) = (Db.runAll {} (abandoned n)).step (admitAt n) := by
      unfold abandoned Db.runAll
      rw [List.range_succ, List.map_append, ← List.cons_append, List.foldl_append]
      rfl
    rw [hlast]
    exact abandoned_step (by omega) (abandoned_spec (by omega))

/-- With one hold more than a batch, one may never be returned. -/
theorem stale_hold_stuck : ¬ ∀ (calls : List Call) (now olderThanSeconds : Int),
    SweepProgress now olderThanSeconds (Db.runAll {} calls) := by
  intro h
  have hab := abandoned_spec (n := 501) (by omega)
  have hfits := (stale_sweep_iff (abandoned 501) (60 * microsPerSecond + 1) 60).1 (h _ _ _)
  rcases hfits with hnone | ⟨hfew, -⟩
  · have hstale := hab.stale
    obtain ⟨row, hrow, hstale⟩ := List.countP_pos_iff.1 (by rw [hstale]; decide : 0 < (Db.runAll {} (abandoned 501)).ledger.countP (·.isStale 1))
    obtain ⟨i, -, hid⟩ := hab.keys row hrow (isStale_reason hstale)
    have howed : row.owed (releasedKeys (Db.runAll {} (abandoned 501)).ledger) = true := by
      rw [owed_iff hid, mem_releasedKeys]
      rintro ⟨other, hother, hreason, -⟩
      exact hab.none_released other hother hreason
    have hun := hnone row hrow
    unfold Db.unreleased at hun
    rw [howed] at hun
    change (row.isStale 1 && true) = false at hun
    rw [hstale] at hun
    cases hun
  · change (Db.runAll {} (abandoned 501)).ledger.countP (·.isStale 1) ≤ 500 at hfew
    rw [hab.stale] at hfew
    omega

end Credit
end MyGpt
