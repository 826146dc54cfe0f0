import MyGpt.Lib.RunningTotal
import MyGpt.CreditLedger
/-!
# CreditBooks — the books of every account balance after every history

Each operation only opens empty accounts and posts rows (`Posts`), and posting keeps the books of every account: the
balance and the stamps are running totals of the rows, the lifetime figures are totals over the rows that are no holds
(`books_after`).  An operation whose rows are all there already posts nothing (`repeated_unchanged`).
-/
namespace MyGpt
namespace Credit

open RunningTotal (total Stamped)

/-! ## what the operations do, row by row -/

/-- **What an operation can do**: open accounts with nothing in them, and post rows stamped with the balance they leave,
each counted in the lifetime figures exactly when it is no hold. -/
inductive Posts (db : Db) : Db → Prop
  | refl : Posts db db
  | opened {db' : Db} (u : UserId) : Posts db db' → db'.accounts u = none → Posts db (db'.setAccount u {})
  | posted {db' : Db} (a : CreditAccount) (entry : CreditLedger) : Posts db db' →
      db'.accounts entry.userId = some a → entry.balanceAfter = a.balance + entry.delta →
      Posts db { db'.setAccount entry.userId (a.apply entry.delta (!entry.reason.isHold)) with
        ledger := db'.ledger ++ [entry] }

theorem Posts.trans {a b c : Db} (hab : Posts a b) (hbc : Posts b c) : Posts a c := by
  induction hbc with
  | refl => exact hab
  | opened u _ hu ih => exact .opened u ih hu
  | posted acc entry _ ha hb ih => exact .posted acc entry ih ha hb

@[simp] theorem setAccount_self (db : Db) (u : UserId) (a : CreditAccount) : (db.setAccount u a).accounts u = some a := by
  simp [Db.setAccount]

theorem setAccount_ne (db : Db) {u v : UserId} (a : CreditAccount) (h : v ≠ u) :
    (db.setAccount u a).accounts v = db.accounts v := by
  simp [Db.setAccount, h]

theorem lockedAccount_spec (db : Db) (u : UserId) :
    Posts db (lockedAccount db u).1 ∧ (lockedAccount db u).1.accounts u = some (lockedAccount db u).2 ∧
      (lockedAccount db u).1.ledger = db.ledger ∧
      ∀ v, (db.accounts v).isSome → (lockedAccount db u).1.accounts v = db.accounts v := by
  unfold lockedAccount
  cases hu : db.accounts u with
  | some a => exact ⟨.refl, hu, rfl, fun _ _ => rfl⟩
  | none =>
    refine ⟨.opened u .refl hu, setAccount_self db u {}, rfl, fun v hv => setAccount_ne db {} ?_⟩
    rintro rfl
    simp [hu] at hv

/-- **What writing a row does**: nothing when a row with its ref is there, and otherwise one row posted. -/
theorem writeEntry_spec {now : Int} {db db' : Db} {u : UserId} {a : CreditAccount} {delta : Int} {reason : Reason}
    {refType refId : Option String} {actorId : Option UserId} {note : Option String} {r : Option CreditLedger}
    (ha : db.accounts u = some a)
    (h : writeEntry now db u a delta reason refType refId actorId note (!reason.isHold) = .ok (db', r)) :
    Posts db db' ∧ (db.ledger.any (·.clashes reason refType refId) = true → db' = db) := by
  unfold writeEntry at h
  dsimp only at h
  split_ifs at h with _ hclash _
  · injection h with h
    injection h with hdb _
    exact ⟨hdb ▸ .refl, fun _ => hdb.symm⟩
  · injection h with h
    injection h with hdb _
    refine ⟨?_, fun hc => absurd hc hclash⟩
    rw [← hdb]
    exact .posted a ⟨_, u, delta, _, reason, refType, refId, actorId, note, now⟩ .refl ha rfl

def Unchanged (db db' : Db) : Prop :=
  db'.ledger = db.ledger ∧ ∀ v, (db.accounts v).isSome → db'.accounts v = db.accounts v

theorem unchanged_refl (db : Db) : Unchanged db db := ⟨rfl, fun _ _ => rfl⟩

theorem lockedWrite_spec {now : Int} {db db' : Db} {u : UserId} {delta : Int} {reason : Reason}
    {refType refId : Option String} {actorId : Option UserId} {note : Option String} {r : Option CreditLedger}
    (h : writeEntry now (lockedAccount db u).1 u (lockedAccount db u).2 delta reason refType refId actorId note
      (!reason.isHold) = .ok (db', r)) :
    Posts db db' ∧ (db.ledger.any (·.clashes reason refType refId) = true →
      Unchanged db db') := by
  obtain ⟨hopen, hacc, hled, hkeep⟩ := lockedAccount_spec db u
  obtain ⟨hpost, hrep⟩ := writeEntry_spec hacc h
  refine ⟨hopen.trans hpost, fun hc => ?_⟩
  rw [hrep (by rw [hled]; exact hc)]
  exact ⟨hled, hkeep⟩

/-! ## the entry points -/

theorem map_fst_ok {α : Type} {x : Except Raised (Db × α)} {db' : Db} (h : x.map Prod.fst = .ok db') :
    ∃ r, x = .ok (db', r) := by
  cases x with
  | error e => cases h
  | ok p =>
    obtain ⟨d, r⟩ := p
    injection h with h
    exact ⟨r, by rw [← h]⟩

/-- The `(ref_type, ref_id, reason)` of a row that the unique index sees. -/
structure Ref where
  refType : String
  refId : String
  reason : Reason
  deriving DecidableEq

def Db.hasRef (db : Db) (r : Ref) : Bool := db.ledger.any (·.clashes r.reason (some r.refType) (some r.refId))

theorem Unchanged.trans {a b c : Db} (hab : Unchanged a b) (hbc : Unchanged b c) : Unchanged a c := by
  refine ⟨hbc.1.trans hab.1, fun v hv => ?_⟩
  have hb := hab.2 v hv
  rw [hbc.2 v (by rw [hb]; exact hv), hb]

theorem Unchanged.hasRef {db db' : Db} (h : Unchanged db db') (r : Ref) : db'.hasRef r = db.hasRef r := by
  unfold Db.hasRef; rw [h.1]

theorem grant_spec {now : Int} {db db' : Db} {u : UserId} {amount : ℚ} {reason : GrantReason}
    {refType refId : Option String} {actorId : Option UserId} {note : Option String} {r : Option CreditLedger}
    (h : grant now db u amount reason refType refId actorId note = .ok (db', r)) :
    Posts db db' ∧ (db.ledger.any (·.clashes reason.toReason refType refId) = true → Unchanged db db') := by
  unfold grant at h
  have hcount : (true : Bool) = !reason.toReason.isHold := by cases reason <;> rfl
  split_ifs at h
  exact lockedWrite_spec (hcount ▸ h)

theorem chargeUsage_spec {now : Int} {db db' : Db} {u : UserId} {amount : ℚ} {refType refId : String}
    {note : Option String} {r : Option CreditLedger}
    (h : chargeUsage now db u amount refType refId note = .ok (db', r)) :
    Posts db db' ∧ (db.hasRef ⟨refType, refId, .usage⟩ = true → Unchanged db db') := by
  unfold chargeUsage at h
  split_ifs at h
  · cases h
    exact ⟨.refl, fun _ => unchanged_refl _⟩
  · exact lockedWrite_spec h

theorem adjust_spec {policy : CreditPolicy} {now : Int} {db db' : Db} {u : UserId} {delta : ℚ} {actorId : UserId}
    {note : Option String} {r : CreditLedger} (h : adjust policy now db u delta actorId note = .ok (db', r)) :
    Posts db db' := by
  unfold adjust at h
  split_ifs at h
  dsimp only at h
  split at h
  · cases h
  · cases h
  · rename_i hw
    cases h
    exact (lockedWrite_spec hw).1

theorem admitTurn_spec {policy : CreditPolicy} {now : Int} {fresh : String} {db db' : Db} {u : UserId}
    {turnKey : Option String} {r : Option TurnHold}
    (h : admitTurn policy now fresh db u turnKey = .ok (db', r)) :
    Posts db db' ∧ (db.hasRef ⟨"turn_hold", turnKeyOr turnKey fresh, .turnHold⟩ = true → Unchanged db db') := by
  unfold admitTurn at h
  split_ifs at h
  · cases h
    exact ⟨.refl, fun _ => unchanged_refl _⟩
  · dsimp only at h
    split_ifs at h
    split at h
    · cases h
    · rename_i hw
      cases h
      exact lockedWrite_spec hw

def releaseRef (key : String) : Ref := ⟨"turn_hold_release", key, .turnHoldRelease⟩

theorem releaseHoldIn_spec {now : Int} {db db' : Db} {hold : TurnHold} {r : Option CreditLedger}
    (h : releaseHoldIn now db hold = .ok (db', r)) :
    Posts db db' ∧ (db.hasRef (releaseRef hold.turnKey) = true → Unchanged db db') :=
  lockedWrite_spec h

def keysToRelease (released : List String) (entries : List CreditLedger) : List String :=
  (entries.filterMap (·.refId)).filter (fun key => !released.contains key)

theorem releaseEach_spec (now : Int) (released : List String) : ∀ (entries : List CreditLedger) {db db' : Db} {n : Nat},
    releaseEach now released entries db = .ok (db', n) →
      Posts db db' ∧ ((∀ key ∈ keysToRelease released entries, db.hasRef (releaseRef key) = true) → Unchanged db db')
  | [], db, db', n, h => by
    cases h
    exact ⟨.refl, fun _ => unchanged_refl _⟩
  | entry :: entries, db, db', n, h => by
    unfold releaseEach at h
    unfold keysToRelease
    split at h
    · rename_i hnone
      rw [List.filterMap_cons_none hnone]
      exact releaseEach_spec now released entries h
    · rename_i key hsome
      rw [List.filterMap_cons_some hsome, List.filter_cons]
      split_ifs at h with hrel
      · rw [if_neg (by rw [hrel]; decide)]
        exact releaseEach_spec now released entries h
      · rw [if_pos (by simpa using hrel)]
        split at h
        · cases h
        · rename_i db₁ row hone
          split at h
          · cases h
          · rename_i db₂ m hrest
            cases h
            obtain ⟨hpost₁, hrep₁⟩ := releaseHoldIn_spec hone
            obtain ⟨hpost₂, hrep₂⟩ := releaseEach_spec now released entries hrest
            refine ⟨hpost₁.trans hpost₂, fun hall => ?_⟩
            have hun₁ := hrep₁ (hall key List.mem_cons_self)
            exact hun₁.trans (hrep₂ (fun k hk => by rw [hun₁.hasRef]; exact hall k (List.mem_cons_of_mem _ hk)))

/-- The refs of the rows an operation is about to write; `none` where its row has no ref and the index lets every
repetition through. -/
def Call.refs (c : Call) (db : Db) : Option (List Ref) :=
  match c.op with
  | .grant _ _ reason (some refType) (some refId) _ _ => some [⟨refType, refId, reason.toReason⟩]
  | .grant .. => none
  | .chargeUsage _ _ refType refId _ => some [⟨refType, refId, .usage⟩]
  | .adjust .. => none
  | .admitTurn _ turnKey fresh => some [⟨"turn_hold", turnKeyOr turnKey fresh, .turnHold⟩]
  | .releaseTurnHold none => some []
  | .releaseTurnHold (some hold) => some [releaseRef hold.turnKey]
  | .releaseStaleTurnHolds seenReleases seenHolds olderThanSeconds =>
    some ((keysToRelease (releasedKeys (db.ledger.filter seenReleases))
      (staleHolds (c.now - max olderThanSeconds 60 * microsPerSecond) (db.ledger.filter seenHolds))).map releaseRef)

/-- **Every operation only opens accounts and posts rows, and one whose rows are all there already does nothing.** -/
theorem step_spec (db : Db) (c : Call) :
    Posts db (db.step c) ∧
      ∀ refs, c.refs db = some refs → (∀ r ∈ refs, db.hasRef r = true) → Unchanged db (db.step c) := by
  unfold Db.step
  cases hrun : c.run db with
  | error e => exact ⟨.refl, fun _ _ _ => unchanged_refl db⟩
  | ok db' =>
    obtain ⟨op, now, policy⟩ := c
    cases op with
    | grant u amount reason refType refId actorId note =>
      obtain ⟨r, h⟩ := map_fst_ok hrun
      obtain ⟨hpost, hrep⟩ := grant_spec h
      refine ⟨hpost, fun refs hrefs hall => hrep ?_⟩
      cases refType with
      | none => cases hrefs
      | some t =>
        cases refId with
        | none => cases hrefs
        | some i =>
          cases hrefs
          exact hall _ List.mem_cons_self
    | chargeUsage u amount refType refId note =>
      obtain ⟨r, h⟩ := map_fst_ok hrun
      obtain ⟨hpost, hrep⟩ := chargeUsage_spec h
      refine ⟨hpost, fun refs hrefs hall => hrep ?_⟩
      cases hrefs
      exact hall _ List.mem_cons_self
    | adjust u delta actorId note =>
      obtain ⟨r, h⟩ := map_fst_ok hrun
      exact ⟨adjust_spec h, fun refs hrefs => by cases hrefs⟩
    | admitTurn u turnKey fresh =>
      obtain ⟨r, h⟩ := map_fst_ok hrun
      obtain ⟨hpost, hrep⟩ := admitTurn_spec h
      refine ⟨hpost, fun refs hrefs hall => hrep ?_⟩
      cases hrefs
      exact hall _ List.mem_cons_self
    | releaseTurnHold hold =>
      obtain ⟨r, h⟩ := map_fst_ok hrun
      cases hold with
      | none =>
        cases h
        exact ⟨.refl, fun _ _ _ => unchanged_refl _⟩
      | some hold =>
        obtain ⟨hpost, hrep⟩ := releaseHoldIn_spec h
        refine ⟨hpost, fun refs hrefs hall => hrep ?_⟩
        cases hrefs
        exact hall _ List.mem_cons_self
    | releaseStaleTurnHolds seenReleases seenHolds olderThanSeconds =>
      obtain ⟨r, h⟩ := map_fst_ok hrun
      obtain ⟨hpost, hrep⟩ := releaseEach_spec now _ _ h
      refine ⟨hpost, fun refs hrefs hall => hrep (fun key hkey => ?_)⟩
      cases hrefs
      exact hall _ (List.mem_map_of_mem hkey)

/-! ## the books of an account -/

def Db.rowsOf (db : Db) (u : UserId) : List CreditLedger := db.ledger.filter (fun row => row.userId == u)

def nonHold (rows : List CreditLedger) : List CreditLedger := rows.filter (fun row => !row.reason.isHold)

structure CreditAccount.BalancedBy (a : CreditAccount) (rows : List CreditLedger) : Prop where
  balance : a.balance = total (·.delta) rows
  granted : a.lifetimeGranted = total (fun row => max row.delta 0) (nonHold rows)
  consumed : a.lifetimeConsumed = total (fun row => max (-row.delta) 0) (nonHold rows)

/-- **The books of a user**: the account is balanced by its rows, there are no rows without an account, and every row's
`balance_after` is the total of the deltas up to and including it. -/
structure Db.Books (db : Db) (u : UserId) : Prop where
  account : ∀ a, db.accounts u = some a → a.BalancedBy (db.rowsOf u)
  noAccount : db.accounts u = none → db.rowsOf u = []
  stamped : Stamped (·.delta) (·.balanceAfter) (db.rowsOf u)

theorem books_init (u : UserId) : Db.Books {} u where
  account := by intro a h; cases h
  noAccount := fun _ => rfl
  stamped := RunningTotal.stamped_nil _ _

theorem rowsOf_concat (db : Db) (accounts : UserId → Option CreditAccount) (entry : CreditLedger) (u : UserId) :
    Db.rowsOf { accounts := accounts, ledger := db.ledger ++ [entry] } u =
      db.rowsOf u ++ if entry.userId = u then [entry] else [] := by
  unfold Db.rowsOf
  by_cases h : entry.userId = u
  · simp [h]
  · simp [h]

theorem apply_balance (a : CreditAccount) (delta : Int) (count : Bool) :
    (a.apply delta count).balance = a.balance + delta := by
  unfold CreditAccount.apply
  split_ifs <;> rfl

theorem apply_lifetime (a : CreditAccount) (delta : Int) (count : Bool) :
    (a.apply delta count).lifetimeGranted = a.lifetimeGranted + (if count then max delta 0 else 0) ∧
      (a.apply delta count).lifetimeConsumed = a.lifetimeConsumed + (if count then max (-delta) 0 else 0) := by
  unfold CreditAccount.apply
  cases count
  · simp
  · simp only [Bool.not_true, Bool.false_eq_true, if_false, if_true]
    split_ifs <;> constructor <;> dsimp only <;> omega

theorem balancedBy_apply {a : CreditAccount} {rows : List CreditLedger} (h : a.BalancedBy rows) (entry : CreditLedger) :
    (a.apply entry.delta (!entry.reason.isHold)).BalancedBy (rows ++ [entry]) := by
  obtain ⟨hgranted, hconsumed⟩ := apply_lifetime a entry.delta (!entry.reason.isHold)
  refine ⟨?_, ?_, ?_⟩
  · rw [apply_balance, h.balance, RunningTotal.total_append, RunningTotal.total_singleton]
  · rw [hgranted, h.granted, nonHold, nonHold, RunningTotal.total_filter_concat]
  · rw [hconsumed, h.consumed, nonHold, nonHold, RunningTotal.total_filter_concat]

theorem Posts.books {db db' : Db} (h : Posts db db') (hb : ∀ u, db.Books u) : ∀ u, db'.Books u := by
  induction h with
  | refl => exact hb
  | @opened db' v _ hv ih =>
    intro u
    by_cases huv : u = v
    · subst huv
      have hnil : db'.rowsOf u = [] := (ih u).noAccount hv
      refine ⟨fun a ha => ?_, fun hn => by simp at hn, (ih u).stamped⟩
      obtain rfl : ({} : CreditAccount) = a := by simpa using ha
      show CreditAccount.BalancedBy {} (db'.rowsOf u)
      rw [hnil]
      exact ⟨rfl, rfl, rfl⟩
    · have hacc := setAccount_ne db' {} huv
      exact ⟨fun a ha => (ih u).account a (hacc ▸ ha), fun hn => (ih u).noAccount (hacc ▸ hn), (ih u).stamped⟩
  | @posted db' a entry _ ha hafter ih =>
    intro u
    by_cases hu : entry.userId = u
    · subst hu
      have hbal := (ih entry.userId).account a ha
      have hrows := rowsOf_concat db' (db'.setAccount entry.userId (a.apply entry.delta (!entry.reason.isHold))).accounts
        entry entry.userId
      rw [if_pos rfl] at hrows
      refine ⟨fun b hbeq => ?_, fun hn => by simp at hn, ?_⟩
      · obtain rfl : a.apply entry.delta (!entry.reason.isHold) = b := by simpa using hbeq
        rw [hrows]
        exact balancedBy_apply hbal entry
      · rw [hrows]
        exact (ih entry.userId).stamped.concat (by rw [hafter, hbal.balance])
    · have hacc := setAccount_ne db' (a.apply entry.delta (!entry.reason.isHold)) (Ne.symm hu)
      have hrows := rowsOf_concat db' (db'.setAccount entry.userId (a.apply entry.delta (!entry.reason.isHold))).accounts
        entry u
      rw [if_neg hu, List.append_nil] at hrows
      refine ⟨fun b hbeq => ?_, fun hn => ?_, ?_⟩
      · rw [hrows]; exact (ih u).account b (hacc ▸ hbeq)
      · rw [hrows]; exact (ih u).noAccount (hacc ▸ hn)
      · rw [hrows]; exact (ih u).stamped

/-! ## every history -/

theorem step_books (db : Db) (c : Call) (hb : ∀ u, db.Books u) : ∀ u, (db.step c).Books u :=
  (step_spec db c).1.books hb

theorem runAll_books : ∀ (calls : List Call) (db : Db), (∀ u, db.Books u) → ∀ u, (db.runAll calls).Books u
  | [], _, hb => hb
  | c :: calls, db, hb => runAll_books calls (db.step c) (step_books db c hb)

/-- **A repeated operation changes nothing**: the operation writes rows with a ref, and every one of them is there. -/
def Call.RepeatUnchanged (db : Db) (c : Call) : Prop :=
  ∀ refs, c.refs db = some refs → (∀ r ∈ refs, db.hasRef r = true) → Unchanged db (db.step c)

/-- **The books balance after every history of operations**, for every user, and then a repeated operation leaves the
ledger and the accounts as they are. -/
theorem books_after (calls : List Call) :
    (∀ u, (Db.runAll {} calls).Books u) ∧ ∀ c : Call, c.RepeatUnchanged (Db.runAll {} calls) :=
  ⟨runAll_books calls {} books_init, fun c => (step_spec _ c).2⟩

end Credit
end MyGpt
