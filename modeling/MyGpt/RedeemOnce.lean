import MyGpt.RedeemCodes
import MyGpt.Lib.Trace
/-!
# RedeemOnce — a code is credited at most once

A session locks the row of a code only while the code is active, and nobody changes a locked row; so the session that
grants for a code finds no grant of it, and its commit writes the status and the one row together.  Whatever the order of
the statements, and wherever a session breaks off, the status of a code and its grants agree (`redeemed_once`).
-/
namespace MyGpt
namespace Redeem

open Credit (UserId CreditAccount CreditLedger Raised grant)
open Trace (Reaches exec play reaches_play)

/-! ## one statement at a time -/

/-- **What a statement does**: it moves its session on, locks the row of an active code, writes its grant, or commits. -/
inductive Move (w : World) (sid : Nat) : World → Prop
  | moves {s : Session} (hlocks : s.locks ⊆ (w.sessions sid).locks) (hnot : s.account = none) :
    Move w sid (w.setSession sid s)
  | locks {s : Session} {code : CodeId} {row : RedeemCode} (hlocks : s.locks = code :: (w.sessions sid).locks)
      (hnot : s.account = none) (hfree : w.codeLocked sid code = false) (hrow : w.active? code = some row) :
    Move w sid (w.setSession sid s)
  | grants {f : Found} {claimedAt now : Int} {db : Credit.Db} {account : CreditAccount} {entry : Option CreditLedger}
      (hclaimed : w.sessions sid = .claimed f claimedAt)
      (hgrant : grant now w.credit f.user f.batch.creditsPerCode .redeem (some "redeem_code") (some f.code) (some f.user)
        (some f.batch.name) = .ok (db, entry)) :
    Move w sid (w.setSession sid (.granted f claimedAt account entry))
  | redeems {f : Found} {claimedAt : Int} {account : CreditAccount} {entry : Option CreditLedger} {reply : Reply}
      (hgranted : w.sessions sid = .granted f claimedAt account entry) :
    Move w sid (((w.updateCodes [f.code] (·.redeem f.user claimedAt)).post f.user account entry).setSession sid
      (.replied reply))
  | voids {batch : BatchId} {taken : List CodeId} {reply : Reply} (hvoiding : w.sessions sid = .voiding batch taken) :
    Move w sid ((w.updateCodes taken (·.void)).setSession sid (.replied reply))

theorem move_of_step {w w' : World} {act : Act} (h : step w act = some w') : Move w act.sid w' := by
  cases act with
  | redeem sid user digest now =>
    simp only [step] at h
    split_ifs at h
    split at h
    · cases h
      exact .moves (List.nil_subset _) rfl
    · cases h
      exact .moves (List.nil_subset _) rfl
  | claim sid now =>
    change Move w sid w'
    simp only [step] at h
    split at h
    · rename_i f hsession
      split_ifs at h with hlocked
      split at h
      · rename_i row hrow
        cases h
        exact .locks (by rw [hsession]; rfl) rfl (by simpa using hlocked) hrow
      · cases h
        exact .moves (List.nil_subset _) rfl
    · cases h
  | grant sid now =>
    simp only [step] at h
    split at h
    · rename_i f claimedAt hsession
      split_ifs at h
      split at h
      · rename_i db entry hgrant
        cases h
        exact .grants hsession hgrant
      · cases h
        exact .moves (List.nil_subset _) rfl
    · cases h
  | voidBatch sid batch =>
    simp only [step] at h
    split_ifs at h
    cases h
    exact .moves (List.nil_subset _) rfl
  | voidRow sid code =>
    change Move w sid w'
    simp only [step] at h
    split at h
    · rename_i batch taken hsession
      split_ifs at h with hlocked
      split at h
      · rename_i row hrow
        split_ifs at h
        cases h
        simp only [Bool.or_eq_true, not_or, Bool.not_eq_true] at hlocked
        exact .locks (by rw [hsession]; rfl) rfl hlocked.1 hrow
      · cases h
    · cases h
  | commit sid =>
    simp only [step] at h
    split at h
    · rename_i hsession
      cases h
      exact .redeems hsession
    · rename_i hsession
      split_ifs at h
      cases h
      exact .voids hsession
    · cases h
  | fail sid =>
    simp only [step] at h
    split at h
    · cases h
    · cases h
      exact .moves (List.nil_subset _) rfl

/-! ## the grants of a code -/

theorem grantsCode_iff {code : CodeId} {row : CreditLedger} :
    grantsCode code row = true ↔ row.reason = .redeem ∧ row.refType = some "redeem_code" ∧ row.refId = some code := by
  simp [grantsCode, CreditLedger.clashes, and_comm]

theorem grant_entry {now : Int} {db db' : Credit.Db} {user : UserId} {amount : ℚ} {code : CodeId}
    {actor : Option UserId} {note : Option String} {entry : Option CreditLedger}
    (h : grant now db user amount .redeem (some "redeem_code") (some code) actor note = .ok (db', entry))
    (hnone : grantRows db code = []) :
    ∃ e, entry = some e ∧ e.userId = user ∧ e.reason = .redeem ∧ e.refType = some "redeem_code" ∧ e.refId = some code := by
  have hledger : (Credit.lockedAccount db user).1.ledger = db.ledger := by
    unfold Credit.lockedAccount
    split <;> rfl
  have hany : (Credit.lockedAccount db user).1.ledger.any
      (fun row => row.clashes .redeem (some "redeem_code") (some code)) = false := by
    rw [hledger, List.any_eq_false]
    exact fun row hrow hclash => List.filter_eq_nil_iff.1 hnone row hrow hclash
  unfold grant Credit.writeEntry at h
  split_ifs at h
  dsimp only at h
  split_ifs at h with hfits hclash hbalance
  · exact absurd hclash (by
      rw [show Credit.GrantReason.redeem.toReason = Credit.Reason.redeem from rfl, hany]
      exact Bool.false_ne_true)
  · obtain ⟨-, rfl⟩ := Prod.mk.inj (Except.ok.inj h)
    exact ⟨_, rfl, rfl, rfl, rfl, rfl⟩

/-! ## the invariant -/

def Settled (row : Option RedeemCode) (grants : List CreditLedger) : Prop :=
  match row.map RedeemCode.status with
  | some .redeemed => ∃ grant, grants = [grant] ∧ row.bind RedeemCode.redeemedBy = some grant.userId
  | _ => grants = []

def Session.Writes : Session → Prop
  | .granted f _ _ entry => ∃ e, entry = some e ∧ e.userId = f.user ∧ e.reason = .redeem ∧ e.refType = some "redeem_code" ∧
      e.refId = some f.code
  | _ => True

structure Inv (w : World) : Prop where
  started : ∀ sid, sid ∉ w.started → w.sessions sid = .idle
  apart : ∀ sid other code, code ∈ (w.sessions sid).locks → code ∈ (w.sessions other).locks → sid = other
  active : ∀ sid code, code ∈ (w.sessions sid).locks → (w.codes code).map (·.status) = some .active
  writes : ∀ sid, (w.sessions sid).Writes
  settled : ∀ code, Settled (w.codes code) (grantRows w.credit code)

theorem active?_eq_some {w : World} {code : CodeId} {row : RedeemCode} (h : w.active? code = some row) :
    w.codes code = some row ∧ row.status = .active := by
  obtain ⟨hrow, hactive⟩ := Option.filter_eq_some_iff.1 h
  exact ⟨hrow, by simpa using hactive⟩

theorem setSession_self (w : World) (sid : Nat) (s : Session) : (w.setSession sid s).sessions sid = s :=
  Function.update_self _ _ _

theorem setSession_other (w : World) {sid other : Nat} (s : Session) (h : other ≠ sid) :
    (w.setSession sid s).sessions other = w.sessions other := Function.update_of_ne h _ _

theorem Inv.free {w : World} (hw : Inv w) {sid other : Nat} {code : CodeId} (hfree : w.codeLocked sid code = false)
    (hne : other ≠ sid) : code ∉ (w.sessions other).locks := by
  intro hmem
  by_cases hstarted : other ∈ w.started
  · have hany := List.any_eq_false.1 hfree other hstarted
    simp [hne, hmem] at hany
  · rw [hw.started other hstarted] at hmem
    cases hmem

/-- **The frame of a session**: where the locks of the session that moves are apart from the others' and on active rows, and
the tables agree, the invariant holds after it. -/
theorem Inv.setSession {w : World} {sid : Nat} {s : Session} (hstarted : ∀ other, other ∉ w.started → w.sessions other = .idle)
    (hapart : ∀ one other code, one ≠ sid → other ≠ sid → code ∈ (w.sessions one).locks →
      code ∈ (w.sessions other).locks → one = other)
    (hothers : ∀ other code, other ≠ sid → code ∈ (w.sessions other).locks → code ∉ s.locks ∧
      (w.codes code).map (·.status) = some .active)
    (hown : ∀ code ∈ s.locks, (w.codes code).map (·.status) = some .active)
    (hwrites : s.Writes ∧ ∀ other, other ≠ sid → (w.sessions other).Writes)
    (hsettled : ∀ code, Settled (w.codes code) (grantRows w.credit code)) : Inv (w.setSession sid s) := by
  refine ⟨fun other hother => ?_, fun one other code hone hlock => ?_, fun other code hlock => ?_, fun other => ?_, hsettled⟩
  · have hne : other ≠ sid := fun h => hother (h ▸ List.mem_cons_self)
    rw [setSession_other w s hne]
    exact hstarted other (fun h => hother (List.mem_cons_of_mem _ h))
  · by_cases h₁ : one = sid
    · by_cases h₂ : other = sid
      · rw [h₁, h₂]
      · rw [h₁, setSession_self] at hone
        rw [setSession_other w s h₂] at hlock
        exact absurd hone (hothers other code h₂ hlock).1
    · rw [setSession_other w s h₁] at hone
      by_cases h₂ : other = sid
      · rw [h₂, setSession_self] at hlock
        exact absurd hlock (hothers one code h₁ hone).1
      · rw [setSession_other w s h₂] at hlock
        exact hapart one other code h₁ h₂ hone hlock
  · by_cases h₁ : other = sid
    · rw [h₁, setSession_self] at hlock
      exact hown code hlock
    · rw [setSession_other w s h₁] at hlock
      exact (hothers other code h₁ hlock).2
  · by_cases h₁ : other = sid
    · rw [h₁, setSession_self]
      exact hwrites.1
    · rw [setSession_other w s h₁]
      exact hwrites.2 other h₁

theorem writes_of_no_account {s : Session} (h : s.account = none) : s.Writes := by
  cases s with
  | granted => cases h
  | _ => trivial

theorem updateCodes_status {w : World} {taken : List CodeId} {update : RedeemCode → RedeemCode} {code : CodeId}
    (h : code ∉ taken) : (w.updateCodes taken update).codes code = w.codes code := by
  simp [World.updateCodes, h]

theorem grantRows_post {w : World} {user : UserId} {account : CreditAccount} {e : CreditLedger} {code own : CodeId}
    (href : e.refId = some own) (hreason : e.reason = .redeem) (htype : e.refType = some "redeem_code") :
    grantRows (w.post user account (some e)).credit code =
      grantRows w.credit code ++ if own = code then [{ e with id := w.credit.ledger.length }] else [] := by
  unfold grantRows World.post
  simp only [Option.map_some, Option.toList_some, List.filter_append, List.filter_cons, List.filter_nil]
  refine congrArg _ ?_
  rw [show grantsCode code { e with id := w.credit.ledger.length } = grantsCode code e from rfl]
  by_cases hcode : own = code
  · rw [if_pos hcode, if_pos (grantsCode_iff.2 ⟨hreason, htype, href.trans (congrArg some hcode)⟩)]
  · rw [if_neg hcode, if_neg (fun h => hcode (Option.some.inj (href.symm.trans (grantsCode_iff.1 h).2.2)))]

theorem inv_step {w w' : World} (hw : Inv w) {act : Act} (h : step w act = some w') : Inv w' := by
  have hothers : ∀ other code, other ≠ act.sid → code ∈ (w.sessions other).locks →
      code ∉ (w.sessions act.sid).locks ∧ (w.codes code).map (·.status) = some .active :=
    fun other code hne hlock => ⟨fun hown => hne (hw.apart other act.sid code hlock hown), hw.active other code hlock⟩
  have hapart : ∀ one other code, one ≠ act.sid → other ≠ act.sid → code ∈ (w.sessions one).locks →
      code ∈ (w.sessions other).locks → one = other := fun one other code _ _ hone hlock => hw.apart one other code hone hlock
  cases move_of_step h with
  | moves hlocks hnot =>
    refine Inv.setSession hw.started hapart (fun other code hne hlock => ?_) (fun code hmem => hw.active _ code (hlocks hmem))
      ⟨writes_of_no_account hnot, fun other _ => hw.writes other⟩ hw.settled
    exact ⟨fun hmem => (hothers other code hne hlock).1 (hlocks hmem), (hothers other code hne hlock).2⟩
  | @locks s code row hlocks hnot hfree hrow =>
    obtain ⟨hcode, hactive⟩ := active?_eq_some hrow
    refine Inv.setSession hw.started hapart (fun other code' hne hlock => ?_) (fun code' hmem => ?_)
      ⟨writes_of_no_account hnot, fun other _ => hw.writes other⟩ hw.settled
    · refine ⟨fun hmem => ?_, (hothers other code' hne hlock).2⟩
      rw [hlocks] at hmem
      rcases List.mem_cons.1 hmem with rfl | hmem
      · exact hw.free hfree hne hlock
      · exact (hothers other code' hne hlock).1 hmem
    · rw [hlocks] at hmem
      rcases List.mem_cons.1 hmem with rfl | hmem
      · rw [hcode, Option.map_some, hactive]
      · exact hw.active _ code' hmem
  | @grants f claimedAt now db account entry hclaimed hgrant =>
    have hlock : f.code ∈ (w.sessions act.sid).locks := by rw [hclaimed]; exact List.mem_cons_self
    have hnone : grantRows w.credit f.code = [] := by
      have hsettled := hw.settled f.code
      unfold Settled at hsettled
      rw [hw.active _ _ hlock] at hsettled
      exact hsettled
    have hlocks : Session.locks (.granted f claimedAt account entry) = (w.sessions act.sid).locks := by rw [hclaimed]; rfl
    refine Inv.setSession hw.started hapart (fun other code hne hmem => ?_) (fun code hmem => ?_)
      ⟨grant_entry hgrant hnone, fun other _ => hw.writes other⟩ hw.settled
    · rw [hlocks]
      exact hothers other code hne hmem
    · rw [hlocks] at hmem
      exact hw.active _ code hmem
  | @redeems f claimedAt account entry reply hgranted =>
    have hwrites := hw.writes act.sid
    rw [hgranted] at hwrites
    obtain ⟨e, rfl, huser, hreason, htype, href⟩ := hwrites
    have hlocks : (w.sessions act.sid).locks = [f.code] := by rw [hgranted]; rfl
    have hlock : f.code ∈ (w.sessions act.sid).locks := by rw [hlocks]; exact List.mem_cons_self
    refine Inv.setSession hw.started hapart (fun other code hne hmem => ?_) nofun
      ⟨trivial, fun other _ => hw.writes other⟩ (fun code => ?_)
    · refine ⟨List.not_mem_nil, ?_⟩
      have hnot : code ∉ [f.code] := hlocks ▸ (hothers other code hne hmem).1
      show ((w.updateCodes [f.code] _).codes code).map (·.status) = _
      rw [updateCodes_status hnot]
      exact (hothers other code hne hmem).2
    · show Settled ((w.updateCodes [f.code] _).codes code) (grantRows (World.post _ _ _ _).credit code)
      rw [grantRows_post href hreason htype]
      by_cases hcode : f.code = code
      · -- the code of the session: its first grant, and its status with it
        subst hcode
        have hactive := hw.active _ _ hlock
        obtain ⟨row, hrow, hstatus⟩ := Option.map_eq_some_iff.1 hactive
        have hsettled := hw.settled f.code
        unfold Settled at hsettled
        rw [hactive] at hsettled
        have hnone : grantRows (w.updateCodes [f.code] (·.redeem f.user claimedAt)).credit f.code = [] := hsettled
        have hnew : (w.updateCodes [f.code] (·.redeem f.user claimedAt)).codes f.code =
            some (row.redeem f.user claimedAt) := by simp [World.updateCodes, hrow]
        rw [if_pos rfl, hnone, hnew]
        exact ⟨_, rfl, congrArg some huser.symm⟩
      · rw [if_neg hcode, List.append_nil, updateCodes_status (by simpa using fun h => hcode h.symm)]
        exact hw.settled code
  | @voids batch taken reply hvoiding =>
    have hlocks : (w.sessions act.sid).locks = taken := by rw [hvoiding]; rfl
    refine Inv.setSession hw.started hapart (fun other code hne hmem => ?_) nofun
      ⟨trivial, fun other _ => hw.writes other⟩ (fun code => ?_)
    · refine ⟨List.not_mem_nil, ?_⟩
      have hnot : code ∉ taken := hlocks ▸ (hothers other code hne hmem).1
      rw [updateCodes_status hnot]
      exact (hothers other code hne hmem).2
    · show Settled ((w.updateCodes taken _).codes code) (grantRows w.credit code)
      by_cases hcode : code ∈ taken
      · have hactive := hw.active act.sid code (by rw [hlocks]; exact hcode)
        obtain ⟨row, hrow, hstatus⟩ := Option.map_eq_some_iff.1 hactive
        have hsettled := hw.settled code
        unfold Settled at hsettled
        rw [hactive] at hsettled
        have hnew : (w.updateCodes taken (·.void)).codes code = some row.void := by simp [World.updateCodes, hrow, hcode]
        rw [hnew]
        exact hsettled
      · rw [updateCodes_status hcode]
        exact hw.settled code

/-! ## codes that are voided -/

theorem void_step {w w' : World} (hw : Inv w) {act : Act} (h : step w act = some w') {code : CodeId}
    (hvoid : (w.codes code).map (·.status) = some .void) : (w'.codes code).map (·.status) = some .void := by
  have hfree : code ∉ (w.sessions act.sid).locks := by
    intro hmem
    rw [hw.active _ _ hmem] at hvoid
    cases hvoid
  cases move_of_step h with
  | moves | locks | grants => exact hvoid
  | @redeems f _ _ _ _ hgranted =>
    have hnot : code ∉ [f.code] := by
      rw [hgranted] at hfree
      exact hfree
    show ((w.updateCodes [f.code] _).codes code).map (·.status) = _
    rw [updateCodes_status hnot]
    exact hvoid
  | @voids _ taken _ hvoiding =>
    have hnot : code ∉ taken := by
      rw [hvoiding] at hfree
      exact hfree
    show ((w.updateCodes taken _).codes code).map (·.status) = _
    rw [updateCodes_status hnot]
    exact hvoid

/-! ## every run -/

structure Start (w : World) : Prop where
  codes : ∀ code row, w.codes code = some row → row.status = .active
  grants : ∀ code, grantRows w.credit code = []
  sessions : ∀ sid, w.sessions sid = .idle

theorem inv_start {w : World} (h : Start w) : Inv w := by
  have hlocks : ∀ sid, (w.sessions sid).locks = [] := fun sid => by rw [h.sessions sid]; rfl
  refine ⟨fun sid _ => h.sessions sid, fun sid other code hmem => ?_, fun sid code hmem => ?_, fun sid => ?_, fun code => ?_⟩
  · rw [hlocks] at hmem
    cases hmem
  · rw [hlocks] at hmem
    cases hmem
  · rw [h.sessions sid]
    trivial
  · unfold Settled
    cases hrow : w.codes code with
    | none => exact h.grants code
    | some row =>
      rw [Option.map_some, h.codes code row hrow]
      exact h.grants code

theorem inv_run {start w : World} (hstart : Start start) (h : Reaches step start w) : Inv w :=
  h.invariant (inv_start hstart) (fun _ _ _ hw _ hs => inv_step hw hs)

theorem void_run {w w' : World} (hw : Inv w) (h : Reaches step w w') {code : CodeId}
    (hvoid : (w.codes code).map (·.status) = some .void) : grantRows w'.credit code = [] := by
  have hend : Inv w' ∧ (w'.codes code).map (·.status) = some .void :=
    h.invariant (P := fun v => Inv v ∧ (v.codes code).map (·.status) = some .void) ⟨hw, hvoid⟩
      (fun _ _ _ hv _ hs => ⟨inv_step hv.1 hs, void_step hv.1 hs hv.2⟩)
  have hsettled := hend.1.settled code
  unfold Settled at hsettled
  rw [hend.2] at hsettled
  exact hsettled

/-- **A code is credited at most once**: in every order of the statements of any calls, with any of them failing anywhere,
a code has one grant row at most; it is redeemed exactly when it has one, and that row is its redeemer's; and a code that is
void has no grant row then or later. -/
theorem redeemed_once {start w w' : World} (hstart : Start start) (h : Reaches step start w) (h' : Reaches step w w')
    (code : CodeId) :
    (grantRows w.credit code).length ≤ 1 ∧
      (∀ row, w.codes code = some row →
        (row.status = .redeemed ↔ ∃ grant, grantRows w.credit code = [grant] ∧ row.redeemedBy = some grant.userId)) ∧
      ((w.codes code).map (·.status) = some .void → grantRows w'.credit code = []) := by
  have hw := inv_run hstart h
  have hsettled := hw.settled code
  unfold Settled at hsettled
  refine ⟨?_, fun row hrow => ?_, void_run hw h'⟩
  · split at hsettled
    · obtain ⟨grant, hgrants, -⟩ := hsettled
      rw [hgrants]
      exact le_rfl
    · rw [hsettled]
      exact Nat.zero_le _
  · rw [hrow, Option.map_some, Option.bind_some] at hsettled
    constructor
    · intro hstatus
      rw [hstatus] at hsettled
      exact hsettled
    · rintro ⟨grant, hgrants, -⟩
      cases hstatus : row.status with
      | redeemed => rfl
      | active | void =>
        rw [hstatus, hgrants] at hsettled
        cases hsettled

def twoCodes : World where
  codes := fun code => if code = "first" ∨ code = "second" then some { batchId := 0 } else none
  ids := ["first", "second"]
  byHash := fun digest => if digest = "digest" then some "first" else none
  batches := fun _ => some { name := "autumn", creditsPerCode := 100 }

theorem twoCodes_start : Start twoCodes := by
  refine ⟨fun code row h => ?_, fun _ => rfl, fun _ => rfl⟩
  simp only [twoCodes] at h
  split_ifs at h
  cases h
  rfl

def race : List Act :=
  [.redeem 0 7 (some "digest") 0, .redeem 1 8 (some "digest") 0, .claim 0 0, .grant 0 0, .voidBatch 2 0, .voidRow 2 "second",
    .commit 0, .claim 1 0, .commit 2]

theorem redeemed_once_race :
    (grantRows (play step twoCodes race).credit "first").length ≤ 1 ∧
      (grantRows (play step twoCodes race).credit "first").length = 1 ∧
      (((play step twoCodes race).codes "second").map (·.status) = some .void →
        grantRows (play step twoCodes race).credit "second" = []) :=
  have hrun : Reaches step twoCodes (play step twoCodes race) := reaches_play (by decide)
  ⟨(redeemed_once twoCodes_start hrun .refl "first").1, by decide, (redeemed_once twoCodes_start hrun .refl "second").2.2⟩

end Redeem
end MyGpt
