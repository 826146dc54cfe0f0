import MyGpt.WechatLogin
/-!
# WechatIdentities — one WeChat for an account, and a way in for every follower

An account that a login has created keeps the email made from its openid.  As long as that openid stays bound, whoever finds
the email taken finds the account; once it is unbound, no login of that follower can succeed again.
-/
namespace MyGpt
namespace Wechat

open Chat (Text)

/-! ## what is asked for -/

def Login.opens : Login → Option Text
  | .naming openid => some openid
  | .inserting openid _ => some openid
  | .binding openid => some openid
  | .rereading openid => some openid
  | _ => none

def State.Bound (s : State) (openid : Text) : Prop := ∃ i ∈ s.identities, i.openid = openid

def State.Holds (s : State) (openid : Text) : Prop := ∃ u ∈ s.users, u.email = syntheticEmail openid

/-- **A login returns the account that the openid is bound to**, or refuses it when it is disabled. -/
def Served.Right (e : Served) : Prop :=
  match e.result with
  | .ok id => ∃ user, e.account = some (id, user) ∧ user.active = true
  | .disabled => ∃ id user, e.account = some (id, user) ∧ user.active = false
  | .raised => False

def State.actor (s : State) : Act → Option Nat
  | .bindCommits b =>
    match s.binds b with
    | .committing user _ _ => some user
    | _ => none
  | .unbindCommits d =>
    match s.unbinds d with
    | .deleting user _ => some user
    | _ => none
  | _ => none

/-- **The contract of identities.** -/
structure Sound (s : State) : Prop where
  openids : ∀ i ∈ s.identities, ∀ j ∈ s.identities, i.openid = j.openid → i = j
  accounts : ∀ i ∈ s.identities, ∀ j ∈ s.identities, i.user = j.user → i = j
  served : ∀ e ∈ s.log, e.Right
  kept : ∀ act s', step s act = some s' → ∀ i ∈ s.identities, i ∈ s'.identities ∨ s.actor act = some i.user
  signsIn : ∀ t openid draws, s.logins t = .idle → s.pending = [] →
    s.taken (uniqueUsername s.taken (baseUsername openid) (baseUsername openid) 5 draws) = false →
    ∃ s' e, alone s t openid draws = some s' ∧ s'.log = s.log ++ [e] ∧ e.openid = openid ∧ e.Right ∧
      (s.account openid = none → e.result = .ok s.users.length)

/-- **The condition.**  A binding goes away only when no account holds the email made from its openid; a bind of an openid
does not commit while a login of it is past its lookup, nor after another bind of its account; and a name that a login has
chosen is still free. -/
def StepOk (s : State) : Act → Prop
  | .flushes t => ∀ openid username, s.logins t = .inserting openid username → s.Holds openid ∨ s.taken username = false
  | .bindCommits b => ∀ user openid mine, s.binds b = .committing user openid mine → ¬ s.Bound openid →
      (∀ i ∈ s.identities, i.user = user → mine = some i.id) ∧ (∀ t, (s.logins t).opens ≠ some openid) ∧
        ∀ i ∈ s.identities, mine = some i.id → ¬ s.Holds i.openid
  | .unbindCommits d => ∀ user mine, s.unbinds d = .deleting user mine →
      ∀ i ∈ s.identities, i.id = mine → ¬ s.Holds i.openid
  | _ => True

/-! ## the invariant -/

/-- The rows of `wechat_identities`. -/
structure Rows (s : State) : Prop where
  fresh : ∀ i ∈ s.identities, i.id < s.nextIdentity
  ids : ∀ i ∈ s.identities, ∀ j ∈ s.identities, i.id = j.id → i = j
  openids : ∀ i ∈ s.identities, ∀ j ∈ s.identities, i.openid = j.openid → i = j
  accounts : ∀ i ∈ s.identities, ∀ j ∈ s.identities, i.user = j.user → i = j
  owners : ∀ i ∈ s.identities, i.user < s.users.length

/-- **An account with the email of an openid means that the openid is bound**, and the other way round for an openid that
a login has found unbound. -/
structure Emails (s : State) : Prop where
  bound : ∀ openid, s.Holds openid → s.Bound openid
  holds : ∀ t openid, (s.logins t).opens = some openid → s.Bound openid → s.Holds openid
  rereads : ∀ t openid, s.logins t = .rereading openid → s.Holds openid

structure Pending (s : State) : Prop where
  row : ∀ t openid, s.logins t = .binding openid → ∃ user, (t, user) ∈ s.pending
  login : ∀ p ∈ s.pending, p.2.active = true ∧ ∃ openid, s.logins p.1 = .binding openid ∧ p.2.email = syntheticEmail openid
  unheld : ∀ p ∈ s.pending, ∀ u ∈ s.users, u.email ≠ p.2.email
  one : ∀ p ∈ s.pending, ∀ q ∈ s.pending, p.2.email = q.2.email → p = q

structure Mine (s : State) : Prop where
  users : ∀ b user openid, s.binds b = .reading user openid → user < s.users.length
  committers : ∀ b user openid mine, s.binds b = .committing user openid mine → user < s.users.length
  binds : ∀ b user openid m, s.binds b = .committing user openid (some m) →
    m < s.nextIdentity ∧ ∀ i ∈ s.identities, i.id = m → i.user = user
  unbinds : ∀ d user m, s.unbinds d = .deleting user m →
    m < s.nextIdentity ∧ ∀ i ∈ s.identities, i.id = m → i.user = user

structure Inv (s : State) : Prop where
  rows : Rows s
  emails : Emails s
  pending : Pending s
  mine : Mine s
  served : ∀ e ∈ s.log, e.Right

/-! ## emails and lookups -/

theorem syntheticEmail_inj {o o' : Text} (h : syntheticEmail o = syntheticEmail o') : o = o' := by
  unfold syntheticEmail at h
  rw [List.append_left_inj, List.append_right_inj] at h
  exact h

theorem suffix_syntheticEmail (openid : Text) : syntheticDomain.isSuffixOf (syntheticEmail openid) = true := by
  rw [List.isSuffixOf_iff_suffix]
  exact List.suffix_append _ _

theorem User.clashes_eq_false {user other : User} :
    user.clashes other = false ↔ other.email ≠ user.email ∧ other.username ≠ user.username := by
  simp [User.clashes]

theorem State.identity_isSome {s : State} {openid : Text} : (s.identity openid).isSome = true ↔ s.Bound openid := by
  simp [State.identity, State.Bound]

theorem State.identity_eq_none {s : State} {openid : Text} : s.identity openid = none ↔ ¬ s.Bound openid := by
  rw [← State.identity_isSome, Option.not_isSome_iff_eq_none]

theorem Rows.account_eq_none {s : State} (h : Rows s) {openid : Text} : s.account openid = none ↔ ¬ s.Bound openid := by
  rw [← State.identity_eq_none]
  unfold State.account
  cases hfind : s.identity openid with
  | none => simp
  | some i =>
    have hlt := h.owners i (List.mem_of_find?_eq_some hfind)
    simp [List.getElem?_eq_getElem hlt]

theorem right_enter (openid : Text) (account : Nat × User) : Served.Right ⟨openid, enter account, some account⟩ := by
  unfold enter Served.Right
  cases hactive : account.2.active with
  | true => exact ⟨account.2, rfl, hactive⟩
  | false => exact ⟨account.1, account.2, rfl, hactive⟩

section steps

variable {s : State}

theorem Rows.same (h : Rows s) {s' : State} (hidentities : s'.identities = s.identities)
    (hnext : s'.nextIdentity = s.nextIdentity) (husers : s.users.length ≤ s'.users.length) : Rows s' := by
  refine ⟨?_, ?_, ?_, ?_, ?_⟩
  · rw [hidentities, hnext]
    exact h.fresh
  · rw [hidentities]
    exact h.ids
  · rw [hidentities]
    exact h.openids
  · rw [hidentities]
    exact h.accounts
  · intro i hi
    rw [hidentities] at hi
    exact Nat.lt_of_lt_of_le (h.owners i hi) husers

theorem Mine.rows (h : Mine s) {s' : State} (hbinds : s'.binds = s.binds) (hunbinds : s'.unbinds = s.unbinds)
    (hidentities : ∀ i ∈ s'.identities, i ∈ s.identities ∨ i.id = s.nextIdentity)
    (hnext : s.nextIdentity ≤ s'.nextIdentity) (husers : s.users.length ≤ s'.users.length) : Mine s' := by
  refine ⟨?_, ?_, ?_, ?_⟩
  · intro b user openid hb
    rw [hbinds] at hb
    exact Nat.lt_of_lt_of_le (h.users b user openid hb) husers
  · intro b user openid mine hb
    rw [hbinds] at hb
    exact Nat.lt_of_lt_of_le (h.committers b user openid mine hb) husers
  · intro b user openid m hb
    rw [hbinds] at hb
    obtain ⟨hlt, howner⟩ := h.binds b user openid m hb
    refine ⟨Nat.lt_of_lt_of_le hlt hnext, ?_⟩
    intro i hi him
    rcases hidentities i hi with hi | hi
    · exact howner i hi him
    · omega
  · intro d user m hd
    rw [hunbinds] at hd
    obtain ⟨hlt, howner⟩ := h.unbinds d user m hd
    refine ⟨Nat.lt_of_lt_of_le hlt hnext, ?_⟩
    intro i hi him
    rcases hidentities i hi with hi | hi
    · exact howner i hi him
    · omega

theorem Mine.same (h : Mine s) {s' : State} (hbinds : s'.binds = s.binds) (hunbinds : s'.unbinds = s.unbinds)
    (hidentities : s'.identities = s.identities) (hnext : s'.nextIdentity = s.nextIdentity)
    (husers : s.users.length ≤ s'.users.length) : Mine s' := by
  refine h.rows hbinds hunbinds ?_ (Nat.le_of_eq hnext.symm) husers
  intro i hi
  rw [hidentities] at hi
  exact .inl hi

/-! ## logins -/

theorem Inv.setLogin (h : Inv s) {t : Nat} {login : Login} (hnot : ∀ openid, s.logins t ≠ .binding openid)
    (hopens : ∀ openid, login.opens = some openid → s.Bound openid → s.Holds openid)
    (hrereads : ∀ openid, login = .rereading openid → s.Holds openid) (hbinding : ∀ openid, login ≠ .binding openid) :
    Inv (s.setLogin t login) := by
  refine ⟨h.rows.same rfl rfl (Nat.le_refl _), ⟨h.emails.bound, ?_, ?_⟩, ⟨?_, ?_, h.pending.unheld, h.pending.one⟩,
    h.mine.same rfl rfl rfl rfl (Nat.le_refl _), h.served⟩
  · intro t' openid hopen
    by_cases ht : t' = t
    · subst ht
      exact hopens openid (by simpa [State.setLogin] using hopen)
    · exact h.emails.holds t' openid (by simpa [State.setLogin, ht] using hopen)
  · intro t' openid hlogin
    by_cases ht : t' = t
    · subst ht
      exact hrereads openid (by simpa [State.setLogin] using hlogin)
    · exact h.emails.rereads t' openid (by simpa [State.setLogin, ht] using hlogin)
  · intro t' openid hlogin
    by_cases ht : t' = t
    · subst ht
      exact absurd (by simpa [State.setLogin] using hlogin) (hbinding openid)
    · exact h.pending.row t' openid (by simpa [State.setLogin, ht] using hlogin)
  · intro p hp
    obtain ⟨hactive, openid, hlogin, hemail⟩ := h.pending.login p hp
    have hne : p.1 ≠ t := by
      rintro rfl
      exact hnot openid hlogin
    exact ⟨hactive, openid, by simpa [State.setLogin, hne] using hlogin, hemail⟩

theorem Inv.serve (h : Inv s) {t : Nat} {openid : Text} {result : Result} (hnot : ∀ openid, s.logins t ≠ .binding openid)
    (hright : Served.Right ⟨openid, result, s.account openid⟩) : Inv (s.serve t openid result) := by
  have hdone : Inv (s.setLogin t .done) := by
    apply h.setLogin hnot
    · intro o ho
      cases ho
    · intro o ho
      cases ho
    · intro o ho
      cases ho
  refine ⟨hdone.rows.same rfl rfl (Nat.le_refl _), ⟨hdone.emails.bound, hdone.emails.holds, hdone.emails.rereads⟩,
    ⟨hdone.pending.row, hdone.pending.login, hdone.pending.unheld, hdone.pending.one⟩,
    hdone.mine.same rfl rfl rfl rfl (Nat.le_refl _), ?_⟩
  intro e he
  rcases List.mem_append.1 he with he | he
  · exact h.served e he
  · rw [List.mem_singleton] at he
    subst he
    exact hright

theorem Inv.scans (h : Inv s) {s' : State} {t : Nat} {openid : Text} (hstep : step s (.scans t openid) = some s') : Inv s' := by
  simp only [step] at hstep
  split at hstep
  next hidle =>
    have hnot : ∀ o, s.logins t ≠ .binding o := by simp [hidle]
    split at hstep
    · rename_i account haccount
      cases hstep
      exact h.serve hnot (haccount ▸ right_enter openid account)
    next hnone =>
      cases hstep
      refine h.setLogin hnot ?_ (fun o ho => nomatch ho) (fun o ho => nomatch ho)
      intro o ho hbound
      obtain rfl : openid = o := by simpa [Login.opens] using ho
      exact absurd hbound (h.rows.account_eq_none.1 hnone)
  · cases hstep

theorem Inv.names (h : Inv s) {s' : State} {t : Nat} {draws : List Text} (hstep : step s (.names t draws) = some s') :
    Inv s' := by
  simp only [step] at hstep
  split at hstep
  · rename_i openid hnaming
    cases hstep
    refine h.setLogin (by simp [hnaming]) ?_ (fun o ho => nomatch ho) (fun o ho => nomatch ho)
    intro o ho
    exact h.emails.holds t o (by simpa [Login.opens, hnaming] using ho)
  · cases hstep

theorem holds_of_clash {openid username : Text} (hok : s.Holds openid ∨ s.taken username = false)
    (hclash : s.users.any (User.clashes ⟨syntheticEmail openid, username, true⟩) = true) : s.Holds openid := by
  rcases hok with hholds | hfree
  · exact hholds
  · obtain ⟨u, hu, hclashes⟩ := List.any_eq_true.1 hclash
    have hname : u.username ≠ username := by
      intro heq
      have htaken : s.taken username = true := List.any_eq_true.2 ⟨u, hu, by simpa using heq⟩
      rw [hfree] at htaken
      cases htaken
    exact ⟨u, hu, by simpa [User.clashes, hname] using hclashes⟩

theorem Inv.flushes (h : Inv s) {s' : State} {t : Nat} (hok : StepOk s (.flushes t)) (hstep : step s (.flushes t) = some s') :
    Inv s' := by
  simp only [step] at hstep
  split at hstep
  · rename_i openid username hinserting
    have hholds := h.emails.holds t openid (by rw [hinserting]; rfl)
    split at hstep
    · cases hstep
    next hwaits =>
      split at hstep
      next hclash =>
        cases hstep
        have hheld := holds_of_clash (hok openid username hinserting) hclash
        refine h.setLogin (by simp [hinserting]) ?_ ?_ (fun o ho => nomatch ho)
        · intro o ho _
          obtain rfl : openid = o := by simpa [Login.opens] using ho
          exact hheld
        · intro o ho
          cases ho
          exact hheld
      next hfree =>
        cases hstep
        simp only [Bool.not_eq_true, List.any_eq_false, User.clashes_eq_false, Bool.not_eq_true] at hwaits hfree
        refine ⟨h.rows.same rfl rfl (Nat.le_refl _), ⟨h.emails.bound, ?_, ?_⟩, ⟨?_, ?_, ?_, ?_⟩,
          h.mine.same rfl rfl rfl rfl (Nat.le_refl _), h.served⟩
        · intro t' o hopen
          by_cases ht : t' = t
          · subst ht
            obtain rfl : openid = o := by simpa [State.setLogin, Login.opens] using hopen
            exact hholds
          · exact h.emails.holds t' o (by simpa [State.setLogin, ht] using hopen)
        · intro t' o hlogin
          by_cases ht : t' = t
          · subst ht
            simp [State.setLogin] at hlogin
          · exact h.emails.rereads t' o (by simpa [State.setLogin, ht] using hlogin)
        · intro t' o hlogin
          by_cases ht : t' = t
          · subst ht
            exact ⟨_, List.mem_cons_self⟩
          · obtain ⟨user, huser⟩ := h.pending.row t' o (by simpa [State.setLogin, ht] using hlogin)
            exact ⟨user, List.mem_cons_of_mem _ huser⟩
        · intro p hp
          rcases List.mem_cons.1 hp with rfl | hp
          · exact ⟨rfl, openid, by simp [State.setLogin], rfl⟩
          · obtain ⟨hactive, o, hlogin, hemail⟩ := h.pending.login p hp
            have hne : p.1 ≠ t := by
              intro heq
              rw [heq, hinserting] at hlogin
              cases hlogin
            exact ⟨hactive, o, by simpa [State.setLogin, hne] using hlogin, hemail⟩
        · intro p hp u hu
          rcases List.mem_cons.1 hp with rfl | hp
          · exact (hfree u hu).1
          · exact h.pending.unheld p hp u hu
        · intro p hp q hq heq
          rcases List.mem_cons.1 hp with rfl | hp
          · rcases List.mem_cons.1 hq with rfl | hq
            · rfl
            · exact absurd heq.symm (hwaits q hq).1
          · rcases List.mem_cons.1 hq with rfl | hq
            · exact absurd heq (hwaits p hp).1
            · exact h.pending.one p hp q hq heq
  · cases hstep

theorem Inv.rereads (h : Inv s) {s' : State} {t : Nat} (hstep : step s (.rereads t) = some s') : Inv s' := by
  simp only [step] at hstep
  split at hstep
  · rename_i openid hrereading
    have hnot : ∀ o, s.logins t ≠ .binding o := by simp [hrereading]
    split at hstep
    · rename_i account haccount
      cases hstep
      exact h.serve hnot (haccount ▸ right_enter openid account)
    next hnone =>
      -- the account that the INSERT has met is bound
      exact absurd (h.emails.bound openid (h.emails.rereads t openid hrereading)) (h.rows.account_eq_none.1 hnone)
  · cases hstep

theorem Rows.append (h : Rows s) {s' : State} {openid : Text} {user : Nat}
    (hidentities : s'.identities = s.identities ++ [⟨s.nextIdentity, openid, user⟩])
    (hnext : s'.nextIdentity = s.nextIdentity + 1) (husers : s.users.length ≤ s'.users.length)
    (hfree : ¬ s.Bound openid) (hsingle : ∀ i ∈ s.identities, i.user ≠ user) (huser : user < s'.users.length) : Rows s' := by
  have hcases : ∀ {i}, i ∈ s'.identities → i ∈ s.identities ∨ i = ⟨s.nextIdentity, openid, user⟩ := by
    intro i hi
    rw [hidentities] at hi
    simpa using hi
  refine ⟨?_, ?_, ?_, ?_, ?_⟩
  · intro i hi
    rcases hcases hi with hi | rfl
    · have := h.fresh i hi
      omega
    · simp only
      omega
  · intro i hi j hj heq
    rcases hcases hi with hi | rfl
    · rcases hcases hj with hj | rfl
      · exact h.ids i hi j hj heq
      · exact absurd heq (Nat.ne_of_lt (h.fresh i hi))
    · rcases hcases hj with hj | rfl
      · exact absurd heq.symm (Nat.ne_of_lt (h.fresh j hj))
      · rfl
  · intro i hi j hj heq
    rcases hcases hi with hi | rfl
    · rcases hcases hj with hj | rfl
      · exact h.openids i hi j hj heq
      · exact absurd ⟨i, hi, heq⟩ hfree
    · rcases hcases hj with hj | rfl
      · exact absurd ⟨j, hj, heq.symm⟩ hfree
      · rfl
  · intro i hi j hj heq
    rcases hcases hi with hi | rfl
    · rcases hcases hj with hj | rfl
      · exact h.accounts i hi j hj heq
      · exact absurd heq (hsingle i hi)
    · rcases hcases hj with hj | rfl
      · exact absurd heq.symm (hsingle j hj)
      · rfl
  · intro i hi
    rcases hcases hi with hi | rfl
    · exact Nat.lt_of_lt_of_le (h.owners i hi) husers
    · exact huser

theorem Rows.filter (h : Rows s) {s' : State} (p : Identity → Bool) (hidentities : s'.identities = s.identities.filter p)
    (hnext : s'.nextIdentity = s.nextIdentity) (husers : s.users.length ≤ s'.users.length) : Rows s' := by
  have hin : ∀ {i}, i ∈ s'.identities → i ∈ s.identities := by
    intro i hi
    rw [hidentities] at hi
    exact (List.mem_filter.1 hi).1
  refine ⟨?_, ?_, ?_, ?_, ?_⟩
  · intro i hi
    rw [hnext]
    exact h.fresh i (hin hi)
  · exact fun i hi j hj => h.ids i (hin hi) j (hin hj)
  · exact fun i hi j hj => h.openids i (hin hi) j (hin hj)
  · exact fun i hi j hj => h.accounts i (hin hi) j (hin hj)
  · exact fun i hi => Nat.lt_of_lt_of_le (h.owners i (hin hi)) husers

theorem Rows.account_of_mem (h : Rows s) {i : Identity} (user : User) (hi : i ∈ s.identities)
    (huser : s.users[i.user]? = some user) : s.account i.openid = some (i.user, user) := by
  unfold State.account
  cases hfind : s.identity i.openid with
  | none => exact absurd ⟨i, hi, rfl⟩ (State.identity_eq_none.1 hfind)
  | some j =>
    have hopenid := List.find?_some hfind
    obtain rfl := h.openids j (List.mem_of_find?_eq_some hfind) i hi (by simpa using hopenid)
    simp [huser]

theorem Inv.createAccount (h : Inv s) {t : Nat} {openid : Text} {user : User} (hlogin : s.logins t = .binding openid)
    (hpending : (t, user) ∈ s.pending) (hfree : ¬ s.Bound openid) : Inv (s.createAccount t openid user) := by
  obtain ⟨hactive, o, ho, hemail⟩ := h.pending.login _ hpending
  obtain rfl : openid = o := by
    rw [hlogin] at ho
    exact Login.binding.inj ho
  have hheld : ∀ o, (s.createAccount t openid user).Holds o ↔ s.Holds o ∨ o = openid := by
    intro o
    simp only [State.Holds, State.createAccount, State.serve, List.mem_append, List.mem_singleton]
    constructor
    · rintro ⟨u, hu | rfl, hmail⟩
      · exact .inl ⟨u, hu, hmail⟩
      · exact .inr (syntheticEmail_inj (hmail.symm.trans hemail))
    · rintro (⟨u, hu, hmail⟩ | rfl)
      · exact ⟨u, .inl hu, hmail⟩
      · exact ⟨user, .inr rfl, hemail⟩
  have hbound : ∀ o, (s.createAccount t openid user).Bound o ↔ s.Bound o ∨ o = openid := by
    intro o
    simp only [State.Bound, State.createAccount, State.serve, List.mem_append, List.mem_singleton]
    constructor
    · rintro ⟨i, hi | rfl, hopenid⟩
      · exact .inl ⟨i, hi, hopenid⟩
      · exact .inr hopenid.symm
    · rintro (⟨i, hi, hopenid⟩ | rfl)
      · exact ⟨i, .inl hi, hopenid⟩
      · exact ⟨_, .inr rfl, rfl⟩
  have hlogins : ∀ {t' : Nat} {login : Login}, login ≠ .done → (s.createAccount t openid user).logins t' = login →
      t' ≠ t ∧ s.logins t' = login := by
    intro t' login hne hat
    by_cases ht : t' = t
    · subst ht
      exact absurd (by simpa [State.createAccount, State.serve] using hat.symm) hne
    · exact ⟨ht, by simpa [State.createAccount, State.serve, ht] using hat⟩
  have hrows : Rows (s.createAccount t openid user) := by
    refine h.rows.append rfl rfl ?_ hfree ?_ ?_
    · simp [State.createAccount, State.serve]
    · intro i hi
      exact Nat.ne_of_lt (h.rows.owners i hi)
    · simp [State.createAccount, State.serve]
  refine ⟨hrows, ⟨?_, ?_, ?_⟩, ⟨?_, ?_, ?_, ?_⟩, ?_, ?_⟩
  · intro o hholds
    rw [hbound]
    rcases (hheld o).1 hholds with hholds | rfl
    · exact .inl (h.emails.bound o hholds)
    · exact .inr rfl
  · intro t' o hopen hb
    rw [hheld]
    rcases (hbound o).1 hb with hb | rfl
    · have hne : (s.createAccount t openid user).logins t' ≠ .done := by
        intro hdone
        rw [hdone] at hopen
        cases hopen
      obtain ⟨-, hsame⟩ := hlogins hne rfl
      rw [← hsame] at hopen
      exact .inl (h.emails.holds t' o hopen hb)
    · exact .inr rfl
  · intro t' o hat
    obtain ⟨-, hsame⟩ := hlogins (by simp) hat
    exact (hheld o).2 (.inl (h.emails.rereads t' o hsame))
  · intro t' o hat
    obtain ⟨hne, hsame⟩ := hlogins (by simp) hat
    obtain ⟨u, hu⟩ := h.pending.row t' o hsame
    exact ⟨u, List.mem_filter.2 ⟨hu, by simpa using hne⟩⟩
  · intro p hp
    obtain ⟨hp, hne⟩ := List.mem_filter.1 hp
    obtain ⟨hact, o, hat, hmail⟩ := h.pending.login p hp
    have hnt : p.1 ≠ t := by simpa using hne
    exact ⟨hact, o, by simpa [State.createAccount, State.serve, hnt] using hat, hmail⟩
  · intro p hp u hu
    obtain ⟨hold, hne⟩ := List.mem_filter.1 hp
    rcases List.mem_append.1 hu with hu | hu
    · exact h.pending.unheld p hold u hu
    · rw [List.mem_singleton] at hu
      subst hu
      intro heq
      have hsame := h.pending.one _ hpending p hold heq
      simp [← hsame] at hne
  · intro p hp q hq
    exact h.pending.one p (List.mem_filter.1 hp).1 q (List.mem_filter.1 hq).1
  · refine h.mine.rows rfl rfl ?_ (Nat.le_succ _) ?_
    · intro i hi
      rcases List.mem_append.1 hi with hi | hi
      · exact .inl hi
      · rw [List.mem_singleton] at hi
        exact .inr (by rw [hi])
    · simp [State.createAccount, State.serve]
  · intro e he
    rcases List.mem_append.1 he with he | he
    · exact h.served e he
    · rw [List.mem_singleton] at he
      subst he
      refine ⟨user, ?_, hactive⟩
      exact hrows.account_of_mem (i := ⟨s.nextIdentity, openid, s.users.length⟩) user
        (by simp [State.createAccount, State.serve]) (by simp [State.createAccount, State.serve])

theorem Inv.unbound (h : Inv s) {t : Nat} {openid : Text} (hlogin : s.logins t = .binding openid) : ¬ s.Bound openid := by
  intro hbound
  obtain ⟨user, huser⟩ := h.pending.row t openid hlogin
  obtain ⟨-, o, ho, hemail⟩ := h.pending.login _ huser
  obtain rfl : openid = o := by
    rw [hlogin] at ho
    exact Login.binding.inj ho
  obtain ⟨u, hu, hmail⟩ := h.emails.holds t openid (by rw [hlogin]; rfl) hbound
  exact h.pending.unheld _ huser u hu (hmail.trans hemail.symm)

theorem Inv.commits (h : Inv s) {s' : State} {t : Nat} (hstep : step s (.commits t) = some s') : Inv s' := by
  simp only [step] at hstep
  split at hstep
  · rename_i openid t' user hlogin hfind
    have hin := List.mem_of_find?_eq_some hfind
    obtain rfl : t' = t := by simpa using List.find?_some hfind
    have hfree := h.unbound hlogin
    split at hstep
    next i hsome => exact absurd (State.identity_isSome.1 (by rw [hsome]; rfl)) hfree
    · cases hstep
      exact h.createAccount hlogin hin hfree
  · cases hstep

/-! ## accounts -/

theorem Inv.users (h : Inv s) {s' : State} (hidentities : s'.identities = s.identities)
    (hnext : s'.nextIdentity = s.nextIdentity) (hpending : s'.pending = s.pending) (hlogins : s'.logins = s.logins)
    (hbinds : s'.binds = s.binds) (hunbinds : s'.unbinds = s.unbinds) (hlog : s'.log = s.log)
    (hlength : s.users.length ≤ s'.users.length) (hholds : ∀ openid, s'.Holds openid ↔ s.Holds openid)
    (hunheld : ∀ p ∈ s.pending, ∀ u ∈ s'.users, u.email ≠ p.2.email) : Inv s' := by
  have hbound : ∀ openid, s'.Bound openid ↔ s.Bound openid := by
    intro openid
    unfold State.Bound
    rw [hidentities]
  refine ⟨h.rows.same hidentities hnext hlength, ⟨?_, ?_, ?_⟩, ⟨?_, ?_, ?_, ?_⟩,
    h.mine.same hbinds hunbinds hidentities hnext hlength, ?_⟩
  · intro openid hheld
    exact (hbound openid).2 (h.emails.bound openid ((hholds openid).1 hheld))
  · intro t openid hopen hb
    rw [hlogins] at hopen
    exact (hholds openid).2 (h.emails.holds t openid hopen ((hbound openid).1 hb))
  · intro t openid hlogin
    rw [hlogins] at hlogin
    exact (hholds openid).2 (h.emails.rereads t openid hlogin)
  · rw [hlogins, hpending]
    exact h.pending.row
  · rw [hlogins, hpending]
    exact h.pending.login
  · rw [hpending]
    exact hunheld
  · rw [hpending]
    exact h.pending.one
  · rw [hlog]
    exact h.served

theorem Inv.registers (h : Inv s) {s' : State} {email username : Text} (hstep : step s (.registers email username) = some s') :
    Inv s' := by
  simp only [step] at hstep
  split at hstep
  · cases hstep
  next hallowed =>
    cases hstep
    simp only [Bool.or_eq_true, not_or, Bool.not_eq_true, List.any_eq_false, User.clashes_eq_false] at hallowed
    obtain ⟨⟨hdomain, -⟩, hwaits⟩ := hallowed
    refine h.users rfl rfl rfl rfl rfl rfl rfl (by simp) ?_ ?_
    · intro openid
      simp only [State.Holds, List.mem_append, List.mem_singleton]
      constructor
      · rintro ⟨u, hu | rfl, hmail⟩
        · exact ⟨u, hu, hmail⟩
        · have hreserved := suffix_syntheticEmail openid
          rw [← hmail, hdomain] at hreserved
          cases hreserved
      · rintro ⟨u, hu, hmail⟩
        exact ⟨u, .inl hu, hmail⟩
    · intro p hp u hu
      rcases List.mem_append.1 hu with hu | hu
      · exact h.pending.unheld p hp u hu
      · rw [List.mem_singleton] at hu
        subst hu
        exact (hwaits p hp).1.symm

theorem Inv.setsActive (h : Inv s) {s' : State} {user : Nat} {active : Bool}
    (hstep : step s (.setsActive user active) = some s') : Inv s' := by
  cases hstep
  have hemails : ∀ email, (∃ u ∈ s.users.modify user (fun u => { u with active := active }), u.email = email) ↔
      ∃ u ∈ s.users, u.email = email := by
    intro email
    have hmap : (s.users.modify user (fun u => { u with active := active })).map (·.email) = s.users.map (·.email) := by
      apply List.ext_getElem?
      intro k
      rw [List.getElem?_map, List.getElem?_map, List.getElem?_modify]
      cases s.users[k]? with
      | none => rfl
      | some u => by_cases hk : user = k <;> simp [hk]
    have hmem := congrArg (email ∈ ·) hmap
    simpa using hmem
  refine h.users rfl rfl rfl rfl rfl rfl rfl (by simp) (fun openid => hemails _) ?_
  intro p hp u hu heq
  obtain ⟨u', hu', hsame⟩ := (hemails p.2.email).1 ⟨u, hu, heq⟩
  exact h.pending.unheld p hp u' hu' hsame

/-! ## binds and unbinds -/

def Bind.Reads (s : State) : Bind → Prop
  | .reading user _ => user < s.users.length
  | .committing user _ mine => user < s.users.length ∧
      ∀ m, mine = some m → m < s.nextIdentity ∧ ∀ i ∈ s.identities, i.id = m → i.user = user
  | _ => True

def Unbind.Reads (s : State) : Unbind → Prop
  | .deleting user m => m < s.nextIdentity ∧ ∀ i ∈ s.identities, i.id = m → i.user = user
  | _ => True

theorem Inv.setBind (h : Inv s) (b : Nat) {bind : Bind} (hreads : bind.Reads s) : Inv (s.setBind b bind) := by
  refine ⟨h.rows.same rfl rfl (Nat.le_refl _), ⟨h.emails.bound, h.emails.holds, h.emails.rereads⟩,
    ⟨h.pending.row, h.pending.login, h.pending.unheld, h.pending.one⟩, ⟨?_, ?_, ?_, h.mine.unbinds⟩, h.served⟩
  · intro b' user openid hat
    by_cases hb : b' = b
    · subst hb
      obtain rfl : bind = .reading user openid := by simpa [State.setBind] using hat
      exact hreads
    · exact h.mine.users b' user openid (by simpa [State.setBind, hb] using hat)
  · intro b' user openid mine hat
    by_cases hb : b' = b
    · subst hb
      obtain rfl : bind = .committing user openid mine := by simpa [State.setBind] using hat
      exact hreads.1
    · exact h.mine.committers b' user openid mine (by simpa [State.setBind, hb] using hat)
  · intro b' user openid m hat
    by_cases hb : b' = b
    · subst hb
      obtain rfl : bind = .committing user openid (some m) := by simpa [State.setBind] using hat
      exact hreads.2 m rfl
    · exact h.mine.binds b' user openid m (by simpa [State.setBind, hb] using hat)

theorem Inv.setUnbind (h : Inv s) (d : Nat) {unbind : Unbind} (hreads : unbind.Reads s) : Inv (s.setUnbind d unbind) := by
  refine ⟨h.rows.same rfl rfl (Nat.le_refl _), ⟨h.emails.bound, h.emails.holds, h.emails.rereads⟩,
    ⟨h.pending.row, h.pending.login, h.pending.unheld, h.pending.one⟩,
    ⟨h.mine.users, h.mine.committers, h.mine.binds, ?_⟩, h.served⟩
  intro d' user m hat
  by_cases hd : d' = d
  · subst hd
    obtain rfl : unbind = .deleting user m := by simpa [State.setUnbind] using hat
    exact hreads
  · exact h.mine.unbinds d' user m (by simpa [State.setUnbind, hd] using hat)

theorem Inv.mine_found (h : Inv s) {user : Nat} {i : Identity} (hfind : s.identities.find? (fun i => i.user = user) = some i) :
    i.id < s.nextIdentity ∧ ∀ j ∈ s.identities, j.id = i.id → j.user = user := by
  have hin := List.mem_of_find?_eq_some hfind
  have huser : i.user = user := by simpa using List.find?_some hfind
  refine ⟨h.rows.fresh i hin, ?_⟩
  intro j hj heq
  rw [h.rows.ids j hj i hin heq]
  exact huser

theorem Inv.binds (h : Inv s) {s' : State} {b user : Nat} {openid : Text} (hstep : step s (.binds b user openid) = some s') :
    Inv s' := by
  simp only [step] at hstep
  split at hstep
  · split at hstep
    next huser =>
      split at hstep
      · cases hstep
        exact h.setBind b trivial
      · cases hstep
        exact h.setBind b huser
    · cases hstep
  · cases hstep

theorem Inv.bindReads (h : Inv s) {s' : State} {b : Nat} (hstep : step s (.bindReads b) = some s') : Inv s' := by
  simp only [step] at hstep
  split at hstep
  · rename_i user openid hreading
    cases hstep
    refine h.setBind b ⟨h.mine.users b user openid hreading, ?_⟩
    intro m hm
    obtain ⟨i, hfind, rfl⟩ := Option.map_eq_some_iff.1 hm
    exact h.mine_found hfind
  · cases hstep

theorem Inv.unbinds (h : Inv s) {s' : State} {d user : Nat} (hstep : step s (.unbinds d user) = some s') : Inv s' := by
  simp only [step] at hstep
  split at hstep
  · split at hstep
    · rename_i i hfind
      cases hstep
      exact h.setUnbind d (h.mine_found hfind)
    · cases hstep
      exact h.setUnbind d trivial
  · cases hstep

/-- **Bindings go and come**: those that go are of openids whose email no account holds, those that come of openids that no
login has looked up. -/
theorem Inv.rebinds (h : Inv s) {s' : State} (hrows : Rows s') (hmine : Mine s') (husers : s'.users = s.users)
    (hpending : s'.pending = s.pending) (hlogins : s'.logins = s.logins) (hlog : s'.log = s.log)
    (hgone : ∀ i ∈ s.identities, i ∈ s'.identities ∨ ¬ s.Holds i.openid)
    (hcome : ∀ i ∈ s'.identities, i ∈ s.identities ∨ ∀ t, (s.logins t).opens ≠ some i.openid) : Inv s' := by
  have hholds : ∀ openid, s'.Holds openid ↔ s.Holds openid := by
    intro openid
    unfold State.Holds
    rw [husers]
  refine ⟨hrows, ⟨?_, ?_, ?_⟩, ⟨?_, ?_, ?_, ?_⟩, hmine, ?_⟩
  · intro openid hheld
    obtain ⟨i, hi, rfl⟩ := h.emails.bound openid ((hholds openid).1 hheld)
    rcases hgone i hi with hstays | hfree
    · exact ⟨i, hstays, rfl⟩
    · exact absurd ((hholds i.openid).1 hheld) hfree
  · rintro t openid hopen ⟨i, hi, rfl⟩
    rw [hlogins] at hopen
    rcases hcome i hi with hold | hnew
    · exact (hholds i.openid).2 (h.emails.holds t i.openid hopen ⟨i, hold, rfl⟩)
    · exact absurd hopen (hnew t)
  · intro t openid hlogin
    rw [hlogins] at hlogin
    exact (hholds openid).2 (h.emails.rereads t openid hlogin)
  · rw [hlogins, hpending]
    exact h.pending.row
  · rw [hlogins, hpending]
    exact h.pending.login
  · rw [hpending, husers]
    exact h.pending.unheld
  · rw [hpending]
    exact h.pending.one
  · rw [hlog]
    exact h.served

theorem Inv.bindCommits (h : Inv s) {s' : State} {b : Nat} (hok : StepOk s (.bindCommits b))
    (hstep : step s (.bindCommits b) = some s') : Inv s' := by
  simp only [step] at hstep
  split at hstep
  · rename_i user openid mine hcommitting
    split at hstep
    · cases hstep
      exact h.setBind b trivial
    next hnone =>
      cases hstep
      rw [State.identity_isSome] at hnone
      obtain ⟨hown, hidle, hfree⟩ := hok user openid mine hcommitting hnone
      -- without its own binding the account has none
      have hrows : Rows { s with identities := s.identities.filter (fun i => some i.id ≠ mine) } :=
        h.rows.filter _ rfl rfl (Nat.le_refl _)
      have hattached : Inv (s.attach user openid mine) := by
        refine h.rebinds ?_ ?_ rfl rfl rfl rfl ?_ ?_
        · refine hrows.append rfl rfl (Nat.le_refl _) ?_ ?_ (h.mine.committers b user openid mine hcommitting)
          · rintro ⟨i, hi, hopenid⟩
            exact hnone ⟨i, (List.mem_filter.1 hi).1, hopenid⟩
          · intro i hi huser
            obtain ⟨hold, hne⟩ := List.mem_filter.1 hi
            simp [hown i hold huser] at hne
        · refine h.mine.rows rfl rfl ?_ (Nat.le_succ _) (Nat.le_refl _)
          intro i hi
          rcases List.mem_append.1 hi with hi | hi
          · exact .inl (List.mem_filter.1 hi).1
          · rw [List.mem_singleton] at hi
            exact .inr (by rw [hi])
        · intro i hi
          by_cases hmine : mine = some i.id
          · exact .inr (hfree i hi hmine)
          · exact .inl (List.mem_append_left _ (List.mem_filter.2 ⟨hi, by simpa using fun heq => hmine heq.symm⟩))
        · intro i hi
          rcases List.mem_append.1 hi with hi | hi
          · exact .inl (List.mem_filter.1 hi).1
          · rw [List.mem_singleton] at hi
            exact .inr (by rw [hi]; exact hidle)
      exact hattached.setBind b trivial
  · cases hstep

theorem Inv.unbindCommits (h : Inv s) {s' : State} {d : Nat} (hok : StepOk s (.unbindCommits d))
    (hstep : step s (.unbindCommits d) = some s') : Inv s' := by
  simp only [step] at hstep
  split at hstep
  · rename_i user mine hdeleting
    cases hstep
    have hfree := hok user mine hdeleting
    have hdetached : Inv (s.detach mine) := by
      refine h.rebinds (h.rows.filter _ rfl rfl (Nat.le_refl _)) ?_ rfl rfl rfl rfl ?_ ?_
      · refine h.mine.rows rfl rfl ?_ (Nat.le_refl _) (Nat.le_refl _)
        intro i hi
        exact .inl (List.mem_filter.1 hi).1
      · intro i hi
        by_cases hmine : i.id = mine
        · exact .inr (hfree i hi hmine)
        · exact .inl (List.mem_filter.2 ⟨hi, by simpa using hmine⟩)
      · intro i hi
        exact .inl (List.mem_filter.1 hi).1
    exact hdetached.setUnbind d trivial
  · cases hstep

theorem Inv.step (h : Inv s) (act : Act) (hok : StepOk s act) {s' : State} (hstep : step s act = some s') : Inv s' := by
  cases act with
  | registers email username => exact h.registers hstep
  | setsActive user active => exact h.setsActive hstep
  | scans t openid => exact h.scans hstep
  | names t draws => exact h.names hstep
  | flushes t => exact h.flushes hok hstep
  | commits t => exact h.commits hstep
  | rereads t => exact h.rereads hstep
  | binds b user openid => exact h.binds hstep
  | bindReads b => exact h.bindReads hstep
  | bindCommits b => exact h.bindCommits hok hstep
  | unbinds d user => exact h.unbinds hstep
  | unbindCommits d => exact h.unbindCommits hok hstep

theorem Inv.start : Inv State.start := by
  refine ⟨⟨?_, ?_, ?_, ?_, ?_⟩, ⟨?_, ?_, ?_⟩, ⟨?_, ?_, ?_, ?_⟩, ⟨?_, ?_, ?_, ?_⟩, ?_⟩
  all_goals simp [State.start, State.Holds, Login.opens]

/-! ## the contract -/

theorem identities_stay {act : Act} (hbind : ∀ b, act ≠ .bindCommits b) (hunbind : ∀ d, act ≠ .unbindCommits d) {s' : State}
    (hstep : Wechat.step s act = some s') : s.identities <+: s'.identities := by
  cases act with
  | bindCommits b => exact absurd rfl (hbind b)
  | unbindCommits d => exact absurd rfl (hunbind d)
  | commits t =>
    simp only [Wechat.step] at hstep
    split at hstep
    · split at hstep
      · cases hstep
        exact List.prefix_refl _
      · cases hstep
        exact List.prefix_append _ _
    · cases hstep
  | _ =>
    have hsame : s'.identities = s.identities := by
      simp only [Wechat.step] at hstep
      grind [State.serve, State.setLogin, State.setBind, State.setUnbind]
    simp [hsame]

theorem Inv.kept (h : Inv s) (act : Act) {s' : State} (hstep : Wechat.step s act = some s') :
    ∀ i ∈ s.identities, i ∈ s'.identities ∨ s.actor act = some i.user := by
  intro i hi
  cases act with
  | bindCommits b =>
    simp only [Wechat.step] at hstep
    split at hstep
    · rename_i user openid mine hcommitting
      split at hstep
      · cases hstep
        exact .inl hi
      · cases hstep
        by_cases hmine : some i.id = mine
        · subst hmine
          have howner := (h.mine.binds b user openid i.id hcommitting).2 i hi rfl
          exact .inr (by simp [State.actor, hcommitting, howner])
        · exact .inl (List.mem_append_left _ (List.mem_filter.2 ⟨hi, by simpa using hmine⟩))
    · cases hstep
  | unbindCommits d =>
    simp only [Wechat.step] at hstep
    split at hstep
    · rename_i user mine hdeleting
      cases hstep
      by_cases hmine : i.id = mine
      · have howner := (h.mine.unbinds d user mine hdeleting).2 i hi hmine
        exact .inr (by simp [State.actor, hdeleting, howner])
      · exact .inl (List.mem_filter.2 ⟨hi, by simpa using hmine⟩)
    · cases hstep
  | _ => exact .inl ((identities_stay (by simp) (by simp) hstep).subset hi)

theorem alone_bound {t : Nat} {openid : Text} {account : Nat × User} (draws : List Text) (hidle : s.logins t = .idle)
    (haccount : s.account openid = some account) : alone s t openid draws = some (s.serve t openid (enter account)) := by
  have hscan : Wechat.step s (.scans t openid) = some (s.serve t openid (enter account)) := by
    simp [Wechat.step, hidle, haccount]
  unfold alone
  rw [hscan, Option.bind_some, if_pos (by simp [State.serve])]

def State.inserted (s : State) (t : Nat) (openid : Text) (user : User) : State :=
  { s with pending := [(t, user)], logins := Function.update s.logins t (.binding openid) }

theorem alone_unbound {t : Nat} {openid name : Text} {draws : List Text} (hidle : s.logins t = .idle)
    (hquiet : s.pending = []) (haccount : s.account openid = none) (hnone : s.identity openid = none)
    (hchosen : uniqueUsername s.taken (baseUsername openid) (baseUsername openid) 5 draws = name)
    (hclash : s.users.any (User.clashes ⟨syntheticEmail openid, name, true⟩) = false) :
    alone s t openid draws = some ((s.inserted t openid ⟨syntheticEmail openid, name, true⟩).createAccount t openid
      ⟨syntheticEmail openid, name, true⟩) := by
  have hscan : Wechat.step s (.scans t openid) = some (s.setLogin t (.naming openid)) := by
    simp [Wechat.step, hidle, haccount]
  have hname : Wechat.step (s.setLogin t (.naming openid)) (.names t draws) =
      some (s.setLogin t (.inserting openid name)) := by
    simp only [Wechat.step, State.setLogin, Function.update_self, Function.update_idem]
    rw [← hchosen]
    rfl
  have hflush : Wechat.step (s.setLogin t (.inserting openid name)) (.flushes t) =
      some (s.inserted t openid ⟨syntheticEmail openid, name, true⟩) := by
    simp [Wechat.step, State.setLogin, State.inserted, hquiet, hclash]
  have hcommit : Wechat.step (s.inserted t openid ⟨syntheticEmail openid, name, true⟩) (.commits t) =
      some ((s.inserted t openid ⟨syntheticEmail openid, name, true⟩).createAccount t openid
        ⟨syntheticEmail openid, name, true⟩) := by
    have hlogin : (s.inserted t openid ⟨syntheticEmail openid, name, true⟩).logins t = .binding openid := by
      simp [State.inserted]
    have hnone' : (s.inserted t openid ⟨syntheticEmail openid, name, true⟩).identity openid = none := hnone
    have hrow : (s.inserted t openid ⟨syntheticEmail openid, name, true⟩).pending.find? (fun p => p.1 = t) =
        some (t, ⟨syntheticEmail openid, name, true⟩) := by simp [State.inserted]
    simp only [Wechat.step, hlogin, hrow, hnone']
  unfold alone
  rw [hscan, Option.bind_some, if_neg (by simp [State.setLogin])]
  simp only [Trace.exec, hname, hflush, hcommit, Option.bind_some]

theorem Inv.signsIn (h : Inv s) {t : Nat} {openid : Text} {draws : List Text} (hidle : s.logins t = .idle)
    (hquiet : s.pending = [])
    (hname : s.taken (uniqueUsername s.taken (baseUsername openid) (baseUsername openid) 5 draws) = false) :
    ∃ s' e, alone s t openid draws = some s' ∧ s'.log = s.log ++ [e] ∧ e.openid = openid ∧ e.Right ∧
      (s.account openid = none → e.result = .ok s.users.length) := by
  cases haccount : s.account openid with
  | some account =>
    refine ⟨s.serve t openid (enter account), ⟨openid, enter account, some account⟩,
      alone_bound draws hidle haccount, ?_, rfl, right_enter openid account, by simp⟩
    simp [State.serve, haccount]
  | none =>
    have hfree := h.rows.account_eq_none.1 haccount
    have hunheld : ¬ s.Holds openid := fun hheld => hfree (h.emails.bound openid hheld)
    generalize hchosen : uniqueUsername s.taken (baseUsername openid) (baseUsername openid) 5 draws = name at hname
    have hclash : s.users.any (User.clashes ⟨syntheticEmail openid, name, true⟩) = false := by
      rw [List.any_eq_false]
      intro u hu
      rw [Bool.not_eq_true, User.clashes_eq_false]
      refine ⟨fun hmail => hunheld ⟨u, hu, hmail⟩, fun hequal => ?_⟩
      have htaken : s.taken name = true := List.any_eq_true.2 ⟨u, hu, by simpa using hequal⟩
      rw [hname] at htaken
      cases htaken
    have hrows : Rows ((s.inserted t openid ⟨syntheticEmail openid, name, true⟩).createAccount t openid
        ⟨syntheticEmail openid, name, true⟩) := by
      refine h.rows.append rfl rfl ?_ hfree (fun i hi => Nat.ne_of_lt (h.rows.owners i hi)) ?_
      · simp [State.createAccount, State.serve, State.inserted]
      · simp [State.createAccount, State.serve, State.inserted]
    have hcreated := hrows.account_of_mem (i := ⟨s.nextIdentity, openid, s.users.length⟩)
      ⟨syntheticEmail openid, name, true⟩ (by simp [State.createAccount, State.serve, State.inserted])
      (by simp [State.createAccount, State.serve, State.inserted])
    refine ⟨_, ⟨openid, .ok s.users.length, some (s.users.length, ⟨syntheticEmail openid, name, true⟩)⟩,
      alone_unbound hidle hquiet haccount (State.identity_eq_none.2 hfree) hchosen hclash, ?_, rfl, ⟨_, rfl, rfl⟩,
      fun _ => rfl⟩
    rw [← hcreated]
    rfl

end steps

/-- **WeChat identities**: in every run whose steps meet the condition, the contract holds in every state. -/
theorem identities_sound {s : State} (h : Trace.Runs step StepOk State.start s) : Sound s := by
  have hinv : Inv s := h.invariant Inv.start (fun s act s' hs hok hstep => hs.step act hok hstep)
  refine ⟨hinv.rows.openids, hinv.rows.accounts, hinv.served, ?_, ?_⟩
  · intro act s' hstep
    exact hinv.kept act hstep
  · intro t openid draws hidle hquiet hname
    exact hinv.signsIn hidle hquiet hname

def followers : List Act :=
  [.scans 0 "o1".toList, .names 0 [], .flushes 0, .commits 0, .registers "a@b.c".toList "a".toList, .binds 0 1 "o2".toList,
    .bindReads 0, .bindCommits 0, .unbinds 0 1, .unbindCommits 0]

theorem identities_sound_followers : Sound (Trace.play step State.start followers) := by
  let at_ (n : Nat) : State := Trace.play step State.start (followers.take n)
  have hscans : Trace.Runs step StepOk State.start (at_ 1) := Trace.Runs.refl.next (Act.scans 0 "o1".toList) trivial rfl
  have hnames : Trace.Runs step StepOk State.start (at_ 2) := hscans.next (Act.names 0 []) trivial rfl
  have hflushes : Trace.Runs step StepOk State.start (at_ 3) := by
    refine hnames.next (Act.flushes 0) ?_ rfl
    intro openid username hinserting
    exact .inr rfl
  have hcommits : Trace.Runs step StepOk State.start (at_ 4) := hflushes.next (Act.commits 0) trivial rfl
  have hregisters : Trace.Runs step StepOk State.start (at_ 5) :=
    hcommits.next (Act.registers "a@b.c".toList "a".toList) trivial rfl
  have hbinds : Trace.Runs step StepOk State.start (at_ 6) := hregisters.next (Act.binds 0 1 "o2".toList) trivial rfl
  have hreads : Trace.Runs step StepOk State.start (at_ 7) := hbinds.next (Act.bindReads 0) trivial rfl
  have hattached : Trace.Runs step StepOk State.start (at_ 8) := by
    refine hreads.next (Act.bindCommits 0) ?_ rfl
    rintro user openid mine hcommitting -
    obtain ⟨rfl, rfl, rfl⟩ := Bind.committing.inj hcommitting
    have hnone : ∀ i ∈ (at_ 7).identities, i.user = 1 → none = some i.id := by decide
    refine ⟨hnone, ?_, fun i hi hmine => nomatch hmine⟩
    intro t hopen
    cases t with
    | zero => cases hopen
    | succ t => cases hopen
  have hunbinds : Trace.Runs step StepOk State.start (at_ 9) := hattached.next (Act.unbinds 0 1) trivial rfl
  have hok : StepOk (at_ 9) (Act.unbindCommits 0) → Trace.Runs step StepOk State.start (at_ 10) :=
    fun hok => hunbinds.next (Act.unbindCommits 0) hok rfl
  refine identities_sound (hok ?_)
  intro user mine hdeleting i hi hmine
  obtain ⟨rfl, rfl⟩ := Unbind.deleting.inj hdeleting
  have hunheld : ∀ i ∈ (at_ 9).identities, i.id = 1 → ∀ u ∈ (at_ 9).users, u.email ≠ syntheticEmail i.openid := by decide
  rintro ⟨u, hu, hmail⟩
  exact hunheld i hi hmine u hu hmail

def unbound : List Act :=
  [.scans 0 "o1".toList, .names 0 [], .flushes 0, .commits 0, .unbinds 0 0, .unbindCommits 0, .scans 1 "o1".toList,
    .names 1 ["x".toList], .flushes 1, .rereads 1]

/-- **The last login of `unbound` fails.** -/
theorem locked_out : ¬ ∀ s, Trace.Reaches step State.start s → Sound s := by
  intro hall
  have hreaches : Trace.Reaches step State.start (Trace.play step State.start unbound) := Trace.reaches_play (by decide)
  have hraised := (hall _ hreaches).served ⟨"o1".toList, .raised, none⟩ (by decide)
  exact hraised

end Wechat
end MyGpt
