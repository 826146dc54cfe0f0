import MyGpt.RunQuota
import MyGpt.Lib.Trace
/-!
# RunSlots — what the quota of concurrent runs promises

In every interleaving of admissions, releases and purges the set of a tenant holds a member for each run that has a slot,
so what an admission counts bounds them (`concurrent_runs`).  The counts between may be above the limit.
-/
namespace MyGpt
namespace Quotas

open Trace (Reaches)

variable {limits : QuotaLimits}

def ReleaseOf (w : World) (tenant : Tenant) (runId : String) : Act → Prop
  | .release _ t r => t = tenant ∧ r = runId
  | .list call | .drop call _ | .endRelease call =>
    w.calls call = .releasing tenant runId ∨ ∃ matching, w.calls call = .dropping tenant runId matching
  | _ => False

def World.Unreleased (w : World) (tenant : Tenant) (runId : String) : Prop :=
  ∃ m ∈ w.admitted tenant, m ∉ w.released tenant ∧ m.runId = runId

structure SameRuns (w w' : World) : Prop where
  sets : w'.sets = w.sets
  admitted : w'.admitted = w.admitted
  released : w'.released = w.released
  unmetered : w'.unmetered = w.unmetered

/-! ## the invariant -/

def Phase.pending : Phase → Option (Tenant × Member)
  | .adding t m | .counting t m | .listing t m _ | .purging t m _ | .rollingBack t m _ => some (t, m)
  | _ => none

structure Pending (w : World) (t : Tenant) (m : Member) : Prop where
  drawn : w.drawn m.runId = some (t, m)
  secret : m.runId ∈ w.secret

def Kept (w : World) (t : Tenant) (m : Member) : Prop := m ∈ w.sets t ∨ m.deadline < w.now

def CallOk (w : World) : Phase → Prop
  | .adding t m => Pending w t m
  | .counting t m | .rollingBack t m _ => Pending w t m ∧ Kept w t m
  | .listing t m now => Pending w t m ∧ Kept w t m ∧ now ≤ w.now
  | .purging t m expired => Pending w t m ∧ Kept w t m ∧ ∀ e ∈ expired, e.deadline < w.now
  | .refused t (some m) _ => w.drawn m.runId = some (t, m) ∧ m.runId ∉ w.secret ∧ m ∉ w.sets t
  | .releasing _ runId => runId ∈ w.named ∧ runId ∉ w.secret
  | .dropping _ runId matching => (runId ∈ w.named ∧ runId ∉ w.secret) ∧ ∀ m ∈ matching, m.runId = runId
  | _ => True

structure Inv (limits : QuotaLimits) (w : World) : Prop where
  drawn : ∀ t m, m ∈ w.sets t → w.drawn m.runId = some (t, m)
  split : ∀ t m, m ∈ w.sets t → (m ∈ w.admitted t ∧ m ∉ w.released t) ∨ m.runId ∈ w.secret
  admitted : ∀ t m, m ∈ w.admitted t → w.drawn m.runId = some (t, m) ∧ m.runId ∉ w.secret
  released : ∀ t m, m ∈ w.released t → m ∈ w.admitted t
  slot : ∀ t m, m ∈ w.admitted t → m ∉ w.released t → Kept w t m
  calls : ∀ call, CallOk w (w.calls call)
  apart : ∀ call call' p, (w.calls call).pending = some p → (w.calls call').pending = some p → call = call'
  secret : ∀ id ∈ w.secret, w.drawn id ≠ none
  bound : ∀ t, (w.holding t).card ≤ limits.maxConcurrentRuns.toNat
  metered : limits.enabled = true → ∀ t, w.unmetered t = 0

theorem inv_start (now : Int) : Inv limits { now := now } := by
  constructor
  case bound =>
    intro t
    show (Finset.filter _ (∅ \ ∅ : Finset Member)).card ≤ _
    simp
  case calls => exact fun _ => trivial
  case metered => exact fun _ _ => rfl
  case apart =>
    intro _ _ p hp _
    cases hp
  all_goals simp

structure Frame (w w' : World) (p : Phase) : Prop where
  now : w.now ≤ w'.now
  drawn : ∀ id x, w.drawn id = some x → w'.drawn id = some x
  hidden : ∀ t m, p.pending = some (t, m) → m.runId ∈ w.secret → m.runId ∈ w'.secret
  told : ∀ id, (w.drawn id).isSome ∨ id ∈ w.named → id ∉ w.secret → id ∉ w'.secret
  kept : ∀ t m, p.pending = some (t, m) → m ∈ w.sets t → Kept w' t m
  gone : ∀ t m, m.runId ∉ w.secret → m ∉ w.sets t → m ∉ w'.sets t
  named : w.named ⊆ w'.named

section
variable {w w' : World} {p : Phase} {t : Tenant} {m : Member}

theorem Pending.frame (hf : Frame w w' p) (hp : p.pending = some (t, m)) (h : Pending w t m) : Pending w' t m :=
  ⟨hf.drawn _ _ h.drawn, hf.hidden t m hp h.secret⟩

theorem Kept.frame (hf : Frame w w' p) (hp : p.pending = some (t, m)) (h : Kept w t m) : Kept w' t m := by
  rcases h with hmem | hpast
  · exact hf.kept t m hp hmem
  · exact .inr (lt_of_lt_of_le hpast hf.now)

theorem CallOk.frame (hf : Frame w w' p) (h : CallOk w p) : CallOk w' p := by
  cases p with
  | adding t m => exact Pending.frame hf rfl h
  | counting | rollingBack => exact ⟨h.1.frame hf rfl, h.2.frame hf rfl⟩
  | listing t m now => exact ⟨h.1.frame hf rfl, h.2.1.frame hf rfl, h.2.2.trans hf.now⟩
  | purging t m expired =>
    exact ⟨h.1.frame hf rfl, h.2.1.frame hf rfl, fun e he => lt_of_lt_of_le (h.2.2 e he) hf.now⟩
  | refused t m error =>
    cases m with
    | none => trivial
    | some m =>
      obtain ⟨hdrawn, htold, hgone⟩ := h
      exact ⟨hf.drawn _ _ hdrawn, hf.told _ (.inl (by rw [hdrawn]; rfl)) htold, hf.gone t m htold hgone⟩
  | releasing t runId => exact ⟨hf.named h.1, hf.told _ (.inr h.1) h.2⟩
  | dropping t runId matching => exact ⟨⟨hf.named h.1.1, hf.told _ (.inr h.1.1) h.1.2⟩, h.2⟩
  | _ => trivial

end

/-! ## one operation -/

section
variable {w w' : World} {call : Nat}

theorem calls_update (hinv : Inv limits w) {phase : Phase} (hcalls : w'.calls = Function.update w.calls call phase)
    (hok : CallOk w' phase) (hframe : ∀ other, other ≠ call → Frame w w' (w.calls other)) :
    ∀ c, CallOk w' (w'.calls c) := by
  intro c
  rw [hcalls]
  by_cases hc : c = call
  · subst hc
    rw [Function.update_self]
    exact hok
  · rw [Function.update_of_ne hc]
    exact (hinv.calls c).frame (hframe c hc)

theorem apart_update (hinv : Inv limits w) {phase : Phase} (hcalls : w'.calls = Function.update w.calls call phase)
    (hpending : ∀ p, phase.pending = some p → ∀ other, (w.calls other).pending = some p → other = call) :
    ∀ c c' p, (w'.calls c).pending = some p → (w'.calls c').pending = some p → c = c' := by
  intro c c' p hc hc'
  rw [hcalls] at hc hc'
  by_cases h : c = call
  · by_cases h' : c' = call
    · rw [h, h']
    · rw [h, Function.update_self] at hc
      rw [Function.update_of_ne h'] at hc'
      exact absurd (hpending p hc c' hc') h'
  · rw [Function.update_of_ne h] at hc
    by_cases h' : c' = call
    · rw [h', Function.update_self] at hc'
      exact absurd (hpending p hc' c hc) h
    · rw [Function.update_of_ne h'] at hc'
      exact hinv.apart c c' p hc hc'

theorem apart_of_same (hinv : Inv limits w) {phase : Phase}
    (hsame : ∀ p, phase.pending = some p → (w.calls call).pending = some p) :
    ∀ p, phase.pending = some p → ∀ other, (w.calls other).pending = some p → other = call :=
  fun p hp other hother => hinv.apart other call p hother (hsame p hp)

theorem pending_ne (hinv : Inv limits w) {other : Nat} (hne : other ≠ call) {t t' : Tenant} {m m' : Member}
    (hm : (w.calls call).pending = some (t, m)) (hm' : (w.calls other).pending = some (t', m'))
    (hdrawn : w.drawn m.runId = some (t, m)) (hdrawn' : w.drawn m'.runId = some (t', m')) : m'.runId ≠ m.runId := by
  intro heq
  rw [heq, hdrawn] at hdrawn'
  cases hdrawn'
  exact hne (hinv.apart other call (t, m) hm' hm)

theorem pending_drawn (hinv : Inv limits w) {c : Nat} {t : Tenant} {m : Member} (h : (w.calls c).pending = some (t, m)) :
    Pending w t m := by
  have hok := hinv.calls c
  cases hphase : w.calls c with
  | adding t' m' =>
    rw [hphase] at h hok
    cases h
    exact hok
  | counting | listing | purging | rollingBack =>
    rw [hphase] at h hok
    cases h
    exact hok.1
  | _ =>
    rw [hphase] at h
    cases h

theorem inv_quiet (hinv : Inv limits w) {phase : Phase} (hcalls : w'.calls = Function.update w.calls call phase)
    (hnow : w'.now = w.now) (hruns : SameRuns { w with unmetered := w'.unmetered } w') (hdrawn : w'.drawn = w.drawn)
    (hsecret : w'.secret = w.secret) (hnamed : w.named ⊆ w'.named) (hok : CallOk w' phase)
    (hsame : ∀ p, phase.pending = some p → (w.calls call).pending = some p)
    (hmetered : limits.enabled = true → w'.unmetered = w.unmetered) : Inv limits w' := by
  obtain ⟨hsets, hadmitted, hreleased, -⟩ := hruns
  have hkept : ∀ t m, Kept w t m → Kept w' t m := by
    intro t m hk
    unfold Kept
    rw [hsets, hnow]
    exact hk
  constructor
  case drawn => rw [hsets, hdrawn]; exact hinv.drawn
  case split => rw [hsets, hadmitted, hreleased, hsecret]; exact hinv.split
  case admitted => rw [hadmitted, hdrawn, hsecret]; exact hinv.admitted
  case released => rw [hreleased, hadmitted]; exact hinv.released
  case slot =>
    rw [hadmitted, hreleased]
    exact fun t m hm hn => hkept t m (hinv.slot t m hm hn)
  case calls =>
    refine calls_update hinv hcalls hok (fun other _ => ?_)
    exact ⟨hnow.symm.le, fun id x h => by rwa [hdrawn], fun t m _ h => by rwa [hsecret], fun id _ h => by rwa [hsecret],
      fun t m _ h => hkept t m (.inl h), fun t m _ h => by rwa [hsets], hnamed⟩
  case apart => exact apart_update hinv hcalls (apart_of_same hinv hsame)
  case secret => rw [hsecret, hdrawn]; exact hinv.secret
  case bound =>
    intro t
    have hholding : w'.holding t = w.holding t := by
      unfold World.holding
      rw [hadmitted, hreleased, hnow]
    rw [hholding]
    exact hinv.bound t
  case metered =>
    intro henabled
    rw [hmetered henabled]
    exact hinv.metered henabled

theorem inv_setCall (hinv : Inv limits w) {phase : Phase} (hok : CallOk w phase)
    (hsame : ∀ p, phase.pending = some p → (w.calls call).pending = some p) : Inv limits (w.setCall call phase) := by
  refine inv_quiet hinv rfl rfl ⟨rfl, rfl, rfl, rfl⟩ rfl rfl (Finset.Subset.refl _) (hok.frame ?_) hsame (fun _ => rfl)
  exact ⟨le_refl _, fun _ _ h => h, fun _ _ _ h => h, fun _ _ h => h, fun _ _ _ h => .inl h, fun _ _ _ h => h,
    Finset.Subset.refl _⟩

theorem inv_clock (hinv : Inv limits w) {now : Int} (hnow : w.now ≤ now) : Inv limits { w with now } := by
  have hkept : ∀ t m, Kept w t m → Kept { w with now } t m := fun t m hk => hk.imp_right (fun h => lt_of_lt_of_le h hnow)
  constructor
  case slot => exact fun t m hm hn => hkept t m (hinv.slot t m hm hn)
  case calls =>
    intro c
    exact (hinv.calls c).frame ⟨hnow, fun _ _ h => h, fun _ _ _ h => h, fun _ _ h => h, fun t m _ h => hkept t m (.inl h),
      fun _ _ _ h => h, Finset.Subset.refl _⟩
  case bound =>
    intro t
    refine le_trans (Finset.card_le_card ?_) (hinv.bound t)
    intro m hm
    obtain ⟨hmem, hlive⟩ := Finset.mem_filter.1 hm
    exact Finset.mem_filter.2 ⟨hmem, hnow.trans hlive⟩
  case drawn => exact hinv.drawn
  case split => exact hinv.split
  case admitted => exact hinv.admitted
  case released => exact hinv.released
  case apart => exact hinv.apart
  case secret => exact hinv.secret
  case metered => exact hinv.metered

theorem inv_draw (hinv : Inv limits w) {t : Tenant} {m : Member} (hnew : w.drawn m.runId = none) (hfree : m.runId ∉ w.named) :
    Inv limits (w.draw call t m) := by
  have hne : ∀ id x, w.drawn id = some x → id ≠ m.runId := fun id x hx heq => by rw [heq, hnew] at hx; cases hx
  have hdrawn : ∀ id x, w.drawn id = some x → (w.draw call t m).drawn id = some x :=
    fun id x hx => (Function.update_of_ne (hne id x hx) _ _).trans hx
  have htold : ∀ id x, w.drawn id = some x → id ∉ w.secret → id ∉ (w.draw call t m).secret :=
    fun id x hx hs hmem => (Finset.mem_insert.1 hmem).elim (hne id x hx) hs
  constructor
  case drawn => exact fun t' m' hm => hdrawn _ _ (hinv.drawn t' m' hm)
  case split => exact fun t' m' hm => (hinv.split t' m' hm).imp_right (Finset.mem_insert_of_mem)
  case admitted =>
    intro t' m' hm
    obtain ⟨hd, hs⟩ := hinv.admitted t' m' hm
    exact ⟨hdrawn _ _ hd, htold _ _ hd hs⟩
  case released => exact hinv.released
  case slot => exact hinv.slot
  case calls =>
    refine calls_update hinv rfl ?_ (fun other _ => ?_)
    · exact ⟨Function.update_self .., Finset.mem_insert_self _ _⟩
    · refine ⟨le_refl _, hdrawn, fun _ _ _ h => Finset.mem_insert_of_mem h, ?_, fun _ _ _ h => .inl h, fun _ _ _ h => h,
        Finset.Subset.refl _⟩
      rintro id (hsome | hnamed) hs
      · obtain ⟨x, hx⟩ := Option.isSome_iff_exists.1 hsome
        exact htold id x hx hs
      · intro hmem
        rcases Finset.mem_insert.1 hmem with rfl | hold
        · exact hfree hnamed
        · exact hs hold
  case apart =>
    refine apart_update hinv (show _ = Function.update w.calls call _ from rfl) ?_
    intro p hp other hother
    cases hp
    have hd := (pending_drawn hinv hother).drawn
    rw [hnew] at hd
    cases hd
  case secret =>
    intro id hid
    rcases Finset.mem_insert.1 hid with rfl | hold
    · show Function.update w.drawn m.runId (some (t, m)) m.runId ≠ none
      rw [Function.update_self]
      exact Option.some_ne_none _
    · obtain ⟨x, hx⟩ := Option.ne_none_iff_exists'.1 (hinv.secret id hold)
      rw [hdrawn id x hx]
      exact Option.some_ne_none _
  case bound => exact hinv.bound
  case metered => exact hinv.metered

theorem inv_add (hinv : Inv limits w) {t : Tenant} {m : Member} (hcall : w.calls call = .adding t m) :
    Inv limits ((w.setAdd t m).setCall call (.counting t m)) := by
  have hpending : (w.calls call).pending = some (t, m) := by rw [hcall]; rfl
  obtain ⟨hdrawn, hsecret⟩ := pending_drawn hinv hpending
  have hsets : ∀ t' m', m' ∈ (w.setAdd t m).sets t' ↔ m' ∈ w.sets t' ∨ (t' = t ∧ m' = m) := by
    intro t' m'
    show m' ∈ Function.update w.sets t _ t' ↔ _
    by_cases ht : t' = t
    · subst ht
      rw [Function.update_self, Finset.mem_insert]
      tauto
    · rw [Function.update_of_ne ht]
      tauto
  constructor
  case drawn =>
    intro t' m' hm
    rcases (hsets t' m').1 hm with hold | ⟨rfl, rfl⟩
    · exact hinv.drawn t' m' hold
    · exact hdrawn
  case split =>
    intro t' m' hm
    rcases (hsets t' m').1 hm with hold | ⟨rfl, rfl⟩
    · exact hinv.split t' m' hold
    · exact .inr hsecret
  case slot => exact fun t' m' hm hn => (hinv.slot t' m' hm hn).imp_left (fun h => (hsets t' m').2 (.inl h))
  case calls =>
    refine calls_update hinv rfl ⟨⟨hdrawn, hsecret⟩, .inl ((hsets t m).2 (.inr ⟨rfl, rfl⟩))⟩ (fun other _ => ?_)
    refine ⟨le_refl _, fun _ _ h => h, fun _ _ _ h => h, fun _ _ h => h, fun t' m' _ h => .inl ((hsets t' m').2 (.inl h)),
      fun t' m' hs hn hm => ?_, Finset.Subset.refl _⟩
    rcases (hsets t' m').1 hm with hold | ⟨rfl, rfl⟩
    · exact hn hold
    · exact hs hsecret
  case apart => exact apart_update hinv rfl (apart_of_same hinv (fun p hp => hpending.trans hp))
  case admitted => exact hinv.admitted
  case released => exact hinv.released
  case secret => exact hinv.secret
  case bound => exact hinv.bound
  case metered => exact hinv.metered

theorem card_holding_grant (hinv : Inv limits w) {t : Tenant} {m : Member} (hk : Kept w t m)
    (hcount : ((w.sets t).card : Int) ≤ limits.maxConcurrentRuns) (t' : Tenant) :
    ((w.grant call t m).holding t').card ≤ limits.maxConcurrentRuns.toNat := by
  by_cases ht : t' = t
  · subst ht
    refine le_trans (Finset.card_le_card (t := w.sets t') ?_) (by omega)
    intro m' hm
    obtain ⟨hmem, hlive⟩ := Finset.mem_filter.1 hm
    obtain ⟨hadmitted, hreleased⟩ := Finset.mem_sdiff.1 hmem
    have hkept : Kept w t' m' := by
      change m' ∈ Function.update w.admitted t' (insert m (w.admitted t')) t' at hadmitted
      rw [Function.update_self] at hadmitted
      rcases Finset.mem_insert.1 hadmitted with rfl | hold
      · exact hk
      · exact hinv.slot t' m' hold hreleased
    exact hkept.resolve_right (fun hpast => absurd (lt_of_le_of_lt hlive hpast) (lt_irrefl _))
  · have hsame : (w.grant call t m).holding t' = w.holding t' := by
      show (Function.update w.admitted t (insert m (w.admitted t)) t' \ w.released t').filter _ = _
      rw [Function.update_of_ne ht]
      rfl
    rw [hsame]
    exact hinv.bound t'

theorem inv_grant (hinv : Inv limits w) {t : Tenant} {m : Member} (hpending : (w.calls call).pending = some (t, m))
    (hk : Kept w t m) (hcount : ((w.sets t).card : Int) ≤ limits.maxConcurrentRuns) : Inv limits (w.grant call t m) := by
  obtain ⟨hdrawn, hsecret⟩ := pending_drawn hinv hpending
  have hadmitted : ∀ t' m', m' ∈ (w.grant call t m).admitted t' ↔ m' ∈ w.admitted t' ∨ (t' = t ∧ m' = m) := by
    intro t' m'
    show m' ∈ Function.update w.admitted t _ t' ↔ _
    by_cases ht : t' = t
    · subst ht
      rw [Function.update_self, Finset.mem_insert]
      tauto
    · rw [Function.update_of_ne ht]
      tauto
  have htold : ∀ id, id ∉ w.secret → id ∉ w.secret.erase m.runId := fun id h hmem => h (Finset.mem_of_mem_erase hmem)
  constructor
  case drawn => exact hinv.drawn
  case split =>
    intro t' m' hm
    rcases hinv.split t' m' hm with ⟨ha, hr⟩ | hs
    · exact .inl ⟨(hadmitted t' m').2 (.inl ha), hr⟩
    · by_cases hid : m'.runId = m.runId
      · have hown := hinv.drawn t' m' hm
        rw [hid, hdrawn] at hown
        cases hown
        refine .inl ⟨(hadmitted t m).2 (.inr ⟨rfl, rfl⟩), fun hr => ?_⟩
        exact (hinv.admitted t m (hinv.released t m hr)).2 hs
      · exact .inr (Finset.mem_erase.2 ⟨hid, hs⟩)
  case admitted =>
    intro t' m' hm
    rcases (hadmitted t' m').1 hm with hold | ⟨rfl, rfl⟩
    · exact ⟨(hinv.admitted t' m' hold).1, htold _ (hinv.admitted t' m' hold).2⟩
    · exact ⟨hdrawn, Finset.notMem_erase _ _⟩
  case released => exact fun t' m' hm => (hadmitted t' m').2 (.inl (hinv.released t' m' hm))
  case slot =>
    intro t' m' hm hn
    rcases (hadmitted t' m').1 hm with hold | ⟨rfl, rfl⟩
    · exact hinv.slot t' m' hold hn
    · exact hk
  case calls =>
    refine calls_update hinv rfl trivial (fun other hne => ?_)
    refine ⟨le_refl _, fun _ _ h => h, fun t' m' hp h => ?_, fun id _ h => htold id h, fun _ _ _ h => .inl h,
      fun _ _ _ h => h, Finset.Subset.refl _⟩
    exact Finset.mem_erase.2 ⟨pending_ne hinv hne hpending hp hdrawn (pending_drawn hinv hp).drawn, h⟩
  case apart =>
    exact apart_update hinv
      (show _ = Function.update w.calls call (.admitted ⟨t, m.runId⟩) from rfl) (fun p hp => by cases hp)
  case secret => exact fun id hid => hinv.secret id (Finset.mem_of_mem_erase hid)
  case bound => exact card_holding_grant hinv hk hcount
  case metered => exact hinv.metered

theorem mem_setRemove {t t' : Tenant} {m m' : Member} :
    m' ∈ (w.setRemove t m).sets t' ↔ m' ∈ w.sets t' ∧ ¬ (t' = t ∧ m' = m) := by
  show m' ∈ Function.update w.sets t _ t' ↔ _
  by_cases ht : t' = t
  · subst ht
    rw [Function.update_self, Finset.mem_erase]
    tauto
  · rw [Function.update_of_ne ht]
    tauto

theorem inv_purge (hinv : Inv limits w) {t : Tenant} {m gone : Member} {expired : Finset Member}
    (hcall : w.calls call = .purging t m expired) (hgone : gone ∈ expired) :
    Inv limits ((w.setRemove t gone).setCall call (.purging t m (expired.erase gone))) := by
  have hpending : (w.calls call).pending = some (t, m) := by rw [hcall]; rfl
  have hok := hinv.calls call
  rw [hcall] at hok
  obtain ⟨hpend, hkeep, hpast⟩ := hok
  have hkept : ∀ t' m', Kept w t' m' → Kept (w.setRemove t gone) t' m' := by
    rintro t' m' (hm | hold)
    · by_cases heq : t' = t ∧ m' = gone
      · exact .inr (heq.2 ▸ hpast gone hgone)
      · exact .inl (mem_setRemove.2 ⟨hm, heq⟩)
    · exact .inr hold
  constructor
  case drawn => exact fun t' m' hm => hinv.drawn t' m' (mem_setRemove.1 hm).1
  case split => exact fun t' m' hm => hinv.split t' m' (mem_setRemove.1 hm).1
  case slot => exact fun t' m' hm hn => hkept t' m' (hinv.slot t' m' hm hn)
  case calls =>
    refine calls_update hinv rfl ?_ (fun other _ => ?_)
    · exact ⟨{ hpend with }, hkept t m hkeep, fun e he => hpast e (Finset.mem_of_mem_erase he)⟩
    · exact ⟨le_refl _, fun _ _ h => h, fun _ _ _ h => h, fun _ _ h => h, fun t' m' _ h => hkept t' m' (.inl h),
        fun t' m' _ hn hm => hn (mem_setRemove.1 hm).1, Finset.Subset.refl _⟩
  case apart => exact apart_update hinv rfl (apart_of_same hinv (fun p hp => hpending.trans hp))
  case admitted => exact hinv.admitted
  case released => exact hinv.released
  case secret => exact hinv.secret
  case bound => exact hinv.bound
  case metered => exact hinv.metered

theorem inv_refuseRun (hinv : Inv limits w) {t : Tenant} {m : Member} (error : QuotaExceeded)
    (hpending : (w.calls call).pending = some (t, m)) : Inv limits (w.refuseRun call t m error) := by
  obtain ⟨hdrawn, hsecret⟩ := pending_drawn hinv hpending
  have htold : ∀ id, id ∉ w.secret → id ∉ w.secret.erase m.runId := fun id h hmem => h (Finset.mem_of_mem_erase hmem)
  -- an admitted run is not the refused one, whose id nobody was told
  have hother : ∀ t' m', m' ∈ w.admitted t' → ¬ (t' = t ∧ m' = m) :=
    fun t' m' hm heq => (hinv.admitted t' m' hm).2 (heq.2 ▸ hsecret)
  constructor
  case drawn => exact fun t' m' hm => hinv.drawn t' m' (mem_setRemove.1 hm).1
  case split =>
    intro t' m' hm
    obtain ⟨hold, hne⟩ := mem_setRemove.1 hm
    refine (hinv.split t' m' hold).imp_right (fun hs => Finset.mem_erase.2 ⟨fun hid => hne ?_, hs⟩)
    have hown := hinv.drawn t' m' hold
    rw [hid, hdrawn] at hown
    cases hown
    exact ⟨rfl, rfl⟩
  case admitted => exact fun t' m' hm => ⟨(hinv.admitted t' m' hm).1, htold _ (hinv.admitted t' m' hm).2⟩
  case released => exact hinv.released
  case slot =>
    exact fun t' m' hm hn => (hinv.slot t' m' hm hn).imp_left (fun h => mem_setRemove.2 ⟨h, hother t' m' hm⟩)
  case calls =>
    refine calls_update hinv rfl ?_ (fun other hne => ?_)
    · exact ⟨hdrawn, Finset.notMem_erase _ _, fun hm => (mem_setRemove.1 hm).2 ⟨rfl, rfl⟩⟩
    · have hids : ∀ t' m', (w.calls other).pending = some (t', m') → m'.runId ≠ m.runId :=
        fun t' m' hp => pending_ne hinv hne hpending hp hdrawn (pending_drawn hinv hp).drawn
      refine ⟨le_refl _, fun _ _ h => h, fun t' m' hp h => Finset.mem_erase.2 ⟨hids t' m' hp, h⟩, fun id _ h => htold id h,
        fun t' m' hp h => .inl (mem_setRemove.2 ⟨h, fun heq => hids t' m' hp (by rw [heq.2])⟩),
        fun t' m' _ hn hm => hn (mem_setRemove.1 hm).1, Finset.Subset.refl _⟩
  case apart =>
    exact apart_update hinv
      (show _ = Function.update w.calls call (.refused t (some m) error) from rfl) (fun p hp => by cases hp)
  case secret => exact fun id hid => hinv.secret id (Finset.mem_of_mem_erase hid)
  case bound => exact hinv.bound
  case metered => exact hinv.metered

theorem mem_released_takeOff {t t' : Tenant} {gone m' : Member} :
    m' ∈ (w.takeOff t gone).released t' ↔ m' ∈ w.released t' ∨ (t' = t ∧ m' = gone ∧ gone ∈ w.sets t) := by
  show m' ∈ Function.update w.released t _ t' ↔ _
  by_cases ht : t' = t
  · subst ht
    rw [Function.update_self]
    by_cases hmem : gone ∈ w.sets t'
    · rw [if_pos hmem, Finset.mem_insert]
      tauto
    · rw [if_neg hmem]
      tauto
  · rw [Function.update_of_ne ht]
    tauto

theorem inv_takeOff (hinv : Inv limits w) {t : Tenant} {runId : String} {gone : Member} {matching : Finset Member}
    (hcall : w.calls call = .dropping t runId matching) (hgone : gone ∈ matching) :
    Inv limits ((w.takeOff t gone).setCall call (.dropping t runId (matching.erase gone))) := by
  have hok := hinv.calls call
  rw [hcall] at hok
  obtain ⟨⟨hnamed, htold⟩, hmatching⟩ := hok
  have hid : gone.runId = runId := hmatching gone hgone
  have hsets : ∀ t' m', m' ∈ (w.takeOff t gone).sets t' ↔ m' ∈ w.sets t' ∧ ¬ (t' = t ∧ m' = gone) :=
    fun t' m' => mem_setRemove
  constructor
  case drawn => exact fun t' m' hm => hinv.drawn t' m' ((hsets t' m').1 hm).1
  case split =>
    intro t' m' hm
    obtain ⟨hold, hne⟩ := (hsets t' m').1 hm
    refine (hinv.split t' m' hold).imp_left (fun h => ⟨h.1, fun hr => ?_⟩)
    rcases mem_released_takeOff.1 hr with hr | ⟨rfl, rfl, -⟩
    · exact h.2 hr
    · exact hne ⟨rfl, rfl⟩
  case admitted => exact hinv.admitted
  case released =>
    intro t' m' hr
    rcases mem_released_takeOff.1 hr with hr | ⟨rfl, rfl, hmem⟩
    · exact hinv.released t' m' hr
    · exact ((hinv.split t' m' hmem).resolve_right (fun hs => htold (hid ▸ hs))).1
  case slot =>
    intro t' m' hm hn
    rcases hinv.slot t' m' hm (fun hr => hn (mem_released_takeOff.2 (.inl hr))) with hmem | hpast
    · refine .inl ((hsets t' m').2 ⟨hmem, ?_⟩)
      rintro ⟨rfl, rfl⟩
      exact hn (mem_released_takeOff.2 (.inr ⟨rfl, rfl, hmem⟩))
    · exact .inr hpast
  case calls =>
    refine calls_update hinv rfl ⟨⟨hnamed, htold⟩, fun m' hm => hmatching m' (Finset.mem_of_mem_erase hm)⟩ (fun other _ => ?_)
    refine ⟨le_refl _, fun _ _ h => h, fun _ _ _ h => h, fun _ _ h => h, fun t' m' hp h => .inl ((hsets t' m').2 ⟨h, ?_⟩),
      fun t' m' _ hn hm => hn ((hsets t' m').1 hm).1, Finset.Subset.refl _⟩
    -- nobody releases the run of an admission under way
    rintro ⟨rfl, rfl⟩
    exact htold (hid ▸ (pending_drawn hinv hp).secret)
  case apart =>
    exact apart_update hinv
      (show _ = Function.update w.calls call (.dropping t runId (matching.erase gone)) from rfl) (fun p hp => by cases hp)
  case secret => exact hinv.secret
  case bound =>
    intro t'
    refine le_trans (Finset.card_le_card ?_) (hinv.bound t')
    intro m' hm
    obtain ⟨hmem, hlive⟩ := Finset.mem_filter.1 hm
    obtain ⟨ha, hn⟩ := Finset.mem_sdiff.1 hmem
    exact Finset.mem_filter.2 ⟨Finset.mem_sdiff.2 ⟨ha, fun hr => hn (mem_released_takeOff.2 (.inl hr))⟩, hlive⟩
  case metered => exact hinv.metered

theorem inv_step (hinv : Inv limits w) {act : Act} (h : step limits w act = some w') : Inv limits w' := by
  cases act with
  | clock now =>
    simp only [step] at h
    split at h
    · rename_i hnow
      cases h
      exact inv_clock hinv hnow
    · cases h
  | admitRun call t tokens cost runId =>
    simp only [step] at h
    split at h
    · cases h
    split at h
    · rename_i hoff
      cases h
      refine inv_quiet hinv rfl rfl ⟨rfl, rfl, rfl, rfl⟩ rfl rfl (Finset.Subset.refl _) trivial (fun p hp => by cases hp) ?_
      intro hon
      rw [hon] at hoff
      cases hoff
    split at h
    · cases h
      exact inv_setCall hinv trivial (fun p hp => by cases hp)
    split at h
    · cases h
      exact inv_setCall hinv trivial (fun p hp => by cases hp)
    split at h
    · cases h
    · rename_i hnew
      cases h
      simp only [not_or, Bool.not_eq_true, Option.isSome_eq_false_iff, Option.isNone_iff_eq_none] at hnew
      exact inv_draw hinv hnew.1 hnew.2.1
  | add call =>
    cases hcall : w.calls call with
    | adding t m =>
      simp only [step, hcall] at h
      cases h
      exact inv_add hinv hcall
    | _ =>
      simp only [step, hcall] at h
      cases h
  | count call =>
    have hok := hinv.calls call
    cases hcall : w.calls call with
    | counting t m =>
      rw [hcall] at hok
      simp only [step, hcall] at h
      split at h
      · cases h
        exact inv_setCall hinv ⟨hok.1, hok.2, le_refl _⟩ (fun p hp => by rw [hcall]; exact hp)
      · rename_i hcount
        cases h
        exact inv_grant hinv (by rw [hcall]; rfl) hok.2 (not_lt.1 hcount)
    | purging t m expired =>
      rw [hcall] at hok
      simp only [step, hcall] at h
      split at h
      · cases h
      split at h
      · cases h
        exact inv_setCall hinv ⟨hok.1, hok.2.1⟩ (fun p hp => by rw [hcall]; exact hp)
      · rename_i hcount
        cases h
        exact inv_grant hinv (by rw [hcall]; rfl) hok.2.1 (not_lt.1 hcount)
    | _ =>
      simp only [step, hcall] at h
      cases h
  | list call =>
    have hok := hinv.calls call
    cases hcall : w.calls call with
    | listing t m now =>
      rw [hcall] at hok
      simp only [step, hcall] at h
      cases h
      refine inv_setCall hinv ⟨hok.1, hok.2.1, fun e he => ?_⟩ (fun p hp => by rw [hcall]; exact hp)
      exact lt_of_lt_of_le (Finset.mem_filter.1 he).2 hok.2.2
    | releasing t runId =>
      rw [hcall] at hok
      simp only [step, hcall] at h
      cases h
      exact inv_setCall hinv ⟨hok, fun m hm => (Finset.mem_filter.1 hm).2⟩ (fun p hp => by cases hp)
    | _ =>
      simp only [step, hcall] at h
      cases h
  | drop call gone =>
    cases hcall : w.calls call with
    | purging t m expired =>
      simp only [step, hcall] at h
      split at h
      · rename_i hgone
        cases h
        exact inv_purge hinv hcall hgone
      · cases h
    | dropping t runId matching =>
      simp only [step, hcall] at h
      split at h
      · rename_i hgone
        cases h
        exact inv_takeOff hinv hcall hgone
      · cases h
    | _ =>
      simp only [step, hcall] at h
      cases h
  | rollBack call =>
    cases hcall : w.calls call with
    | rollingBack t m size =>
      simp only [step, hcall] at h
      cases h
      exact inv_refuseRun hinv _ (by rw [hcall]; rfl)
    | _ =>
      simp only [step, hcall] at h
      cases h
  | release call t runId =>
    simp only [step] at h
    split at h
    · cases h
    rename_i hidle
    split at h
    · cases h
      exact inv_setCall hinv trivial (fun p hp => by cases hp)
    · cases h
      rw [not_or] at hidle
      exact inv_quiet hinv rfl rfl ⟨rfl, rfl, rfl, rfl⟩ rfl rfl (Finset.subset_insert _ _)
        ⟨Finset.mem_insert_self _ _, hidle.2⟩ (fun p hp => by cases hp) (fun _ => rfl)
  | endRelease call =>
    cases hcall : w.calls call with
    | dropping t runId matching =>
      simp only [step, hcall] at h
      split at h
      · cases h
        exact inv_setCall hinv trivial (fun p hp => by cases hp)
      · cases h
    | _ =>
      simp only [step, hcall] at h
      cases h
  | unwind call =>
    simp only [step] at h
    split at h
    all_goals first
      | cases h; done
      | cases h
        exact inv_setCall hinv trivial (fun p hp => by cases hp)

end

/-! ## the quota -/

theorem inv_of_reaches {now : Int} {w : World} (h : Reaches (step limits) { now := now } w) : Inv limits w :=
  h.invariant (inv_start now) (fun _ _ _ hinv _ hs => inv_step hinv hs)

theorem sameRuns_of_release {w w' : World} (hinv : Inv limits w) {t : Tenant} {runId : String} (hfree : ¬ w.Unreleased t runId)
    {act : Act} (hact : ReleaseOf w t runId act) (h : step limits w act = some w') : SameRuns w w' := by
  cases act with
  | release call t' r' =>
    simp only [step] at h
    split at h
    · cases h
    split at h
    · cases h
      exact ⟨rfl, rfl, rfl, rfl⟩
    · cases h
      exact ⟨rfl, rfl, rfl, rfl⟩
  | list call =>
    rcases hact with hcall | ⟨matching, hcall⟩
    · simp only [step, hcall] at h
      cases h
      exact ⟨rfl, rfl, rfl, rfl⟩
    · simp only [step, hcall] at h
      cases h
  | drop call gone =>
    rcases hact with hcall | ⟨matching, hcall⟩
    · simp only [step, hcall] at h
      cases h
    have hok := hinv.calls call
    rw [hcall] at hok
    obtain ⟨⟨-, htold⟩, hmatching⟩ := hok
    simp only [step, hcall] at h
    split at h
    · rename_i hgone
      cases h
      have hid : gone.runId = runId := hmatching gone hgone
      have hout : gone ∉ w.sets t := by
        intro hmem
        obtain ⟨ha, hn⟩ := (hinv.split t gone hmem).resolve_right (fun hs => htold (hid ▸ hs))
        exact hfree ⟨gone, ha, hn, hid⟩
      refine ⟨?_, rfl, ?_, rfl⟩
      · show Function.update w.sets t ((w.sets t).erase gone) = w.sets
        rw [Finset.erase_eq_of_notMem hout, Function.update_eq_self]
      · show Function.update w.released t (if gone ∈ w.sets t then _ else w.released t) = w.released
        rw [if_neg hout, Function.update_eq_self]
    · cases h
  | endRelease call =>
    rcases hact with hcall | ⟨matching, hcall⟩
    · simp only [step, hcall] at h
      cases h
    · simp only [step, hcall] at h
      split at h
      · cases h
        exact ⟨rfl, rfl, rfl, rfl⟩
      · cases h
  | _ => cases hact

/-- **The quota of concurrent runs**: in every interleaving, with the quotas on, a tenant never has more admitted,
unreleased and unexpired runs than the limit; a release of a run that was never admitted or has been released changes
nothing; and a refused admission leaves no member behind. -/
theorem concurrent_runs {now : Int} {w : World} (h : Reaches (step limits) { now := now } w) :
    (limits.enabled = true → ∀ t, w.running t ≤ limits.maxConcurrentRuns.toNat) ∧
      (∀ t runId act w', ¬ w.Unreleased t runId → ReleaseOf w t runId act → step limits w act = some w' → SameRuns w w') ∧
      ∀ call t m error, w.calls call = .refused t (some m) error → m ∉ w.sets t := by
  have hinv := inv_of_reaches h
  refine ⟨fun hon t => ?_, fun t runId act w' hfree hact hs => sameRuns_of_release hinv hfree hact hs,
    fun call t m error hcall => ?_⟩
  · rw [World.running, hinv.metered hon t, Nat.add_zero]
    exact hinv.bound t
  · have hok := hinv.calls call
    rw [hcall] at hok
    exact hok.2.2

/-! Two admissions at once for one slot, and with the quotas off. -/

def oneRun : QuotaLimits where
  enabled := true
  maxConcurrentRuns := 1
  maxTokensPerPeriod := 100
  maxCostUsdPerPeriod := 1
  maxCostText := "1"
  runTtlSeconds := 3600
  maxToolsPerRun := 1

def contended : List Act :=
  [.admitRun 0 "t" 0 0 "a", .add 0, .count 0, .admitRun 1 "t" 0 0 "b", .add 1, .count 1, .list 1, .count 1, .rollBack 1,
    .release 2 "t" "a", .list 2, .drop 2 ⟨"a", 3600⟩, .endRelease 2]

theorem concurrent_runs_contended :
    let w := Trace.play (step oneRun) { now := 0 } contended
    w.running "t" ≤ 1 ∧ ∀ w', step oneRun w (.release 3 "t" "a") = some w' → SameRuns w w' := by
  have hreleased : ∀ m ∈ (Trace.play (step oneRun) { now := 0 } contended).admitted "t",
      m ∈ (Trace.play (step oneRun) { now := 0 } contended).released "t" := by decide +kernel
  have hplayed : (Trace.exec (step oneRun) { now := 0 } contended).isSome := by decide +kernel
  have h := concurrent_runs (Trace.reaches_play hplayed)
  exact ⟨h.1 rfl "t", fun w' hs => h.2.1 "t" "a" (.release 3 "t" "a") w'
    (fun ⟨m, hm, hfree, _⟩ => hfree (hreleased m hm)) ⟨rfl, rfl⟩ hs⟩

/-- With the quotas off every admission is granted. -/
theorem disabled_runs_exceed :
    ¬ ∀ (limits : QuotaLimits) (now : Int) (w : World), Reaches (step limits) { now := now } w → ∀ t,
      w.running t ≤ limits.maxConcurrentRuns.toNat := by
  intro h
  have hruns : (Trace.exec (step { oneRun with enabled := false }) { now := 0 }
      [.admitRun 0 "t" 0 0 "a", .admitRun 1 "t" 0 0 "b"]).isSome := by decide +kernel
  have hoff := h { oneRun with enabled := false } 0 _ (Trace.reaches_play hruns) "t"
  revert hoff
  decide +kernel

end Quotas
end MyGpt
