import MyGpt.Connectors
import MyGpt.Lib.Tally
/-!
# ConnectorQuota — scopes, quota and refusals over a tenant's whole history

The counter is the number of enabled connectors plus the number of times that one was disabled or deleted
(`State.Sound.counted`), so the quota is exact until that difference reaches the limit (`lifecycle_iff`).
-/
namespace MyGpt
namespace Connectors

open Chat (Text)
open Trace (Reaches play reaches_play)

variable {catalog : Text → Option ProviderManifest} {maxConnectors : Int}

/-! ## what must hold -/

def Enabling (catalog : Text → Option ProviderManifest) (s : State) : Op → Prop
  | .create request => request.enabled = true ∧ ∃ manifest, catalog request.provider = some manifest ∧
      createGate request manifest = none
  | .enable id => ∃ conn, s.get id = some conn ∧ conn.enabled = false ∧
      missing conn.oauthScopes conn.manifest.requiredScopes = []
  | _ => False

def Refusal.ForQuota : Refusal → Prop
  | .quotaExceeded _ _ => True
  | _ => False

/-- **Enabled connectors have their scopes, the quota refuses exactly at the limit, and a refusal changes nothing.** -/
structure Lifecycle (catalog : Text → Option ProviderManifest) (maxConnectors : Int) (s : State) : Prop where
  scopes : ∀ conn ∈ s.connectors, conn.enabled = true → ∀ scope ∈ conn.manifest.requiredScopes, scope ∈ conn.oauthScopes
  quota : ∀ op, (∃ refusal, (run catalog maxConnectors s op).1 = some refusal ∧ refusal.ForQuota) ↔
    Enabling catalog s op ∧ maxConnectors ≤ s.enabledCount
  unchanged : ∀ op refusal, (run catalog maxConnectors s op).1 = some refusal → (run catalog maxConnectors s op).2 = s

/-! ## the counter and the rows -/

structure State.Sound (catalog : Text → Option ProviderManifest) (s : State) : Prop where
  nodup : (s.connectors.map (·.id)).Nodup
  fresh : ∀ conn ∈ s.connectors, conn.id < s.nextId
  covers : ∀ conn ∈ s.connectors, conn.enabled = true → missing conn.oauthScopes conn.manifest.requiredScopes = []
  counted : s.counter = s.enabledCount + s.released
  known : s.connectors ≠ [] ∨ 0 < s.released → ∃ provider manifest, catalog provider = some manifest

theorem missing_eq_nil {granted required : List Text} :
    missing granted required = [] ↔ ∀ scope ∈ required, scope ∈ granted := by
  simp [missing, List.filter_eq_nil_iff]

theorem checkScopes_eq_none {granted required : List Text} :
    checkScopes granted required = none ↔ missing granted required = [] := by
  unfold checkScopes
  split
  next hnil => simp [hnil]
  next hmissing => simp [hmissing]

theorem get_mem {s : State} {id : Nat} {conn : Connector} (h : s.get id = some conn) :
    conn ∈ s.connectors ∧ conn.id = id := by
  exact ⟨List.mem_of_find?_eq_some h, of_decide_eq_true (List.find?_some (p := fun c : Connector => decide (c.id = id)) h)⟩

theorem put_ids (s : State) (conn : Connector) : (s.put conn).connectors.map (·.id) = s.connectors.map (·.id) := by
  unfold State.put
  rw [List.map_map]
  refine List.map_congr_left (fun c _ => ?_)
  show (if c.id = conn.id then conn else c).id = c.id
  split
  next heq => exact heq.symm
  next => rfl

theorem mem_put {s : State} {conn c : Connector} (h : c ∈ (s.put conn).connectors) : c = conn ∨ c ∈ s.connectors := by
  obtain ⟨c', hc', rfl⟩ := List.mem_map.1 h
  split
  next => exact .inl rfl
  next => exact .inr hc'

theorem enabledCount_put {s : State} (hd : (s.connectors.map (·.id)).Nodup) {conn conn' : Connector}
    (hmem : conn ∈ s.connectors) (hid : conn'.id = conn.id) :
    (s.put conn').enabledCount + conn.enabled.toNat = s.enabledCount + conn'.enabled.toNat := by
  have hcount := Tally.countP_replace (·.id) hd hmem (·.enabled) conn'
  unfold State.enabledCount State.put
  rw [hid]
  exact hcount

theorem State.Sound.put {s : State} (h : s.Sound catalog) (conn conn' : Connector) (counter released : Nat)
    (hmem : conn ∈ s.connectors) (hid : conn'.id = conn.id)
    (hcovers : conn'.enabled = true → missing conn'.oauthScopes conn'.manifest.requiredScopes = [])
    (hcount : counter + s.released + conn.enabled.toNat = s.counter + released + conn'.enabled.toNat) :
    State.Sound catalog { s.put conn' with counter := counter, released := released } where
  nodup := by
    rw [put_ids]
    exact h.nodup
  fresh := by
    intro c hc
    rcases mem_put hc with rfl | hold
    · rw [hid]
      exact h.fresh conn hmem
    · exact h.fresh c hold
  covers := by
    intro c hc
    rcases mem_put hc with rfl | hold
    · exact hcovers
    · exact h.covers c hold
  counted := by
    have hput := enabledCount_put h.nodup hmem hid
    have hwas := h.counted
    show counter = (s.put conn').enabledCount + released
    omega
  known := by
    intro _
    exact h.known (.inl (List.ne_nil_of_mem hmem))

theorem enabledCount_removed {s : State} (hd : (s.connectors.map (·.id)).Nodup) {conn : Connector} (hmem : conn ∈ s.connectors) :
    (s.connectors.filter (fun c => c.id ≠ conn.id)).countP (·.enabled) + conn.enabled.toNat = s.enabledCount :=
  Tally.countP_remove (·.id) hd hmem (·.enabled)

theorem State.Sound.removed {s : State} (h : s.Sound catalog) {conn : Connector} (hmem : conn ∈ s.connectors) :
    State.Sound catalog ({ s with connectors := s.connectors.filter (fun c => c.id ≠ conn.id) }.releaseIf conn.enabled) where
  nodup := h.nodup.sublist (List.filter_sublist.map _)
  fresh := fun c hc => h.fresh c (List.mem_of_mem_filter hc)
  covers := fun c hc => h.covers c (List.mem_of_mem_filter hc)
  counted := by
    have hcount := enabledCount_removed h.nodup hmem
    have hwas := h.counted
    show s.counter = (s.connectors.filter (fun c => c.id ≠ conn.id)).countP (·.enabled) + (s.released + conn.enabled.toNat)
    omega
  known := fun _ => h.known (.inl (List.ne_nil_of_mem hmem))

theorem State.Sound.inserted {s : State} (h : s.Sound catalog) (conn : Connector) (counter : Nat) (hid : conn.id = s.nextId)
    (hcovers : conn.enabled = true → missing conn.oauthScopes conn.manifest.requiredScopes = [])
    (hknown : ∃ provider manifest, catalog provider = some manifest) (hcount : counter = s.counter + conn.enabled.toNat) :
    State.Sound catalog
      { s with connectors := s.connectors ++ [conn], nextId := s.nextId + 1, counter := counter } where
  nodup := by
    rw [List.map_append, List.nodup_append]
    refine ⟨h.nodup, List.pairwise_singleton _ _, ?_⟩
    rintro i hi j hj rfl
    obtain ⟨c, hc, rfl⟩ := List.mem_map.1 hi
    have hlt := h.fresh c hc
    have heq : c.id = conn.id := List.mem_singleton.1 hj
    omega
  fresh := by
    intro c hc
    rcases List.mem_append.1 hc with hold | hnew
    · exact Nat.lt_succ_of_lt (h.fresh c hold)
    · rw [List.mem_singleton.1 hnew, hid]
      exact Nat.lt_succ_self _
  covers := by
    intro c hc
    rcases List.mem_append.1 hc with hold | hnew
    · exact h.covers c hold
    · rw [List.mem_singleton.1 hnew]
      exact hcovers
  counted := by
    have hwas := h.counted
    unfold State.enabledCount at hwas ⊢
    rw [hcount, List.countP_append, List.countP_singleton]
    cases conn.enabled <;> simp <;> omega
  known := fun _ => hknown

/-! ## each operation -/

theorem createGate_covers {request : CreateRequest} {manifest : ProviderManifest} (h : createGate request manifest = none)
    (henabled : request.enabled = true) : missing request.oauthScopes manifest.requiredScopes = [] := by
  unfold createGate at h
  dsimp only at h
  rw [if_pos henabled] at h
  split at h
  · cases h
  split at h
  · cases h
  exact checkScopes_eq_none.1 h

theorem sound_create {s : State} (h : s.Sound catalog) (request : CreateRequest) :
    (create catalog maxConnectors s request).2.Sound catalog := by
  unfold create
  split
  next => exact h
  next manifest hmanifest =>
    split
    next => exact h
    next hgate =>
      split
      next => exact h
      next =>
        have hcovers := createGate_covers hgate
        refine iteInduction (motive := fun t => State.Sound catalog t) (fun henabled => ?_) (fun henabled => ?_)
        · refine h.inserted (request.connector manifest s.nextId) (s.counter + 1) rfl hcovers ⟨_, manifest, hmanifest⟩ ?_
          simp [CreateRequest.connector, henabled]
        · refine h.inserted (request.connector manifest s.nextId) s.counter rfl hcovers ⟨_, manifest, hmanifest⟩ ?_
          simp [CreateRequest.connector, henabled]

theorem sound_enable {s : State} (h : s.Sound catalog) (id : Nat) : (enable maxConnectors s id).2.Sound catalog := by
  unfold enable
  split
  next => exact h
  next conn hget =>
    have hmem := (get_mem hget).1
    split
    next => exact h
    next hscopes =>
      have hcovers := checkScopes_eq_none.1 hscopes
      split
      next henabled =>
        refine h.put conn { conn with enabled := true } s.counter s.released hmem rfl (fun _ => hcovers) ?_
        rw [henabled]
      next hdisabled =>
        split
        next => exact h
        next =>
          refine h.put conn { conn with enabled := true } (s.counter + 1) s.released hmem rfl (fun _ => hcovers) ?_
          simp only [Bool.not_eq_true] at hdisabled
          rw [hdisabled]
          show s.counter + 1 + s.released + 0 = s.counter + s.released + 1
          omega

theorem sound_disable {s : State} (h : s.Sound catalog) (id : Nat) : (disable s id).2.Sound catalog := by
  unfold disable
  split
  next => exact h
  next conn hget =>
    refine h.put conn { conn with enabled := false } s.counter (s.released + conn.enabled.toNat) (get_mem hget).1 rfl
      (fun henabled => nomatch henabled) ?_
    show s.counter + s.released + conn.enabled.toNat = s.counter + (s.released + conn.enabled.toNat) + 0
    omega

theorem sound_update {s : State} (h : s.Sound catalog) (id : Nat) (name : Option Text) (oauthScopes : Option (List Text)) :
    (update s id name oauthScopes).2.Sound catalog := by
  unfold update
  split
  next => exact h
  next conn hget =>
    have hmem := (get_mem hget).1
    cases oauthScopes with
    | none =>
      exact h.put conn { conn with name := name.getD conn.name } s.counter s.released hmem rfl (h.covers conn hmem) rfl
    | some scopes =>
      refine h.put conn _ s.counter (s.released + _) hmem rfl ?_ ?_
      · intro henabled
        simp only [Bool.and_eq_true, Bool.not_eq_true', Bool.and_eq_false_iff, Bool.not_eq_false'] at henabled
        obtain ⟨hwas, hfalse | hnil⟩ := henabled
        · rw [hwas] at hfalse
          cases hfalse
        · exact List.isEmpty_iff.1 hnil
      · show s.counter + s.released + conn.enabled.toNat = s.counter + (s.released + _) + _
        cases conn.enabled <;> cases (missing scopes conn.manifest.requiredScopes).isEmpty <;>
          simp only [Bool.toNat_true, Bool.toNat_false, Bool.not_true, Bool.not_false, Bool.and_true, Bool.and_false] <;> omega

theorem sound_delete {s : State} (h : s.Sound catalog) (id : Nat) : (delete s id).2.Sound catalog := by
  unfold delete
  split
  next => exact h
  next conn hget =>
    obtain ⟨hmem, rfl⟩ := get_mem hget
    exact h.removed hmem

theorem sound_step {s s' : State} {op : Op} (h : s.Sound catalog) (hs : step catalog maxConnectors s op = some s') :
    s'.Sound catalog := by
  cases hs
  cases op with
  | create request => exact sound_create h request
  | enable id => exact sound_enable h id
  | disable id => exact sound_disable h id
  | update id name oauthScopes => exact sound_update h id name oauthScopes
  | delete id => exact sound_delete h id

theorem sound_start : State.start.Sound catalog where
  nodup := List.nodup_nil
  fresh := fun _ hc => nomatch hc
  covers := fun _ hc => nomatch hc
  counted := rfl
  known := fun h => h.elim (fun hne => absurd rfl hne) (fun hpos => nomatch hpos)

/-! ## refusals -/

theorem checkConnectorQuota_some {s : State} {refusal : Refusal} (h : checkConnectorQuota maxConnectors s = some refusal) :
    maxConnectors ≤ s.counter ∧ refusal.ForQuota := by
  unfold checkConnectorQuota at h
  split at h
  next hfull =>
    cases h
    exact ⟨hfull, trivial⟩
  next => cases h

theorem checkConnectorQuota_none {s : State} (h : checkConnectorQuota maxConnectors s = none) : ¬ maxConnectors ≤ s.counter := by
  unfold checkConnectorQuota at h
  split at h
  next => cases h
  next hfree => exact hfree

theorem checkScopes_not_quota {granted required : List Text} {refusal : Refusal}
    (h : checkScopes granted required = some refusal) : ¬ refusal.ForQuota := by
  unfold checkScopes at h
  split at h
  · cases h
  · cases h
    exact id

theorem createGate_not_quota {request : CreateRequest} {manifest : ProviderManifest} {refusal : Refusal}
    (h : createGate request manifest = some refusal) : ¬ refusal.ForQuota := by
  unfold createGate at h
  dsimp only at h
  split at h
  · cases h
    exact id
  split at h
  · cases h
    exact id
  split at h
  · exact checkScopes_not_quota h
  · cases h

theorem create_refused_iff (s : State) (request : CreateRequest) :
    (∃ refusal, (create catalog maxConnectors s request).1 = some refusal ∧ refusal.ForQuota) ↔
      Enabling catalog s (.create request) ∧ maxConnectors ≤ s.counter := by
  unfold create
  split
  next hunknown =>
    constructor
    · rintro ⟨refusal, hrefusal, hquota⟩
      cases hrefusal
      exact hquota.elim
    · rintro ⟨⟨-, manifest, hmanifest, -⟩, -⟩
      rw [hunknown] at hmanifest
      cases hmanifest
  next manifest hmanifest =>
    split
    next refusal hgate =>
      constructor
      · rintro ⟨refusal', hrefusal, hquota⟩
        cases hrefusal
        exact absurd hquota (createGate_not_quota hgate)
      · rintro ⟨⟨-, manifest', hmanifest', hopen⟩, -⟩
        rw [hmanifest] at hmanifest'
        cases hmanifest'
        rw [hgate] at hopen
        cases hopen
    next hgate =>
      split
      next refusal hrefused =>
        by_cases henabled : request.enabled = true
        · rw [if_pos henabled] at hrefused
          have hfull := checkConnectorQuota_some hrefused
          exact ⟨fun _ => ⟨⟨henabled, manifest, hmanifest, hgate⟩, hfull.1⟩, fun _ => ⟨refusal, rfl, hfull.2⟩⟩
        · rw [if_neg henabled] at hrefused
          cases hrefused
      next hallowed =>
        constructor
        · rintro ⟨refusal, hrefusal, -⟩
          cases hrefusal
        · rintro ⟨⟨henabled, -⟩, hfull⟩
          rw [if_pos henabled] at hallowed
          exact absurd hfull (checkConnectorQuota_none hallowed)

theorem enable_refused_iff (s : State) (id : Nat) :
    (∃ refusal, (enable maxConnectors s id).1 = some refusal ∧ refusal.ForQuota) ↔
      Enabling catalog s (.enable id) ∧ maxConnectors ≤ s.counter := by
  unfold enable
  split
  next hnone =>
    constructor
    · rintro ⟨refusal, hrefusal, hquota⟩
      cases hrefusal
      exact hquota.elim
    · rintro ⟨⟨conn, hget, -⟩, -⟩
      rw [hnone] at hget
      cases hget
  next conn hget =>
    have hsame : ∀ conn', s.get id = some conn' → conn' = conn := fun conn' h => Option.some.inj (h.symm.trans hget)
    split
    next refusal hscopes =>
      constructor
      · rintro ⟨refusal', hrefusal, hquota⟩
        cases hrefusal
        exact absurd hquota (checkScopes_not_quota hscopes)
      · rintro ⟨⟨conn', hget', -, hcovers⟩, -⟩
        obtain rfl := hsame conn' hget'
        rw [checkScopes_eq_none.2 hcovers] at hscopes
        cases hscopes
    next hscopes =>
      split
      next henabled =>
        constructor
        · rintro ⟨refusal, hrefusal, -⟩
          cases hrefusal
        · rintro ⟨⟨conn', hget', hdisabled, -⟩, -⟩
          obtain rfl := hsame conn' hget'
          rw [hdisabled] at henabled
          cases henabled
      next hdisabled =>
        split
        next refusal hrefused =>
          have hfull := checkConnectorQuota_some hrefused
          have henabling : Enabling catalog s (.enable id) :=
            ⟨conn, hget, Bool.eq_false_iff.2 hdisabled, checkScopes_eq_none.1 hscopes⟩
          exact ⟨fun _ => ⟨henabling, hfull.1⟩, fun _ => ⟨refusal, rfl, hfull.2⟩⟩
        next hallowed =>
          constructor
          · rintro ⟨refusal, hrefusal, -⟩
            cases hrefusal
          · rintro ⟨-, hfull⟩
            exact absurd hfull (checkConnectorQuota_none hallowed)

theorem refused_iff (s : State) (op : Op) :
    (∃ refusal, (run catalog maxConnectors s op).1 = some refusal ∧ refusal.ForQuota) ↔
      Enabling catalog s op ∧ maxConnectors ≤ s.counter := by
  have hnever : ∀ {outcome : Option Refusal × State}, (outcome.1 = none ∨ outcome.1 = some .notFound) →
      ((∃ refusal, outcome.1 = some refusal ∧ refusal.ForQuota) ↔ False ∧ maxConnectors ≤ s.counter) := by
    intro outcome houtcome
    refine ⟨?_, fun h => h.1.elim⟩
    rintro ⟨refusal, hrefusal, hquota⟩
    rcases houtcome with h | h
    · rw [h] at hrefusal
      cases hrefusal
    · rw [h] at hrefusal
      cases hrefusal
      exact hquota.elim
  cases op with
  | create request => exact create_refused_iff s request
  | enable id => exact enable_refused_iff s id
  | disable id =>
    refine hnever ?_
    unfold run disable
    dsimp only
    split
    · exact .inr rfl
    · exact .inl rfl
  | update id name oauthScopes =>
    refine hnever ?_
    unfold run update
    dsimp only
    split
    · exact .inr rfl
    · cases oauthScopes <;> exact .inl rfl
  | delete id =>
    refine hnever ?_
    unfold run delete
    dsimp only
    split <;> exact .inl rfl

theorem refused_unchanged (s : State) (op : Op) (refusal : Refusal) (h : (run catalog maxConnectors s op).1 = some refusal) :
    (run catalog maxConnectors s op).2 = s := by
  cases op with
  | create request =>
    unfold run create at h ⊢
    dsimp only at h ⊢
    split at h
    next => rfl
    next =>
      split at h
      next => rfl
      next =>
        split at h
        next => rfl
        next => cases h
  | enable id =>
    unfold run enable at h ⊢
    dsimp only at h ⊢
    split at h
    next => rfl
    next =>
      split at h
      next => rfl
      next =>
        split at h
        next => cases h
        next hdisabled =>
          rw [if_neg hdisabled]
          split at h
          next => rfl
          next => cases h
  | disable id =>
    unfold run disable at h ⊢
    dsimp only at h ⊢
    split at h
    next => rfl
    next => cases h
  | update id name oauthScopes =>
    unfold run update at h ⊢
    dsimp only at h ⊢
    split at h
    next => rfl
    next => cases oauthScopes <;> cases h
  | delete id =>
    unfold run delete at h ⊢
    dsimp only at h ⊢
    split at h <;> cases h

theorem enabling_of_known {provider : Text} {manifest : ProviderManifest} (h : catalog provider = some manifest) (s : State) :
    Enabling catalog s (.create ⟨[], provider, manifest.requiredScopes, some "http".toList, true, true⟩) := by
  refine ⟨rfl, manifest, h, ?_⟩
  have hscopes : missing manifest.requiredScopes manifest.requiredScopes = [] := missing_eq_nil.2 (fun _ hs => hs)
  have htransport : chosenTransport (some "http".toList) manifest = "http".toList := by
    show "http".toList.map Char.toLower = "http".toList
    decide
  unfold createGate
  dsimp only
  rw [htransport, if_neg (by decide), if_neg (by decide), if_pos rfl, checkScopes_eq_none.2 hscopes]

/-! ## the claim -/

/-- **Connector lifecycle**: it is kept exactly while the disablings and deletions so far do not make the counter reach a limit
that the enabled connectors do not. -/
theorem lifecycle_iff (catalog : Text → Option ProviderManifest) (maxConnectors : Int) (s : State)
    (h : Reaches (step catalog maxConnectors) State.start s) :
    Lifecycle catalog maxConnectors s ↔
      ((s.enabledCount : Int) < maxConnectors → (s.enabledCount + s.released : Int) < maxConnectors) := by
  have hsound : s.Sound catalog := h.invariant sound_start (fun _ _ _ hs _ hstep => sound_step hs hstep)
  have hcounted := hsound.counted
  constructor
  · intro hlife hroom
    by_contra hfull
    obtain ⟨provider, manifest, hmanifest⟩ := hsound.known (.inr (by omega))
    have hrefused := (hlife.quota _).1 ((refused_iff s _).2 ⟨enabling_of_known hmanifest s, by omega⟩)
    exact absurd hrefused.2 (by omega)
  · intro hcond
    refine ⟨?_, ?_, refused_unchanged s⟩
    · intro conn hconn henabled
      exact missing_eq_nil.1 (hsound.covers conn hconn henabled)
    · intro op
      rw [refused_iff]
      have hsame : maxConnectors ≤ s.counter ↔ maxConnectors ≤ s.enabledCount := by omega
      rw [hsame]

def github : ProviderManifest := ⟨"http".toList, ["repo".toList, "gist".toList]⟩

/-- The entry `github` of `PROVIDER_CATALOG`. -/
def githubCatalog (provider : Text) : Option ProviderManifest := if provider = "github".toList then some github else none

def creates : Op := .create ⟨[], "github".toList, ["gist".toList, "repo".toList], none, true, false⟩

theorem lifecycle_iff_created : Lifecycle githubCatalog 2 (play (step githubCatalog 2) State.start [creates, .disable 0]) :=
  (lifecycle_iff githubCatalog 2 _ (reaches_play (by decide))).2 (by decide)

/-- **A disabled connector keeps its place in the counter**: with one place, it is refused for quota while none is enabled. -/
theorem reenable_refused : ¬ ∀ catalog maxConnectors s, Reaches (step catalog maxConnectors) State.start s →
    Lifecycle catalog maxConnectors s := by
  intro h
  have hquota := ((h githubCatalog 1 (play (step githubCatalog 1) State.start [creates, .disable 0])
    (reaches_play (by decide))).quota (.enable 0)).1 ⟨.quotaExceeded 1 1, by decide, trivial⟩
  exact absurd hquota.2 (by decide)

end Connectors
end MyGpt
