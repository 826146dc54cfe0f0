import MyGpt.Lib.Newest
import Mathlib.Data.List.Dedup
import Mathlib.Data.Prod.Lex
/-!
# MessageVersions — the versions of a message

`services/message_versions.py` over its two tables.  A version is saved before a message is overwritten or deleted, and is
not deleted with it; what is saved is cut back to the newest of the message and of the conversation.  A row is pruned when
the newest fill the cap without it (`mem_doomed`).  The caps hold after every operation, so only a save prunes.  Going to a
version saves the current one, and going back to that restores the message as it was, unless the saved row was pruned at
once, which takes a full set of rows with later times (`version_history`).
-/
namespace MyGpt
namespace Versions

open Newest

def maxVersionsPerMessage : Nat := 20

def maxVersionsPerConversation : Nat := 200

inductive Origin
  | edit | regenerate | restore | truncate
  deriving DecidableEq

/-- What a version keeps of a message.  The metadata are a dict, of which Python's `==` takes 1, 1.0 and true for one. -/
structure Body (μ κ : Type) where
  content : String
  metadata : μ
  modelName : Option String
  totalTokens : Option Int
  costUsd : Option κ

structure Message (μ κ : Type) extends Body μ κ where
  conversationId : Nat
  role : String

structure MessageVersion (μ κ : Type) extends Body μ κ where
  id : Nat
  messageId : Nat
  conversationId : Nat
  role : String
  origin : Origin
  createdAt : Nat

variable {μ κ : Type}

/-- `created_at`, and `id` where two are of one time. -/
def MessageVersion.rank (version : MessageVersion μ κ) : Nat ×ₗ Nat := toLex (version.createdAt, version.id)

structure Stamp where
  id : Nat
  createdAt : Nat
  deriving DecidableEq

structure Store (μ κ : Type) where
  messages : Nat → Option (Message μ κ)
  versions : List (MessageVersion μ κ)

/-! ## pruning -/

def ofConversation (versions : List (MessageVersion μ κ)) (conversationId : Nat) : List (MessageVersion μ κ) :=
  versions.filter (fun v => v.conversationId = conversationId)

/-- A partition of `ROW_NUMBER`. -/
def ofMessage (versions : List (MessageVersion μ κ)) (conversationId messageId : Nat) : List (MessageVersion μ κ) :=
  (ofConversation versions conversationId).filter (fun v => v.messageId = messageId)

def ranked (versions : List (MessageVersion μ κ)) (conversationId messageId : Nat) : List Nat :=
  ((newestFirst MessageVersion.rank (ofMessage versions conversationId messageId)).drop maxVersionsPerMessage).map (·.id)

def overflow (versions : List (MessageVersion μ κ)) (conversationId : Nat) : List Nat :=
  ((newestFirst MessageVersion.rank (ofConversation versions conversationId)).drop maxVersionsPerConversation).map (·.id)

def doomed (versions : List (MessageVersion μ κ)) (conversationId : Nat) : List Nat :=
  (((ofConversation versions conversationId).filter
      (fun v => (ranked versions conversationId v.messageId).contains v.id)).map (·.id) ++
    overflow versions conversationId).dedup

def pruneVersions (versions : List (MessageVersion μ κ)) (conversationId : Nat) : List (MessageVersion μ κ) × Nat :=
  (versions.filter (fun v => decide (v.id ∉ doomed versions conversationId)), (doomed versions conversationId).length)

/-! ## saving, and going back -/

/-- The row for a message; no column of a message is null that `or` would replace by another value. -/
def newVersion (messageId : Nat) (message : Message μ κ) (origin : Origin) (stamp : Stamp) : MessageVersion μ κ :=
  { message.toBody with
    id := stamp.id
    messageId := messageId
    conversationId := message.conversationId
    role := message.role
    origin := origin
    createdAt := stamp.createdAt }

theorem newVersion_conversationId (messageId : Nat) (message : Message μ κ) (origin : Origin) (stamp : Stamp) :
    (newVersion messageId message origin stamp).conversationId = message.conversationId := rfl

/-- `snapshot_message`; none when the id is taken. -/
def snapshotMessage (s : Store μ κ) (messageId : Nat) (message : Message μ κ) (origin : Origin) (stamp : Stamp) :
    Option (Store μ κ × MessageVersion μ κ) :=
  let version := newVersion messageId message origin stamp
  if version.id ∈ s.versions.map (·.id) then none
  else some ({ s with versions := (pruneVersions (s.versions ++ [version]) version.conversationId).1 }, version)

def getVersion (s : Store μ κ) (messageId versionId : Nat) : Option (MessageVersion μ κ) :=
  s.versions.find? (fun v => v.id = versionId && v.messageId = messageId)

section

variable [BEq μ]

/-- `same`: tokens and cost are not compared, and no model is the empty one. -/
def Body.same (current version : Body μ κ) : Bool :=
  current.content = version.content && current.metadata == version.metadata &&
    current.modelName.getD "" = version.modelName.getD ""

structure Activation where
  changed : Bool
  restoredFrom : Nat
  deriving DecidableEq

def Store.put (s : Store μ κ) (messageId : Nat) (message : Option (Message μ κ)) : Store μ κ :=
  { s with messages := Function.update s.messages messageId message }

def activateVersion (s : Store μ κ) (messageId : Nat) (message : Message μ κ) (version : MessageVersion μ κ) (stamp : Stamp) :
    Option (Store μ κ × Activation) :=
  if message.toBody.same version.toBody then some (s, { changed := false, restoredFrom := version.id })
  else (snapshotMessage s messageId message .restore stamp).map (fun (saved, _) =>
    let swapped := saved.put messageId (some { message with toBody := version.toBody })
    -- the second pruning is of the message's id, where the first was of its conversation's
    ({ swapped with versions := (pruneVersions swapped.versions messageId).1 },
      { changed := true, restoredFrom := version.id }))

/-! ## runs -/

inductive VersionOp (μ κ : Type)
  | snapshot (messageId : Nat) (origin : Origin) (stamp : Stamp)
  | prune (conversationId : Nat)
  | activate (messageId versionId : Nat) (stamp : Stamp)
  | write (messageId : Nat) (message : Option (Message μ κ))

def Store.step (s : Store μ κ) : VersionOp μ κ → Option (Store μ κ)
  | .snapshot messageId origin stamp =>
    (s.messages messageId).bind (fun message => (snapshotMessage s messageId message origin stamp).map (·.1))
  | .prune conversationId => some { s with versions := (pruneVersions s.versions conversationId).1 }
  | .activate messageId versionId stamp =>
    (s.messages messageId).bind (fun message => (getVersion s messageId versionId).bind (fun version =>
      if version.conversationId = message.conversationId then
        (activateVersion s messageId message version stamp).map (·.1)
      else none))
  | .write messageId message => some (s.put messageId message)

def Store.saves (s : Store μ κ) : VersionOp μ κ → Option (MessageVersion μ κ)
  | .snapshot messageId origin stamp =>
    (s.messages messageId).map (fun message => newVersion messageId message origin stamp)
  | .activate messageId versionId stamp =>
    (s.messages messageId).bind (fun message => (getVersion s messageId versionId).bind (fun version =>
      if message.toBody.same version.toBody then none else some (newVersion messageId message .restore stamp)))
  | _ => none

def Store.run (s : Store μ κ) (ops : List (VersionOp μ κ)) : Option (Store μ κ) := ops.foldlM Store.step s

def Store.start (messages : Nat → Option (Message μ κ)) : Store μ κ := { messages, versions := [] }

end

/-! ## what is pruned -/

variable {versions : List (MessageVersion μ κ)}

theorem ranks_nodup (h : (versions.map (·.id)).Nodup) : (versions.map MessageVersion.rank).Nodup := by
  refine List.Nodup.of_map (fun rank => (ofLex rank).2) ?_
  rw [List.map_map]
  exact h

theorem ofMessage_sublist (versions : List (MessageVersion μ κ)) (c m : Nat) :
    (ofMessage versions c m).Sublist (ofConversation versions c) :=
  List.filter_sublist

theorem mem_ofConversation {v : MessageVersion μ κ} {c : Nat} :
    v ∈ ofConversation versions c ↔ v ∈ versions ∧ v.conversationId = c := by
  rw [ofConversation, List.mem_filter, decide_eq_true_eq]

theorem mem_ofMessage {v : MessageVersion μ κ} {c m : Nat} :
    v ∈ ofMessage versions c m ↔ v ∈ versions ∧ v.conversationId = c ∧ v.messageId = m := by
  rw [ofMessage, List.mem_filter, mem_ofConversation, decide_eq_true_eq, and_assoc]

theorem ofConversation_filter (p : MessageVersion μ κ → Bool) (c : Nat) :
    ofConversation (versions.filter p) c = (ofConversation versions c).filter p :=
  List.filter_comm _ _ _

theorem ofMessage_filter (p : MessageVersion μ κ → Bool) (c m : Nat) :
    ofMessage (versions.filter p) c m = (ofMessage versions c m).filter p := by
  rw [ofMessage, ofConversation_filter, List.filter_comm]
  rfl

theorem mem_behind {rows : List (MessageVersion μ κ)} (hrows : rows.Sublist versions) (h : (versions.map (·.id)).Nodup)
    {v : MessageVersion μ κ} (hv : v ∈ rows) (k : Nat) :
    v.id ∈ ((newestFirst MessageVersion.rank rows).drop k).map (·.id) ↔ k ≤ newer MessageVersion.rank rows v := by
  have hids : (rows.map (·.id)).Nodup := h.sublist (hrows.map _)
  have hdrop := fun w => mem_drop_newestFirst MessageVersion.rank (ranks_nodup hids) k w
  constructor
  · intro hmem
    obtain ⟨w, hw, heq⟩ := List.mem_map.1 hmem
    obtain ⟨hwrows, hmany⟩ := (hdrop w).1 hw
    rwa [List.inj_on_of_nodup_map hids hwrows hv heq] at hmany
  · exact fun hmany => List.mem_map.2 ⟨v, (hdrop v).2 ⟨hv, hmany⟩, rfl⟩

theorem mem_doomed (h : (versions.map (·.id)).Nodup) {v : MessageVersion μ κ} (hv : v ∈ versions) (c : Nat) :
    v.id ∈ doomed versions c ↔ v.conversationId = c ∧
      (maxVersionsPerMessage ≤ newer MessageVersion.rank (ofMessage versions c v.messageId) v ∨
        maxVersionsPerConversation ≤ newer MessageVersion.rank (ofConversation versions c) v) := by
  have hscoped : (ofConversation versions c).Sublist versions := List.filter_sublist
  have hgroup := (ofMessage_sublist versions c v.messageId).trans hscoped
  rw [doomed, List.mem_dedup, List.mem_append]
  constructor
  · rintro (hmem | hmem)
    · obtain ⟨w, hw, heq⟩ := List.mem_map.1 hmem
      obtain ⟨hwscoped, hranked⟩ := List.mem_filter.1 hw
      obtain ⟨hwmem, hc⟩ := mem_ofConversation.1 hwscoped
      obtain rfl := List.inj_on_of_nodup_map h hwmem hv heq
      rw [List.contains_iff_mem, ranked, mem_behind hgroup h (mem_ofMessage.2 ⟨hv, hc, rfl⟩)] at hranked
      exact ⟨hc, .inl hranked⟩
    · obtain ⟨w, hw, heq⟩ := List.mem_map.1 hmem
      have hwscoped := (newestFirst_perm MessageVersion.rank _).mem_iff.1 (List.mem_of_mem_drop hw)
      obtain ⟨hwmem, hc⟩ := mem_ofConversation.1 hwscoped
      obtain rfl := List.inj_on_of_nodup_map h hwmem hv heq
      exact ⟨hc, .inr ((mem_behind hscoped h hwscoped _).1 hmem)⟩
  · rintro ⟨hc, hmany | hmany⟩
    · refine .inl (List.mem_map.2 ⟨v, List.mem_filter.2 ⟨mem_ofConversation.2 ⟨hv, hc⟩, ?_⟩, rfl⟩)
      rw [List.contains_iff_mem]
      exact (mem_behind hgroup h (mem_ofMessage.2 ⟨hv, hc, rfl⟩) _).2 hmany
    · exact .inr ((mem_behind hscoped h (mem_ofConversation.2 ⟨hv, hc⟩) _).2 hmany)

theorem mem_pruned {v : MessageVersion μ κ} {c : Nat} :
    v ∈ (pruneVersions versions c).1 ↔ v ∈ versions ∧ v.id ∉ doomed versions c := by
  rw [pruneVersions, List.mem_filter, decide_eq_true_eq]

def Outdated (before after : List (MessageVersion μ κ)) (gone : MessageVersion μ κ) : Prop :=
  (maxVersionsPerMessage ≤ newer MessageVersion.rank (ofMessage before gone.conversationId gone.messageId) gone ∧
      ∀ kept ∈ ofMessage after gone.conversationId gone.messageId, gone.rank < kept.rank) ∨
    (maxVersionsPerConversation ≤ newer MessageVersion.rank (ofConversation before gone.conversationId) gone ∧
      ∀ kept ∈ ofConversation after gone.conversationId, gone.rank < kept.rank)

theorem pruned_outdated (h : (versions.map (·.id)).Nodup) {gone : MessageVersion μ κ} {c : Nat} (hmem : gone ∈ versions)
    (hgone : gone ∉ (pruneVersions versions c).1) : Outdated versions (pruneVersions versions c).1 gone := by
  have hdoomed : gone.id ∈ doomed versions c := by
    by_contra hkept
    exact hgone (mem_pruned.2 ⟨hmem, hkept⟩)
  obtain ⟨rfl, hmany⟩ := (mem_doomed h hmem c).1 hdoomed
  have hkept : ∀ kept ∈ (pruneVersions versions gone.conversationId).1, kept.conversationId = gone.conversationId →
      newer MessageVersion.rank (ofMessage versions gone.conversationId kept.messageId) kept < maxVersionsPerMessage ∧
        newer MessageVersion.rank (ofConversation versions gone.conversationId) kept < maxVersionsPerConversation := by
    intro kept hk hc
    obtain ⟨hin, hnot⟩ := mem_pruned.1 hk
    rw [mem_doomed h hin] at hnot
    have hfew := fun hor => hnot ⟨hc, hor⟩
    exact ⟨Nat.lt_of_not_le (fun hle => hfew (.inl hle)), Nat.lt_of_not_le (fun hle => hfew (.inr hle))⟩
  rcases hmany with hmany | hmany
  · refine .inl ⟨hmany, fun kept hk => ?_⟩
    obtain ⟨hk, hc, hm⟩ := mem_ofMessage.1 hk
    have hfew := (hkept kept hk hc).1
    rw [hm] at hfew
    exact rank_lt_of_newer MessageVersion.rank hmany hfew
  · refine .inr ⟨hmany, fun kept hk => ?_⟩
    obtain ⟨hk, hc⟩ := mem_ofConversation.1 hk
    exact rank_lt_of_newer MessageVersion.rank hmany (hkept kept hk hc).2

/-! ## the caps -/

/-- **The caps**, in every conversation. -/
def Capped (versions : List (MessageVersion μ κ)) : Prop :=
  ∀ c, (ofConversation versions c).length ≤ maxVersionsPerConversation ∧
    ∀ m, (ofMessage versions c m).length ≤ maxVersionsPerMessage

theorem pruned_sublist (versions : List (MessageVersion μ κ)) (c : Nat) : (pruneVersions versions c).1.Sublist versions :=
  List.filter_sublist

theorem capped_pruned (versions : List (MessageVersion μ κ)) (c : Nat) :
    (ofConversation (pruneVersions versions c).1 c).length ≤ maxVersionsPerConversation ∧
      ∀ m, (ofMessage (pruneVersions versions c).1 c m).length ≤ maxVersionsPerMessage := by
  constructor
  · rw [pruneVersions, ofConversation_filter]
    refine Nat.le_trans ?_ (length_kept_le MessageVersion.rank (·.id) (ofConversation versions c) _)
    rw [← List.countP_eq_length_filter, ← List.countP_eq_length_filter]
    refine List.countP_mono_left (fun v _ hv => ?_)
    rw [decide_eq_true_eq] at hv ⊢
    exact fun hover => hv (List.mem_dedup.2 (List.mem_append_right _ hover))
  · intro m
    rw [pruneVersions, ofMessage_filter]
    refine Nat.le_trans ?_ (length_kept_le MessageVersion.rank (·.id) (ofMessage versions c m) _)
    rw [← List.countP_eq_length_filter, ← List.countP_eq_length_filter]
    refine List.countP_mono_left (fun v hmem hv => ?_)
    rw [decide_eq_true_eq] at hv ⊢
    obtain ⟨hscoped, hm⟩ := List.mem_filter.1 hmem
    obtain rfl := of_decide_eq_true hm
    refine fun hranked => hv (List.mem_dedup.2 (List.mem_append_left _ (List.mem_map.2 ⟨v, ?_, rfl⟩)))
    exact List.mem_filter.2 ⟨hscoped, List.contains_iff_mem.2 hranked⟩

theorem Capped.append (h : Capped versions) (v : MessageVersion μ κ) :
    Capped (pruneVersions (versions ++ [v]) v.conversationId).1 := by
  intro c
  by_cases hc : v.conversationId = c
  · subst hc
    exact capped_pruned _ _
  · have hother : ofConversation (versions ++ [v]) c = ofConversation versions c := by
      simp [ofConversation, List.filter_append, hc]
    have hrows : (ofConversation (pruneVersions (versions ++ [v]) v.conversationId).1 c).Sublist (ofConversation versions c) := by
      rw [← hother]
      exact (pruned_sublist _ _).filter _
    exact ⟨Nat.le_trans hrows.length_le (h c).1, fun m => Nat.le_trans (hrows.filter _).length_le ((h c).2 m)⟩

theorem Capped.prune (h : Capped versions) (c : Nat) : (pruneVersions versions c).1 = versions := by
  have hnone : doomed versions c = [] := by
    have hover : overflow versions c = [] := by
      rw [overflow, List.drop_eq_nil_of_le, List.map_nil]
      rw [(newestFirst_perm _ _).length_eq]
      exact (h c).1
    have hranked : ∀ m, ranked versions c m = [] := by
      intro m
      rw [ranked, List.drop_eq_nil_of_le, List.map_nil]
      rw [(newestFirst_perm _ _).length_eq]
      exact (h c).2 m
    simp [doomed, hover, hranked]
  simp [pruneVersions, hnone]

/-! ## a run -/

section

variable [BEq μ] {s s' : Store μ κ}

structure Sound (versions : List (MessageVersion μ κ)) : Prop where
  ids : (versions.map (·.id)).Nodup
  capped : Capped versions

/-- **What an operation does to the table**: it saves a row and prunes that conversation, or does nothing. -/
theorem versions_step (h : Capped s.versions) {op : VersionOp μ κ} (hstep : s.step op = some s') :
    (s.saves op = none ∧ s'.versions = s.versions) ∨ ∃ saved, s.saves op = some saved ∧
      saved.id ∉ s.versions.map (·.id) ∧ s'.versions = (pruneVersions (s.versions ++ [saved]) saved.conversationId).1 := by
  cases op with
  | snapshot messageId origin stamp =>
    obtain ⟨message, hmessage, hsnapshot⟩ := Option.bind_eq_some_iff.1 hstep
    obtain ⟨⟨_, saved⟩, hsaved, rfl⟩ := Option.map_eq_some_iff.1 hsnapshot
    obtain ⟨hfresh, ⟨⟩⟩ := Option.ite_none_left_eq_some.1 hsaved
    refine .inr ⟨_, ?_, hfresh, rfl⟩
    simp only [Store.saves, hmessage, Option.map_some]
  | prune c =>
    cases hstep
    exact .inl ⟨rfl, h.prune c⟩
  | activate messageId versionId stamp =>
    obtain ⟨message, hmessage, hfound⟩ := Option.bind_eq_some_iff.1 hstep
    obtain ⟨version, hversion, hactivate⟩ := Option.bind_eq_some_iff.1 hfound
    obtain ⟨-, hactivate⟩ := Option.ite_none_right_eq_some.1 hactivate
    obtain ⟨⟨_, activation⟩, hactivated, rfl⟩ := Option.map_eq_some_iff.1 hactivate
    simp only [Store.saves, hmessage, hversion, Option.bind_some]
    unfold activateVersion at hactivated
    split at hactivated
    · rename_i hsame
      obtain ⟨⟩ := hactivated
      exact .inl ⟨if_pos hsame, rfl⟩
    · rename_i hdiffers
      obtain ⟨⟨saved, version'⟩, hsaved, heq⟩ := Option.map_eq_some_iff.1 hactivated
      obtain ⟨hfresh, ⟨⟩⟩ := Option.ite_none_left_eq_some.1 hsaved
      obtain ⟨⟩ := heq
      exact .inr ⟨_, if_neg hdiffers, hfresh, (h.append (newVersion messageId message .restore stamp)).prune messageId⟩
  | write messageId message =>
    cases hstep
    exact .inl ⟨rfl, rfl⟩

omit [BEq μ] in
theorem ids_append {saved : MessageVersion μ κ} (h : (s.versions.map (·.id)).Nodup)
    (hfresh : saved.id ∉ s.versions.map (·.id)) : ((s.versions ++ [saved]).map (·.id)).Nodup := by
  rw [List.map_append, List.map_singleton]
  exact List.nodup_append.2 ⟨h, List.nodup_singleton _, fun a ha b hb heq => hfresh (by simp_all)⟩

theorem Sound.step (h : Sound s.versions) {op : VersionOp μ κ} (hstep : s.step op = some s') : Sound s'.versions := by
  rcases versions_step h.capped hstep with ⟨-, heq⟩ | ⟨saved, -, hfresh, heq⟩
  · rw [heq]
    exact h
  · rw [heq]
    exact ⟨(ids_append h.ids hfresh).sublist ((pruned_sublist _ _).map _), h.capped.append saved⟩

theorem Sound.run : ∀ (ops : List (VersionOp μ κ)) {s s' : Store μ κ}, Sound s.versions → s.run ops = some s' → Sound s'.versions
  | [], _, _, h, hrun => by
    cases hrun
    exact h
  | op :: ops, _, _, h, hrun => by
    rw [Store.run, List.foldlM_cons] at hrun
    obtain ⟨next, hstep, hrest⟩ := Option.bind_eq_some_iff.1 hrun
    exact Sound.run ops (h.step hstep) hrest

theorem step_outdated (h : Sound s.versions) {op : VersionOp μ κ} (hstep : s.step op = some s') {gone : MessageVersion μ κ}
    (hmem : gone ∈ s.versions ++ (s.saves op).toList) (hgone : gone ∉ s'.versions) :
    Outdated (s.versions ++ (s.saves op).toList) s'.versions gone := by
  rcases versions_step h.capped hstep with ⟨hsaves, heq⟩ | ⟨saved, hsaves, hfresh, heq⟩
  · rw [hsaves, Option.toList_none, List.append_nil] at hmem
    exact absurd (heq ▸ hmem) hgone
  · rw [hsaves, Option.toList_some] at hmem ⊢
    rw [heq] at hgone ⊢
    exact pruned_outdated (ids_append h.ids hfresh) hmem hgone

/-! ## there and back -/

omit [BEq μ] in
theorem getVersion_eq (hids : (s.versions.map (·.id)).Nodup) {version : MessageVersion μ κ} (h : version ∈ s.versions) :
    getVersion s version.messageId version.id = some version := by
  cases hfound : getVersion s version.messageId version.id with
  | none => exact absurd (List.find?_eq_none.1 hfound version h) (by simp)
  | some found =>
    have hmem := List.mem_of_find?_eq_some hfound
    have hmatch := List.find?_some hfound
    rw [Bool.and_eq_true, decide_eq_true_eq] at hmatch
    rw [List.inj_on_of_nodup_map hids hmem h hmatch.1]

theorem same_comm [PartialEquivBEq μ] (current version : Body μ κ) : current.same version = version.same current := by
  simp only [Body.same, BEq.comm (a := current.metadata), eq_comm (a := current.content),
    eq_comm (a := current.modelName.getD "")]

omit [BEq μ] in
theorem newer_append_self (rows : List (MessageVersion μ κ)) (saved : MessageVersion μ κ) :
    newer MessageVersion.rank (rows ++ [saved]) saved = newer MessageVersion.rank rows saved := by
  simp [newer, List.countP_append]

theorem saved_kept (h : Sound s.versions) {op : VersionOp μ κ} (hstep : s.step op = some s') {saved : MessageVersion μ κ}
    (hsaves : s.saves op = some saved) :
    saved ∈ s'.versions ↔
      newer MessageVersion.rank (ofMessage s.versions saved.conversationId saved.messageId) saved < maxVersionsPerMessage ∧
      newer MessageVersion.rank (ofConversation s.versions saved.conversationId) saved < maxVersionsPerConversation := by
  rcases versions_step h.capped hstep with ⟨hnone, -⟩ | ⟨row, hrow, hfresh, heq⟩
  · rw [hnone] at hsaves
    cases hsaves
  · obtain rfl := Option.some.inj (hrow.symm.trans hsaves)
    have hmem : row ∈ s.versions ++ [row] := List.mem_append_right _ List.mem_cons_self
    have hconversation : ofConversation (s.versions ++ [row]) row.conversationId =
        ofConversation s.versions row.conversationId ++ [row] := by
      simp [ofConversation, List.filter_append]
    have hmessage : ofMessage (s.versions ++ [row]) row.conversationId row.messageId =
        ofMessage s.versions row.conversationId row.messageId ++ [row] := by
      simp [ofMessage, hconversation, List.filter_append]
    rw [heq, mem_pruned, mem_doomed (ids_append h.ids hfresh) hmem, hmessage, hconversation, newer_append_self,
      newer_append_self]
    simp [hmem, not_or]

/-- **Going to a version**: the message has what the version kept, and what it had is saved. -/
theorem activate_inv {messageId versionId : Nat} {stamp : Stamp}
    (hstep : s.step (.activate messageId versionId stamp) = some s') :
    ∃ message version, s.messages messageId = some message ∧ getVersion s messageId versionId = some version ∧
      version.conversationId = message.conversationId ∧
      ((message.toBody.same version.toBody = true ∧ s' = s) ∨
        message.toBody.same version.toBody = false ∧
          s'.messages = Function.update s.messages messageId (some { message with toBody := version.toBody })) := by
  obtain ⟨message, hmessage, hfound⟩ := Option.bind_eq_some_iff.1 hstep
  obtain ⟨version, hversion, hactivate⟩ := Option.bind_eq_some_iff.1 hfound
  obtain ⟨hconversation, hactivate⟩ := Option.ite_none_right_eq_some.1 hactivate
  obtain ⟨⟨_, activation⟩, hactivated, rfl⟩ := Option.map_eq_some_iff.1 hactivate
  refine ⟨message, version, hmessage, hversion, hconversation, ?_⟩
  unfold activateVersion at hactivated
  split at hactivated
  · rename_i hsame
    obtain ⟨⟩ := hactivated
    exact .inl ⟨hsame, rfl⟩
  · rename_i hdiffers
    obtain ⟨⟨saved, version'⟩, hsaved, heq⟩ := Option.map_eq_some_iff.1 hactivated
    obtain ⟨-, ⟨⟩⟩ := Option.ite_none_left_eq_some.1 hsaved
    obtain ⟨⟩ := heq
    exact .inr ⟨Bool.not_eq_true _ ▸ hdiffers, rfl⟩

theorem activateVersion_differs (messageId : Nat) {message : Message μ κ} {version : MessageVersion μ κ} {stamp : Stamp}
    (hdiffers : ¬ message.toBody.same version.toBody = true) (hfresh : stamp.id ∉ s.versions.map (·.id)) :
    ∃ out activation, activateVersion s messageId message version stamp = some (out, activation) ∧
      out.messages = Function.update s.messages messageId (some { message with toBody := version.toBody }) := by
  have hsaved : snapshotMessage s messageId message .restore stamp = some (_, _) := if_neg hfresh
  unfold activateVersion
  rw [if_neg hdiffers, hsaved]
  exact ⟨_, _, rfl, rfl⟩

/-- **There and back**: while the saved row is there, going to it restores every message. -/
theorem activate_back [PartialEquivBEq μ] (h : Sound s.versions) {messageId versionId : Nat} {stamp : Stamp}
    (hstep : s.step (.activate messageId versionId stamp) = some s') {saved : MessageVersion μ κ}
    (hsaves : s.saves (.activate messageId versionId stamp) = some saved) (hkept : saved ∈ s'.versions) {again : Stamp}
    (hagain : again.id ∉ s'.versions.map (·.id)) :
    ∃ back, s'.step (.activate messageId saved.id again) = some back ∧ back.messages = s.messages := by
  obtain ⟨message, version, hmessage, hversion, hconversation, hcases⟩ := activate_inv hstep
  simp only [Store.saves, hmessage, hversion, Option.bind_some] at hsaves
  obtain ⟨hdiffers, hsaved⟩ := Option.ite_none_left_eq_some.1 hsaves
  cases hsaved
  obtain ⟨hsame, -⟩ | ⟨-, hmessages⟩ := hcases
  · exact absurd hsame hdiffers
  have hthere : s'.messages messageId = some { message with toBody := version.toBody } := by
    rw [hmessages, Function.update_self]
  have hfound : getVersion s' messageId stamp.id = some (newVersion messageId message .restore stamp) :=
    getVersion_eq (h.step hstep).ids hkept
  have hback : ¬ ({ message with toBody := version.toBody } : Message μ κ).toBody.same
      (newVersion messageId message .restore stamp).toBody = true := by
    rw [same_comm]
    exact hdiffers
  obtain ⟨back, activation, hactivated, hswapped⟩ := activateVersion_differs messageId hback hagain
  refine ⟨back, ?_, ?_⟩
  · show s'.step (.activate messageId stamp.id again) = _
    simp only [Store.step, hthere, hfound, Option.bind_some]
    rw [if_pos (newVersion_conversationId messageId message .restore stamp), hactivated]
    rfl
  · rw [hswapped, hmessages, Function.update_idem]
    exact Function.update_eq_self_iff.2 hmessage.symm

/-- **Message version history.**  After every operation the caps hold; what an operation prunes is the oldest of its message
or of its conversation.  Going to a version that differs saves the current one, and the saved row is kept exactly when fewer
rows than a cap holds are newer; when it is kept, going to it restores the message. -/
theorem version_history [PartialEquivBEq μ] {messages : Nat → Option (Message μ κ)} {ops : List (VersionOp μ κ)}
    (h : (Store.start messages).run ops = some s) :
    Capped s.versions ∧
      (∀ op s', s.step op = some s' → ∀ gone ∈ s.versions ++ (s.saves op).toList, gone ∉ s'.versions →
        Outdated (s.versions ++ (s.saves op).toList) s'.versions gone) ∧
      ∀ messageId versionId stamp s', s.step (.activate messageId versionId stamp) = some s' →
        (s.saves (.activate messageId versionId stamp) = none → s' = s) ∧
        ∀ saved, s.saves (.activate messageId versionId stamp) = some saved →
          (saved ∈ s'.versions ↔
            newer MessageVersion.rank (ofMessage s.versions saved.conversationId saved.messageId) saved <
                maxVersionsPerMessage ∧
              newer MessageVersion.rank (ofConversation s.versions saved.conversationId) saved < maxVersionsPerConversation) ∧
          (saved ∈ s'.versions → ∀ again : Stamp, again.id ∉ s'.versions.map (·.id) →
            ∃ back, s'.step (.activate messageId saved.id again) = some back ∧ back.messages = s.messages) := by
  have hstart : Sound (Store.start messages).versions :=
    ⟨List.nodup_nil, fun c => ⟨Nat.zero_le _, fun m => Nat.zero_le _⟩⟩
  have hsound : Sound s.versions := Sound.run ops hstart h
  refine ⟨hsound.capped, fun op s' hstep gone hmem hgone => step_outdated hsound hstep hmem hgone,
    fun messageId versionId stamp s' hstep => ⟨fun hnone => ?_, fun saved hsaves => ⟨saved_kept hsound hstep hsaves,
      fun hkept again hagain => activate_back hsound hstep hsaves hkept hagain⟩⟩⟩
  obtain ⟨message, version, hmessage, hversion, -, hcases⟩ := activate_inv hstep
  simp only [Store.saves, hmessage, hversion, Option.bind_some] at hnone
  rcases hcases with ⟨-, heq⟩ | ⟨hdiffers, -⟩
  · exact heq
  · rw [if_neg (Bool.eq_false_iff.1 hdiffers)] at hnone
    cases hnone

end

def answer (content : String) : Message (List (String × String)) Nat :=
  { content, metadata := [], modelName := none, totalTokens := some 42, costUsd := none, conversationId := 1,
    role := "assistant" }

def twice : Store (List (String × String)) Nat :=
  { messages := Function.update (fun _ => some (answer "1")) 7 (some (answer "2"))
    versions := [newVersion 7 (answer "1") .regenerate ⟨1, 100⟩] }

theorem version_history_twice : Capped twice.versions ∧ ∃ s' saved back, twice.step (.activate 7 1 ⟨2, 200⟩) = some s' ∧
    saved ∈ s'.versions ∧ s'.step (.activate 7 saved.id ⟨3, 300⟩) = some back ∧ back.messages = twice.messages := by
  have hrun : (Store.start (fun _ => some (answer "1"))).run
      [.snapshot 7 .regenerate ⟨1, 100⟩, .write 7 (some (answer "2"))] = some twice := rfl
  obtain ⟨hcapped, -, hactivate⟩ := version_history hrun
  obtain ⟨-, hsaved⟩ := hactivate 7 1 ⟨2, 200⟩ _ rfl
  obtain ⟨hkept, hback⟩ := hsaved _ rfl
  have hin := hkept.2 (by decide)
  obtain ⟨back, hstep, hmessages⟩ := hback hin ⟨3, 300⟩ (by decide)
  exact ⟨hcapped, _, _, back, rfl, hin, hstep, hmessages⟩

/-! ## a clock that is set back -/

def fullOps : List (VersionOp (List (String × String)) Nat) :=
  (List.range maxVersionsPerMessage).map (fun n => .snapshot 7 .regenerate ⟨n, 100 + n⟩) ++ [.write 7 (some (answer "2"))]

theorem fullOps_runs : ((Store.start (fun _ => some (answer "1"))).run fullOps).isSome := by decide +kernel

def full : Store (List (String × String)) Nat := ((Store.start (fun _ => some (answer "1"))).run fullOps).get fullOps_runs

theorem full_saves : (full.saves (.activate 7 5 ⟨20, 99⟩)).isSome := by decide +kernel

theorem full_step : (full.step (.activate 7 5 ⟨20, 99⟩)).isSome := by decide +kernel

/-- The answer that is saved now is older than every version, is pruned at once, and cannot be gone back to. -/
theorem set_back_pruned : ¬ ∀ (messages : Nat → Option (Message (List (String × String)) Nat))
    (ops : List (VersionOp (List (String × String)) Nat)) (s s' : Store (List (String × String)) Nat)
    (messageId versionId : Nat) (stamp : Stamp) (saved : MessageVersion (List (String × String)) Nat),
    (Store.start messages).run ops = some s → s.step (.activate messageId versionId stamp) = some s' →
      s.saves (.activate messageId versionId stamp) = some saved → ∀ again : Stamp, again.id ∉ s'.versions.map (·.id) →
        ∃ back, s'.step (.activate messageId saved.id again) = some back ∧ back.messages = s.messages := by
  intro hall
  have hagain : 21 ∉ ((full.step (.activate 7 5 ⟨20, 99⟩)).get full_step).versions.map (·.id) := by decide +kernel
  obtain ⟨back, hback, -⟩ := hall _ fullOps full _ 7 5 ⟨20, 99⟩ _ (Option.some_get fullOps_runs).symm
    (Option.some_get full_step).symm (Option.some_get full_saves).symm ⟨21, 300⟩ hagain
  have hnone : (((full.step (.activate 7 5 ⟨20, 99⟩)).get full_step).step
      (.activate 7 ((full.saves (.activate 7 5 ⟨20, 99⟩)).get full_saves).id ⟨21, 300⟩)).isNone := by
    decide +kernel
  rw [hback] at hnone
  cases hnone

end Versions
end MyGpt
