import MyGpt.RagService
/-!
# KbOrder — what the order of the knowledge bases does to a retrieval

The hits of the knowledge bases are put behind one another in the order of the request, and the ranks of the fusion are read
off the whole.  So the order shows as soon as two knowledge bases have hits of one kind, unless a reranker sorts all of
them again.
-/
namespace MyGpt
namespace Retrieval

open Chat (Text)
open Gathering (Sole front back own rest front_perm back_perm flatMap_front flatMap_back flatMap_perm_of_sole)

/-! ## the settings gathered -/

theorem keys_assign {β : Type} (key : Text) (value : β) (d : List (Text × β)) :
    (assign key value d).map Prod.fst = if key ∈ d.map Prod.fst then d.map Prod.fst else d.map Prod.fst ++ [key] := by
  induction d with
  | nil => rfl
  | cons e d ih =>
    obtain ⟨k, v⟩ := e
    rw [assign]
    by_cases hk : k = key
    · simp [hk]
    · rw [if_neg hk, List.map_cons, ih]
      by_cases hmem : key ∈ d.map Prod.fst
      · rw [if_pos hmem, List.map_cons, if_pos (List.mem_cons_of_mem _ hmem)]
      · rw [if_neg hmem, List.map_cons, if_neg (fun h => (List.mem_cons.1 h).elim (fun e => hk e.symm) hmem)]
        rfl

theorem nodup_assign {β : Type} {d : List (Text × β)} (h : (d.map Prod.fst).Nodup) (key : Text) (value : β) :
    ((assign key value d).map Prod.fst).Nodup := by
  rw [keys_assign]
  split
  · exact h
  · rename_i hk
    exact List.nodup_append.2 ⟨h, List.nodup_singleton key, fun a ha b hb e => hk (List.mem_singleton.1 hb ▸ e ▸ ha)⟩

theorem mem_assign {β : Type} {d : List (Text × β)} (h : (d.map Prod.fst).Nodup) (key k : Text) (value v : β) :
    (k, v) ∈ assign key value d ↔ if k = key then v = value else (k, v) ∈ d := by
  induction d with
  | nil =>
    rw [assign, List.mem_singleton, Prod.mk.injEq]
    by_cases hk : k = key <;> simp [hk]
  | cons e d ih =>
    obtain ⟨k', v'⟩ := e
    rw [List.map_cons, List.nodup_cons] at h
    rw [assign]
    by_cases hk' : k' = key
    · subst hk'
      rw [if_pos rfl, List.mem_cons, Prod.mk.injEq]
      by_cases hk : k = k'
      · subst hk
        have hnot : (k, v) ∉ d := fun hmem => h.1 (List.mem_map.2 ⟨(k, v), hmem, rfl⟩)
        simp [hnot]
      · simp [hk]
    · rw [if_neg hk', List.mem_cons, ih h.2, List.mem_cons]
      by_cases hk : k = key
      · subst hk
        simp [Ne.symm hk']
      · simp [hk]

theorem settingsOf_eq_some {d : List (Text × KbRetrieval)} (h : (d.map Prod.fst).Nodup) {key : Text} {ks : KbRetrieval} :
    settingsOf d key = some ks ↔ (key, ks) ∈ d := by
  induction d with
  | nil => simp [settingsOf]
  | cons e d ih =>
    obtain ⟨k, v⟩ := e
    rw [List.map_cons, List.nodup_cons] at h
    unfold settingsOf at ih ⊢
    by_cases hk : k = key
    · subst hk
      have hnot : (k, ks) ∉ d := fun hmem => h.1 (List.mem_map.2 ⟨(k, ks), hmem, rfl⟩)
      simp [hnot, eq_comm]
    · rw [List.find?_cons_of_neg (by simpa using hk), ih h.2, List.mem_cons, Prod.mk.injEq]
      simp [Ne.symm hk]

namespace Request

variable (r : Request)

def denseOf (kbId : Text) : List SearchHit := ((r.stores.get kbId).map r.denseHits).getD []
def keywordOf (kbId : Text) : List SearchHit := ((r.stores.get kbId).map r.keywordHits).getD []

theorem foldl_gatherKb (kbIds : List Text) (g : Gathered) :
    (kbIds.foldl r.gatherKb g).allV = g.allV ++ kbIds.flatMap r.denseOf ∧
      (kbIds.foldl r.gatherKb g).allK = g.allK ++ kbIds.flatMap r.keywordOf ∧
      (kbIds.foldl r.gatherKb g).sawKb = (g.sawKb || kbIds.any (fun kbId => (r.stores.get kbId).isSome)) := by
  induction kbIds generalizing g with
  | nil => simp
  | cons kbId kbIds ih =>
    rw [List.foldl_cons]
    obtain ⟨hv, hk, hsaw⟩ := ih (r.gatherKb g kbId)
    rw [hv, hk, hsaw]
    cases hget : r.stores.get kbId with
    | none | some => simp [gatherKb, denseOf, keywordOf, hget]

theorem gather_allV (kbIds : List Text) : (r.gather kbIds).allV = kbIds.flatMap r.denseOf := by
  simpa [gather] using (r.foldl_gatherKb kbIds {}).1

theorem gather_allK (kbIds : List Text) : (r.gather kbIds).allK = kbIds.flatMap r.keywordOf := by
  simpa [gather] using (r.foldl_gatherKb kbIds {}).2.1

theorem gather_sawKb (kbIds : List Text) :
    (r.gather kbIds).sawKb = kbIds.any (fun kbId => (r.stores.get kbId).isSome) := by
  simpa [gather] using (r.foldl_gatherKb kbIds {}).2.2

theorem foldl_settings (kbIds : List Text) (g : Gathered) (h : (g.kbSettings.map Prod.fst).Nodup) :
    ((kbIds.foldl r.gatherKb g).kbSettings.map Prod.fst).Nodup ∧ ∀ key ks,
      (key, ks) ∈ (kbIds.foldl r.gatherKb g).kbSettings ↔
        (∃ kb, key ∈ kbIds ∧ r.stores.get key = some kb ∧ ks = fromKb r.settings kb) ∨
          ((key ∈ kbIds → r.stores.get key = none) ∧ (key, ks) ∈ g.kbSettings) := by
  induction kbIds generalizing g with
  | nil => simp [h]
  | cons kbId kbIds ih =>
    rw [List.foldl_cons]
    cases hget : r.stores.get kbId with
    | none =>
      have hstep : r.gatherKb g kbId = g := by simp [gatherKb, hget]
      rw [hstep]
      refine ⟨(ih g h).1, fun key ks => ((ih g h).2 key ks).trans ?_⟩
      by_cases hk : key = kbId
      · subst hk
        simp [hget]
      · simp [hk]
    | some kb =>
      have hid : kb.id = kbId := r.stores.get_id _ _ hget
      have hstep : (r.gatherKb g kbId).kbSettings = assign kbId (fromKb r.settings kb) g.kbSettings := by
        simp [gatherKb, hget, hid]
      have hnodup := nodup_assign h kbId (fromKb r.settings kb)
      rw [← hstep] at hnodup
      refine ⟨(ih _ hnodup).1, fun key ks => ((ih _ hnodup).2 key ks).trans ?_⟩
      rw [hstep, mem_assign h]
      by_cases hk : key = kbId
      · subst hk
        by_cases hmem : key ∈ kbIds
        · simp [hmem, hget]
        · simp [hmem, hget]
      · simp [hk]

theorem nodup_settings (kbIds : List Text) : ((r.gather kbIds).kbSettings.map Prod.fst).Nodup :=
  (r.foldl_settings kbIds {} List.nodup_nil).1

theorem mem_settings (kbIds : List Text) {key : Text} {ks : KbRetrieval} : (key, ks) ∈ (r.gather kbIds).kbSettings ↔
    ∃ kb, key ∈ kbIds ∧ r.stores.get key = some kb ∧ ks = fromKb r.settings kb := by
  refine ((r.foldl_settings kbIds {} List.nodup_nil).2 key ks).trans ?_
  simp

/-! ## what does not depend on the order -/

variable {kbIds kbIds' : List Text} (hp : kbIds'.Perm kbIds)

include hp

theorem settings_perm : (r.gather kbIds').kbSettings.Perm (r.gather kbIds).kbSettings := by
  refine (List.perm_ext_iff_of_nodup (r.nodup_settings kbIds').of_map (r.nodup_settings kbIds).of_map).2 ?_
  intro e
  rw [mem_settings, mem_settings]
  simp only [hp.mem_iff]

theorem settingsOf_perm (key : Text) :
    settingsOf (r.gather kbIds').kbSettings key = settingsOf (r.gather kbIds).kbSettings key := by
  apply Option.ext
  intro ks
  rw [settingsOf_eq_some (r.nodup_settings kbIds'), settingsOf_eq_some (r.nodup_settings kbIds), mem_settings, mem_settings,
    hp.mem_iff]

theorem sawKb_perm : (r.gather kbIds').sawKb = (r.gather kbIds).sawKb := by
  rw [gather_sawKb, gather_sawKb, hp.any_eq]

theorem finalK_perm : r.finalK (r.gather kbIds').kbSettings = r.finalK (r.gather kbIds).kbSettings := by
  unfold finalK
  rw [((r.settings_perm hp).map _).sum_eq]

omit hp in
theorem capFrom_congr {s s' : List (Text × KbRetrieval)} (h : ∀ key, settingsOf s' key = settingsOf s key)
    (hits : List SearchHit) (seen : Text → Nat) : capFrom s' seen hits = capFrom s seen hits := by
  induction hits generalizing seen with
  | nil => rfl
  | cons hit hits ih =>
    rw [capFrom, capFrom, h]
    cases settingsOf s (hit.payload.kbId.getD []) with
    | none => exact congrArg (hit :: ·) (ih seen)
    | some ks => simp only [ih]

theorem select_perm (hits : List SearchHit) :
    r.select (r.gather kbIds').kbSettings hits = r.select (r.gather kbIds).kbSettings hits := by
  have hnil : (r.gather kbIds').kbSettings = [] ↔ (r.gather kbIds).kbSettings = [] :=
    ⟨fun e => List.nil_perm.1 (e ▸ r.settings_perm hp), fun e => List.perm_nil.1 (e ▸ r.settings_perm hp)⟩
  have hcap : ∀ hs, capPerKb (r.gather kbIds').kbSettings hs = capPerKb (r.gather kbIds).kbSettings hs := fun hs => by
    unfold capPerKb
    rw [capFrom_congr (r.settingsOf_perm hp)]
    simp only [hnil]
  have hbar : ∀ h, thresholdOf (r.gather kbIds').kbSettings r.settings.ragMinScore h =
      thresholdOf (r.gather kbIds).kbSettings r.settings.ragMinScore h := fun h => by
    unfold thresholdOf
    rw [r.settingsOf_perm hp]
  unfold select
  simp only [hcap, hbar, r.finalK_perm hp]

omit hp

/-! ## the pass that sorts the candidates -/

def optedOut (kbIds : List Text) : Bool :=
  kbIds.all (fun kbId => (r.stores.get kbId).all (fun kb => kb.rerankEnabled = some false))

def pass (kbIds : List Text) : Reranker := if r.optedOut kbIds then .noop else r.reranker

theorem rerank_nil (reranker : Reranker) : rerank reranker [] = [] := by
  cases reranker <;> rfl

theorem settings_ne_nil {kbIds : List Text} (h : (r.gather kbIds).sawKb = true) : (r.gather kbIds).kbSettings ≠ [] := by
  rw [gather_sawKb, List.any_eq_true] at h
  obtain ⟨kbId, hmem, hsome⟩ := h
  obtain ⟨kb, hget⟩ := Option.isSome_iff_exists.1 hsome
  exact List.ne_nil_of_mem ((r.mem_settings kbIds).2 ⟨kb, hmem, hget, rfl⟩)

theorem all_optedOut (kbIds : List Text) :
    (r.gather kbIds).kbSettings.all (fun e => e.2.rerankEnabled = some false) = r.optedOut kbIds := by
  rw [Bool.eq_iff_iff, List.all_eq_true, optedOut, List.all_eq_true]
  constructor
  · intro h kbId hmem
    cases hget : r.stores.get kbId with
    | none => rfl
    | some kb => exact h _ ((r.mem_settings kbIds).2 ⟨kb, hmem, hget, rfl⟩)
  · rintro h ⟨key, ks⟩ hmem
    obtain ⟨kb, hkey, hget, rfl⟩ := (r.mem_settings kbIds).1 hmem
    have hkb := h key hkey
    rw [hget] at hkb
    exact hkb

theorem fused_eq_nil {kbIds : List Text} (h : (r.gather kbIds).sawKb = false) : r.fused kbIds = [] := by
  rw [gather_sawKb, List.any_eq_false] at h
  have hget : ∀ kbId ∈ kbIds, r.stores.get kbId = none := fun kbId hmem => by simpa using h kbId hmem
  have hv : (r.gather kbIds).allV = [] := by
    rw [gather_allV, List.flatMap_eq_nil_iff]
    intro kbId hmem
    simp [denseOf, hget kbId hmem]
  have hk : (r.gather kbIds).allK = [] := by
    rw [gather_allK, List.flatMap_eq_nil_iff]
    intro kbId hmem
    simp [keywordOf, hget kbId hmem]
  unfold fused
  simp only [hv, hk]
  split <;> rfl

theorem candidates_eq (kbIds : List Text) :
    r.candidates kbIds = rerank (r.pass kbIds) ((r.fused kbIds).take r.fusedLimit) := by
  unfold candidates
  cases hsaw : (r.gather kbIds).sawKb with
  | false => rw [r.fused_eq_nil hsaw, List.take_nil, rerank_nil, rerank_nil]
  | true =>
    have hpass : r.rerankerOf (r.gather kbIds).kbSettings = r.pass kbIds := by
      rw [rerankerOf, all_optedOut, pass]
      simp only [ne_eq, r.settings_ne_nil hsaw, not_false_eq_true, true_and]
    rw [hpass]

theorem pass_perm {kbIds kbIds' : List Text} (hp : kbIds'.Perm kbIds) : r.pass kbIds' = r.pass kbIds := by
  rw [pass, pass, optedOut, optedOut, hp.all_eq]

end Request

def finalScore (reranker : Reranker) (h : SearchHit) : ℚ :=
  match reranker with
  | .scoring relevance => relevance (hitText h.payload)
  | _ => h.score

theorem rerank_eq_of_perm {reranker : Reranker} (hsort : reranker.isNoop = false) {hits hits' : List SearchHit}
    (hu : Untied (finalScore reranker) hits) (hp : hits'.Perm hits) : rerank reranker hits' = rerank reranker hits := by
  cases reranker with
  | noop => cases hsort
  | failing => exact bestFirst_eq_of_perm hu hp
  | scoring relevance =>
    refine bestFirst_eq_of_perm ?_ (hp.map _)
    intro a ha b hb hab
    obtain ⟨h, hh, rfl⟩ := List.mem_map.1 ha
    obtain ⟨h', hh', rfl⟩ := List.mem_map.1 hb
    rw [hu h hh h' hh' hab]

theorem countP_rerank (reranker : Reranker) (q : Text → Bool) (hits : List SearchHit) :
    (rerank reranker hits).countP (fun h => q h.id) = hits.countP (fun h => q h.id) := by
  cases reranker with
  | noop => rfl
  | failing => exact (bestFirst_perm _ hits).countP_eq _
  | scoring relevance =>
    refine ((bestFirst_perm _ _).countP_eq _).trans ?_
    rw [List.countP_map]
    rfl

namespace Request

variable (r : Request)

/-! ## whose chunk a hit is -/

theorem tagged_own {kbId : Text} {kb : KnowledgeBase} (hget : r.stores.get kbId = some kb)
    {answer : Option (List SearchHit)} (hown : ∀ hits, answer = some hits → ∀ h ∈ hits, r.stores.owner h.id = kb.id)
    {h : SearchHit} (hmem : h ∈ (answer.getD []).map (tagKb kb)) : r.stores.owner h.id = kbId := by
  obtain ⟨h₀, hmem₀, rfl⟩ := List.mem_map.1 hmem
  cases hanswer : answer with
  | none => simp [hanswer] at hmem₀
  | some hits =>
    rw [hanswer, Option.getD_some] at hmem₀
    exact (hown hits hanswer h₀ hmem₀).trans (r.stores.get_id _ _ hget)

theorem denseOf_own {kbId : Text} {h : SearchHit} (hmem : h ∈ r.denseOf kbId) : r.stores.owner h.id = kbId := by
  unfold denseOf at hmem
  cases hget : r.stores.get kbId with
  | none => simp [hget] at hmem
  | some kb =>
    rw [hget, Option.map_some, Option.getD_some, denseHits] at hmem
    exact r.tagged_own hget (r.stores.dense_own kb _) hmem

theorem keywordOf_own {kbId : Text} {h : SearchHit} (hmem : h ∈ r.keywordOf kbId) : r.stores.owner h.id = kbId := by
  unfold keywordOf at hmem
  cases hget : r.stores.get kbId with
  | none => simp [hget] at hmem
  | some kb =>
    rw [hget, Option.map_some, Option.getD_some, keywordHits] at hmem
    by_cases hhybrid : r.hybrid
    · rw [if_pos hhybrid] at hmem
      exact r.tagged_own hget (r.stores.keyword_own kb _) hmem
    · rw [if_neg hhybrid] at hmem
      cases hmem

/-! ## the order of the knowledge bases -/

/-- **Every order of the knowledge bases gives each chunk the same fused score, and, where no two of the fused hits end with
one score, the same candidates and the same hits in the same order.** -/
def OrderFree (kbIds : List Text) : Prop :=
  ∀ kbIds', kbIds'.Perm kbIds →
    (∀ x, scoresOf (r.fused kbIds') x = scoresOf (r.fused kbIds) x) ∧
      (Untied (finalScore (r.pass kbIds)) (r.fused kbIds) →
        r.candidates kbIds' = r.candidates kbIds ∧ r.retrieve kbIds' = r.retrieve kbIds)

/-- What the stores answer does not let the order show.  Fused, at most one knowledge base has vector hits and at most one
has keyword hits.  By vectors alone, one knowledge base has hits, or two of the hits tie, or a reranker sorts all of
them. -/
def Settled (kbIds : List Text) : Prop :=
  if r.hybrid then Sole r.denseOf kbIds ∧ Sole r.keywordOf kbIds
  else
    Sole r.denseOf kbIds ∨ ¬ Untied (finalScore (r.pass kbIds)) (kbIds.flatMap r.denseOf) ∨
      ((r.pass kbIds).isNoop = false ∧ (kbIds.flatMap r.denseOf).length ≤ r.fusedLimit)

theorem fused_hybrid (hhybrid : r.hybrid = true) (kbIds : List Text) :
    r.fused kbIds = rrfFuse r.settings.ragRrfK [kbIds.flatMap r.denseOf, kbIds.flatMap r.keywordOf] := by
  unfold fused
  simp only [hhybrid, gather_allV, gather_allK, ↓reduceIte]

theorem fused_dense (hhybrid : r.hybrid = false) (kbIds : List Text) : r.fused kbIds = kbIds.flatMap r.denseOf := by
  unfold fused
  simp only [hhybrid, gather_allV, Bool.false_eq_true, ↓reduceIte]

theorem retrieve_eq {kbIds kbIds' : List Text} (hp : kbIds'.Perm kbIds) (h : r.candidates kbIds' = r.candidates kbIds) :
    r.retrieve kbIds' = r.retrieve kbIds := by
  unfold retrieve
  rw [r.sawKb_perm hp, r.select_perm hp, h]

theorem candidates_eq_of_fused {kbIds kbIds' : List Text} (hp : kbIds'.Perm kbIds) (h : r.fused kbIds' = r.fused kbIds) :
    r.candidates kbIds' = r.candidates kbIds := by
  rw [candidates_eq, candidates_eq, h, r.pass_perm hp]

/-- **By vectors alone a chunk keeps its scores in every order**: its hits are those of its own knowledge base. -/
theorem scoresOf_dense {kbIds kbIds' : List Text} (hp : kbIds'.Perm kbIds) (x : Text) :
    scoresOf (kbIds'.flatMap r.denseOf) x = scoresOf (kbIds.flatMap r.denseOf) x := by
  unfold scoresOf
  rw [List.filter_flatMap, List.filter_flatMap]
  refine congrArg (List.map _) (flatMap_perm_of_sole _ ?_ hp)
  have howner : ∀ a, (r.denseOf a).filter (fun h => h.id = x) ≠ [] → r.stores.owner x = a := fun a hne => by
    obtain ⟨h, hmem⟩ := List.exists_mem_of_ne_nil _ hne
    obtain ⟨hmem, hx⟩ := List.mem_filter.1 hmem
    rw [← of_decide_eq_true hx]
    exact r.denseOf_own hmem
  intro a _ b _ ha hb
  exact (howner a ha).symm.trans (howner b hb)

theorem orderFree_of_settled {kbIds : List Text} (h : r.Settled kbIds) : r.OrderFree kbIds := by
  intro kbIds' hp
  unfold Settled at h
  cases hhybrid : r.hybrid with
  | true =>
    rw [if_pos hhybrid] at h
    have hfused : r.fused kbIds' = r.fused kbIds := by
      rw [r.fused_hybrid hhybrid, r.fused_hybrid hhybrid, flatMap_perm_of_sole _ h.1 hp, flatMap_perm_of_sole _ h.2 hp]
    have hcand := r.candidates_eq_of_fused hp hfused
    exact ⟨fun x => by rw [hfused], fun _ => ⟨hcand, r.retrieve_eq hp hcand⟩⟩
  | false =>
    rw [hhybrid, if_neg Bool.false_ne_true] at h
    rw [r.fused_dense hhybrid, r.fused_dense hhybrid]
    refine ⟨r.scoresOf_dense hp, fun hu => ?_⟩
    suffices hcand : r.candidates kbIds' = r.candidates kbIds from ⟨hcand, r.retrieve_eq hp hcand⟩
    rcases h with hsole | htie | ⟨hsort, hall⟩
    · refine r.candidates_eq_of_fused hp ?_
      rw [r.fused_dense hhybrid, r.fused_dense hhybrid, flatMap_perm_of_sole _ hsole hp]
    · exact absurd hu htie
    · have hflat : (kbIds'.flatMap r.denseOf).Perm (kbIds.flatMap r.denseOf) := hp.flatMap_right _
      rw [candidates_eq, candidates_eq, r.pass_perm hp, r.fused_dense hhybrid, r.fused_dense hhybrid,
        List.take_of_length_le hall, List.take_of_length_le (hflat.length_eq.trans_le hall)]
      exact rerank_eq_of_perm hsort hu hflat

/-! ## the order shows -/

section Shows

variable {part : Text → List SearchHit} (hown : ∀ kbId h, h ∈ part kbId → r.stores.owner h.id = kbId)

include hown

theorem not_mem_rest {c x : Text} (hx : r.stores.owner x = c) (kbIds : List Text) : x ∉ (rest part c kbIds).map (·.id) := by
  intro hmem
  obtain ⟨h, hrest, rfl⟩ := List.mem_map.1 hmem
  obtain ⟨a, _, hne, ha⟩ := (Gathering.mem_rest part).1 hrest
  exact hne ((hown a h ha).symm.trans hx)

theorem rankSum_moved_le (k : Nat) {c x : Text} (hx : r.stores.owner x = c) (kbIds : List Text) :
    Gathering.rankSum (weight k) x 1 (((back c kbIds).flatMap part).map (·.id)) ≤
      Gathering.rankSum (weight k) x 1 (((front c kbIds).flatMap part).map (·.id)) := by
  rw [flatMap_front, flatMap_back, List.map_append, List.map_append]
  exact Gathering.rankSum_back_le (fun m n => weight_lt k) _ (r.not_mem_rest hown hx kbIds)

theorem rankSum_moved_lt (k : Nat) {c : Text} {h : SearchHit} {kbIds : List Text} (hc : c ∈ kbIds) (hmem : h ∈ part c)
    (hrest : rest part c kbIds ≠ []) :
    Gathering.rankSum (weight k) h.id 1 (((back c kbIds).flatMap part).map (·.id)) <
      Gathering.rankSum (weight k) h.id 1 (((front c kbIds).flatMap part).map (·.id)) := by
  rw [flatMap_front, flatMap_back, List.map_append, List.map_append]
  refine Gathering.rankSum_back_lt (fun m n => weight_lt k) ?_ (r.not_mem_rest hown (hown c h hmem) kbIds) ?_
  · exact List.mem_map.2 ⟨h, (Gathering.mem_own part).2 ⟨hc, hmem⟩, rfl⟩
  · simpa using hrest

end Shows

theorem sole_of_orderFree_hybrid (hhybrid : r.hybrid = true) {kbIds : List Text} (h : r.OrderFree kbIds) :
    Sole r.denseOf kbIds ∧ Sole r.keywordOf kbIds := by
  have hdense : ∀ kbId h, h ∈ r.denseOf kbId → r.stores.owner h.id = kbId := fun _ _ => r.denseOf_own
  have hkeyword : ∀ kbId h, h ∈ r.keywordOf kbId → r.stores.owner h.id = kbId := fun _ _ => r.keywordOf_own
  have hsame : ∀ c x, scoreOf (r.fused (back c kbIds)) x = scoreOf (r.fused (front c kbIds)) x := fun c x =>
    congrArg List.sum (((h _ (back_perm c kbIds)).1 x).trans ((h _ (front_perm c kbIds)).1 x).symm)
  simp only [r.fused_hybrid hhybrid, scoreOf_rrfFuse] at hsame
  refine ⟨by_contra fun hno => ?_, by_contra fun hno => ?_⟩
  · obtain ⟨c, hc, hpart, hrest⟩ := Gathering.exists_of_not_sole _ hno
    obtain ⟨hit, hmem⟩ := List.exists_mem_of_ne_nil _ hpart
    exact absurd (hsame c hit.id) (add_lt_add_of_lt_of_le (r.rankSum_moved_lt hdense _ hc hmem hrest)
      (r.rankSum_moved_le hkeyword _ (r.denseOf_own hmem) kbIds)).ne
  · obtain ⟨c, hc, hpart, hrest⟩ := Gathering.exists_of_not_sole _ hno
    obtain ⟨hit, hmem⟩ := List.exists_mem_of_ne_nil _ hpart
    exact absurd (hsame c hit.id) (add_lt_add_of_le_of_lt (r.rankSum_moved_le hdense _ (r.keywordOf_own hmem) kbIds)
      (r.rankSum_moved_lt hkeyword _ hc hmem hrest)).ne

theorem fusedLimit_pos : 0 < r.fusedLimit := by
  have := positiveInt_pos (some r.settings.ragMaxFusedCandidates) (show (0 : Int) < 60 by decide)
  exact Int.lt_toNat.2 this

/-- **Hits of two knowledge bases that do not tie keep their order only where a reranker sorts all of them.** -/
theorem sorted_of_orderFree (hhybrid : r.hybrid = false) {kbIds : List Text} (h : r.OrderFree kbIds)
    (hno : ¬ Sole r.denseOf kbIds) (hu : Untied (finalScore (r.pass kbIds)) (kbIds.flatMap r.denseOf)) :
    (r.pass kbIds).isNoop = false ∧ (kbIds.flatMap r.denseOf).length ≤ r.fusedLimit := by
  obtain ⟨c, hc, hpart, hrest⟩ := Gathering.exists_of_not_sole _ hno
  have hown := Gathering.own_ne_nil _ hc hpart
  have hl : ∀ x ∈ own r.denseOf c kbIds, decide (r.stores.owner x.id = c) = true := fun x hx =>
    decide_eq_true (r.denseOf_own ((Gathering.mem_own _).1 hx).2)
  have hm : ∀ x ∈ rest r.denseOf c kbIds, decide (r.stores.owner x.id = c) = false := fun x hx => by
    obtain ⟨a, _, hne, ha⟩ := (Gathering.mem_rest _).1 hx
    exact decide_eq_false (fun e => hne ((r.denseOf_own ha).symm.trans e))
  have hfree : ∀ kbIds', kbIds'.Perm kbIds → r.candidates kbIds' = r.candidates kbIds := fun kbIds' hp =>
    ((h kbIds' hp).2 (by rw [r.fused_dense hhybrid]; exact hu)).1
  have hsame : rerank (r.pass kbIds) ((own r.denseOf c kbIds ++ rest r.denseOf c kbIds).take r.fusedLimit) =
      rerank (r.pass kbIds) ((rest r.denseOf c kbIds ++ own r.denseOf c kbIds).take r.fusedLimit) := by
    have e := (hfree _ (front_perm c kbIds)).trans (hfree _ (back_perm c kbIds)).symm
    rwa [candidates_eq, candidates_eq, r.pass_perm (front_perm c kbIds), r.pass_perm (back_perm c kbIds),
      r.fused_dense hhybrid, r.fused_dense hhybrid, flatMap_front, flatMap_back] at e
  constructor
  · cases hpass : r.pass kbIds with
    | noop =>
      rw [hpass] at hsame
      exact absurd hsame (Gathering.head_take_ne hl hm hown hrest r.fusedLimit_pos)
    | failing => rfl
    | scoring relevance => rfl
  · by_contra hcut
    have hlength : (kbIds.flatMap r.denseOf).length = (own r.denseOf c kbIds).length + (rest r.denseOf c kbIds).length := by
      rw [← List.length_append, ← flatMap_front, ((front_perm c kbIds).flatMap_right _).length_eq]
    refine Gathering.count_take_ne hl hm hown hrest r.fusedLimit_pos (by omega) ?_
    have e := congrArg (List.countP (fun h => decide (r.stores.owner h.id = c))) hsame
    rwa [countP_rerank _ (fun x => decide (r.stores.owner x = c)), countP_rerank _ (fun x => decide (r.stores.owner x = c))] at e

/-- **Retrieval does not depend on the order of the knowledge bases exactly when what the stores answer settles the order.** -/
theorem order_free_iff (kbIds : List Text) : r.OrderFree kbIds ↔ r.Settled kbIds := by
  refine ⟨fun h => ?_, r.orderFree_of_settled⟩
  unfold Settled
  cases hhybrid : r.hybrid with
  | true =>
    rw [if_pos rfl]
    exact r.sole_of_orderFree_hybrid hhybrid h
  | false =>
    rw [if_neg Bool.false_ne_true]
    by_cases hsole : Sole r.denseOf kbIds
    · exact .inl hsole
    by_cases hu : Untied (finalScore (r.pass kbIds)) (kbIds.flatMap r.denseOf)
    · exact .inr (.inr (r.sorted_of_orderFree hhybrid h hsole hu))
    · exact .inr (.inl hu)

end Request

/-! ## two knowledge bases with one vector hit each -/

def handbook : KnowledgeBase := { id := ['a'], name := ['a'] }
def manual : KnowledgeBase := { id := ['b'], name := ['b'] }
def handbookHit : SearchHit := { id := ['a', '1'], score := 9 / 10, payload := { text := "alpha".toList } }
def manualHit : SearchHit := { id := ['b', '1'], score := 8 / 10, payload := { text := "beta".toList } }

def twoBases : Stores where
  get := fun id => if id = ['a'] then some handbook else if id = ['b'] then some manual else none
  keyword := fun _ _ => some []
  dense := fun kb _ => some (if kb = handbook then [handbookHit] else if kb = manual then [manualHit] else [])
  owner := fun x => x.take 1
  get_id := by
    intro id kb h
    split at h
    · rename_i hid
      cases h
      exact hid.symm
    · split at h
      · rename_i hid
        cases h
        exact hid.symm
      · cases h
  keyword_own := by
    intro kb n hits h hit hmem
    cases h
    cases hmem
  dense_own := by
    intro kb n hits h hit hmem
    cases h
    split at hmem
    · rename_i hkb
      rw [List.mem_singleton.1 hmem, hkb]
      rfl
    · split at hmem
      · rename_i hkb
        rw [List.mem_singleton.1 hmem, hkb]
        rfl
      · cases hmem

def askBoth (ragHybrid : Bool) : Request where
  settings := { ragHybrid := ragHybrid }
  lettering := { lower := id, isWord := Char.isAlpha }
  count := List.length
  reranker := .noop
  stores := twoBases

/-- **Swapped, two knowledge bases swap the ranks of their best hits, and by vectors alone the hits themselves.** -/
theorem bases_swapped : ¬ (askBoth true).OrderFree [['a'], ['b']] ∧ ¬ (askBoth false).OrderFree [['a'], ['b']] := by
  have hp : ([['b'], ['a']] : List Text).Perm [['a'], ['b']] := List.Perm.swap _ _ _
  constructor
  · intro h
    exact absurd ((h _ hp).1 ['a', '1']) (by decide +kernel)
  · intro h
    have hu : Untied (finalScore ((askBoth false).pass [['a'], ['b']])) ((askBoth false).fused [['a'], ['b']]) := by
      unfold Untied
      decide +kernel
    exact absurd ((h _ hp).2 hu).2 (by decide +kernel)

end Retrieval
end MyGpt
