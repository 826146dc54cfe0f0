import MyGpt.PackedContext
import MyGpt.PromptBoundary
import MyGpt.RagService
/-!
# CitedHits — what a turn is given of the hits, and what is cited of them

The end of `_retrieve_impl`: the hits are filtered and packed, and the context blocks, the source index and the citations
are made of what is left.  The N-th of each is about the N-th hit, and the bounds of the filters all hold of the hits
(`cited_hits`); a request that asks for a number of hits of its own is not held to the numbers of its knowledge bases
(`caller_above_base`).
-/
namespace MyGpt
namespace Retrieval

open Chat (Text)
open Security (WordChars Nonce applyUntrustedBoundary)

/-! ## what is made of a hit -/

def unknownSource : Text := "未知来源".toList

/-- `payload.get("document_name") or payload.get("source") or "未知来源"` -/
def sourceName (payload : Payload) : Text :=
  if payload.documentName.getD [] ≠ [] then payload.documentName.getD []
  else if payload.source ≠ [] then payload.source
  else unknownSource

def contextId (index : Nat) : String := "ctx-" ++ toString index

structure SourceSpan where
  page : Option Int := none
  charStart : Option Int := none
  charEnd : Option Int := none
  heading : Text := []
  deriving DecidableEq

def sourceSpans (payload : Payload) : List SourceSpan :=
  let span : SourceSpan := ⟨payload.page, payload.charStart, payload.charEnd, payload.heading⟩
  if span = {} then [] else [span]

inductive SelectionReason
  | highRerankScore | fusedRank
  deriving DecidableEq

/-- `ContextItem`, with what the answer gate does not read. -/
structure ContextItem extends Rag.ContextItem where
  text : Text
  documentId : Option Text
  documentName : Text
  sourceSpans : List SourceSpan
  selectionReason : SelectionReason
  score : ℚ
  deriving DecidableEq

structure Citation where
  documentId : Option Text
  documentName : Text
  chunkId : Option Text
  chunkIndex : Int
  snippet : Text
  score : ℚ
  pageNumber : Option Int
  rerankScore : Option ℚ
  collection : Option Text
  kbId : Option Text
  kbName : Option Text
  heading : Text
  retriever : Option Text
  retrievers : List Text
  retrievalChannels : List (Text × Nat × ℚ)
  contextId : String
  sourceSpan : SourceSpan
  deriving DecidableEq

def truthyText (text : Text) : Option Text := if text = [] then none else some text

/-- `str(payload.get("chunk_id") or hit.id or "")` -/
def chunkKey (h : SearchHit) : Text := (h.payload.chunkId.bind truthyText).getD h.id

def hitToContextItem (shas : Text → Option String) (index : Nat) (h : SearchHit) : ContextItem where
  contextId := contextId index
  chunkId := String.ofList (chunkKey h)
  text := hitText h.payload
  documentId := truthyText h.payload.documentId
  documentName := sourceName h.payload
  sourceSpans := sourceSpans h.payload
  selectionReason := if h.rerankScore.isSome then .highRerankScore else .fusedRank
  score := effectiveScore h
  contentSha256 := shas (chunkKey h)

def hitToCitation (index : Nat) (h : SearchHit) : Citation where
  documentId := truthyText h.payload.documentId
  documentName := h.payload.documentName.getD unknownSource
  chunkId := h.payload.chunkId
  chunkIndex := h.payload.chunkIndex.getD (index - 1)
  snippet := (hitText h.payload).take 300
  score := h.score
  pageNumber := h.payload.page
  rerankScore := h.rerankScore
  collection := h.payload.collection
  kbId := h.payload.kbId
  kbName := h.payload.kbName
  heading := h.payload.heading
  retriever := h.payload.retriever
  retrievers := h.payload.retrievers
  retrievalChannels := h.payload.retrievalChannels
  contextId := contextId index
  sourceSpan := ⟨h.payload.page, h.payload.charStart, h.payload.charEnd, []⟩

section
variable (w : WordChars) (nonce : Nonce)

/-- The line of `[source N]`, up to the text. -/
def sourceLine (index : Nat) (payload : Payload) : Text :=
  "[source ".toList ++ (toString index).toList ++ "] ".toList ++ sourceName payload ++
    (if payload.heading = [] then [] else " · 章节：".toList ++ payload.heading) ++
    (match payload.page with
      | none => []
      | some page => if page = 0 then [] else " · 第 ".toList ++ (toString page).toList ++ " 页".toList)

/-- One block of `format_context_block`: only the text is in the fence. -/
def contextBlock (index : Nat) (h : SearchHit) : Text :=
  sourceLine index h.payload ++ '\n' :: applyUntrustedBoundary w nonce "rag".toList (hitText h.payload) none

def contextBlocks (hits : List SearchHit) : List Text := (hits.zipIdx 1).map (fun p => contextBlock w nonce p.2 p.1)

def formatContextBlock (hits : List SearchHit) : Text := "\n\n".toList.intercalate (contextBlocks w nonce hits)

/-- `RAG_SYSTEM_PREAMBLE`, up to the context. -/
def ragSystemPreamble : Text :=
  ("你是一个严谨、可靠的 AI 助手。请优先根据提供的知识库内容回答用户问题。\n\n" ++
    "要求：\n" ++
    "1. 如果知识库内容足以回答，请基于知识库内容回答；\n" ++
    "2. 如果知识库内容不足，请明确说明“根据当前知识库内容无法确定”；\n" ++
    "3. 不要编造知识库中不存在的信息；\n" ++
    "4. 回答时尽量引用来源标记（如 [source 1]）；\n" ++
    "5. 如果用户问题和知识库无关，可使用通用知识回答，但需说明这不是来自知识库。\n\n" ++
    "知识库内容：\n").toList

def buildRagContext (context : Text) : Text :=
  if context = [] then [] else ragSystemPreamble ++ context ++ ['\n']

end

/-! ## the outcome of a retrieval -/

/-- What `_retrieve_impl` returns, less the diagnosis of the candidates. -/
structure RetrievalOutcome where
  contextText : Text := []
  budgetTokens : Int := 0
  usedTokens : Nat := 0
  items : List ContextItem := []
  insufficientEvidence : Bool := false
  sourceIndex : List (Nat × ContextItem) := []
  citations : List Citation := []

structure Rendering where
  words : WordChars
  nonce : Nonce
  uuid : Text → Option Text
  contentSha256 : Text → Option String

def contentHashes (d : Rendering) (hits : List SearchHit) (key : Text) : Option String :=
  if hits.any (fun h => d.uuid h.id = some key) then (d.contentSha256 key).filter (· ≠ "") else none

namespace Request

variable (r : Request)

def kept (kbSettings : List (Text × KbRetrieval)) (hits : List SearchHit) : List SearchHit :=
  packContext r.count r.settings.ragContextTokens r.contextBudgetTokens (r.select kbSettings hits)

/-- The end of `_retrieve_impl`, from the candidates on. -/
def outcome (d : Rendering) (kbSettings : List (Text × KbRetrieval)) (hits : List SearchHit) : RetrievalOutcome :=
  let hits := r.kept kbSettings hits
  if hits = [] then { insufficientEvidence := true }
  else
    let items := (hits.zipIdx 1).map (fun p => hitToContextItem (contentHashes d hits) p.2 p.1)
    { contextText := buildRagContext (formatContextBlock d.words d.nonce hits)
      budgetTokens := (computeContextBudget none 0 0 0 0 (r.contextBudgetTokens.getD r.settings.ragContextTokens) 0
        contextBudgetRatio).budget
      usedTokens := usedTokens r.count hits
      items := items
      sourceIndex := (items.zipIdx 1).map (fun p => (p.2, p.1))
      citations := (hits.zipIdx 1).map (fun p => hitToCitation p.2 p.1) }

end Request

/-! ## what is to hold of it -/

def documentKey (h : SearchHit) : Text := if h.payload.documentId = [] then h.id else h.payload.documentId

structure RefersTo (d : Rendering) (o : RetrievalOutcome) (hits : List SearchHit) (n : Nat) (h : SearchHit) : Prop where
  cited : o.citations[n]? = some (hitToCitation (n + 1) h)
  block : (contextBlocks d.words d.nonce hits)[n]? = some (contextBlock d.words d.nonce (n + 1) h)
  indexed : o.sourceIndex.lookup (n + 1) = some (hitToContextItem (contentHashes d hits) (n + 1) h)

structure Aligned (d : Rendering) (o : RetrievalOutcome) (hits : List SearchHit) : Prop where
  text : o.contextText = buildRagContext ("\n\n".toList.intercalate (contextBlocks d.words d.nonce hits))
  citations : o.citations.length = hits.length
  blocks : (contextBlocks d.words d.nonce hits).length = hits.length
  numbers : o.sourceIndex.map (·.1) = List.range' 1 hits.length
  refers : ∀ n h, hits[n]? = some h → RefersTo d o hits n h

structure Bounded (r : Request) (kbSettings : List (Text × KbRetrieval)) (hits : List SearchHit) : Prop where
  perKb : r.callerTopK = 0 → ∀ key ks, settingsOf kbSettings key = some ks →
    hits.countP (fun h => h.payload.kbId.getD [] = key) ≤ ks.topK
  perDocument : ∀ d, hits.countP (fun h => documentKey h = d) ≤ positiveInt (some r.settings.ragMaxChunksPerDocument) 3
  threshold : ∀ h ∈ hits, thresholdOf kbSettings r.settings.ragMinScore h ≤ effectiveScore h
  finalK : hits.length ≤ r.finalK kbSettings

/-! ## the caps -/

def seenAlso (seen : Text → Nat) (key : Text) : Text → Nat := fun k => if k = key then seen k + 1 else seen k

@[simp] theorem seenAlso_self (seen : Text → Nat) (key : Text) : seenAlso seen key key = seen key + 1 := if_pos rfl

theorem seenAlso_ne (seen : Text → Nat) {key k : Text} (h : k ≠ key) : seenAlso seen key k = seen k := if_neg h

theorem capFrom_cons_some {kbSettings : List (Text × KbRetrieval)} {h : SearchHit} {ks : KbRetrieval}
    (hks : settingsOf kbSettings (h.payload.kbId.getD []) = some ks) (seen : Text → Nat) (hits : List SearchHit) :
    capFrom kbSettings seen (h :: hits) =
      if ks.topK < seen (h.payload.kbId.getD []) + 1 then capFrom kbSettings (seenAlso seen (h.payload.kbId.getD [])) hits
      else h :: capFrom kbSettings (seenAlso seen (h.payload.kbId.getD [])) hits := by
  rw [capFrom]
  simp only [hks, if_true]
  rfl

theorem capFrom_cons_none {kbSettings : List (Text × KbRetrieval)} {h : SearchHit}
    (hnone : settingsOf kbSettings (h.payload.kbId.getD []) = none) (seen : Text → Nat) (hits : List SearchHit) :
    capFrom kbSettings seen (h :: hits) = h :: capFrom kbSettings seen hits := by
  rw [capFrom]
  simp only [hnone]

theorem countP_capFrom {kbSettings : List (Text × KbRetrieval)} {key : Text} {ks : KbRetrieval}
    (hks : settingsOf kbSettings key = some ks) (seen : Text → Nat) (hits : List SearchHit) :
    (capFrom kbSettings seen hits).countP (fun h => h.payload.kbId.getD [] = key) ≤ ks.topK - seen key := by
  induction hits generalizing seen with
  | nil => exact Nat.zero_le _
  | cons h hits ih =>
    have hlater := ih (seenAlso seen (h.payload.kbId.getD []))
    by_cases hkey : h.payload.kbId.getD [] = key
    · rw [capFrom_cons_some (hkey ▸ hks), hkey]
      rw [hkey, seenAlso_self] at hlater
      split
      · omega
      · rw [List.countP_cons_of_pos (by simpa using hkey)]
        omega
    · rw [seenAlso_ne seen (Ne.symm hkey)] at hlater
      cases hset : settingsOf kbSettings (h.payload.kbId.getD []) with
      | none =>
        rw [capFrom_cons_none hset, List.countP_cons_of_neg (by simpa using hkey)]
        exact ih seen
      | some ks' =>
        rw [capFrom_cons_some hset]
        split
        · exact hlater
        · rw [List.countP_cons_of_neg (by simpa using hkey)]
          exact hlater

theorem capDocuments_cons (limit : Nat) (counts : Text → Nat) (h : SearchHit) (hits : List SearchHit) :
    capDocuments limit counts (h :: hits) =
      if limit ≤ counts (documentKey h) then capDocuments limit counts hits
      else h :: capDocuments limit (seenAlso counts (documentKey h)) hits := rfl

theorem countP_capDocuments (limit : Nat) (d : Text) (counts : Text → Nat) (hits : List SearchHit) :
    (capDocuments limit counts hits).countP (fun h => documentKey h = d) ≤ limit - counts d := by
  induction hits generalizing counts with
  | nil => exact Nat.zero_le _
  | cons h hits ih =>
    rw [capDocuments_cons]
    split
    · exact ih counts
    · rename_i hroom
      have hlater := ih (seenAlso counts (documentKey h))
      by_cases hd : documentKey h = d
      · subst hd
        rw [seenAlso_self] at hlater
        rw [List.countP_cons_of_pos (by simp)]
        omega
      · rw [seenAlso_ne counts (Ne.symm hd)] at hlater
        rw [List.countP_cons_of_neg (by simpa using hd)]
        exact hlater

theorem capDocuments_sublist (limit : Nat) (counts : Text → Nat) (hits : List SearchHit) :
    (capDocuments limit counts hits).Sublist hits := by
  induction hits generalizing counts with
  | nil => exact .slnil
  | cons h hits ih =>
    rw [capDocuments_cons]
    split
    · exact (ih counts).cons h
    · exact (ih _).cons_cons h

/-! ## packing keeps what is not text -/

section
variable {β : Type} {f : SearchHit → β} (hf : ∀ h text, f { h with payload := { h.payload with text := text } } = f h)

include hf in
/-- **A hit is cut in its text alone.**  What else is read of the hits packed is read of a front of those handed over. -/
theorem packHits_prefix (count : Text → Nat) (budget : Nat) (hits : List SearchHit) (used : Nat) :
    (packHits count budget used hits).map f <+: hits.map f := by
  induction hits generalizing used with
  | nil => exact List.prefix_refl _
  | cons h hits ih =>
    rw [packHits]
    split
    · exact (List.prefix_cons_inj (f h)).2 (ih _)
    · split
      · rw [List.map_singleton, hf, List.map_cons]
        exact ⟨hits.map f, rfl⟩
      · exact List.nil_prefix

include hf in
theorem fitContext_prefix (count : Text → Nat) (ragContextTokens : Int) (hits : List SearchHit) (maxTokens : Option Int) :
    (fitContext count ragContextTokens hits maxTokens).map f <+: hits.map f := by
  unfold fitContext
  dsimp only
  split
  · exact List.prefix_refl _
  · exact packHits_prefix hf _ _ hits 0

end

/-! ## the hits kept are within the bounds -/

theorem select_bounded (r : Request) (kbSettings : List (Text × KbRetrieval)) (hits : List SearchHit) :
    Bounded r kbSettings (r.select kbSettings hits) := by
  unfold Request.select
  dsimp only
  generalize (if r.settings.ragCompressDedup then compressContext r.lettering hits else hits) = compressed
  refine ⟨fun hcaller key ks hks => ?_, fun d => ?_, fun h hmem => ?_, ?_⟩
  · -- what comes after the cap only leaves hits out
    rw [if_pos hcaller]
    have hne : kbSettings ≠ [] := fun he => by rw [he] at hks; cases hks
    refine le_trans (List.Sublist.countP_le ?_) ((countP_capFrom hks (fun _ => 0) compressed).trans (Nat.sub_le _ _))
    unfold capPerKb
    rw [if_neg hne]
    exact List.filter_sublist.trans ((List.take_sublist _ _).trans (capDocuments_sublist _ _ _))
  · exact (List.Sublist.countP_le (List.filter_sublist.trans (List.take_sublist _ _))).trans
      ((countP_capDocuments _ d (fun _ => 0) _).trans (Nat.sub_le _ _))
  · exact of_decide_eq_true (List.mem_filter.1 hmem).2
  · exact (List.length_filter_le _ _).trans (List.length_take_le _ _)

def boundsOf (h : SearchHit) : Text × Text × ℚ := (h.payload.kbId.getD [], documentKey h, effectiveScore h)

theorem Bounded.mono {r : Request} {kbSettings : List (Text × KbRetrieval)} {hits hits' : List SearchHit}
    (h : Bounded r kbSettings hits) (hp : hits'.map boundsOf <+: hits.map boundsOf) : Bounded r kbSettings hits' := by
  have hcount : ∀ p : Text × Text × ℚ → Bool, hits'.countP (p ∘ boundsOf) ≤ hits.countP (p ∘ boundsOf) := fun p => by
    rw [← List.countP_map, ← List.countP_map]
    exact hp.sublist.countP_le
  refine ⟨fun hcaller key ks hks => ?_, fun d => ?_, fun x hx => ?_, ?_⟩
  · exact (hcount (fun b => b.1 = key)).trans (h.perKb hcaller key ks hks)
  · exact (hcount (fun b => b.2.1 = d)).trans (h.perDocument d)
  · obtain ⟨y, hy, hxy⟩ := List.mem_map.1 (hp.subset (List.mem_map_of_mem hx))
    have hread := h.threshold y hy
    obtain ⟨hkb, -, hscore⟩ := (Prod.mk.inj hxy).imp_right Prod.mk.inj
    unfold thresholdOf at hread ⊢
    rwa [hkb, hscore] at hread
  · have hlen := hp.length_le
    rw [List.length_map, List.length_map] at hlen
    exact hlen.trans h.finalK

theorem kept_bounded (r : Request) (kbSettings : List (Text × KbRetrieval)) (hits : List SearchHit) :
    Bounded r kbSettings (r.kept kbSettings hits) :=
  (select_bounded r kbSettings hits).mono ( fitContext_prefix (fun _ _ => rfl) _ _ _ _)

/-! ## the three lists -/

theorem lookup_numbered {β : Type} (f : SearchHit → Nat → β) (hits : List SearchHit) (n k : Nat) :
    ((((hits.zipIdx k).map (fun p => f p.1 p.2)).zipIdx k).map (fun p => (p.2, p.1))).lookup (n + k) =
      hits[n]?.map (fun h => f h (n + k)) := by
  induction hits generalizing n k with
  | nil => rfl
  | cons h hits ih =>
    cases n with
    | zero => simp [List.zipIdx_cons]
    | succ n =>
      have hne : (n + 1 + k == k) = false := by simp
      rw [List.zipIdx_cons, List.map_cons, List.zipIdx_cons, List.map_cons, List.lookup_cons, hne,
        List.getElem?_cons_succ]
      have hlater := ih n (k + 1)
      rw [show n + (k + 1) = n + 1 + k by omega] at hlater
      exact hlater

theorem map_zipIdx_get {β : Type} (f : SearchHit → Nat → β) (hits : List SearchHit) (n : Nat) :
    ((hits.zipIdx 1).map (fun p => f p.1 p.2))[n]? = hits[n]?.map (fun h => f h (n + 1)) := by
  rw [List.getElem?_map, List.getElem?_zipIdx]
  cases hits[n]? with
  | none => rfl
  | some h => simp [Nat.add_comm]

theorem outcome_aligned (r : Request) (d : Rendering) (kbSettings : List (Text × KbRetrieval)) (hits : List SearchHit) :
    Aligned d (r.outcome d kbSettings hits) (r.kept kbSettings hits) := by
  unfold Request.outcome
  dsimp only
  generalize r.kept kbSettings hits = kept
  split
  · rename_i hnil
    subst hnil
    exact ⟨rfl, rfl, rfl, rfl, fun n h hn => by cases hn⟩
  · refine ⟨rfl, by simp, by simp [contextBlocks], by simp [List.map_map, Function.comp_def], fun n h hn => ?_⟩
    refine ⟨?_, ?_, ?_⟩
    · refine (map_zipIdx_get (fun h i => hitToCitation i h) kept n).trans ?_
      rw [hn]
      rfl
    · refine (map_zipIdx_get (fun h i => contextBlock d.words d.nonce i h) kept n).trans ?_
      rw [hn]
      rfl
    · refine (lookup_numbered (fun h i => hitToContextItem (contentHashes d kept) i h) kept n 1).trans ?_
      rw [hn]
      rfl

/-- **What is shown, indexed and cited are the hits kept, in one order, and they are within every bound.** -/
theorem cited_hits (r : Request) (d : Rendering) (kbSettings : List (Text × KbRetrieval)) (hits : List SearchHit) :
    Aligned d (r.outcome d kbSettings hits) (r.kept kbSettings hits) ∧ Bounded r kbSettings (r.kept kbSettings hits) :=
  ⟨outcome_aligned r d kbSettings hits, kept_bounded r kbSettings hits⟩

/-! ## a request with a number of its own -/

def twoHits : List SearchHit :=
  [{ id := ['x'], score := 1, payload := { kbId := some ['a'], text := ['u'] } },
    { id := ['y'], score := 1, payload := { kbId := some ['a'], text := ['v'] } }]

def oneOf : List (Text × KbRetrieval) := [(['a'], ⟨1, 0, none⟩)]

/-- A request for `n` hits of stores that are empty, nothing being left out as a duplicate. -/
def askFor (n : Nat) : Request where
  settings := { ragCompressDedup := false }
  lettering := ⟨id, fun _ => true⟩
  count := fun _ => 0
  reranker := .noop
  stores :=
    { get := fun _ => none
      keyword := fun _ _ => none
      dense := fun _ _ => none
      owner := id
      get_id := fun _ _ h => by cases h
      keyword_own := fun _ _ _ h => by cases h
      dense_own := fun _ _ _ h => by cases h }
  callerTopK := n

/-- **Asked for two hits, a retrieval keeps two of a knowledge base whose own number is one.** -/
theorem caller_above_base : ¬ ∀ (r : Request) (kbSettings : List (Text × KbRetrieval)) (hits : List SearchHit) key ks,
    settingsOf kbSettings key = some ks →
      (r.kept kbSettings hits).countP (fun h => h.payload.kbId.getD [] = key) ≤ ks.topK := by
  intro h
  have hkept : (askFor 2).kept oneOf twoHits = twoHits := by decide +kernel
  have hbound := h (askFor 2) oneOf twoHits ['a'] ⟨1, 0, none⟩ rfl
  rw [hkept] at hbound
  exact absurd hbound (by decide)

end Retrieval
end MyGpt
