import MyGpt.ChatScope
/-!
# ScopeAgreement — when the worker retrieves from the scope of the inline path

The identifiers come back from the run's input as they were written (`parse_str`), so the two paths differ in one thing:
what the mentions are folded into.  The inline path folds them into the knowledge bases it has settled on, the durable
path into the request's list alone, and the worker settles on the others only where that list is empty.
`same_scope_iff` says exactly when that makes no difference.
-/
namespace MyGpt
namespace Scope

open Chat (Text)

/-! ## identifiers as texts -/

theorem mem_str {id : Uuid} {c : Char} (h : c ∈ id.str) : c ∈ hexDigits ∨ c = '-' := by
  unfold Uuid.str at h
  simp only [List.mem_append, List.mem_cons] at h
  rcases h with h | rfl | h | rfl | h | rfl | h | rfl | h
  · exact .inl (id.digits c (List.mem_of_mem_take h))
  · exact .inr rfl
  · exact .inl (id.digits c (List.mem_of_mem_drop (List.mem_of_mem_take h)))
  · exact .inr rfl
  · exact .inl (id.digits c (List.mem_of_mem_drop (List.mem_of_mem_take h)))
  · exact .inr rfl
  · exact .inl (id.digits c (List.mem_of_mem_drop (List.mem_of_mem_take h)))
  · exact .inr rfl
  · exact .inl (id.digits c (List.mem_of_mem_drop h))

theorem not_mem_str (id : Uuid) {c : Char} (hhex : c ∉ hexDigits) (hdash : c ≠ '-') : c ∉ id.str := by
  intro h
  rcases mem_str h with h | h
  · exact hhex h
  · exact hdash h

theorem erase_eq_self {c : Char} {old text : Text} (h : c ∉ text) : erase (c :: old) text = text := by
  refine Scan.sub_eq_self ?_
  rintro ⟨u, hu, hlen⟩
  dsimp only at hlen
  split at hlen
  · rename_i hpre
    have hstart : (c :: old) <+: u := List.isPrefixOf_iff_prefix.1 hpre
    exact h (hu.subset (hstart.subset List.mem_cons_self))
  · exact hlen rfl

theorem stripBraces_eq_self {text : Text} (h : ∀ c ∈ text, isBrace c = false) : stripBraces text = text := by
  have hdrop : ∀ t : Text, (∀ c ∈ t, isBrace c = false) → t.dropWhile isBrace = t := by
    intro t ht
    cases t with
    | nil => rfl
    | cons c t => rw [List.dropWhile_cons_of_neg (by rw [ht c List.mem_cons_self]; decide)]
  unfold stripBraces
  rw [hdrop text h, hdrop text.reverse (fun c hc => h c (List.mem_reverse.1 hc)), List.reverse_reverse]

theorem filter_digits {text : Text} (h : ∀ c ∈ text, c ∈ hexDigits) : text.filter (· != '-') = text := by
  refine List.filter_eq_self.2 (fun c hc => ?_)
  have hne : c ≠ '-' := by
    rintro rfl
    exact absurd (h '-' hc) (by decide)
  simpa using hne

theorem filter_str (id : Uuid) : id.str.filter (· != '-') = id.hex := by
  have htake : ∀ n, ∀ c ∈ id.hex.take n, c ∈ hexDigits := fun n c hc => id.digits c (List.mem_of_mem_take hc)
  have hmid : ∀ n m, ∀ c ∈ (id.hex.drop n).take m, c ∈ hexDigits :=
    fun n m c hc => id.digits c (List.mem_of_mem_drop (List.mem_of_mem_take hc))
  have hdrop : ∀ n, ∀ c ∈ id.hex.drop n, c ∈ hexDigits := fun n c hc => id.digits c (List.mem_of_mem_drop hc)
  have hdash : ∀ t : Text, ('-' :: t).filter (· != '-') = t.filter (· != '-') := fun t => rfl
  unfold Uuid.str
  simp only [List.filter_append, hdash, filter_digits (htake _), filter_digits (hmid _ _), filter_digits (hdrop _)]
  have hjoin : ∀ n m, (id.hex.drop n).take m ++ id.hex.drop (n + m) = id.hex.drop n := by
    intro n m
    rw [← List.drop_drop, List.take_append_drop]
  rw [hjoin 16 4, hjoin 12 4, hjoin 8 4, List.take_append_drop]

theorem map_toLower {text : Text} (h : ∀ c ∈ text, c ∈ hexDigits) : text.map Char.toLower = text := by
  have hone : ∀ c ∈ hexDigits, c.toLower = c := by decide
  calc text.map Char.toLower = text.map id := List.map_congr_left (fun c hc => hone c (h c hc))
    _ = text := List.map_id text

theorem parse_str (id : Uuid) : Uuid.parse id.str = some id := by
  have hurn : erase "urn:".toList id.str = id.str := erase_eq_self (c := 'u') (not_mem_str id (by decide) (by decide))
  have huuid : erase "uuid:".toList id.str = id.str := erase_eq_self (c := 'u') (not_mem_str id (by decide) (by decide))
  have hbrace : stripBraces id.str = id.str := by
    refine stripBraces_eq_self (fun c hc => ?_)
    rcases mem_str hc with h | rfl
    · have hno : ∀ c ∈ hexDigits, isBrace c = false := by decide
      exact hno c h
    · rfl
  have hhex : ((stripBraces (erase "uuid:".toList (erase "urn:".toList id.str))).filter (· != '-')).map Char.toLower =
      id.hex := by rw [hurn, huuid, hbrace, filter_str, map_toLower id.digits]
  unfold Uuid.parse
  dsimp only
  split
  · exact congrArg some ((Uuid.mk.injEq ..).mpr hhex)
  · rename_i hbad
    refine absurd ?_ hbad
    rw [hhex]
    exact ⟨id.digits, id.length_eq⟩

theorem filterMap_parse (ids : List Uuid) : (ids.map Uuid.str).filterMap Uuid.parse = ids := by
  rw [List.filterMap_map]
  have hsome : Uuid.parse ∘ Uuid.str = some := by
    funext id
    rw [Function.comp_apply, parse_str]
  rw [hsome, List.filterMap_some]

theorem given_str (id : Option Uuid) : given (id.map Uuid.str) = id.map Uuid.str := by
  cases id with
  | none => rfl
  | some id =>
    have hne : id.str ≠ [] := by
      unfold Uuid.str
      simp
    simp [given, hne]

theorem bind_parse (id : Option Uuid) : (id.map Uuid.str).bind Uuid.parse = id := by
  cases id with
  | none => rfl
  | some id => rw [Option.map_some, Option.bind_some, parse_str]

theorem mentionDocumentIds_wire (mentions : List ChatMention) :
    mentionDocumentIds (mentions.map (fun m => (m.kind.text, m.id.str))) = mentionIds .doc mentions := by
  have hkind : ∀ kind : MentionKind, (kind.text == MentionKind.doc.text) = (kind == .doc) := by
    intro kind
    cases kind <;> decide
  unfold mentionDocumentIds mentionIds
  rw [List.filter_map, List.filterMap_map]
  have hfilter : ((fun item : Text × Text => item.1 == MentionKind.doc.text) ∘ fun m : ChatMention => (m.kind.text, m.id.str)) =
      fun m => m.kind == .doc := funext (fun m => hkind m.kind)
  have hparse : ((fun item : Text × Text => Uuid.parse item.2) ∘ fun m : ChatMention => (m.kind.text, m.id.str)) =
      fun m => some m.id := by
    funext m
    rw [Function.comp_apply, parse_str]
  rw [hfilter, hparse, List.filterMap_eq_map']

/-! ## the mentions of a user who may use what they name -/

/-- **The user may use everything the request names**: the model, the knowledge bases, and those of the documents. -/
structure MayUse (rows : Rows) (user : User) (request : ChatRequest) (turn : TurnRows) : Prop where
  model : turn.foreignModel user = false
  listed : ∀ id ∈ request.knowledgeBaseIds.items, rows.allows user id = true
  single : ∀ id, request.knowledgeBaseId = some id → rows.allows user id = true
  mentioned : ∀ id ∈ mentionIds .kb request.mentions.items, rows.allows user id = true
  documents : ∀ id ∈ mentionIds .doc request.mentions.items,
    ∃ doc, rows.document id = some doc ∧ rows.allows user doc.knowledgeBaseId = true

def referenced (rows : Rows) (request : ChatRequest) : List Uuid :=
  (mentionIds .doc request.mentions.items).filterMap (fun id => (rows.document id).map (·.knowledgeBaseId)) ++
    mentionIds .kb request.mentions.items

def tooMany : AppException :=
  ⟨400, "too_many_knowledge_bases", "一次最多引用 " ++ toString maxKbPerRequest ++ " 个知识库"⟩

section
variable {rows : Rows} {user : User} {request : ChatRequest} {turn : TurnRows}

theorem addDocuments_ok : ∀ {docIds : List Uuid} (kbIds : List Uuid),
    (∀ id ∈ docIds, ∃ doc, rows.document id = some doc ∧ rows.allows user doc.knowledgeBaseId = true) →
    addDocuments rows user kbIds docIds =
      .ok (Distinct.adjoin kbIds (docIds.filterMap (fun id => (rows.document id).map (·.knowledgeBaseId))))
  | [], _, _ => rfl
  | docId :: docIds, kbIds, h => by
    obtain ⟨doc, hdoc, hallowed⟩ := h docId List.mem_cons_self
    have hrest := addDocuments_ok (Distinct.adjoin kbIds [doc.knowledgeBaseId])
      (fun id hid => h id (List.mem_cons_of_mem _ hid))
    rw [addDocuments, hdoc]
    dsimp only
    rw [if_pos hallowed, hrest, ← Distinct.adjoin_append, List.filterMap_cons_some (by rw [hdoc]; rfl)]
    rfl

theorem referenced_eq_nil (h : MayUse rows user request turn) :
    referenced rows request = [] ↔ mentionIds .kb request.mentions.items = [] ∧ mentionIds .doc request.mentions.items = [] := by
  unfold referenced
  rw [List.append_eq_nil_iff, and_comm]
  refine and_congr_right (fun _ => ⟨fun hnone => ?_, fun hnone => by rw [hnone]; rfl⟩)
  refine List.eq_nil_iff_forall_not_mem.2 (fun id hid => ?_)
  obtain ⟨doc, hdoc, -⟩ := h.documents id hid
  have hmem : doc.knowledgeBaseId ∈ (mentionIds .doc request.mentions.items).filterMap
      (fun id => (rows.document id).map (·.knowledgeBaseId)) := List.mem_filterMap.2 ⟨id, hid, by rw [hdoc]; rfl⟩
  rw [hnone] at hmem
  cases hmem

theorem referenced_allowed (h : MayUse rows user request turn) : ∀ id ∈ referenced rows request, rows.allows user id = true := by
  intro id hid
  rcases List.mem_append.1 hid with hid | hid
  · obtain ⟨docId, hdocId, hmap⟩ := List.mem_filterMap.1 hid
    obtain ⟨doc, hdoc, hallowed⟩ := h.documents docId hdocId
    rw [hdoc] at hmap
    cases hmap
    exact hallowed
  · exact h.mentioned id hid

theorem applyMentions_eq (h : MayUse rows user request turn) (kbIds : List Uuid) :
    applyMentions rows user request kbIds =
      let all := Distinct.adjoin kbIds (referenced rows request)
      if maxKbPerRequest < all.length then .error tooMany
      else .ok { kbIds := all, documentIds := mentionIds .doc request.mentions.items,
                 knowledgeBaseIds := if referenced rows request ≠ [] ∧ all ≠ request.knowledgeBaseIds.items then all
                   else request.knowledgeBaseIds.items,
                 attachmentIds := Distinct.adjoin request.attachmentIds (mentionIds .file request.mentions.items) } := by
  have hnone : (mentionIds .kb request.mentions.items ≠ [] ∨ mentionIds .doc request.mentions.items ≠ []) ↔
      referenced rows request ≠ [] := by
    rw [← not_and_or, ← referenced_eq_nil h]
  unfold applyMentions
  dsimp only
  rw [addDocuments_ok kbIds h.documents]
  dsimp only
  rw [← Distinct.adjoin_append, ← referenced]
  simp only [hnone]
  rfl

/-! ## the two scopes -/

theorem durableScope_eq (h : MayUse rows user request turn) : durableScope rows user request turn =
    let all := Distinct.adjoin request.knowledgeBaseIds.items (referenced rows request)
    if maxKbPerRequest < all.length then .error tooMany
    else
      let kbIds := if all = [] then (request.knowledgeBaseId.or turn.conversationKbId).toList else all
      .ok { kbIds := (Distinct.adjoin [] (kbIds.filter (rows.allows user))).take maxKbPerRequest,
            documentIds := orNone (mentionIds .doc request.mentions.items),
            kbExplicit := all ≠ [] || request.knowledgeBaseId.isSome } := by
  unfold durableScope runInput
  rw [if_neg (by rw [h.model]; decide), applyMentions_eq h]
  generalize hall : Distinct.adjoin request.knowledgeBaseIds.items (referenced rows request) = all
  by_cases hlong : maxKbPerRequest < all.length
  · rw [if_pos hlong, if_pos hlong]
    rfl
  rw [if_neg hlong, if_neg hlong]
  have hstored : (if referenced rows request ≠ [] ∧ all ≠ request.knowledgeBaseIds.items then all
      else request.knowledgeBaseIds.items) = all := by
    split
    · rfl
    · rename_i hsame
      by_cases hrefs : referenced rows request = []
      · rw [hrefs] at hall
        exact hall
      · by_contra hne
        exact hsame ⟨hrefs, fun heq => hne heq.symm⟩
  rw [hstored]
  show Except.ok (workerScope rows user _ turn) = _
  unfold workerScope
  dsimp only
  rw [filterMap_parse, given_str, bind_parse, mentionDocumentIds_wire, Option.isSome_map]
  congr 2
  · cases request.knowledgeBaseId with
    | none | some => by_cases hnil : all = [] <;> simp [hnil]
  · simp

theorem inlineScope_eq (h : MayUse rows user request turn) : inlineScope rows user request turn =
    let all := Distinct.adjoin (baseScope request turn).1 (referenced rows request)
    if maxKbPerRequest < all.length then .error tooMany
    else if all.all (rows.allows user) = false then .error ⟨404, "knowledge_base_not_found", "Knowledge base not found"⟩
    else .ok { kbIds := all, documentIds := orNone (mentionIds .doc request.mentions.items),
               kbExplicit := (baseScope request turn).2 || request.mentions.items ≠ [] } := by
  unfold inlineScope
  dsimp only
  rw [applyMentions_eq h]
  generalize Distinct.adjoin (baseScope request turn).1 (referenced rows request) = all
  by_cases hlong : maxKbPerRequest < all.length
  · rw [if_pos hlong, if_pos hlong]
  · rw [if_neg hlong, if_neg hlong]
    dsimp only
    rw [if_neg (by rw [h.model]; decide)]

end

/-! ## when they agree -/

/-- **Agreement**: the worker retrieves with the scope of the inline path, or both refuse the request alike. -/
def SameScope (rows : Rows) (user : User) (request : ChatRequest) (turn : TurnRows) : Prop :=
  durableScope rows user request turn = inlineScope rows user request turn

/-- **When they agree**: the request lists knowledge bases; or what it refers to is more than a request may; or it refers
to some, and the one it would inherit is none or the first of them; or it refers to none, and it names a single one, or
has no mentions at all and inherits none that the user may not use. -/
def ScopeMeets (rows : Rows) (user : User) (request : ChatRequest) (turn : TurnRows) : Prop :=
  let refs := Distinct.adjoin [] (referenced rows request)
  request.knowledgeBaseIds.items ≠ [] ∨ maxKbPerRequest < refs.length ∨
    (refs ≠ [] ∧ ∀ id, request.knowledgeBaseId.or turn.conversationKbId = some id → refs.head? = some id) ∨
    (refs = [] ∧ (request.knowledgeBaseId.isSome = true ∨
      (request.mentions.items = [] ∧ ∀ id, turn.conversationKbId = some id → rows.allows user id = true)))

section
variable {rows : Rows} {user : User} {request : ChatRequest} {turn : TurnRows}

theorem filtered_eq {ids : List Uuid} (hnodup : ids.Nodup) (hallowed : ∀ id ∈ ids, rows.allows user id = true)
    (hlen : ids.length ≤ maxKbPerRequest) :
    (Distinct.adjoin [] (ids.filter (rows.allows user))).take maxKbPerRequest = ids := by
  rw [List.filter_eq_self.2 hallowed, Distinct.adjoin_of_nodup hnodup, List.take_of_length_le hlen]

theorem all_allowed {ids : List Uuid} (hallowed : ∀ id ∈ ids, rows.allows user id = true) :
    ¬ ids.all (rows.allows user) = false := by
  rw [Bool.not_eq_false, List.all_eq_true]
  exact hallowed

theorem same_of_listed (h : MayUse rows user request turn) (hlisted : request.knowledgeBaseIds.items ≠ []) :
    SameScope rows user request turn := by
  have hbase : baseScope request turn = (request.knowledgeBaseIds.items, true) := if_pos hlisted
  unfold SameScope
  rw [durableScope_eq h, inlineScope_eq h, hbase]
  dsimp only
  generalize hall : Distinct.adjoin request.knowledgeBaseIds.items (referenced rows request) = all
  by_cases hlong : maxKbPerRequest < all.length
  · rw [if_pos hlong, if_pos hlong]
  have hallowed : ∀ id ∈ all, rows.allows user id = true := by
    intro id hid
    rw [← hall, Distinct.mem_adjoin] at hid
    rcases hid with hid | hid
    · exact h.listed id hid
    · exact referenced_allowed h id hid
  have hnil : all ≠ [] := by
    rintro rfl
    have hpre := Distinct.prefix_adjoin request.knowledgeBaseIds.items (referenced rows request)
    rw [hall] at hpre
    exact hlisted (List.prefix_nil.1 hpre)
  have hnodup : all.Nodup := hall ▸ Distinct.nodup_adjoin request.knowledgeBaseIds.nodup _
  rw [if_neg hlong, if_neg hlong, if_neg (all_allowed hallowed), if_neg hnil,
    filtered_eq hnodup hallowed (Nat.not_lt.1 hlong)]
  simp [hnil]

theorem baseScope_inherited (hnone : request.knowledgeBaseIds.items = []) : baseScope request turn =
    ((request.knowledgeBaseId.or turn.conversationKbId).toList, request.knowledgeBaseId.isSome) := by
  unfold baseScope
  rw [if_neg (not_not.2 hnone)]
  cases request.knowledgeBaseId with
  | some id => rfl
  | none => cases turn.conversationKbId <;> rfl

theorem same_of_referenced (h : MayUse rows user request turn) (hnone : request.knowledgeBaseIds.items = [])
    (hrefs : referenced rows request ≠ []) (hfew : (Distinct.adjoin [] (referenced rows request)).length ≤ maxKbPerRequest) :
    SameScope rows user request turn ↔ ∀ id, request.knowledgeBaseId.or turn.conversationKbId = some id →
      (Distinct.adjoin [] (referenced rows request)).head? = some id := by
  have hmentions : request.mentions.items ≠ [] := by
    intro hno
    refine hrefs ((referenced_eq_nil h).2 ?_)
    rw [hno]
    exact ⟨rfl, rfl⟩
  have hnil : Distinct.adjoin [] (referenced rows request) ≠ [] := fun heq => hrefs (Distinct.adjoin_eq_nil.1 heq)
  have hallowed : ∀ id ∈ Distinct.adjoin [] (referenced rows request), rows.allows user id = true := by
    intro id hid
    rw [Distinct.mem_adjoin] at hid
    exact referenced_allowed h id (hid.resolve_left List.not_mem_nil)
  have hnodup := Distinct.nodup_adjoin List.nodup_nil (referenced rows request)
  have hdurable : durableScope rows user request turn =
      .ok { kbIds := Distinct.adjoin [] (referenced rows request),
            documentIds := orNone (mentionIds .doc request.mentions.items), kbExplicit := true } := by
    rw [durableScope_eq h, hnone]
    dsimp only
    rw [if_neg (Nat.not_lt.2 hfew), if_neg hnil, filtered_eq hnodup hallowed hfew]
    simp [hnil]
  unfold SameScope
  rw [hdurable, inlineScope_eq h, baseScope_inherited hnone]
  dsimp only
  cases hinherited : request.knowledgeBaseId.or turn.conversationKbId with
  | none =>
    refine iff_of_true ?_ nofun
    rw [Option.toList_none, if_neg (Nat.not_lt.2 hfew), if_neg (all_allowed hallowed)]
    simp [hmentions]
  | some id =>
    have hiff := Distinct.adjoin_singleton_eq_iff (x := id) (l := referenced rows request)
    have hhead : (∀ id', some id = some id' → (Distinct.adjoin [] (referenced rows request)).head? = some id') ↔
        (Distinct.adjoin [] (referenced rows request)).head? = some id :=
      ⟨fun hall => hall id rfl, fun heq id' heq' => Option.some.inj heq' ▸ heq⟩
    rw [Option.toList_some, hhead, ← hiff]
    constructor
    · intro hsame
      split_ifs at hsame
      exact (congrArg RetrievalScope.kbIds (Except.ok.inj hsame)).symm
    · intro heq
      rw [heq, if_neg (Nat.not_lt.2 hfew), if_neg (all_allowed hallowed)]
      simp [hmentions]

theorem same_of_unreferenced (h : MayUse rows user request turn) (hnone : request.knowledgeBaseIds.items = [])
    (hrefs : referenced rows request = []) :
    SameScope rows user request turn ↔ (request.knowledgeBaseId.isSome = true ∨
      (request.mentions.items = [] ∧ ∀ id, turn.conversationKbId = some id → rows.allows user id = true)) := by
  unfold SameScope
  rw [durableScope_eq h, inlineScope_eq h, baseScope_inherited hnone, hnone, hrefs]
  dsimp only [Distinct.adjoin]
  rw [if_neg (by decide), if_pos rfl]
  cases hsingle : request.knowledgeBaseId with
  | some id =>
    refine iff_of_true ?_ (.inl rfl)
    have hallowed := h.single id hsingle
    simp [hallowed, Distinct.adjoin, maxKbPerRequest]
  | none =>
    cases hconv : turn.conversationKbId with
    | none =>
      by_cases hmentions : request.mentions.items = []
      · exact iff_of_true (by simp [hmentions, Distinct.adjoin]) (.inr ⟨hmentions, fun _ heq => by cases heq⟩)
      · refine iff_of_false (by simp [hmentions]) ?_
        rintro (hsome | ⟨hno, -⟩)
        · cases hsome
        · exact hmentions hno
    | some id =>
      by_cases hallowed : rows.allows user id = true
      · by_cases hmentions : request.mentions.items = []
        · refine iff_of_true (by simp [hmentions, hallowed, Distinct.adjoin, maxKbPerRequest]) (.inr ⟨hmentions, ?_⟩)
          rintro id' heq
          exact Option.some.inj heq ▸ hallowed
        · refine iff_of_false (by simp [hmentions, hallowed, Distinct.adjoin, maxKbPerRequest]) ?_
          rintro (hsome | ⟨hno, -⟩)
          · cases hsome
          · exact hmentions hno
      · refine iff_of_false (by simp [hallowed, maxKbPerRequest]) ?_
        rintro (hsome | ⟨-, hall⟩)
        · cases hsome
        · exact hallowed (hall id rfl)

end

/-- **Inline and durable turns retrieve from the same scope** exactly where the mentions are folded into the same
knowledge bases on both paths. -/
theorem same_scope_iff (rows : Rows) (user : User) (request : ChatRequest) (turn : TurnRows)
    (h : MayUse rows user request turn) : SameScope rows user request turn ↔ ScopeMeets rows user request turn := by
  unfold ScopeMeets
  by_cases hlisted : request.knowledgeBaseIds.items = []
  · rw [or_iff_right (not_not.2 hlisted)]
    by_cases hmany : maxKbPerRequest < (Distinct.adjoin [] (referenced rows request)).length
    · refine iff_of_true ?_ (.inl hmany)
      have hmore := Distinct.length_adjoin_le (baseScope request turn).1 (referenced rows request)
      unfold SameScope
      rw [durableScope_eq h, inlineScope_eq h, hlisted]
      rw [if_pos hmany, if_pos (by omega)]
    · rw [or_iff_right hmany]
      by_cases hrefs : referenced rows request = []
      · have hnil : Distinct.adjoin [] (referenced rows request) = [] := Distinct.adjoin_eq_nil.2 hrefs
        refine (same_of_unreferenced h hlisted hrefs).trans ?_
        rw [and_iff_right hnil]
        exact (or_iff_right (fun hboth => hboth.1 hnil)).symm
      · have hnil : Distinct.adjoin [] (referenced rows request) ≠ [] := fun heq => hrefs (Distinct.adjoin_eq_nil.1 heq)
        refine (same_of_referenced h hlisted hrefs (Nat.not_lt.1 hmany)).trans ?_
        rw [and_iff_right hnil]
        exact (or_iff_left (fun hboth => hnil hboth.1)).symm
  · exact iff_of_true (same_of_listed h hlisted) (.inl hlisted)

def firstKb : Uuid := ⟨List.replicate 32 'a', by decide, rfl⟩
def secondKb : Uuid := ⟨List.replicate 32 'b', by decide, rfl⟩

def sampleRows : Rows :=
  { knowledgeBase := fun id => if id = firstKb ∨ id = secondKb then some ⟨1⟩ else none,
    document := fun id => if id = secondKb then some ⟨secondKb⟩ else none }

def sampleUser : User := ⟨1, "user"⟩

def documentMention : ChatRequest :=
  { knowledgeBaseId := none, knowledgeBaseIds := ⟨[], List.nodup_nil, by decide⟩,
    mentions := ⟨[⟨.doc, secondKb⟩], List.pairwise_singleton _ _, by decide⟩, attachmentIds := [] }

theorem mayUse_documentMention (conversationKbId : Option Uuid) :
    MayUse sampleRows sampleUser documentMention ⟨conversationKbId, none⟩ where
  model := rfl
  listed := nofun
  single := nofun
  mentioned := nofun
  documents := by
    intro id hid
    obtain rfl : id = secondKb := by simpa [documentMention, mentionIds] using hid
    exact ⟨⟨secondKb⟩, by decide +kernel, by decide +kernel⟩

/-- The conversation is bound to the knowledge base of the document. -/
theorem same_scope_iff_bound : SameScope sampleRows sampleUser documentMention ⟨some secondKb, none⟩ :=
  (same_scope_iff sampleRows sampleUser documentMention ⟨some secondKb, none⟩ (mayUse_documentMention _)).2 (by
    refine .inr (.inr (.inl ⟨by decide +kernel, fun id hid => ?_⟩))
    cases hid
    decide +kernel)

/-- **The worker loses the inherited knowledge base** when the conversation is bound to another one. -/
theorem inherited_scope_lost :
    ¬ ∀ (rows : Rows) (user : User) (request : ChatRequest) (turn : TurnRows),
      MayUse rows user request turn → SameScope rows user request turn := by
  intro h
  have hsame := h sampleRows sampleUser documentMention ⟨some firstKb, none⟩ (mayUse_documentMention _)
  have hinline : inlineScope sampleRows sampleUser documentMention ⟨some firstKb, none⟩ =
      .ok ⟨[firstKb, secondKb], some [secondKb], true⟩ := by decide +kernel
  have hdurable : durableScope sampleRows sampleUser documentMention ⟨some firstKb, none⟩ =
      .ok ⟨[secondKb], some [secondKb], true⟩ := by decide +kernel
  have heq := hdurable.symm.trans (hsame.trans hinline)
  exact absurd heq (by decide +kernel)

end Scope
end MyGpt
