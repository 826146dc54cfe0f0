import MyGpt.DateHits
/-!
# QueryPlan — what is understood of a question

`build_query_plan` of `rag/query_plan.py`.  A filter is applied only where the index can take it and rejected with its
reason otherwise (`filters_allowed`, `rejected_unindexed`).  Only the dates can keep a question from being planned, and they
do so exactly when a match of theirs cannot be read (`buildQueryPlan_iff`).  Which characters are of a word is a parameter,
and so are the fresh ids.
-/
namespace MyGpt
namespace Query

open Chat (Text isSpace strip)
open Regex (Pattern findIter)
open Calendar (Date)

/-! ## filters -/

inductive Field
  | documentId
  | knowledgeBaseId
  | updatedAt
  | createdAt
  | language
  | contentType
  | classification
  | validFrom
  | validTo
  deriving DecidableEq

inductive Op
  | eq
  | in_
  | gt
  | gte
  | lt
  | lte
  | between
  deriving DecidableEq

structure FieldSpec where
  ops : List Op
  indexed : Bool

def allCmp : List Op := [.gt, .gte, .lt, .lte, .between]

def eqIn : List Op := [.eq, .in_]

def filterSchema : Field → FieldSpec
  | .documentId | .knowledgeBaseId => ⟨eqIn, true⟩
  | .updatedAt | .createdAt => ⟨allCmp, false⟩
  | .language | .contentType | .classification => ⟨eqIn, false⟩
  | .validFrom => ⟨[.lte], false⟩
  | .validTo => ⟨[.gte], false⟩

inductive FilterValue
  | range (start stop : Text)
  | ids (ids : List Text)

structure QueryFilter where
  field : Field
  op : Op
  value : FilterValue

inductive Reason
  | fieldNotInSchema
  | fieldNotIndexed
  | opNotAllowed
  | unparseableValue
  | noGroundedValue
  deriving DecidableEq

structure RejectedFilter where
  field : Field
  op : Op
  value : FilterValue
  rawText : Text
  reason : Reason

inductive EntityType
  | errorCode
  | productModel
  | system
  | dateRange
  | quotedPhrase
  | number
  deriving DecidableEq

structure Entity where
  type : EntityType
  value : Text
  span : Nat × Nat

inductive Intent
  | lookup
  | explain
  | compare
  | causeAnalysis
  | noAnswerCandidate
  deriving DecidableEq

inductive Language
  | zhCN
  | en
  | mixed
  | unknown
  deriving DecidableEq

structure QueryPlan where
  requestId : Text
  traceId : Text
  originalQuery : Text
  normalizedQuery : Text
  queryVariants : List Text
  intent : Intent
  entities : List Entity
  filters : List QueryFilter
  rejectedFilters : List RejectedFilter
  language : Language
  requiresExactMatch : Bool
  planVersion : String

def DateRange.asFilter (range : DateRange) : FilterValue := .range (isoformat range.start) (isoformat range.stop)

def dateEntity (h : Hit) : Entity := ⟨.dateRange, canonicalRange h.range, (h.start, h.stop)⟩

def dateFilter (raw : Text) (h : Hit) (field : Field) : List QueryFilter × List RejectedFilter :=
  let spec := filterSchema field
  if ¬ spec.indexed then
    ([], [⟨field, .between, h.range.asFilter, (raw.drop h.start).take (h.stop - h.start), .fieldNotIndexed⟩])
  else if .between ∈ spec.ops then ([⟨field, .between, h.range.asFilter⟩], [])
  else ([], [])

def dateFields : List Field := [.updatedAt]

def dateFilters (raw : Text) (hits : List Hit) : List QueryFilter × List RejectedFilter :=
  let made := hits.flatMap (fun h => dateFields.map (dateFilter raw h))
  (made.flatMap (·.1), made.flatMap (·.2))

def documentFilters (documentIds : List Text) : List QueryFilter × List RejectedFilter :=
  let spec := filterSchema .documentId
  if documentIds = [] then ([], [])
  else if spec.indexed = true ∧ .in_ ∈ spec.ops then ([⟨.documentId, .in_, .ids documentIds⟩], [])
  else ([], [⟨.documentId, .in_, .ids documentIds, "@文件引用".toList, .fieldNotIndexed⟩])

/-! ## codes and models -/

def isAsciiLetter (c : Char) : Bool := ('a' ≤ c && c ≤ 'z') || ('A' ≤ c && c ≤ 'Z')

def words (alternatives : List String) : Pattern Char :=
  match alternatives.map String.toList with
  | (c :: cs) :: ws => anyOf (word c cs) (ws.filterMap (fun w => w.head?.map (fun d => word d w.tail)))
  | _ => .char (fun _ => false)

/-- `\b` at either end of what begins and ends with a letter or a digit. -/
def bounded (isWord : Char → Bool) (p : Pattern Char) : Pattern Char := .seq (.notBehind isWord) (.seq p (.notAhead isWord))

def oneOrMore (p : Char → Bool) : Pattern Char := .seq (.char p) (.star (.char p))

/-- `_RE_CODED_TOKEN`. -/
def codedToken (isWord : Char → Bool) : Pattern Char :=
  bounded isWord <| .seq (.char isAsciiLetter) <| .seq (.upTo 5 (.char isAsciiLetter)) <|
    .seq (.upTo 1 (.char (fun c => c == '-' || c == '_'))) <| .seq digit <| .seq digit (.upTo 6 digit)

/-- A small letter under `IGNORECASE`; two of them have more than two forms. -/
def anyCase (c : Char) : Pattern Char :=
  .char (fun d => d == c || d == c.toUpper || (c == 's' && d == 'ſ') || (c == 'i' && (d == 'İ' || d == 'ı')))

def anyCaseWord (c : Char) : List Char → Pattern Char
  | [] => anyCase c
  | d :: cs => .seq (anyCase c) (anyCaseWord d cs)

def codeContext (isWord : Char → Bool) : Pattern Char :=
  anyOf (words ["错误码", "错误代码", "报错码", "错误编号", "故障码", "返回码", "状态码"])
    [.seq (anyCaseWord 'e' ['r', 'r', 'o', 'r']) (.seq blanks (anyCaseWord 'c' ['o', 'd', 'e'])),
      .seq (anyCaseWord 's' ['t', 'a', 't', 'u', 's']) (.seq blanks (anyCaseWord 'c' ['o', 'd', 'e'])),
      bounded isWord (anyCaseWord 'c' ['o', 'd', 'e'])]

def searches (p : Pattern Char) (text : Text) : Bool := !(findIter p text).isEmpty

def errorPrefixes : List Text :=
  ["E", "ERR", "ERROR", "HTTP", "CODE", "STATUS", "SQL", "ORA", "WARN", "FATAL"].map String.toList

def codedEntity (inCodeContext : Bool) (modelLexicon : List Text) (m : Nat × Text) : Entity :=
  let isCode := inCodeContext || errorPrefixes.contains ((m.2.takeWhile isAsciiLetter).map Char.toUpper)
  let type := if modelLexicon.contains m.2 then .productModel else if isCode then .errorCode else .productModel
  ⟨type, m.2, (m.1, m.1 + m.2.length)⟩

def codedEntities (isWord : Char → Bool) (modelLexicon : List Text) (raw normalized : Text) : List Entity :=
  (findIter (codedToken isWord) normalized).map (codedEntity (searches (codeContext isWord) raw) modelLexicon)

/-! ## quoted phrases -/

/-- `_RE_QUOTED`. -/
def quoted : Pattern Char :=
  let inner : Char → Bool := fun c => not (['「', '」', '『', '』', '"', '“', '”', '\''].contains c)
  .seq (.char (fun c => ['「', '『', '"', '“', '”', '\''].contains c)) <| .seq (.char inner) <| .seq (.upTo 59 (.char inner))
    (.char (fun c => ['」', '』', '"', '“', '”', '\''].contains c))

def quotedEntities (normalized : Text) : List Entity :=
  ((findIter quoted normalized).map (fun m =>
    (⟨.quotedPhrase, strip m.2.tail.dropLast, (m.1 + 1, m.1 + m.2.length - 1)⟩ : Entity))).filter (fun e => e.value ≠ [])

/-! ## intent and language -/

def intentRules (isWord : Char → Bool) : List (Pattern Char × Intent) :=
  [(anyOf (words ["对比", "比较", "区别", "差异", "不同", "相比"])
      [bounded isWord (words ["vs"]), bounded isWord (words ["versus"])], .compare),
    (anyOf (words ["为什么", "为何", "原因", "导致", "怎么会", "缘何"])
      [bounded isWord (words ["why"]), bounded isWord (words ["cause"]), bounded isWord (words ["reason"])],
      .causeAnalysis),
    (words ["你觉得", "你认为", "预测", "会不会", "将来", "未来", "建议我", "我应该"], .noAnswerCandidate),
    (anyOf (words ["是什么", "什么意思", "代表什么", "定义", "指的是", "含义", "表示什么", "怎么读"])
      [bounded isWord (.seq (anyCaseWord 'w' ['h', 'a', 't']) (.seq (oneOrMore isSpace) (anyCaseWord 'i' ['s']))),
        bounded isWord (anyCaseWord 'd' ['e', 'f', 'i', 'n', 'e']),
        bounded isWord (anyCaseWord 'm' ['e', 'a', 'n', 'i', 'n', 'g'])], .lookup)]

def detectIntent (isWord : Char → Bool) (text : Text) (entities : List Entity) : Intent :=
  match (intentRules isWord).find? (fun rule => searches rule.1 text) with
  | some rule => rule.2
  | none => if entities.any (fun e => e.type = .errorCode) then .lookup else .explain

/-- `_RE_CJK`. -/
def isCjk (c : Char) : Bool :=
  let n := c.toNat
  (0x3400 ≤ n && n ≤ 0x4dbf) || (0x4e00 ≤ n && n ≤ 0x9fff) || (0x3040 ≤ n && n ≤ 0x30ff) || (0xac00 ≤ n && n ≤ 0xd7af)

def detectLanguage (text : Text) : Language :=
  let cjk := text.countP isCjk
  let latin := text.countP isAsciiLetter
  if cjk = 0 ∧ latin = 0 then .unknown
  -- a fifth, also as the nearest double: no text is so long that another quotient rounds to it
  else if cjk ≠ 0 ∧ latin ≠ 0 ∧ max cjk latin ≤ 5 * min cjk latin then .mixed
  else if latin ≤ cjk then .zhCN
  else .en

/-! ## the plan -/

/-- `_RE_SPACE.sub(" ", text)`. -/
def foldBlanks (text : Text) : Text :=
  let isBlank : Char → Bool := fun c => c == ' ' || c == '\t' || c == '　'
  ((text.splitBy (fun c d => isBlank c && isBlank d)).map (fun run => if 2 ≤ run.length then [' '] else run)).flatten

/-- A character of `_RE_TRAILING_PUNCT`. -/
def isTrailing (c : Char) : Bool := isSpace c || ['?', '？', '。', '！', '!', '，', ',', '、', '；', ';', '：', ':'].contains c

def normalizeText (text : Text) : Text := ((strip (foldBlanks text)).reverse.dropWhile isTrailing).reverse

def planVersion : String := "query-plan-v1"

/-- `given or fresh`. -/
def orFresh (given : Option Text) (fresh : Text) : Text := if given.getD [] = [] then fresh else given.getD []

structure Asked where
  today : Option Date := none
  documentIds : List Text := []
  modelLexicon : List Text := []
  requestId : Option Text := none
  traceId : Option Text := none
  currentDate : Date
  freshRequestId : Text
  freshTraceId : Text

/-- `today or date.today()`. -/
def Asked.date (asked : Asked) : Date := asked.today.getD asked.currentDate

/-- `build_query_plan` behind the dates. -/
def planWith (isWord : Char → Bool) (asked : Asked) (raw : Text) (hits : List Hit) (normalized : Text) : QueryPlan :=
  let entities := hits.map dateEntity ++ codedEntities isWord asked.modelLexicon raw normalized ++ quotedEntities normalized
  { requestId := orFresh asked.requestId asked.freshRequestId
    traceId := orFresh asked.traceId asked.freshTraceId
    originalQuery := raw
    normalizedQuery := normalizeText normalized
    queryVariants := []
    intent := detectIntent isWord raw entities
    entities := entities
    filters := (dateFilters raw hits).1 ++ (documentFilters asked.documentIds).1
    rejectedFilters := (dateFilters raw hits).2 ++ (documentFilters asked.documentIds).2
    language := detectLanguage raw
    requiresExactMatch := entities.any (fun e => e.type = .errorCode || e.type = .productModel)
    planVersion := planVersion }

def buildQueryPlan (isWord : Char → Bool) (asked : Asked) (question : Text) : Option QueryPlan :=
  (resolveRelativeDates question asked.date).map (fun r => planWith isWord asked question r.1 r.2)

/-! ## filters are applied or rejected -/

section Plan

variable {isWord : Char → Bool} {asked : Asked} {question : Text} {plan : QueryPlan}

theorem buildQueryPlan_eq (h : buildQueryPlan isWord asked question = some plan) :
    ∃ hits out, resolveRelativeDates question asked.date = some (hits, out) ∧
      plan = planWith isWord asked question hits out := by
  obtain ⟨⟨hits, out⟩, hresolve, rfl⟩ := Option.map_eq_some_iff.1 h
  exact ⟨hits, out, hresolve, rfl⟩

/-- **What is applied** is on the list of the schema, and the index can take it. -/
theorem filters_allowed (h : buildQueryPlan isWord asked question = some plan) :
    ∀ f ∈ plan.filters, (filterSchema f.field).indexed = true ∧ f.op ∈ (filterSchema f.field).ops := by
  obtain ⟨hits, out, -, rfl⟩ := buildQueryPlan_eq h
  intro f hf
  rcases List.mem_append.1 hf with hf | hf
  · obtain ⟨made, hmade, hf⟩ := List.mem_flatMap.1 hf
    obtain ⟨hit, -, hmade⟩ := List.mem_flatMap.1 hmade
    obtain ⟨field, -, rfl⟩ := List.mem_map.1 hmade
    unfold dateFilter at hf
    dsimp only at hf
    split at hf
    · cases hf
    · rename_i hindexed
      split at hf
      · rename_i hop
        rw [List.mem_singleton.1 hf]
        exact ⟨Decidable.not_not.1 hindexed, hop⟩
      · cases hf
  · unfold documentFilters at hf
    dsimp only at hf
    split at hf
    · cases hf
    · split at hf
      · rename_i hspec
        rw [List.mem_singleton.1 hf]
        exact hspec
      · cases hf

/-- **What is rejected** is a field that the index cannot take, and that is the reason given. -/
theorem rejected_unindexed (h : buildQueryPlan isWord asked question = some plan) :
    ∀ f ∈ plan.rejectedFilters, (filterSchema f.field).indexed = false ∧ f.reason = .fieldNotIndexed := by
  obtain ⟨hits, out, -, rfl⟩ := buildQueryPlan_eq h
  intro f hf
  rcases List.mem_append.1 hf with hf | hf
  · obtain ⟨made, hmade, hf⟩ := List.mem_flatMap.1 hf
    obtain ⟨hit, -, hmade⟩ := List.mem_flatMap.1 hmade
    obtain ⟨field, -, rfl⟩ := List.mem_map.1 hmade
    unfold dateFilter at hf
    dsimp only at hf
    split at hf
    · rename_i hindexed
      rw [List.mem_singleton.1 hf]
      exact ⟨Bool.eq_false_iff.2 hindexed, rfl⟩
    · split at hf
      · cases hf
      · cases hf
  · unfold documentFilters at hf
    split at hf
    · cases hf
    · rename_i hsome
      rw [if_pos ⟨rfl, by decide⟩] at hf
      cases hf

end Plan

/-! ## every question -/

/-- **A question is planned and its dates are in order.** -/
def Planned (isWord : Char → Bool) (asked : Asked) (question : Text) : Prop :=
  (buildQueryPlan isWord asked question).isSome ∧
    ∃ hits out, resolveRelativeDates question asked.date = some (hits, out) ∧ WellFormed question hits

/-- **A question is planned, and its dates are in order,** exactly when every match of a date pattern can be read: a range of
two dates is not reversed, and all others are in the calendar. -/
theorem buildQueryPlan_iff (isWord : Char → Bool) (asked : Asked) (question : Text) :
    Planned isWord asked question ↔ Resolvable question asked.date := by
  rw [← resolveRelativeDates_iff]
  refine ⟨fun h => h.2, fun h => ⟨?_, h⟩⟩
  obtain ⟨hits, out, hresolve, -⟩ := h
  rw [buildQueryPlan, hresolve]
  rfl

/-- `9999-12-31` is a date of the calendar, but its month has no next one. -/
theorem last_day_unplanned : ¬ ∀ (isWord : Char → Bool) (asked : Asked) (question : Text), Planned isWord asked question := by
  intro h
  have hplanned := h (fun _ => false) { currentDate := ⟨2026, 10, 13, by decide⟩, freshRequestId := [], freshTraceId := [] }
    ['9', '9', '9', '9', '-', '1', '2', '-', '3', '1']
  obtain ⟨hits, out, hresolve, -⟩ := hplanned.2
  have hnone : resolveRelativeDates ['9', '9', '9', '9', '-', '1', '2', '-', '3', '1'] ⟨2026, 10, 13, by decide⟩ = none := by
    decide
  exact absurd (hresolve.symm.trans hnone) (by simp)

end Query
end MyGpt
