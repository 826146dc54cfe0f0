import MyGpt.RagFusion
import MyGpt.Lib.Joins
/-!
# KeywordScore — the lexical half of retrieval

`rag/keyword.py`.  The words of a query are cut out of the runs without CJK, the words of a chunk at whitespace; so a chunk
is scored as its words and grams deserve exactly when one of its grams is asked for, or a word that is asked for stands
between blanks just when some such word is there (`scoring_agrees_iff`).
-/
namespace MyGpt
namespace Retrieval
namespace Keyword

open Chat (Text isSpace)

/-! ## `str.lower` -/

/-- What Unicode says of the characters: the lower case of each, which ones `str.lower` looks past for a final sigma, and
the characters of `\\w`.  CJK has no case. -/
structure CaseTable where
  lowerChar : Char → Text
  isCased : Char → Bool
  isCaseIgnorable : Char → Bool
  isWord : Char → Bool
  lower_ne : ∀ c, lowerChar c ≠ []
  lower_cjk : ∀ c, isCjk c = true → lowerChar c = [c]
  lower_other : ∀ c, isCjk c = false → ∀ d ∈ lowerChar c, isCjk d = false

variable (u : CaseTable)

def isFinal (behind ahead : Text) : Bool :=
  (behind.dropWhile u.isCaseIgnorable).head?.any u.isCased && !(ahead.dropWhile u.isCaseIgnorable).head?.any u.isCased

def lowerAt (behind : Text) (c : Char) (ahead : Text) : Text :=
  if c = 'Σ' then [if isFinal u behind ahead then 'ς' else 'σ'] else u.lowerChar c

def lowerFrom : Text → Text → Text
  | _, [] => []
  | behind, c :: ahead => lowerAt u behind c ahead ++ lowerFrom (c :: behind) ahead

def lower (text : Text) : Text := lowerFrom u [] text

/-! ## terms -/

def latinTokens (text : Text) : List Text :=
  (((text.splitOnP isCjk).flatMap (runs u.isWord)).map (lower u)).filter (fun t => decide (1 < t.length))

def cjkGrams (text : Text) : List Text := (runs isCjk text).flatMap grams

/-! ## scoring -/

def split (text : Text) : List Text := runs (fun c => !isSpace c) text

/-- `text.count(t)`: the first number is how much of the text the last occurrence still covers. -/
def countFrom (t : Text) : Nat → Text → Nat
  | _, [] => 0
  | covered + 1, _ :: text => countFrom t covered text
  | 0, c :: text => if t.isPrefixOf (c :: text) then 1 + countFrom t (t.length - 1) text else countFrom t 0 text

def matchesOf (contentLower : Text) (latinTerms cjkTerms : List Text) : Nat :=
  (latinTerms.map (fun t => (split contentLower).count t)).sum + (cjkTerms.map (fun t => countFrom t 0 contentLower)).sum

def score (contentLower : Text) (latinTerms cjkTerms : List Text) : ℚ :=
  (matchesOf contentLower latinTerms cjkTerms : ℚ) /
    (((split contentLower).length + contentLower.countP isCjk + 1 : Nat) : ℚ)

/-- What `retrieve` gives the chunk of a row. -/
def chunkScore (query content : Text) : ℚ := score (lower u content) (latinTokens u query) (cjkGrams query)

structure Row where
  chunkId : Text
  documentId : Text
  documentName : Text
  chunkIndex : Int
  content : Text
  page : Option Int := none
  heading : Text := []
  charStart : Option Int := none
  charEnd : Option Int := none
  deriving DecidableEq

def hitOf (row : Row) (score : ℚ) : SearchHit where
  id := row.chunkId
  score := score
  payload := {
    documentId := row.documentId
    documentName := some row.documentName
    chunkId := some row.chunkId
    chunkIndex := some row.chunkIndex
    text := row.content
    page := row.page
    heading := row.heading
    charStart := row.charStart
    charEnd := row.charEnd
    retriever := some "keyword".toList }

/-- `retrieve`: `rows` is what the statement over these terms returns, nothing where it fails. -/
def retrieve (query : Text) (topK : Nat) (rows : List Text → Option (List Row)) : List SearchHit :=
  let terms := latinTokens u query ++ cjkGrams query
  if terms = [] then []
  else
    match rows terms with
    | none => []
    | some selected =>
      (bestFirst (·.score) ((selected.map (fun row => hitOf row (chunkScore u query row.content))).filter
        (fun h => decide (0 < h.score)))).take topK

/-! ## what lowering leaves -/

theorem lowerAt_ne (behind : Text) (c : Char) (ahead : Text) : lowerAt u behind c ahead ≠ [] := by
  unfold lowerAt
  split
  · exact List.cons_ne_nil _ _
  · exact u.lower_ne c

theorem lowerAt_cjk (behind ahead : Text) {c : Char} (h : isCjk c = true) : lowerAt u behind c ahead = [c] := by
  unfold lowerAt
  rw [if_neg (fun hc => absurd (hc ▸ h) (by decide)), u.lower_cjk c h]

theorem lowerAt_other (behind ahead : Text) {c : Char} (h : isCjk c = false) :
    ∀ d ∈ lowerAt u behind c ahead, isCjk d = false := by
  unfold lowerAt
  split
  · intro d hd
    rw [List.mem_singleton.1 hd]
    split <;> decide
  · exact u.lower_other c h

theorem prefix_lower_iff {t : Text} (ht : ∀ c ∈ t, isCjk c = true) (behind text : Text) :
    t <+: lowerFrom u behind text ↔ t <+: text := by
  induction text generalizing t behind with
  | nil => rfl
  | cons c text ih =>
    cases t with
    | nil => exact ⟨fun _ => List.nil_prefix, fun _ => List.nil_prefix⟩
    | cons d t =>
      have hd := ht d List.mem_cons_self
      have hrest : ∀ e ∈ t, isCjk e = true := fun e he => ht e (List.mem_cons_of_mem _ he)
      unfold lowerFrom
      cases hc : isCjk c with
      | true => rw [lowerAt_cjk u behind text hc, List.singleton_append, List.cons_prefix_cons, List.cons_prefix_cons, ih hrest]
      | false =>
        have hfirst : ∀ e, lowerAt u behind c text ≠ [] → e ∈ (lowerAt u behind c text).head? → isCjk e = false :=
          fun e _ he => lowerAt_other u behind text hc e (List.mem_of_mem_head? he)
        constructor
        · intro h
          cases hl : lowerAt u behind c text with
          | nil => exact absurd hl (lowerAt_ne u behind c text)
          | cons e l =>
            rw [hl, List.cons_append, List.cons_prefix_cons] at h
            have he := hfirst e (lowerAt_ne u behind c text) (by rw [hl]; rfl)
            rw [← h.1, hd] at he
            cases he
        · intro h
          rw [(List.cons_prefix_cons.1 h).1, hc] at hd
          cases hd

theorem infix_append_other {t l : Text} (hne : t ≠ []) (ht : ∀ c ∈ t, isCjk c = true) (hl : ∀ c ∈ l, isCjk c = false)
    (text : Text) : t <:+: l ++ text ↔ t <:+: text := by
  induction l with
  | nil => rfl
  | cons c l ih =>
    rw [List.cons_append, List.infix_cons_iff, ih (fun d hd => hl d (List.mem_cons_of_mem _ hd))]
    constructor
    · rintro (h | h)
      · cases t with
        | nil => exact absurd rfl hne
        | cons d t =>
          have hd := ht d List.mem_cons_self
          rw [(List.cons_prefix_cons.1 h).1, hl c List.mem_cons_self] at hd
          cases hd
      · exact h
    · exact .inr

theorem infix_lower_iff {t : Text} (hne : t ≠ []) (ht : ∀ c ∈ t, isCjk c = true) (text : Text) :
    t <:+: lower u text ↔ t <:+: text := by
  have hrun : ∀ (text behind : Text), t <:+: lowerFrom u behind text ↔ t <:+: text := by
    intro text
    induction text with
    | nil => exact fun _ => Iff.rfl
    | cons c text ih =>
      intro behind
      cases hc : isCjk c with
      | true =>
        have hcons : lowerFrom u behind (c :: text) = c :: lowerFrom u (c :: behind) text := by
          rw [lowerFrom, lowerAt_cjk u behind text hc, List.singleton_append]
        have hpre := prefix_lower_iff u ht behind (c :: text)
        rw [hcons] at hpre ⊢
        rw [List.infix_cons_iff, List.infix_cons_iff, hpre, ih]
      | false =>
        rw [lowerFrom, infix_append_other hne ht (lowerAt_other u behind text hc), ih]
        have hcons := infix_append_other (l := [c]) hne ht (by simpa using hc) text
        rw [List.singleton_append] at hcons
        exact hcons.symm
  exact hrun text []

/-! ## grams -/

theorem mem_runs {p : Char → Bool} {text run : Text} (h : run ∈ runs p text) :
    run ≠ [] ∧ run <:+: text ∧ ∀ c ∈ run, p c = true := by
  obtain ⟨hmem, hne⟩ := List.mem_filter.1 h
  obtain ⟨hin, hfree⟩ := Joins.mem_splitOnP hmem
  exact ⟨by simpa using hne, hin, fun c hc => by simpa using hfree c hc⟩

theorem mem_neighbours : ∀ {run gram : Text}, gram ∈ (run.zip run.tail).map (fun cc => [cc.1, cc.2]) →
    gram ≠ [] ∧ gram <:+: run
  | [], _, h => by cases h
  | [_], _, h => by cases h
  | c :: d :: run, gram, h => by
    rw [List.tail_cons, List.zip_cons_cons, List.map_cons] at h
    rcases List.mem_cons.1 h with rfl | h
    · exact ⟨List.cons_ne_nil _ _, (List.prefix_append [c, d] run).isInfix⟩
    · obtain ⟨hne, hin⟩ := @mem_neighbours (d :: run) _ h
      exact ⟨hne, hin.trans (List.suffix_cons c _).isInfix⟩

theorem mem_grams {run gram : Text} (h : gram ∈ grams run) : gram ≠ [] ∧ gram <:+: run := by
  unfold grams at h
  split at h
  · rw [List.mem_singleton.1 h]
    exact ⟨List.cons_ne_nil _ _, List.infix_rfl⟩
  · exact mem_neighbours h

theorem mem_cjkGrams {text gram : Text} (h : gram ∈ cjkGrams text) :
    gram ≠ [] ∧ gram <:+: text ∧ ∀ c ∈ gram, isCjk c = true := by
  obtain ⟨run, hrun, hgram⟩ := List.mem_flatMap.1 h
  obtain ⟨-, hin, hcjk⟩ := mem_runs hrun
  obtain ⟨hne, hsub⟩ := mem_grams hgram
  exact ⟨hne, hsub.trans hin, fun c hc => hcjk c (hsub.subset hc)⟩

/-! ## when a score is positive -/

theorem countFrom_pos {t : Text} (hne : t ≠ []) (text : Text) : 0 < countFrom t 0 text ↔ t <:+: text := by
  induction text with
  | nil =>
    rw [List.infix_nil]
    exact ⟨fun h => absurd h (Nat.lt_irrefl 0), fun h => absurd h hne⟩
  | cons c text ih =>
    rw [List.infix_cons_iff]
    unfold countFrom
    split
    · rename_i hpre
      exact ⟨fun _ => .inl (List.isPrefixOf_iff_prefix.1 hpre), fun _ => by omega⟩
    · rename_i hpre
      rw [ih]
      constructor
      · exact .inr
      · exact fun h => h.resolve_left (fun h => hpre (List.isPrefixOf_iff_prefix.2 h))

theorem sum_pos_iff {β : Type} (l : List β) (f : β → Nat) : 0 < (l.map f).sum ↔ ∃ x ∈ l, 0 < f x := by
  induction l with
  | nil => simp
  | cons x l ih =>
    rw [List.map_cons, List.sum_cons, List.exists_mem_cons_iff, ← ih]
    omega

def Standalone (query content : Text) : Prop := ∃ w ∈ latinTokens u query, w ∈ split (lower u content)

def SharesWord (query content : Text) : Prop := ∃ w ∈ latinTokens u query, w ∈ latinTokens u content

def SharesGram (query content : Text) : Prop := ∃ gram ∈ cjkGrams query, gram <:+: content

theorem chunkScore_pos (query content : Text) :
    0 < chunkScore u query content ↔ SharesGram query content ∨ Standalone u query content := by
  have hdenom : (0 : ℚ) < (((split (lower u content)).length + (lower u content).countP isCjk + 1 : Nat) : ℚ) := by
    exact_mod_cast Nat.succ_pos _
  unfold chunkScore score
  rw [div_pos_iff_of_pos_right hdenom, Nat.cast_pos]
  unfold matchesOf
  rw [Nat.add_pos_iff_pos_or_pos, sum_pos_iff, sum_pos_iff, or_comm]
  refine or_congr (exists_congr (fun gram => and_congr_right (fun hgram => ?_)))
    (exists_congr (fun w => and_congr_right (fun _ => List.count_pos_iff)))
  obtain ⟨hne, -, hcjk⟩ := mem_cjkGrams hgram
  rw [countFrom_pos hne, infix_lower_iff u hne hcjk]

/-- **The score agrees with the tokenisation of queries.** -/
def Agrees (query content : Text) : Prop :=
  0 < chunkScore u query content ↔ SharesGram query content ∨ SharesWord u query content

/-- **When the score of a chunk agrees with the tokenisation of queries**: a gram is there, or a word of the query stands
between blanks just when one is a word of the chunk.  A chunk that is the query itself has a score just when the query has
a gram or a word between blanks. -/
theorem scoring_agrees_iff (query content : Text) :
    (Agrees u query content ↔
      SharesGram query content ∨ (Standalone u query content ↔ SharesWord u query content)) ∧
    (latinTokens u query ++ cjkGrams query ≠ [] →
      (0 < chunkScore u query query ↔ cjkGrams query ≠ [] ∨ Standalone u query query)) := by
  unfold Agrees
  rw [chunkScore_pos]
  refine ⟨?_, fun _ => ?_⟩
  · by_cases hgram : SharesGram query content
    · simp [hgram]
    · simp [hgram]
  · rw [chunkScore_pos]
    refine or_congr ⟨?_, fun hne => ?_⟩ Iff.rfl
    · rintro ⟨gram, hgram, -⟩
      exact List.ne_nil_of_mem hgram
    · obtain ⟨gram, hgram⟩ := List.exists_mem_of_ne_nil _ hne
      exact ⟨gram, hgram, (mem_cjkGrams hgram).2.1⟩

/-! ## a chunk that is dropped -/

theorem toLower_cjk (c : Char) : isCjk c.toLower = isCjk c ∧ (isCjk c = true → c.toLower = c) := by
  by_cases h : 65 ≤ c.toNat ∧ c.toNat ≤ 90
  · have hall : ∀ n ∈ List.range 91, 65 ≤ n → isCjk (Char.ofNat n).toLower = isCjk (Char.ofNat n) ∧
        isCjk (Char.ofNat n) = false := by decide
    obtain ⟨hsame, hno⟩ := hall c.toNat (List.mem_range.2 (by omega)) h.1
    rw [Char.ofNat_toNat] at hsame hno
    exact ⟨hsame, fun hyes => absurd hyes (by rw [hno]; decide)⟩
  · have hkept : c.toLower = c := by
      unfold Char.toLower
      exact dif_neg h
    rw [hkept]
    exact ⟨rfl, fun _ => rfl⟩

def asciiCase : CaseTable where
  lowerChar c := [c.toLower]
  isCased := Char.isAlpha
  isCaseIgnorable c := c == '.' || c == ':' || c == '\''
  isWord c := c.isAlphanum || c == '_' || isCjk c
  lower_ne _ := List.cons_ne_nil _ _
  lower_cjk c h := by rw [(toLower_cjk c).2 h]
  lower_other c h := by
    intro d hd
    rw [List.mem_singleton.1 hd, (toLower_cjk c).1, h]

/-- The chunk is the query, and scores nothing. -/
theorem punctuated_query_dropped : ¬ Agrees asciiCase "revenue?".toList "revenue?".toList := by
  have hword : "revenue".toList ∈ latinTokens asciiCase "revenue?".toList := by decide +kernel
  have hsplit : split (lower asciiCase "revenue?".toList) = ["revenue?".toList] := by decide +kernel
  have hlatin : latinTokens asciiCase "revenue?".toList = ["revenue".toList] := by decide +kernel
  have hgrams : cjkGrams "revenue?".toList = [] := by decide +kernel
  intro h
  have hpos := h.2 (.inr ⟨_, hword, hword⟩)
  rw [chunkScore_pos] at hpos
  rcases hpos with ⟨gram, hgram, -⟩ | ⟨w, hw, hstand⟩
  · rw [hgrams] at hgram
    cases hgram
  · rw [hsplit, List.mem_singleton] at hstand
    rw [hlatin, List.mem_singleton] at hw
    rw [hw] at hstand
    exact absurd hstand (by decide +kernel)

end Keyword
end Retrieval
end MyGpt
