import MyGpt.Characters
import MyGpt.Lib.Joins
import Mathlib.Data.List.DropRight
import Mathlib.Data.List.Nodup
/-!
# PromptTemplates — editing a prompt template

The form of `prompt-apply.ts` and the fields of `schemas/prompt_template.py`.  An edit sends what changed, and is what the
server stores, exactly when the client cleans nothing off a field that was not touched and the server cleans nothing off
a field that was (`sendsChanges_iff`): tags are joined to one text and cut again, and the two sides do not trim alike.
-/
namespace MyGpt
namespace Prompts

open Chat (Text strip isSpace)

/-! ## data -/

structure PromptTemplate where
  title : Text
  content : Text
  category : Text
  tags : List Text
  description : Option Text
  deriving DecidableEq

/-- Every input is a text; `tags` is what the user typed. -/
structure PromptForm where
  title : Text
  content : Text
  category : Text
  description : Text
  tags : Text
  deriving DecidableEq

structure PromptTemplateInput where
  title : Text
  content : Text
  category : Text
  tags : List Text
  description : Option Text
  deriving DecidableEq

structure PromptTemplateUpdate where
  title : Option Text := none
  content : Option Text := none
  category : Option Text := none
  tags : Option (List Text) := none
  description : Option (Option Text) := none
  deriving DecidableEq

inductive Field
  | title | content | category | tags | description
  deriving DecidableEq

/-! ## the client -/

def defaultPromptCategory : Text := "通用".toList

/-- What `trim` cuts off and `\\s` matches. -/
def isJsSpace (c : Char) : Bool :=
  let n := c.toNat
  (9 ≤ n && n ≤ 13) || n == 32 || n == 0xa0 || n == 0x1680 || (0x2000 ≤ n && n ≤ 0x200a) || n == 0x2028 || n == 0x2029 ||
    n == 0x202f || n == 0x205f || n == 0x3000 || n == 0xfeff

def trim (text : Text) : Text := ((text.dropWhile isJsSpace).reverse.dropWhile isJsSpace).reverse

/-- `[,，、;；\s]` -/
def isTagSeparator (c : Char) : Bool := [',', '，', '、', ';', '；'].contains c || isJsSpace c

/-- `if (tag && !out.includes(tag)) out.push(tag)` -/
def addTag (out : List Text) (tag : Text) : List Text := if tag = [] || out.contains tag then out else out ++ [tag]

def parseTags (raw : Text) : List Text := ((raw.splitOnP isTagSeparator).map trim).foldl addTag []

def joinTags (tags : List Text) : Text := ['、'].intercalate tags

def orDefault (category : Text) : Text := if category = [] then defaultPromptCategory else category

def promptFormFromTemplate (prompt : PromptTemplate) : PromptForm where
  title := prompt.title
  content := prompt.content
  category := orDefault prompt.category
  description := prompt.description.getD []
  tags := joinTags prompt.tags

def promptCreateBody (form : PromptForm) : PromptTemplateInput where
  title := trim form.title
  content := form.content
  category := orDefault (trim form.category)
  tags := parseTags form.tags
  description := if trim form.description = [] then none else some (trim form.description)

def differs (next : PromptTemplateInput) (original : PromptTemplate) : Field → Bool
  | .title => decide (next.title ≠ original.title)
  | .content => decide (next.content ≠ original.content)
  | .category => decide (next.category ≠ original.category)
  | .description => decide (next.description ≠ original.description)
  | .tags => decide (next.tags ≠ original.tags)

def pick {β : Type} (changed : Bool) (value : β) : Option β := if changed then some value else none

/-- `null` where no field differs. -/
def promptPatchBody (form : PromptForm) (original : PromptTemplate) : Option PromptTemplateUpdate :=
  let next := promptCreateBody form
  let patch : PromptTemplateUpdate := {
    title := pick (differs next original .title) next.title
    content := pick (differs next original .content) next.content
    category := pick (differs next original .category) next.category
    tags := pick (differs next original .tags) next.tags
    description := pick (differs next original .description) next.description }
  if patch = {} then none else some patch

/-! ## the server -/

inductive FieldError
  | tooShort (field : Field) | tooLong (field : Field) | blank (field : Field) | tagTooLong
  deriving DecidableEq

def titleMax : Nat := 128
def contentMax : Nat := 20000
def descriptionMax : Nat := 500
def categoryMax : Nat := 32
def tagMaxCount : Nat := 10
def tagMaxLen : Nat := 32

/-- `Field(min_length=1, max_length=..)`, then `_reject_blank_and_trim`. -/
def cleanName (field : Field) (limit : Nat) (v : Text) : Except FieldError Text :=
  if v = [] then .error (.tooShort field)
  else if limit < v.length then .error (.tooLong field)
  else if strip v = [] then .error (.blank field)
  else .ok (strip v)

/-- `_content_must_not_be_blank`, which trims nothing. -/
def cleanContent (v : Text) : Except FieldError Text :=
  if v = [] then .error (.tooShort .content)
  else if contentMax < v.length then .error (.tooLong .content)
  else if strip v = [] then .error (.blank .content)
  else .ok v

def cleanTags (v : List Text) : Except FieldError (List Text) :=
  if tagMaxCount < v.length then .error (.tooLong .tags)
  else if v.any (fun tag => decide (tagMaxLen < (strip tag).length)) then .error .tagTooLong
  else .ok ((v.map strip).foldl addTag [])

def cleanDescription : Option Text → Except FieldError (Option Text)
  | none => .ok none
  | some v =>
    if descriptionMax < v.length then .error (.tooLong .description)
    else .ok (if strip v = [] then none else some (strip v))

/-- `POST /api/prompts` -/
def createPrompt (body : PromptTemplateInput) : Except FieldError PromptTemplate := do
  return {
    title := ← cleanName .title titleMax body.title
    content := ← cleanContent body.content
    category := ← cleanName .category categoryMax body.category
    tags := ← cleanTags body.tags
    description := ← cleanDescription body.description }

def sent {β γ : Type} (clean : β → Except FieldError γ) (old : γ) : Option β → Except FieldError γ
  | none => .ok old
  | some v => clean v

/-- `PATCH /api/prompts/{prompt_id}`, for a patch that names a field. -/
def updatePrompt (row : PromptTemplate) (patch : PromptTemplateUpdate) : Except FieldError PromptTemplate := do
  return {
    title := ← sent (cleanName .title titleMax) row.title patch.title
    content := ← sent cleanContent row.content patch.content
    category := ← sent (cleanName .category categoryMax) row.category patch.category
    tags := ← sent cleanTags row.tags patch.tags
    description := ← sent cleanDescription row.description patch.description }

def savePatch (row : PromptTemplate) : Option PromptTemplateUpdate → Except FieldError PromptTemplate
  | none => .ok row
  | some patch => updatePrompt row patch

/-- **A template as the schema cleans it.** -/
structure Cleaned (t : PromptTemplate) : Prop where
  title : strip t.title = t.title ∧ t.title ≠ []
  content : strip t.content ≠ []
  category : strip t.category = t.category ∧ t.category ≠ []
  description : ∀ d, t.description = some d → strip d = d ∧ d ≠ []
  tags : t.tags.Nodup ∧ ∀ tag ∈ t.tags, strip tag = tag ∧ tag ≠ []

/-! ## trimming -/

theorem trim_self {p : Char → Bool} {text : Text} (h : ∀ c ∈ text, p c = false) :
    ((text.dropWhile p).reverse.dropWhile p).reverse = text := by
  have hdrop : ∀ l : Text, (∀ c ∈ l, p c = false) → l.dropWhile p = l := by
    intro l hl
    rw [List.dropWhile_eq_self_iff]
    intro hlen
    simp [hl _ (List.getElem_mem hlen)]
  rw [hdrop text h, hdrop text.reverse (fun c hc => h c (List.mem_reverse.1 hc)), List.reverse_reverse]

theorem trim_idem (p : Char → Bool) (text : Text) :
    (((((text.dropWhile p).reverse.dropWhile p).reverse).dropWhile p).reverse.dropWhile p).reverse =
      ((text.dropWhile p).reverse.dropWhile p).reverse := by
  change List.rdropWhile p ((List.rdropWhile p (text.dropWhile p)).dropWhile p) = List.rdropWhile p (text.dropWhile p)
  have hhead : (List.rdropWhile p (text.dropWhile p)).dropWhile p = List.rdropWhile p (text.dropWhile p) := by
    rw [List.dropWhile_eq_self_iff]
    intro hlen
    have hpre := List.rdropWhile_prefix p (text.dropWhile p)
    have hfirst := List.dropWhile_eq_self_iff.1 (List.dropWhile_idempotent p text)
      (Nat.lt_of_lt_of_le hlen hpre.length_le)
    rwa [hpre.getElem hlen]
  rw [hhead, List.rdropWhile_idempotent]

theorem strip_strip (text : Text) : strip (strip text) = strip text := trim_idem isSpace text

theorem strip_sublist (text : Text) : ∀ c ∈ strip text, c ∈ text := by
  intro c hc
  have hin := List.mem_reverse.1 ((List.dropWhile_sublist _).subset (List.mem_reverse.1 hc))
  exact (List.dropWhile_sublist _).subset hin

/-! ## tags -/

def Distinct (tags : List Text) : Prop := tags.Nodup ∧ ∀ tag ∈ tags, tag ≠ []

theorem addTag_eq (out : List Text) (tag : Text) :
    addTag out tag = if tag = [] ∨ tag ∈ out then out else out ++ [tag] := by
  unfold addTag
  simp only [Bool.or_eq_true, decide_eq_true_eq, List.contains_iff_mem]

theorem foldl_addTag (tags : List Text) : ∀ out : List Text, Distinct out →
    Distinct (tags.foldl addTag out) ∧ ∀ tag, tag ∈ tags.foldl addTag out ↔ tag ∈ out ∨ (tag ∈ tags ∧ tag ≠ []) := by
  induction tags with
  | nil => exact fun out h => ⟨h, fun tag => by simp⟩
  | cons t tags ih =>
    intro out h
    rw [List.foldl_cons, addTag_eq]
    split
    · rename_i hskip
      obtain ⟨hdistinct, hmem⟩ := ih out h
      refine ⟨hdistinct, fun tag => ?_⟩
      rw [hmem, List.mem_cons]
      constructor
      · rintro (hout | ⟨htags, hne⟩)
        · exact .inl hout
        · exact .inr ⟨.inr htags, hne⟩
      · rintro (hout | ⟨rfl | htags, hne⟩)
        · exact .inl hout
        · exact .inl (hskip.resolve_left hne)
        · exact .inr ⟨htags, hne⟩
    · rename_i hnew
      rw [not_or] at hnew
      have hmore : Distinct (out ++ [t]) := by
        refine ⟨List.nodup_append.2 ⟨h.1, List.nodup_singleton t, fun a ha b hb heq => hnew.2 ?_⟩, fun tag htag => ?_⟩
        · rw [List.mem_singleton.1 hb] at heq
          exact heq ▸ ha
        · rcases List.mem_append.1 htag with htag | htag
          · exact h.2 tag htag
          · exact List.mem_singleton.1 htag ▸ hnew.1
      obtain ⟨hdistinct, hmem⟩ := ih _ hmore
      refine ⟨hdistinct, fun tag => ?_⟩
      rw [hmem, List.mem_append, List.mem_singleton, List.mem_cons]
      constructor
      · rintro ((hout | rfl) | ⟨htags, hne⟩)
        · exact .inl hout
        · exact .inr ⟨.inl rfl, hnew.1⟩
        · exact .inr ⟨.inr htags, hne⟩
      · rintro (hout | ⟨rfl | htags, hne⟩)
        · exact .inl (.inl hout)
        · exact .inl (.inr rfl)
        · exact .inr ⟨htags, hne⟩

theorem distinct_nil : Distinct [] := ⟨List.nodup_nil, nofun⟩

theorem foldl_addTag_self : ∀ (tags out : List Text), Distinct (out ++ tags) → tags.foldl addTag out = out ++ tags
  | [], out, _ => (List.append_nil out).symm
  | t :: tags, out, h => by
    have hnew : ¬ (t = [] ∨ t ∈ out) := by
      rintro (hnil | hmem)
      · exact h.2 t (by simp) hnil
      · exact (List.nodup_append.1 h.1).2.2 t hmem t List.mem_cons_self rfl
    rw [List.foldl_cons, addTag_eq, if_neg hnew, foldl_addTag_self tags (out ++ [t]) (by simpa using h)]
    simp

def Whole (tag : Text) : Prop := ∀ c ∈ tag, isTagSeparator c = false

theorem Whole.trim {tag : Text} (h : Whole tag) : Prompts.trim tag = tag := by
  refine trim_self (fun c hc => ?_)
  have hsep := h c hc
  rw [isTagSeparator, Bool.or_eq_false_iff] at hsep
  exact hsep.2

theorem parseTags_spec (raw : Text) : Distinct (parseTags raw) ∧ ∀ tag ∈ parseTags raw, Whole tag := by
  obtain ⟨hdistinct, hmem⟩ := foldl_addTag ((raw.splitOnP isTagSeparator).map Prompts.trim) [] distinct_nil
  refine ⟨hdistinct, fun tag htag => ?_⟩
  rcases (hmem tag).1 htag with hnil | ⟨hparts, -⟩
  · cases hnil
  · obtain ⟨part, hpart, rfl⟩ := List.mem_map.1 hparts
    have hwhole : Whole part := (Joins.mem_splitOnP hpart).2
    rw [hwhole.trim]
    exact hwhole

theorem splitOnP_join : ∀ (tags : List Text), tags ≠ [] → (∀ tag ∈ tags, Whole tag) →
    (joinTags tags).splitOnP isTagSeparator = tags
  | [], h, _ => absurd rfl h
  | [tag], _, h => by
    rw [joinTags, List.intercalate_singleton]
    exact List.splitOnP_eq_singleton (h tag List.mem_cons_self)
  | tag :: next :: tags, _, h => by
    have hrest := splitOnP_join (next :: tags) (List.cons_ne_nil _ _) (fun t ht => h t (List.mem_cons_of_mem _ ht))
    rw [joinTags, List.intercalate_cons_cons]
    rw [List.append_assoc, List.singleton_append,
      List.splitOnP_append_cons_of_forall_mem (h tag List.mem_cons_self) '、' (by decide)]
    rw [joinTags] at hrest
    rw [hrest]

theorem parseTags_join {tags : List Text} (hd : Distinct tags) :
    parseTags (joinTags tags) = tags ↔ ∀ tag ∈ tags, Whole tag := by
  constructor
  · intro h tag htag
    exact (parseTags_spec (joinTags tags)).2 tag (h.symm ▸ htag)
  · intro h
    by_cases hnil : tags = []
    · subst hnil
      rfl
    · have hmap : tags.map Prompts.trim = tags := by
        conv_rhs => rw [← List.map_id tags]
        exact List.map_congr_left (fun tag htag => (h tag htag).trim)
      unfold parseTags
      rw [splitOnP_join tags hnil h, hmap]
      exact foldl_addTag_self tags [] hd

theorem joinTags_inj {tags tags' : List Text} (hd : Distinct tags) (hw : ∀ tag ∈ tags, Whole tag) (hd' : Distinct tags')
    (hw' : ∀ tag ∈ tags', Whole tag) (h : joinTags tags = joinTags tags') : tags = tags' := by
  rw [← (parseTags_join hd).2 hw, h, (parseTags_join hd').2 hw']

/-! ## what an edit sends -/

def edited (form : PromptForm) (original : PromptTemplate) : Field → Prop
  | .title => form.title ≠ (promptFormFromTemplate original).title
  | .content => form.content ≠ (promptFormFromTemplate original).content
  | .category => form.category ≠ (promptFormFromTemplate original).category
  | .description => form.description ≠ (promptFormFromTemplate original).description
  | .tags => form.tags ≠ (promptFormFromTemplate original).tags

def names (patch : Option PromptTemplateUpdate) : Field → Bool
  | .title => (patch.bind (·.title)).isSome
  | .content => (patch.bind (·.content)).isSome
  | .category => (patch.bind (·.category)).isSome
  | .description => (patch.bind (·.description)).isSome
  | .tags => (patch.bind (·.tags)).isSome

def cleanedForm (form : PromptForm) : PromptForm :=
  let body := promptCreateBody form
  { title := body.title
    content := body.content
    category := body.category
    description := body.description.getD []
    tags := joinTags body.tags }

/-- **What saving an edit should do.** -/
structure SendsChanges (original : PromptTemplate) (form : PromptForm) : Prop where
  fields : ∀ f, names (promptPatchBody form original) f = true ↔
    edited form original f ∧ differs (promptCreateBody form) original f = true
  unedited : form = promptFormFromTemplate original → promptPatchBody form original = none
  reopened : ∀ saved, savePatch original (promptPatchBody form original) = .ok saved →
    promptFormFromTemplate saved = cleanedForm form

def Keeps (t : PromptTemplate) : Field → Prop
  | .title => trim t.title = t.title
  | .content => True
  | .category => trim t.category = t.category
  | .description => ∀ d, t.description = some d → trim d = d
  | .tags => ∀ tag ∈ t.tags, Whole tag

def Settled (next : PromptTemplateInput) : Field → Prop
  | .title => strip next.title = next.title
  | .content => True
  | .category => strip next.category = next.category
  | .description => ∀ d, next.description = some d → strip d = d
  | .tags => ∀ tag ∈ next.tags, strip tag = tag

section
variable {original saved : PromptTemplate} {form : PromptForm}

theorem pick_isSome {β : Type} (b : Bool) (v : β) : (pick b v).isSome = b := by
  cases b with
  | true => rfl
  | false => rfl

theorem pick_eq_none {β : Type} {b : Bool} {v : β} : pick b v = none ↔ b = false := by
  cases b <;> simp [pick]

theorem patch_none : promptPatchBody form original = none ↔ ∀ f, differs (promptCreateBody form) original f = false := by
  unfold promptPatchBody
  rw [ite_eq_left_iff]
  simp only [reduceCtorEq, imp_false, not_not, PromptTemplateUpdate.mk.injEq, pick_eq_none]
  constructor
  · rintro ⟨h1, h2, h3, h4, h5⟩ f
    cases f with
    | title => exact h1
    | content => exact h2
    | category => exact h3
    | tags => exact h4
    | description => exact h5
  · exact fun h => ⟨h .title, h .content, h .category, h .tags, h .description⟩

theorem names_patch (f : Field) :
    names (promptPatchBody form original) f = differs (promptCreateBody form) original f := by
  cases hpatch : promptPatchBody form original with
  | none =>
    rw [patch_none.1 hpatch f]
    cases f <;> rfl
  | some patch =>
    unfold promptPatchBody at hpatch
    dsimp only at hpatch
    split at hpatch
    · cases hpatch
    · rw [← Option.some.inj hpatch]
      cases f <;> exact pick_isSome _ _

theorem untouched_iff (hclean : Cleaned original) {f : Field} (h : ¬ edited form original f) :
    differs (promptCreateBody form) original f = false ↔ Keeps original f := by
  cases f with
  | title =>
    have hsame : form.title = original.title := not_not.1 h
    simp [differs, promptCreateBody, Keeps, hsame]
  | content =>
    have hsame : form.content = original.content := not_not.1 h
    simp [differs, promptCreateBody, Keeps, hsame]
  | category =>
    have hcat := hclean.category.2
    have hsame : form.category = original.category := by
      have heq : form.category = orDefault original.category := not_not.1 h
      rwa [orDefault, if_neg hcat] at heq
    have hdefault : trim defaultPromptCategory = defaultPromptCategory := by decide +kernel
    simp only [differs, promptCreateBody, Keeps, hsame, decide_eq_false_iff_not, not_not, orDefault]
    split
    · rename_i hnil
      constructor
      · intro heq
        rw [← heq, hdefault] at hnil
        exact absurd hnil (by decide +kernel)
      · exact fun heq => absurd (heq.symm.trans hnil) hcat
    · exact Iff.rfl
  | description =>
    have hsame : form.description = original.description.getD [] := not_not.1 h
    simp only [differs, promptCreateBody, Keeps, hsame, decide_eq_false_iff_not, not_not]
    cases hd : original.description with
    | none => simp [trim]
    | some d =>
      have hne := (hclean.description d hd).2
      rw [Option.getD_some]
      split
      · rename_i hnil
        constructor
        · exact nofun
        · intro hkeep
          have heq := hkeep d rfl
          rw [hnil] at heq
          exact absurd heq.symm hne
      · simp
  | tags =>
    have hsame : form.tags = joinTags original.tags := not_not.1 h
    have hd : Distinct original.tags := ⟨hclean.tags.1, fun tag htag => (hclean.tags.2 tag htag).2⟩
    simp only [differs, promptCreateBody, Keeps, hsame, decide_eq_false_iff_not, not_not]
    exact parseTags_join hd

theorem updatePrompt_ok {patch : PromptTemplateUpdate} : updatePrompt original patch = .ok saved ↔
    sent (cleanName .title titleMax) original.title patch.title = .ok saved.title ∧
      sent cleanContent original.content patch.content = .ok saved.content ∧
      sent (cleanName .category categoryMax) original.category patch.category = .ok saved.category ∧
      sent cleanTags original.tags patch.tags = .ok saved.tags ∧
      sent cleanDescription original.description patch.description = .ok saved.description := by
  unfold updatePrompt
  cases sent (cleanName .title titleMax) original.title patch.title with
  | error e => simp [bind, Except.bind]
  | ok title =>
    cases sent cleanContent original.content patch.content with
    | error e => simp [bind, Except.bind]
    | ok content =>
      cases sent (cleanName .category categoryMax) original.category patch.category with
      | error e => simp [bind, Except.bind]
      | ok category =>
        cases sent cleanTags original.tags patch.tags with
        | error e => simp [bind, Except.bind]
        | ok tags =>
          cases sent cleanDescription original.description patch.description with
          | error e => simp [bind, Except.bind]
          | ok description =>
            obtain ⟨t, c, g, ts, d⟩ := saved
            simp [bind, Except.bind, pure, Except.pure]

theorem savePatch_ok : savePatch original (promptPatchBody form original) = .ok saved ↔
    sent (cleanName .title titleMax) original.title
        (pick (differs (promptCreateBody form) original .title) (promptCreateBody form).title) = .ok saved.title ∧
      sent cleanContent original.content
        (pick (differs (promptCreateBody form) original .content) (promptCreateBody form).content) = .ok saved.content ∧
      sent (cleanName .category categoryMax) original.category
        (pick (differs (promptCreateBody form) original .category) (promptCreateBody form).category) =
          .ok saved.category ∧
      sent cleanTags original.tags
        (pick (differs (promptCreateBody form) original .tags) (promptCreateBody form).tags) = .ok saved.tags ∧
      sent cleanDescription original.description
        (pick (differs (promptCreateBody form) original .description) (promptCreateBody form).description) =
          .ok saved.description := by
  cases hpatch : promptPatchBody form original with
  | none =>
    have hnone := patch_none.1 hpatch
    simp only [hnone, pick, sent, savePatch, Bool.false_eq_true, if_false, Except.ok.injEq]
    obtain ⟨t, c, g, ts, d⟩ := saved
    obtain ⟨t', c', g', ts', d'⟩ := original
    simp
  | some patch =>
    unfold promptPatchBody at hpatch
    dsimp only at hpatch
    split at hpatch
    · cases hpatch
    · rw [← Option.some.inj hpatch]
      exact updatePrompt_ok

end

/-! ## what the server keeps -/

section
variable {original saved : PromptTemplate} {form : PromptForm}

theorem cleanName_ok {field : Field} {limit : Nat} {v w : Text} (h : cleanName field limit v = .ok w) :
    w = strip v ∧ strip v ≠ [] := by
  unfold cleanName at h
  split at h
  · cases h
  split at h
  · cases h
  split at h
  · cases h
  · rename_i hne
    exact ⟨(Except.ok.inj h).symm, hne⟩

theorem cleanContent_ok {v w : Text} (h : cleanContent v = .ok w) : w = v ∧ strip v ≠ [] := by
  unfold cleanContent at h
  split at h
  · cases h
  split at h
  · cases h
  split at h
  · cases h
  · rename_i hne
    exact ⟨(Except.ok.inj h).symm, hne⟩

theorem cleanTags_ok {v w : List Text} (h : cleanTags v = .ok w) : w = (v.map strip).foldl addTag [] := by
  unfold cleanTags at h
  split at h
  · cases h
  split at h
  · cases h
  · exact (Except.ok.inj h).symm

theorem cleanTags_spec {v w : List Text} (h : cleanTags v = .ok w) :
    Distinct w ∧ ∀ tag ∈ w, strip tag = tag ∧ ∃ old ∈ v, strip old = tag := by
  rw [cleanTags_ok h]
  obtain ⟨hdistinct, hmem⟩ := foldl_addTag (v.map strip) [] distinct_nil
  refine ⟨hdistinct, fun tag htag => ?_⟩
  rcases (hmem tag).1 htag with hnil | ⟨htags, -⟩
  · cases hnil
  · obtain ⟨old, hold, rfl⟩ := List.mem_map.1 htags
    exact ⟨strip_strip old, old, hold, rfl⟩

theorem cleanDescription_ok {v w : Option Text} (h : cleanDescription v = .ok w) :
    w = v.bind (fun d => if strip d = [] then none else some (strip d)) := by
  cases v with
  | none => exact (Except.ok.inj h).symm
  | some d =>
    change (if descriptionMax < d.length then Except.error (FieldError.tooLong .description)
      else Except.ok (if strip d = [] then none else some (strip d))) = Except.ok w at h
    split at h
    · cases h
    · exact (Except.ok.inj h).symm

theorem cleanDescription_spec {v w : Option Text} (h : cleanDescription v = .ok w) :
    ∀ d, w = some d → strip d = d ∧ d ≠ [] := by
  intro d heq
  rw [cleanDescription_ok h] at heq
  obtain ⟨old, -, hold⟩ := Option.bind_eq_some_iff.1 heq
  split at hold
  · cases hold
  · rename_i hne
    rw [← Option.some.inj hold]
    exact ⟨strip_strip old, hne⟩

theorem name_back {field : Field} {limit : Nat} {changed : Bool} {old next back : Text}
    (h : sent (cleanName field limit) old (pick changed next) = .ok back) (hsame : changed = false → next = old) :
    back = next ↔ (changed = true → strip next = next) := by
  cases changed with
  | false =>
    have hback : old = back := Except.ok.inj h
    rw [← hback, hsame rfl]
    simp
  | true =>
    obtain ⟨hback, -⟩ := cleanName_ok h
    rw [hback]
    simp

theorem differs_false {f : Field} : differs (promptCreateBody form) original f = false ↔
    match f with
    | .title => (promptCreateBody form).title = original.title
    | .content => (promptCreateBody form).content = original.content
    | .category => (promptCreateBody form).category = original.category
    | .description => (promptCreateBody form).description = original.description
    | .tags => (promptCreateBody form).tags = original.tags := by
  cases f <;> simp [differs]

theorem description_back {changed : Bool} {old back : Option Text}
    (h : sent cleanDescription old (pick changed (promptCreateBody form).description) = .ok back)
    (hsame : changed = false → (promptCreateBody form).description = old) :
    back.getD [] = (promptCreateBody form).description.getD [] ↔
      (changed = true → ∀ d, (promptCreateBody form).description = some d → strip d = d) := by
  cases changed with
  | false =>
    have hback : old = back := Except.ok.inj h
    rw [← hback, hsame rfl]
    simp
  | true =>
    rw [cleanDescription_ok h]
    cases (promptCreateBody form).description with
    | none => simp
    | some d =>
      simp only [Option.bind_some, Option.getD_some, Option.some.injEq, forall_eq', true_implies]
      split
      · rename_i hnil
        rw [hnil]
        rfl
      · rfl

theorem tags_back {changed : Bool} {old back : List Text}
    (h : sent cleanTags old (pick changed (promptCreateBody form).tags) = .ok back)
    (hsame : changed = false → (promptCreateBody form).tags = old) :
    joinTags back = joinTags (promptCreateBody form).tags ↔
      (changed = true → ∀ tag ∈ (promptCreateBody form).tags, strip tag = tag) := by
  obtain ⟨hdistinct, hwhole⟩ := parseTags_spec form.tags
  change Distinct (promptCreateBody form).tags at hdistinct
  cases changed with
  | false =>
    have hback : old = back := Except.ok.inj h
    rw [← hback, hsame rfl]
    simp
  | true =>
    obtain ⟨hbackDistinct, hback⟩ := cleanTags_spec h
    constructor
    · intro hjoin _ tag htag
      have hbackWhole : ∀ t ∈ back, Whole t := by
        intro t ht c hc
        obtain ⟨-, oldTag, hold, rfl⟩ := hback t ht
        exact hwhole oldTag hold c (strip_sublist oldTag c hc)
      rw [← joinTags_inj hbackDistinct hbackWhole hdistinct hwhole hjoin] at htag
      exact (hback tag htag).1
    · intro hstrip
      have hmap : (promptCreateBody form).tags.map strip = (promptCreateBody form).tags := by
        conv_rhs => rw [← List.map_id (promptCreateBody form).tags]
        exact List.map_congr_left (fun tag htag => hstrip rfl tag htag)
      have hself := foldl_addTag_self (promptCreateBody form).tags [] hdistinct
      rw [cleanTags_ok h, hmap, hself, List.nil_append]

/-- **The form is back as it was cleaned** just when the server cleans nothing off what was sent. -/
theorem reopened_iff (hclean : Cleaned original)
    (h : savePatch original (promptPatchBody form original) = .ok saved) :
    promptFormFromTemplate saved = cleanedForm form ↔
      ∀ f, differs (promptCreateBody form) original f = true → Settled (promptCreateBody form) f := by
  obtain ⟨htitle, hcontent, hcategory, htags, hdescription⟩ := savePatch_ok.1 h
  have hsame := fun f => (@differs_false original form f).1
  have hbackTitle := name_back htitle (hsame .title)
  have hbackCategory := name_back hcategory (hsame .category)
  have hbackTags := tags_back htags (hsame .tags)
  have hbackDescription := description_back hdescription (hsame .description)
  have hbackContent : saved.content = (promptCreateBody form).content := by
    cases hd : differs (promptCreateBody form) original .content with
    | false =>
      rw [hd] at hcontent
      exact (Except.ok.inj hcontent).symm.trans (hsame .content hd).symm
    | true =>
      rw [hd] at hcontent
      exact (cleanContent_ok hcontent).1
  have hnonempty : saved.category ≠ [] := by
    cases hd : differs (promptCreateBody form) original .category with
    | false =>
      rw [hd] at hcategory
      exact Except.ok.inj hcategory ▸ hclean.category.2
    | true =>
      rw [hd] at hcategory
      obtain ⟨heq, hne⟩ := cleanName_ok hcategory
      exact heq ▸ hne
  have hshown : promptFormFromTemplate saved = cleanedForm form ↔
      saved.title = (promptCreateBody form).title ∧ saved.category = (promptCreateBody form).category ∧
        saved.description.getD [] = (promptCreateBody form).description.getD [] ∧
        joinTags saved.tags = joinTags (promptCreateBody form).tags := by
    simp only [promptFormFromTemplate, cleanedForm, PromptForm.mk.injEq, orDefault, if_neg hnonempty, hbackContent,
      true_and]
  rw [hshown, hbackTitle, hbackCategory, hbackDescription, hbackTags]
  constructor
  · rintro ⟨h1, h2, h3, h4⟩ f hf
    cases f with
    | title => exact h1 hf
    | content => exact trivial
    | category => exact h2 hf
    | description => exact h3 hf
    | tags => exact h4 hf
  · exact fun hall => ⟨hall .title, hall .category, hall .description, hall .tags⟩

theorem createPrompt_eq (body : PromptTemplateInput) (row : PromptTemplate) : createPrompt body =
    updatePrompt row ⟨some body.title, some body.content, some body.category, some body.tags, some body.description⟩ := rfl

theorem updatePrompt_cleaned {patch : PromptTemplateUpdate} (hclean : Cleaned original)
    (h : updatePrompt original patch = .ok saved) : Cleaned saved := by
  obtain ⟨htitle, hcontent, hcategory, htags, hdescription⟩ := updatePrompt_ok.1 h
  have hname : ∀ {field : Field} {limit : Nat} {asked : Option Text} {old back : Text},
      sent (cleanName field limit) old asked = .ok back → strip old = old ∧ old ≠ [] → strip back = back ∧ back ≠ [] := by
    intro field limit asked old back hsent hold
    cases asked with
    | none => exact Except.ok.inj hsent ▸ hold
    | some next =>
      obtain ⟨heq, hne⟩ := cleanName_ok hsent
      rw [heq]
      exact ⟨strip_strip next, hne⟩
  refine ⟨hname htitle hclean.title, ?_, hname hcategory hclean.category, ?_, ?_⟩
  · cases hasked : patch.content with
    | none =>
      rw [hasked] at hcontent
      exact Except.ok.inj hcontent ▸ hclean.content
    | some content =>
      rw [hasked] at hcontent
      obtain ⟨heq, hne⟩ := cleanContent_ok hcontent
      exact heq ▸ hne
  · cases hasked : patch.description with
    | none =>
      rw [hasked] at hdescription
      exact Except.ok.inj hdescription ▸ hclean.description
    | some description =>
      rw [hasked] at hdescription
      exact cleanDescription_spec hdescription
  · cases hasked : patch.tags with
    | none =>
      rw [hasked] at htags
      exact Except.ok.inj htags ▸ hclean.tags
    | some tags =>
      rw [hasked] at htags
      obtain ⟨hdistinct, hback⟩ := cleanTags_spec htags
      exact ⟨hdistinct.1, fun tag htag => ⟨(hback tag htag).1, hdistinct.2 tag htag⟩⟩

def patched (row : PromptTemplate) (patch : PromptTemplateUpdate) : PromptTemplate :=
  match updatePrompt row patch with
  | .ok saved => saved
  | .error _ => row

end

/-- **An edit sends what changed and comes back as it was cleaned exactly when** the client cleans nothing off the fields
that were not touched and the server, where it accepts the patch, nothing off those that are sent. -/
theorem sendsChanges_iff (original : PromptTemplate) (form : PromptForm) (hclean : Cleaned original) :
    SendsChanges original form ↔
      (∀ f, ¬ edited form original f → Keeps original f) ∧
      ((∃ saved, savePatch original (promptPatchBody form original) = .ok saved) →
        ∀ f, differs (promptCreateBody form) original f = true → Settled (promptCreateBody form) f) := by
  constructor
  · intro h
    refine ⟨fun f hf => ?_, fun ⟨saved, hsaved⟩ => (reopened_iff hclean hsaved).1 (h.reopened saved hsaved)⟩
    rw [← untouched_iff hclean hf]
    cases hd : differs (promptCreateBody form) original f with
    | false => rfl
    | true => exact absurd ((h.fields f).1 ((names_patch f).trans hd)).1 hf
  · rintro ⟨hkeeps, hsettled⟩
    have huntouched : ∀ f, ¬ edited form original f → differs (promptCreateBody form) original f = false :=
      fun f hf => (untouched_iff hclean hf).2 (hkeeps f hf)
    refine ⟨fun f => ?_, fun hsame => patch_none.2 (fun f => huntouched f ?_), fun saved hsaved => ?_⟩
    · rw [names_patch]
      refine ⟨fun hd => ⟨?_, hd⟩, fun h => h.2⟩
      by_contra hf
      rw [huntouched f hf] at hd
      cases hd
    · subst hsame
      cases f <;> exact not_not.2 rfl
    · exact (reopened_iff hclean hsaved).2 (hsettled ⟨saved, hsaved⟩)

theorem sendsChanges_title :
    SendsChanges ⟨"a".toList, "b".toList, "c".toList, ["d".toList, "e".toList], none⟩
      ⟨"f".toList, "b".toList, "c".toList, [], "d、e".toList⟩ := by
  refine (sendsChanges_iff _ _ ⟨by decide +kernel, by decide +kernel, by decide +kernel, (fun _ h => by cases h), by decide +kernel⟩).2
    ⟨fun f hf => ?_, fun _ f hd => ?_⟩
  · cases f with
    | title =>
      unfold edited at hf
      exact absurd hf (by decide +kernel)
    | content => exact trivial
    | category =>
      unfold Keeps
      decide +kernel
    | description => exact fun _ h => by cases h
    | tags =>
      unfold Keeps Whole
      decide +kernel
  · revert hd
    cases f with
    | title | category =>
      unfold Settled
      decide +kernel
    | content => exact fun _ => trivial
    | description | tags => exact fun hd => absurd hd (by decide +kernel)

/-- A tag of two words, which the server allows, is cut in two by saving the form as it was opened. -/
theorem spaced_tag_sent : ∃ original, Cleaned original ∧ ¬ SendsChanges original (promptFormFromTemplate original) := by
  refine ⟨⟨"a".toList, "b".toList, "c".toList, ["unit test".toList], none⟩,
    ⟨by decide +kernel, by decide +kernel, by decide +kernel, (fun _ h => by cases h), by decide +kernel⟩, fun h => ?_⟩
  exact absurd (h.unedited rfl) (by decide +kernel)

end Prompts
end MyGpt
