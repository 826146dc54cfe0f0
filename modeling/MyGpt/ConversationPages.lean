import MyGpt.Lib.Keyed
import Mathlib.Data.List.Dedup
/-!
# ConversationPages — the conversation list, page by page

`lib/conversation-list.ts`, and the list it pages through.  The server knows offsets only, and between two loads rows come
in at the head of its list and others go, here and elsewhere.  The next page begins where the distinct rows that are loaded
end.  The server's list is, at any time, what was paged over and what comes behind it (`OnCourse`); a load takes as many rows
off what comes behind as a page holds, less the unknown rows before it (`OnCourse.load`).  So a session reaches every
conversation exactly when, while one is missing, a page is loaded some time before so many rows came in elsewhere
(`paging_reaches_iff`).
-/
namespace MyGpt
namespace Sidebar

structure Conversation where
  id : String
  title : String
  deriving DecidableEq

structure ConversationPage where
  offset : Nat
  limit : Nat
  fetched : Nat
  items : List Conversation
  deriving DecidableEq

def conversationPageSize : Nat := 20

def conversationPage (rows : List Conversation) (offset limit : Nat) : ConversationPage :=
  { offset, limit, fetched := rows.length, items := rows }

/-- `if (!seen.has(conv.id)) seen.set(conv.id, conv)` -/
def flattenConversationPages (pages : List ConversationPage) : List Conversation :=
  Keyed.collect (·.id) (pages.flatMap (·.items))

def pageIds (pages : List ConversationPage) : List String := (pages.flatMap (·.items)).map (·.id)

def loadedConversationCount (pages : List ConversationPage) : Nat := (pageIds pages).dedup.length

def nextConversationOffset (lastPage : ConversationPage) (pages : List ConversationPage) : Option Nat :=
  if lastPage.fetched < lastPage.limit then none else some (loadedConversationCount pages)

def withoutRow (id : String) (page : ConversationPage) : ConversationPage :=
  if (page.items.map (·.id)).contains id then { page with items := page.items.filter (fun c => c.id ≠ id) } else page

def withConversationRemoved (pages : List ConversationPage) (id : String) : List ConversationPage :=
  pages.map (withoutRow id)

def withConversationPrepended (pages : List ConversationPage) (conv : Conversation) : List ConversationPage :=
  match pages with
  | [] => [{ offset := 0, limit := conversationPageSize, fetched := 0, items := [conv] }]
  | first :: rest =>
    { withoutRow conv.id first with items := conv :: (withoutRow conv.id first).items } ::
      withConversationRemoved rest conv.id

/-! ## the server, and the client beside it -/

def serve (server : List Conversation) (offset limit : Nat) : List Conversation :=
  (server.drop offset).take (max 1 (min limit 200))

structure Paging where
  server : List Conversation
  pages : List ConversationPage
  limit : Nat
  strangers : List String := []
  used : List String
  deriving DecidableEq

inductive PagingAct
  | inserted (conv : Conversation)
  | deleted (id : String)
  | created (conv : Conversation)
  | removed (id : String)
  | load
  | idle
  deriving DecidableEq

/-- `getNextPageParam`. -/
def Paging.nextOffset (s : Paging) : Option Nat := s.pages.getLast?.bind (fun last => nextConversationOffset last s.pages)

def pagingStep (s : Paging) : PagingAct → Option Paging
  | .inserted conv =>
    if conv.id ∈ s.used then none
    else some { s with
      server := conv :: s.server
      strangers := conv.id :: s.strangers
      used := conv.id :: s.used }
  | .deleted id => some { s with server := s.server.filter (fun c => c.id ≠ id) }
  | .created conv =>
    if conv.id ∈ s.used then none
    else some { s with
      server := conv :: s.server
      pages := withConversationPrepended s.pages conv
      used := conv.id :: s.used }
  | .removed id =>
    some { s with
      server := s.server.filter (fun c => c.id ≠ id)
      pages := withConversationRemoved s.pages id }
  | .load =>
    s.nextOffset.map (fun offset =>
      { s with pages := s.pages ++ [conversationPage (serve s.server offset s.limit) offset s.limit] })
  | .idle => some s

def opened (rows : List Conversation) (limit : Nat) : Paging :=
  { server := rows
    pages := [conversationPage (serve rows 0 limit) 0 limit]
    limit := limit
    used := rows.map (·.id) }

def Paging.shown (s : Paging) : List String := (flattenConversationPages s.pages).map (·.id)

structure Session (rows : List Conversation) (limit : Nat) (state : Nat → Paging) (act : Nat → PagingAct) : Prop where
  start : state 0 = opened rows limit
  steps : ∀ n, pagingStep (state n) (act n) = some (state (n + 1))
  loads : ∀ n, (state n).nextOffset ≠ none → ∃ m, n ≤ m ∧ act m = .load

/-! ## how far the pages have drifted -/

def Paging.unknown (s : Paging) : Nat :=
  (s.server.filter (fun c => s.strangers.contains c.id && not ((pageIds s.pages).contains c.id))).length

def Paging.gone (s : Paging) : Nat :=
  ((pageIds s.pages).dedup.filter (fun id => not ((s.server.map (·.id)).contains id))).length

/-- **A load that stays on course**: the page begins no further than what was paged over. -/
def KeepsCourse (s : Paging) (act : PagingAct) : Prop := act = .load → s.gone ≤ s.unknown

/-- **A load that reaches on**: fewer rows are unknown than a page holds, over those that are gone. -/
def ReachesOn (s : Paging) (act : PagingAct) : Prop := act = .load ∧ s.unknown < s.gone + s.limit

/-! ## pages that are written to -/

theorem withoutRow_ids (id : String) (page : ConversationPage) :
    (withoutRow id page).items.map (·.id) = (page.items.map (·.id)).filter (fun x => decide (x ≠ id)) := by
  unfold withoutRow
  split
  · rw [List.filter_map]
    rfl
  · rename_i habsent
    have hmem : id ∉ page.items.map (·.id) := by simpa using habsent
    refine (List.filter_eq_self.2 (fun x hx => ?_)).symm
    have hne : x ≠ id := fun heq => hmem (heq ▸ hx)
    simp [hne]

@[simp] theorem withoutRow_fetched (id : String) (page : ConversationPage) :
    (withoutRow id page).fetched = page.fetched ∧ (withoutRow id page).limit = page.limit := by
  unfold withoutRow
  split <;> exact ⟨rfl, rfl⟩

theorem pageIds_cons (page : ConversationPage) (pages : List ConversationPage) :
    pageIds (page :: pages) = page.items.map (·.id) ++ pageIds pages := by
  rw [pageIds, List.flatMap_cons, List.map_append]
  rfl

theorem pageIds_append (pages more : List ConversationPage) : pageIds (pages ++ more) = pageIds pages ++ pageIds more := by
  rw [pageIds, List.flatMap_append, List.map_append]
  rfl

theorem pageIds_removed (id : String) : ∀ pages : List ConversationPage,
    pageIds (withConversationRemoved pages id) = (pageIds pages).filter (fun x => decide (x ≠ id))
  | [] => rfl
  | page :: pages => by
    have ih := pageIds_removed id pages
    rw [withConversationRemoved] at ih ⊢
    rw [List.map_cons, pageIds_cons, ih, withoutRow_ids, pageIds_cons, List.filter_append]

theorem mem_pageIds_prepended {pages : List ConversationPage} {conv : Conversation} {x : String} :
    x ∈ pageIds (withConversationPrepended pages conv) ↔ x = conv.id ∨ x ∈ pageIds pages := by
  cases pages with
  | nil => simp [withConversationPrepended, pageIds]
  | cons first rest =>
    rw [withConversationPrepended, pageIds_cons, pageIds_removed, List.map_cons, withoutRow_ids, pageIds_cons]
    by_cases hx : x = conv.id <;> simp [hx]

def ended (pages : List ConversationPage) : Bool := pages.getLast?.any (fun last => decide (last.fetched < last.limit))

theorem nextOffset_eq {s : Paging} (h : s.pages ≠ []) :
    s.nextOffset = if ended s.pages = true then none else some (loadedConversationCount s.pages) := by
  unfold Paging.nextOffset ended nextConversationOffset
  rw [List.getLast?_eq_some_getLast h]
  simp

theorem ended_removed (id : String) (pages : List ConversationPage) :
    ended (withConversationRemoved pages id) = ended pages := by
  unfold ended withConversationRemoved
  rw [List.getLast?_map, Option.any_map]
  simp

theorem ended_prepended {pages : List ConversationPage} (h : pages ≠ []) (conv : Conversation) :
    ended (withConversationPrepended pages conv) = ended pages := by
  cases pages with
  | nil => exact absurd rfl h
  | cons first rest =>
    rw [withConversationPrepended, ← ended_removed conv.id (first :: rest)]
    unfold ended withConversationRemoved
    rw [List.map_cons, List.getLast?_cons, List.getLast?_cons]
    cases (rest.map (withoutRow conv.id)).getLast? <;> rfl

theorem prepended_ne_nil (pages : List ConversationPage) (conv : Conversation) : withConversationPrepended pages conv ≠ [] := by
  cases pages <;> exact List.cons_ne_nil _ _

/-! ## what is shown -/

theorem shown_ids (s : Paging) : s.shown.Nodup ∧ ∀ x, x ∈ s.shown ↔ x ∈ pageIds s.pages :=
  ⟨Keyed.nodup_collect _ _, fun _ => Keyed.mem_collect _⟩

theorem shown_stays {s s' : Paging} {act : PagingAct} (hstep : pagingStep s act = some s') {x : String} (hshown : x ∈ s.shown)
    (hthere : x ∈ s'.server.map (·.id)) : x ∈ s'.shown := by
  rw [(shown_ids _).2] at hshown ⊢
  cases act with
  | inserted conv =>
    obtain ⟨-, ⟨⟩⟩ := Option.ite_none_left_eq_some.1 hstep
    exact hshown
  | deleted | idle =>
    cases hstep
    exact hshown
  | created conv =>
    obtain ⟨-, ⟨⟩⟩ := Option.ite_none_left_eq_some.1 hstep
    exact mem_pageIds_prepended.2 (.inr hshown)
  | removed id =>
    cases hstep
    obtain ⟨c, hc, rfl⟩ := List.mem_map.1 hthere
    rw [pageIds_removed]
    exact List.mem_filter.2 ⟨hshown, (List.mem_filter.1 hc).2⟩
  | load =>
    obtain ⟨offset, -, rfl⟩ := Option.map_eq_some_iff.1 hstep
    rw [pageIds_append]
    exact List.mem_append_left _ hshown

/-! ## on course -/

/-- **The server's list**: what was paged over holds loaded rows and strangers, what comes behind holds neither; behind a page
that was not full there is nothing. -/
structure OnCourse (rows : List Conversation) (limit : Nat) (s : Paging) (passed ahead : List Conversation) : Prop where
  limit : s.limit = limit
  pages : s.pages ≠ []
  split : s.server = passed ++ ahead
  ids : (s.server.map (·.id)).Nodup
  used : ∀ x, x ∈ s.server.map (·.id) ∨ x ∈ rows.map (·.id) → x ∈ s.used
  strange : ∀ row ∈ rows, row.id ∉ s.strangers
  known : ∀ c ∈ passed, c.id ∈ pageIds s.pages ∨ c.id ∈ s.strangers
  fresh : ∀ c ∈ ahead, c.id ∉ pageIds s.pages ∧ c.id ∉ s.strangers
  spent : ended s.pages = true → ahead = []

section

variable {rows passed ahead : List Conversation} {limit : Nat} {s : Paging}

/-- **How long that is**: the loaded rows that are there, and the strangers that are not loaded. -/
theorem OnCourse.count (h : OnCourse rows limit s passed ahead) :
    s.unknown + loadedConversationCount s.pages = passed.length + s.gone := by
  have hunknown : s.unknown = (passed.filter (fun c => not ((pageIds s.pages).contains c.id))).length := by
    have hahead : ahead.filter (fun c => s.strangers.contains c.id && not ((pageIds s.pages).contains c.id)) = [] := by
      refine List.filter_eq_nil_iff.2 (fun c hc => ?_)
      simp [(h.fresh c hc).2]
    rw [Paging.unknown, h.split, List.filter_append, hahead, List.append_nil]
    refine congrArg List.length (List.filter_congr (fun c hc => ?_))
    rcases h.known c hc with hloaded | hstranger
    · simp [hloaded]
    · simp [hstranger]
  have hthere : ((pageIds s.pages).dedup.filter (fun id => (s.server.map (·.id)).contains id)).length =
      ((passed.filter (fun c => (pageIds s.pages).contains c.id)).map (·.id)).length := by
    refine List.Perm.length_eq ((List.perm_ext_iff_of_nodup (List.Nodup.filter _ (List.nodup_dedup _)) ?_).2 (fun x => ?_))
    · have hids := h.ids
      rw [h.split, List.map_append] at hids
      exact (List.Nodup.of_append_left hids).sublist (List.Sublist.map _ List.filter_sublist)
    · rw [List.mem_filter, List.mem_dedup, List.contains_iff_mem, h.split]
      constructor
      · rintro ⟨hloaded, hmem⟩
        obtain ⟨c, hc, rfl⟩ := List.mem_map.1 hmem
        rcases List.mem_append.1 hc with hc | hc
        · exact List.mem_map.2 ⟨c, List.mem_filter.2 ⟨hc, List.contains_iff_mem.2 hloaded⟩, rfl⟩
        · exact absurd hloaded (h.fresh c hc).1
      · intro hmem
        obtain ⟨c, hc, rfl⟩ := List.mem_map.1 hmem
        obtain ⟨hc, hloaded⟩ := List.mem_filter.1 hc
        exact ⟨List.contains_iff_mem.1 hloaded, List.mem_map.2 ⟨c, List.mem_append_left _ hc, rfl⟩⟩
  have hloaded := List.length_eq_length_filter_add (l := (pageIds s.pages).dedup)
    (fun id => (s.server.map (·.id)).contains id)
  have hpassed := List.length_eq_length_filter_add (l := passed) (fun c => (pageIds s.pages).contains c.id)
  rw [List.length_map] at hthere
  unfold loadedConversationCount Paging.gone
  omega

theorem OnCourse.filter (h : OnCourse rows limit s passed ahead) (id : String) {pages : List ConversationPage}
    (hids : ∀ x, x ≠ id → (x ∈ pageIds pages ↔ x ∈ pageIds s.pages)) (hgone : ∀ x ∈ pageIds pages, x ∈ pageIds s.pages)
    (hsome : pages ≠ []) (hended : ended pages = ended s.pages) :
    OnCourse rows limit { s with server := s.server.filter (fun c => c.id ≠ id), pages := pages }
      (passed.filter (fun c => c.id ≠ id)) (ahead.filter (fun c => c.id ≠ id)) := by
  have hsublist : (s.server.filter (fun c => decide (c.id ≠ id))).map (·.id) |>.Sublist (s.server.map (·.id)) :=
    List.Sublist.map _ List.filter_sublist
  refine ⟨h.limit, hsome, ?_, h.ids.sublist hsublist, fun x hx => h.used x (hx.imp_left (fun hx => hsublist.subset hx)),
    h.strange, fun c hc => ?_, fun c hc => ?_, fun hover => ?_⟩
  · show s.server.filter _ = _
    rw [h.split, List.filter_append]
  · obtain ⟨hc, hne⟩ := List.mem_filter.1 hc
    exact (h.known c hc).imp_left (hids c.id (of_decide_eq_true hne)).2
  · obtain ⟨hloaded, hstranger⟩ := h.fresh c (List.mem_filter.1 hc).1
    exact ⟨fun hmem => hloaded (hgone _ hmem), hstranger⟩
  · rw [h.spent (hended.symm.trans hover)]
    rfl

theorem OnCourse.head (h : OnCourse rows limit s passed ahead) {conv : Conversation} (hfresh : conv.id ∉ s.used) :
    (∀ c ∈ s.server, c.id ≠ conv.id) ∧ ((conv :: s.server).map (·.id)).Nodup ∧
      ∀ x, x ∈ (conv :: s.server).map (·.id) ∨ x ∈ rows.map (·.id) → x ∈ conv.id :: s.used := by
  have hother : ∀ c ∈ s.server, c.id ≠ conv.id := fun c hc heq =>
    hfresh (heq ▸ h.used _ (.inl (List.mem_map.2 ⟨c, hc, rfl⟩)))
  refine ⟨hother, List.nodup_cons.2 ⟨fun hmem => ?_, h.ids⟩, fun x hx => ?_⟩
  · obtain ⟨c, hc, heq⟩ := List.mem_map.1 hmem
    exact hother c hc heq
  · rcases hx with hx | hx
    · rcases List.mem_cons.1 hx with rfl | hx
      · exact List.mem_cons_self
      · exact List.mem_cons_of_mem _ (h.used x (.inl hx))
    · exact List.mem_cons_of_mem _ (h.used x (.inr hx))

/-- **The next page** takes off what is ahead as many rows as it holds, and as are gone, less the unknown ones. -/
theorem OnCourse.load (h : OnCourse rows limit s passed ahead) (hlimit : 0 < limit) (hcap : limit ≤ 200)
    (hcourse : s.gone ≤ s.unknown) :
    OnCourse rows limit
      { s with pages := s.pages ++ [conversationPage (serve s.server (loadedConversationCount s.pages) s.limit)
        (loadedConversationCount s.pages) s.limit] }
      (passed ++ ahead.take (s.gone + limit - s.unknown)) (ahead.drop (s.gone + limit - s.unknown)) := by
  have hcount := h.count
  have hbegins : loadedConversationCount s.pages ≤ passed.length := by omega
  have htaken : s.gone + limit - s.unknown = limit - (passed.drop (loadedConversationCount s.pages)).length := by
    rw [List.length_drop]
    omega
  have hpage : serve s.server (loadedConversationCount s.pages) s.limit =
      (passed.drop (loadedConversationCount s.pages)).take limit ++ ahead.take (s.gone + limit - s.unknown) := by
    unfold serve
    rw [h.limit, Nat.min_eq_left hcap, Nat.max_eq_right hlimit, h.split, List.drop_append_of_le_length hbegins,
      List.take_append, htaken]
  have hfull : (serve s.server (loadedConversationCount s.pages) s.limit).length < limit →
      ahead.length ≤ s.gone + limit - s.unknown := by
    rw [hpage, htaken, List.length_append, List.length_take, List.length_take]
    omega
  generalize serve s.server (loadedConversationCount s.pages) s.limit = page at *
  have hloaded : ∀ x, x ∈ pageIds (s.pages ++ [conversationPage page (loadedConversationCount s.pages) s.limit]) ↔
      x ∈ pageIds s.pages ∨ x ∈ page.map (·.id) := by
    intro x
    rw [pageIds_append, List.mem_append, pageIds_cons, List.mem_append]
    simp [pageIds, conversationPage]
  have hserver : s.server = passed ++ ahead.take (s.gone + limit - s.unknown) ++
      ahead.drop (s.gone + limit - s.unknown) := by
    rw [List.append_assoc, List.take_append_drop, h.split]
  refine ⟨h.limit, by simp, hserver, h.ids, h.used, h.strange, fun c hc => ?_, fun c hc => ?_, fun hfinal => ?_⟩
  · rcases List.mem_append.1 hc with hc | hc
    · exact (h.known c hc).imp_left (fun hmem => (hloaded _).2 (.inl hmem))
    · exact .inl ((hloaded _).2 (.inr (List.mem_map.2 ⟨c, hpage ▸ List.mem_append_right _ hc, rfl⟩)))
  · obtain ⟨hnew, hstranger⟩ := h.fresh c (List.mem_of_mem_drop hc)
    refine ⟨fun hmem => ?_, hstranger⟩
    rcases (hloaded _).1 hmem with hmem | hmem
    · exact hnew hmem
    · -- the ids of the server are distinct, so a row behind the page is not on it
      obtain ⟨other, hother, heq⟩ := List.mem_map.1 hmem
      have hids := h.ids
      rw [hserver, List.map_append] at hids
      refine (List.nodup_append.1 hids).2.2 _ (List.mem_map.2 ⟨other, ?_, heq⟩) _ (List.mem_map.2 ⟨c, hc, rfl⟩) rfl
      rw [hpage] at hother
      refine (List.mem_append.1 hother).elim (fun hbefore => ?_) (List.mem_append_right _)
      exact List.mem_append_left _ (List.mem_of_mem_drop (List.mem_of_mem_take hbefore))
  · simp only [ended, conversationPage, List.getLast?_concat, Option.any_some, h.limit, decide_eq_true_eq] at hfinal
    exact List.drop_eq_nil_of_le (hfull hfinal)

/-- **What one step preserves**, when a load stays on course.  What is ahead gets no longer; a load that reaches on takes
rows off it, and nothing else takes one that is not deleted. -/
theorem OnCourse.step (h : OnCourse rows limit s passed ahead) (hlimit : 0 < limit) (hcap : limit ≤ 200) {act : PagingAct}
    {s' : Paging} (hkeeps : KeepsCourse s act) (hstep : pagingStep s act = some s') :
    ∃ passed' ahead', OnCourse rows limit s' passed' ahead' ∧ ahead'.length ≤ ahead.length ∧
      (ReachesOn s act → ahead ≠ [] → ahead'.length < ahead.length) ∧
      (¬ ReachesOn s act → ∀ c ∈ ahead, c.id ∈ s'.server.map (·.id) → c ∈ ahead') := by
  have hstill : ∀ id, ∀ c ∈ ahead, c.id ∈ (s.server.filter (fun c => decide (c.id ≠ id))).map (·.id) →
      c ∈ ahead.filter (fun c => decide (c.id ≠ id)) := by
    intro id c hc hthere
    obtain ⟨other, hother, heq⟩ := List.mem_map.1 hthere
    exact List.mem_filter.2 ⟨hc, heq ▸ (List.mem_filter.1 hother).2⟩
  cases act with
  | inserted conv =>
    obtain ⟨hfresh, ⟨⟩⟩ := Option.ite_none_left_eq_some.1 hstep
    obtain ⟨hother, hids, hused⟩ := h.head hfresh
    refine ⟨conv :: passed, ahead, ⟨h.limit, h.pages, congrArg (conv :: ·) h.split, hids, hused, fun row hrow hmem => ?_,
      fun c hc => ?_, fun c hc => ?_, h.spent⟩, Nat.le_refl _, (fun hload => nomatch hload.1), fun _ c hc _ => hc⟩
    · rcases List.mem_cons.1 hmem with heq | hmem
      · exact hfresh (heq ▸ h.used _ (.inr (List.mem_map.2 ⟨row, hrow, rfl⟩)))
      · exact h.strange row hrow hmem
    · rcases List.mem_cons.1 hc with rfl | hc
      · exact .inr List.mem_cons_self
      · exact (h.known c hc).imp_right (List.mem_cons_of_mem _)
    · obtain ⟨hnew, hstranger⟩ := h.fresh c hc
      refine ⟨hnew, fun hmem => ?_⟩
      rcases List.mem_cons.1 hmem with heq | hmem
      · exact hother c (h.split ▸ List.mem_append_right _ hc) heq
      · exact hstranger hmem
  | deleted id =>
    cases hstep
    exact ⟨_, _, h.filter id (fun _ _ => Iff.rfl) (fun _ hx => hx) h.pages rfl, List.length_filter_le _ _,
      (fun hload => nomatch hload.1), fun _ => hstill id⟩
  | created conv =>
    obtain ⟨hfresh, ⟨⟩⟩ := Option.ite_none_left_eq_some.1 hstep
    obtain ⟨hother, hids, hused⟩ := h.head hfresh
    refine ⟨conv :: passed, ahead, ⟨h.limit, prepended_ne_nil _ conv, congrArg (conv :: ·) h.split, hids, hused, h.strange,
      fun c hc => ?_, fun c hc => ?_, fun hover => h.spent ((ended_prepended h.pages conv).symm.trans hover)⟩, Nat.le_refl _,
      (fun hload => nomatch hload.1), fun _ c hc _ => hc⟩
    · rcases List.mem_cons.1 hc with rfl | hc
      · exact .inl (mem_pageIds_prepended.2 (.inl rfl))
      · exact (h.known c hc).imp_left (fun hmem => mem_pageIds_prepended.2 (.inr hmem))
    · obtain ⟨hnew, hstranger⟩ := h.fresh c hc
      refine ⟨fun hmem => ?_, hstranger⟩
      rcases mem_pageIds_prepended.1 hmem with heq | hmem
      · exact hother c (h.split ▸ List.mem_append_right _ hc) heq
      · exact hnew hmem
  | removed id =>
    cases hstep
    have hids : ∀ x, x ∈ pageIds (withConversationRemoved s.pages id) ↔ x ∈ pageIds s.pages ∧ x ≠ id := by
      intro x
      rw [pageIds_removed, List.mem_filter, decide_eq_true_eq]
    exact ⟨_, _, h.filter id (fun x hx => (hids x).trans (and_iff_left hx)) (fun x hx => ((hids x).1 hx).1)
      (fun hnil => h.pages (List.map_eq_nil_iff.1 hnil)) (ended_removed id s.pages), List.length_filter_le _ _,
      (fun hload => nomatch hload.1), fun _ => hstill id⟩
  | load =>
    obtain ⟨offset, hnext, rfl⟩ := Option.map_eq_some_iff.1 hstep
    rw [nextOffset_eq h.pages] at hnext
    obtain rfl := Option.some.inj (Option.ite_none_left_eq_some.1 hnext).2
    refine ⟨_, _, h.load hlimit hcap (hkeeps rfl), ?_, fun hreaches hsome => ?_, fun hshort c hc _ => ?_⟩
    · rw [List.length_drop]
      exact Nat.sub_le _ _
    · have hfew := hreaches.2
      have hpos := List.length_pos_iff.2 hsome
      rw [h.limit] at hfew
      rw [List.length_drop]
      omega
    · have hmany : s.gone + limit - s.unknown = 0 := by
        have hnot : ¬ s.unknown < s.gone + s.limit := fun hfew => hshort ⟨rfl, hfew⟩
        rw [h.limit] at hnot
        omega
      rwa [hmany, List.drop_zero]
  | idle =>
    cases hstep
    exact ⟨passed, ahead, h, Nat.le_refl _, (fun hload => nomatch hload.1), fun _ c hc _ => hc⟩

theorem OnCourse.missing (h : OnCourse rows limit s passed ahead) {row : Conversation} (hrow : row ∈ rows)
    (hthere : row.id ∈ s.server.map (·.id)) : row.id ∉ s.shown ↔ ∃ c ∈ ahead, c.id = row.id := by
  rw [(shown_ids s).2]
  constructor
  · intro hmissing
    obtain ⟨c, hc, hid⟩ := List.mem_map.1 hthere
    rw [h.split] at hc
    refine ⟨c, (List.mem_append.1 hc).resolve_left (fun hc => ?_), hid⟩
    rcases h.known c hc with hloaded | hstranger
    · exact hmissing (hid ▸ hloaded)
    · exact h.strange row hrow (hid ▸ hstranger)
  · rintro ⟨c, hc, hid⟩ hloaded
    exact (h.fresh c hc).1 (hid ▸ hloaded)

end

theorem opened_onCourse {rows : List Conversation} (hrows : (rows.map (·.id)).Nodup) {limit : Nat} (hlimit : 0 < limit)
    (hcap : limit ≤ 200) : OnCourse rows limit (opened rows limit) (rows.take limit) (rows.drop limit) := by
  have hpage : serve rows 0 limit = rows.take limit := by
    unfold serve
    rw [Nat.min_eq_left hcap, Nat.max_eq_right hlimit, List.drop_zero]
  have hids : pageIds (opened rows limit).pages = (rows.take limit).map (·.id) := by
    simp [opened, pageIds, conversationPage, hpage]
  have hended : ended (opened rows limit).pages = decide (rows.length < limit) := by
    simp only [ended, opened, conversationPage, hpage, List.getLast?_singleton, Option.any_some, List.length_take,
      decide_eq_decide]
    omega
  refine ⟨rfl, List.cons_ne_nil _ _, (List.take_append_drop limit rows).symm, hrows, fun x hx => hx.elim id id,
    fun row _ => List.not_mem_nil, fun c hc => ?_, fun c hc => ⟨fun hmem => ?_, List.not_mem_nil⟩, fun hfinal => ?_⟩
  · rw [hids]
    exact .inl (List.mem_map.2 ⟨c, hc, rfl⟩)
  · rw [hids] at hmem
    rw [← List.take_append_drop limit rows, List.map_append] at hrows
    exact (List.nodup_append.1 hrows).2.2 _ hmem _ (List.mem_map.2 ⟨c, hc, rfl⟩) rfl
  · rw [hended, decide_eq_true_eq] at hfinal
    exact List.drop_eq_nil_of_le (Nat.le_of_lt hfinal)

/-! ## a whole session -/

section

variable {rows : List Conversation} {limit : Nat} {state : Nat → Paging} {act : Nat → PagingAct}

theorem session_onCourse (hrows : (rows.map (·.id)).Nodup) (hlimit : 0 < limit) (hcap : limit ≤ 200)
    (h : Session rows limit state act) (hkeeps : ∀ n, KeepsCourse (state n) (act n)) :
    ∀ n, ∃ passed ahead, OnCourse rows limit (state n) passed ahead
  | 0 => by
    rw [h.start]
    exact ⟨_, _, opened_onCourse hrows hlimit hcap⟩
  | n + 1 => by
    obtain ⟨passed, ahead, hn⟩ := session_onCourse hrows hlimit hcap h hkeeps n
    obtain ⟨passed', ahead', hnext, -⟩ := hn.step hlimit hcap (hkeeps n) (h.steps n)
    exact ⟨passed', ahead', hnext⟩

theorem session_ahead_le (hlimit : 0 < limit) (hcap : limit ≤ 200) (h : Session rows limit state act)
    (hkeeps : ∀ n, KeepsCourse (state n) (act n)) {n : Nat} {passed ahead : List Conversation}
    (hn : OnCourse rows limit (state n) passed ahead) :
    ∀ d, ∃ passed' ahead', OnCourse rows limit (state (n + d)) passed' ahead' ∧ ahead'.length ≤ ahead.length
  | 0 => ⟨passed, ahead, hn, Nat.le_refl _⟩
  | d + 1 => by
    obtain ⟨p, a, hd, hle⟩ := session_ahead_le hlimit hcap h hkeeps hn d
    obtain ⟨p', a', hnext, hstep, -⟩ := hd.step hlimit hcap (hkeeps _) (h.steps _)
    exact ⟨p', a', hnext, Nat.le_trans hstep hle⟩

theorem session_short (hlimit : 0 < limit) (hcap : limit ≤ 200) (h : Session rows limit state act)
    (hkeeps : ∀ n, KeepsCourse (state n) (act n)) {n : Nat} {passed ahead : List Conversation}
    (hn : OnCourse rows limit (state n) passed ahead) (hshort : ∀ m, n ≤ m → ¬ ReachesOn (state m) (act m))
    {c : Conversation} (hc : c ∈ ahead) (hstays : ∀ m, c.id ∈ (state m).server.map (·.id)) :
    ∀ d, ∃ passed' ahead', OnCourse rows limit (state (n + d)) passed' ahead' ∧ c ∈ ahead'
  | 0 => ⟨passed, ahead, hn, hc⟩
  | d + 1 => by
    obtain ⟨p, a, hd, hmem⟩ := session_short hlimit hcap h hkeeps hn hshort hc hstays d
    obtain ⟨p', a', hnext, -, -, hkept⟩ := hd.step hlimit hcap (hkeeps _) (h.steps _)
    exact ⟨p', a', hnext, hkept (hshort _ (Nat.le_add_right n d)) c hmem (hstays _)⟩

theorem session_shown (hrows : (rows.map (·.id)).Nodup) (hlimit : 0 < limit) (hcap : limit ≤ 200)
    (h : Session rows limit state act) (hkeeps : ∀ n, KeepsCourse (state n) (act n)) {row : Conversation} (hrow : row ∈ rows)
    (hstays : ∀ n, row.id ∈ (state n).server.map (·.id))
    (hreach : ∀ n, row.id ∉ (state n).shown → ∃ m, n ≤ m ∧ ReachesOn (state m) (act m)) :
    ∃ n, row.id ∈ (state n).shown := by
  by_contra hnever
  have hmissing : ∀ n, row.id ∉ (state n).shown := fun n hn => hnever ⟨n, hn⟩
  have hless : ∀ k n passed ahead, OnCourse rows limit (state n) passed ahead → k ≤ ahead.length := by
    intro k
    induction k with
    | zero => exact fun _ _ _ _ => Nat.zero_le _
    | succ k ih =>
      intro n passed ahead hn
      obtain ⟨m, hm, hreaches⟩ := hreach n (hmissing n)
      obtain ⟨p, a, hlater, hle⟩ := session_ahead_le hlimit hcap h hkeeps hn (m - n)
      rw [Nat.add_sub_cancel' hm] at hlater
      obtain ⟨c, hc, -⟩ := (hlater.missing hrow (hstays m)).1 (hmissing m)
      obtain ⟨p', a', hnext, -, hshorter, -⟩ := hlater.step hlimit hcap (hkeeps m) (h.steps m)
      have hfewer := hshorter hreaches (List.ne_nil_of_mem hc)
      have hmany := ih (m + 1) p' a' hnext
      omega
  obtain ⟨passed, ahead, hn⟩ := session_onCourse hrows hlimit hcap h hkeeps 0
  exact absurd (hless (ahead.length + 1) 0 passed ahead hn) (by omega)

/-- **Conversation list paging.**  Nothing is ever shown twice.  In a session whose loads all stay on course, every
conversation of the first load that is not deleted is shown in the end, and stays shown, exactly when, while one is missing,
a load reaches on some time. -/
theorem paging_reaches_iff (hrows : (rows.map (·.id)).Nodup) (hlimit : 0 < limit) (hcap : limit ≤ 200)
    (h : Session rows limit state act) (hkeeps : ∀ n, KeepsCourse (state n) (act n)) :
    (∀ n, (state n).shown.Nodup) ∧
      ((∀ row ∈ rows, (∀ n, row.id ∈ (state n).server.map (·.id)) → ∃ n, ∀ m, n ≤ m → row.id ∈ (state m).shown) ↔
        ∀ row ∈ rows, (∀ n, row.id ∈ (state n).server.map (·.id)) → ∀ n, row.id ∉ (state n).shown →
          ∃ m, n ≤ m ∧ ReachesOn (state m) (act m)) := by
  refine ⟨fun n => (shown_ids (state n)).1, fun hall row hrow hstays n hmissing => ?_, fun hreach row hrow hstays => ?_⟩
  · by_contra hnone
    obtain ⟨passed, ahead, hn⟩ := session_onCourse hrows hlimit hcap h hkeeps n
    obtain ⟨c, hc, hid⟩ := (hn.missing hrow (hstays n)).1 hmissing
    obtain ⟨m, hshown⟩ := hall row hrow hstays
    obtain ⟨p, a, hlater, hmem⟩ := session_short hlimit hcap h hkeeps hn (fun k hk hreaches => hnone ⟨k, hk, hreaches⟩) hc
      (fun k => hid ▸ hstays k) m
    exact (hlater.missing hrow (hstays _)).2 ⟨c, hmem, hid⟩ (hshown _ (Nat.le_add_left m n))
  · obtain ⟨n, hn⟩ := session_shown hrows hlimit hcap h hkeeps hrow hstays (hreach row hrow hstays)
    refine ⟨n, fun m hm => ?_⟩
    obtain ⟨d, rfl⟩ := Nat.exists_eq_add_of_le hm
    clear hm
    induction d with
    | zero => exact hn
    | succ d ih => exact shown_stays (h.steps (n + d)) ih (hstays _)

end

def twoRows : List Conversation := [{ id := "a", title := "" }, { id := "b", title := "" }]

def paged : List ConversationPage → Paging := fun pages => { opened twoRows 1 with pages := (opened twoRows 1).pages ++ pages }

def pagedThrough : Nat → Paging
  | 0 => opened twoRows 1
  | 1 => paged [conversationPage (twoRows.drop 1) 1 1]
  | _ + 2 => paged [conversationPage (twoRows.drop 1) 1 1, conversationPage [] 2 1]

def pagedBy : Nat → PagingAct
  | 0 | 1 => .load
  | _ + 2 => .idle

theorem paging_reaches_iff_through :
    (∀ n, (pagedThrough n).shown.Nodup) ∧
      ((∀ row ∈ twoRows, (∀ n, row.id ∈ (pagedThrough n).server.map (·.id)) →
          ∃ n, ∀ m, n ≤ m → row.id ∈ (pagedThrough m).shown) ↔
        ∀ row ∈ twoRows, (∀ n, row.id ∈ (pagedThrough n).server.map (·.id)) → ∀ n, row.id ∉ (pagedThrough n).shown →
          ∃ m, n ≤ m ∧ ReachesOn (pagedThrough m) (pagedBy m)) := by
  refine paging_reaches_iff (by decide) Nat.zero_lt_one (by decide) ⟨rfl, fun n => ?_, fun n hnext => ?_⟩ (fun n => ?_)
  · match n with
    | 0 | 1 => decide
    | _ + 2 => rfl
  · match n with
    | 0 | 1 => exact ⟨_, Nat.le_refl _, rfl⟩
    | _ + 2 => exact absurd rfl hnext
  · match n with
    | 0 | 1 => exact fun _ => by decide
    | _ + 2 => exact nofun

/-! ## a page of known rows -/

def stuckAt (n : Nat) : Paging :=
  { server := { id := "x", title := "" } :: twoRows
    pages := (opened twoRows 1).pages ++ List.replicate n (conversationPage (twoRows.take 1) 1 1)
    limit := 1
    strangers := ["x"]
    used := ["x", "a", "b"] }

def stuckThrough : Nat → Paging
  | 0 => opened twoRows 1
  | n + 1 => stuckAt n

def stuckBy : Nat → PagingAct
  | 0 => .inserted { id := "x", title := "" }
  | _ + 1 => .load

theorem stuckAt_ids (n : Nat) : pageIds (stuckAt n).pages = List.replicate (n + 1) "a" := by
  have hknown : pageIds (List.replicate n (conversationPage (twoRows.take 1) 1 1)) = List.replicate n "a" := by
    induction n with
    | zero => rfl
    | succ n ih =>
      rw [List.replicate_succ, pageIds_cons, ih, List.replicate_succ]
      rfl
  show pageIds ((opened twoRows 1).pages ++ _) = _
  rw [pageIds_append, hknown, List.replicate_succ]
  rfl

theorem stuckAt_nextOffset (n : Nat) : (stuckAt n).nextOffset = some 1 := by
  have hended : ended (stuckAt n).pages = false := by
    cases n with
    | zero => decide
    | succ n =>
      show ended ((opened twoRows 1).pages ++ List.replicate (n + 1) _) = false
      rw [List.replicate_succ', ← List.append_assoc]
      unfold ended
      rw [List.getLast?_concat]
      rfl
  rw [nextOffset_eq (List.cons_ne_nil _ _), hended, loadedConversationCount, stuckAt_ids,
    List.replicate_dedup (Nat.succ_ne_zero n)]
  rfl

theorem stuckAt_load (n : Nat) : pagingStep (stuckAt n) .load = some (stuckAt (n + 1)) := by
  rw [pagingStep, stuckAt_nextOffset, Option.map_some]
  refine congrArg some ?_
  rw [stuckAt, stuckAt, List.replicate_succ', ← List.append_assoc]
  rfl

/-- The next page is loaded again and again, and the second conversation never comes. -/
theorem paging_stuck : ¬ ∀ (rows : List Conversation) (limit : Nat) (state : Nat → Paging) (act : Nat → PagingAct),
    (rows.map (·.id)).Nodup → 0 < limit → limit ≤ 200 → Session rows limit state act →
      ∀ row ∈ rows, (∀ n, row.id ∈ (state n).server.map (·.id)) → ∃ n, row.id ∈ (state n).shown := by
  intro hall
  have hsession : Session twoRows 1 stuckThrough stuckBy := by
    refine ⟨rfl, fun n => ?_, fun n _ => ⟨n + 1, Nat.le_succ n, rfl⟩⟩
    cases n with
    | zero => decide
    | succ n => exact stuckAt_load n
  have hthere : ∀ n, "b" ∈ (stuckThrough n).server.map (·.id)
    | 0 => by decide
    | _ + 1 => show "b" ∈ ["x", "a", "b"] by decide
  obtain ⟨n, hshown⟩ := hall twoRows 1 stuckThrough stuckBy (by decide) Nat.zero_lt_one (by decide) hsession
    { id := "b", title := "" } (by decide) hthere
  rw [(shown_ids _).2] at hshown
  cases n with
  | zero => exact absurd hshown (by decide)
  | succ n =>
    have hids := stuckAt_ids n
    rw [stuckThrough, hids] at hshown
    exact absurd (List.eq_of_mem_replicate hshown) (by decide)

end Sidebar
end MyGpt
