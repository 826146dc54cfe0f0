import MyGpt.Continuation
/-!
# ContinuedMerge — the buffer against the one-shot merge

`ContinuationBuffer` cuts the overlap off by the first window alone.  The merge of the whole continuation cuts by the
same window, and looks at more of the continuation only where it asks whether all of it is a repeat; so the two differ
exactly on repeats longer than the window (`stream_eq_novelText_iff`).
-/
namespace MyGpt
namespace Chat

/-! ## an overlap is no longer than the new text -/

theorem fallBack_le (head : Text) {failure : List Nat} {bound : Nat} (hfailure : ∀ n ∈ failure, n ≤ bound) (c : Char) :
    ∀ (fuel matched : Nat), matched ≤ bound → fallBack head failure c fuel matched ≤ bound := by
  intro fuel
  induction fuel with
  | zero => exact fun _ h => h
  | succ fuel ih =>
    intro matched h
    unfold fallBack
    split
    · exact h
    · refine ih _ ?_
      rw [List.getD_eq_getElem?_getD]
      cases hget : failure[matched - 1]? with
      | none => exact Nat.zero_le _
      | some n => exact hfailure n (List.mem_of_getElem? hget)

theorem matched_lt {head : Text} {n : Nat} {c : Char} (h : head[n]? = some c) : n < head.length :=
  (List.getElem?_eq_some_iff.1 h).1

theorem failureTable_le (head : Text) : ∀ n ∈ failureTable head, n ≤ head.length := by
  have hrun : ∀ (cs : Text) (st : List Nat × Nat), (∀ n ∈ st.1, n ≤ head.length) → st.2 ≤ head.length →
      ∀ n ∈ (cs.foldl (fun st c =>
        let matched := fallBack head st.1 c st.2 st.2
        let matched := if head[matched]? = some c then matched + 1 else matched
        (st.1 ++ [matched], matched)) st).1, n ≤ head.length := by
    intro cs
    induction cs with
    | nil => exact fun st hst _ => hst
    | cons c cs ih =>
      intro st hst hmatched
      have hback := fallBack_le head hst c st.2 st.2 hmatched
      have hnext : (if head[fallBack head st.1 c st.2 st.2]? = some c then fallBack head st.1 c st.2 st.2 + 1
          else fallBack head st.1 c st.2 st.2) ≤ head.length := by
        split
        · rename_i hc
          exact matched_lt hc
        · exact hback
      refine ih _ (fun n hn => ?_) hnext
      rcases List.mem_append.1 hn with hn | hn
      · exact hst n hn
      · exact List.mem_singleton.1 hn ▸ hnext
  exact hrun _ _ (by simp) (Nat.zero_le _)

theorem scanOverlap_le (head : Text) : ∀ (existing : Text) (matched : Nat), matched ≤ head.length →
    scanOverlap head (failureTable head) matched existing ≤ head.length
  | [], _, h => h
  | c :: rest, matched, h => by
    have hback := fallBack_le head (failureTable_le head) c matched matched h
    unfold scanOverlap
    dsimp only
    split
    · rename_i hc
      apply scanOverlap_le head rest
      split
      · rw [List.getD_eq_getElem?_getD]
        cases hget : (failureTable head)[fallBack head (failureTable head) c matched matched]? with
        | none => exact Nat.zero_le _
        | some n => exact failureTable_le head n (List.mem_of_getElem? hget)
      · exact matched_lt hc
    · exact scanOverlap_le head rest _ hback

theorem suffixPrefixLength_le (existing head : Text) : suffixPrefixLength existing head ≤ head.length := by
  unfold suffixPrefixLength
  split
  · exact Nat.zero_le _
  · exact scanOverlap_le head existing 0 (Nat.zero_le _)

theorem suffixPrefixLength_self (head : Text) : suffixPrefixLength head head = head.length := by
  have hrun : ∀ (post pre : Text), head = pre ++ post →
      scanOverlap head (failureTable head) pre.length post = head.length := by
    intro post
    induction post with
    | nil =>
      intro pre hsplit
      rw [hsplit, List.append_nil]
      rfl
    | cons c post ih =>
      intro pre hsplit
      have hget : head[pre.length]? = some c := by
        rw [hsplit]
        simp
      have hstay : fallBack head (failureTable head) c pre.length pre.length = pre.length := by
        cases hlen : pre.length with
        | zero => rfl
        | succ n =>
          rw [hlen] at hget
          unfold fallBack
          rw [if_pos (.inr hget)]
      unfold scanOverlap
      dsimp only
      rw [hstay, if_pos hget]
      have hmore : ¬ (pre.length + 1 = head.length ∧ post ≠ []) := by
        rintro ⟨hlen, hpost⟩
        rw [hsplit, List.length_append, List.length_cons] at hlen
        exact hpost (List.eq_nil_of_length_eq_zero (by omega))
      rw [if_neg hmore]
      have hrest := ih (pre ++ [c]) (by rw [hsplit, List.append_assoc, List.singleton_append])
      rwa [List.length_append, List.length_singleton] at hrest
  unfold suffixPrefixLength
  split
  · rename_i hnil
    simp_all
  · exact hrun head [] rfl

theorem normaliseWhitespace_le : ∀ (text : Text) (i : Nat), ∀ p ∈ normaliseWhitespace i text, p.2 ≤ i + text.length
  | [], _, _, hp => by cases hp
  | c :: rest, i, p, hp => by
    have hrest : ∀ q ∈ normaliseWhitespace (i + 1) rest, q.2 ≤ i + (c :: rest).length := by
      intro q hq
      have hle := normaliseWhitespace_le rest (i + 1) q hq
      rw [List.length_cons]
      omega
    have hfirst : i + 1 ≤ i + (c :: rest).length := by
      rw [List.length_cons]
      omega
    unfold normaliseWhitespace at hp
    split at hp
    · split at hp
      · exact hrest p hp
      · rcases List.mem_cons.1 hp with rfl | hp
        · exact hfirst
        · exact hrest p hp
    · rcases List.mem_cons.1 hp with rfl | hp
      · exact hfirst
      · exact hrest p hp

/-! ## the cut -/

/-- How much `continuation_novel_text` cuts off, by the last window of one text and the first of the other. -/
def overlapCut (suffix head : Text) : Nat :=
  let exact := suffixPrefixLength suffix head
  let normalized := normaliseWhitespace 0 head
  let overlap := suffixPrefixLength ((normaliseWhitespace 0 suffix).map (·.1)) (normalized.map (·.1))
  let repeated := strip ((normalized.map (·.1)).take overlap)
  if overlap ≠ 0 ∧ 2 ≤ repeated.length then max exact ((normalized.map (·.2)).getD (overlap - 1) 0) else exact

theorem overlapCut_le (suffix head : Text) : overlapCut suffix head ≤ head.length := by
  have hexact := suffixPrefixLength_le suffix head
  unfold overlapCut
  dsimp only
  split
  · refine Nat.max_le.2 ⟨hexact, ?_⟩
    rw [List.getD_eq_getElem?_getD]
    generalize suffixPrefixLength _ _ - 1 = last
    cases hget : ((normaliseWhitespace 0 head).map (·.2))[last]? with
    | none => exact Nat.zero_le _
    | some n =>
      obtain ⟨p, hp, rfl⟩ := List.mem_map.1 (List.mem_of_getElem? hget)
      have hle := normaliseWhitespace_le head 0 p hp
      rwa [Nat.zero_add] at hle
  · exact hexact

theorem overlapCut_self (head : Text) : overlapCut head head = head.length := by
  refine Nat.le_antisymm (overlapCut_le head head) ?_
  have hself := suffixPrefixLength_self head
  unfold overlapCut
  dsimp only
  split
  · rw [hself]
    exact Nat.le_max_left ..
  · exact Nat.le_of_eq hself.symm

theorem novelText_eq {window : Nat} {existing continuation : Text} (hc : continuation ≠ []) (he : existing ≠ [])
    (hrepeat : ¬ continuation <:+ existing) : novelText window existing continuation =
      continuation.drop
        (overlapCut (existing.drop (existing.length - max 1 window)) (continuation.take (max 1 window))) := by
  unfold novelText
  rw [if_neg hc, if_neg he, if_neg (by simpa using hrepeat)]
  rfl

theorem novelText_repeat {window : Nat} {existing continuation : Text} (h : continuation <:+ existing) :
    novelText window existing continuation = [] := by
  unfold novelText
  by_cases hc : continuation = []
  · rw [if_pos hc]
  · have he : existing ≠ [] := by
      rintro rfl
      exact hc (List.suffix_nil.1 h)
    rw [if_neg hc, if_neg he, if_pos (by simpa using h)]

theorem novelText_window (window : Nat) (existing continuation : Text) :
    novelText (max 1 window) existing continuation = novelText window existing continuation := by
  have hmax : max 1 (max 1 window) = max 1 window := by omega
  simp only [novelText, hmax]

theorem cut_window {window : Nat} {existing head : Text} (hlen : head.length = window) (h : head <:+ existing) :
    overlapCut (existing.drop (existing.length - window)) head = window := by
  have hsuffix : existing.drop (existing.length - window) = head := by
    rw [← hlen]
    exact (List.suffix_iff_eq_drop.1 h).symm
  rw [hsuffix, overlapCut_self, hlen]

/-- **The first window decides**: a continuation that does not repeat the text as a whole is cut as its first window is. -/
theorem continuedText_eq {window : Nat} (hw : 0 < window) {existing continuation : Text}
    (hlong : window ≤ continuation.length) (hrepeat : ¬ continuation <:+ existing) :
    novelText window existing (continuation.take window) ++ continuation.drop window =
      novelText window existing continuation := by
  have hmax : max 1 window = window := by omega
  have hhead : continuation.take window ≠ [] := by
    rw [Ne, List.take_eq_nil_iff]
    rintro (h0 | rfl)
    · omega
    · exact hrepeat (List.nil_suffix)
  have hc : continuation ≠ [] := by
    rintro rfl
    exact hrepeat List.nil_suffix
  by_cases he : existing = []
  · subst he
    unfold novelText
    rw [if_neg hhead, if_neg hc, if_pos rfl, if_pos rfl, List.take_append_drop]
  · rw [novelText_eq hc he hrepeat, hmax]
    have hlen : (continuation.take window).length = window := by
      rw [List.length_take]
      omega
    by_cases hend : continuation.take window <:+ existing
    · rw [novelText_repeat hend, cut_window hlen hend, List.nil_append]
    · rw [novelText_eq hhead he hend, hmax, List.take_take, Nat.min_self]
      have hcut := overlapCut_le (existing.drop (existing.length - window)) (continuation.take window)
      rw [← List.drop_append_of_le_length hcut, List.take_append_drop]

/-- **The buffer lets through what the one-shot merge adds**, unless the continuation is longer than the window and
repeats the end of the text as a whole. -/
theorem stream_eq_novelText_iff (window : Nat) (existing : Text) (chunks : List Text) :
    ((ContinuationBuffer.open existing window).stream chunks).flatten = novelText window existing chunks.flatten ↔
      ¬ (max 1 window < chunks.flatten.length ∧ chunks.flatten <:+ existing) := by
  rw [stream_flatten, ← novelText_window window existing chunks.flatten]
  generalize hwindow : max 1 window = w
  have hw : 0 < w := by omega
  generalize chunks.flatten = continuation
  unfold continuedText
  by_cases hshort : continuation.length < w
  · rw [if_pos hshort]
    simp only [true_iff]
    rintro ⟨hlong, -⟩
    omega
  rw [if_neg hshort]
  by_cases hrepeat : continuation <:+ existing
  · rw [novelText_repeat hrepeat, List.append_eq_nil_iff, List.drop_eq_nil_iff]
    constructor
    · rintro ⟨-, hle⟩ ⟨hlong, -⟩
      omega
    · intro h
      have hle : continuation.length ≤ w := Nat.le_of_not_lt (fun hlong => h ⟨hlong, hrepeat⟩)
      rw [List.take_of_length_le hle]
      exact ⟨novelText_repeat hrepeat, hle⟩
  · rw [continuedText_eq hw (by omega) hrepeat]
    simp [hrepeat]

/-- A window of two characters: the repeat of three is let through from the third on. -/
theorem repeat_beyond_window :
    ((ContinuationBuffer.open ['a', 'b', 'c'] 2).stream [['a', 'b', 'c']]).flatten ≠
      novelText 2 ['a', 'b', 'c'] [['a', 'b', 'c']].flatten := by
  decide +kernel

end Chat
end MyGpt
