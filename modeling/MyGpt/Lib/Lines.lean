import MyGpt.Lib.Joins
/-!
# Lines — cutting a text at all the line boundaries that there are

`splitlines` as Python has it: more characters than `\n` end a line, `\r\n` is one boundary, and nothing stands behind a last
boundary.  When lines are joined by `\n` and cut again, they stand where they stood exactly when none has a boundary in it
(`splitlines_places`).
-/
namespace Lines

open Joins (offset offset_zero offset_nil offset_cons_succ offset_lt offset_le)

def isLineBoundary (c : Char) : Bool :=
  let n := c.toNat
  (10 ≤ n && n ≤ 13) || (0x1c ≤ n && n ≤ 0x1e) || n == 0x85 || n == 0x2028 || n == 0x2029

def consHead (c : Char) : List (List Char) → List (List Char)
  | [] => [[c]]
  | l :: ls => (c :: l) :: ls

def splitlines : List Char → List (List Char)
  | [] => []
  | [c] => if isLineBoundary c then [[]] else [[c]]
  | c :: d :: t =>
    if c = '\r' ∧ d = '\n' then [] :: splitlines t
    else if isLineBoundary c then [] :: splitlines (d :: t)
    else consHead c (splitlines (d :: t))

example : splitlines "a\r\nb\n\nc\n".toList = ["a".toList, "b".toList, [], "c".toList] := by decide

def Free (l : List Char) : Prop := ∀ c ∈ l, isLineBoundary c = false

theorem splitlines_crlf (t : List Char) : splitlines ('\r' :: '\n' :: t) = [] :: splitlines t := by simp [splitlines]

theorem splitlines_boundary {c : Char} {t : List Char} (hc : isLineBoundary c = true)
    (hcrlf : ¬ (c = '\r' ∧ t.head? = some '\n')) : splitlines (c :: t) = [] :: splitlines t := by
  cases t with
  | nil => simp [splitlines, hc]
  | cons d t =>
    have hnot : ¬ (c = '\r' ∧ d = '\n') := by simpa using hcrlf
    simp [splitlines, hc, hnot]

theorem splitlines_cons {c : Char} (t : List Char) (hc : isLineBoundary c = false) :
    splitlines (c :: t) = consHead c (splitlines t) := by
  cases t with
  | nil => simp [splitlines, hc, consHead]
  | cons d t =>
    have hnot : ¬ (c = '\r' ∧ d = '\n') := by
      rintro ⟨rfl, -⟩
      revert hc
      decide
    simp [splitlines, hc, hnot]

theorem splitlines_eq_nil {t : List Char} : splitlines t = [] ↔ t = [] := by
  constructor
  · intro h
    cases t with
    | nil => rfl
    | cons c t =>
      exfalso
      by_cases hc : isLineBoundary c = true
      · by_cases hcrlf : c = '\r' ∧ t.head? = some '\n'
        · obtain ⟨rfl, hd⟩ := hcrlf
          obtain ⟨rest, rfl⟩ := List.head?_eq_some_iff.1 hd
          rw [splitlines_crlf] at h
          cases h
        · rw [splitlines_boundary hc hcrlf] at h
          cases h
      · rw [splitlines_cons t (Bool.eq_false_iff.2 hc)] at h
        cases hsplit : splitlines t <;> simp [hsplit, consHead] at h
  · rintro rfl
    rfl

theorem offset_consHead {c : Char} {ls : List (List Char)} (h : ls ≠ []) (m : Nat) :
    offset 1 (consHead c ls) (m + 1) = 1 + offset 1 ls (m + 1) := by
  cases ls with
  | nil => exact absurd rfl h
  | cons l ls =>
    simp [consHead]
    omega

/-! ## lines joined by `\n` -/

/-- The text of some lines. -/
abbrev unlines (ls : List (List Char)) : List Char := ['\n'].intercalate ls

theorem unlines_nil_cons {ls : List (List Char)} (h : ls ≠ []) : unlines ([] :: ls) = '\n' :: unlines ls := by
  simp [unlines, List.intercalate_cons_of_ne_nil h]

theorem unlines_cons (c : Char) (l : List Char) (ls : List (List Char)) :
    unlines ((c :: l) :: ls) = c :: unlines (l :: ls) := by
  simp [unlines, List.intercalate_cons_cons_left]

def size (ls : List (List Char)) : Nat := (ls.map (fun l => l.length + 1)).sum

@[simp] theorem size_cons (l : List Char) (ls : List (List Char)) : size (l :: ls) = l.length + 1 + size ls := by simp [size]

/-- **How a text of lines is cut**: at the end of its first line, within that line, or in both at once. -/
theorem unlines_cases {P : List (List Char) → Prop} (hnil : P []) (hlast : P [[]])
    (hend : ∀ ls, ls ≠ [] → P ls → P ([] :: ls))
    (hcons : ∀ c l ls, isLineBoundary c = false → P (l :: ls) → P ((c :: l) :: ls))
    (hbreak : ∀ c l ls, isLineBoundary c = true → ¬ (c = '\r' ∧ (unlines (l :: ls)).head? = some '\n') → P (l :: ls) →
      P ((c :: l) :: ls))
    (hcrlf : ∀ l ls, P (l :: ls) → P (('\r' :: '\n' :: l) :: ls))
    (hmerge : ∀ ls, ls ≠ [] → P ls → P (['\r'] :: ls)) (ls : List (List Char)) : P ls := by
  induction hn : size ls using Nat.strongRecOn generalizing ls with
  | _ n ih =>
    subst hn
    match ls with
    | [] => exact hnil
    | [] :: rest =>
      by_cases hrest : rest = []
      · subst hrest
        exact hlast
      · exact hend rest hrest (ih _ (by simp) rest rfl)
    | (c :: l) :: rest =>
      have hless : P (l :: rest) := ih _ (by simp) (l :: rest) rfl
      by_cases hc : isLineBoundary c = true
      · by_cases hcrlf : c = '\r' ∧ (unlines (l :: rest)).head? = some '\n'
        · obtain ⟨rfl, hd⟩ := hcrlf
          match l with
          | [] =>
            by_cases hrest : rest = []
            · subst hrest
              simp [unlines] at hd
            · exact hmerge rest hrest (ih _ (by simp) rest rfl)
          | d :: l =>
            rw [unlines_cons] at hd
            cases hd
            exact hcrlf l rest (ih _ (by simp) (l :: rest) rfl)
        · exact hbreak c l rest hc hcrlf hless
      · exact hcons c l rest (Bool.eq_false_iff.2 hc) hless

theorem splitlines_merge {ls : List (List Char)} (h : ls ≠ []) :
    splitlines (unlines (['\r'] :: ls)) = [] :: splitlines (unlines ls) := by
  rw [unlines_cons, unlines_nil_cons h, splitlines_crlf]

theorem splitlines_end {ls : List (List Char)} (h : ls ≠ []) :
    splitlines (unlines ([] :: ls)) = [] :: splitlines (unlines ls) := by
  rw [unlines_nil_cons h]
  exact splitlines_boundary (by decide) (by simp)

theorem unlines_eq_nil {l : List Char} {ls : List (List Char)} (h : unlines (l :: ls) = []) : l = [] ∧ ls = [] := by
  cases l with
  | cons c l =>
    rw [unlines_cons] at h
    cases h
  | nil =>
    refine ⟨rfl, ?_⟩
    by_contra hls
    rw [unlines_nil_cons hls] at h
    cases h

theorem splitlines_prefix {ls : List (List Char)} (h : ∀ l ∈ ls, Free l) : splitlines (unlines ls) <+: ls := by
  induction ls using unlines_cases with
  | hnil | hlast => simp [unlines, splitlines]
  | hend ls hls ih =>
    rw [splitlines_end hls, List.cons_prefix_cons]
    exact ⟨rfl, ih (fun l hl => h l (List.mem_cons_of_mem _ hl))⟩
  | hcons c l ls hc ih =>
    have hfree : ∀ l' ∈ l :: ls, Free l' := by
      intro l' hl'
      rcases List.mem_cons.1 hl' with rfl | hin
      · exact fun d hd => h _ List.mem_cons_self d (List.mem_cons_of_mem _ hd)
      · exact h l' (List.mem_cons_of_mem _ hin)
    have hprefix := ih hfree
    rw [unlines_cons, splitlines_cons _ hc]
    cases hsplit : splitlines (unlines (l :: ls)) with
    | nil =>
      obtain ⟨rfl, rfl⟩ := unlines_eq_nil (splitlines_eq_nil.1 hsplit)
      simp [consHead]
    | cons first rest =>
      rw [hsplit, List.cons_prefix_cons] at hprefix
      obtain ⟨rfl, hrest⟩ := hprefix
      simpa [consHead] using hrest
  | hbreak c l ls hc =>
    have hfree := h (c :: l) List.mem_cons_self c List.mem_cons_self
    rw [hc] at hfree
    cases hfree
  | hcrlf l ls =>
    exact absurd (h _ List.mem_cons_self '\r' List.mem_cons_self) (by decide)
  | hmerge ls =>
    exact absurd (h ['\r'] List.mem_cons_self '\r' List.mem_cons_self) (by decide)

theorem lt_length_splitlines {ls : List (List Char)} {j : Nat} {l : List Char} (hl : ls[j]? = some l)
    (hlast : j + 1 < ls.length ∨ l ≠ []) : j < (splitlines (unlines ls)).length := by
  induction ls using unlines_cases generalizing j with
  | hnil => simp at hl
  | hlast =>
    cases j with
    | zero => simp_all
    | succ j => simp at hl
  | hend ls hls ih =>
    rw [splitlines_end hls]
    cases j with
    | zero => simp
    | succ j =>
      have hlt := ih (by simpa using hl) (by simpa using hlast)
      simpa using hlt
  | hcons c l' ls hc ih =>
    rw [unlines_cons, splitlines_cons _ hc]
    have hlength : (consHead c (splitlines (unlines (l' :: ls)))).length = max 1 (splitlines (unlines (l' :: ls))).length := by
      cases splitlines (unlines (l' :: ls)) <;> simp [consHead]
    rw [hlength]
    cases j with
    | zero => omega
    | succ j =>
      have hlt := ih (j := j + 1) (by simpa using hl) (by simpa using hlast)
      omega
  | hbreak c l' ls hc hcrlf ih =>
    rw [unlines_cons, splitlines_boundary hc hcrlf]
    cases j with
    | zero => simp
    | succ j =>
      have hlt := ih (j := j + 1) (by simpa using hl) (by simpa using hlast)
      simp
      omega
  | hcrlf l' ls ih =>
    rw [unlines_cons, unlines_cons, splitlines_crlf]
    cases j with
    | zero => simp
    | succ j =>
      have hlt := ih (j := j + 1) (by simpa using hl) (by simpa using hlast)
      simp
      omega
  | hmerge ls hls ih =>
    rw [splitlines_merge hls]
    cases j with
    | zero => simp
    | succ j =>
      have hlt := ih (by simpa using hl) (by simpa using hlast)
      simpa using hlt

theorem offset_splitlines {ls : List (List Char)} {m : Nat} (hm : m ≤ ls.length) :
    offset 1 (splitlines (unlines ls)) m ≤ offset 1 ls m ∧
      ((∃ j l, j < m ∧ ls[j]? = some l ∧ ¬ Free l) → offset 1 (splitlines (unlines ls)) m < offset 1 ls m) := by
  induction ls using unlines_cases generalizing m with
  | hnil =>
    obtain rfl : m = 0 := by simpa using hm
    simp
  | hlast =>
    refine ⟨by simp [unlines, splitlines], ?_⟩
    rintro ⟨j, l, hj, hl, hnot⟩
    obtain rfl : j = 0 := by
      simp at hm
      omega
    obtain rfl : [] = l := by simpa using hl
    exact absurd (fun c hc => nomatch hc) hnot
  | hend ls hls ih =>
    rw [splitlines_end hls]
    cases m with
    | zero => simp
    | succ m =>
      obtain ⟨hle, hlt⟩ := ih (m := m) (by simpa using hm)
      simp only [offset_cons_succ]
      refine ⟨by omega, ?_⟩
      rintro ⟨j, l, hj, hl, hnot⟩
      cases j with
      | zero =>
        obtain rfl : [] = l := by simpa using hl
        exact absurd (fun c hc => nomatch hc) hnot
      | succ j =>
        have hbelow := hlt ⟨j, l, by omega, by simpa using hl, hnot⟩
        omega
  | hcons c l ls hc ih =>
    rw [unlines_cons, splitlines_cons _ hc]
    cases m with
    | zero => simp
    | succ m =>
      by_cases hempty : splitlines (unlines (l :: ls)) = []
      · obtain ⟨rfl, rfl⟩ := unlines_eq_nil (splitlines_eq_nil.1 hempty)
        obtain rfl : m = 0 := by simpa using hm
        rw [hempty]
        refine ⟨by simp [consHead], ?_⟩
        rintro ⟨j, l, hj, hl, hnot⟩
        obtain rfl : j = 0 := by omega
        obtain rfl : [c] = l := by simpa using hl
        refine absurd (fun d hd => ?_) hnot
        rwa [List.mem_singleton.1 hd]
      · obtain ⟨hle, hlt⟩ := ih (m := m + 1) (by simpa using hm)
        rw [offset_consHead hempty]
        simp only [offset_cons_succ, List.length_cons] at hle hlt ⊢
        refine ⟨by omega, ?_⟩
        rintro ⟨j, l', hj, hl', hnot⟩
        have hbelow : ∃ j l', j < m + 1 ∧ (l :: ls)[j]? = some l' ∧ ¬ Free l' := by
          cases j with
          | zero =>
            obtain rfl : c :: l = l' := by simpa using hl'
            refine ⟨0, l, hj, rfl, fun hfree => hnot (fun d hd => ?_)⟩
            rcases List.mem_cons.1 hd with rfl | hin
            · exact hc
            · exact hfree d hin
          | succ j => exact ⟨j + 1, l', hj, by simpa using hl', hnot⟩
        have := hlt hbelow
        omega
  | hbreak c l ls hc hcrlf ih =>
    rw [unlines_cons, splitlines_boundary hc hcrlf]
    cases m with
    | zero => simp
    | succ m =>
      have hle := (ih (m := m) (by simp at hm ⊢; omega)).1
      have hless := offset_lt Nat.one_pos (l :: ls) (Nat.lt_succ_self m) (by simpa using hm)
      simp only [Nat.succ_eq_add_one, offset_cons_succ, List.length_cons, List.length_nil] at hless ⊢
      exact ⟨by omega, fun _ => by omega⟩
  | hcrlf l ls ih =>
    rw [unlines_cons, unlines_cons, splitlines_crlf]
    cases m with
    | zero => simp
    | succ m =>
      have hle := (ih (m := m) (by simp at hm ⊢; omega)).1
      have hless := offset_lt Nat.one_pos (l :: ls) (Nat.lt_succ_self m) (by simpa using hm)
      simp only [Nat.succ_eq_add_one, offset_cons_succ, List.length_cons, List.length_nil] at hless ⊢
      exact ⟨by omega, fun _ => by omega⟩
  | hmerge ls hls ih =>
    rw [splitlines_merge hls]
    cases m with
    | zero => simp
    | succ m =>
      have hle := (ih (m := m) (by simpa using hm)).1
      simp only [offset_cons_succ, List.length_cons, List.length_nil]
      exact ⟨by omega, fun _ => by omega⟩

theorem splitlines_places (ls : List (List Char)) (h : Nat) :
    (∀ i l, h ≤ i → (splitlines (unlines ls))[i]? = some l →
      ∃ l', ls[i]? = some l' ∧ offset 1 (splitlines (unlines ls)) i = offset 1 ls i ∧ l.length = l'.length) ↔
      (splitlines (unlines ls)).length ≤ h ∨ ∀ l ∈ ls, Free l := by
  constructor
  · intro hplaced
    by_contra hnot
    rw [not_or] at hnot
    obtain ⟨hlong, hbroken⟩ := hnot
    push Not at hbroken
    obtain ⟨l, hl, hnot⟩ := hbroken
    obtain ⟨j, hj⟩ := List.mem_iff_getElem?.1 hl
    have hnonempty : l ≠ [] := by
      rintro rfl
      exact hnot (fun c hc => nomatch hc)
    have hjlt := lt_length_splitlines hj (.inr hnonempty)
    -- the line `h`, or the one with the boundary if that comes later
    have hk : max j h < (splitlines (unlines ls)).length := by omega
    obtain ⟨l', hl', hoffset, hlength⟩ := hplaced (max j h) _ (by omega) (List.getElem?_eq_getElem hk)
    have hbound := (List.getElem?_eq_some_iff.1 hl').1
    have hless := (offset_splitlines (m := max j h + 1) (by omega)).2 ⟨j, l, by omega, hj, hnot⟩
    rw [Joins.offset_succ hl', Joins.offset_succ (List.getElem?_eq_getElem hk)] at hless
    omega
  · rintro (hshort | hfree) i l hi hl
    · have hbound := (List.getElem?_eq_some_iff.1 hl).1
      omega
    · have hprefix := splitlines_prefix hfree
      have hbound := (List.getElem?_eq_some_iff.1 hl).1
      have hsame : ls[i]? = some l := by
        obtain ⟨rest, hrest⟩ := hprefix
        rw [← hrest, List.getElem?_append_left hbound]
        exact hl
      exact ⟨l, hsame, Joins.offset_prefix hprefix (Nat.le_of_lt hbound), rfl⟩

end Lines
