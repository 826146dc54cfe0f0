import Mathlib.Data.List.Basic
import Mathlib.Data.List.Nodup
/-!
# Pairing — openings and closings in a list

Entries of a list open and close keys.  A closing belongs to the last entry before it that opens its key (`Pair`); in a list
without repetitions there is one such entry (`Pair.unique`).
-/
namespace Pairing

variable {α κ : Type _} (opens closes : α → κ → Prop)

/-- `r` closes what `c` opened: nothing in between opens the key again. -/
def Pair (l : List α) (c r : α) (x : κ) : Prop :=
  ∃ before between after, l = before ++ c :: (between ++ r :: after) ∧ opens c x ∧ closes r x ∧ ∀ m ∈ between, ¬ opens m x

def Opened (l : List α) : Prop :=
  ∀ before r after x, l = before ++ r :: after → closes r x → ∃ c ∈ before, opens c x

variable {opens closes}

theorem Pair.left {l : List α} {c r : α} {x : κ} (h : Pair opens closes l c r x) : opens c x := by
  obtain ⟨_, _, _, _, hopens, _⟩ := h
  exact hopens

theorem Pair.right {l : List α} {c r : α} {x : κ} (h : Pair opens closes l c r x) : closes r x := by
  obtain ⟨_, _, _, _, _, hcloses, _⟩ := h
  exact hcloses

theorem exists_last {p : α → Prop} : ∀ {l : List α}, (∃ c ∈ l, p c) →
    ∃ before c after, l = before ++ c :: after ∧ p c ∧ ∀ m ∈ after, ¬ p m
  | [], h => by
    obtain ⟨c, hc, -⟩ := h
    cases hc
  | a :: l, h => by
    by_cases hlater : ∃ c ∈ l, p c
    · obtain ⟨before, c, after, rfl, hc, hafter⟩ := exists_last hlater
      exact ⟨a :: before, c, after, rfl, hc, hafter⟩
    · obtain ⟨c, hc, hp⟩ := h
      rcases List.mem_cons.1 hc with rfl | hc
      · refine ⟨[], c, l, rfl, hp, ?_⟩
        intro m hm hpm
        exact hlater ⟨m, hm, hpm⟩
      · exact absurd ⟨c, hc, hp⟩ hlater

theorem last_unique {p : α → Prop} : ∀ {before before' : List α} {c c' : α} {after after' : List α},
    before ++ c :: after = before' ++ c' :: after' → p c → p c' → (∀ m ∈ after, ¬ p m) → (∀ m ∈ after', ¬ p m) → c = c'
  | [], [], _, _, _, _, h, _, _, _, _ => (List.cons.inj h).1
  | [], _ :: before', _, c', _, after', h, _, hc', hafter, _ => by
    obtain ⟨-, rfl⟩ := List.cons.inj h
    exact absurd hc' (hafter c' (by simp))
  | _ :: before, [], c, _, after, _, h, hc, _, _, hafter' => by
    obtain ⟨-, rfl⟩ := List.cons.inj h
    exact absurd hc (hafter' c (by simp))
  | _ :: _, _ :: _, _, _, _, _, h, hc, hc', hafter, hafter' => last_unique (List.cons.inj h).2 hc hc' hafter hafter'

theorem Opened.exists_pair {l : List α} (h : Opened opens closes l) {r : α} {x : κ} (hr : r ∈ l) (hx : closes r x) :
    ∃ c, Pair opens closes l c r x := by
  obtain ⟨before, after, rfl⟩ := List.append_of_mem hr
  obtain ⟨before', c, between, rfl, hc, hbetween⟩ := exists_last (h before r after x rfl hx)
  exact ⟨c, before', between, after, by simp, hc, hx, hbetween⟩

theorem Pair.unique {l : List α} (hnodup : l.Nodup) {c c' r : α} {x : κ} (h : Pair opens closes l c r x)
    (h' : Pair opens closes l c' r x) : c = c' := by
  obtain ⟨before, between, after, rfl, hc, -, hbetween⟩ := h
  obtain ⟨before', between', after', heq, hc', -, hbetween'⟩ := h'
  have hsplit : (before ++ c :: between) ++ r :: after = (before' ++ c' :: between') ++ r :: after' := by
    simpa using heq
  have hrepeat : ((before ++ c :: between) ++ r :: after).Nodup := by simpa using hnodup
  have hfront : r ∉ before ++ c :: between := by
    intro hmem
    exact (List.nodup_append.1 hrepeat).2.2 r hmem r List.mem_cons_self rfl
  have hback : r ∉ after := (List.nodup_cons.1 (List.nodup_append.1 hrepeat).2.1).1
  have hsame := ((List.append_cons_inj_of_notMem hfront hback).1 hsplit).1
  exact last_unique hsame hc hc' hbetween hbetween'

theorem Pair.sublist {l : List α} {c r : α} {x : κ} (h : Pair opens closes l c r x) : List.Sublist [c, r] l := by
  obtain ⟨before, between, after, rfl, -⟩ := h
  apply List.Sublist.trans _ (List.sublist_append_right before _)
  apply List.Sublist.cons_cons
  exact List.singleton_sublist.2 (by simp)

theorem sublist_halves {head body : List α} {c r : α} (h : List.Sublist [c, r] (head ++ body)) :
    List.Sublist [c, r] head ∨ (c ∈ head ∧ r ∈ body) ∨ List.Sublist [c, r] body := by
  obtain ⟨l, l', hsplit, hl, hl'⟩ := List.sublist_append_iff.1 h
  cases l with
  | nil => exact .inr (.inr (hsplit ▸ hl'))
  | cons a l =>
    obtain ⟨rfl, hrest⟩ := List.cons.inj hsplit
    cases l with
    | nil =>
      refine .inr (.inl ⟨List.singleton_sublist.1 hl, List.singleton_sublist.1 ?_⟩)
      rw [hrest]
      exact hl'
    | cons b l =>
      obtain ⟨rfl, hnil⟩ := List.cons.inj hrest
      obtain ⟨rfl, -⟩ := List.append_eq_nil_iff.1 hnil.symm
      exact .inl hl

theorem sublist_filter {head body : List α} (hnodup : (head ++ body).Nodup) {c r : α} (h : List.Sublist [c, r] (head ++ body))
    (p : α → Bool) (hc : c ∈ head ++ body.filter p) (hr : r ∈ head ++ body.filter p) :
    List.Sublist [c, r] (head ++ body.filter p) := by
  have happart : ∀ m ∈ body, m ∈ head ++ body.filter p → p m = true := by
    intro m hm hkept
    rcases List.mem_append.1 hkept with hhead | htail
    · exact absurd rfl ((List.nodup_append.1 hnodup).2.2 m hhead m hm)
    · exact (List.mem_filter.1 htail).2
  rcases sublist_halves h with hhead | ⟨hchead, hrbody⟩ | hbody
  · exact hhead.trans (List.sublist_append_left _ _)
  · have hrtail : r ∈ body.filter p := List.mem_filter.2 ⟨hrbody, happart r hrbody hr⟩
    exact (List.singleton_sublist.2 hchead).append (List.singleton_sublist.2 hrtail)
  · have hcp := happart c (hbody.subset (by simp)) hc
    have hrp := happart r (hbody.subset (by simp)) hr
    have hfilter := hbody.filter p
    simp only [List.filter_cons, hcp, hrp, if_true, List.filter_nil] at hfilter
    exact hfilter.trans (List.sublist_append_right _ _)

end Pairing
