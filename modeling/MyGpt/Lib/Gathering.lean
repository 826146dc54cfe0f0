import Mathlib.Algebra.Order.Monoid.Unbundled.Basic
import Mathlib.Algebra.Order.Monoid.Defs
import Mathlib.Data.List.Count
import Mathlib.Data.List.Perm.Basic
/-!
# Gathering — one list made of the parts of several keys

The parts are put behind one another in the order of the keys.  That order is invisible exactly as long as at most one key
has anything to give (`flatMap_perm_of_sole`).  Otherwise a key moved from the front to the back takes its part behind the
rest (`flatMap_front`, `flatMap_back`): the head changes, every cut that drops something changes (`count_take_ne`), and so
does every sum of weights that fall with the rank (`rankSum_back_lt`).
-/
namespace Gathering

/-! ## keys and parts -/

section Parts

variable {κ α : Type*} [DecidableEq κ] (part : κ → List α)

/-- **At most one of the keys has a part.** -/
def Sole (keys : List κ) : Prop := ∀ a ∈ keys, ∀ b ∈ keys, part a ≠ [] → part b ≠ [] → a = b

theorem flatMap_eq_replicate {keys : List κ} {c : κ} (h : ∀ a ∈ keys, part a ≠ [] → a = c) :
    keys.flatMap part = (List.replicate (keys.count c) c).flatMap part := by
  induction keys with
  | nil => rfl
  | cons a keys ih =>
    have hrest := ih (fun b hb => h b (List.mem_cons_of_mem _ hb))
    rw [List.flatMap_cons, hrest]
    by_cases ha : a = c
    · subst ha
      rw [List.count_cons_self, List.replicate_succ, List.flatMap_cons]
    · have hempty : part a = [] := by
        by_contra hne
        exact ha (h a List.mem_cons_self hne)
      rw [List.count_cons_of_ne ha, hempty, List.nil_append]

theorem flatMap_perm_of_sole {keys keys' : List κ} (h : Sole part keys) (hp : keys'.Perm keys) :
    keys'.flatMap part = keys.flatMap part := by
  by_cases hsome : ∃ c ∈ keys, part c ≠ []
  · obtain ⟨c, hc, hne⟩ := hsome
    have honly : ∀ a ∈ keys, part a ≠ [] → a = c := fun a ha hpa => h a ha c hc hpa hne
    rw [flatMap_eq_replicate part honly, flatMap_eq_replicate part (fun a ha => honly a (hp.mem_iff.1 ha)), hp.count_eq]
  · have hnone : ∀ a ∈ keys, part a = [] := fun a ha => by
      by_contra hne
      exact hsome ⟨a, ha, hne⟩
    rw [List.flatMap_eq_nil_iff.2 hnone, List.flatMap_eq_nil_iff.2 (fun a ha => hnone a (hp.mem_iff.1 ha))]

/-- The keys with `c` in front, and with `c` at the back. -/
def front (c : κ) (keys : List κ) : List κ := keys.filter (· = c) ++ keys.filter (¬ · = c)
def back (c : κ) (keys : List κ) : List κ := keys.filter (¬ · = c) ++ keys.filter (· = c)

theorem front_perm (c : κ) (keys : List κ) : (front c keys).Perm keys := by
  simpa [front] using List.filter_append_perm (fun a => decide (a = c)) keys

theorem back_perm (c : κ) (keys : List κ) : (back c keys).Perm keys :=
  List.perm_append_comm.trans (front_perm c keys)

/-- What `c` gives, and what the other keys give. -/
def own (c : κ) (keys : List κ) : List α := (keys.filter (· = c)).flatMap part
def rest (c : κ) (keys : List κ) : List α := (keys.filter (¬ · = c)).flatMap part

theorem flatMap_front (c : κ) (keys : List κ) : (front c keys).flatMap part = own part c keys ++ rest part c keys := by
  rw [front, List.flatMap_append]
  rfl

theorem flatMap_back (c : κ) (keys : List κ) : (back c keys).flatMap part = rest part c keys ++ own part c keys := by
  rw [back, List.flatMap_append]
  rfl

theorem mem_own {c : κ} {keys : List κ} {x : α} : x ∈ own part c keys ↔ c ∈ keys ∧ x ∈ part c := by
  simp [own, List.mem_flatMap]

theorem mem_rest {c : κ} {keys : List κ} {x : α} : x ∈ rest part c keys ↔ ∃ a ∈ keys, a ≠ c ∧ x ∈ part a := by
  simp [rest, List.mem_flatMap, and_assoc]

/-- **Where two keys have a part, one of them has something to give and the others too.** -/
theorem exists_of_not_sole {keys : List κ} (h : ¬ Sole part keys) :
    ∃ c ∈ keys, part c ≠ [] ∧ rest part c keys ≠ [] := by
  unfold Sole at h
  push Not at h
  obtain ⟨a, ha, b, hb, hpa, hpb, hne⟩ := h
  refine ⟨a, ha, hpa, ?_⟩
  obtain ⟨y, hy⟩ := List.exists_mem_of_ne_nil _ hpb
  exact List.ne_nil_of_mem ((mem_rest part).2 ⟨b, hb, fun e => hne e.symm, hy⟩)

theorem own_ne_nil {c : κ} {keys : List κ} (hc : c ∈ keys) (h : part c ≠ []) : own part c keys ≠ [] := by
  obtain ⟨x, hx⟩ := List.exists_mem_of_ne_nil _ h
  exact List.ne_nil_of_mem ((mem_own part).2 ⟨hc, hx⟩)

end Parts

/-! ## cuts -/

section Cuts

variable {α : Type*} {p : α → Bool} {l m : List α}

theorem countP_take_append (hl : ∀ x ∈ l, p x = true) (hm : ∀ x ∈ m, p x = false) (n : Nat) :
    ((l ++ m).take n).countP p = min n l.length := by
  rw [List.take_append, List.countP_append, List.countP_eq_length.2 (fun x hx => hl x (List.mem_of_mem_take hx)),
    List.countP_eq_zero.2 (fun x hx => by simp [hm x (List.mem_of_mem_take hx)]), List.length_take, Nat.add_zero]

theorem countP_take_append_right (hl : ∀ x ∈ l, p x = true) (hm : ∀ x ∈ m, p x = false) (n : Nat) :
    ((m ++ l).take n).countP p = min (n - m.length) l.length := by
  rw [List.take_append, List.countP_append, List.countP_eq_zero.2 (fun x hx => by simp [hm x (List.mem_of_mem_take hx)]),
    List.countP_eq_length.2 (fun x hx => hl x (List.mem_of_mem_take hx)), List.length_take, Nat.zero_add]

/-- **A cut that keeps something and drops something keeps other amounts of a part in front and of a part at the back.** -/
theorem count_take_ne (hl : ∀ x ∈ l, p x = true) (hm : ∀ x ∈ m, p x = false) (hne : l ≠ []) (hne' : m ≠ []) {n : Nat}
    (hpos : 0 < n) (hcut : n < l.length + m.length) : ((l ++ m).take n).countP p ≠ ((m ++ l).take n).countP p := by
  rw [countP_take_append hl hm, countP_take_append_right hl hm]
  have h1 := List.length_pos_iff.2 hne
  have h2 := List.length_pos_iff.2 hne'
  omega

theorem head_take_ne (hl : ∀ x ∈ l, p x = true) (hm : ∀ x ∈ m, p x = false) (hne : l ≠ []) (hne' : m ≠ []) {n : Nat}
    (hpos : 0 < n) : (l ++ m).take n ≠ (m ++ l).take n := by
  obtain ⟨x, l', rfl⟩ := List.exists_cons_of_ne_nil hne
  obtain ⟨y, m', rfl⟩ := List.exists_cons_of_ne_nil hne'
  obtain ⟨n, rfl⟩ := Nat.exists_eq_add_of_lt hpos
  intro h
  simp only [List.cons_append, Nat.zero_add, List.take_succ_cons, List.cons.injEq] at h
  have hx := hl x List.mem_cons_self
  rw [h.1, hm y List.mem_cons_self] at hx
  cases hx

end Cuts

/-! ## ranks -/

section Ranks

variable {α R : Type*} [DecidableEq α] [AddCommMonoid R] (w : Nat → R)

/-- What the places of `x` in a list weigh, the first place having the given rank. -/
def rankSum (x : α) : Nat → List α → R
  | _, [] => 0
  | rank, y :: l => (if y = x then w rank else 0) + rankSum x (rank + 1) l

theorem rankSum_append (x : α) (l m : List α) (rank : Nat) :
    rankSum w x rank (l ++ m) = rankSum w x rank l + rankSum w x (rank + l.length) m := by
  induction l generalizing rank with
  | nil => simp [rankSum]
  | cons y l ih =>
    have hrank : rank + (y :: l).length = rank + 1 + l.length := by rw [List.length_cons, Nat.add_right_comm, Nat.add_assoc]
    rw [List.cons_append, rankSum, rankSum, ih, hrank]
    exact (add_assoc _ _ _).symm

theorem rankSum_of_not_mem {x : α} {l : List α} (h : x ∉ l) (rank : Nat) : rankSum w x rank l = 0 := by
  induction l generalizing rank with
  | nil => rfl
  | cons y l ih =>
    rw [rankSum, ih (fun hx => h (List.mem_cons_of_mem _ hx)), if_neg (fun e : y = x => h (e ▸ List.mem_cons_self)), add_zero]

variable [PartialOrder R] [IsOrderedCancelAddMonoid R] {w}

theorem rankSum_anti (hw : ∀ m n, 0 < m → m < n → w n < w m) (x : α) (l : List α) {a b : Nat} (ha : 0 < a) (hab : a ≤ b) :
    rankSum w x b l ≤ rankSum w x a l := by
  induction l generalizing a b with
  | nil => exact le_refl _
  | cons y l ih =>
    refine add_le_add ?_ (ih (Nat.succ_pos a) (Nat.succ_le_succ hab))
    split
    · rcases Nat.eq_or_lt_of_le hab with rfl | hlt
      · exact le_refl _
      · exact (hw a b ha hlt).le
    · exact le_refl _

theorem rankSum_lt (hw : ∀ m n, 0 < m → m < n → w n < w m) {x : α} {l : List α} (hx : x ∈ l) {a b : Nat} (ha : 0 < a)
    (hab : a < b) : rankSum w x b l < rankSum w x a l := by
  induction l generalizing a b with
  | nil => cases hx
  | cons y l ih =>
    by_cases hy : y = x
    · rw [rankSum, rankSum, if_pos hy, if_pos hy]
      exact add_lt_add_of_lt_of_le (hw a b ha hab) (rankSum_anti hw x l (Nat.succ_pos a) (Nat.succ_le_succ hab.le))
    · rw [rankSum, rankSum, if_neg hy, if_neg hy, zero_add, zero_add]
      exact ih ((List.mem_cons.1 hx).resolve_left (fun e => hy e.symm)) (Nat.succ_pos a) (Nat.succ_lt_succ hab)

theorem rankSum_back_le (hw : ∀ m n, 0 < m → m < n → w n < w m) {x : α} (l : List α) {m : List α} (hx : x ∉ m) :
    rankSum w x 1 (m ++ l) ≤ rankSum w x 1 (l ++ m) := by
  rw [rankSum_append, rankSum_append, rankSum_of_not_mem w hx, rankSum_of_not_mem w hx, zero_add, add_zero]
  exact rankSum_anti hw x l Nat.one_pos (Nat.le_add_right 1 _)

theorem rankSum_back_lt (hw : ∀ m n, 0 < m → m < n → w n < w m) {x : α} {l m : List α} (hx : x ∈ l) (hx' : x ∉ m)
    (hne : m ≠ []) : rankSum w x 1 (m ++ l) < rankSum w x 1 (l ++ m) := by
  rw [rankSum_append, rankSum_append, rankSum_of_not_mem w hx', rankSum_of_not_mem w hx', zero_add, add_zero]
  exact rankSum_lt hw hx Nat.one_pos (Nat.lt_add_of_pos_right (List.length_pos_iff.2 hne))

end Ranks

end Gathering
