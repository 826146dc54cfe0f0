import Mathlib.Algebra.BigOperators.Group.List.Basic
import Mathlib.Algebra.GroupWithZero.Nat
/-!
# Tally — sums over a list of keyed entries

When the keys of a list are distinct, changing what one key maps to changes one summand (`sum_update`), and replacing or
removing the entry of a key changes a count by that entry (`countP_replace`, `countP_remove`).
-/
namespace Tally

variable {ι κ β : Type _} [DecidableEq κ] {key : ι → κ}

theorem sum_congr_update {l : List ι} {k : κ} (hk : k ∉ l.map key) (f : ι → β → Nat) (g : κ → β) (b : β) :
    (l.map (fun j => f j (Function.update g k b (key j)))).sum = (l.map (fun j => f j (g (key j)))).sum := by
  congr 1
  refine List.map_congr_left (fun j hj => ?_)
  have hne : key j ≠ k := fun heq => hk (heq ▸ List.mem_map_of_mem hj)
  rw [Function.update_of_ne hne]

theorem sum_update (key : ι → κ) {l : List ι} (hd : (l.map key).Nodup) {i : ι} (hi : i ∈ l) (f : ι → β → Nat) (g : κ → β) (b : β) :
    (l.map (fun j => f j (Function.update g (key i) b (key j)))).sum + f i (g (key i)) =
      (l.map (fun j => f j (g (key j)))).sum + f i b := by
  induction l with
  | nil => cases hi
  | cons j l ih =>
    simp only [List.map_cons, List.nodup_cons] at hd
    simp only [List.map_cons, List.sum_cons]
    rcases List.mem_cons.1 hi with rfl | hi
    · have hrest := sum_congr_update hd.1 f g b
      rw [Function.update_self, hrest]
      omega
    · have hne : key j ≠ key i := fun heq => hd.1 (heq ▸ List.mem_map_of_mem hi)
      have hrest := ih hd.2 hi
      rw [Function.update_of_ne hne]
      omega

theorem countP_congr_replace {l : List ι} {k : κ} (hk : k ∉ l.map key) (p : ι → Bool) (i' : ι) :
    (l.map (fun j => if key j = k then i' else j)).countP p = l.countP p := by
  have hsame : l.map (fun j => if key j = k then i' else j) = l.map id := by
    refine List.map_congr_left (fun j hj => ?_)
    exact if_neg (fun heq : key j = k => hk (heq ▸ List.mem_map_of_mem hj))
  rw [hsame, List.map_id]

theorem countP_replace (key : ι → κ) {l : List ι} (hd : (l.map key).Nodup) {i : ι} (hi : i ∈ l) (p : ι → Bool) (i' : ι) :
    (l.map (fun j => if key j = key i then i' else j)).countP p + (p i).toNat = l.countP p + (p i').toNat := by
  induction l with
  | nil => cases hi
  | cons j l ih =>
    simp only [List.map_cons, List.nodup_cons] at hd
    rw [List.map_cons, List.countP_cons, List.countP_cons]
    rcases List.mem_cons.1 hi with rfl | hi
    · rw [if_pos rfl, countP_congr_replace hd.1 p i']
      cases p i <;> cases p i' <;> simp
    · have hne : key j ≠ key i := fun heq => hd.1 (heq ▸ List.mem_map_of_mem hi)
      have hrest := ih hd.2 hi
      rw [if_neg hne]
      omega

theorem countP_remove (key : ι → κ) {l : List ι} (hd : (l.map key).Nodup) {i : ι} (hi : i ∈ l) (p : ι → Bool) :
    (l.filter (fun j => key j ≠ key i)).countP p + (p i).toNat = l.countP p := by
  induction l with
  | nil => cases hi
  | cons j l ih =>
    simp only [List.map_cons, List.nodup_cons] at hd
    rcases List.mem_cons.1 hi with rfl | hi
    · have hrest : l.filter (fun j => key j ≠ key i) = l := by
        refine List.filter_eq_self.2 (fun j hj => ?_)
        exact decide_eq_true (fun heq => hd.1 (heq ▸ List.mem_map_of_mem hj))
      rw [List.filter_cons_of_neg (by simp), hrest, List.countP_cons]
      cases p i <;> simp
    · have hne : key j ≠ key i := fun heq => hd.1 (heq ▸ List.mem_map_of_mem hi)
      have hrest := ih hd.2 hi
      rw [List.filter_cons_of_pos (by simpa using hne), List.countP_cons, List.countP_cons]
      omega

theorem sum_toNat (l : List ι) (p : ι → Bool) : (l.map (fun j => (p j).toNat)).sum = (l.filter p).length := by
  induction l with
  | nil => rfl
  | cons j l ih =>
    cases hp : p j with
    | true => simp [hp, ih]; omega
    | false => simp [hp, ih]

end Tally
