import Mathlib.Algebra.BigOperators.Group.Finset.Piecewise
import Mathlib.Tactic.Abel
/-!
# Meter — logs of deltas and of snapshots

An entry of a log is a delta, or a snapshot of a source whose meter counts on by itself.  A log stands for its deltas and the
latest snapshot of each source (`total`); an entry adds its `charge`, a snapshot what it is above the one before it
(`total_concat`).
-/
namespace Meter

variable {α K G : Type*} [DecidableEq K] [AddCommGroup G] (key : α → Option K) (amount : α → G)

def latest (log : List α) (k : K) : Option α := (log.filter (fun e => key e = some k)).getLast?

def reading (log : List α) (k : K) : G := ((latest key log k).map amount).getD 0

def deltas (log : List α) : G := ((log.filter (fun e => key e = none)).map amount).sum

def snapshots (log : List α) : G := ∑ k ∈ (log.filterMap key).toFinset, reading key amount log k

def total (log : List α) : G := deltas key amount log + snapshots key amount log

def charge (log : List α) (e : α) : G :=
  match key e with
  | none => amount e
  | some k => amount e - reading key amount log k

variable {key amount} {log : List α} {e : α} {k : K}

omit [AddCommGroup G] in
theorem latest_concat (log : List α) (e : α) (k : K) :
    latest key (log ++ [e]) k = if key e = some k then some e else latest key log k := by
  unfold latest
  rw [List.filter_append]
  split
  · rename_i he
    rw [List.filter_singleton, decide_eq_true he]
    simp
  · rename_i he
    rw [List.filter_singleton, decide_eq_false he]
    simp

omit [AddCommGroup G] in
theorem latest_eq_none (h : k ∉ log.filterMap key) : latest key log k = none := by
  unfold latest
  rw [List.getLast?_eq_none_iff, List.filter_eq_nil_iff]
  intro e he hkey
  exact h (List.mem_filterMap.2 ⟨e, he, of_decide_eq_true hkey⟩)

theorem reading_concat (log : List α) (he : key e = some k) :
    reading key amount (log ++ [e]) = Function.update (reading key amount log) k (amount e) := by
  funext k'
  unfold reading
  rw [latest_concat]
  by_cases hk : k' = k
  · subst hk
    rw [if_pos he, Function.update_self]
    rfl
  · rw [if_neg (fun h => hk (Option.some.inj (h.symm.trans he))), Function.update_of_ne hk]

theorem snapshots_concat_delta (log : List α) (he : key e = none) :
    snapshots key amount (log ++ [e]) = snapshots key amount log := by
  have hkeys : (log ++ [e]).filterMap key = log.filterMap key := by
    rw [List.filterMap_append, List.filterMap_cons_none he]
    exact List.append_nil _
  unfold snapshots
  rw [hkeys]
  refine Finset.sum_congr rfl (fun k _ => ?_)
  unfold reading
  rw [latest_concat, if_neg (by rw [he]; exact nofun)]

theorem snapshots_concat (log : List α) (he : key e = some k) :
    snapshots key amount (log ++ [e]) = snapshots key amount log + (amount e - reading key amount log k) := by
  set S := (log.filterMap key).toFinset with hS
  set f := reading key amount log with hf
  have hkeys : ((log ++ [e]).filterMap key).toFinset = insert k S := by
    rw [List.filterMap_append, List.filterMap_cons_some he, List.toFinset_append, Finset.union_comm]
    rfl
  have hzero : k ∉ S → f k = 0 := by
    intro hk
    rw [hf, reading, latest_eq_none (fun h => hk (List.mem_toFinset.2 h))]
    rfl
  have hmem : k ∈ insert k S := Finset.mem_insert_self k S
  calc snapshots key amount (log ++ [e])
      = ∑ k' ∈ insert k S, Function.update f k (amount e) k' := by
        unfold snapshots
        rw [hkeys, reading_concat log he]
    _ = amount e + ∑ k' ∈ insert k S \ {k}, f k' := Finset.sum_update_of_mem hmem f (amount e)
    _ = (f k + ∑ k' ∈ insert k S \ {k}, f k') + (amount e - f k) := by abel
    _ = ∑ k' ∈ insert k S, f k' + (amount e - f k) := by
        rw [Finset.sum_eq_add_sum_sdiff_singleton_of_mem hmem]
    _ = snapshots key amount log + (amount e - f k) := by
        rw [Finset.sum_insert_of_eq_zero_if_notMem hzero]
        rfl

theorem total_concat (log : List α) (e : α) :
    total key amount (log ++ [e]) = total key amount log + charge key amount log e := by
  unfold total charge
  cases he : key e with
  | none =>
    have hdeltas : deltas key amount (log ++ [e]) = deltas key amount log + amount e := by
      unfold deltas
      rw [List.filter_append, List.map_append, List.sum_append, List.filter_singleton, decide_eq_true he]
      simp
    rw [hdeltas, snapshots_concat_delta log he]
    dsimp only
    abel
  | some k =>
    have hdeltas : deltas key amount (log ++ [e]) = deltas key amount log := by
      unfold deltas
      rw [List.filter_append, List.filter_singleton, decide_eq_false (by rw [he]; exact nofun)]
      simp
    rw [hdeltas, snapshots_concat log he]
    dsimp only
    abel

end Meter
