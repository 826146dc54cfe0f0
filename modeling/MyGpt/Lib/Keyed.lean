import Mathlib.Data.List.Nodup
/-!
# Keyed — rows of which the first of each key is kept

`add` appends a row whose key is new; `collect` is the rows of a list in the order of their first occurrence.
-/
namespace MyGpt
namespace Keyed

variable {α κ : Type} [BEq κ] [LawfulBEq κ] (key : α → κ)

def add (seen : List α) (row : α) : List α := if (seen.map key).contains (key row) then seen else seen ++ [row]

def collect (rows : List α) : List α := rows.foldl (add key) []

theorem nodup_add {seen : List α} (row : α) (h : (seen.map key).Nodup) : ((add key seen row).map key).Nodup := by
  unfold add
  split
  · exact h
  · rename_i habsent
    rw [List.contains_iff_mem] at habsent
    rw [List.map_append]
    refine List.nodup_append.2 ⟨h, List.nodup_singleton _, fun a ha b hb heq => ?_⟩
    rw [List.map_singleton, List.mem_singleton] at hb
    exact absurd (hb ▸ heq ▸ ha) habsent

theorem mem_add {seen : List α} {row : α} {x : κ} :
    x ∈ (add key seen row).map key ↔ x ∈ seen.map key ∨ x = key row := by
  unfold add
  split
  · rename_i hmem
    rw [List.contains_iff_mem] at hmem
    refine ⟨.inl, ?_⟩
    rintro (hx | rfl)
    · exact hx
    · exact hmem
  · rw [List.map_append, List.mem_append, List.map_singleton, List.mem_singleton]

theorem nodup_foldl : ∀ (rows : List α) {seen : List α}, (seen.map key).Nodup → ((rows.foldl (add key) seen).map key).Nodup
  | [], _, h => h
  | row :: rows, _, h => nodup_foldl rows (nodup_add key row h)

theorem mem_foldl {x : κ} : ∀ {rows seen : List α},
    x ∈ (rows.foldl (add key) seen).map key ↔ x ∈ seen.map key ∨ x ∈ rows.map key
  | [], seen => by simp
  | row :: rows, seen => by
    rw [List.foldl_cons, mem_foldl, mem_add, List.map_cons, List.mem_cons, or_assoc]

theorem nodup_collect (rows : List α) : ((collect key rows).map key).Nodup := nodup_foldl key rows List.nodup_nil

theorem mem_collect {x : κ} {rows : List α} : x ∈ (collect key rows).map key ↔ x ∈ rows.map key := by
  rw [collect, mem_foldl, List.map_nil, or_iff_right List.not_mem_nil]

theorem filter_foldl (p : κ → Bool) : ∀ (rows seen : List α),
    (rows.foldl (add key) seen).filter (fun row => p (key row)) =
      (rows.filter (fun row => p (key row))).foldl (add key) (seen.filter (fun row => p (key row)))
  | [], _ => rfl
  | row :: rows, seen => by
    have hkeys : p (key row) = true →
        ((seen.map key).contains (key row) = true ↔
          ((seen.filter (fun row => p (key row))).map key).contains (key row) = true) := by
      intro hp
      rw [List.contains_iff_mem, List.contains_iff_mem, List.mem_map, List.mem_map]
      refine exists_congr (fun other => ?_)
      rw [List.mem_filter, and_assoc]
      refine and_congr_right (fun _ => ⟨fun heq => ⟨by rw [heq, hp], heq⟩, And.right⟩)
    rw [List.foldl_cons, filter_foldl p rows, List.filter_cons]
    by_cases hp : p (key row) = true
    · rw [if_pos hp, List.foldl_cons, add, add]
      by_cases hseen : (seen.map key).contains (key row) = true
      · rw [if_pos hseen, if_pos ((hkeys hp).1 hseen)]
      · have hrow : [row].filter (fun row => p (key row)) = [row] := by simp [hp]
        rw [if_neg hseen, if_neg (fun h => hseen ((hkeys hp).2 h)), List.filter_append, hrow]
    · rw [if_neg hp, add]
      by_cases hseen : (seen.map key).contains (key row) = true
      · rw [if_pos hseen]
      · have hrow : [row].filter (fun row => p (key row)) = [] := by simp [hp]
        rw [if_neg hseen, List.filter_append, hrow, List.append_nil]

theorem filter_collect (p : κ → Bool) (rows : List α) :
    (collect key rows).filter (fun row => p (key row)) = collect key (rows.filter (fun row => p (key row))) :=
  filter_foldl key p rows []

theorem foldl_perm {row : α} : ∀ {rows seen seen' : List α}, key row ∉ rows.map key → seen'.Perm (row :: seen) →
    (rows.foldl (add key) seen').Perm (row :: rows.foldl (add key) seen)
  | [], _, _, _, h => h
  | other :: rows, seen, seen', hnew, h => by
    rw [List.map_cons, List.mem_cons, not_or] at hnew
    obtain ⟨hne, hrest⟩ := hnew
    rw [List.foldl_cons, List.foldl_cons]
    refine foldl_perm hrest ?_
    have hkeys : (seen'.map key).contains (key other) = true ↔ (seen.map key).contains (key other) = true := by
      rw [List.contains_iff_mem, List.contains_iff_mem, (h.map key).mem_iff, List.map_cons, List.mem_cons,
        or_iff_right (Ne.symm hne)]
    unfold add
    by_cases hseen : (seen.map key).contains (key other) = true
    · rw [if_pos hseen, if_pos (hkeys.2 hseen)]
      exact h
    · rw [if_neg hseen, if_neg (fun hin => hseen (hkeys.1 hin))]
      exact h.append_right [other]

/-- **One row more**, of a new key: wherever it stands, the others are collected as they were. -/
theorem collect_insert {row : α} {before after : List α} (hbefore : key row ∉ before.map key)
    (hafter : key row ∉ after.map key) :
    (collect key (before ++ row :: after)).Perm (row :: collect key (before ++ after)) := by
  unfold collect
  rw [List.foldl_append, List.foldl_append, List.foldl_cons]
  refine foldl_perm key hafter ?_
  have hnew : ¬ ((before.foldl (add key) []).map key).contains (key row) = true := by
    rw [List.contains_iff_mem, mem_foldl, List.map_nil, or_iff_right List.not_mem_nil]
    exact hbefore
  rw [add, if_neg hnew]
  exact List.perm_append_singleton row _

end Keyed
end MyGpt
