import Mathlib.Data.List.Nodup
/-!
# Assembly — fragments put together by key, in segments

Fragments of several keys come in one list, cut into segments.  A segment makes one piece of each key that it has fragments
of.  The pieces of the segments are those of the whole list exactly when no key has fragments in two segments
(`pieces_iff`), and a rest that is dropped must add nothing (`pieces_rest_iff`).  A dictionary that is updated fragment by
fragment holds the pieces of its segment (`Gathers.update`).
-/
namespace Assembly

variable {α κ β : Type*} [DecidableEq κ] (key : α → κ)

def own (l : List α) (k : κ) : List α := l.filter (fun x => key x = k)

def Apart (a b : List α) : Prop := ∀ x ∈ a, ∀ y ∈ b, key x ≠ key y

variable (f : List α → β)

def piece (l : List α) (k : κ) : List β := if own key l k = [] then [] else [f (own key l k)]

variable {key f} {l m : List α} {k : κ}

theorem own_append (l m : List α) (k : κ) : own key (l ++ m) k = own key l k ++ own key m k := List.filter_append l m

theorem own_ne_nil {x : α} (hx : x ∈ l) : own key l (key x) ≠ [] :=
  List.ne_nil_of_mem (List.mem_filter.2 ⟨hx, decide_eq_true rfl⟩)

theorem own_eq_nil : own key l k = [] ↔ ∀ x ∈ l, key x ≠ k := by
  unfold own
  simp [List.filter_eq_nil_iff]

theorem piece_length_le (l : List α) (k : κ) : (piece key f l k).length ≤ 1 := by
  unfold piece
  split <;> simp

theorem piece_length {x : α} (hx : x ∈ l) : (piece key f l (key x)).length = 1 := by
  rw [piece, if_neg (own_ne_nil hx)]
  rfl

theorem piece_append_left (h : own key m k = []) : piece key f (l ++ m) k = piece key f l k := by
  unfold piece
  rw [own_append, h, List.append_nil]

theorem piece_append_right (h : own key l k = []) : piece key f (l ++ m) k = piece key f m k := by
  unfold piece
  rw [own_append, h, List.nil_append]

theorem pieces_of_apart {segments : List (List α)} (h : segments.Pairwise (Apart key)) (k : κ) :
    segments.flatMap (fun s => piece key f s k) = piece key f segments.flatten k := by
  induction segments with
  | nil => rfl
  | cons s segments ih =>
    rw [List.pairwise_cons] at h
    rw [List.flatMap_cons, ih h.2, List.flatten_cons]
    by_cases hs : own key s k = []
    · rw [piece_append_right hs, piece, if_pos hs, List.nil_append]
    · have hrest : own key segments.flatten k = [] := by
        obtain ⟨x, hx⟩ := List.exists_mem_of_ne_nil _ hs
        obtain ⟨hmem, hkey⟩ := List.mem_filter.1 hx
        refine own_eq_nil.2 (fun y hy hyk => ?_)
        obtain ⟨t, ht, hyt⟩ := List.mem_flatten.1 hy
        exact h.1 t ht x hmem y hyt ((of_decide_eq_true hkey).trans hyk.symm)
      have hnone : piece key f segments.flatten k = [] := if_pos hrest
      rw [piece_append_left hrest, hnone, List.append_nil]

theorem apart_of_length {segments : List (List α)}
    (h : ∀ k, (segments.flatMap (fun s => piece key f s k)).length ≤ 1) : segments.Pairwise (Apart key) := by
  induction segments with
  | nil => exact .nil
  | cons s segments ih =>
    refine List.pairwise_cons.2 ⟨fun t ht x hx y hy hkey => ?_, ih (fun k => ?_)⟩
    · have hboth := h (key x)
      rw [List.flatMap_cons, List.length_append, piece_length hx] at hboth
      have hone : 1 ≤ (segments.flatMap (fun s => piece key f s (key x))).length := by
        obtain ⟨pre, post, rfl⟩ := List.append_of_mem ht
        rw [hkey, List.flatMap_append, List.flatMap_cons, List.length_append, List.length_append, piece_length hy]
        omega
      omega
    · have hall := h k
      rw [List.flatMap_cons, List.length_append] at hall
      omega

/-- **The pieces of the segments are those of the whole exactly when no key has fragments in two segments.** -/
theorem pieces_iff {segments : List (List α)} :
    (∀ k, segments.flatMap (fun s => piece key f s k) = piece key f segments.flatten k) ↔ segments.Pairwise (Apart key) :=
  ⟨fun h => apart_of_length (fun k => by rw [h k]; exact piece_length_le _ k), fun h k => pieces_of_apart h k⟩

theorem pieces_rest_iff {segments : List (List α)} {rest : List α} :
    (∀ k, segments.flatMap (fun s => piece key f s k) = piece key f (segments.flatten ++ rest) k) ↔
      segments.Pairwise (Apart key) ∧ ∀ y ∈ rest, own key segments.flatten (key y) ≠ [] ∧
        f (own key (segments.flatten ++ rest) (key y)) = f (own key segments.flatten (key y)) := by
  constructor
  · intro h
    have hapart : segments.Pairwise (Apart key) :=
      apart_of_length (fun k => by rw [h k]; exact piece_length_le _ k)
    refine ⟨hapart, fun y hy => ?_⟩
    have heq := (pieces_of_apart hapart (key y)).symm.trans (h (key y))
    have hown : own key segments.flatten (key y) ≠ [] := by
      intro hnil
      have hlen := congrArg List.length heq
      rw [piece_length (List.mem_append_right _ hy), piece, if_pos hnil] at hlen
      cases hlen
    refine ⟨hown, ?_⟩
    rw [piece, if_neg hown, piece, if_neg (own_ne_nil (List.mem_append_right _ hy))] at heq
    exact (List.cons.inj heq).1.symm
  · rintro ⟨hapart, hrest⟩ k
    rw [pieces_of_apart hapart]
    by_cases hk : own key rest k = []
    · rw [piece_append_left hk]
    · obtain ⟨y, hy⟩ := List.exists_mem_of_ne_nil _ hk
      obtain ⟨hmem, hkey⟩ := List.mem_filter.1 hy
      obtain rfl := of_decide_eq_true hkey
      obtain ⟨hown, heq⟩ := hrest y hmem
      rw [piece, if_neg hown, piece, if_neg (own_ne_nil (List.mem_append_right _ hmem)), heq]

/-! ## dictionaries -/

def update (k : κ) (write : β → β) (fresh : β) : List (κ × β) → List (κ × β)
  | [] => [(k, write fresh)]
  | (k', b) :: d => if k' = k then (k', write b) :: d else (k', b) :: update k write fresh d

def Gathers (key : α → κ) (f : List α → β) (d : List (κ × β)) (l : List α) : Prop :=
  ∀ k, (d.filter (fun p => p.1 = k)).map (·.2) = piece key f l k

theorem gathers_nil : Gathers key f [] [] := fun _ => rfl

theorem filter_update_of_ne {write : β → β} {fresh : β} (d : List (κ × β)) {k' : κ} (h : k ≠ k') :
    (update k write fresh d).filter (fun p => p.1 = k') = d.filter (fun p => p.1 = k') := by
  induction d with
  | nil => simp [update, h]
  | cons p d ih =>
    rw [update]
    split
    · rename_i hp
      rw [List.filter_cons_of_neg (by simpa [hp] using h), List.filter_cons_of_neg (by simpa [hp] using h)]
    · rw [List.filter_cons, List.filter_cons, ih]

theorem filter_update_self {write : β → β} {fresh : β} (d : List (κ × β)) :
    ((update k write fresh d).filter (fun p => p.1 = k)).map (·.2) =
      match (d.filter (fun p => p.1 = k)).map (·.2) with
      | [] => [write fresh]
      | b :: rest => write b :: rest := by
  induction d with
  | nil => simp [update]
  | cons p d ih =>
    rw [update]
    split
    · rename_i hp
      rw [List.filter_cons_of_pos (by simpa using hp), List.filter_cons_of_pos (by simpa using hp)]
      rfl
    · rename_i hp
      rw [List.filter_cons_of_neg (by simpa using hp), List.filter_cons_of_neg (by simpa using hp), ih]

theorem Gathers.update {write : β → α → β} {fresh : β} {d : List (κ × β)} {l : List α}
    (h : Gathers key (fun l => l.foldl write fresh) d l) (x : α) :
    Gathers key (fun l => l.foldl write fresh) (Assembly.update (key x) (fun b => write b x) fresh d) (l ++ [x]) := by
  intro k
  by_cases hk : key x = k
  · subst hk
    have hself : own key [x] (key x) = [x] := List.filter_cons_of_pos (decide_eq_true rfl)
    rw [filter_update_self, h, piece, piece, own_append, hself]
    by_cases hl : own key l (key x) = []
    · rw [if_pos hl, hl]
      rfl
    · rw [if_neg hl, if_neg (by simp), List.foldl_append]
      rfl
  · have hother : own key [x] k = [] := own_eq_nil.2 (fun y hy => by rwa [List.mem_singleton.1 hy])
    rw [filter_update_of_ne d hk, h, piece_append_left hother]

theorem Gathers.perm {d d' : List (κ × β)} (h : Gathers key f d l) (hp : d'.Perm d) : Gathers key f d' l := by
  intro k
  have hperm : ((d'.filter (fun p => p.1 = k)).map (·.2)).Perm (piece key f l k) := by
    rw [← h k]
    exact (hp.filter _).map _
  revert hperm
  unfold piece
  split
  · exact fun hperm => hperm.eq_nil
  · exact fun hperm => List.perm_singleton.1 hperm

theorem Gathers.eq_nil_iff {d : List (κ × β)} (h : Gathers key f d l) : d = [] ↔ l = [] := by
  constructor
  · rintro rfl
    by_contra hne
    obtain ⟨x, hx⟩ := List.exists_mem_of_ne_nil _ hne
    have hlen := congrArg List.length (h (key x))
    rw [piece_length hx] at hlen
    cases hlen
  · rintro rfl
    by_contra hne
    obtain ⟨p, hp⟩ := List.exists_mem_of_ne_nil _ hne
    have hnil := h p.1
    have hmem : p.2 ∈ (d.filter (fun q => q.1 = p.1)).map (·.2) :=
      List.mem_map_of_mem (List.mem_filter.2 ⟨hp, decide_eq_true rfl⟩)
    rw [hnil] at hmem
    cases hmem

end Assembly
