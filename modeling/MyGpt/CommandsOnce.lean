import MyGpt.CommandDrain
/-!
# CommandsOnce — how often a durable command takes effect

The effects of a drain are in memory and its claims and marks in a transaction, so a drain that has applied a command and
does not commit leaves the command to the next one (`commands_once`, `effect_before_commit`).
-/
namespace MyGpt
namespace Commands

open Chat (Text strip)
open Trace (Runs Reaches play reaches_play)

/-! ## what must hold, and when it does -/

def State.Marked (s : State) (row : Row) : Prop :=
  row.status = .applied ∨ ∃ d worker todo marked, s.drains d = .active worker todo marked ∧ row.seq ∈ marked

/-- **Each command takes effect at most once and in the order of the enqueues, and is marked applied exactly when it did.** -/
structure State.AppliedOnce (s : State) : Prop where
  order : s.effects.Pairwise (· < ·)
  marked : ∀ row ∈ s.rows, s.Marked row ↔ row.seq ∈ s.effects

/-- **A drain that has applied a command commits; no instruction is blank; and a command's `(created_at, id)` comes after
those of the commands that are pending.** -/
def StepOk (s : State) : Act → Prop
  | .enqueues command createdAt id => (command.effective = true ∨ command = .approval) ∧
      ∀ row ∈ s.rows, row.status = .pending → row.command.effective = true → command.effective = true →
        row.rank < toLex (createdAt, id)
  | .breaks d => ∀ worker todo marked, s.drains d = .active worker todo marked → marked = []
  | _ => True

/-! ## the invariant -/

structure Claimed (s : State) (d : Nat) (todo : List Row) (marked : List Nat) : Prop where
  rows : ∀ t ∈ todo, ∃ row ∈ s.rows, row.seq = t.seq ∧ row.command = t.command ∧ row.lock = some d
  sorted : todo.Pairwise (fun t t' => t.command.effective = true → t'.command.effective = true → t.seq < t'.seq)
  fresh : ∀ t ∈ todo, t.seq ∉ marked
  locked : ∀ i ∈ marked, ∃ row ∈ s.rows, row.seq = i ∧ row.lock = some d

structure State.Ordered (s : State) : Prop where
  seqs : s.rows.Pairwise (fun row row' => row.seq < row'.seq)
  bound : ∀ row ∈ s.rows, row.seq < s.rows.length
  good : ∀ row ∈ s.rows, row.command.effective = true ∨ row.command = .approval
  ranks : ∀ row ∈ s.rows, ∀ row' ∈ s.rows, row.status = .pending → row'.status = .pending → row.command.effective = true →
    row'.command.effective = true → row.seq < row'.seq → row.rank < row'.rank
  active : ∀ d worker todo marked, s.drains d = .active worker todo marked → Claimed s d todo marked
  locked : ∀ row ∈ s.rows, ∀ d, row.lock = some d → row.status = .pending ∧
    ∃ worker todo marked, s.drains d = .active worker todo marked ∧
      ((∃ t ∈ todo, t.seq = row.seq) ∨ row.seq ∈ marked ∨ row.command = .approval)
  sole : ∀ row ∈ s.rows, ∀ row' ∈ s.rows, ∀ d, row.lock = some d →
    (∀ d', row'.lock = some d' → d' = d) ∧ (row'.status = .pending → row'.seq < row.seq → row'.lock = some d)
  order : s.effects.Pairwise (· < ·)
  done : ∀ i ∈ s.effects, i < s.rows.length
  frontier : ∀ i ∈ s.effects, ∀ row ∈ s.rows, row.command.effective = true → row.status = .pending → ¬ s.Marked row →
    i < row.seq
  marked : ∀ row ∈ s.rows, s.Marked row ↔ row.seq ∈ s.effects

theorem ordered_start : State.start.Ordered where
  seqs := List.Pairwise.nil
  bound := fun _ h => nomatch h
  good := fun _ h => nomatch h
  ranks := fun _ h => nomatch h
  active := fun _ _ _ _ h => nomatch h
  locked := fun _ h => nomatch h
  sole := fun _ h => nomatch h
  order := List.Pairwise.nil
  done := fun _ h => nomatch h
  frontier := fun _ h => nomatch h
  marked := fun _ h => nomatch h

theorem State.Ordered.unique {s : State} (h : s.Ordered) {row row' : Row} (hrow : row ∈ s.rows) (hrow' : row' ∈ s.rows)
    (heq : row.seq = row'.seq) : row = row' := by
  have hinj : ∀ {l : List Row}, l.Pairwise (fun row row' => row.seq < row'.seq) → row ∈ l → row' ∈ l → row = row' := by
    intro l hl hrow hrow'
    induction l with
    | nil => cases hrow
    | cons first rest ih =>
      rw [List.pairwise_cons] at hl
      rcases List.mem_cons.1 hrow with rfl | hin <;> rcases List.mem_cons.1 hrow' with rfl | hin'
      · rfl
      · exact absurd heq (Nat.ne_of_lt (hl.1 _ hin'))
      · exact absurd heq.symm (Nat.ne_of_lt (hl.1 _ hin))
      · exact ih hl.2 hin hin'
  exact hinj h.seqs hrow hrow'

theorem State.Ordered.lock_of_marked {s : State} (h : s.Ordered) {row : Row} (hrow : row ∈ s.rows) {d worker : Nat}
    {todo : List Row} {marked : List Nat} (hd : s.drains d = .active worker todo marked) (hmarked : row.seq ∈ marked) :
    row.lock = some d := by
  obtain ⟨row', hrow', heq, hlock⟩ := (h.active d worker todo marked hd).locked _ hmarked
  rw [h.unique hrow hrow' heq.symm]
  exact hlock

theorem State.Ordered.enqueue {s : State} (h : s.Ordered) {command : CommandType} {createdAt : Int} {id : Nat}
    (hok : StepOk s (.enqueues command createdAt id)) :
    State.Ordered { s with rows := s.rows ++ [⟨s.rows.length, command, toLex (createdAt, id), .pending, none⟩] } := by
  obtain ⟨hgood, hrank⟩ := hok
  generalize hnew : (⟨s.rows.length, command, toLex (createdAt, id), .pending, none⟩ : Row) = new
  have hseq : new.seq = s.rows.length := by rw [← hnew]
  have hlock : new.lock = none := by rw [← hnew]
  have hmem : ∀ row ∈ s.rows ++ [new], row ∈ s.rows ∨ row = new := by
    intro row hrow
    rcases List.mem_append.1 hrow with hold | hlast
    · exact .inl hold
    · exact .inr (List.mem_singleton.1 hlast)
  have hunmarked : ¬ s.Marked new := by
    rintro (happlied | ⟨d, worker, todo, marked, hd, hin⟩)
    · rw [← hnew] at happlied
      cases happlied
    · obtain ⟨row, hrow, heq, -⟩ := (h.active d worker todo marked hd).locked _ hin
      have hlt := h.bound row hrow
      omega
  constructor
  · refine List.pairwise_append.2 ⟨h.seqs, List.pairwise_singleton _ _, fun row hrow row' hrow' => ?_⟩
    rw [List.mem_singleton.1 hrow', hseq]
    exact h.bound row hrow
  · intro row hrow
    rw [List.length_append, List.length_singleton]
    rcases hmem row hrow with hold | rfl
    · exact Nat.lt_succ_of_lt (h.bound row hold)
    · omega
  · intro row hrow
    rcases hmem row hrow with hold | rfl
    · exact h.good row hold
    · rw [← hnew]
      exact hgood
  · intro row hrow row' hrow' hp hp' he he' hlt
    rcases hmem row hrow with hold | rfl <;> rcases hmem row' hrow' with hold' | rfl
    · exact h.ranks row hold row' hold' hp hp' he he' hlt
    · rw [← hnew] at he' ⊢
      exact hrank row hold hp he he'
    · have hbound := h.bound row' hold'
      omega
    · exact absurd hlt (Nat.lt_irrefl _)
  · intro d worker todo marked hd
    have hclaimed := h.active d worker todo marked hd
    refine ⟨fun t ht => ?_, hclaimed.sorted, hclaimed.fresh, fun i hi => ?_⟩
    · obtain ⟨row, hrow, hrest⟩ := hclaimed.rows t ht
      exact ⟨row, List.mem_append_left _ hrow, hrest⟩
    · obtain ⟨row, hrow, hrest⟩ := hclaimed.locked i hi
      exact ⟨row, List.mem_append_left _ hrow, hrest⟩
  · intro row hrow d hd
    rcases hmem row hrow with hold | rfl
    · exact h.locked row hold d hd
    · rw [hlock] at hd
      cases hd
  · intro row hrow row' hrow' d hd
    rcases hmem row hrow with hold | rfl
    · rcases hmem row' hrow' with hold' | rfl
      · exact h.sole row hold row' hold' d hd
      · refine ⟨fun d' hd' => ?_, fun _ hlt => ?_⟩
        · rw [hlock] at hd'
          cases hd'
        · have hbound := h.bound row hold
          omega
    · rw [hlock] at hd
      cases hd
  · exact h.order
  · intro i hi
    rw [List.length_append]
    exact Nat.lt_add_right _ (h.done i hi)
  · intro i hi row hrow he hp hunmarked
    rcases hmem row hrow with hold | rfl
    · exact h.frontier i hi row hold he hp hunmarked
    · rw [hseq]
      exact h.done i hi
  · intro row hrow
    rcases hmem row hrow with hold | rfl
    · exact h.marked row hold
    · refine ⟨fun hmarked => absurd hmarked hunmarked, fun hin => ?_⟩
      have hlt := h.done _ hin
      omega

theorem State.Ordered.map_rows {s : State} (h : s.Ordered) {f : Row → Row} (hseq : ∀ row, (f row).seq = row.seq)
    (hcommand : ∀ row, (f row).command = row.command) (hrank : ∀ row, (f row).rank = row.rank)
    (hpending : ∀ row, (f row).status = .pending → row.status = .pending) :
    (s.rows.map f).Pairwise (fun row row' => row.seq < row'.seq) ∧ (∀ row ∈ s.rows.map f, row.seq < (s.rows.map f).length) ∧
    (∀ row ∈ s.rows.map f, row.command.effective = true ∨ row.command = .approval) ∧
    ∀ row ∈ s.rows.map f, ∀ row' ∈ s.rows.map f, row.status = .pending → row'.status = .pending → row.command.effective = true →
      row'.command.effective = true → row.seq < row'.seq → row.rank < row'.rank := by
  refine ⟨?_, ?_, ?_, ?_⟩
  · refine List.pairwise_map.2 (h.seqs.imp ?_)
    intro row row' hlt
    rwa [hseq, hseq]
  · intro row' hrow'
    obtain ⟨row, hrow, rfl⟩ := List.mem_map.1 hrow'
    rw [hseq, List.length_map]
    exact h.bound row hrow
  · intro row' hrow'
    obtain ⟨row, hrow, rfl⟩ := List.mem_map.1 hrow'
    rw [hcommand]
    exact h.good row hrow
  · intro row₁ hrow₁ row₂ hrow₂ hp hp'
    obtain ⟨row, hrow, rfl⟩ := List.mem_map.1 hrow₁
    obtain ⟨row', hrow', rfl⟩ := List.mem_map.1 hrow₂
    simp only [hcommand, hseq, hrank]
    exact h.ranks row hrow row' hrow' (hpending row hp) (hpending row' hp')

def lockBy (d n : Nat) (row : Row) : Row := if row.claimable n then { row with lock := some d } else row

@[simp] theorem lockBy_seq (d n : Nat) (row : Row) : (lockBy d n row).seq = row.seq := by
  unfold lockBy
  split <;> rfl

@[simp] theorem lockBy_command (d n : Nat) (row : Row) : (lockBy d n row).command = row.command := by
  unfold lockBy
  split <;> rfl

@[simp] theorem lockBy_rank (d n : Nat) (row : Row) : (lockBy d n row).rank = row.rank := by
  unfold lockBy
  split <;> rfl

@[simp] theorem lockBy_status (d n : Nat) (row : Row) : (lockBy d n row).status = row.status := by
  unfold lockBy
  split <;> rfl

theorem claimable_iff {row : Row} {n : Nat} : row.claimable n = true ↔ row.seq < n ∧ row.status = .pending := by
  simp [Row.claimable]

theorem State.Ordered.unlocked {s : State} (h : s.Ordered) {n : Nat}
    (hfree : ∀ row ∈ s.rows, row.claimable n = true → row.lock = none) {c : Row} (hc : c ∈ s.rows) (hclaim : c.claimable n = true) :
    ∀ row ∈ s.rows, row.lock = none := by
  intro row hrow
  rw [Option.eq_none_iff_forall_ne_some]
  intro e he
  have hpending := (h.locked row hrow e he).1
  obtain ⟨hlt, hp⟩ := claimable_iff.1 hclaim
  by_cases hrowlt : row.seq < n
  · rw [hfree row hrow (claimable_iff.2 ⟨hrowlt, hpending⟩)] at he
    cases he
  · have hlock := (h.sole row hrow c hc e he).2 hp (by omega)
    rw [hfree c hc hclaim] at hlock
    cases hlock

theorem State.Ordered.sorted {s : State} (h : s.Ordered) (n : Nat) :
    ((s.rows.filter (·.claimable n)).insertionSort (fun row row' => row.rank ≤ row'.rank)).Pairwise
      (fun t t' => t.command.effective = true → t'.command.effective = true → t.seq < t'.seq) := by
  have hsort := List.pairwise_insertionSort (fun row row' : Row => row.rank ≤ row'.rank) (s.rows.filter (·.claimable n))
  have hperm := List.perm_insertionSort (fun row row' : Row => row.rank ≤ row'.rank) (s.rows.filter (·.claimable n))
  have hrows : s.rows.Nodup := by
    refine h.seqs.imp ?_
    rintro row row' hlt rfl
    exact Nat.lt_irrefl _ hlt
  have hdistinct : (s.rows.filter (·.claimable n)).Nodup := hrows.filter _
  refine List.Pairwise.imp_of_mem ?_ (hsort.and (hperm.nodup_iff.2 hdistinct))
  rintro t t' ht ht' ⟨hle, hne⟩ he he'
  obtain ⟨hrow, hclaim⟩ := List.mem_filter.1 (hperm.mem_iff.1 ht)
  obtain ⟨hrow', hclaim'⟩ := List.mem_filter.1 (hperm.mem_iff.1 ht')
  rcases Nat.lt_trichotomy t.seq t'.seq with hlt | heq | hgt
  · exact hlt
  · exact absurd (h.unique hrow hrow' heq) hne
  · have hrank := h.ranks t' hrow' t hrow (claimable_iff.1 hclaim').2 (claimable_iff.1 hclaim).2 he' he hgt
    exact absurd hle (not_le_of_gt hrank)

theorem State.Ordered.claim {s : State} (h : s.Ordered) {d worker n : Nat} (hidle : s.drains d = .idle)
    (hany : s.rows.any (fun row => row.claimable n && row.lock.isSome) = false) : (s.claim d worker n).Ordered := by
  have hfree : ∀ row ∈ s.rows, row.claimable n = true → row.lock = none := by
    intro row hrow hclaim
    have hnot := List.any_eq_false.1 hany row hrow
    simpa [hclaim] using hnot
  have hmem : ∀ row' ∈ (s.claim d worker n).rows, ∃ row ∈ s.rows, row' = lockBy d n row := by
    intro row' hrow'
    obtain ⟨row, hrow, rfl⟩ := List.mem_map.1 hrow'
    exact ⟨row, hrow, rfl⟩
  have hin : ∀ row ∈ s.rows, lockBy d n row ∈ (s.claim d worker n).rows := fun row hrow => List.mem_map_of_mem hrow
  -- a row locked before stays as it is, and then the claim finds nothing
  have hold : ∀ row ∈ s.rows, ∀ e, row.lock = some e → ∀ c ∈ s.rows, lockBy d n c = c := by
    intro row hrow e he c hc
    refine if_neg (fun hclaim => ?_)
    rw [h.unlocked hfree hc hclaim row hrow] at he
    cases he
  have hlock : ∀ row ∈ s.rows, ∀ e, (lockBy d n row).lock = some e →
      (row.claimable n = true ∧ e = d) ∨ (row.lock = some e ∧ e ≠ d) := by
    intro row hrow e he
    unfold lockBy at he
    split at he
    next hclaim =>
      cases he
      exact .inl ⟨hclaim, rfl⟩
    next =>
      refine .inr ⟨he, ?_⟩
      rintro rfl
      obtain ⟨-, _, _, _, hactive, -⟩ := h.locked row hrow e he
      rw [hidle] at hactive
      cases hactive
  have hother : ∀ e, e ≠ d → (s.claim d worker n).drains e = s.drains e := fun e he => Function.update_of_ne he _ _
  have hself : (s.claim d worker n).drains d =
      .active worker ((s.rows.filter (·.claimable n)).insertionSort (fun row row' => row.rank ≤ row'.rank)) [] :=
    Function.update_self _ _ _
  have hmarked : ∀ row, (s.claim d worker n).Marked (lockBy d n row) ↔ s.Marked row := by
    intro row
    unfold State.Marked
    rw [lockBy_status, lockBy_seq]
    refine or_congr_right ⟨?_, ?_⟩
    · rintro ⟨e, w, todo, marked, he, hseq⟩
      by_cases hd : e = d
      · subst hd
        rw [hself] at he
        cases he
        cases hseq
      · rw [hother e hd] at he
        exact ⟨e, w, todo, marked, he, hseq⟩
    · rintro ⟨e, w, todo, marked, he, hseq⟩
      have hd : e ≠ d := by
        rintro rfl
        rw [hidle] at he
        cases he
      rw [← hother e hd] at he
      exact ⟨e, w, todo, marked, he, hseq⟩
  obtain ⟨hseqs, hbound, hgood, hranks⟩ := h.map_rows (lockBy_seq d n) (lockBy_command d n) (lockBy_rank d n)
    (fun row hp => by rwa [lockBy_status] at hp)
  refine ⟨hseqs, hbound, hgood, hranks, ?_, ?_, ?_, h.order, ?_, ?_, ?_⟩
  · intro e w todo marked he
    by_cases hd : e = d
    · subst hd
      rw [hself] at he
      cases he
      refine ⟨fun t ht => ?_, h.sorted n, fun t _ => List.not_mem_nil, fun i hi => nomatch hi⟩
      obtain ⟨hrow, hclaim⟩ := List.mem_filter.1 ((List.perm_insertionSort _ _).mem_iff.1 ht)
      refine ⟨_, hin t hrow, lockBy_seq e n t, lockBy_command e n t, ?_⟩
      unfold lockBy
      rw [if_pos hclaim]
    · rw [hother e hd] at he
      have hclaimed := h.active e w todo marked he
      refine ⟨fun t ht => ?_, hclaimed.sorted, hclaimed.fresh, fun i hi => ?_⟩
      · obtain ⟨row, hrow, hseq, hcommand, hlocked⟩ := hclaimed.rows t ht
        have hsame := hold row hrow e hlocked row hrow
        exact ⟨row, hsame ▸ hin row hrow, hseq, hcommand, hlocked⟩
      · obtain ⟨row, hrow, hseq, hlocked⟩ := hclaimed.locked i hi
        have hsame := hold row hrow e hlocked row hrow
        exact ⟨row, hsame ▸ hin row hrow, hseq, hlocked⟩
  · intro row' hrow' e he
    obtain ⟨row, hrow, rfl⟩ := hmem row' hrow'
    rw [lockBy_status, lockBy_seq, lockBy_command]
    rcases hlock row hrow e he with ⟨hclaim, rfl⟩ | ⟨hwas, hd⟩
    · refine ⟨(claimable_iff.1 hclaim).2, worker, _, [], hself, .inl ⟨row, ?_, rfl⟩⟩
      exact (List.perm_insertionSort _ _).mem_iff.2 (List.mem_filter.2 ⟨hrow, hclaim⟩)
    · rw [hother e hd]
      exact h.locked row hrow e hwas
  · intro row₁ hrow₁ row₂ hrow₂ e he
    obtain ⟨row, hrow, rfl⟩ := hmem row₁ hrow₁
    obtain ⟨row', hrow', rfl⟩ := hmem row₂ hrow₂
    rw [lockBy_status, lockBy_seq, lockBy_seq]
    rcases hlock row hrow e he with ⟨hclaim, rfl⟩ | ⟨hwas, hd⟩
    · refine ⟨fun e' he' => ?_, fun hp hlt => ?_⟩
      · rcases hlock row' hrow' e' he' with ⟨-, rfl⟩ | ⟨hwas', -⟩
        · rfl
        · rw [h.unlocked hfree hrow hclaim row' hrow'] at hwas'
          cases hwas'
      · have hclaim' : row'.claimable n = true :=
          claimable_iff.2 ⟨Nat.lt_trans hlt (claimable_iff.1 hclaim).1, hp⟩
        unfold lockBy
        rw [if_pos hclaim']
    · rw [hold row hrow e hwas row' hrow']
      exact h.sole row hrow row' hrow' e hwas
  · intro i hi
    show i < (s.rows.map _).length
    rw [List.length_map]
    exact h.done i hi
  · intro i hi row' hrow' he hp hunmarked
    obtain ⟨row, hrow, rfl⟩ := hmem row' hrow'
    rw [lockBy_command] at he
    rw [lockBy_status] at hp
    rw [hmarked] at hunmarked
    rw [lockBy_seq]
    exact h.frontier i hi row hrow he hp hunmarked
  · intro row' hrow'
    obtain ⟨row, hrow, rfl⟩ := hmem row' hrow'
    rw [hmarked, lockBy_seq]
    exact h.marked row hrow

theorem setDrain_self (s : State) (d : Nat) (drain : Drain) : (s.setDrain d drain).drains d = drain := by
  simp [State.setDrain]

theorem setDrain_of_ne (s : State) {d e : Nat} (drain : Drain) (he : e ≠ d) : (s.setDrain d drain).drains e = s.drains e := by
  simp [State.setDrain, he]

/-- A drain goes past `t`, which it leaves to the approval bus or marks. -/
def Marks (t : Row) (marked marked' : List Nat) : Prop :=
  (marked' = marked ∧ t.command = .approval) ∨ (marked' = t.seq :: marked ∧ t.command ≠ .approval)

section advance

variable {s : State} {d worker : Nat} {t : Row} {todo : List Row} {marked marked' : List Nat}

theorem mem_marks (hmarks : Marks t marked marked')
    (i : Nat) : i ∈ marked' ↔ i ∈ marked ∨ (i = t.seq ∧ t.command ≠ .approval) := by
  rcases hmarks with ⟨rfl, happroval⟩ | ⟨rfl, hne⟩
  · simp [happroval]
  · simp [hne, or_comm]

theorem State.Ordered.advance_active (h : s.Ordered) (hd : s.drains d = .active worker (t :: todo) marked)
    (hmarks : Marks t marked marked')
    {e w : Nat} {todo' : List Row} {marks : List Nat}
    (he : (s.setDrain d (.active worker todo marked')).drains e = .active w todo' marks) : Claimed s e todo' marks := by
  by_cases hed : e = d
  · subst hed
    rw [setDrain_self] at he
    cases he
    have hactive := h.active e worker _ marked hd
    obtain ⟨trow, htrow, htseq, htcommand, htlock⟩ := hactive.rows t List.mem_cons_self
    obtain ⟨hbefore, hsorted⟩ := List.pairwise_cons.1 hactive.sorted
    refine ⟨fun t' ht' => hactive.rows t' (List.mem_cons_of_mem _ ht'), hsorted, fun t' ht' hin => ?_, fun i hi => ?_⟩
    · rcases (mem_marks hmarks _).1 hin with hin | ⟨heq, hne⟩
      · exact hactive.fresh t' (List.mem_cons_of_mem _ ht') hin
      · obtain ⟨row', hrow', hseq', hcommand', -⟩ := hactive.rows t' (List.mem_cons_of_mem _ ht')
        have hsame := h.unique htrow hrow' (htseq.trans (heq.symm.trans hseq'.symm))
        have heff := (h.good trow htrow).resolve_right (fun ha => hne (htcommand ▸ ha))
        have hlt := hbefore t' ht' (htcommand ▸ heff) (hcommand' ▸ hsame ▸ heff)
        omega
    · rcases (mem_marks hmarks i).1 hi with hin | ⟨rfl, -⟩
      · exact hactive.locked i hin
      · exact ⟨trow, htrow, htseq, htlock⟩
  · rw [setDrain_of_ne _ _ hed] at he
    exact h.active e w todo' marks he

theorem State.Ordered.advance_locked (h : s.Ordered) (hd : s.drains d = .active worker (t :: todo) marked)
    (hmarks : Marks t marked marked')
    {row : Row} (hrow : row ∈ s.rows) {e : Nat} (he : row.lock = some e) : row.status = .pending ∧
      ∃ w todo' marks, (s.setDrain d (.active worker todo marked')).drains e = .active w todo' marks ∧
        ((∃ t ∈ todo', t.seq = row.seq) ∨ row.seq ∈ marks ∨ row.command = .approval) := by
  obtain ⟨hpending, w, todo', marks, hactive', hwhere⟩ := h.locked row hrow e he
  refine ⟨hpending, ?_⟩
  by_cases hed : e = d
  · subst hed
    rw [hd] at hactive'
    cases hactive'
    refine ⟨worker, todo, marked', setDrain_self _ _ _, ?_⟩
    rcases hwhere with ⟨t', ht', hseq⟩ | hin | happroval
    · rcases List.mem_cons.1 ht' with rfl | ht'
      · obtain ⟨trow, htrow, htseq, htcommand, -⟩ := (h.active e worker _ marked hd).rows t' List.mem_cons_self
        have hsame := h.unique htrow hrow (htseq.trans hseq)
        by_cases happroval : t'.command = .approval
        · exact .inr (.inr (hsame ▸ htcommand.trans happroval))
        · exact .inr (.inl ((mem_marks hmarks _).2 (.inr ⟨hseq.symm, happroval⟩)))
      · exact .inl ⟨t', ht', hseq⟩
    · exact .inr (.inl ((mem_marks hmarks _).2 (.inl hin)))
    · exact .inr (.inr happroval)
  · exact ⟨w, todo', marks, (setDrain_of_ne _ _ hed).trans hactive', hwhere⟩

theorem State.Ordered.advance_marked (hd : s.drains d = .active worker (t :: todo) marked)
    (hmarks : Marks t marked marked') (row : Row) :
    (s.setDrain d (.active worker todo marked')).Marked row ↔ s.Marked row ∨ (row.seq = t.seq ∧ t.command ≠ .approval) := by
  constructor
  · rintro (happlied | ⟨e, w, todo', marks, he, hin⟩)
    · exact .inl (.inl happlied)
    · by_cases hed : e = d
      · subst hed
        rw [setDrain_self] at he
        cases he
        rcases (mem_marks hmarks _).1 hin with hin | hnew
        · exact .inl (.inr ⟨e, worker, _, marked, hd, hin⟩)
        · exact .inr hnew
      · rw [setDrain_of_ne _ _ hed] at he
        exact .inl (.inr ⟨e, w, todo', marks, he, hin⟩)
  · rintro ((happlied | ⟨e, w, todo', marks, he, hin⟩) | hnew)
    · exact .inl happlied
    · by_cases hed : e = d
      · subst hed
        rw [hd] at he
        cases he
        exact .inr ⟨e, worker, todo, marked', setDrain_self _ _ _, (mem_marks hmarks _).2 (.inl hin)⟩
      · exact .inr ⟨e, w, todo', marks, (setDrain_of_ne _ _ hed).trans he, hin⟩
    · exact .inr ⟨d, worker, todo, marked', setDrain_self _ _ _, (mem_marks hmarks _).2 (.inr hnew)⟩

end advance

theorem State.Ordered.setControls {s : State} (h : s.Ordered) (controls : Nat → Controls) :
    State.Ordered { s with controls := controls } :=
  ⟨h.seqs, h.bound, h.good, h.ranks, (fun d w todo marked hd =>
    let hclaimed := h.active d w todo marked hd
    { hclaimed with }), h.locked, h.sole, h.order, h.done, h.frontier, h.marked⟩

theorem State.Ordered.skip {s : State} (h : s.Ordered) {d worker : Nat} {t : Row} {todo : List Row} {marked : List Nat}
    (hd : s.drains d = .active worker (t :: todo) marked) (happroval : t.command = .approval) :
    (s.setDrain d (.active worker todo marked)).Ordered := by
  have hsame : ∀ row, (s.setDrain d (.active worker todo marked)).Marked row ↔ s.Marked row := by
    intro row
    rw [State.Ordered.advance_marked hd (.inl ⟨rfl, happroval⟩)]
    exact or_iff_left (fun hne => hne.2 happroval)
  refine ⟨h.seqs, h.bound, h.good, h.ranks, ?_, fun row hrow e he => h.advance_locked hd (.inl ⟨rfl, happroval⟩) hrow he,
    h.sole, h.order, h.done, ?_, ?_⟩
  · intro e w todo' marks he
    obtain ⟨hrows, hsorted, hfresh, hheld⟩ := h.advance_active hd (.inl ⟨rfl, happroval⟩) he
    exact ⟨hrows, hsorted, hfresh, hheld⟩
  · intro i hi row hrow he hp hun
    rw [hsame] at hun
    exact h.frontier i hi row hrow he hp hun
  · intro row hrow
    rw [hsame]
    exact h.marked row hrow

theorem State.Ordered.apply {s : State} (h : s.Ordered) {d worker : Nat} {t : Row} {todo : List Row} {marked : List Nat}
    (hd : s.drains d = .active worker (t :: todo) marked) (happroval : t.command ≠ .approval) :
    State.Ordered { s.setDrain d (.active worker todo (t.seq :: marked)) with effects := s.effects ++ [t.seq] } := by
  have hclaimed := h.active d worker _ marked hd
  obtain ⟨trow, htrow, htseq, htcommand, htlock⟩ := hclaimed.rows t List.mem_cons_self
  have heff : trow.command.effective = true := (h.good trow htrow).resolve_right (fun ha => happroval (htcommand ▸ ha))
  have hpending := (h.locked trow htrow d htlock).1
  have hunmarked : ¬ s.Marked trow := by
    rintro (happlied | ⟨e, w, todo', marks, he, hin⟩)
    · rw [hpending] at happlied
      cases happlied
    · have hlock := h.lock_of_marked htrow he hin
      rw [htlock] at hlock
      cases hlock
      rw [hd] at he
      cases he
      exact hclaimed.fresh t List.mem_cons_self (htseq ▸ hin)
  have hsame : ∀ row, State.Marked { s.setDrain d (.active worker todo (t.seq :: marked)) with effects := s.effects ++ [t.seq] } row ↔
      s.Marked row ∨ row.seq = t.seq := by
    intro row
    refine (State.Ordered.advance_marked hd (.inr ⟨rfl, happroval⟩) row).trans (or_congr_right ?_)
    exact and_iff_left happroval
  refine ⟨h.seqs, h.bound, h.good, h.ranks, ?_, fun row hrow e he => h.advance_locked hd (.inr ⟨rfl, happroval⟩) hrow he,
    h.sole, ?_, ?_, ?_, ?_⟩
  · intro e w todo' marks he
    obtain ⟨hrows, hsorted, hfresh, hheld⟩ := h.advance_active hd (.inr ⟨rfl, happroval⟩) he
    exact ⟨hrows, hsorted, hfresh, hheld⟩
  · refine List.pairwise_append.2 ⟨h.order, List.pairwise_singleton _ _, fun i hi j hj => ?_⟩
    rw [List.mem_singleton.1 hj, ← htseq]
    exact h.frontier i hi trow htrow heff hpending hunmarked
  · intro i hi
    rcases List.mem_append.1 hi with hi | hi
    · exact h.done i hi
    · rw [List.mem_singleton.1 hi, ← htseq]
      exact h.bound trow htrow
  · intro i hi row hrow he hp hun
    rw [hsame, not_or] at hun
    rcases List.mem_append.1 hi with hi | hi
    · exact h.frontier i hi row hrow he hp hun.1
    · rw [List.mem_singleton.1 hi]
      by_contra hle
      -- a pending row before it is claimed too, and the drain comes to it first
      have hlock := (h.sole trow htrow row hrow d htlock).2 hp (by omega)
      obtain ⟨-, w, todo', marks, he', hwhere⟩ := h.locked row hrow d hlock
      rw [hd] at he'
      cases he'
      rcases hwhere with ⟨t', ht', hseq⟩ | hin | ha
      · rcases List.mem_cons.1 ht' with rfl | ht'
        · exact hun.2 hseq.symm
        · obtain ⟨row', hrow', hseq', hcommand', -⟩ := hclaimed.rows t' (List.mem_cons_of_mem _ ht')
          have heq := h.unique hrow' hrow (hseq'.trans hseq)
          have hlt := (List.pairwise_cons.1 hclaimed.sorted).1 t' ht' (htcommand ▸ heff) (hcommand' ▸ heq ▸ he)
          omega
      · exact hun.1 (.inr ⟨d, worker, _, marked, hd, hin⟩)
      · rw [ha] at he
        cases he
  · intro row hrow
    rw [hsame, h.marked row hrow]
    rw [List.mem_append, List.mem_singleton]

def settle (d : Nat) (marked : List Nat) (row : Row) : Row :=
  if row.lock = some d then { row with status := if row.seq ∈ marked then .applied else row.status, lock := none } else row

@[simp] theorem settle_seq (d : Nat) (marked : List Nat) (row : Row) : (settle d marked row).seq = row.seq := by
  unfold settle
  split <;> rfl

@[simp] theorem settle_command (d : Nat) (marked : List Nat) (row : Row) : (settle d marked row).command = row.command := by
  unfold settle
  split <;> rfl

@[simp] theorem settle_rank (d : Nat) (marked : List Nat) (row : Row) : (settle d marked row).rank = row.rank := by
  unfold settle
  split <;> rfl

theorem settle_pending {d : Nat} {marked : List Nat} {row : Row} (h : (settle d marked row).status = .pending) :
    row.status = .pending ∧ (row.lock = some d → row.seq ∉ marked) := by
  unfold settle at h
  split at h
  next hlock =>
    split at h
    next => cases h
    next hnot => exact ⟨h, fun _ => hnot⟩
  next hlock => exact ⟨h, fun heq => absurd heq hlock⟩

theorem settle_lock {d e : Nat} {marked : List Nat} {row : Row} (h : (settle d marked row).lock = some e) :
    row.lock = some e ∧ e ≠ d ∧ settle d marked row = row := by
  unfold settle at h ⊢
  split at h
  next => cases h
  next hlock =>
    refine ⟨h, ?_, if_neg hlock⟩
    rintro rfl
    exact hlock h

theorem State.Ordered.settled {s : State} (h : s.Ordered) {d worker : Nat} {todo : List Row} {marked : List Nat}
    (hd : s.drains d = .active worker todo marked) :
    State.Ordered ⟨s.rows.map (settle d marked), s.controls, Function.update s.drains d .done, s.effects⟩ := by
  have hmem : ∀ row' ∈ s.rows.map (settle d marked), ∃ row ∈ s.rows, settle d marked row = row' := fun row' hrow' =>
    List.mem_map.1 hrow'
  have hkeep : ∀ row ∈ s.rows, ∀ e, e ≠ d → row.lock = some e → row ∈ s.rows.map (settle d marked) := by
    intro row hrow e he hlock
    refine List.mem_map.2 ⟨row, hrow, if_neg (fun heq => he ?_)⟩
    rw [hlock] at heq
    exact Option.some.inj heq
  have hother : ∀ e w todo' marks, Function.update s.drains d .done e = .active w todo' marks →
      e ≠ d ∧ s.drains e = .active w todo' marks := by
    intro e w todo' marks he
    by_cases hed : e = d
    · subst hed
      rw [Function.update_self] at he
      cases he
    · rw [Function.update_of_ne hed] at he
      exact ⟨hed, he⟩
  have hmarked : ∀ row ∈ s.rows,
      State.Marked ⟨s.rows.map (settle d marked), s.controls, Function.update s.drains d .done, s.effects⟩ (settle d marked row) ↔
        s.Marked row := by
    intro row hrow
    constructor
    · rintro (happlied | ⟨e, w, todo', marks, he, hin⟩)
      · unfold settle at happlied
        split at happlied
        next =>
          split at happlied
          next hin => exact .inr ⟨d, worker, todo, marked, hd, hin⟩
          next => exact .inl happlied
        next => exact .inl happlied
      · rw [settle_seq] at hin
        exact .inr ⟨e, w, todo', marks, (hother e w todo' marks he).2, hin⟩
    · rintro (happlied | ⟨e, w, todo', marks, he, hin⟩)
      · left
        unfold settle
        split
        next =>
          split
          next => rfl
          next => exact happlied
        next => exact happlied
      · by_cases hed : e = d
        · subst hed
          rw [hd] at he
          cases he
          left
          unfold settle
          rw [if_pos (h.lock_of_marked hrow hd hin), if_pos hin]
        · exact .inr ⟨e, w, todo', marks, (Function.update_of_ne hed _ _).trans he, (settle_seq d marked row).symm ▸ hin⟩
  obtain ⟨hseqs, hbound, hgood, hranks⟩ := h.map_rows (settle_seq d marked) (settle_command d marked) (settle_rank d marked)
    (fun row hp => (settle_pending hp).1)
  refine ⟨hseqs, hbound, hgood, hranks, ?_, ?_, ?_, h.order, ?_, ?_, ?_⟩
  · intro e w todo' marks he
    obtain ⟨hed, hactive⟩ := hother e w todo' marks he
    have hclaimed := h.active e w todo' marks hactive
    refine ⟨fun t ht => ?_, hclaimed.sorted, hclaimed.fresh, fun i hi => ?_⟩
    · obtain ⟨row, hrow, hseq, hcommand, hlock⟩ := hclaimed.rows t ht
      exact ⟨row, hkeep row hrow e hed hlock, hseq, hcommand, hlock⟩
    · obtain ⟨row, hrow, hseq, hlock⟩ := hclaimed.locked i hi
      exact ⟨row, hkeep row hrow e hed hlock, hseq, hlock⟩
  · intro row' hrow' e he
    obtain ⟨row, hrow, rfl⟩ := hmem row' hrow'
    obtain ⟨hlock, hed, hsame⟩ := settle_lock he
    obtain ⟨hpending, w, todo', marks, hactive, hwhere⟩ := h.locked row hrow e hlock
    rw [hsame]
    exact ⟨hpending, w, todo', marks, (Function.update_of_ne hed _ _).trans hactive, hwhere⟩
  · intro row₁ hrow₁ row₂ hrow₂ e he
    obtain ⟨row, hrow, rfl⟩ := hmem row₁ hrow₁
    obtain ⟨row', hrow', rfl⟩ := hmem row₂ hrow₂
    obtain ⟨hlock, hed, -⟩ := settle_lock he
    obtain ⟨hsole, hlow⟩ := h.sole row hrow row' hrow' e hlock
    refine ⟨fun e' he' => hsole e' (settle_lock he').1, fun hp hlt => ?_⟩
    rw [settle_seq, settle_seq] at hlt
    have hlock' := hlow (settle_pending hp).1 hlt
    unfold settle
    rw [if_neg (fun heq => hed (Option.some.inj (hlock'.symm.trans heq)))]
    exact hlock'
  · intro i hi
    rw [List.length_map]
    exact h.done i hi
  · intro i hi row' hrow' he hp hun
    obtain ⟨row, hrow, rfl⟩ := hmem row' hrow'
    rw [hmarked row hrow] at hun
    rw [settle_command] at he
    rw [settle_seq]
    exact h.frontier i hi row hrow he (settle_pending hp).1 hun
  · intro row' hrow'
    obtain ⟨row, hrow, rfl⟩ := hmem row' hrow'
    rw [hmarked row hrow, settle_seq]
    exact h.marked row hrow

theorem ordered_step {s s' : State} {act : Act} (h : s.Ordered) (hok : StepOk s act) (hs : step s act = some s') :
    s'.Ordered := by
  cases act with
  | enqueues command createdAt id =>
    cases hs
    exact h.enqueue hok
  | claims d worker n =>
    unfold step at hs
    dsimp only at hs
    split at hs
    next hidle =>
      split at hs
      next => cases hs
      next hfree =>
        cases hs
        exact h.claim hidle (Bool.eq_false_iff.2 hfree)
    next => cases hs
  | applies d =>
    unfold step at hs
    dsimp only at hs
    split at hs
    next worker t todo marked hd =>
      split at hs
      next happroval =>
        cases hs
        exact h.skip hd happroval
      next command hne =>
        cases hs
        have happroval : t.command ≠ .approval := fun heq => hne heq
        obtain ⟨row, hrow, -, hcommand, -⟩ := (h.active d worker _ marked hd).rows t List.mem_cons_self
        have heff : t.command.effective = true := by
          rw [← hcommand]
          exact (h.good row hrow).resolve_right (fun ha => happroval (hcommand ▸ ha))
        rw [if_pos heff]
        exact (h.apply hd happroval).setControls _
    next => cases hs
  | commits d =>
    unfold step at hs
    dsimp only at hs
    split at hs
    next worker marked hd =>
      cases hs
      exact h.settled hd
    next => cases hs
  | breaks d =>
    unfold step at hs
    dsimp only at hs
    split at hs
    next worker todo marked hd =>
      cases hs
      -- nothing was marked, so nothing is lost
      obtain rfl := hok worker todo marked hd
      have hsame : s.unlock d id = ⟨s.rows.map (settle d []), s.controls, Function.update s.drains d .done, s.effects⟩ := by
        congr 2
      rw [hsame]
      exact h.settled hd
    next => cases hs
  | drainInstructions worker =>
    cases hs
    exact h.setControls _

/-! ## the claim -/

/-- **Control commands are applied exactly once**, while each drain that has applied one commits. -/
theorem commands_once (s : State) (h : Runs step StepOk State.start s) : s.AppliedOnce :=
  have hordered : s.Ordered := h.invariant ordered_start (fun _ _ _ hs hok hstep => ordered_step hs hok hstep)
  { hordered with }

def drained : List Act :=
  [.enqueues (.control .pause) 1 7, .enqueues (.control (.instruct "go on".toList)) 2 5, .claims 0 0 2, .applies 0, .applies 0,
    .commits 0]

theorem commands_once_drained : (play step State.start drained).AppliedOnce ∧ (play step State.start drained).effects = [0, 1] := by
  refine ⟨commands_once _ ?_, by decide⟩
  refine Runs.next (.commits 0) (s := play step State.start (drained.take 5)) ?_ trivial rfl
  refine Runs.next (.applies 0) (s := play step State.start (drained.take 4)) ?_ trivial rfl
  refine Runs.next (.applies 0) (s := play step State.start (drained.take 3)) ?_ trivial rfl
  refine Runs.next (.claims 0 0 2) (s := play step State.start (drained.take 2)) ?_ trivial rfl
  refine Runs.next (.enqueues (.control (.instruct "go on".toList)) 2 5) (s := play step State.start (drained.take 1)) ?_
    ⟨.inl (by decide), fun row hrow _ _ _ => ?_⟩ rfl
  · exact Runs.next (.enqueues (.control .pause) 1 7) .refl ⟨.inl (by decide), fun row hrow => nomatch hrow⟩ rfl
  · obtain rfl := List.mem_singleton.1 hrow
    exact Prod.Lex.toLex_lt_toLex.2 (.inl (by decide))

/-- **The commit fails after the pause has taken effect**, and the next drain applies it again. -/
def failedCommit : List Act :=
  [.enqueues (.control .pause) 1 7, .claims 0 0 1, .applies 0, .breaks 0, .claims 1 0 1, .applies 1]

theorem effect_before_commit : ¬ ∀ s, Reaches step State.start s → s.AppliedOnce := by
  intro h
  exact absurd (h (play step State.start failedCommit) (reaches_play (by decide))).order (by decide)

end Commands
end MyGpt
