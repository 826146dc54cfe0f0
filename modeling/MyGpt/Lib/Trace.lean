/-!
# Trace — runs of a transition system under a condition on their steps

A system is a partial step function.  `Runs` are the runs whose steps all meet a condition on the state they start from
and their label; an invariant of such steps holds along such runs.  `exec` plays a given list of labels.
-/
namespace Trace

variable {σ α : Type _} (step : σ → α → Option σ)

/-- The states reached from `s₀` by steps that meet `ok`. -/
inductive Runs (ok : σ → α → Prop) (s₀ : σ) : σ → Prop
  | refl : Runs ok s₀ s₀
  | next {s s' : σ} (a : α) : Runs ok s₀ s → ok s a → step s a = some s' → Runs ok s₀ s'

variable {step}

theorem Runs.invariant {ok : σ → α → Prop} {P : σ → Prop} {s₀ s : σ} (h : Runs step ok s₀ s) (h₀ : P s₀)
    (hstep : ∀ s a s', P s → ok s a → step s a = some s' → P s') : P s := by
  induction h with
  | refl => exact h₀
  | next a _ hok hs ih => exact hstep _ a _ ih hok hs

variable (step)

def exec (s : σ) : List α → Option σ
  | [] => some s
  | a :: as => (step s a).bind (fun s' => exec s' as)

variable {step}

/-- The runs of the system under no condition. -/
abbrev Reaches (step : σ → α → Option σ) : σ → σ → Prop := Runs step (fun _ _ => True)

theorem runs_of_exec {ok : σ → α → Prop} : ∀ (as : List α) {s₀ s s' : σ}, Runs step ok s₀ s → exec step s as = some s' →
    (∀ pre a post t, as = pre ++ a :: post → exec step s pre = some t → ok t a) → Runs step ok s₀ s'
  | [], _, _, _, hr, h, _ => by
    cases h
    exact hr
  | a :: as, _, s, _, hr, h, hok => by
    obtain ⟨t, ht, hrest⟩ := Option.bind_eq_some_iff.1 h
    refine runs_of_exec as (hr.next a (hok [] a as s rfl rfl) ht) hrest (fun pre b post u hsplit hu => ?_)
    refine hok (a :: pre) b post u (by rw [hsplit]; rfl) ?_
    show (step s a).bind (fun s' => exec step s' pre) = some u
    rw [ht]
    exact hu

theorem reaches_of_exec (as : List α) {s₀ s s' : σ} (hr : Reaches step s₀ s) (h : exec step s as = some s') :
    Reaches step s₀ s' :=
  runs_of_exec as hr h (fun _ _ _ _ _ _ => trivial)

theorem exec_append : ∀ (as bs : List α) {s s' s'' : σ}, exec step s as = some s' → exec step s' bs = some s'' →
    exec step s (as ++ bs) = some s''
  | [], _, _, _, _, h, h' => by
    cases h
    exact h'
  | a :: as, bs, s, _, _, h, h' => by
    obtain ⟨t, ht, hrest⟩ := Option.bind_eq_some_iff.1 h
    show (step s a).bind (fun s' => exec step s' (as ++ bs)) = _
    rw [ht]
    exact exec_append as bs hrest h'

theorem exec_snoc (step : σ → α → Option σ) (a : α) : ∀ (as : List α) (s : σ),
    exec step s (as ++ [a]) = (exec step s as).bind (fun s' => step s' a)
  | [], s => by
    show (step s a).bind some = step s a
    cases step s a <;> rfl
  | b :: as, s => by
    show (step s b).bind (fun s' => exec step s' (as ++ [a])) = ((step s b).bind fun s' => exec step s' as).bind _
    cases step s b with
    | none => rfl
    | some s' => exact exec_snoc step a as s'

def play (step : σ → α → Option σ) (s : σ) (as : List α) : σ := (exec step s as).getD s

theorem exec_play {s : σ} {as : List α} (h : (exec step s as).isSome) : exec step s as = some (play step s as) := by
  obtain ⟨t, ht⟩ := Option.isSome_iff_exists.1 h
  rw [play, ht]
  rfl

theorem reaches_play {s : σ} {as : List α} (h : (exec step s as).isSome) : Reaches step s (play step s as) :=
  reaches_of_exec as .refl (exec_play h)

/-- **A played list of labels is a run** when each of them meets the condition where the ones before it lead. -/
theorem runs_play {ok : σ → α → Prop} {s : σ} {as : List α} (h : (exec step s as).isSome)
    (hok : ∀ n a, as[n]? = some a → ok (play step s (as.take n)) a) : Runs step ok s (play step s as) := by
  refine runs_of_exec as .refl (exec_play h) (fun pre a post u hsplit hu => ?_)
  have hmid : play step s (as.take pre.length) = u := by rw [hsplit, List.take_left, play, hu]; rfl
  rw [← hmid]
  exact hok pre.length a (by simp [hsplit])

/-- **The ranking rule.**  Where every counted step takes one from a rank and no step adds to it, a run has no more
counted steps than the rank it starts with. -/
theorem countP_le_rank {P : σ → Prop} {rank : σ → Nat} {counted : α → Bool}
    (hP : ∀ s a s', P s → step s a = some s' → P s')
    (hrank : ∀ s a s', P s → step s a = some s' → rank s' + (if counted a then 1 else 0) ≤ rank s) :
    ∀ (as : List α) {s s' : σ}, P s → exec step s as = some s' → as.countP counted + rank s' ≤ rank s
  | [], s, _, _, h => by
    cases h
    simp
  | a :: as, s, s', hs, h => by
    obtain ⟨t, ht, hrest⟩ := Option.bind_eq_some_iff.1 h
    have hstep := hrank s a t hs ht
    have hlater := countP_le_rank hP hrank as (hP s a t hs ht) hrest
    rw [List.countP_cons]
    omega

end Trace
