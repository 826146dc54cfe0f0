/-!
# Raising — code that raises, with a state that stays, and cleanup

`Raising ε σ` is code that reads and writes a state and may raise; what it has written before it raises stays written.
`runFrom` is one run of it, and each construct has a lemma that says how it runs.  `Keeps R` holds of code that goes from a
state to one in the relation `R`, whichever way it ends.
-/
abbrev Raising (ε σ : Type) := ExceptT ε (StateM σ)

namespace Raising

variable {ε σ α β : Type}

def runFrom (x : Raising ε σ α) (s : σ) : Except ε α × σ := StateT.run (ExceptT.run x) s

def await (o : Except ε α) : Raising ε σ α := ExceptT.mk (pure o)

@[simp] theorem runFrom_pure (a : α) (s : σ) : runFrom (pure a : Raising ε σ α) s = (.ok a, s) := rfl

@[simp] theorem runFrom_throw (e : ε) (s : σ) : runFrom (throw e : Raising ε σ α) s = (.error e, s) := rfl

@[simp] theorem runFrom_await (o : Except ε α) (s : σ) : runFrom (await o : Raising ε σ α) s = (o, s) := rfl

@[simp] theorem runFrom_get (s : σ) : runFrom (get : Raising ε σ σ) s = (.ok s, s) := rfl

@[simp] theorem runFrom_set (s t : σ) : runFrom (set t : Raising ε σ PUnit) s = (.ok ⟨⟩, t) := rfl

@[simp] theorem runFrom_modify (f : σ → σ) (s : σ) : runFrom (modify f : Raising ε σ PUnit) s = (.ok ⟨⟩, f s) := rfl

theorem runFrom_bind (x : Raising ε σ α) (f : α → Raising ε σ β) (s : σ) : runFrom (x >>= f) s =
    match runFrom x s with
    | (.ok a, t) => runFrom (f a) t
    | (.error e, t) => (.error e, t) := by
  show (ExceptT.bindCont f (runFrom x s).1).run (runFrom x s).2 = _
  cases hrun : runFrom x s with
  | mk o t => cases o <;> rfl

theorem runFrom_tryCatch (x : Raising ε σ α) (handler : ε → Raising ε σ α) (s : σ) :
    runFrom (tryCatch x handler) s =
      match runFrom x s with
      | (.ok a, t) => (.ok a, t)
      | (.error e, t) => runFrom (handler e) t := by
  show (match (runFrom x s).1 with
    | .ok a => pure (.ok a)
    | .error e => handler e : StateM σ (Except ε α)).run (runFrom x s).2 = _
  cases hrun : runFrom x s with
  | mk o t => cases o <;> rfl

theorem runFrom_tryFinally (x : Raising ε σ α) (cleanup : Raising ε σ PUnit) (s : σ) :
    runFrom (tryFinally x cleanup) s =
      match runFrom cleanup (runFrom x s).2 with
      | (.ok _, t) => ((runFrom x s).1, t)
      | (.error e, t) => (.error e, t) := by
  cases hrun : runFrom x s with
  | mk o t =>
    cases hclean : runFrom cleanup t with
    | mk o' t' =>
      have hx : x s = (o, t) := hrun
      have hc : cleanup t = (o', t') := hclean
      unfold runFrom tryFinally
      simp only [tryFinally', StateT.run, ExceptT.run, ExceptT.mk, Functor.map, ExceptT.map,
        StateT.bind, bind]
      rw [hx]
      cases o <;> cases o' <;> simp only [hc] <;> rfl

/-! ## what code does to its state, whichever way it ends -/

def Keeps (R : σ → σ → Prop) (x : Raising ε σ α) : Prop := ∀ s, R s (runFrom x s).2

variable {R : σ → σ → Prop}

theorem Keeps.mono {R' : σ → σ → Prop} {x : Raising ε σ α} (hx : Keeps R x) (h : ∀ s t, R s t → R' s t) : Keeps R' x :=
  fun s => h s _ (hx s)

theorem Keeps.pure (hrefl : ∀ s, R s s) (a : α) : Keeps R (Pure.pure a : Raising ε σ α) := hrefl

theorem Keeps.throw (hrefl : ∀ s, R s s) (e : ε) : Keeps R (MonadExcept.throw e : Raising ε σ α) := hrefl

theorem Keeps.modify {f : σ → σ} (h : ∀ s, R s (f s)) : Keeps R (modify f : Raising ε σ PUnit) := h

theorem Keeps.get_bind {f : σ → Raising ε σ α} (h : ∀ s, R s (runFrom (f s) s).2) : Keeps R (MonadState.get >>= f) := by
  intro s
  rw [runFrom_bind]
  exact h s

theorem Keeps.bind_add {S T : σ → σ → Prop} {x : Raising ε σ α} {f : α → Raising ε σ β} (hx : Keeps R x)
    (hf : ∀ a, Keeps S (f a)) (hend : ∀ s t, R s t → T s t) (htrans : ∀ s t u, R s t → S t u → T s u) :
    Keeps T (x >>= f) := by
  intro s
  have hxs := hx s
  rw [runFrom_bind]
  cases hrun : runFrom x s with
  | mk o t =>
    rw [hrun] at hxs
    cases o with
    | ok a => exact htrans s t _ hxs (hf a t)
    | error e => exact hend s t hxs

theorem Keeps.bind (htrans : ∀ s t u, R s t → R t u → R s u) {x : Raising ε σ α} {f : α → Raising ε σ β}
    (hx : Keeps R x) (hf : ∀ a, Keeps R (f a)) : Keeps R (x >>= f) :=
  hx.bind_add hf (fun _ _ h => h) htrans

theorem Keeps.tryCatch (htrans : ∀ s t u, R s t → R t u → R s u) {x : Raising ε σ α} {handler : ε → Raising ε σ α}
    (hx : Keeps R x) (hh : ∀ e, Keeps R (handler e)) : Keeps R (MonadExcept.tryCatch x handler) := by
  intro s
  have hxs := hx s
  rw [runFrom_tryCatch]
  cases hrun : runFrom x s with
  | mk o t =>
    rw [hrun] at hxs
    cases o with
    | ok a => exact hxs
    | error e => exact htrans s t _ hxs (hh e t)

def Returns (x : Raising ε σ α) : Prop := ∀ s, ∃ a, (runFrom x s).1 = .ok a

theorem Returns.pure (a : α) : Returns (Pure.pure a : Raising ε σ α) := fun _ => ⟨a, rfl⟩

theorem Returns.modify (f : σ → σ) : Returns (MonadStateOf.modifyGet fun s => (PUnit.unit, f s) : Raising ε σ PUnit) :=
  fun _ => ⟨PUnit.unit, rfl⟩

theorem Returns.bind {x : Raising ε σ α} {f : α → Raising ε σ β} (hx : Returns x) (hf : ∀ a, Returns (f a)) :
    Returns (x >>= f) := by
  intro s
  obtain ⟨a, ha⟩ := hx s
  rw [runFrom_bind]
  cases hrun : runFrom x s with
  | mk o t =>
    rw [hrun] at ha
    dsimp only at ha
    subst ha
    exact hf a t

theorem Keeps.bind_returns {S T : σ → σ → Prop} {x : Raising ε σ α} {f : α → Raising ε σ β} (hr : Returns x) (hx : Keeps R x)
    (hf : ∀ a, Keeps S (f a)) (htrans : ∀ s t u, R s t → S t u → T s u) : Keeps T (x >>= f) := by
  intro s
  obtain ⟨a, ha⟩ := hr s
  have hxs := hx s
  rw [runFrom_bind]
  cases hrun : runFrom x s with
  | mk o t =>
    rw [hrun] at ha hxs
    dsimp only at ha hxs
    subst ha
    exact htrans s t _ hxs (hf a t)

def Raises (x : Raising ε σ α) : Prop := ∀ s, ∃ e, (runFrom x s).1 = .error e

theorem Raises.throw (e : ε) : Raises (MonadExcept.throw e : Raising ε σ α) := fun _ => ⟨e, rfl⟩

theorem Raises.bind {x : Raising ε σ α} {f : α → Raising ε σ β} (hf : ∀ a, Raises (f a)) : Raises (x >>= f) := by
  intro s
  rw [runFrom_bind]
  cases hrun : runFrom x s with
  | mk o t =>
    cases o with
    | ok a => exact hf a t
    | error e => exact ⟨e, rfl⟩

theorem Keeps.tryCatch_bind {S T : σ → σ → Prop} {x : Raising ε σ α} {handler : ε → Raising ε σ α}
    {f : α → Raising ε σ β} (hx : Keeps R x) (hraises : ∀ e, Raises (handler e)) (hh : ∀ e, Keeps S (handler e))
    (hf : ∀ a, Keeps S (f a)) (htrans : ∀ s t u, R s t → S t u → T s u) :
    Keeps T (MonadExcept.tryCatch x handler >>= f) := by
  intro s
  have hxs := hx s
  rw [runFrom_bind, runFrom_tryCatch]
  cases hrun : runFrom x s with
  | mk o t =>
    rw [hrun] at hxs
    cases o with
    | ok a => exact htrans s t _ hxs (hf a t)
    | error e =>
      obtain ⟨e', he'⟩ := hraises e t
      have hhs := hh e t
      dsimp only
      cases hhandled : runFrom (handler e) t with
      | mk o' t' =>
        rw [hhandled] at he' hhs
        dsimp only at he' hhs
        subst he'
        exact htrans s t t' hxs hhs

end Raising
