import Blq.Monad.Invariant

/-!
# Simulation between computations on different states

`SimulatesAt g x y s`: started in `g s`, the computation `y` takes the same course as `x` started in
`s`, and ends in the image under `g` of the state `x` ends in. For a `g` that forgets a part of the
state, `y` is what `x` does on the rest. One rule for each way computations are put together.
-/

namespace Blq.Result

variable {ε ε' σ τ α β : Type} {g : σ → τ} {s : σ}

def mapState (g : σ → τ) : EStateM.Result ε σ α → EStateM.Result ε τ α
  | .ok a s => .ok a (g s)
  | .error e s => .error e (g s)

def SimulatesAt (g : σ → τ) (x : EStateM ε σ α) (y : EStateM ε τ α) (s : σ) : Prop :=
  y (g s) = mapState g (x s)

theorem SimulatesAt.of_ok {x : EStateM ε σ α} {y : EStateM ε τ α} (h : SimulatesAt g x y s) {a : α}
    {s' : σ} (hx : x s = .ok a s') : y (g s) = .ok a (g s') := by
  rw [SimulatesAt, hx] at h
  exact h

theorem SimulatesAt.of_error {x : EStateM ε σ α} {y : EStateM ε τ α} (h : SimulatesAt g x y s) {e : ε}
    {s' : σ} (hx : x s = .error e s') : y (g s) = .error e (g s') := by
  rw [SimulatesAt, hx] at h
  exact h

theorem SimulatesAt.exists_ok {x : EStateM ε σ α} {y : EStateM ε τ α} (h : SimulatesAt g x y s)
    {a : α} {t : τ} (hy : y (g s) = .ok a t) : ∃ s', x s = .ok a s' ∧ g s' = t := by
  rw [SimulatesAt] at h
  cases hx : x s with
  | ok b s' =>
    rw [hx, hy] at h
    obtain ⟨rfl, rfl⟩ := EStateM.Result.ok.inj h
    exact ⟨s', rfl, rfl⟩
  | error e s' =>
    rw [hx, hy] at h
    cases h

theorem simulatesAt_pure {a : α} : SimulatesAt g (pure a : EStateM ε σ α) (pure a) s := rfl

theorem simulatesAt_throw {e : ε} : SimulatesAt g (throw e : EStateM ε σ α) (throw e) s := rfl

theorem simulatesAt_runExcept {x : Except ε α} :
    SimulatesAt g (runExcept x : EStateM ε σ α) (runExcept x) s := by
  cases x <;> rfl

theorem SimulatesAt.bind {x : EStateM ε σ α} {y : EStateM ε τ α} {f : α → EStateM ε σ β}
    {f' : α → EStateM ε τ β} (hx : SimulatesAt g x y s)
    (hf : ∀ a s', x s = .ok a s' → SimulatesAt g (f a) (f' a) s') :
    SimulatesAt g (x >>= f) (y >>= f') s := by
  cases hrun : x s with
  | ok a s' =>
    show (y >>= f') (g s) = mapState g ((x >>= f) s)
    rw [bind_apply_of_ok hrun, bind_apply_of_ok (hx.of_ok hrun)]
    exact hf a s' hrun
  | error e s' =>
    show (y >>= f') (g s) = mapState g ((x >>= f) s)
    rw [bind_apply_of_error hrun, bind_apply_of_error (hx.of_error hrun)]
    rfl

theorem simulatesAt_ite {p : Prop} [Decidable p] {x x' : EStateM ε σ α} {y y' : EStateM ε τ α}
    (hx : p → SimulatesAt g x y s) (hx' : ¬p → SimulatesAt g x' y' s) :
    SimulatesAt g (if p then x else x') (if p then y else y') s := by
  split
  next hp => exact hx hp
  next hp => exact hx' hp

theorem simulatesAt_forM {f : α → EStateM ε σ PUnit} {f' : α → EStateM ε τ PUnit} {l : List α}
    (hf : ∀ a ∈ l, ∀ s, SimulatesAt g (f a) (f' a) s) : SimulatesAt g (l.forM f) (l.forM f') s := by
  induction l generalizing s with
  | nil => exact simulatesAt_pure
  | cons a l ih =>
    show SimulatesAt g (f a >>= fun _ => l.forM f) (f' a >>= fun _ => l.forM f') s
    refine (hf a (by simp) s).bind fun _ s' _ => ?_
    exact ih fun a' ha' => hf a' (List.mem_cons_of_mem a ha')

/-! ## Errors renamed

The renaming moves inside a sequence of steps. -/

section Rename

variable {f : ε → ε'}

theorem adaptExcept_bind {x : EStateM ε σ α} {k : α → EStateM ε σ β} :
    EStateM.adaptExcept f (x >>= k) =
      EStateM.adaptExcept f x >>= fun a => EStateM.adaptExcept f (k a) := by
  funext s
  cases hx : x s with
  | ok a s' =>
    have hadapt : EStateM.adaptExcept f x s = .ok a s' := by
      rw [EStateM.adaptExcept, hx]
    rw [bind_apply_of_ok hadapt, EStateM.adaptExcept, EStateM.adaptExcept, bind_apply_of_ok hx]
  | error e s' =>
    have hadapt : EStateM.adaptExcept f x s = .error (f e) s' := by
      rw [EStateM.adaptExcept, hx]
    rw [bind_apply_of_error hadapt, EStateM.adaptExcept, bind_apply_of_error hx]

theorem of_adaptExcept_eq_ok {x : EStateM ε σ α} {f : ε → ε'} {s s' : σ} {a : α}
    (h : EStateM.adaptExcept f x s = .ok a s') : x s = .ok a s' := by
  unfold EStateM.adaptExcept at h
  split at h
  · cases h
  · next a' s'' hx =>
    obtain ⟨rfl, rfl⟩ := EStateM.Result.ok.inj h
    exact hx

theorem adaptExcept_get_bind {k : σ → EStateM ε σ α} :
    EStateM.adaptExcept f (get >>= k) = get >>= fun s => EStateM.adaptExcept f (k s) := rfl

theorem adaptExcept_modify {h : σ → σ} :
    EStateM.adaptExcept f (modify h : EStateM ε σ PUnit) = modify h := rfl

theorem adaptExcept_runExcept {x : Except ε α} :
    EStateM.adaptExcept f (runExcept x : EStateM ε σ α) = runExcept (x.mapError f) := by
  cases x <;> rfl

theorem adaptExcept_ite {p : Prop} [Decidable p] {x y : EStateM ε σ α} :
    EStateM.adaptExcept f (if p then x else y) =
      if p then EStateM.adaptExcept f x else EStateM.adaptExcept f y := by
  split <;> rfl

theorem adaptExcept_forM {k : α → EStateM ε σ PUnit} {l : List α} :
    EStateM.adaptExcept f (l.forM k) = l.forM fun a => EStateM.adaptExcept f (k a) := by
  induction l with
  | nil => rfl
  | cons a l ih =>
    show EStateM.adaptExcept f (k a >>= fun _ => l.forM k) =
      EStateM.adaptExcept f (k a) >>= fun _ => l.forM fun a => EStateM.adaptExcept f (k a)
    rw [adaptExcept_bind, ih]

end Rename

end Blq.Result
