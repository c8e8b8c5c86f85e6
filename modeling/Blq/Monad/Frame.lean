import Blq.Monad.Simulation

/-!
# Computations that do not see a part of the state

`FramesAt g x s`: started in `g s` instead of `s`, the computation `x` takes the same course and
ends in `g` of the state it would have ended in, so that it simulates itself. For a `g` that
replaces a part of the state, this says that `x` neither reads nor writes that part. The rules of a
simulation are joined by those for reading and writing the state.

`forM_cases` says where a loop that fails has stopped.
-/

namespace Blq.Result

variable {ε ε' σ α β : Type} {g : σ → σ} {s : σ}

abbrev FramesAt (g : σ → σ) (x : EStateM ε σ α) (s : σ) : Prop := SimulatesAt g x x s

theorem framesAt_modify {f : σ → σ} (h : f (g s) = g (f s)) :
    FramesAt g (modify f : EStateM ε σ PUnit) s := by
  show (.ok PUnit.unit (f (g s)) : EStateM.Result ε σ PUnit) = .ok PUnit.unit (g (f s))
  rw [h]

theorem framesAt_get_bind {f : σ → EStateM ε σ α} (heq : f (g s) = f s) (h : FramesAt g (f s) s) :
    FramesAt g (get >>= f) s := by
  show f (g s) (g s) = mapState g (f s s)
  rw [heq]
  exact h

theorem framesAt_modify_bind {f : σ → σ} {k : PUnit → EStateM ε σ α} (h : f (g s) = g (f s))
    (hk : FramesAt g (k ⟨⟩) (f s)) : FramesAt g (modify f >>= k) s := by
  show k ⟨⟩ (f (g s)) = mapState g (k ⟨⟩ (f s))
  rw [h]
  exact hk

theorem FramesAt.adaptExcept {x : EStateM ε σ α} (f : ε → ε') (h : FramesAt g x s) :
    FramesAt g (EStateM.adaptExcept f x) s := by
  show EStateM.adaptExcept f x (g s) = mapState g (EStateM.adaptExcept f x s)
  rw [EStateM.adaptExcept, EStateM.adaptExcept, h]
  cases x s <;> rfl

/-! ## Where a loop stops -/

/-- **A loop runs through or stops at one of its items**, after the turns for those before. -/
theorem forM_cases (f : α → EStateM ε σ PUnit) (l : List α) (s : σ) :
    (∃ s', l.forM f s = .ok ⟨⟩ s') ∨
      ∃ done a rest e s₁ s', l = done ++ a :: rest ∧ done.forM f s = .ok ⟨⟩ s₁ ∧
        f a s₁ = .error e s' ∧ l.forM f s = .error e s' := by
  induction l generalizing s with
  | nil => exact .inl ⟨s, rfl⟩
  | cons a l ih =>
    cases ha : f a s with
    | error e s' =>
      refine .inr ⟨[], a, l, e, s, s', rfl, rfl, ha, ?_⟩
      show (f a >>= fun _ => l.forM f) s = _
      exact bind_apply_of_error ha
    | ok u s₁ =>
      have hrun : ∀ rest, (a :: rest).forM f s = rest.forM f s₁ := by
        intro rest
        show (f a >>= fun _ => rest.forM f) s = _
        exact bind_apply_of_ok ha
      rcases ih s₁ with ⟨s', hok⟩ | ⟨done, b, rest, e, s₂, s', rfl, hdone, hb, herr⟩
      · exact .inl ⟨s', by rw [hrun, hok]⟩
      · exact .inr ⟨a :: done, b, rest, e, s₂, s', rfl, by rw [hrun, hdone], hb, by rw [hrun, herr]⟩

end Blq.Result
