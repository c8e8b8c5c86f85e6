import Blq.Monad.Invariant

/-!
# Writes that become durable one by one

A state on disk together with the states it has had since the computation started. Each `durably`
is one atomic write; a crash between two writes leaves what is on disk at that moment, and so does
a write that fails, since the computation stops there. `crashStates x s` lists what can be left of
`s`: its `k`-th element is the state after `k` writes. `Writes obs x n` counts the writes of
computations that cannot fail.
-/

namespace Blq.Result

variable {ε σ α β : Type}

structure Durable (σ : Type) where
  current : σ
  past : List σ := []

def durably (f : σ → σ) : EStateM ε (Durable σ) PUnit :=
  modify fun d => ⟨f d.current, d.past ++ [d.current]⟩

/-- What is on disk. -/
def onDisk : EStateM ε (Durable σ) σ := do
  let d ← get
  pure d.current

/-- The states that were or are on disk, the oldest first. -/
def Durable.states (d : Durable σ) : List σ := d.past ++ [d.current]

def crashStates (x : EStateM ε (Durable σ) α) (s : σ) : List σ := (finalState x ⟨s, []⟩).states

theorem onDisk_bind_apply {f : σ → EStateM ε (Durable σ) α} {d : Durable σ} :
    (onDisk >>= f) d = f d.current d := rfl

theorem durably_bind_apply {f : σ → σ} {k : PUnit → EStateM ε (Durable σ) α} {d : Durable σ} :
    (durably f >>= k) d = k ⟨⟩ ⟨f d.current, d.past ++ [d.current]⟩ := rfl

/-! ## Counting writes -/

section Writes

variable {X : Type} {obs : σ → X}

/-- The computation always succeeds, with exactly `n` writes, and none of them changes `obs`. -/
def Writes (obs : σ → X) (x : EStateM ε (Durable σ) PUnit) (n : ℕ) : Prop :=
  ∀ d, ∃ d' new, x d = .ok ⟨⟩ d' ∧ d'.past = d.past ++ new ∧ new.length = n ∧
    (∀ s ∈ new, obs s = obs d.current) ∧ obs d'.current = obs d.current

theorem writes_pure : Writes obs (pure ⟨⟩ : EStateM ε (Durable σ) PUnit) 0 := by
  intro d
  exact ⟨d, [], rfl, by simp, rfl, by simp, rfl⟩

theorem writes_durably {f : σ → σ} (hf : ∀ s, obs (f s) = obs s) :
    Writes obs (durably f : EStateM ε (Durable σ) PUnit) 1 := by
  intro d
  refine ⟨_, [d.current], rfl, rfl, rfl, ?_, hf d.current⟩
  intro s hs
  rw [List.mem_singleton.mp hs]

theorem Writes.seq {x y : EStateM ε (Durable σ) PUnit} {n m : ℕ} (hx : Writes obs x n)
    (hy : Writes obs y m) : Writes obs (x >>= fun _ => y) (n + m) := by
  intro d
  obtain ⟨d₁, new₁, hrun₁, hpast₁, hlength₁, hnew₁, hobs₁⟩ := hx d
  obtain ⟨d₂, new₂, hrun₂, hpast₂, hlength₂, hnew₂, hobs₂⟩ := hy d₁
  refine ⟨d₂, new₁ ++ new₂, by rw [bind_apply_of_ok hrun₁, hrun₂], ?_, ?_, ?_, hobs₂.trans hobs₁⟩
  · rw [hpast₂, hpast₁, List.append_assoc]
  · rw [List.length_append, hlength₁, hlength₂]
  · intro s hs
    rcases List.mem_append.mp hs with h | h
    · exact hnew₁ s h
    · exact (hnew₂ s h).trans hobs₁

theorem writes_forM {f : α → EStateM ε (Durable σ) PUnit} {n : α → ℕ} {l : List α}
    (hf : ∀ a ∈ l, Writes obs (f a) (n a)) : Writes obs (l.forM f) (l.map n).sum := by
  induction l with
  | nil => exact writes_pure
  | cons a l ih =>
    rw [List.map_cons, List.sum_cons]
    exact (hf a (by simp)).seq (ih fun a' ha' => hf a' (List.mem_cons_of_mem a ha'))

theorem Writes.mono {Y : Type} {obs' : σ → Y} {x : EStateM ε (Durable σ) PUnit} {n : ℕ}
    (hx : Writes obs x n) (h : ∀ s s', obs s = obs s' → obs' s = obs' s') : Writes obs' x n := by
  intro d
  obtain ⟨d', new, hrun, hpast, hlength, hnew, hobs⟩ := hx d
  exact ⟨d', new, hrun, hpast, hlength, fun s hs => h _ _ (hnew s hs), h _ _ hobs⟩

end Writes

end Blq.Result
