import Blq.Monad.Basic

/-!
# Invariants of fallible code

`Keeps I x s Q`: started in `s`, the computation `x` ends in a state with `I`, whether it
succeeds or not, and a result it returns meets `Q`. One rule for each way computations are
put together; the rules for loops are the invariant rules.
-/

namespace Blq.Result

variable {ε ε' σ α β : Type}

def Keeps (I : σ → Prop) (x : EStateM ε σ α) (s : σ) (Q : α → σ → Prop) : Prop :=
  match x s with
  | .ok a s' => I s' ∧ Q a s'
  | .error _ s' => I s'

/-- The state a computation ends in, whether it succeeds or not. -/
def finalState (x : EStateM ε σ α) (s : σ) : σ :=
  match x s with
  | .ok _ s' | .error _ s' => s'

theorem eq_ok_finalState {x : EStateM ε σ Unit} {s : σ} (h : (x s matches .ok _ _) = true) :
    x s = .ok () (finalState x s) := by
  unfold finalState
  cases hx : x s with
  | ok a s' => rfl
  | error e s' =>
    rw [hx] at h
    exact absurd h Bool.false_ne_true

variable {I : σ → Prop} {s : σ} {Q : α → σ → Prop}

theorem Keeps.of_ok {x : EStateM ε σ α} (h : Keeps I x s Q) {a : α} {s' : σ}
    (hx : x s = .ok a s') : I s' ∧ Q a s' := by
  unfold Keeps at h
  rwa [hx] at h

theorem Keeps.of_error {x : EStateM ε σ α} (h : Keeps I x s Q) {e : ε} {s' : σ}
    (hx : x s = .error e s') : I s' := by
  unfold Keeps at h
  rwa [hx] at h

theorem keeps_of_eq_ok {x : EStateM ε σ α} {a : α} {s' : σ} (hx : x s = .ok a s') (hI : I s')
    (hq : Q a s') : Keeps I x s Q := by
  unfold Keeps
  rw [hx]
  exact ⟨hI, hq⟩

theorem Keeps.final {x : EStateM ε σ α} (h : Keeps I x s Q) : I (finalState x s) := by
  unfold finalState
  split
  next hok => exact (h.of_ok hok).1
  next herr => exact h.of_error herr

theorem Keeps.mono {x : EStateM ε σ α} {Q' : α → σ → Prop} (h : Keeps I x s Q)
    (himp : ∀ a s', I s' → Q a s' → Q' a s') : Keeps I x s Q' := by
  unfold Keeps at h ⊢
  split at h <;> simp_all

theorem Keeps.imp {J : σ → Prop} {x : EStateM ε σ α} (h : Keeps I x s Q)
    (himp : ∀ s', I s' → J s') : Keeps J x s Q := by
  unfold Keeps at h ⊢
  split at h
  next => exact ⟨himp _ h.1, h.2⟩
  next => exact himp _ h

theorem Keeps.trivial {x : EStateM ε σ α} (h : Keeps I x s Q) : Keeps I x s fun _ _ => True :=
  h.mono fun _ _ _ _ => True.intro

theorem keeps_pure {a : α} (h : I s) (hq : Q a s) : Keeps I (pure a : EStateM ε σ α) s Q :=
  ⟨h, hq⟩

theorem keeps_throw {e : ε} (h : I s) : Keeps I (throw e : EStateM ε σ α) s Q := h

theorem keeps_get_bind {f : σ → EStateM ε σ α} (h : Keeps I (f s) s Q) :
    Keeps I (get >>= f) s Q := h

theorem keeps_modify {f : σ → σ} {Q : PUnit → σ → Prop} (h : I (f s)) (hq : Q ⟨⟩ (f s)) :
    Keeps I (modify f : EStateM ε σ PUnit) s Q :=
  ⟨h, hq⟩

theorem keeps_runExcept {x : Except ε α} (h : I s) (hq : ∀ a, x = .ok a → Q a s) :
    Keeps I (runExcept x : EStateM ε σ α) s Q := by
  unfold Keeps runExcept
  cases x with
  | error e => exact h
  | ok a => exact ⟨h, hq a rfl⟩

theorem keeps_runExcept_bind {x : Except ε β} {f : β → EStateM ε σ α} (hI : I s)
    (h : ∀ b, x = .ok b → Keeps I (f b) s Q) : Keeps I (runExcept x >>= f) s Q := by
  cases x with
  | error e => exact hI
  | ok b => exact h b rfl

theorem keeps_modify_bind {f : σ → σ} {g : PUnit → EStateM ε σ α} (h : Keeps I (g ⟨⟩) (f s) Q) :
    Keeps I (modify f >>= g) s Q := h

theorem keeps_set_bind {s' : σ} {g : PUnit → EStateM ε σ α} (h : Keeps I (g ⟨⟩) s' Q) :
    Keeps I (set s' >>= g) s Q := h

theorem Keeps.bind {x : EStateM ε σ α} {f : α → EStateM ε σ β} {P : α → σ → Prop}
    {Q : β → σ → Prop} (hx : Keeps I x s P)
    (hf : ∀ a s', I s' → P a s' → Keeps I (f a) s' Q) : Keeps I (x >>= f) s Q := by
  unfold Keeps at hx ⊢
  show match EStateM.bind x f s with | .ok a s' => I s' ∧ Q a s' | .error _ s' => I s'
  unfold EStateM.bind
  split at hx
  next a s' hok =>
    rw [hok]
    exact hf a s' hx.1 hx.2
  next e s' herr =>
    rw [herr]
    exact hx

theorem keeps_ite {p : Prop} [Decidable p] {x y : EStateM ε σ α} (hx : p → Keeps I x s Q)
    (hy : ¬p → Keeps I y s Q) : Keeps I (if p then x else y) s Q := by
  split
  next hp => exact hx hp
  next hp => exact hy hp

theorem keeps_ite_throw {p : Prop} [Decidable p] {e : ε} {y : EStateM ε σ α} (h : I s)
    (hy : ¬p → Keeps I y s Q) : Keeps I (if p then throw e else y) s Q :=
  keeps_ite (fun _ => keeps_throw h) hy

theorem Keeps.adaptExcept {x : EStateM ε σ α} (f : ε → ε') (h : Keeps I x s Q) :
    Keeps I (EStateM.adaptExcept f x) s Q := by
  unfold Keeps EStateM.adaptExcept at *
  split at h <;> simp_all

theorem Keeps.attempt {x : EStateM ε σ α} (h : Keeps I x s Q) :
    Keeps I (attempt x) s fun outcome s' => ∀ a, outcome = .ok a → Q a s' := by
  unfold Keeps Result.attempt at *
  split at h <;> simp_all

theorem Keeps.ignoreError {x : EStateM ε σ Unit} {Q : Unit → σ → Prop} (h : Keeps I x s Q) :
    Keeps I (ignoreError x) s fun _ _ => True :=
  h.attempt.bind fun _ _ hI _ => keeps_pure hI True.intro

/-- The invariant rule of a loop that carries a value along. -/
theorem keeps_foldlM {f : β → α → EStateM ε σ β} {l : List α} {b : β} {L : β → σ → Prop} (hI : I s)
    (hb : L b s) (hf : ∀ a ∈ l, ∀ b s, I s → L b s → Keeps I (f b a) s L) :
    Keeps I (l.foldlM f b) s L := by
  induction l generalizing b s with
  | nil => exact keeps_pure hI hb
  | cons a l ih =>
    rw [List.foldlM_cons]
    refine (hf a (by simp) b s hI hb).bind fun b' s' hI' hb' => ?_
    exact ih hI' hb' fun a' ha' => hf a' (List.mem_cons_of_mem a ha')

/-- The invariant rule of a loop. -/
theorem keeps_forM {f : α → EStateM ε σ PUnit} {l : List α} {L : σ → Prop} (hI : I s)
    (hs : L s) (hf : ∀ a ∈ l, ∀ s, I s → L s → Keeps I (f a) s fun _ => L) :
    Keeps I (l.forM f) s fun _ => L := by
  induction l generalizing s with
  | nil => exact keeps_pure hI hs
  | cons a l ih =>
    show Keeps I (f a >>= fun _ => l.forM f) s fun _ => L
    refine (hf a (by simp) s hI hs).bind fun _ s' hI' hs' => ?_
    exact ih hI' hs' fun a' ha' => hf a' (List.mem_cons_of_mem a ha')

end Blq.Result
