import Mathlib.Computability.RegularExpressions
import Mathlib.Data.Finset.Insert
import Mathlib.Data.Fintype.Basic
import Mathlib.Logic.Relation
import Mathlib.Tactic

/-!
# Threads that lock mutexes

Any number of threads, each running one handler after the other. What a handler does to
the mutexes is a regular expression over `acquire` and `release`: its words are the lock
sequences its control flow allows. Mutexes are not reentrant.

* `check`, `check_sound`: a static analysis of a handler. It computes the mutexes held at
  the end and checks, at each `acquire`, that the handler may take this mutex while it
  holds those.
* `inv_step`, `run_induction`: each thread holds what the rest of its word needs, after one
  step and, by the rule for runs, in every reachable state.
* `CrossWait.may_acquire`: two threads that wait for each other both acquire one mutex while they
  hold the other.
-/

namespace Blq.Lock

inductive Op (L : Type) where
  | acquire (l : L)
  | release (l : L)
deriving DecidableEq

section Static

variable {L : Type} [DecidableEq L]

/-- From the mutexes `h` the lock sequence leads to the second set, every acquisition being
one that `may` allows. -/
inductive Runs (may : Finset L → L → Bool) : Finset L → List (Op L) → Finset L → Prop
  | nil (h : Finset L) : Runs may h [] h
  | acquire {h h' : Finset L} {l : L} {w : List (Op L)} : l ∉ h → may h l = true →
      Runs may (insert l h) w h' → Runs may h (.acquire l :: w) h'
  | release {h h' : Finset L} {l : L} {w : List (Op L)} : l ∈ h →
      Runs may (h.erase l) w h' → Runs may h (.release l :: w) h'

theorem Runs.append {may : Finset L → L → Bool} {h h₁ h₂ : Finset L} {w w' : List (Op L)}
    (hw : Runs may h w h₁) (hw' : Runs may h₁ w' h₂) : Runs may h (w ++ w') h₂ := by
  induction hw with
  | nil h => exact hw'
  | acquire hl hmay _ ih => exact .acquire hl hmay (ih hw')
  | release hl _ ih => exact .release hl (ih hw')

/-- The mutexes held after any word of the expression, if every word is allowed and all
words end with the same ones. -/
def check (may : Finset L → L → Bool) : RegularExpression (Op L) → Finset L → Option (Finset L)
  | .zero, _ => none
  | .epsilon, h => some h
  | .char (.acquire l), h => if l ∉ h ∧ may h l = true then some (insert l h) else none
  | .char (.release l), h => if l ∈ h then some (h.erase l) else none
  | .plus P Q, h => if check may P h = check may Q h then check may P h else none
  | .comp P Q, h => (check may P h).bind (check may Q)
  | .star P, h => if check may P h = some h then some h else none

theorem runs_kstar {may : Finset L → L → Bool} {P : Language (Op L)} {h : Finset L}
    (hP : ∀ w ∈ P, Runs may h w h) {w : List (Op L)} (hw : w ∈ KStar.kstar P) : Runs may h w h := by
  obtain ⟨ws, rfl, hws⟩ := hw
  induction ws with
  | nil => exact .nil h
  | cons v vs ih =>
    refine (hP v (hws v List.mem_cons_self)).append (ih ?_)
    exact fun u hu => hws u (List.mem_cons_of_mem _ hu)

/-- **The analysis is sound.** -/
theorem check_sound {may : Finset L → L → Bool} {e : RegularExpression (Op L)} {h h' : Finset L}
    (hc : check may e h = some h') {w : List (Op L)} (hw : w ∈ e.matches') : Runs may h w h' := by
  induction e generalizing h h' w with
  | zero => cases hc
  | epsilon =>
    obtain rfl := Option.some.inj hc
    obtain rfl : w = [] := hw
    exact .nil h
  | char op =>
    obtain rfl : w = [op] := hw
    cases op with
    | acquire l =>
      simp only [check, Option.ite_none_right_eq_some, Option.some_inj] at hc
      obtain ⟨⟨hl, hmay⟩, rfl⟩ := hc
      exact .acquire hl hmay (.nil _)
    | release l =>
      simp only [check, Option.ite_none_right_eq_some, Option.some_inj] at hc
      obtain ⟨hl, rfl⟩ := hc
      exact .release hl (.nil _)
  | plus P Q ihP ihQ =>
    simp only [check, Option.ite_none_right_eq_some] at hc
    rcases hw with hw | hw
    · exact ihP hc.2 hw
    · exact ihQ (hc.1.symm.trans hc.2) hw
  | comp P Q ihP ihQ =>
    simp only [check, Option.bind_eq_some_iff] at hc
    obtain ⟨h₁, hP, hQ⟩ := hc
    obtain ⟨u, hu, v, hv, rfl⟩ := hw
    exact (ihP hP hu).append (ihQ hQ hv)
  | star P ih =>
    simp only [check, Option.ite_none_right_eq_some, Option.some_inj] at hc
    obtain ⟨hP, rfl⟩ := hc
    exact runs_kstar (fun v hv => ih hP hv) hw

end Static

/-! ## The system -/

section System

variable {L K : Type} [DecidableEq L]

/-- Who owns each mutex, which handler each thread runs and what is left of its word. -/
structure Sys (L K : Type) where
  owner : L → Option ℕ
  kind : ℕ → K
  todo : ℕ → List (Op L)

inductive Event (L K : Type) where
  | start (i : ℕ) (k : K)
  | acquire (i : ℕ) (l : L)
  | release (i : ℕ) (l : L)

namespace Sys

def start (s : Sys L K) (i : ℕ) (k : K) (w : List (Op L)) : Sys L K :=
  { s with kind := Function.update s.kind i k, todo := Function.update s.todo i w }

def acquire (s : Sys L K) (i : ℕ) (l : L) (w : List (Op L)) : Sys L K :=
  { s with owner := Function.update s.owner l (some i), todo := Function.update s.todo i w }

def release (s : Sys L K) (i : ℕ) (l : L) (w : List (Op L)) : Sys L K :=
  { s with owner := Function.update s.owner l none, todo := Function.update s.todo i w }

end Sys

/-- A thread that has nothing left to do may start any handler; a mutex is acquired when
nobody owns it and released by its owner. -/
inductive Step (handler : K → RegularExpression (Op L)) : Sys L K → Event L K → Sys L K → Prop
  | start {s : Sys L K} (i : ℕ) (k : K) (w : List (Op L)) : s.todo i = [] →
      w ∈ (handler k).matches' → Step handler s (.start i k) (s.start i k w)
  | acquire {s : Sys L K} (i : ℕ) (l : L) (w : List (Op L)) : s.todo i = .acquire l :: w →
      s.owner l = none → Step handler s (.acquire i l) (s.acquire i l w)
  | release {s : Sys L K} (i : ℕ) (l : L) (w : List (Op L)) : s.todo i = .release l :: w →
      s.owner l = some i → Step handler s (.release i l) (s.release i l w)

/-- Runs all of whose steps meet a condition on the state before the step. -/
def Run (handler : K → RegularExpression (Op L)) (cond : Sys L K → Event L K → Prop) :
    Sys L K → Sys L K → Prop :=
  Relation.ReflTransGen fun s s' => ∃ e, Step handler s e s' ∧ cond s e

theorem Run.step {handler : K → RegularExpression (Op L)} {cond : Sys L K → Event L K → Prop}
    {s₀ s s' : Sys L K} {e : Event L K} (hrun : Run handler cond s₀ s)
    (hstep : Step handler s e s') (hcond : cond s e) : Run handler cond s₀ s' :=
  Relation.ReflTransGen.tail hrun ⟨e, hstep, hcond⟩

/-- Nobody owns anything and no handler is running. -/
def Idle (s : Sys L K) : Prop := (∀ l, s.owner l = none) ∧ ∀ i, s.todo i = []

/-- One thread owns `a` and is about to acquire `b`, another owns `b` and is about to
acquire `a`. -/
def CrossWait (s : Sys L K) (a b : L) : Prop :=
  ∃ i j, s.owner a = some i ∧ (∃ w, s.todo i = .acquire b :: w) ∧
    s.owner b = some j ∧ ∃ w, s.todo j = .acquire a :: w

variable [Fintype L]

/-- The mutexes a thread owns. -/
def held (s : Sys L K) (i : ℕ) : Finset L := Finset.univ.filter fun l => s.owner l = some i

omit [DecidableEq L] in
@[simp] theorem mem_held {s : Sys L K} {i : ℕ} {l : L} : l ∈ held s i ↔ s.owner l = some i := by
  simp [held]

theorem held_acquire {s : Sys L K} {i : ℕ} {l : L} {w : List (Op L)} (hfree : s.owner l = none)
    (j : ℕ) : held (s.acquire i l w) j = if j = i then insert l (held s j) else held s j := by
  ext m
  rcases eq_or_ne i j with rfl | hj <;> rcases eq_or_ne m l with rfl | hm
  · simp [Sys.acquire, hfree]
  · simp [Sys.acquire, hm]
  · simp [Sys.acquire, hfree, hj, hj.symm]
  · simp [Sys.acquire, hm, hj.symm]

theorem held_release {s : Sys L K} {i : ℕ} {l : L} {w : List (Op L)} (howner : s.owner l = some i)
    (j : ℕ) : held (s.release i l w) j = if j = i then (held s j).erase l else held s j := by
  ext m
  rcases eq_or_ne i j with rfl | hj <;> rcases eq_or_ne m l with rfl | hm
  · simp [Sys.release, howner]
  · simp [Sys.release, hm]
  · simp [Sys.release, howner, hj, hj.symm]
  · simp [Sys.release, hm, hj.symm]

/-- What each thread holds is what the rest of its word needs to end with nothing held. -/
def Inv (may : K → Finset L → L → Bool) (s : Sys L K) : Prop :=
  ∀ i, Runs (may (s.kind i)) (held s i) (s.todo i) ∅

variable {may : K → Finset L → L → Bool} {handler : K → RegularExpression (Op L)} {s s' : Sys L K}

theorem inv_of_idle (h : Idle s) : Inv may s := by
  intro i
  have hheld : held s i = ∅ := by
    ext l
    simp [h.1 l]
  rw [hheld, h.2 i]
  exact .nil ∅

theorem Inv.held_eq_empty (h : Inv may s) {i : ℕ} (hi : s.todo i = []) : held s i = ∅ := by
  have hrun := h i
  rw [hi] at hrun
  generalize held s i = owned at hrun ⊢
  cases hrun
  rfl

/-- What a thread about to acquire a mutex holds allows it. -/
theorem Inv.may_acquire (h : Inv may s) {i : ℕ} {l : L} {w : List (Op L)}
    (hi : s.todo i = .acquire l :: w) : may (s.kind i) (held s i) l = true := by
  have hrun := h i
  rw [hi] at hrun
  cases hrun with
  | acquire _ hmay _ => exact hmay

/-- **Step lemma.** -/
theorem inv_step (hcheck : ∀ k, check (may k) (handler k) ∅ = some ∅) {e : Event L K}
    (hstep : Step handler s e s') (h : Inv may s) : Inv may s' := by
  intro j
  have hrun := h j
  cases hstep with
  | start i k w hi hw =>
    by_cases hj : j = i
    · subst hj
      have hheld := h.held_eq_empty hi
      simp only [Sys.start, Function.update_self]
      exact hheld ▸ check_sound (hcheck k) hw
    · simp only [Sys.start, Function.update_of_ne hj]
      exact hrun
  | acquire i l w hi hfree =>
    rw [held_acquire hfree]
    by_cases hj : j = i
    · subst hj
      rw [hi] at hrun
      simp only [Sys.acquire, Function.update_self, if_true]
      cases hrun with
      | acquire _ _ hrest => exact hrest
    · simp only [Sys.acquire, Function.update_of_ne hj, if_neg hj]
      exact hrun
  | release i l w hi howner =>
    rw [held_release howner]
    by_cases hj : j = i
    · subst hj
      rw [hi] at hrun
      simp only [Sys.release, Function.update_self, if_true]
      cases hrun with
      | release _ hrest => exact hrest
    · simp only [Sys.release, Function.update_of_ne hj, if_neg hj]
      exact hrun

omit [Fintype L] in
/-- **Rule for runs.** What every step that meets the condition keeps holds along every run. -/
theorem run_induction {cond : Sys L K → Event L K → Prop} {P : Sys L K → Prop}
    (hstep : ∀ s e s', Step handler s e s' → cond s e → P s → P s')
    (hrun : Run handler cond s s') (h : P s) : P s' := by
  induction hrun with
  | refl => exact h
  | tail _ hlast ih =>
    obtain ⟨e, he, hcond⟩ := hlast
    exact hstep _ e _ he hcond ih

theorem CrossWait.may_acquire {a b : L} (hc : CrossWait s a b) (h : Inv may s) :
    ∃ i j, s.owner a = some i ∧ may (s.kind i) (held s i) b = true ∧
      s.owner b = some j ∧ may (s.kind j) (held s j) a = true := by
  obtain ⟨i, j, hi, ⟨w, hw⟩, hj, ⟨w', hw'⟩⟩ := hc
  exact ⟨i, j, hi, h.may_acquire hw, hj, h.may_acquire hw'⟩

end System

end Blq.Lock
