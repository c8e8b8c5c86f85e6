import Mathlib.Data.List.Basic
import Mathlib.Tactic.Common

/-!
# Bisection with a probe that may give up

A search for the least number of an interval that is enough. Each probe at the middle of what is
left says that the number is enough, that it is short, or that the search stops. Whatever the probe
answers, the numbers that are probed on the way to a given least number are `midpoints`, which
depend on that number and the interval alone.

* `search_cases`: the search finds the least number if every probe below it on the way there is
  answered with short, and stops with an error if one is not.
-/

namespace Bisection

inductive Probe (ε : Type) where
  | enough
  | short
  | stop (e : ε)

variable {ε : Type}

/-- The last number that was enough is kept in `best`. -/
def search (probe : ℕ → Probe ε) (low high : ℕ) (hlow : 0 < low) (best : Option ℕ) :
    Except ε (Option ℕ) :=
  if _h : low ≤ high then
    match probe ((low + high) / 2) with
    | .enough => search probe low ((low + high) / 2 - 1) hlow (some ((low + high) / 2))
    | .short => search probe ((low + high) / 2 + 1) high (Nat.succ_pos _) best
    | .stop e => .error e
  else .ok best
termination_by high + 1 - low
decreasing_by all_goals omega

/-- The numbers that are probed if exactly those from `least` on are enough. -/
def midpoints (least low high : ℕ) (hlow : 0 < low) : List ℕ :=
  if _h : low ≤ high then
    (low + high) / 2 ::
      if least ≤ (low + high) / 2 then midpoints least low ((low + high) / 2 - 1) hlow
      else midpoints least ((low + high) / 2 + 1) high (Nat.succ_pos _)
  else []
termination_by high + 1 - low
decreasing_by all_goals omega

/-- Exactly the numbers of the interval from `least` on are enough. -/
structure Splits (probe : ℕ → Probe ε) (least low high : ℕ) : Prop where
  below : ∀ n, low ≤ n → n < least → probe n ≠ .enough
  above : ∀ n, least ≤ n → n ≤ high → probe n = .enough

variable {probe : ℕ → Probe ε} {least low high : ℕ} {hlow : 0 < low}

theorem Splits.left (h : Splits probe least low high) {high' : ℕ} (hle : high' ≤ high) :
    Splits probe least low high' :=
  ⟨h.below, fun n hleast hhigh => h.above n hleast (Nat.le_trans hhigh hle)⟩

theorem Splits.right (h : Splits probe least low high) {low' : ℕ} (hle : low ≤ low') :
    Splits probe least low' high :=
  ⟨fun n hlow hleast => h.below n (Nat.le_trans hle hlow) hleast, h.above⟩

/-- What the search returns if it is never stopped. -/
def found (least high : ℕ) (best : Option ℕ) : Option ℕ := if least ≤ high then some least else best

theorem midpoints_enough (hle : low ≤ high) (hmid : least ≤ (low + high) / 2) :
    midpoints least low high hlow =
      (low + high) / 2 :: midpoints least low ((low + high) / 2 - 1) hlow := by
  rw [midpoints, dif_pos hle, if_pos hmid]

theorem midpoints_short (hle : low ≤ high) (hmid : (low + high) / 2 < least) :
    midpoints least low high hlow =
      (low + high) / 2 :: midpoints least ((low + high) / 2 + 1) high (Nat.succ_pos _) := by
  rw [midpoints, dif_pos hle, if_neg (by omega)]

theorem Splits.le_of_enough (h : Splits probe least low high) {n : ℕ} (hn : low ≤ n)
    (hprobe : probe n = .enough) : least ≤ n := by
  by_contra hlt
  exact h.below n hn (by omega) hprobe

theorem Splits.lt_of_not_enough (h : Splits probe least low high) {n : ℕ} (hn : n ≤ high)
    (hprobe : probe n ≠ .enough) : n < least := by
  by_contra hle
  exact hprobe (h.above n (by omega) hn)

theorem search_stop {e : ε} (hle : low ≤ high) (hprobe : probe ((low + high) / 2) = .stop e)
    (best : Option ℕ) : search probe low high hlow best = .error e := by
  rw [search, dif_pos hle, hprobe]

/-- **The search finds the least number or is stopped**, by a probe below it on the way there. -/
theorem search_cases (h : Splits probe least low high) (hleast : low ≤ least)
    (hend : least ≤ high + 1) (best : Option ℕ) :
    (search probe low high hlow best = .ok (found least high best) ∧
      ∀ n ∈ midpoints least low high hlow, n < least → probe n = .short) ∨
    ((∃ e, search probe low high hlow best = .error e) ∧
      ∃ n ∈ midpoints least low high hlow, n < least ∧ probe n ≠ .short) := by
  induction low, high, hlow, best using search.induct probe with
  | case1 low high hlow best hle hprobe ih =>
    have hmid := h.le_of_enough (by omega) hprobe
    -- what was kept is the least number if nothing smaller is left
    have hfound : found least ((low + high) / 2 - 1) (some ((low + high) / 2)) = found least high best := by
      unfold found
      have hhigh : least ≤ high := by omega
      rw [if_pos hhigh]
      split_ifs with hless
      · rfl
      · have hlast : least = (low + high) / 2 := by omega
        rw [hlast]
    rw [midpoints_enough hle hmid, search, dif_pos hle, hprobe, ← hfound]
    refine (ih (h.left (by omega)) hleast (by omega)).imp (And.imp_right fun hshort => ?_)
      (And.imp_right fun ⟨n, hn, hstop⟩ => ⟨n, List.mem_cons_of_mem _ hn, hstop⟩)
    exact List.forall_mem_cons.mpr ⟨fun hless => by omega, hshort⟩
  | case2 low high hlow best hle hprobe ih =>
    have hne : probe ((low + high) / 2) ≠ .enough := by rw [hprobe]; exact nofun
    have hmid := h.lt_of_not_enough (by omega) hne
    rw [midpoints_short hle hmid, search, dif_pos hle, hprobe]
    refine (ih (h.right (by omega)) (by omega) hend).imp (And.imp_right fun hshort => ?_)
      (And.imp_right fun ⟨n, hn, hstop⟩ => ⟨n, List.mem_cons_of_mem _ hn, hstop⟩)
    exact List.forall_mem_cons.mpr ⟨fun _ => hprobe, hshort⟩
  | case3 low high hlow best hle e hprobe =>
    have hne : ∀ answer, answer ≠ .stop e → probe ((low + high) / 2) ≠ answer :=
      fun answer hanswer hother => hanswer (hother.symm.trans hprobe)
    have hmid := h.lt_of_not_enough (by omega) (hne .enough nofun)
    rw [midpoints_short hle hmid]
    exact .inr ⟨⟨e, search_stop hle hprobe best⟩, _, List.mem_cons_self, hmid, hne .short nofun⟩
  | case4 low high hlow best hle =>
    rw [midpoints, dif_neg hle, search, dif_neg hle]
    unfold found
    rw [if_neg (by omega)]
    exact .inl ⟨rfl, by simp⟩

end Bisection
