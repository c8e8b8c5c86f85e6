import Mathlib.Data.BitVec
import Mathlib.Tactic

/-!
# Ordered maps

`Map K V` is a finite map with ordered keys. The lemmas here are what proofs about code
that walks a map need:

* `getElem?_insert_eq`, `getElem?_erase_eq`: lookups after an update, with equality of
  keys in place of a comparison.
* `forall_insert`, `forall_erase`: a property of all entries after an update.
* `observe_foldl_of_forall`: a loop keeps what each of its steps keeps.
* `observe_foldl`: a loop over a map whose step for key `k` changes only what is
  observed at `k` has a closed form at every key.
* `total_eq_sum`, `total_insert`: the sum of a measure over all entries.
-/

namespace Blq

/-- A map with keys in the order of `compare`. -/
abbrev Map (K V : Type) [Ord K] := Std.ExtTreeMap K V compare

namespace Map

open Std

/-- Keys that do not occur in the list keep what is observed at them. -/
private theorem observe_foldl_of_not_mem {K V T X : Type} (get : T → K → X) (step : T → K → V → T)
    (a : K) (hstep : ∀ t k v, k ≠ a → get (step t k v) a = get t a) (l : List (K × V))
    (hl : ∀ p ∈ l, p.1 ≠ a) (t : T) : get (l.foldl (fun t p => step t p.1 p.2) t) a = get t a := by
  induction l generalizing t with
  | nil => rfl
  | cons p l ih =>
    rw [List.foldl_cons, ih (fun q hq => hl q (List.mem_cons_of_mem _ hq)),
      hstep _ _ _ (hl p List.mem_cons_self)]

variable {K V : Type} [Ord K] [TransOrd K] [LawfulEqOrd K]

/-- The entry at `k`, created from `d` when missing, updated by `f`. -/
def entry (m : Map K V) (k : K) (d : V) (f : V → V) : Map K V := m.insert k (f ((m[k]?).getD d))

section Lookup

variable [DecidableEq K]

theorem getElem?_insert_eq (m : Map K V) (k a : K) (v : V) :
    (m.insert k v)[a]? = if k = a then some v else m[a]? := by
  rw [ExtTreeMap.getElem?_insert]
  simp only [Std.compare_eq_iff_eq]

theorem getElem?_erase_eq (m : Map K V) (k a : K) :
    (m.erase k)[a]? = if k = a then none else m[a]? := by
  rw [ExtTreeMap.getElem?_erase]
  simp only [Std.compare_eq_iff_eq]

section Forall

variable {P : K → V → Prop} {m : Map K V} {a : K} {b : V}

theorem forall_insert (h : ∀ (k : K) (v : V), m[k]? = some v → P k v) (hab : P a b) (k : K) (v : V)
    (hv : (m.insert a b)[k]? = some v) : P k v := by
  rw [getElem?_insert_eq] at hv
  split at hv
  next hk =>
    obtain rfl := Option.some.inj hv
    exact hk ▸ hab
  next => exact h k v hv

theorem forall_erase (h : ∀ (k : K) (v : V), m[k]? = some v → P k v) (k : K) (v : V)
    (hv : (m.erase a)[k]? = some v) : P k v := by
  rw [getElem?_erase_eq] at hv
  split at hv
  · cases hv
  · exact h k v hv

end Forall

theorem getElem?_entry (m : Map K V) (k a : K) (d : V) (f : V → V) :
    (entry m k d f)[a]? = if k = a then some (f ((m[a]?).getD d)) else m[a]? := by
  rw [entry, getElem?_insert_eq]
  split
  · next h => rw [h]
  · rfl

theorem getElem?_foldl_erase (l : List K) (m : Map K V) (a : K) :
    (l.foldl (fun m k => m.erase k) m)[a]? = if a ∈ l then none else m[a]? := by
  induction l generalizing m with
  | nil => simp
  | cons k l ih =>
    rw [List.foldl_cons, ih, getElem?_erase_eq]
    by_cases hl : a ∈ l
    · simp [hl]
    · by_cases hk : k = a
      · simp [hk]
      · simp [hl, hk, Ne.symm hk]

theorem getElem?_foldl_erase_unless {E : Type} (key : E → K) (keep : E → Bool) (l : List E)
    (m : Map K V) (a : K) :
    (l.foldl (fun m e => if keep e then m else m.erase (key e)) m)[a]? =
      if a ∈ (l.filter fun e => !keep e).map key then none else m[a]? := by
  rw [← getElem?_foldl_erase, List.foldl_map, List.foldl_filter]
  congr 2
  funext m e
  cases keep e <;> rfl

end Lookup

theorem pairwise_key_ne (m : Map K V) : m.toList.Pairwise fun p q => p.1 ≠ q.1 := by
  refine m.distinct_keys_toList.imp ?_
  intro p q h
  simpa only [Std.compare_eq_iff_eq] using h

theorem mem_toList_iff (m : Map K V) (k : K) (v : V) : (k, v) ∈ m.toList ↔ m[k]? = some v :=
  ExtTreeMap.mem_toList_iff_getElem?_eq_some

theorem mem_map_snd_toList {m : Map K V} {v : V} :
    v ∈ m.toList.map Prod.snd ↔ ∃ k : K, m[k]? = some v := by
  simp [List.mem_map]

/-- **The entries that are not the default say what is at every key.** -/
theorem filter_toList_eq_iff {m m' : Map K V} (d : V) (keep : V → Bool)
    (hkeep : ∀ v, keep v = false ↔ v = d) :
    (m.toList.filter fun p => keep p.2) = (m'.toList.filter fun p => keep p.2) ↔
      ∀ k : K, (m[k]?).getD d = (m'[k]?).getD d := by
  have hmem : ∀ (m : Map K V) (k : K) (v : V),
      (k, v) ∈ m.toList.filter (fun p => keep p.2) ↔ keep v = true ∧ (m[k]?).getD d = v := by
    intro m k v
    rw [List.mem_filter, mem_toList_iff]
    constructor
    · rintro ⟨hk, hv⟩
      exact ⟨hv, by rw [hk, Option.getD_some]⟩
    · rintro ⟨hv, hk⟩
      refine ⟨?_, hv⟩
      cases hget : m[k]? with
      | none =>
        -- a missing key reads as the default, which is not kept
        rw [hget, Option.getD_none] at hk
        rw [(hkeep v).mpr hk.symm] at hv
        cases hv
      | some w => rw [hget, Option.getD_some] at hk; rw [hk]
  constructor
  · intro h k
    by_cases hk : keep ((m[k]?).getD d) = true
    · have hin := (hmem m k _).mpr ⟨hk, rfl⟩
      rw [h] at hin
      exact ((hmem m' k _).mp hin).2.symm
    · by_cases hk' : keep ((m'[k]?).getD d) = true
      · have hin := (hmem m' k _).mpr ⟨hk', rfl⟩
        rw [← h] at hin
        exact ((hmem m k _).mp hin).2
      · rw [(hkeep _).mp (Bool.eq_false_iff.mpr hk), (hkeep _).mp (Bool.eq_false_iff.mpr hk')]
  · intro h
    have hfilter : ∀ m : Map K V, (m.filter fun _ v => keep v).toList =
        m.toList.filter fun p => keep p.2 := fun m => ExtTreeMap.toList_filter
    rw [← hfilter, ← hfilter, ExtTreeMap.toList_inj]
    refine ExtTreeMap.ext_getElem? fun k => Option.ext fun v => ?_
    show (m.filter fun _ v => keep v)[k]? = some v ↔ (m'.filter fun _ v => keep v)[k]? = some v
    rw [← mem_toList_iff, ← mem_toList_iff, hfilter, hfilter, hmem, hmem, h k]

def EntriesIn (P : V → Prop) (m : Map K V) : Prop := ∀ (k : K) (v : V), m[k]? = some v → P v

section EntriesIn

variable {P : V → Prop} {m : Map K V}

omit [LawfulEqOrd K] in
theorem entriesIn_empty : EntriesIn P (∅ : Map K V) := by
  intro k v hv
  simp at hv

variable [DecidableEq K]

theorem EntriesIn.insert (h : EntriesIn P m) {k : K} {v : V} (hv : P v) :
    EntriesIn P (m.insert k v) := forall_insert h hv

theorem EntriesIn.erase (h : EntriesIn P m) {k : K} : EntriesIn P (m.erase k) := forall_erase h

end EntriesIn

section Fold

variable {T X : Type}

omit [LawfulEqOrd K] in
theorem observe_foldl_of_forall (get : T → X) (step : T → K → V → T)
    (hstep : ∀ t k v, get (step t k v) = get t) (m : Map K V) (t : T) :
    get (m.foldl step t) = get t := by
  rw [ExtTreeMap.foldl_eq_foldl_toList]
  generalize m.toList = l
  induction l generalizing t with
  | nil => rfl
  | cons p l ih => rw [List.foldl_cons, ih, hstep]

/-- **A loop over a map, observed at one key.** If the step for `k` changes only what is
observed at `k`, the loop changes what is observed at `a` by the one step for `a`, and not
at all when the map has no entry there. -/
theorem observe_foldl [DecidableEq K] (get : T → K → X) (step : T → K → V → T) (upd : V → X → X)
    (a : K) (hstep : ∀ t k v, get (step t k v) a = if k = a then upd v (get t a) else get t a)
    (m : Map K V) (t : T) :
    get (m.foldl step t) a = (m[a]?).elim (get t a) fun v => upd v (get t a) := by
  have hother : ∀ t k v, k ≠ a → get (step t k v) a = get t a :=
    fun t k v hk => (hstep t k v).trans (if_neg hk)
  rw [ExtTreeMap.foldl_eq_foldl_toList]
  cases hm : m[a]? with
  | none =>
    refine observe_foldl_of_not_mem get step a hother _ ?_ t
    rintro ⟨k, v⟩ hp rfl
    rw [(mem_toList_iff m k v).mp hp] at hm
    cases hm
  | some v =>
    -- split the entries at the one for `a`: no other entry has that key
    obtain ⟨l₁, l₂, hl⟩ := List.append_of_mem ((mem_toList_iff m a v).mpr hm)
    have hne := pairwise_key_ne m
    rw [hl, List.pairwise_append] at hne
    obtain ⟨-, h₂, h₁⟩ := hne
    rw [hl, List.foldl_append, List.foldl_cons,
      observe_foldl_of_not_mem get step a hother l₂
        (fun q hq => ((List.pairwise_cons.mp h₂).1 q hq).symm),
      hstep, if_pos rfl, observe_foldl_of_not_mem get step a hother l₁
        (fun q hq => h₁ q hq (a, v) List.mem_cons_self)]
    rfl

end Fold

/-! ## Totals -/

section Total

def total (f : V → ℕ) (m : Map K V) : ℕ := (m.toList.map fun p => f p.2).sum

variable [DecidableEq K] [Fintype K]

theorem total_eq_sum (f : V → ℕ) (m : Map K V) : total f m = ∑ k : K, (m[k]?).elim 0 f := by
  have hnodup : (m.toList.map Prod.fst).Nodup := by
    rw [List.Nodup, List.pairwise_map]
    exact pairwise_key_ne m
  have hval : ∀ p ∈ m.toList, f p.2 = (m[p.1]?).elim 0 f := by
    rintro ⟨k, v⟩ hp
    rw [(mem_toList_iff m k v).mp hp]
    rfl
  have hsum : total f m = ∑ k ∈ (m.toList.map Prod.fst).toFinset, (m[k]?).elim 0 f := by
    rw [List.sum_toFinset _ hnodup, List.map_map, total]
    exact congrArg List.sum (List.map_congr_left hval)
  rw [hsum]
  refine Finset.sum_subset (Finset.subset_univ _) ?_
  intro k _ hk
  cases hm : m[k]? with
  | none => rfl
  | some v =>
    refine absurd ?_ hk
    rw [List.mem_toFinset]
    exact List.mem_map_of_mem ((mem_toList_iff m k v).mpr hm)

/-- Two maps that agree outside `k` have totals that differ by what they hold at `k`. -/
theorem total_add_of_eq_off (f : V → ℕ) (m m' : Map K V) (k : K) (h : ∀ a, a ≠ k → m'[a]? = m[a]?) :
    total f m' + (m[k]?).elim 0 f = total f m + (m'[k]?).elim 0 f := by
  rw [total_eq_sum, total_eq_sum, ← Finset.add_sum_erase _ _ (Finset.mem_univ k),
    ← Finset.add_sum_erase (Finset.univ) (fun a => (m[a]?).elim 0 f) (Finset.mem_univ k)]
  have hrest : ∑ a ∈ Finset.univ.erase k, (m'[a]?).elim 0 f =
      ∑ a ∈ Finset.univ.erase k, (m[a]?).elim 0 f := by
    refine Finset.sum_congr rfl ?_
    intro a ha
    rw [h a (Finset.ne_of_mem_erase ha)]
  omega

theorem total_insert (f : V → ℕ) (m : Map K V) (k : K) (v : V) :
    total f (m.insert k v) + (m[k]?).elim 0 f = total f m + f v := by
  have h := total_add_of_eq_off f m (m.insert k v) k fun a ha => by
    rw [getElem?_insert_eq, if_neg ha.symm]
  rwa [getElem?_insert_eq, if_pos rfl] at h

end Total

end Map

end Blq
