import Blq.Map.Basic

/-!
# Batches of writes

A batch is collected first and applied at once; for each key the last write counts. The lemmas
compare a batch with writes made one after the other:

* `Map.exists_getElem?_putAll`, `Map.getElem?_putAll_of_not_mem`: a list of writes decides the keys
  it names and no others.
* `Map.getElem?_replaced`: writes that come after others which are removed again stand where they
  would stand without them.
* `Batch.getElem?_apply`: what is at a key after a batch.
* `Batch.apply_putAll`: inserting into a batch is inserting after it.
-/

namespace Blq

namespace Map

open Std

/-! ## Writes one after the other -/

section Writes

variable {K V : Type} [Ord K] [TransOrd K]

def putAll (m : Map K V) (writes : List (K × V)) : Map K V :=
  writes.foldl (fun m write => m.insert write.1 write.2) m

@[simp] theorem putAll_nil (m : Map K V) : putAll m [] = m := rfl

@[simp] theorem putAll_cons (m : Map K V) (write : K × V) (writes : List (K × V)) :
    putAll m (write :: writes) = putAll (m.insert write.1 write.2) writes := rfl

theorem putAll_append (m : Map K V) (writes writes' : List (K × V)) :
    putAll m (writes ++ writes') = putAll (putAll m writes) writes' :=
  List.foldl_append ..

variable [LawfulEqOrd K] [DecidableEq K] {writes : List (K × V)} {k : K}

theorem getElem?_putAll_of_not_mem (h : k ∉ writes.map Prod.fst) (m : Map K V) :
    (putAll m writes)[k]? = m[k]? := by
  induction writes generalizing m with
  | nil => rfl
  | cons write writes ih =>
    rw [List.map_cons, List.mem_cons, not_or] at h
    rw [putAll_cons, ih h.2, getElem?_insert_eq, if_neg (Ne.symm h.1)]

/-- For a key that is written the last write counts, whatever was there before. -/
theorem exists_getElem?_putAll (h : k ∈ writes.map Prod.fst) :
    ∃ write ∈ writes, write.1 = k ∧ ∀ m : Map K V, (putAll m writes)[k]? = some write.2 := by
  induction writes with
  | nil => exact absurd h List.not_mem_nil
  | cons write writes ih =>
    by_cases hlater : k ∈ writes.map Prod.fst
    · obtain ⟨last, hlast, hkey, hread⟩ := ih hlater
      exact ⟨last, List.mem_cons_of_mem _ hlast, hkey, fun m => hread _⟩
    · have hhere : write.1 = k := ((List.mem_cons.mp h).resolve_right hlater).symm
      refine ⟨write, List.mem_cons_self, hhere, fun m => ?_⟩
      rw [putAll_cons, getElem?_putAll_of_not_mem hlater, getElem?_insert_eq, if_pos hhere]

theorem getElem?_putAll_of_mem (h : k ∈ writes.map Prod.fst) (m m' : Map K V) :
    (putAll m writes)[k]? = (putAll m' writes)[k]? := by
  obtain ⟨write, -, -, hread⟩ := exists_getElem?_putAll h
  rw [hread, hread]

theorem getElem?_putAll_congr {m m' : Map K V} (h : m[k]? = m'[k]?) (writes : List (K × V)) :
    (putAll m writes)[k]? = (putAll m' writes)[k]? := by
  by_cases hk : k ∈ writes.map Prod.fst
  · exact getElem?_putAll_of_mem hk m m'
  · rw [getElem?_putAll_of_not_mem hk, getElem?_putAll_of_not_mem hk, h]

theorem getElem?_putAll_of_forall {v : V} (h : k ∈ writes.map Prod.fst)
    (hall : ∀ write ∈ writes, write.1 = k → write.2 = v) (m : Map K V) :
    (putAll m writes)[k]? = some v := by
  obtain ⟨write, hwrite, hkey, hread⟩ := exists_getElem?_putAll h
  rw [hread, hall write hwrite hkey]

theorem putAll_insert_comm (h : k ∉ writes.map Prod.fst) (m : Map K V) (v : V) :
    putAll (m.insert k v) writes = (putAll m writes).insert k v := by
  refine ExtTreeMap.ext_getElem? fun a => ?_
  by_cases ha : a ∈ writes.map Prod.fst
  · have hne : k ≠ a := by
      rintro rfl
      exact h ha
    rw [getElem?_insert_eq, if_neg hne]
    exact getElem?_putAll_of_mem ha _ _
  · rw [getElem?_putAll_of_not_mem ha, getElem?_insert_eq, getElem?_insert_eq,
      getElem?_putAll_of_not_mem ha]

/-- **Replacing writes.** A map has seen the writes `before` and `old`; those of `old` are removed
and those of `before` are not. After that the writes `new` leave it as if `old` had never been. -/
theorem getElem?_replaced {before old new : List (K × V)} {removed : Prop} [Decidable removed]
    {m : Map K V} (hm : m[k]? = if removed then none else (putAll ∅ (before ++ old))[k]?)
    (hold : k ∈ old.map Prod.fst → removed) (hbefore : k ∈ before.map Prod.fst → ¬removed) :
    (putAll m new)[k]? = (putAll ∅ (before ++ new))[k]? := by
  rw [putAll_append]
  by_cases hnew : k ∈ new.map Prod.fst
  · exact getElem?_putAll_of_mem hnew _ _
  · rw [getElem?_putAll_of_not_mem hnew, getElem?_putAll_of_not_mem hnew, hm]
    by_cases hremoved : removed
    · rw [if_pos hremoved, getElem?_putAll_of_not_mem fun hk => hbefore hk hremoved]
      exact ExtTreeMap.getElem?_empty.symm
    · rw [if_neg hremoved, putAll_append, getElem?_putAll_of_not_mem fun hk => hremoved (hold hk)]

end Writes

end Map

/-! ## Batches -/

/-- For each key the last write: a value, or a removal. -/
abbrev Batch (K V : Type) [Ord K] := Map K (Option V)

namespace Batch

open Std

variable {K V : Type} [Ord K] [TransOrd K]

def put (batch : Batch K V) (k : K) (v : V) : Batch K V := batch.insert k (some v)

def remove (batch : Batch K V) (k : K) : Batch K V := batch.insert k none

def putAll (batch : Batch K V) (writes : List (K × V)) : Batch K V :=
  writes.foldl (fun batch write => put batch write.1 write.2) batch

def removeAll (batch : Batch K V) (keys : List K) : Batch K V := keys.foldl remove batch

def apply (batch : Batch K V) (m : Map K V) : Map K V :=
  batch.foldl (fun m k write => write.elim (m.erase k) (m.insert k)) m

variable [LawfulEqOrd K] [DecidableEq K]

theorem getElem?_apply (batch : Batch K V) (m : Map K V) (k : K) :
    (apply batch m)[k]? = (batch[k]?).getD m[k]? := by
  have hloop := Map.observe_foldl (fun (m : Map K V) (a : K) => m[a]?)
    (fun m k write => write.elim (m.erase k) (m.insert k)) (fun write _ => write) k
    (fun m a write => by
      cases write with
      | none => exact Map.getElem?_erase_eq m a k
      | some v => exact Map.getElem?_insert_eq m a k v) batch m
  rw [apply, hloop]
  cases batch[k]? with
  | none => rfl
  | some write => rfl

theorem apply_put (batch : Batch K V) (m : Map K V) (k : K) (v : V) :
    apply (put batch k v) m = (apply batch m).insert k v := by
  refine ExtTreeMap.ext_getElem? fun a => ?_
  rw [getElem?_apply, put, Map.getElem?_insert_eq, Map.getElem?_insert_eq, getElem?_apply]
  split
  · rfl
  · rfl

/-- **Inserting into a batch is inserting after it.** -/
theorem apply_putAll (batch : Batch K V) (m : Map K V) (writes : List (K × V)) :
    apply (putAll batch writes) m = Map.putAll (apply batch m) writes := by
  induction writes generalizing batch with
  | nil => rfl
  | cons write writes ih =>
    show apply (putAll (put batch write.1 write.2) writes) m = _
    rw [ih, apply_put, Map.putAll_cons]

omit [LawfulEqOrd K] [DecidableEq K] in
theorem removeAll_append (batch : Batch K V) (keys keys' : List K) :
    removeAll batch (keys ++ keys') = removeAll (removeAll batch keys) keys' :=
  List.foldl_append ..

omit [LawfulEqOrd K] [DecidableEq K] in
theorem putAll_append (batch : Batch K V) (writes writes' : List (K × V)) :
    putAll batch (writes ++ writes') = putAll (putAll batch writes) writes' :=
  List.foldl_append ..

theorem getElem?_removeAll (batch : Batch K V) (keys : List K) (k : K) :
    (removeAll batch keys)[k]? = if k ∈ keys then some none else batch[k]? := by
  induction keys generalizing batch with
  | nil => rw [if_neg List.not_mem_nil]; rfl
  | cons key keys ih =>
    show (removeAll (remove batch key) keys)[k]? = _
    rw [ih, remove, Map.getElem?_insert_eq]
    by_cases hkeys : k ∈ keys
    · rw [if_pos hkeys, if_pos (List.mem_cons_of_mem key hkeys)]
    · rw [if_neg hkeys]
      by_cases hkey : key = k
      · rw [if_pos hkey, if_pos (hkey ▸ List.mem_cons_self)]
      · rw [if_neg hkey, if_neg (List.not_mem_cons_of_ne_of_not_mem (Ne.symm hkey) hkeys)]

theorem getElem?_apply_removeAll (m : Map K V) (keys : List K) (k : K) [Decidable (k ∈ keys)] :
    (apply (removeAll ∅ keys) m)[k]? = if k ∈ keys then none else m[k]? := by
  rw [getElem?_apply, getElem?_removeAll]
  by_cases hk : k ∈ keys
  · rw [if_pos hk, if_pos hk]
    rfl
  · rw [if_neg hk, if_neg hk]
    exact congrArg (Option.getD · m[k]?) ExtTreeMap.getElem?_empty

end Batch

end Blq
