import Blq.Word.Bytes

/-!
# Self-delimiting encodings

An encoding is `Delimited` on the values that meet `P` when a reader that finds it in front of
other bytes can tell where it ends: equal texts start with the same value and go on with the
same rest. Fixed-width fields, framed byte strings and counted lists are delimited, and a list of
delimited items is determined by its bytes alone.
-/

namespace Blq.Word

variable {α β : Type}

def Delimited (P : α → Prop) (enc : α → Bytes) : Prop :=
  ∀ ⦃a b : α⦄ ⦃rest rest' : Bytes⦄, P a → P b → enc a ++ rest = enc b ++ rest' →
    a = b ∧ rest = rest'

theorem Delimited.inj {P : α → Prop} {enc : α → Bytes} (h : Delimited P enc) {a b : α} (ha : P a)
    (hb : P b) (heq : enc a = enc b) : a = b := by
  have happ : enc a ++ [] = enc b ++ [] := by rw [heq]
  exact (h ha hb happ).1

theorem delimited_of_length {P : α → Prop} {enc : α → Bytes} {n : ℕ}
    (hlen : ∀ a, P a → (enc a).length = n) (hinj : ∀ a b, P a → P b → enc a = enc b → a = b) :
    Delimited P enc := by
  intro a b rest rest' ha hb heq
  obtain ⟨henc, hrest⟩ := List.append_inj heq ((hlen a ha).trans (hlen b hb).symm)
  exact ⟨hinj a b ha hb henc, hrest⟩

theorem beBytes_inj {w : ℕ} (hw : w = 8 * (w / 8)) {a b : BitVec w} (h : beBytes a = beBytes b) :
    a = b := by
  rw [← BitVec.toNat_inj, ← ofBeBytes_beBytes hw, h, ofBeBytes_beBytes hw]

theorem delimited_beBytes {w : ℕ} (hw : w = 8 * (w / 8)) :
    Delimited (fun _ : BitVec w => True) beBytes :=
  delimited_of_length (n := w / 8) (fun a _ => length_toBeBytes _ a.toNat)
    fun _ _ _ _ h => beBytes_inj hw h

theorem beBytes_append_inj {w : ℕ} (hw : w = 8 * (w / 8)) {a b : BitVec w} {rest rest' : Bytes} :
    beBytes a ++ rest = beBytes b ++ rest' ↔ a = b ∧ rest = rest' := by
  refine ⟨delimited_beBytes hw trivial trivial, ?_⟩
  rintro ⟨rfl, rfl⟩
  rfl

theorem delimited_toBeBytes (n : ℕ) : Delimited (fun v => v < 256 ^ n) (toBeBytes n) :=
  delimited_of_length (fun v _ => length_toBeBytes n v) fun _ _ ha hb h => toBeBytes_inj ha hb h

theorem delimited_frame :
    Delimited (fun bs : Bytes => bs.length < 256 ^ 8) fun bs => toBeBytes 8 bs.length ++ bs := by
  intro a b rest rest' ha hb heq
  rw [List.append_assoc, List.append_assoc] at heq
  obtain ⟨hlen, hrest⟩ := delimited_toBeBytes 8 ha hb heq
  exact List.append_inj hrest hlen

section Lists

variable {P : α → Prop} {enc : α → Bytes}

theorem Delimited.flatMap_of_length (h : Delimited P enc) {l l' : List α} {rest rest' : Bytes}
    (hl : ∀ a ∈ l, P a) (hl' : ∀ a ∈ l', P a) (hlen : l.length = l'.length)
    (heq : l.flatMap enc ++ rest = l'.flatMap enc ++ rest') : l = l' ∧ rest = rest' := by
  induction l generalizing l' with
  | nil =>
    obtain rfl := List.length_eq_zero_iff.mp hlen.symm
    exact ⟨rfl, heq⟩
  | cons a l ih =>
    cases l' with
    | nil => exact absurd hlen (by simp)
    | cons b l' =>
      rw [List.flatMap_cons, List.flatMap_cons, List.append_assoc, List.append_assoc] at heq
      obtain ⟨rfl, htail⟩ := h (hl a (by simp)) (hl' b (by simp)) heq
      obtain ⟨rfl, hrest⟩ := ih (fun c hc => hl c (List.mem_cons_of_mem a hc))
        (fun c hc => hl' c (List.mem_cons_of_mem a hc)) (by simpa using hlen) htail
      exact ⟨rfl, hrest⟩

theorem Delimited.counted (h : Delimited P enc) :
    Delimited (fun l : List α => l.length < 256 ^ 8 ∧ ∀ a ∈ l, P a) fun l =>
      toBeBytes 8 l.length ++ l.flatMap enc := by
  intro l l' rest rest' hl hl' heq
  rw [List.append_assoc, List.append_assoc] at heq
  obtain ⟨hlen, hrest⟩ := delimited_toBeBytes 8 hl.1 hl'.1 heq
  exact h.flatMap_of_length hl.2 hl'.2 hlen hrest

theorem Delimited.flatMap_inj (h : Delimited P enc) (hne : ∀ a, P a → enc a ≠ []) {l l' : List α}
    (hl : ∀ a ∈ l, P a) (hl' : ∀ a ∈ l', P a) (heq : l.flatMap enc = l'.flatMap enc) : l = l' := by
  induction l generalizing l' with
  | nil =>
    cases l' with
    | nil => rfl
    | cons b l' =>
      rw [List.flatMap_nil, List.flatMap_cons, eq_comm, List.append_eq_nil_iff] at heq
      exact absurd heq.1 (hne b (hl' b (by simp)))
  | cons a l ih =>
    cases l' with
    | nil =>
      rw [List.flatMap_nil, List.flatMap_cons, List.append_eq_nil_iff] at heq
      exact absurd heq.1 (hne a (hl a (by simp)))
    | cons b l' =>
      rw [List.flatMap_cons, List.flatMap_cons] at heq
      obtain ⟨rfl, hrest⟩ := h (hl a (by simp)) (hl' b (by simp)) heq
      rw [ih (fun c hc => hl c (List.mem_cons_of_mem a hc))
        (fun c hc => hl' c (List.mem_cons_of_mem a hc)) hrest]

theorem flatMap_inj_of_sizes (enc : α → Bytes) {size : α → ℕ}
    (hlen : ∀ a b, size a = size b → (enc a).length = (enc b).length)
    (hinj : ∀ a b, P a → P b → size a = size b → enc a = enc b → a = b) {l l' : List α}
    (hl : ∀ a ∈ l, P a) (hl' : ∀ a ∈ l', P a) (hsize : l.map size = l'.map size)
    (heq : l.flatMap enc = l'.flatMap enc) : l = l' := by
  induction l generalizing l' with
  | nil => exact (List.map_eq_nil_iff.mp hsize.symm).symm
  | cons a l ih =>
    cases l' with
    | nil => exact absurd hsize (by simp)
    | cons b l' =>
      rw [List.map_cons, List.map_cons, List.cons.injEq] at hsize
      rw [List.flatMap_cons, List.flatMap_cons] at heq
      obtain ⟨hhead, htail⟩ := List.append_inj heq (hlen a b hsize.1)
      rw [hinj a b (hl a (by simp)) (hl' b (by simp)) hsize.1 hhead,
        ih (fun c hc => hl c (List.mem_cons_of_mem a hc))
          (fun c hc => hl' c (List.mem_cons_of_mem b hc)) hsize.2 htail]

theorem length_le_flatMap_of_mem (enc : α → Bytes) {a : α} {l : List α} (h : a ∈ l) :
    (enc a).length ≤ (l.flatMap enc).length := by
  obtain ⟨before, after, rfl⟩ := List.append_of_mem h
  rw [List.flatMap_append, List.flatMap_cons, List.length_append, List.length_append]
  omega

theorem length_le_length_flatMap (enc : α → Bytes) {l : List α} (hne : ∀ a ∈ l, enc a ≠ []) :
    l.length ≤ (l.flatMap enc).length := by
  induction l with
  | nil => simp
  | cons a l ih =>
    have hpos := List.length_pos_iff.mpr (hne a (by simp))
    have hrest := ih fun b hb => hne b (List.mem_cons_of_mem a hb)
    rw [List.flatMap_cons, List.length_append, List.length_cons]
    omega

end Lists

theorem forall₂_of_map_eq {P : α → Prop} {R : α → α → Prop} {f : α → β} {l l' : List α}
    (hl : ∀ a ∈ l, P a) (hl' : ∀ a ∈ l', P a) (himp : ∀ a b, P a → P b → f a = f b → R a b)
    (h : l.map f = l'.map f) : List.Forall₂ R l l' := by
  rw [← List.forall₂_eq_eq_eq, List.forall₂_map_left_iff, List.forall₂_map_right_iff,
    List.forall₂_iff_zip] at h
  refine List.forall₂_iff_zip.mpr ⟨h.1, fun {a b} hab => ?_⟩
  have hmem := List.of_mem_zip hab
  exact himp a b (hl a hmem.1) (hl' b hmem.2) (h.2 hab)

end Blq.Word
