import Blq.Word.Basic

/-!
# Big-endian byte strings

Byte strings are `List UInt8`. `toBeBytes n v` writes `v` as exactly `n` bytes, most
significant first, `ofBeBytes` reads such a string back.

* `ofBeBytes_toBeBytes`, `toBeBytes_ofBeBytes`: the two are inverse on strings of a
  fixed length.
* `toBeBytes_inj`: a fixed-length encoding is injective.
* `stripZeros_toBeBytes_ofBeBytes`: a string without leading zeros is recovered from the
  number it denotes.
-/

namespace Blq.Word

abbrev Bytes := List UInt8

/-- The `n` low-order bytes of `v`, most significant first. -/
def toBeBytes : ℕ → ℕ → Bytes
  | 0, _ => []
  | n + 1, v => toBeBytes n (v / 256) ++ [UInt8.ofNat v]

/-- The number a byte string denotes, most significant byte first. -/
def ofBeBytes (bs : Bytes) : ℕ := bs.foldl (fun acc b => acc * 256 + b.toNat) 0

/-- `to_be_bytes` of a machine word. -/
def beBytes {w : ℕ} (v : BitVec w) : Bytes := toBeBytes (w / 8) v.toNat

/-- A byte string without its leading zeros. -/
def stripZeros (bs : Bytes) : Bytes := bs.dropWhile (· == 0)

@[simp] theorem length_toBeBytes (n v : ℕ) : (toBeBytes n v).length = n := by
  induction n generalizing v with
  | zero => rfl
  | succ n ih => simp [toBeBytes, ih]

@[simp] theorem ofBeBytes_nil : ofBeBytes [] = 0 := rfl

@[simp] theorem ofBeBytes_concat (bs : Bytes) (b : UInt8) :
    ofBeBytes (bs ++ [b]) = ofBeBytes bs * 256 + b.toNat := by
  simp [ofBeBytes]

theorem ofBeBytes_lt (bs : Bytes) : ofBeBytes bs < 256 ^ bs.length := by
  induction bs using List.reverseRecOn with
  | nil => simp
  | append_singleton bs b ih =>
    have hb : b.toNat < 256 := b.toNat_lt
    rw [ofBeBytes_concat, List.length_append, List.length_singleton, pow_succ]
    omega

theorem ofBeBytes_toBeBytes (n v : ℕ) : ofBeBytes (toBeBytes n v) = v % 256 ^ n := by
  induction n generalizing v with
  | zero => simp [toBeBytes, Nat.mod_one]
  | succ n ih =>
    rw [toBeBytes, ofBeBytes_concat, ih, UInt8.toNat_ofNat', pow_succ' 256 n, Nat.mod_mul]
    omega

theorem ofBeBytes_toBeBytes_of_lt {n v : ℕ} (h : v < 256 ^ n) : ofBeBytes (toBeBytes n v) = v := by
  rw [ofBeBytes_toBeBytes, Nat.mod_eq_of_lt h]

theorem toNat_lt_pow {w : ℕ} (hw : w = 8 * (w / 8)) (v : BitVec w) : v.toNat < 256 ^ (w / 8) := by
  have hpow : 2 ^ w = 256 ^ (w / 8) := by
    conv_lhs => rw [hw, pow_mul]
    norm_num
  exact hpow ▸ v.isLt

theorem ofBeBytes_beBytes {w : ℕ} (hw : w = 8 * (w / 8)) (v : BitVec w) :
    ofBeBytes (beBytes v) = v.toNat := ofBeBytes_toBeBytes_of_lt (toNat_lt_pow hw v)

theorem toBeBytes_ofBeBytes (bs : Bytes) : toBeBytes bs.length (ofBeBytes bs) = bs := by
  induction bs using List.reverseRecOn with
  | nil => rfl
  | append_singleton bs b ih =>
    have hb : b.toNat < 256 := b.toNat_lt
    rw [List.length_append, List.length_singleton, toBeBytes, ofBeBytes_concat]
    have hdiv : (ofBeBytes bs * 256 + b.toNat) / 256 = ofBeBytes bs := by omega
    have hlow : UInt8.ofNat (ofBeBytes bs * 256 + b.toNat) = b := by
      apply UInt8.toNat_inj.mp
      rw [UInt8.toNat_ofNat']
      omega
    rw [hdiv, hlow, ih]

theorem toBeBytes_inj {n v v' : ℕ} (hv : v < 256 ^ n) (hv' : v' < 256 ^ n)
    (h : toBeBytes n v = toBeBytes n v') : v = v' := by
  rw [← ofBeBytes_toBeBytes_of_lt hv, h, ofBeBytes_toBeBytes_of_lt hv']

@[simp] theorem ofBeBytes_replicate_zero_append (k : ℕ) (bs : Bytes) :
    ofBeBytes (List.replicate k 0 ++ bs) = ofBeBytes bs := by
  induction k with
  | zero => rfl
  | succ k ih =>
    rw [List.replicate_succ, List.cons_append]
    simpa [ofBeBytes] using ih

theorem replicate_append_stripZeros (bs : Bytes) :
    List.replicate (bs.length - (stripZeros bs).length) 0 ++ stripZeros bs = bs := by
  induction bs with
  | nil => rfl
  | cons b bs ih =>
    by_cases hb : b = 0
    · have hle : (stripZeros bs).length ≤ bs.length := (List.dropWhile_suffix _).length_le
      have hlen : (b :: bs).length - (stripZeros bs).length =
          bs.length - (stripZeros bs).length + 1 := by
        rw [List.length_cons]
        omega
      have hstrip : stripZeros (b :: bs) = stripZeros bs := by simp [stripZeros, hb]
      rw [hstrip, hlen, List.replicate_succ, List.cons_append, ih, hb]
    · simp [stripZeros, hb]

theorem ofBeBytes_stripZeros (bs : Bytes) : ofBeBytes (stripZeros bs) = ofBeBytes bs := by
  conv_rhs => rw [← replicate_append_stripZeros bs]
  rw [ofBeBytes_replicate_zero_append]

theorem head?_stripZeros (bs : Bytes) : (stripZeros bs).head? ≠ some 0 := by
  induction bs with
  | nil => simp [stripZeros]
  | cons b bs ih =>
    by_cases hb : b = 0
    · simpa [stripZeros, hb] using ih
    · simp [stripZeros, hb]

variable {bs : Bytes}

theorem stripZeros_of_head? (h : bs.head? ≠ some 0) : stripZeros bs = bs := by
  cases bs with
  | nil => rfl
  | cons b bs =>
    have hb : b ≠ 0 := by simpa using h
    simp [stripZeros, hb]

theorem stripZeros_replicate_zero_append (k : ℕ) (bs : Bytes) :
    stripZeros (List.replicate k 0 ++ bs) = stripZeros bs := by
  simp [stripZeros]

theorem stripZeros_toBeBytes_ofBeBytes {n : ℕ} (hlen : bs.length ≤ n) (h : bs.head? ≠ some 0) :
    stripZeros (toBeBytes n (ofBeBytes bs)) = bs := by
  -- the fixed-length encoding is the string itself after a padding of zeros
  have hpad : toBeBytes n (ofBeBytes bs) = List.replicate (n - bs.length) 0 ++ bs := by
    have hfull := toBeBytes_ofBeBytes (List.replicate (n - bs.length) 0 ++ bs)
    rw [ofBeBytes_replicate_zero_append, List.length_append, List.length_replicate,
      Nat.sub_add_cancel hlen] at hfull
    exact hfull
  rw [hpad, stripZeros_replicate_zero_append, stripZeros_of_head? h]

@[simp] theorem stripZeros_toBeBytes_zero (n : ℕ) : stripZeros (toBeBytes n 0) = [] := by
  simpa using @stripZeros_toBeBytes_ofBeBytes [] n (by simp) (by simp)

theorem ofBeBytes_cons (b : UInt8) (bs : Bytes) :
    ofBeBytes (b :: bs) = b.toNat * 256 ^ bs.length + ofBeBytes bs := by
  induction bs using List.reverseRecOn with
  | nil => simp [ofBeBytes]
  | append_singleton bs c ih =>
    rw [← List.cons_append, ofBeBytes_concat, ofBeBytes_concat, ih, List.length_append,
      List.length_singleton, pow_succ]
    ring

theorem length_le_of_ofBeBytes_lt {n : ℕ} (h : bs.head? ≠ some 0) (hlt : ofBeBytes bs < 256 ^ n) :
    bs.length ≤ n := by
  cases bs with
  | nil => exact Nat.zero_le n
  | cons b bs =>
    have hb : b ≠ 0 := by simpa using h
    have hpos : 0 < b.toNat := Nat.pos_of_ne_zero fun hzero => hb (UInt8.toNat_inj.mp hzero)
    rw [ofBeBytes_cons] at hlt
    by_contra hlong
    rw [List.length_cons] at hlong
    have hpow : 256 ^ n ≤ 256 ^ bs.length := Nat.pow_le_pow_right (by decide) (by omega)
    have hmul : 256 ^ bs.length ≤ b.toNat * 256 ^ bs.length := Nat.le_mul_of_pos_left _ hpos
    omega

theorem beBytes_of_toNat {w : ℕ} {v : BitVec w} (hlen : bs.length = w / 8)
    (hv : v.toNat = ofBeBytes bs) : beBytes v = bs := by
  rw [beBytes, hv, ← hlen, toBeBytes_ofBeBytes]

end Blq.Word
