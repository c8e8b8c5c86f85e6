import Blq.Word.Bytes

/-!
# Arithmetic on byte strings

Division, multiplication and addition of a small number, byte by byte as on paper: the division goes
from the most significant byte with a running remainder, the other two from the least significant one
with a running carry. Each loop has one step, and one equation that holds after any number of steps.

* `longDivision_spec`: quotient and remainder of the division.
* `foldr_carry_spec`: the bytes and the carry of a loop that loses nothing at any byte.
* `multiplyBytes_spec`, `addBytes_spec`: bytes and carry make up the product and the sum.
-/

namespace Blq.Word

/-- One digit of the quotient and the remainder that goes on to the next byte. -/
def divisionStep (divisor : ℕ) (s : Bytes × ℕ) (byte : UInt8) : Bytes × ℕ :=
  (s.1 ++ [UInt8.ofNat ((s.2 * 256 + byte.toNat) / divisor)], (s.2 * 256 + byte.toNat) % divisor)

def longDivision (bs : Bytes) (divisor : ℕ) : Bytes × ℕ := bs.foldl (divisionStep divisor) ([], 0)

/-- One byte of the product, the carry going on to the next more significant one. -/
def multiplicationStep (multiplier : ℕ) (byte : UInt8) (s : Bytes × ℕ) : Bytes × ℕ :=
  (UInt8.ofNat (byte.toNat * multiplier + s.2) :: s.1, (byte.toNat * multiplier + s.2) / 256)

def multiplyBytes (bs : Bytes) (multiplier : ℕ) : Bytes × ℕ :=
  bs.foldr (multiplicationStep multiplier) ([], 0)

/-- One byte of the sum: the low byte of the carry is added here, the rest of it further up. -/
def additionStep (byte : UInt8) (s : Bytes × ℕ) : Bytes × ℕ :=
  (UInt8.ofNat (byte.toNat + s.2 % 256) :: s.1, s.2 / 256 + (byte.toNat + s.2 % 256) / 256)

def addBytes (bs : Bytes) (carry : ℕ) : Bytes × ℕ := bs.foldr additionStep ([], carry)

/-- The invariant of the division, by induction over the bytes read so far: quotient and remainder
make up the number read. -/
theorem longDivision_spec (bs : Bytes) {divisor : ℕ} (hdivisor : 0 < divisor) :
    ofBeBytes (longDivision bs divisor).1 * divisor + (longDivision bs divisor).2 = ofBeBytes bs ∧
      (longDivision bs divisor).2 < divisor ∧ (longDivision bs divisor).1.length = bs.length := by
  induction bs using List.reverseRecOn with
  | nil => simpa [longDivision] using hdivisor
  | append_singleton bs b ih =>
    obtain ⟨hvalue, hlt, hlength⟩ := ih
    have hstep : longDivision (bs ++ [b]) divisor = divisionStep divisor (longDivision bs divisor) b := by
      simp [longDivision]
    rw [hstep]
    generalize longDivision bs divisor = s at hvalue hlt hlength
    -- the digit is a byte, since the remainder is below the divisor
    have hdigit : (s.2 * 256 + b.toNat) / divisor < 256 := by
      have hb := b.toNat_lt
      rw [Nat.div_lt_iff_lt_mul hdivisor]
      omega
    refine ⟨?_, Nat.mod_lt _ hdivisor, by simp [divisionStep, hlength]⟩
    have hdivMod := Nat.div_add_mod' (s.2 * 256 + b.toNat) divisor
    simp only [divisionStep, ofBeBytes_concat, UInt8.toNat_ofNat', Nat.mod_eq_of_lt hdigit]
    calc (ofBeBytes s.1 * 256 + (s.2 * 256 + b.toNat) / divisor) * divisor +
          (s.2 * 256 + b.toNat) % divisor
        = ofBeBytes s.1 * divisor * 256 + ((s.2 * 256 + b.toNat) / divisor * divisor +
          (s.2 * 256 + b.toNat) % divisor) := by ring
      _ = ofBeBytes bs * 256 + b.toNat := by
        rw [hdivMod, ← hvalue]
        ring

/-- **A loop with a carry**: where each byte, its multiple and the carry of the byte before are split
into a byte and a carry, so are the number and the first carry. -/
theorem foldr_carry_spec {step : UInt8 → Bytes × ℕ → Bytes × ℕ} {multiplier : ℕ}
    (digit carry : UInt8 → ℕ → ℕ) (hstep : ∀ b s, step b s = (UInt8.ofNat (digit b s.2) :: s.1, carry b s.2))
    (hdigit : ∀ b c, digit b c % 256 + 256 * carry b c = b.toNat * multiplier + c) (bs : Bytes)
    (first : ℕ) :
    (bs.foldr step ([], first)).1.length = bs.length ∧
      ofBeBytes (bs.foldr step ([], first)).1 + (bs.foldr step ([], first)).2 * 256 ^ bs.length =
        ofBeBytes bs * multiplier + first := by
  induction bs with
  | nil => simp
  | cons b bs ih =>
    rw [List.foldr_cons, hstep]
    generalize bs.foldr step ([], first) = s at ih
    obtain ⟨hlength, hvalue⟩ := ih
    refine ⟨by simp [hlength], ?_⟩
    simp only [ofBeBytes_cons, UInt8.toNat_ofNat', hlength, List.length_cons, pow_succ]
    calc digit b s.2 % 256 * 256 ^ bs.length + ofBeBytes s.1 + carry b s.2 * (256 ^ bs.length * 256)
        = (digit b s.2 % 256 + 256 * carry b s.2) * 256 ^ bs.length + ofBeBytes s.1 := by ring
      _ = b.toNat * 256 ^ bs.length * multiplier + (ofBeBytes s.1 + s.2 * 256 ^ bs.length) := by
        rw [hdigit]
        ring
      _ = (b.toNat * 256 ^ bs.length + ofBeBytes bs) * multiplier + first := by
        rw [hvalue]
        ring

theorem multiplyBytes_spec (bs : Bytes) (multiplier : ℕ) :
    (multiplyBytes bs multiplier).1.length = bs.length ∧
      ofBeBytes (multiplyBytes bs multiplier).1 + (multiplyBytes bs multiplier).2 * 256 ^ bs.length =
        ofBeBytes bs * multiplier :=
  foldr_carry_spec (fun b c => b.toNat * multiplier + c) (fun b c => (b.toNat * multiplier + c) / 256)
    (fun _ _ => rfl) (fun _ _ => Nat.mod_add_div _ 256) bs 0

theorem addBytes_spec (bs : Bytes) (carry : ℕ) :
    (addBytes bs carry).1.length = bs.length ∧
      ofBeBytes (addBytes bs carry).1 + (addBytes bs carry).2 * 256 ^ bs.length =
        ofBeBytes bs * 1 + carry :=
  foldr_carry_spec (fun b c => b.toNat + c % 256) (fun b c => c / 256 + (b.toNat + c % 256) / 256)
    (fun _ _ => rfl) (fun _ _ => by omega) bs carry

theorem min_of_carry {value carry total bound : ℕ} (hvalue : value < bound)
    (h : value + carry * bound = total) :
    (if carry > 0 then bound - 1 else value) = min total (bound - 1) := by
  split
  · rename_i hcarry
    have hle : 1 * bound ≤ carry * bound := Nat.mul_le_mul_right bound hcarry
    omega
  · rename_i hcarry
    obtain rfl : carry = 0 := by omega
    omega

end Blq.Word
