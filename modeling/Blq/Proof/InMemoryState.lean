import Mathlib.Data.FinEnum
import Blq.Monad.Basic
import Blq.Spec.State

/-!
# A transfer in memory

* `transfer_cases`: the failures, which change nothing, and the two writes of a success.
* `transfers_iff`: **which transfers cost the sum of the balances exactly the fee.** Not one to the
  sender itself: the second write takes back the first.
-/

namespace Blq

open Word Result

namespace InMemoryState

variable (s : InMemoryState) (from_ to_ a : Address) (nonce : U64) (value fee : Bix) (v : Account)

def totalBalance : ℕ := Map.total (fun account => account.balance.toNat) s.accounts

def Transfers : EStateM.Result StateError InMemoryState Unit → Prop
  | .ok _ s' => s'.totalBalance + fee.toNat = s.totalBalance ∧
      (s'.account from_).nonce.toNat = (s.account from_).nonce.toNat + 1 ∧
      (∀ a, a ≠ from_ → (s'.account a).nonce = (s.account a).nonce) ∧
      ∀ a, a ≠ from_ → a ≠ to_ → s'.accounts[a]? = s.accounts[a]?
  | .error _ s' => s' = s

/-- The sender after it paid the value and the fee, as far as a word holds them. -/
def charged : Account :=
  { s.account from_ with
    balance := (s.account from_).balance - saturatingAdd value fee
    nonce := (s.account from_).nonce + 1 }

def credited : Account :=
  { s.account to_ with balance := saturatingAdd (s.account to_).balance value }

theorem account_putAccount : (s.putAccount a v).account to_ = if a = to_ then v else s.account to_ := by
  unfold putAccount account
  rw [Map.getElem?_insert_eq]
  split <;> rfl

theorem totalBalance_putAccount : (s.putAccount a v).totalBalance + (s.account a).balance.toNat =
    s.totalBalance + v.balance.toNat := by
  have h := Map.total_insert (fun account => account.balance.toNat) s.accounts a v
  unfold account
  cases hrow : s.accounts[a]? with
  | none => rwa [hrow] at h
  | some account => rwa [hrow] at h

theorem transfer_cases :
    ((s.account from_).nonce = nonce ∧
        (saturatingAdd value fee).toNat ≤ (s.account from_).balance.toNat ∧
      transfer from_ to_ nonce value fee s = .ok () ((s.putAccount from_
        (s.charged from_ value fee)).putAccount to_ (s.credited to_ value))) ∨
    (¬ ((s.account from_).nonce = nonce ∧
        (saturatingAdd value fee).toNat ≤ (s.account from_).balance.toNat) ∧
      ∃ e, transfer from_ to_ nonce value fee s = .error e s) := by
  unfold transfer
  rw [get_bind_apply]
  by_cases hnonce : (s.account from_).nonce = nonce
  · rw [if_neg (not_not.mpr hnonce)]
    by_cases hbalance : (s.account from_).balance.toNat < (saturatingAdd value fee).toNat
    · refine .inr ⟨fun h => absurd h.2 (not_le.mpr hbalance), .insufficientBalance, ?_⟩
      rw [if_pos hbalance]
      rfl
    · refine .inl ⟨hnonce, not_lt.mp hbalance, ?_⟩
      rw [if_neg hbalance]
      rfl
  · refine .inr ⟨fun h => hnonce h.1, .invalidNonce, ?_⟩
    rw [if_pos hnonce]
    rfl

variable {s from_ to_ nonce value fee}

/-- Between two parties everything but the nonce and the sum is as it is to be. -/
theorem transfers_ok_iff (hself : to_ ≠ from_) :
    Transfers s from_ to_ fee (.ok () ((s.putAccount from_
        (s.charged from_ value fee)).putAccount to_ (s.credited to_ value))) ↔
      ((s.putAccount from_ (s.charged from_ value fee)).putAccount to_
        (s.credited to_ value)).totalBalance + fee.toNat = s.totalBalance ∧
      (s.charged from_ value fee).nonce.toNat = (s.account from_).nonce.toNat + 1 := by
  show (_ ∧ _ ∧ _ ∧ _) ↔ _
  rw [account_putAccount, if_neg hself, account_putAccount, if_pos rfl, ← and_assoc]
  refine and_iff_left ⟨fun a ha => ?_, fun a hfrom hto => ?_⟩
  · rw [account_putAccount, account_putAccount, if_neg (Ne.symm ha)]
    split
    next heq => rw [← heq, credited]
    next => rfl
  · rw [putAccount, putAccount, Map.getElem?_insert_eq, if_neg (Ne.symm hto),
      Map.getElem?_insert_eq, if_neg (Ne.symm hfrom)]

variable (s from_ to_ nonce value fee)

/-- **A transfer does what it is to do exactly if it fails, or goes to somebody else without
overflow of the nonce and of the sums.** A sum that is cut off must be so on both sides alike. -/
theorem transfers_iff :
    Transfers s from_ to_ fee (transfer from_ to_ nonce value fee s) ↔
      ((s.account from_).nonce = nonce →
        (saturatingAdd value fee).toNat ≤ (s.account from_).balance.toNat →
        from_ ≠ to_ ∧ nonce.toNat + 1 < 2 ^ 64 ∧
          (value.toNat + fee.toNat < 2 ^ 128 ∧
              (s.account to_).balance.toNat + value.toNat < 2 ^ 128 ∨
            2 ^ 128 ≤ value.toNat + fee.toNat ∧ (s.account to_).balance = fee)) := by
  rcases transfer_cases s from_ to_ nonce value fee with ⟨hnonce, hbalance, h⟩ | ⟨hfails, e, h⟩
  · rw [h]
    by_cases hself : from_ = to_
    · -- the nonce is the one that was read with the receiver
      subst hself
      simp [Transfers, account_putAccount, credited, hnonce, hbalance]
    rw [transfers_ok_iff (Ne.symm hself)]
    have hto := totalBalance_putAccount (s.putAccount from_ (s.charged from_ value fee)) to_
      (s.credited to_ value)
    have hfrom := totalBalance_putAccount s from_ (s.charged from_ value fee)
    rw [account_putAccount, if_neg hself] at hto
    have hcharged : (s.charged from_ value fee).balance.toNat = _ := BitVec.toNat_sub_of_le hbalance
    have hcredited : (s.credited to_ value).balance.toNat = _ := toNat_saturatingAdd _ _
    have hnext : (s.charged from_ value fee).nonce.toNat =
        ((s.account from_).nonce.toNat + 1) % 2 ^ 64 := BitVec.toNat_add _ _
    rw [toNat_saturatingAdd] at hbalance hcharged
    simp only [hnonce, hself, hbalance, toNat_saturatingAdd, ne_eq, not_false_eq_true, true_and,
      forall_const, ← BitVec.toNat_inj] at hnext ⊢
    have := nonce.isLt
    have := fee.isLt
    omega
  · rw [h]
    exact iff_of_true rfl fun hnonce hbalance => absurd ⟨hnonce, hbalance⟩ hfails

def tenBix : InMemoryState :=
  ⟨(∅ : Map Address Account).insert 1 { Account.empty with balance := 10 }⟩

/-- It pays itself one for a fee of one, and has eleven. -/
theorem not_transfers_self : ¬ tenBix.Transfers 1 1 1 (transfer 1 1 0 1 1 tenBix) := by
  rcases transfer_cases tenBix 1 1 0 1 1 with ⟨_, _, h⟩ | ⟨hfails, _⟩
  · rw [h]
    simp [Transfers, account_putAccount, credited]
  · exact absurd (by decide +kernel) hfails

end InMemoryState

end Blq
