import Blq.Monad.Basic
import Blq.Spec.Execution

/-!
# Reading the executor's state after an update

Lookups in a `RevmState` after `putAccount` and after `commit`. The changes of one
transaction are committed account by account, so what is found at an address depends on
the one change reported for it.
-/

namespace Blq

open Word

namespace RevmState

variable (S : RevmState)

theorem accounts_putAccount (a b : Address) (account : RevmAccount) :
    (S.putAccount a account).accounts[b]? = if a = b then some account else S.accounts[b]? :=
  Map.getElem?_insert_eq _ _ _ _

end RevmState

def committed (account : RevmAccount) (change : AccountChange) : Option RevmAccount :=
  if change.selfdestructed then none
  else some
    { nonce := change.nonce
      balance := change.balance
      code := change.code.getD account.code
      storage := change.storage.foldl commitSlot account.storage }

/-- **Lookups after a commit.** A self-destructed account is gone, a changed one holds its
reported values, any other is as before. -/
theorem accounts_commit (S : RevmState) (changes : Changes) (a : Address) :
    (S.commit changes).accounts[a]? =
      (changes[a]?).elim S.accounts[a]? (committed (S.account a)) := by
  refine Map.observe_foldl (fun T b => T.accounts[b]?) commitAccount
    (fun change found => committed (found.getD default) change) a (fun T b change => ?_) changes S
  unfold commitAccount committed
  split
  · exact Map.getElem?_erase_eq T.accounts b a
  · rw [RevmState.accounts_putAccount]
    split
    · next hba => rw [← hba]; rfl
    · rfl

end Blq
