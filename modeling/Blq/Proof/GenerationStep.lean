import Blq.Proof.Rewrite
import Blq.Spec.GenerationChain

/-!
# The writes of a generation and its database

An operation on a generation writes the database row by row and then the files. Here:

* `simulates_insertRows`: the rows a block's insertion writes, taken together, are the insertion of
  the block in the database (for a block with a receipt for each of its transactions);
* `insertBlock_ok`: what a successful insertion leaves in the database and in the files;
* `replay_ok`, `exists_replay_ok`: a replay on a generation is the replay on its database, and its
  manifest ends on the last block.
-/

namespace Blq

open Word Result

variable {O : Oracle} {R : Revm} {config : NodeConfig}

namespace Generation

def database (d : Durable Generation) : SledStorage := d.current.store

abbrev Files := Option GenerationManifest × Option GenerationPublicationRecord ×
  Option ReplayCheckpoint × Option SuffixPublicationRecord

def files (g : Generation) : Files := (g.manifest, g.publication, g.checkpoint, g.journal)

/-! ## Rows

`Updates x h n`: the writes of `x` always succeed, amount to `h` on the database and leave the files
alone; on a database `s` there are `n s` of them. -/

def Updates (x : DiskM Unit) (h : SledStorage → SledStorage) (n : SledStorage → ℕ) : Prop :=
  ∀ d, ∃ d', x d = .ok () d' ∧ database d' = h (database d) ∧ d'.current.files = d.current.files ∧
    d'.past.length = d.past.length + n (database d)

variable {x y : DiskM Unit} {f h : SledStorage → SledStorage} {n m : SledStorage → ℕ}

theorem Updates.simulates (hx : Updates x h n) (d : Durable Generation) :
    SimulatesAt database x (modify h : StoreM Unit) d := by
  obtain ⟨d', hrun, hstore, -⟩ := hx d
  show (.ok () (h (database d)) : EStateM.Result NodeError SledStorage Unit) = mapState database (x d)
  rw [hrun, ← hstore]
  rfl

theorem updates_updateStore (f : SledStorage → SledStorage) : Updates (updateStore f) f fun _ => 1 :=
  fun _ => ⟨_, rfl, rfl, rfl, List.length_append⟩

theorem updates_pure : Updates (pure ()) id fun _ => 0 := fun d => ⟨d, rfl, rfl, rfl, rfl⟩

theorem Updates.seq (hx : Updates x f n) (hy : Updates y h m) :
    Updates (x >>= fun _ => y) (fun s => h (f s)) fun s => n s + m (f s) := by
  intro d
  obtain ⟨d₁, hrun₁, hstore₁, hfiles₁, hlength₁⟩ := hx d
  obtain ⟨d₂, hrun₂, hstore₂, hfiles₂, hlength₂⟩ := hy d₁
  exact ⟨d₂, by rw [bind_apply_of_ok hrun₁, hrun₂], by rw [hstore₂, hstore₁],
    by rw [hfiles₂, hfiles₁], by rw [hlength₂, hlength₁, hstore₁, Nat.add_assoc]⟩

theorem updates_forM {α : Type} {f : α → DiskM Unit} {h : α → SledStorage → SledStorage} {k : ℕ}
    {l : List α} (hf : ∀ a ∈ l, Updates (f a) (h a) fun _ => k) :
    Updates (l.forM f) (fun s => l.foldl (fun s a => h a s) s) fun _ => k * l.length := by
  induction l with
  | nil => exact updates_pure
  | cons a l ih =>
    rw [List.length_cons, Nat.mul_succ, Nat.add_comm]
    exact (hf a (by simp)).seq (ih fun a' ha' => hf a' (List.mem_cons_of_mem a ha'))

/-! ## Accounts -/

theorem updates_putAccount (a : Address) (balance : Bix) (nonce : U64) :
    Updates (putAccount a balance nonce) (fun s => s.putAccount a balance nonce) fun _ => 2 :=
  (updates_updateStore _).seq (updates_updateStore _)

theorem foldl_erase_slots (a : Address) (storage : Map Hash256 Hash256)
    (slots : Map StorageKey Hash256) :
    (slots.toList.filter fun p => (addressFromStorageKey p.1).1 == a).foldl
        (fun slots p => if storage.contains (addressFromStorageKey p.1).2 then slots
          else slots.erase p.1) slots =
      slots.filter fun key _ =>
        !((addressFromStorageKey key).1 == a && !storage.contains (addressFromStorageKey key).2) := by
  refine Std.ExtTreeMap.ext_getElem? fun key => ?_
  rw [Map.getElem?_foldl_erase_unless Prod.fst fun p =>
    storage.contains (addressFromStorageKey p.1).2, Std.ExtTreeMap.getElem?_filter']
  cases hkey : slots[key]? with
  | none => split <;> rfl
  | some value =>
    simp only [List.mem_map, List.mem_filter, Prod.exists, Map.mem_toList_iff, exists_and_right,
      exists_eq_right, hkey, Option.some.injEq]
    cases haddress : (addressFromStorageKey key).1 == a <;>
      cases hcontains : storage.contains (addressFromStorageKey key).2 <;> simp [Option.filter]

theorem updates_eraseSlots (keep : StorageKey → Bool) (l : List (StorageKey × Hash256)) :
    Updates (l.forM fun (key, _) =>
        if keep key then pure () else updateStore fun s => { s with slots := s.slots.erase key })
      (fun s => { s with
        slots := l.foldl (fun slots p => if keep p.1 then slots else slots.erase p.1) s.slots })
      fun _ => (l.filter fun p => !keep p.1).length := by
  induction l with
  | nil => exact updates_pure
  | cons p l ih =>
    obtain ⟨key, value⟩ := p
    have hstep : Updates
        (if keep key then pure () else updateStore fun s => { s with slots := s.slots.erase key })
        (fun s => { s with slots := if keep key then s.slots else s.slots.erase key })
        fun _ => if keep key then 0 else 1 := by
      split
      · exact updates_pure
      · exact updates_updateStore _
    have hcount : (((key, value) :: l).filter fun p => !keep p.1).length =
        (if keep key then 0 else 1) + (l.filter fun p => !keep p.1).length := by
      cases hkeep : keep key <;> simp [hkeep, Nat.add_comm]
    rw [hcount]
    exact hstep.seq ih

theorem updates_putSlots (a : Address) (l : List (Hash256 × Hash256)) :
    Updates (l.forM fun (slot, value) => putSlot a slot value) (fun s => { s with
      slots := l.foldl (fun slots p => if p.2 = 0 then slots.erase (storageKey a p.1)
        else slots.insert (storageKey a p.1) p.2) s.slots }) fun _ => l.length := by
  induction l with
  | nil => exact updates_pure
  | cons p l ih =>
    rw [List.length_cons, Nat.add_comm]
    exact (updates_updateStore _).seq ih

/-- The slots of the account that are not in the new storage. -/
def staleSlots (slots : Map StorageKey Hash256) (a : Address) (storage : Map Hash256 Hash256) :
    Map StorageKey Hash256 :=
  slots.filter fun key _ =>
    (addressFromStorageKey key).1 == a && !storage.contains (addressFromStorageKey key).2

/-- The rows of an account: its balance, its nonce and its code, the slots it has no more, and its
storage. -/
def accountWrites (slots : Map StorageKey Hash256) (a : Address) (storage : Map Hash256 Hash256) : ℕ :=
  3 + (staleSlots slots a storage).size + storage.size

theorem updates_putEvmAccount (a : Address) (balance : Bix) (nonce : U64) (code : Bytes)
    (storage : Map Hash256 Hash256) :
    Updates (putEvmAccount a balance nonce code storage)
      (fun s => s.putEvmAccount a balance nonce code storage)
      fun s => accountWrites s.slots a storage := by
  intro d
  obtain ⟨d₀, hrun₀, hstore₀, hfiles₀, hlength₀⟩ := updates_putAccount a balance nonce d
  obtain ⟨d₁, hrun₁, hstore₁, hfiles₁, hlength₁⟩ := updates_updateStore (fun s => { s with
    codes := if code.isEmpty then s.codes.erase a else s.codes.insert a code }) d₀
  -- the loop over the existing slots reads the database once, after the code row
  obtain ⟨d₂, hrun₂, hstore₂, hfiles₂, hlength₂⟩ :=
    ((updates_eraseSlots (fun key => storage.contains (addressFromStorageKey key).2)
      ((database d₁).slots.toList.filter fun p => (addressFromStorageKey p.1).1 == a)).seq
      (updates_putSlots a storage.toList)) d₁
  refine ⟨d₂, ?_, ?_, by rw [hfiles₂, hfiles₁, hfiles₀], ?_⟩
  · unfold putEvmAccount
    rw [bind_apply_of_ok hrun₀, bind_apply_of_ok hrun₁, onDisk_bind_apply]
    exact hrun₂
  · dsimp only at hstore₂
    rw [hstore₂, foldl_erase_slots, hstore₁, hstore₀]
    simp only [SledStorage.putEvmAccount, Std.ExtTreeMap.foldl_eq_foldl_toList]
  · have hslots : (database d₁).slots = (database d).slots := by rw [hstore₁, hstore₀]; rfl
    have hstale : (staleSlots (database d).slots a storage).size =
        (((database d).slots.toList.filter fun p => (addressFromStorageKey p.1).1 == a).filter
          fun p => !storage.contains (addressFromStorageKey p.1).2).length := by
      rw [← Std.ExtTreeMap.length_toList, staleSlots, Std.ExtTreeMap.toList_filter, List.filter_filter]
      simp only [Bool.and_comm]
    dsimp only [accountWrites] at hlength₀ hlength₁ hlength₂ ⊢
    rw [hlength₂, hlength₁, hlength₀, hslots, hstale, Std.ExtTreeMap.length_toList]
    omega

theorem accountWrites_putEvmAccount {a b : Address} (hab : a ≠ b) (s : SledStorage) (balance : Bix)
    (nonce : U64) (code : Bytes) (storage storage' : Map Hash256 Hash256) :
    accountWrites (s.putEvmAccount a balance nonce code storage).slots b storage' =
      accountWrites s.slots b storage' := by
  suffices h : staleSlots (s.putEvmAccount a balance nonce code storage).slots b storage' =
      staleSlots s.slots b storage' by rw [accountWrites, h, accountWrites]
  refine Std.ExtTreeMap.ext_getElem? fun key => ?_
  rw [staleSlots, staleSlots, Std.ExtTreeMap.getElem?_filter', Std.ExtTreeMap.getElem?_filter']
  by_cases hkey : (addressFromStorageKey key).1 = b
  · rw [← storageKey_addressFromStorageKey key, hkey,
      getElem?_slots_putEvmAccount_of_ne s a b balance nonce hab]
  · rw [Option.filter_eq_none_iff.mpr (by simp [hkey]), Option.filter_eq_none_iff.mpr (by simp [hkey])]

theorem writes_of_persistRevmState {state : RevmState} {d d' : Durable Generation}
    (h : persistRevmState state d = .ok () d') : d'.past.length = d.past.length +
      (state.accounts.toList.map fun p => accountWrites (database d).slots p.1 p.2.storage).sum := by
  have hdistinct := Std.ExtTreeMap.distinct_keys_toList (t := state.accounts)
  unfold persistRevmState at h
  generalize state.accounts.toList = l at h hdistinct ⊢
  induction l generalizing d with
  | nil =>
    obtain ⟨-, rfl⟩ := EStateM.Result.ok.inj h
    rfl
  | cons p l ih =>
    obtain ⟨a, account⟩ := p
    obtain ⟨hhead, htail⟩ := List.pairwise_cons.mp hdistinct
    obtain ⟨_, d₁, hstep, hrest⟩ := run_bind_eq_ok.mp h
    dsimp only at hstep
    split at hstep
    · next balance _ =>
      obtain ⟨d₂, hrun, hstore, -, hlength⟩ :=
        updates_putEvmAccount a balance account.nonce account.code account.storage d
      obtain ⟨-, rfl⟩ := EStateM.Result.ok.inj (hrun.symm.trans hstep)
      have hsame : ∀ q ∈ l, accountWrites (database d₂).slots q.1 q.2.storage =
          accountWrites (database d).slots q.1 q.2.storage := by
        intro q hq
        rw [hstore]
        exact accountWrites_putEvmAccount (fun heq => hhead q hq (by rw [heq]; simp)) ..
      rw [ih hrest htail, hlength, List.map_cons, List.sum_cons, List.map_congr_left hsame,
        Nat.add_assoc]
    · exact absurd hstep run_throw_ne_ok

/-! ## A block -/

def HasReceipts (block : Block) : Prop := block.transactions.length ≤ block.receipts.length

variable {block : Block} {d d' : Durable Generation} {s' : SledStorage} {g g' : Generation}

def transactionWrites (t : Transaction) : ℕ := if t.externalHash.isSome then 4 else 3

theorem writes_indexTransaction {t : Transaction} {index : ℕ} (h : index < block.receipts.length) :
    Writes (fun g : Generation => (g.store, g.files)) (indexTransaction O block t index)
      (transactionWrites t) := by
  have hrow : ∀ hash t, Writes (fun g : Generation => (g.store, g.files)) (putTransaction hash t) 1 :=
    fun hash t => writes_durably (by intro g; rfl)
  have hreceipt : ∀ hash receipt,
      Writes (fun g : Generation => (g.store, g.files)) (putReceipt hash receipt) 1 :=
    fun hash receipt => writes_durably (by intro g; rfl)
  unfold indexTransaction transactionWrites
  rw [List.getElem?_eq_getElem h]
  cases t.externalHash with
  | none => exact (hrow _ _).seq (writes_pure.seq ((hreceipt _ _).seq (hreceipt _ _)))
  | some hash => exact (hrow _ _).seq ((hrow _ _).seq ((hreceipt _ _).seq (hreceipt _ _)))

theorem writes_indexTransactions (h : HasReceipts block) :
    Writes (fun g : Generation => (g.store, g.files))
      (block.transactions.zipIdx.forM fun (t, index) => indexTransaction O block t index)
      (block.transactions.map transactionWrites).sum := by
  have hall : ∀ p ∈ block.transactions.zipIdx,
      Writes (fun g : Generation => (g.store, g.files)) (indexTransaction O block p.1 p.2)
        (transactionWrites p.1) := by
    intro p hp
    have hlt := List.snd_lt_of_mem_zipIdx hp
    have hreceipts := h
    unfold HasReceipts at hreceipts
    exact writes_indexTransaction (by omega)
  have hsum : (block.transactions.zipIdx.map fun p => transactionWrites p.1) =
      block.transactions.map transactionWrites := by
    rw [← List.zipIdx_map_fst 0 block.transactions, List.map_map]
    simp
  rw [← hsum]
  exact writes_forM hall

theorem updates_of_writes {x : DiskM Unit} {n : ℕ}
    (h : Writes (fun g : Generation => (g.store, g.files)) x n) : Updates x id fun _ => n := by
  intro d
  obtain ⟨d', new, hrun, hpast, hlength, -, hobs⟩ := h d
  exact ⟨d', hrun, congrArg Prod.fst hobs, congrArg Prod.snd hobs, by
    rw [hpast, List.length_append, hlength]⟩

theorem updates_writeBlock (h : HasReceipts block) :
    Updates (writeBlock O block) (fun s => s.insertBlock block)
      fun _ => 1 + (block.transactions.map transactionWrites).sum + 2 :=
  ((updates_updateStore _).seq (updates_of_writes (writes_indexTransactions h))).seq
    ((updates_updateStore _).seq (updates_updateStore _))

theorem hasReceipts_of_writeBlock (h : writeBlock O block d = .ok () d') : HasReceipts block := by
  unfold writeBlock writeBody at h
  obtain ⟨_, d₁, hbody, -⟩ := run_bind_eq_ok.mp h
  obtain ⟨_, d₂, -, hindex⟩ := run_bind_eq_ok.mp hbody
  by_contra hshort
  unfold HasReceipts at hshort
  push Not at hshort
  -- the first transaction without a receipt stops the loop
  have hmem : (block.transactions[block.receipts.length], block.receipts.length) ∈
      block.transactions.zipIdx := by
    rw [List.mem_zipIdx_iff_getElem?, List.getElem?_eq_getElem hshort]
  obtain ⟨s₁, s₂, hturn⟩ := forall_of_run_forM_eq_ok hindex _ hmem
  have hnone : block.receipts[block.receipts.length]? = none := by simp
  dsimp only at hturn
  unfold indexTransaction at hturn
  obtain ⟨_, s₃, -, hturn⟩ := run_bind_eq_ok.mp hturn
  dsimp only at hturn
  rw [hnone] at hturn
  split at hturn
  · obtain ⟨_, s₄, -, hturn⟩ := run_bind_eq_ok.mp hturn
    exact run_throw_ne_ok hturn
  · exact run_throw_ne_ok hturn

theorem simulates_persistRevmState (state : RevmState) (d : Durable Generation) :
    SimulatesAt database (persistRevmState state) (persistState state) d := by
  unfold persistState Blq.persistRevmState persistRevmState
  rw [adaptExcept_forM]
  refine simulatesAt_forM fun entry _ d => ?_
  obtain ⟨address, account⟩ := entry
  dsimp only
  cases balanceToBix account.balance with
  | none => exact simulatesAt_throw
  | some balance => exact (updates_putEvmAccount _ _ _ _ _).simulates d

theorem simulates_persistAccounts (accounts : NativeAccounts) (d : Durable Generation) :
    SimulatesAt database (persistAccounts accounts) (accounts.toList.forM fun (address, balance, nonce) =>
      modify fun s => s.putAccount address balance nonce : StoreM Unit) d :=
  simulatesAt_forM fun _ _ d => (updates_putAccount _ _ _).simulates d

/-- **The rows of an insertion are the insertion.** -/
theorem simulates_insertRows (h : HasReceipts block) (d : Durable Generation) :
    SimulatesAt database (insertRows O R block) (Blq.insertBlock O R block) d := by
  have hrest : ∀ d : Durable Generation, SimulatesAt database
      (do
        updateStore fun s => s.setRewardIndexedTo block.header.number
        persistHistoricalEvmSnapshot block.header.number)
      (do
        modify fun s => s.setRewardIndexedTo block.header.number
        EStateM.adaptExcept NodeError.storage
          (Blq.persistHistoricalEvmSnapshot block.header.number)) d := by
    intro d
    refine ((updates_updateStore _).simulates d).bind fun _ d' _ => ?_
    unfold persistHistoricalEvmSnapshot Blq.persistHistoricalEvmSnapshot
    rw [adaptExcept_ite]
    exact simulatesAt_ite (fun _ => simulatesAt_pure) fun _ => (updates_updateStore _).simulates d'
  unfold Blq.insertBlock nodeInsertBlock insertRows
  dsimp only
  rw [adaptExcept_get_bind]
  show SimulatesAt database (runExcept _ >>= _) (EStateM.adaptExcept _ (runExcept _ >>= _)) d
  rw [adaptExcept_bind, adaptExcept_runExcept]
  refine simulatesAt_runExcept.bind fun timestamp d' _ => ?_
  rw [adaptExcept_ite]
  refine simulatesAt_ite (fun _ => ?_) fun _ => ?_
  · rw [adaptExcept_bind, adaptExcept_runExcept]
    refine simulatesAt_runExcept.bind fun simulation d' _ => ?_
    rw [adaptExcept_bind, adaptExcept_modify]
    refine ((updates_writeBlock h).simulates d').bind fun _ d' _ => ?_
    rw [adaptExcept_bind]
    refine (simulates_persistRevmState _ d').bind fun _ d' _ => ?_
    rw [adaptExcept_bind, adaptExcept_modify]
    exact hrest d'
  · rw [adaptExcept_bind, adaptExcept_runExcept]
    refine simulatesAt_runExcept.bind fun simulation d' _ => ?_
    obtain ⟨accounts, _, _⟩ := simulation
    dsimp only
    rw [adaptExcept_bind, adaptExcept_modify]
    refine ((updates_writeBlock h).simulates d').bind fun _ d' _ => ?_
    rw [adaptExcept_bind, adaptExcept_forM]
    refine (simulates_persistAccounts accounts d').bind fun _ d' _ => ?_
    rw [adaptExcept_bind, adaptExcept_modify]
    exact hrest d'

/-! ## What a write leaves alone

`Closed obs I`: no write that leaves the observation `obs` alone breaks `I`. The writes of each
phase of an insertion leave something alone, so they keep every `I` that is closed for it. -/

def Closed {X : Type} (obs : Generation → X) (I : Durable Generation → Prop) : Prop :=
  ∀ (f : Generation → Generation) (d : Durable Generation), (∀ g, obs (f g) = obs g) → I d →
    I ⟨f d.current, d.past ++ [d.current]⟩

/-- All but the accounts and the indexes that follow the tip. -/
def chainRows (g : Generation) : (Option U64 × Map U64 BlockHeader × Map U64 Block) ×
    (Map Hash256 Transaction × Map Hash256 StoredReceipt) × Files :=
  ((g.store.bestNumber, g.store.headers, g.store.blocks), (g.transactions, g.receipts), g.files)

def accountRows (g : Generation) : Map Address Bix × Map Address U64 × Map Address Bytes ×
    Map StorageKey Hash256 :=
  (g.store.balances, g.store.nonces, g.store.codes, g.store.slots)

section Closed

variable {I : Durable Generation → Prop} {d : Durable Generation}

theorem keeps_durably {X : Type} {obs : Generation → X} (hI : Closed obs I)
    {f : Generation → Generation} (hf : ∀ g, obs (f g) = obs g) (h : I d) :
    Keeps I (durably f : DiskM Unit) d fun _ _ => True :=
  ⟨hI f d hf h, trivial⟩

theorem keeps_putAccount (hI : Closed chainRows I) (h : I d) (a : Address) (balance : Bix)
    (nonce : U64) : Keeps I (putAccount a balance nonce) d fun _ _ => True :=
  (keeps_durably hI (by intro g; rfl) h).bind fun _ _ h' _ => keeps_durably hI (by intro g; rfl) h'

theorem keeps_putEvmAccount (hI : Closed chainRows I) (h : I d) (a : Address) (balance : Bix)
    (nonce : U64) (code : Bytes) (storage : Map Hash256 Hash256) :
    Keeps I (putEvmAccount a balance nonce code storage) d fun _ _ => True := by
  refine (keeps_putAccount hI h a balance nonce).bind fun _ d₁ h₁ _ => ?_
  refine (keeps_durably hI (by intro g; rfl) h₁).bind fun _ d₂ h₂ _ => ?_
  show Keeps I (List.forM _ _ >>= _) d₂ _
  refine (keeps_forM h₂ h₂ fun p _ d h _ => ?_).bind fun _ d₃ h₃ _ =>
    (keeps_forM h₃ h₃ fun p _ d h _ => ?_).trivial
  · dsimp only
    refine keeps_ite (fun _ => keeps_pure h h) fun _ => ?_
    exact (keeps_durably hI (by intro g; rfl) h).mono fun _ _ h' _ => h'
  · obtain ⟨slot, value⟩ := p
    unfold putSlot
    exact (keeps_durably hI (by intro g; rfl) h).mono fun _ _ h' _ => h'

theorem keeps_persistRevmState_of (hI : Closed chainRows I) (h : I d) (state : RevmState) :
    Keeps I (persistRevmState state) d fun _ _ => True := by
  refine (keeps_forM h h fun entry _ d h _ => ?_).trivial
  obtain ⟨address, account⟩ := entry
  dsimp only
  split
  · exact (keeps_putEvmAccount hI h _ _ _ _ _).mono fun _ _ h' _ => h'
  · exact keeps_throw h

theorem keeps_persistAccounts (hI : Closed chainRows I) (h : I d) (accounts : NativeAccounts) :
    Keeps I (persistAccounts accounts) d fun _ _ => True :=
  (keeps_forM h h fun _ _ _ h _ =>
    (keeps_putAccount hI h _ _ _).mono fun _ _ h' _ => h').trivial

theorem keeps_indexes (hI : Closed chainRows I) (h : I d) (number : U64) :
    Keeps I (do
      updateStore fun s => s.setRewardIndexedTo number
      persistHistoricalEvmSnapshot number) d fun _ _ => True := by
  refine (keeps_durably hI (by intro g; rfl) h).bind fun _ d' h' _ => ?_
  unfold persistHistoricalEvmSnapshot
  exact keeps_ite (fun _ => keeps_pure h' trivial) fun _ => keeps_durably hI (by intro g; rfl) h'

theorem keeps_putReceipts (hI : Closed (fun g => (g.store, g.files)) I) (h : I d) (block : Block)
    (t : Transaction) (index : ℕ) : Keeps I (match block.receipts[index]? with
      | none => throw (missingReceipt block index)
      | some receipt => do
        putReceipt (t.rpcHash O) ⟨receipt, block.header, index, t⟩
        putReceipt (t.hash O) ⟨receipt, block.header, index, t⟩) d fun _ => I := by
  split
  · exact keeps_throw h
  · refine (keeps_durably hI (by intro g; rfl) h).bind fun _ _ h' _ => ?_
    exact (keeps_durably hI (by intro g; rfl) h').mono fun _ _ h' _ => h'

theorem keeps_indexTransactions (hI : Closed (fun g => (g.store, g.files)) I) (h : I d)
    (block : Block) :
    Keeps I (block.transactions.zipIdx.forM fun (t, index) => indexTransaction O block t index) d
      fun _ _ => True := by
  refine (keeps_forM h h fun p _ d h _ => ?_).trivial
  obtain ⟨t, index⟩ := p
  refine (keeps_durably hI (by intro g; rfl) h).bind fun _ d₁ h₁ _ => ?_
  dsimp only
  split
  · exact (keeps_durably hI (by intro g; rfl) h₁).bind fun _ d₂ h₂ _ =>
      keeps_putReceipts hI h₂ block t index
  · exact keeps_putReceipts hI h₁ block t index

theorem keeps_writeBlock (hI : Closed files I) (h : I d) (block : Block) :
    Keeps I (writeBlock O block) d fun _ _ => True := by
  have hindex : Closed (fun g => (g.store, g.files)) I := fun f d hf =>
    hI f d fun g => congrArg Prod.snd (hf g)
  refine ((keeps_durably hI (by intro g; rfl) h).bind fun _ d₁ h₁ _ =>
    keeps_indexTransactions hindex h₁ block).bind fun _ d₂ h₂ _ => ?_
  refine (keeps_durably hI (by intro g; rfl) h₂).bind fun _ d₃ h₃ _ => ?_
  exact keeps_durably hI (by intro g; rfl) h₃

theorem keeps_insertRows (hI : Closed files I) (h : I d) (block : Block) :
    Keeps I (insertRows O R block) d fun _ _ => True := by
  have hchain : Closed chainRows I := fun f d hf =>
    hI f d fun g => congrArg (fun rows => rows.2.2) (hf g)
  unfold insertRows
  refine keeps_get_bind ?_
  show Keeps I (runExcept _ >>= _) d _
  refine keeps_runExcept_bind h fun timestamp _ => ?_
  dsimp only
  refine keeps_ite (fun _ => ?_) fun _ => ?_
  · refine keeps_runExcept_bind h fun simulation _ => ?_
    refine (keeps_writeBlock hI h block).bind fun _ d₁ h₁ _ => ?_
    refine (keeps_persistRevmState_of hchain h₁ _).bind fun _ d₂ h₂ _ => ?_
    exact keeps_indexes hchain h₂ _
  · refine keeps_runExcept_bind h fun simulation _ => ?_
    obtain ⟨accounts, _, _⟩ := simulation
    refine (keeps_writeBlock hI h block).bind fun _ d₁ h₁ _ => ?_
    refine (keeps_persistAccounts hchain h₁ _).bind fun _ d₂ h₂ _ => ?_
    exact keeps_indexes hchain h₂ _

end Closed

/-! ## Reading -/

section Read

variable {α β : Type} {f : SledStorage → Except StorageError α} {k : α → DiskM β}
  {d : Durable Generation}

theorem readDatabase_apply_of_ok {a : α} (h : f (database d) = .ok a) :
    readDatabase f d = .ok a d := by
  unfold readDatabase
  rw [onDisk_bind_apply]
  exact runExcept_apply_of_ok (by rw [show f d.current.store = .ok a from h]; rfl)

theorem readDatabase_bind_of_ok {β : Type} {a : α} {g : α → DiskM β} (h : f (database d) = .ok a) :
    (readDatabase f >>= g) d = g a d :=
  bind_apply_of_ok (readDatabase_apply_of_ok h)

theorem readDatabase_apply_of_error {e : StorageError} (h : f (database d) = .error e) :
    readDatabase f d = .error (.storage e) d := by
  unfold readDatabase
  rw [onDisk_bind_apply]
  exact runExcept_apply_of_error (by rw [show f d.current.store = .error e from h]; rfl)

theorem readDatabase_eq_ok {a : α} (h : readDatabase f d = .ok a d') :
    f (database d) = .ok a ∧ d' = d := by
  cases hread : f (database d) with
  | ok a' =>
    rw [readDatabase_apply_of_ok hread] at h
    obtain ⟨rfl, rfl⟩ := EStateM.Result.ok.inj h
    exact ⟨rfl, rfl⟩
  | error e =>
    rw [readDatabase_apply_of_error hread] at h
    cases h

theorem keeps_readDatabase_bind {I : Durable Generation → Prop} {Q : β → Durable Generation → Prop}
    (hI : I d) (h : ∀ a, f (database d) = .ok a → Keeps I (k a) d Q) :
    Keeps I (readDatabase f >>= k) d Q := by
  cases hread : f (database d) with
  | ok a =>
    unfold Keeps
    rw [readDatabase_bind_of_ok hread]
    exact h a hread
  | error e =>
    unfold Keeps
    rw [bind_apply_of_error (readDatabase_apply_of_error hread)]
    exact hI

theorem keeps_onDisk_bind {I : Durable Generation → Prop} {Q : β → Durable Generation → Prop}
    {k : Generation → DiskM β} (h : Keeps I (k d.current) d Q) : Keeps I (onDisk >>= k) d Q := h

end Read

/-! ## The manifest follows the tip -/

def withTip (O : Oracle) (g : Generation) (tip : BlockHeader) : Generation :=
  match g.manifest with
  | none => g
  | some m => { g with
      manifest := some (refreshedManifest O m tip)
      publication := some ⟨m.generationId, manifestChecksum O (refreshedManifest O m tip)⟩ }

theorem store_withTip (g : Generation) (tip : BlockHeader) : (withTip O g tip).store = g.store := by
  unfold withTip
  split <;> rfl

theorem refresh_ok {tip : BlockHeader} (hbest : (database d).bestHeader = .ok tip) :
    ∃ past, refreshGenerationManifest O d = .ok () ⟨withTip O d.current tip, past⟩ := by
  unfold refreshGenerationManifest withTip
  rw [onDisk_bind_apply]
  cases d.current.manifest with
  | none => exact ⟨d.past, rfl⟩
  | some m =>
    dsimp only
    rw [readDatabase_bind_of_ok hbest]
    exact ⟨_, rfl⟩

/-- **A successful insertion**: the block is inserted in the database, and the manifest, if there
is one, is refreshed to it. -/
theorem insertBlock_ok (h : insertBlock O R block d = .ok () d') :
    HasReceipts block ∧ Blq.insertBlock O R block (database d) = .ok () (database d') ∧
      (database d').bestHeader = .ok block.header ∧
      d'.current.files = (withTip O d.current block.header).files := by
  obtain ⟨_, d₁, hrows, hrefresh⟩ := run_bind_eq_ok.mp h
  have hreceipts : HasReceipts block := by
    unfold insertRows at hrows
    obtain ⟨g, d₂, -, hrows⟩ := run_bind_eq_ok.mp hrows
    obtain ⟨timestamp, d₃, -, hrows⟩ := run_bind_eq_ok.mp hrows
    dsimp only at hrows
    split at hrows
    · obtain ⟨simulation, d₄, -, hrows⟩ := run_bind_eq_ok.mp hrows
      obtain ⟨_, d₅, hblock, -⟩ := run_bind_eq_ok.mp hrows
      exact hasReceipts_of_writeBlock hblock
    · obtain ⟨⟨accounts, _, _⟩, d₄, -, hrows⟩ := run_bind_eq_ok.mp hrows
      obtain ⟨_, d₅, hblock, -⟩ := run_bind_eq_ok.mp hrows
      exact hasReceipts_of_writeBlock hblock
  have hstore := (simulates_insertRows hreceipts d).of_ok hrows
  have hbest : (database d₁).bestHeader = .ok block.header :=
    bestHeader_of_insert (insertBlock_view hstore)
  have hfiles : d₁.current.files = d.current.files :=
    ((keeps_insertRows (I := fun d' => d'.current.files = d.current.files)
      (fun f d' hf hd' => (hf d'.current).trans hd') rfl block).of_ok hrows).1
  obtain ⟨past, hrefresh'⟩ := refresh_ok (O := O) hbest
  rw [show refreshGenerationManifest O d₁ = .ok () d' from hrefresh] at hrefresh'
  obtain ⟨-, rfl⟩ := EStateM.Result.ok.inj hrefresh'
  have hdatabase : database ⟨withTip O d₁.current block.header, past⟩ = database d₁ :=
    store_withTip d₁.current block.header
  refine ⟨hreceipts, ?_, ?_, ?_⟩
  · rw [hdatabase]
    exact hstore
  · rw [hdatabase]
    exact hbest
  · show (withTip O d₁.current block.header).files = _
    have hmanifest : d₁.current.manifest = d.current.manifest := congrArg Prod.fst hfiles
    unfold withTip
    rw [hmanifest]
    cases d.current.manifest with
    | none => exact hfiles
    | some m =>
      have hrest := congrArg (fun fs : Files => fs.2.2) hfiles
      exact Prod.ext rfl (Prod.ext rfl hrest)

theorem exists_insertBlock_ok (hreceipts : HasReceipts block)
    (h : Blq.insertBlock O R block (database d) = .ok () s') :
    ∃ d', insertBlock O R block d = .ok () d' ∧ database d' = s' := by
  obtain ⟨d₁, hrows, rfl⟩ := (simulates_insertRows hreceipts d).exists_ok h
  obtain ⟨past, hrefresh⟩ := refresh_ok (O := O) (d := d₁)
    (bestHeader_of_insert (insertBlock_view h))
  refine ⟨⟨withTip O d₁.current block.header, past⟩, ?_, store_withTip d₁.current block.header⟩
  show (insertRows O R block >>= fun _ => refreshGenerationManifest O) d = _
  rw [bind_apply_of_ok hrows]
  exact hrefresh

/-! ## Replays -/

/-- The files are those of `g`, or those of `g` refreshed to some tip. -/
def RefreshedFrom (O : Oracle) (g g' : Generation) : Prop :=
  g'.files = g.files ∨ ∃ tip, g'.files = (withTip O g tip).files

theorem files_withTip_congr (h : g'.files = g.files) (tip : BlockHeader) :
    (withTip O g' tip).files = (withTip O g tip).files := by
  have hmanifest : g'.manifest = g.manifest := congrArg Prod.fst h
  have hrest := congrArg (fun fs : Files => fs.2.2) h
  unfold withTip
  rw [hmanifest]
  cases g.manifest with
  | none => exact h
  | some m => exact Prod.ext rfl (Prod.ext rfl hrest)

theorem withTip_withTip (g : Generation) (tip tip' : BlockHeader) :
    withTip O (withTip O g tip) tip' = withTip O g tip' := by
  unfold withTip
  cases hm : g.manifest with
  | none => simp only [hm]
  | some m => rfl

theorem RefreshedFrom.withTip (h : RefreshedFrom O g g') (tip : BlockHeader) :
    (withTip O g' tip).files = (Generation.withTip O g tip).files := by
  rcases h with hsame | ⟨tip', htip'⟩
  · exact files_withTip_congr hsame tip
  · rw [files_withTip_congr htip' tip, withTip_withTip]

theorem RefreshedFrom.congr {g'' : Generation} (h : RefreshedFrom O g g')
    (hfiles : g''.files = g'.files) : RefreshedFrom O g g'' := by
  unfold RefreshedFrom
  rw [hfiles]
  exact h

theorem keeps_refresh (h : RefreshedFrom O g d.current) :
    Keeps (fun d' => RefreshedFrom O g d'.current) (refreshGenerationManifest O) d
      fun _ _ => True := by
  cases hbest : (database d).bestHeader with
  | ok tip =>
    obtain ⟨past, hrun⟩ := refresh_ok (O := O) hbest
    exact keeps_of_eq_ok hrun (.inr ⟨tip, h.withTip tip⟩) trivial
  | error e =>
    unfold refreshGenerationManifest
    refine keeps_onDisk_bind ?_
    split
    · exact keeps_pure h trivial
    · refine keeps_readDatabase_bind h fun best hread => ?_
      rw [hbest] at hread
      cases hread

theorem keeps_insertBlock_files (h : RefreshedFrom O g d.current) (block : Block) :
    Keeps (fun d' => RefreshedFrom O g d'.current) (insertBlock O R block) d fun _ _ => True :=
  (keeps_insertRows (fun _ _ hf hd => hd.congr (hf _)) h block).bind fun _ _ h' _ => keeps_refresh h'

theorem keeps_replayCanonicalChain (h : RefreshedFrom O g d.current) (chain : List Block) :
    Keeps (fun d' => RefreshedFrom O g d'.current) (replayCanonicalChain O R config chain) d
      fun _ _ => True := by
  cases chain with
  | nil => exact keeps_throw h
  | cons genesis rest =>
    unfold replayCanonicalChain
    refine keeps_ite_throw h fun _ => ?_
    refine (keeps_insertBlock_files h genesis).bind fun _ d₁ h₁ _ => ?_
    refine keeps_forM (L := fun _ => True) h₁ trivial fun block _ d h _ => ?_
    unfold replayBlock
    refine keeps_readDatabase_bind h fun parent _ => keeps_onDisk_bind ?_
    exact keeps_runExcept_bind h fun _ _ => keeps_insertBlock_files h block

theorem replayBlock_ok (h : replayBlock O R config block d = .ok () d') :
    HasReceipts block ∧ Blq.replayBlock O R config block (database d) = .ok () (database d') ∧
      d'.current.files = (withTip O d.current block.header).files := by
  unfold replayBlock at h
  cases hbest : (database d).bestHeader with
  | error e =>
    rw [bind_apply_of_error (readDatabase_apply_of_error hbest)] at h
    cases h
  | ok parent =>
    rw [readDatabase_bind_of_ok hbest, onDisk_bind_apply] at h
    obtain ⟨_, d₁, hrun, hinsert⟩ := run_bind_eq_ok.mp h
    obtain ⟨hvalid, rfl⟩ := run_runExcept_eq_ok.mp hrun
    change validateExtension O R config (database d) parent block = .ok () at hvalid
    obtain ⟨hreceipts, hstore, -, hfiles⟩ := insertBlock_ok hinsert
    refine ⟨hreceipts, ?_, hfiles⟩
    unfold Blq.replayBlock
    have hread : readStore SledStorage.bestHeader (database d) = .ok parent (database d) := by
      unfold readStore
      rw [get_bind_apply]
      exact runExcept_apply_of_ok (by rw [hbest]; rfl)
    rw [bind_apply_of_ok hread, get_bind_apply, runExcept_bind_of_ok hvalid]
    exact hstore

theorem exists_replayBlock_ok (hreceipts : HasReceipts block)
    (h : Blq.replayBlock O R config block (database d) = .ok () s') :
    ∃ d', replayBlock O R config block d = .ok () d' ∧ database d' = s' := by
  rcases replayBlock_cases O R config block (database d) with
    ⟨e, herr⟩ | ⟨parent, s'', hbest, hvalid, hinsert, hok, -⟩
  · rw [herr] at h
    cases h
  · rw [hok] at h
    obtain ⟨-, rfl⟩ := EStateM.Result.ok.inj h
    obtain ⟨d', hrun, hstore⟩ := exists_insertBlock_ok hreceipts hinsert
    refine ⟨d', ?_, hstore⟩
    have hcheck : (runExcept (validateExtension O R config d.current.store parent block) :
        DiskM Unit) d = .ok () d := runExcept_apply_of_ok hvalid
    unfold replayBlock
    rw [readDatabase_bind_of_ok hbest, onDisk_bind_apply,
      bind_apply_of_ok hcheck]
    exact hrun

theorem forM_replayBlock_ok {first : Block} {rest : List Block}
    (hfiles : d.current.files = (withTip O g first.header).files)
    (h : rest.forM (replayBlock O R config) d = .ok () d') :
    (∀ b ∈ rest, HasReceipts b) ∧
      rest.forM (Blq.replayBlock O R config) (database d) = .ok () (database d') ∧
      ∃ last, (first :: rest).getLast? = some last ∧
        d'.current.files = (withTip O g last.header).files := by
  induction rest generalizing first d with
  | nil =>
    change (.ok () d : EStateM.Result NodeError (Durable Generation) Unit) = .ok () d' at h
    obtain ⟨-, rfl⟩ := EStateM.Result.ok.inj h
    exact ⟨by simp, rfl, first, rfl, hfiles⟩
  | cons block rest ih =>
    obtain ⟨_, d₁, hblock, hrest⟩ := run_bind_eq_ok.mp h
    obtain ⟨hreceipts, hstore, hfiles₁⟩ := replayBlock_ok hblock
    have hrefreshed : RefreshedFrom O g d.current := .inr ⟨first.header, hfiles⟩
    obtain ⟨hall, hrun, last, hlast, hfiles'⟩ := ih (hfiles₁.trans (hrefreshed.withTip _)) hrest
    refine ⟨List.forall_mem_cons.mpr ⟨hreceipts, hall⟩, ?_, last, ?_, hfiles'⟩
    · show (Blq.replayBlock O R config block >>= fun _ => rest.forM _) (database d) = _
      rw [bind_apply_of_ok hstore]
      exact hrun
    · rw [List.getLast?_cons_cons]
      exact hlast

/-- **A replay on a generation is the replay on its database**, and the files follow its last
block. -/
theorem replay_ok {chain : List Block} (h : replayCanonicalChain O R config chain d = .ok () d') :
    (∀ b ∈ chain, HasReceipts b) ∧
      Blq.replayCanonicalChain O R config chain (database d) = .ok () (database d') ∧
      ∃ last, chain.getLast? = some last ∧
        d'.current.files = (withTip O d.current last.header).files := by
  cases chain with
  | nil => cases h
  | cons genesis rest =>
    change (replayCanonicalChain O R config (genesis :: rest)).run d = _ at h
    simp only [replayCanonicalChain, run_ite_throw_eq_ok, run_bind_eq_ok] at h
    obtain ⟨hzero, _, d₁, hgenesis, hrest⟩ := h
    obtain ⟨hreceipts, hstore, -, hfiles⟩ := insertBlock_ok hgenesis
    obtain ⟨hall, hrun, hlast⟩ := forM_replayBlock_ok hfiles hrest
    refine ⟨List.forall_mem_cons.mpr ⟨hreceipts, hall⟩, ?_, hlast⟩
    show (Blq.replayCanonicalChain O R config (genesis :: rest)).run _ = _
    simp only [Blq.replayCanonicalChain, run_ite_throw_eq_ok, run_bind_eq_ok]
    exact ⟨hzero, (), _, hstore, hrun⟩

theorem exists_forM_replayBlock_ok {rest : List Block} (hreceipts : ∀ b ∈ rest, HasReceipts b)
    (h : rest.forM (Blq.replayBlock O R config) (database d) = .ok () s') :
    ∃ d', rest.forM (replayBlock O R config) d = .ok () d' := by
  induction rest generalizing d with
  | nil => exact ⟨d, rfl⟩
  | cons block rest ih =>
    obtain ⟨_, s₁, hblock, hrest⟩ := run_bind_eq_ok.mp h
    obtain ⟨d₁, hrun, rfl⟩ := exists_replayBlock_ok (hreceipts block (by simp)) hblock
    obtain ⟨d', hd'⟩ := ih (fun b hb => hreceipts b (List.mem_cons_of_mem block hb)) hrest
    refine ⟨d', ?_⟩
    show (replayBlock O R config block >>= fun _ => rest.forM _) d = _
    rw [bind_apply_of_ok hrun]
    exact hd'

theorem exists_replay_ok {chain : List Block} (hreceipts : ∀ b ∈ chain, HasReceipts b)
    (h : Blq.replayCanonicalChain O R config chain (database d) = .ok () s') :
    ∃ d', replayCanonicalChain O R config chain d = .ok () d' := by
  cases chain with
  | nil => cases h
  | cons genesis rest =>
    change (Blq.replayCanonicalChain O R config (genesis :: rest)).run _ = _ at h
    simp only [Blq.replayCanonicalChain, run_ite_throw_eq_ok, run_bind_eq_ok] at h
    obtain ⟨hzero, _, s₁, hgenesis, hrest⟩ := h
    obtain ⟨d₁, hrun, rfl⟩ := exists_insertBlock_ok (hreceipts genesis (by simp)) hgenesis
    obtain ⟨d', hd'⟩ := exists_forM_replayBlock_ok
      (fun b hb => hreceipts b (List.mem_cons_of_mem genesis hb)) hrest
    refine ⟨d', ?_⟩
    show (replayCanonicalChain O R config (genesis :: rest)).run d = _
    simp only [replayCanonicalChain, run_ite_throw_eq_ok, run_bind_eq_ok]
    exact ⟨hzero, (), d₁, hrun, hd'⟩

end Generation

end Blq
