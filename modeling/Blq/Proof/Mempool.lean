import Blq.Spec.Mempool

/-!
# The transaction pool

* `Accepted`, `accepted_of_add`: what an accepted transaction makes of the pool: it is known,
  takes the place of one of its sender with its nonce, the place of the cheapest, or a free one.
* `Valid`: bounded, one transaction a sender and nonce, one a hash, sorted by fee; every
  operation keeps it.
* `pool_valid`: in every run the pool is valid, a refused addition changes nothing, and a full
  pool gives up one transaction of lowest priority.
* `firstSeen_exact_iff`: the table of times has exactly the pending hashes as keys unless an
  addition replaces a pending transaction.
* `restart_exact_iff`: which pools a restart restores.
-/

namespace Blq

open Word Result

instance : Std.Total paysAtLeast where
  total a b := by
    unfold paysAtLeast
    rw [← BitVec.toNat_inj, ← BitVec.toNat_inj]
    omega

instance : IsTrans Transaction paysAtLeast where
  trans a b c := by
    unfold paysAtLeast
    rw [← BitVec.toNat_inj, ← BitVec.toNat_inj, ← BitVec.toNat_inj]
    omega

namespace Mempool

variable {O : Oracle} {m m' : Mempool} {t : Transaction} {b : Bix} {now : U64}

abbrev SameSlot (a b : Transaction) : Prop := a.from_ = b.from_ ∧ a.nonce = b.nonce

/-! ## What an addition does -/

/-- The writes of `add` come after its last check. -/
theorem addInPlace_apply : addInPlace O t b now m =
    match m.add O t b now with
    | .ok m' => .ok () m'
    | .error e => .error e m := by
  unfold addInPlace add
  split
  · rfl
  cases (validateTransactionFee t b).mapError MempoolError.consensus with
  | error e => rfl
  | ok u =>
    simp only [ok_bind]
    rw [runExcept_bind_of_ok rfl, get_bind_apply]
    split
    · rfl
    cases m.transactions.find? _ with
    | some existing => dsimp only; split <;> rfl
    | none =>
      dsimp only
      split
      · cases m.transactions.getLast? with
        | none => rfl
        | some lowest => dsimp only; split <;> rfl
      · rfl

theorem replaceFirst_append {existing : Transaction} {front rest : List Transaction}
    (hslot : SameSlot existing t) (hfront : ∀ a ∈ front, ¬ SameSlot a t) :
    replaceFirst t (front ++ existing :: rest) = front ++ t :: rest := by
  induction front with
  | nil => exact if_pos hslot
  | cons a front ih =>
    rw [List.forall_mem_cons] at hfront
    exact (if_neg hfront.1).trans (congrArg (a :: ·) (ih hfront.2))

/-- The checks of `add` that do not depend on the pool. -/
def FeesAccepted (t : Transaction) (b : Bix) : Prop :=
  minGasPriceBix ≤ t.maxFeePerGas.toNat ∧ validateTransactionFee t b = .ok ()

def Unknown (O : Oracle) (m : Mempool) (t : Transaction) : Prop :=
  ∀ a ∈ m.transactions, a.rpcHash O ≠ t.rpcHash O

/-- The pool after an accepted addition. -/
inductive Accepted (O : Oracle) (m : Mempool) (t : Transaction) (now : U64) : Mempool → Prop where
  | known (h : ¬ Unknown O m t) : Accepted O m t now m
  | replaced {front rest : List Transaction} {existing : Transaction} (h : Unknown O m t)
      (hm : m.transactions = front ++ existing :: rest) (hslot : SameSlot existing t)
      (hfee : existing.maxFeePerGas.toNat < t.maxFeePerGas.toNat) :
      Accepted O m t now (insertSeen O (front ++ t :: rest) m.firstSeen t now)
  | evicted {front : List Transaction} {lowest : Transaction} (h : Unknown O m t)
      (hm : m.transactions = front ++ [lowest]) (hslot : ∀ a ∈ m.transactions, ¬ SameSlot a t)
      (hfull : maxMempoolTransactions ≤ m.transactions.length) (hpays : ¬ paysAtLeast lowest t) :
      Accepted O m t now
        (insertSeen O (front ++ [t]) (m.firstSeen.erase (lowest.rpcHash O)) t now)
  | appended (h : Unknown O m t) (hslot : ∀ a ∈ m.transactions, ¬ SameSlot a t)
      (hroom : m.transactions.length < maxMempoolTransactions) :
      Accepted O m t now (insertSeen O (m.transactions ++ [t]) m.firstSeen t now)

theorem any_rpcHash_iff :
    (m.transactions.any fun a => a.rpcHash O = t.rpcHash O) = true ↔ ¬ Unknown O m t := by
  simp [Unknown]

theorem accepted_of_add (h : m.add O t b now = .ok m') :
    FeesAccepted t b ∧ Accepted O m t now m' := by
  simp only [add, throw_bind, bind_eq_ok, ite_throw_eq_ok, mapError_eq_ok] at h
  obtain ⟨hmin, ⟨⟩, hfee, h⟩ := h
  refine ⟨⟨Nat.not_lt.mp hmin, hfee⟩, ?_⟩
  split at h
  next hknown =>
    obtain rfl := pure_eq_ok.mp h
    exact .known (any_rpcHash_iff.mp hknown)
  next hknown =>
    have hunknown := not_not.mp (mt any_rpcHash_iff.mpr hknown)
    split at h
    next existing hfind =>
      rw [List.find?_eq_some_iff_append] at hfind
      obtain ⟨hslot, front, rest, hm, hfront⟩ := hfind
      have hslot : SameSlot existing t := by simpa using hslot
      simp only [ite_throw_eq_ok, pure_eq_ok] at h
      obtain ⟨hlow, rfl⟩ := h
      rw [hm, replaceFirst_append hslot (by simpa [-not_and, not_and_or] using hfront)]
      exact .replaced hunknown hm hslot (Nat.not_le.mp hlow)
    next hfind =>
      have hslot : ∀ a ∈ m.transactions, ¬ SameSlot a t := by
        simpa using hfind
      split at h
      next hfull =>
        split at h
        next => exact absurd h throw_ne_ok
        next lowest hlast =>
          simp only [ite_throw_eq_ok, pure_eq_ok] at h
          obtain ⟨hpays, rfl⟩ := h
          obtain ⟨front, hm⟩ := List.getLast?_eq_some_iff.mp hlast
          rw [hm, List.dropLast_concat]
          exact .evicted hunknown hm hslot hfull hpays
      next hroom =>
        obtain rfl := pure_eq_ok.mp h
        exact .appended hunknown hslot (Nat.not_le.mp hroom)

/-! ## Pools that the operations keep -/

def slot (t : Transaction) : Address × U64 := (t.from_, t.nonce)

structure Valid (O : Oracle) (l : List Transaction) : Prop where
  bounded : l.length ≤ maxMempoolTransactions
  slots : (l.map slot).Nodup
  hashes : (l.map (·.rpcHash O)).Nodup
  sorted : l.Pairwise paysAtLeast

variable {l l' kept : List Transaction}

theorem Valid.sublist (h : Valid O l) (hl : l'.Sublist l) : Valid O l' where
  bounded := hl.length_le.trans h.bounded
  slots := h.slots.sublist (hl.map _)
  hashes := h.hashes.sublist (hl.map _)
  sorted := h.sorted.sublist hl

theorem Valid.insert (h : Valid O kept) (hroom : kept.length < maxMempoolTransactions)
    (hl : l.Perm (t :: kept)) (hhash : ∀ a ∈ kept, a.rpcHash O ≠ t.rpcHash O)
    (hslot : ∀ a ∈ kept, ¬ SameSlot a t) : Valid O (sortByFee l) := by
  have hperm : (sortByFee l).Perm (t :: kept) := (List.perm_insertionSort _ l).trans hl
  refine ⟨hperm.length_eq.trans_le hroom, ?_, ?_, List.pairwise_insertionSort _ l⟩
  · refine (hperm.map slot).nodup_iff.mpr (List.nodup_cons.mpr ⟨?_, h.slots⟩)
    rintro hmem
    obtain ⟨a, ha, hat⟩ := List.mem_map.mp hmem
    exact hslot a ha (Prod.mk.inj hat)
  · refine (hperm.map _).nodup_iff.mpr (List.nodup_cons.mpr ⟨?_, h.hashes⟩)
    rintro hmem
    obtain ⟨a, ha, hat⟩ := List.mem_map.mp hmem
    exact hhash a ha hat

theorem Valid.others {front rest : List Transaction} {existing : Transaction}
    (h : Valid O (front ++ existing :: rest)) :
    ∀ a ∈ front ++ rest, ¬ SameSlot a existing ∧ a.rpcHash O ≠ existing.rpcHash O := by
  have hperm : (front ++ existing :: rest).Perm (existing :: (front ++ rest)) := List.perm_middle
  have hslots := List.nodup_cons.mp ((hperm.map slot).nodup_iff.mp h.slots)
  have hhashes := List.nodup_cons.mp ((hperm.map _).nodup_iff.mp h.hashes)
  intro a ha
  refine ⟨fun hslot => hslots.1 ?_, fun hhash => hhashes.1 ?_⟩
  · exact List.mem_map.mpr ⟨a, ha, Prod.ext hslot.1 hslot.2⟩
  · exact List.mem_map.mpr ⟨a, ha, hhash⟩

theorem Accepted.valid (h : Accepted O m t now m') (hm : Valid O m.transactions) :
    Valid O m'.transactions := by
  cases h with
  | known => exact hm
  | @replaced front rest existing hunknown heq hslot =>
    have hsub : (front ++ rest).Sublist m.transactions := by
      rw [heq]
      exact (List.sublist_cons_self _ _).append_left front
    refine (hm.sublist hsub).insert ?_ List.perm_middle (fun a ha => hunknown a (hsub.subset ha)) ?_
    · have hbound := hm.bounded
      rw [heq, List.length_append, List.length_cons] at hbound
      rw [List.length_append]
      omega
    · intro a ha hat
      -- the replaced transaction is the only one in the slot
      refine ((heq ▸ hm).others a ha).1 ⟨hat.1.trans hslot.1.symm, hat.2.trans hslot.2.symm⟩
  | @evicted front lowest hunknown heq hslot =>
    have hsub : front.Sublist m.transactions := heq ▸ List.sublist_append_left front [lowest]
    refine (hm.sublist hsub).insert ?_ (List.perm_append_singleton t _)
      (fun a ha => hunknown a (hsub.subset ha)) (fun a ha => hslot a (hsub.subset ha))
    have hbound := hm.bounded
    rw [heq, List.length_append, List.length_singleton] at hbound
    omega
  | appended hunknown hslot hroom =>
    exact hm.insert hroom (List.perm_append_singleton t _) hunknown hslot

theorem apply_add :
    apply O m (.add t b now) = match m.add O t b now with | .ok m' => m' | .error _ => m := by
  rw [apply, finalState, addInPlace_apply]
  cases m.add O t b now <;> rfl

theorem valid_apply (h : Valid O m.transactions) (operation : Operation) :
    Valid O (apply O m operation).transactions := by
  cases operation with
  | add t b now =>
    rw [apply_add]
    cases hadd : m.add O t b now with
    | ok m' => exact (accepted_of_add hadd).2.valid h
    | error e => exact h
  | removeExpired => exact h.sublist List.filter_sublist
  | removeStaleNonces => exact h.sublist List.filter_sublist
  | removeIncluded => exact h.sublist List.filter_sublist

theorem valid_run (operations : List Operation) : Valid O (run O operations).transactions :=
  List.foldlRecOn (motive := fun m : Mempool => Valid O m.transactions) operations _
    ⟨Nat.zero_le _, List.nodup_nil, List.nodup_nil, .nil⟩ fun _ h operation _ =>
      valid_apply h operation

/-- **The pool of every run** is bounded, sorted by fee and has one transaction a slot and one a
hash; a refused addition changes nothing; an addition to a full pool under a new hash and to a
free slot displaces one transaction, which pays least. -/
theorem pool_valid (O : Oracle) (operations : List Operation) :
    Valid O (run O operations).transactions ∧
    (∀ t b now e m', addInPlace O t b now (run O operations) = .error e m' →
      m' = run O operations) ∧
    ∀ t b now m', addInPlace O t b now (run O operations) = .ok () m' →
      (run O operations).transactions.length = maxMempoolTransactions →
      Unknown O (run O operations) t →
      (∀ a ∈ (run O operations).transactions, ¬ SameSlot a t) →
      ∃ lowest ∈ (run O operations).transactions,
        (∀ a ∈ (run O operations).transactions, paysAtLeast a lowest) ∧
        (lowest :: m'.transactions).Perm (t :: (run O operations).transactions) := by
  have hvalid := valid_run (O := O) operations
  generalize run O operations = m at hvalid
  refine ⟨hvalid, ?_, ?_⟩
  · intro t b now e m' h
    rw [addInPlace_apply] at h
    split at h
    · cases h
    · cases h
      rfl
  · intro t b now m' h hfull hunknown hslot
    rw [addInPlace_apply] at h
    split at h
    next m₁ hadd =>
      cases h
      cases (accepted_of_add hadd).2 with
      | known h => exact absurd hunknown h
      | @replaced front rest existing _ hm hsame =>
        exact absurd hsame (hslot existing (hm ▸ List.mem_append_right _ List.mem_cons_self))
      | appended _ _ hroom => exact absurd hfull hroom.ne
      | @evicted front lowest _ hm =>
        refine ⟨lowest, hm ▸ List.mem_append_right _ (List.mem_singleton_self _), ?_, ?_⟩
        · rw [hm]
          intro a ha
          rcases List.mem_append.mp ha with ha | ha
          · exact (List.pairwise_append.mp (hm ▸ hvalid.sorted)).2.2 a ha lowest
              (List.mem_singleton_self _)
          · rw [List.mem_singleton.mp ha]
            exact refl_of paysAtLeast lowest
        · have hnew : (sortByFee (front ++ [t])).Perm (t :: front) :=
            (List.perm_insertionSort _ _).trans (List.perm_append_singleton t front)
          rw [hm]
          exact (hnew.cons lowest).trans ((List.Perm.swap ..).trans
            ((List.perm_append_singleton lowest front).symm.cons t))
    next => cases h

/-! ## The table of times -/

/-- The table has an entry for exactly the hashes of the pending transactions. -/
def Exact (O : Oracle) (m : Mempool) : Prop :=
  ∀ h : Hash256, (m.firstSeen[h]?).isSome = true ↔ h ∈ m.transactions.map (·.rpcHash O)

/-- The call is an addition that replaces a pending transaction of its sender with its nonce. -/
def Replaces (O : Oracle) (m : Mempool) : Operation → Prop
  | .add t b _ => FeesAccepted t b ∧ Unknown O m t ∧ ∃ existing ∈ m.transactions,
      SameSlot existing t ∧ existing.maxFeePerGas.toNat < t.maxFeePerGas.toNat
  | _ => False

theorem Exact.size_le (h : Exact O m) (hm : Valid O m.transactions) :
    m.firstSeen.size ≤ maxMempoolTransactions := by
  refine le_trans ?_ ((List.length_map (·.rpcHash O)).trans_le hm.bounded)
  rw [← Std.ExtTreeMap.length_keys]
  refine (List.Nodup.subperm Std.ExtTreeMap.nodup_keys fun k hk => ?_).length_le
  rw [← h k, ← Std.ExtTreeMap.mem_iff_isSome_getElem?]
  exact Std.ExtTreeMap.mem_keys.mp hk

theorem isSome_foldl_erase (l : List Transaction) (seen : Map Hash256 U64) (h : Hash256) :
    ((l.foldl (fun seen t => seen.erase (t.rpcHash O)) seen)[h]?).isSome = true ↔
      (seen[h]?).isSome = true ∧ h ∉ l.map (·.rpcHash O) := by
  rw [← List.foldl_map, Map.getElem?_foldl_erase]
  split
  next hmem => simp only [Option.isSome_none, hmem, not_true, and_false, Bool.false_eq_true]
  next hnot => simp only [hnot, not_false_iff, and_true]

theorem Exact.retain (h : Exact O m) (hm : Valid O m.transactions) (gone : Transaction → Bool) :
    Exact O (m.retain O gone) := by
  intro k
  rw [Mempool.retain, isSome_foldl_erase, h k]
  simp only [List.mem_map, List.mem_filter, Bool.not_eq_true']
  constructor
  · rintro ⟨⟨t, ht, rfl⟩, hnot⟩
    exact ⟨t, ⟨ht, Bool.eq_false_iff.mpr fun hgone => hnot ⟨t, ⟨ht, hgone⟩, rfl⟩⟩, rfl⟩
  · rintro ⟨t, ⟨ht, hstays⟩, rfl⟩
    refine ⟨⟨t, ht, rfl⟩, ?_⟩
    rintro ⟨a, ⟨ha, hgone⟩, hat⟩
    -- hashes are distinct, so `a` is `t`
    rw [List.inj_on_of_nodup_map hm.hashes ha ht hat, hstays] at hgone
    cases hgone

theorem exact_insertSeen {seen : Map Hash256 U64} (hl : l.Perm (t :: kept))
    (hseen : Exact O ⟨kept, seen⟩) : Exact O (insertSeen O l seen t now) := by
  intro k
  have hperm := ((List.perm_insertionSort paysAtLeast l).trans hl).map (·.rpcHash O)
  rw [insertSeen, sortByFee, hperm.mem_iff, Map.getElem?_insert_eq, List.map_cons, List.mem_cons]
  split
  next heq => simp [heq]
  next hne => rw [hseen k, or_iff_right (Ne.symm hne)]

theorem add_ok_of_replaces (hm : Valid O m.transactions) (h : Replaces O m (.add t b now)) :
    ∃ m', m.add O t b now = .ok m' := by
  obtain ⟨⟨hmin, hfee⟩, hunknown, existing, hmem, hslot, hlt⟩ := h
  have hfind : m.transactions.find? (fun a => decide (a.from_ = t.from_ ∧ a.nonce = t.nonce)) =
      some existing := by
    cases hfind : m.transactions.find? _ with
    | none => exact absurd hslot (by simpa using List.find?_eq_none.mp hfind existing hmem)
    | some a =>
      have hat : SameSlot a t := by simpa using List.find?_some hfind
      exact congrArg some (List.inj_on_of_nodup_map hm.slots (List.mem_of_find?_eq_some hfind) hmem
        (Prod.ext (hat.1.trans hslot.1.symm) (hat.2.trans hslot.2.symm)))
  have hknown := mt any_rpcHash_iff.mp (not_not.mpr hunknown)
  refine ⟨insertSeen O (replaceFirst t m.transactions) m.firstSeen t now, ?_⟩
  simp only [add, if_neg hmin.not_gt, hfee, if_neg hknown, hfind, if_neg hlt.not_ge]
  rfl

/-- Of all calls only a replacement takes the table out of step. -/
theorem exact_apply_iff (h : Exact O m) (hm : Valid O m.transactions) (operation : Operation) :
    Exact O (apply O m operation) ↔ ¬ Replaces O m operation := by
  cases operation with
  | removeExpired => exact iff_of_true (h.retain hm _) id
  | removeStaleNonces => exact iff_of_true (h.retain hm _) id
  | removeIncluded => exact iff_of_true (h.retain hm _) id
  | add t b now =>
    rw [apply_add]
    cases hadd : m.add O t b now with
    | error e =>
      refine iff_of_true h fun hreplaces => ?_
      obtain ⟨m', hok⟩ := add_ok_of_replaces hm hreplaces
      cases hadd.symm.trans hok
    | ok m' =>
      cases (accepted_of_add hadd).2 with
      | known hknown => exact iff_of_true h fun hreplaces => hknown hreplaces.2.1
      | @replaced front rest existing hunknown heq hslot hfee =>
        have hmem : existing ∈ m.transactions := heq ▸ List.mem_append_right _ List.mem_cons_self
        refine iff_of_false (fun hexact => ?_)
          (not_not.mpr ⟨(accepted_of_add hadd).1, hunknown, existing, hmem, hslot, hfee⟩)
        -- the time of the replaced transaction is still there
        have hkey := (h (existing.rpcHash O)).mpr (List.mem_map_of_mem hmem)
        have hstale := (hexact (existing.rpcHash O)).mp (by
          show ((m.firstSeen.insert _ _)[_]?).isSome = true
          rw [Map.getElem?_insert_eq, if_neg (Ne.symm (hunknown existing hmem))]
          exact hkey)
        obtain ⟨a, ha, hae⟩ := List.mem_map.mp hstale
        rw [insertSeen, sortByFee, List.mem_insertionSort, List.perm_middle.mem_iff] at ha
        rcases List.mem_cons.mp ha with rfl | ha
        · exact hunknown existing hmem hae.symm
        · exact ((heq ▸ hm).others a ha).2 hae
      | @evicted front lowest hunknown heq hslot =>
        refine iff_of_true (exact_insertSeen (List.perm_append_singleton t front) fun k => ?_)
          fun ⟨_, _, a, ha, hat, _⟩ => hslot a ha hat
        have hothers := (show Valid O (front ++ lowest :: []) from heq ▸ hm).others
        rw [Map.getElem?_erase_eq]
        split
        next hk => simpa [← hk] using fun a ha => (hothers a (by simpa using ha)).2
        next hk =>
          rw [h k, heq, List.map_append, List.mem_append, or_iff_left]
          simpa using Ne.symm hk
      | appended hunknown hslot =>
        exact iff_of_true (exact_insertSeen (List.perm_append_singleton t _) h)
          fun ⟨_, _, a, ha, hat, _⟩ => hslot a ha hat

/-- **The table of times is exact** along a run, and so no larger than the pool may be, unless
an addition of the run replaces a pending transaction. -/
theorem firstSeen_exact_iff (O : Oracle) (operations : List Operation) :
    (∀ before, before <+: operations →
      Exact O (run O before) ∧ (run O before).firstSeen.size ≤ maxMempoolTransactions) ↔
    ∀ before operation, before ++ [operation] <+: operations →
      ¬ Replaces O (run O before) operation := by
  have hstep : ∀ before operation, run O (before ++ [operation]) =
      apply O (run O before) operation := fun before operation => by simp [run]
  constructor
  · intro h before operation hle
    have hafter := (h _ hle).1
    rw [hstep] at hafter
    exact (exact_apply_iff (h _ ((List.prefix_append ..).trans hle)).1 (valid_run before) _).mp
      hafter
  · intro h before
    induction before using List.reverseRecOn with
    | nil =>
      have hempty : Exact O (run O []) := fun k => by simp [run]
      exact fun _ => ⟨hempty, hempty.size_le (valid_run [])⟩
    | append_singleton before operation ih =>
      intro hle
      have hexact := (exact_apply_iff (ih ((List.prefix_append ..).trans hle)).1
        (valid_run before) _).mpr (h _ _ hle)
      rw [← hstep] at hexact
      exact ⟨hexact, hexact.size_le (valid_run _)⟩

def offering (nonce : U64) (fee : Bix) (hash : Hash256) : Transaction where
  chainId := mainnetChainId
  transactionType := 2
  nonce := nonce
  from_ := 0xa1
  to_ := some 0xb2
  value := 5
  gasLimit := 21000
  maxFeePerGas := fee
  maxPriorityFeePerGas := 0
  payload := []
  accessList := []
  signature := none
  externalHash := some hash

/-- A second transaction with the nonce of the first and a higher fee leaves one pending
transaction and two times. -/
theorem replacement_keeps_time :
    (run zeroOracle [.add (offering 0 2000000000 1) 1000000000 10,
      .add (offering 0 3000000000 2) 1000000000 20]).transactions =
        [offering 0 3000000000 2] ∧
    (run zeroOracle [.add (offering 0 2000000000 1) 1000000000 10,
      .add (offering 0 3000000000 2) 1000000000 20]).firstSeen.toList = [(1, 10), (2, 20)] := by
  decide +kernel

/-! ## Restart -/

/-- The pools that admission against a state and a base fee builds: each transaction is checked
with or without regard to the pool, as its sender is a client or a peer. -/
inductive Admitted (O : Oracle) (view : SenderView) (b : Bix) : Mempool → Prop where
  | empty : Admitted O view b {}
  | add {m m' : Mempool} {t : Transaction} {now : U64} {pending : Option Mempool}
      (h : Admitted O view b m) (hpending : pending = none ∨ pending = some m)
      (hstate : validateTransactionAgainstCurrentStateWithPending view t b pending = .ok ())
      (hadd : m.add O t b now = .ok m') : Admitted O view b m'
  | retain {m : Mempool} (gone : Transaction → Bool) (h : Admitted O view b m) :
      Admitted O view b (m.retain O gone)

variable {view : SenderView}

theorem Accepted.subset (h : Accepted O m t now m') : m'.transactions ⊆ t :: m.transactions := by
  cases h with
  | known => exact List.subset_cons_self ..
  | replaced h hm => intro a; simp [insertSeen, sortByFee, hm]; tauto
  | evicted h hm => intro a; simp [insertSeen, sortByFee, hm]; tauto
  | appended => intro a; simp [insertSeen, sortByFee, or_comm]

theorem Admitted.valid (h : Admitted O view b m) : Valid O m.transactions ∧
    ∀ t ∈ m.transactions, FeesAccepted t b ∧
      (requiredBalance t b).toNat ≤ (view.balance t.from_).toNat := by
  induction h with
  | empty => exact ⟨valid_run [], by simp⟩
  | add _ _ hstate hadd ih =>
    obtain ⟨hfees, haccepted⟩ := accepted_of_add hadd
    refine ⟨haccepted.valid ih.1, fun a ha => ?_⟩
    rcases List.mem_cons.mp (haccepted.subset ha) with rfl | ha
    · simp only [validateTransactionAgainstCurrentStateWithPending, ite_throw_eq_ok, throw_bind,
        pure_eq_ok] at hstate
      exact ⟨hfees, by simpa using hstate.2⟩
    · exact ih.2 a ha
  | retain gone _ ih =>
    exact ⟨ih.1.sublist List.filter_sublist, fun a ha => ih.2 a (List.mem_of_mem_filter ha)⟩

theorem add_last (h : Valid O (m.transactions ++ [t])) (hfees : FeesAccepted t b) :
    m.add O t b now = .ok ⟨m.transactions ++ [t], m.firstSeen.insert (t.rpcHash O) now⟩ := by
  have hothers := (show Valid O (m.transactions ++ t :: []) from h).others
  rw [List.append_nil] at hothers
  have hknown := mt any_rpcHash_iff.mp (not_not.mpr fun a ha => (hothers a ha).2)
  have hfind : m.transactions.find? (fun a => decide (a.from_ = t.from_ ∧ a.nonce = t.nonce)) =
      none := List.find?_eq_none.mpr fun a ha => by simpa using (hothers a ha).1
  have hroom : ¬ m.transactions.length ≥ maxMempoolTransactions := by
    have hbound := h.bounded
    rw [List.length_append, List.length_singleton] at hbound
    omega
  simp only [add, if_neg hfees.1.not_gt, hfees.2, if_neg hknown, hfind, if_neg hroom, insertSeen,
    sortByFee, h.sorted.insertionSort_eq]
  rfl

theorem foldl_refill {step : Mempool → Transaction → Mempool} (keep : Transaction → Bool)
    (stamp : Map Hash256 U64 → Transaction → Map Hash256 U64)
    (hstep : ∀ p, ∀ t ∈ l, Valid O (p.transactions ++ [t]) → step p t =
      if keep t then ⟨p.transactions ++ [t], stamp p.firstSeen t⟩ else p)
    (h : Valid O (m.transactions ++ l)) :
    l.foldl step m = ⟨m.transactions ++ l.filter keep, (l.filter keep).foldl stamp m.firstSeen⟩ := by
  induction l generalizing m with
  | nil => simp
  | cons t l ih =>
    have hlast : Valid O (m.transactions ++ [t]) := h.sublist (by simp)
    rw [List.foldl_cons, hstep m t List.mem_cons_self hlast]
    have hrest := fun p a ha => hstep p a (List.mem_cons_of_mem _ ha)
    by_cases hkeep : keep t = true
    · rw [if_pos hkeep, ih hrest (by simpa using h), List.filter_cons_of_pos hkeep]
      simp
    · rw [if_neg hkeep, ih hrest (h.sublist (by simp)), List.filter_cons_of_neg hkeep]

theorem load_save_transactions (h : Admitted O view b m) (clock : Transaction → U64) :
    (load O (m.save O now) b clock).transactions = m.transactions := by
  rw [load, save, List.foldl_map, foldl_refill (fun _ => true) (fun seen t =>
    (seen.insert (t.rpcHash O) (clock t)).insert (t.rpcHash O)
      ((m.firstSeen[t.rpcHash O]?).getD now)) ?_ (by simpa using h.valid.1)]
  · simp
  · intro p t ht hlast
    simp only [add_last hlast (h.valid.2 t ht).1, if_true]

/-- The second check passes the transactions with the nonce of their account and no other. -/
theorem validateTransactionAgainstCurrentState_eq
    (hbalance : (requiredBalance t b).toNat ≤ (view.balance t.from_).toNat) :
    validateTransactionAgainstCurrentState view t b =
      if t.nonce = view.nonce t.from_ then .ok ()
      else .error (.invalidNonce t.from_ (view.nonce t.from_) t.nonce) := by
  simp only [validateTransactionAgainstCurrentState,
    validateTransactionAgainstCurrentStateWithPending, Option.any_none, Bool.and_false, and_true,
    if_neg hbalance.not_gt, eq_comm (a := t.nonce)]
  by_cases hnonce : view.nonce t.from_ = t.nonce
  · rw [if_neg (not_not.mpr hnonce), if_pos hnonce]
    rfl
  · rw [if_pos hnonce, if_neg hnonce]
    rfl

theorem retain_eq_self {gone : Transaction → Bool} (h : ∀ t ∈ m.transactions, gone t = false) :
    m.retain O gone = m := by
  rw [retain, List.filter_eq_self.mpr (by simpa using h),
    List.filter_eq_nil_iff.mpr (by simpa using h)]
  rfl

theorem restoreMempool_eq (h : Admitted O view b m) (clock : Transaction → U64) :
    let kept := m.transactions.filter fun t => t.nonce = view.nonce t.from_
    restoreMempool O view b clock (m.save O now) =
      ⟨kept, kept.foldl (fun seen t => seen.insert (t.rpcHash O) (clock t)) ∅⟩ := by
  rw [restoreMempool, load_save_transactions h,
    foldl_refill (fun t => t.nonce = view.nonce t.from_)
      (fun seen t => seen.insert (t.rpcHash O) (clock t)) ?_ (by simpa using h.valid.1)]
  · -- what was added has the nonce of its account, so nothing is stale
    refine retain_eq_self fun t ht => ?_
    have hnonce : t.nonce = view.nonce t.from_ := by simpa using (List.mem_filter.mp ht).2
    simp [hnonce]
  · intro p t ht hlast
    rw [validateTransactionAgainstCurrentState_eq (h.valid.2 t ht).2]
    by_cases hnonce : t.nonce = view.nonce t.from_
    · simp only [if_pos hnonce, add_last hlast (h.valid.2 t ht).1, decide_eq_true_eq]
    · simp only [if_neg hnonce, decide_eq_true_eq]

theorem getElem?_foldl_insert (clock : Transaction → U64) (seen : Map Hash256 U64)
    (hl : (l.map (·.rpcHash O)).Nodup) (ht : t ∈ l) :
    (l.foldl (fun seen t => seen.insert (t.rpcHash O) (clock t)) seen)[t.rpcHash O]? =
      some (clock t) := by
  induction l using List.reverseRecOn with
  | nil => cases ht
  | append_singleton l a ih =>
    rw [List.foldl_concat, Map.getElem?_insert_eq]
    split
    next heq =>
      rw [List.inj_on_of_nodup_map hl (List.mem_append_right _ (List.mem_singleton_self a)) ht heq]
    next hne =>
      refine ih (hl.sublist ((List.sublist_append_left ..).map _)) ?_
      rcases List.mem_append.mp ht with ht | ht
      · exact ht
      · exact absurd (congrArg _ (List.mem_singleton.mp ht).symm) hne

/-- **What a restart restores**: the pending transactions and their times, exactly when each
one has the nonce of its account and was first seen at the time it is added again. -/
theorem restart_exact_iff (h : Admitted O view b m) (now : U64) (clock : Transaction → U64) :
    ((restoreMempool O view b clock (m.save O now)).transactions = m.transactions ∧
      ∀ t ∈ m.transactions,
        (restoreMempool O view b clock (m.save O now)).firstSeen[t.rpcHash O]? =
          m.firstSeen[t.rpcHash O]?) ↔
    ∀ t ∈ m.transactions, t.nonce = view.nonce t.from_ ∧
      m.firstSeen[t.rpcHash O]? = some (clock t) := by
  rw [restoreMempool_eq h]
  simp only [List.filter_eq_self, decide_eq_true_eq]
  constructor
  · rintro ⟨hnonces, htimes⟩ t ht
    refine ⟨hnonces t ht, ?_⟩
    rw [← htimes t ht, List.filter_eq_self.mpr (by simpa using hnonces),
      getElem?_foldl_insert clock _ h.valid.1.hashes ht]
  · intro hall
    have hnonces := fun t ht => (hall t ht).1
    refine ⟨hnonces, fun t ht => ?_⟩
    rw [(hall t ht).2, List.filter_eq_self.mpr (by simpa using hnonces),
      getElem?_foldl_insert clock _ h.valid.1.hashes ht]

theorem Admitted.apply (h : Admitted O view b m)
    (hstate : validateTransactionAgainstCurrentStateWithPending view t b (some m) = .ok ()) :
    Admitted O view b (apply O m (.add t b now)) := by
  rw [apply_add]
  cases hadd : m.add O t b now with
  | ok m' => exact h.add (.inr rfl) hstate hadd
  | error e => exact h

def funded : SenderView := ⟨fun _ => 0, fun _ => 10 ^ 18⟩

def single : Mempool := apply zeroOracle {} (.add (offering 0 2000000000 1) 1000000000 10)

def queued : Mempool := apply zeroOracle single (.add (offering 1 2000000000 2) 1000000000 11)

theorem admitted_single : Admitted zeroOracle funded 1000000000 single := by
  unfold single
  exact .apply .empty (by decide +kernel)

def twoSenders : Mempool :=
  apply zeroOracle single (.add { offering 0 3000000000 2 with from_ := 0xc3 } 1000000000 11)

/-- The two are restored if the clock shows the old times when they are added again. -/
theorem restart_exact_twoSenders :
    twoSenders.transactions.length = 2 ∧
    (restoreMempool zeroOracle funded 1000000000 (fun t => if t.from_ = 0xa1 then 10 else 11)
        (twoSenders.save zeroOracle 20)).transactions = twoSenders.transactions ∧
      ∀ t ∈ twoSenders.transactions, (restoreMempool zeroOracle funded 1000000000
          (fun t => if t.from_ = 0xa1 then 10 else 11)
          (twoSenders.save zeroOracle 20)).firstSeen[t.rpcHash zeroOracle]? =
        twoSenders.firstSeen[t.rpcHash zeroOracle]? := by
  have hadmitted : Admitted zeroOracle funded 1000000000 twoSenders :=
    .apply admitted_single (by decide +kernel)
  exact ⟨by decide +kernel, (restart_exact_iff hadmitted 20 fun t =>
    if t.from_ = 0xa1 then 10 else 11).mpr (by decide +kernel)⟩

/-- A restart drops the queued transaction and takes the other for a new one. -/
theorem restart_drops_queued : Admitted zeroOracle funded 1000000000 queued ∧
    queued.transactions = [offering 0 2000000000 1, offering 1 2000000000 2] ∧
    queued.firstSeen.toList = [(1, 10), (2, 11)] ∧
    (restoreMempool zeroOracle funded 1000000000 (fun _ => 50)
      (queued.save zeroOracle 40)).transactions = [offering 0 2000000000 1] ∧
    (restoreMempool zeroOracle funded 1000000000 (fun _ => 50)
      (queued.save zeroOracle 40)).firstSeen.toList = [(1, 50)] :=
  ⟨by unfold queued; exact .apply admitted_single (by decide +kernel), by decide +kernel⟩

end Mempool

end Blq
