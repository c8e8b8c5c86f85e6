import Blq.Proof.ChainOperations

/-!
# A branch on top of the tip that fails on the way

`commit_direct_candidate_extension` writes the blocks of a branch one by one, and only after the last
one their accounts and the manifest. An error leaves what was written so far. Here:

* `left_by_extension`: all that the extension can leave, by the number of writes it has made;
* `coherent_iff`: accounts and manifest agree with the stored tip exactly if the tip did not move yet,
  or the manifest was written and no account with content had vanished;
* `invalid_second_block`: a branch whose second block is invalid.
-/

namespace Blq

open Word Result

variable {O : Oracle} {R : Revm} {config : NodeConfig}

/-! ## What the result should be -/

/-- The state after some blocks, executed one after the other. -/
def executeSuffix (O : Oracle) (R : Revm) (p : DirectProgress) (blocks : List Block) :
    Except NodeError DirectProgress :=
  blocks.foldlM (fun p block => do
    let (nativeAccounts, evmState) ← validateReplayStateRoot O R p.nativeAccounts p.evmState block
      p.parent.timestampSeconds
    pure ⟨block.header, nativeAccounts, evmState⟩) p

variable {g left : Generation} {p p' : DirectProgress} {i : ℕ} {m : GenerationManifest}
  {branch : CandidateBranch} {suffix : List Block}

namespace Generation

def progress (g : Generation) (best : BlockHeader) : DirectProgress :=
  ⟨best, g.store.accountSnapshot, revmStateFromSled g.store⟩

/-- The tip is stored under its number, and the manifest names it. -/
structure TipNamed (O : Oracle) (g : Generation) (m : GenerationManifest) (best : BlockHeader) :
    Prop where
  number : g.store.bestNumber = some best.number
  header : g.store.headers[best.number]? = some best
  manifest : g.manifest = some m
  describes : m.Describes O best

/-- **A coherent store**: for some number of blocks of the branch, the tip is the last of them, the
accounts are those of executing them, and the manifest names the tip. -/
def Coherent (O : Oracle) (R : Revm) (g : Generation) (best : BlockHeader) (suffix : List Block)
    (left : Generation) : Prop :=
  ∃ i p m, executeSuffix O R (progress g best) (suffix.take i) = .ok p ∧
    left.store.bestHeader = .ok p.parent ∧ (∀ a, left.store.view a = p.evmState.view a) ∧
    left.manifest = some m ∧ m.Describes O p.parent

/-! ## Counting -/

/-- The body, the rows of the transactions, the header and the pointer to the tip. -/
def blockWrites (block : Block) : ℕ := (block.transactions.map transactionWrites).sum + 3

/-- The writes until the tip moves. -/
def firstBlockWrites : List Block → ℕ
  | [] => 1
  | block :: _ => blockWrites block

/-- The writes before that of the manifest: the blocks, two rows for each native account, the rows of
the accounts of the executor, and how far rewards are counted. -/
def writesBeforeManifest (g : Generation) (suffix : List Block) (p : DirectProgress) : ℕ :=
  (suffix.map blockWrites).sum + 2 * p.nativeAccounts.size +
    (p.evmState.accounts.toList.map fun q => accountWrites g.store.slots q.1 q.2.storage).sum + 1

variable {block : Block} {d : Durable Generation} {rest : List Block} {left' : Generation}

/-! ## Writing one block -/

/-- The tip has not moved to the block yet. -/
structure BeforeTip (g : Generation) (block : Block) (left : Generation) : Prop where
  bestNumber : left.store.bestNumber = g.store.bestNumber
  headers : ∀ n, n ≠ block.header.number → left.store.headers[n]? = g.store.headers[n]?
  accounts : left.accountRows = g.accountRows
  files : left.files = g.files

structure AtTip (g : Generation) (block : Block) (left : Generation) : Prop where
  bestNumber : left.store.bestNumber = some block.header.number
  header : left.store.headers[block.header.number]? = some block.header
  accounts : left.accountRows = g.accountRows
  files : left.files = g.files

/-- What the body and the index rows leave alone. -/
def tipRows (g : Generation) := (g.store.bestNumber, g.store.headers, g.accountRows, g.files)

theorem beforeTip_of_tipRows (h : tipRows left = tipRows g) (block : Block) :
    BeforeTip g block left := by
  unfold tipRows at h
  simp only [Prod.mk.injEq] at h
  obtain ⟨hbest, hheaders, haccounts, hfiles⟩ := h
  exact ⟨hbest, fun n _ => by rw [hheaders], haccounts, hfiles⟩

theorem writes_writeBody (h : HasReceipts block) :
    Writes tipRows (writeBody O block) (1 + (block.transactions.map transactionWrites).sum) := by
  refine (writes_durably (by intro g; rfl)).seq ((writes_indexTransactions h).mono ?_)
  intro g g' hsame
  obtain ⟨hstore, hfiles⟩ := Prod.mk.inj hsame
  unfold tipRows accountRows
  rw [hstore, hfiles]

/-- **The writes of a block**: the tip moves with the last one. -/
theorem writeBlock_apply (h : HasReceipts block) (d : Durable Generation) :
    ∃ d' new, writeBlock O block d = .ok () d' ∧ d'.past = d.past ++ new ∧
      new.length = blockWrites block ∧ (∀ left ∈ new, BeforeTip d.current block left) ∧
      AtTip d.current block d'.current := by
  obtain ⟨d₁, new, hrun, hpast, hlength, hnew, hcurrent⟩ := writes_writeBody (O := O) h d
  have hlast := beforeTip_of_tipRows hcurrent block
  let headed : Generation := { d₁.current with store := { d₁.current.store with
    headers := d₁.current.store.headers.insert block.header.number block.header } }
  refine ⟨⟨{ headed with store := { headed.store with bestNumber := some block.header.number } },
    d₁.past ++ [d₁.current] ++ [headed]⟩, new ++ [d₁.current, headed], ?_, ?_, ?_, ?_, ?_⟩
  · unfold writeBlock
    rw [bind_apply_of_ok hrun]
    rfl
  · simp [hpast]
  · rw [List.length_append, hlength, blockWrites, List.length_cons, List.length_singleton]
    omega
  · intro left hleft
    rcases List.mem_append.mp hleft with hmem | hmem
    · exact beforeTip_of_tipRows (hnew left hmem) block
    · rcases List.mem_cons.mp hmem with rfl | hmem
      · exact hlast
      · obtain rfl := List.mem_singleton.mp hmem
        refine ⟨hlast.bestNumber, ?_, hlast.accounts, hlast.files⟩
        intro n hn
        show (d₁.current.store.headers.insert _ _)[n]? = _
        rw [Map.getElem?_insert_eq, if_neg (Ne.symm hn)]
        exact hlast.headers n hn
  · refine ⟨rfl, ?_, hlast.accounts, hlast.files⟩
    show (d₁.current.store.headers.insert _ _)[_]? = _
    rw [Map.getElem?_insert_eq, if_pos rfl]

/-! ## The branch -/

theorem hasReceipts_of_validateBlock {parent : BlockHeader} {genesisHash : Hash256}
    {activation : Option U64}
    (h : validateBlockWithGenesisAndActivation O parent block genesisHash activation = .ok ()) :
    HasReceipts block :=
  (validateBlock_eq_ok.mp h).receipts.le

/-- **One turn**: nothing is written before all checks have passed, and then the block. -/
theorem keeps_commitDirectBlock {I : Durable Generation → Prop}
    {Q : DirectProgress → Durable Generation → Prop} {genesisHash : Hash256} (hI : I d)
    (hwritten : ∀ native evm d' new, block.header.number = p.parent.number + 1 →
      validateReplayStateRoot O R p.nativeAccounts p.evmState block p.parent.timestampSeconds =
        .ok (native, evm) →
      d'.past = d.past ++ new → new.length = blockWrites block →
      (∀ left ∈ new, BeforeTip d.current block left) → AtTip d.current block d'.current →
      I d' ∧ Q ⟨block.header, native, evm⟩ d') :
    Keeps I (commitDirectBlock O R config genesisHash p block) d Q := by
  unfold commitDirectBlock
  refine keeps_runExcept_bind hI fun _ _ => keeps_runExcept_bind hI fun _ hvalid => ?_
  rw [liftConsensus, mapError_eq_ok] at hvalid
  have hnumber := (extendsHeader_iff.mp (extends_of_validateBlock hvalid)).2
  refine keeps_onDisk_bind (keeps_runExcept_bind hI fun expected _ => ?_)
  refine keeps_ite_throw hI fun _ => ?_
  refine keeps_runExcept_bind hI fun state hstate => ?_
  obtain ⟨native, evm⟩ := state
  obtain ⟨d', new, hrun, hpast, hlength, hnew, htip⟩ :=
    writeBlock_apply (O := O) (hasReceipts_of_validateBlock hvalid) d
  obtain ⟨hI', hQ⟩ := hwritten native evm d' new hnumber hstate hpast hlength hnew htip
  refine keeps_of_eq_ok (a := ⟨block.header, native, evm⟩) ?_ hI' hQ
  dsimp only
  rw [bind_apply_of_ok hrun]
  rfl

/-! ## Before and after the tip has moved -/

/-- Tip, accounts and files are still those of the start. -/
structure Behind (g left : Generation) : Prop where
  tip : left.store.bestHeader = g.store.bestHeader
  accounts : left.accountRows = g.accountRows
  files : left.files = g.files

/-- The tip is at another height than the manifest. -/
def Ahead (m : GenerationManifest) (left : Generation) : Prop :=
  left.manifest = some m ∧ ∃ header : BlockHeader, left.store.bestNumber = some header.number ∧
    left.store.headers[header.number]? = some header ∧ header.number ≠ m.canonicalHeight

/-- The first `first` states are those before the tip moved. -/
def Phased (g : Generation) (m : GenerationManifest) (first : ℕ) (d : Durable Generation) : Prop :=
  first ≤ d.past.length ∧ ∀ k left, d.states[k]? = some left →
    (k < first ∧ Behind g left) ∨ (first ≤ k ∧ Ahead m left)

section Phased

variable {g : Generation} {m : GenerationManifest} {first : ℕ} {d d' : Durable Generation}

theorem Phased.current (h : Phased g m first d) : Ahead m d.current := by
  have hlast : d.states[d.past.length]? = some d.current := by
    unfold Durable.states
    simp
  rcases h.2 _ _ hlast with ⟨hlt, -⟩ | ⟨-, hahead⟩
  · have hle := h.1
    omega
  · exact hahead

theorem Phased.append (h : Phased g m first d) (new : List Generation)
    (hpast : d'.past = d.past ++ new) (hnew : ∀ left ∈ new, Ahead m left)
    (hcurrent : Ahead m d'.current) : Phased g m first d' := by
  have hle := h.1
  refine ⟨by rw [hpast, List.length_append]; omega, ?_⟩
  intro k left hleft
  rw [Durable.states, hpast, List.append_assoc] at hleft
  by_cases hk : k < d.past.length
  · rw [List.getElem?_append_left hk] at hleft
    refine h.2 k left ?_
    rw [Durable.states, List.getElem?_append_left hk]
    exact hleft
  · rw [List.getElem?_append_right (by omega)] at hleft
    refine .inr ⟨by omega, ?_⟩
    rcases List.mem_append.mp (List.mem_of_getElem? hleft) with hmem | hmem
    · exact hnew left hmem
    · rw [List.mem_singleton.mp hmem]
      exact hcurrent

theorem phased_first (hpast : d.past.length = first) (hbehind : ∀ left ∈ d.past, Behind g left)
    (hcurrent : Ahead m d.current) : Phased g m first d := by
  refine ⟨by omega, ?_⟩
  intro k left hleft
  rw [Durable.states] at hleft
  by_cases hk : k < d.past.length
  · rw [List.getElem?_append_left hk] at hleft
    exact .inl ⟨by omega, hbehind left (List.mem_of_getElem? hleft)⟩
  · rw [List.getElem?_append_right (by omega)] at hleft
    refine .inr ⟨by omega, ?_⟩
    rw [List.mem_singleton.mp (List.mem_of_getElem? hleft)]
    exact hcurrent

theorem closed_phased : Closed chainRows (Phased g m first) := by
  intro f d hf h
  obtain ⟨hmanifest, header, hbest, hheader, hnumber⟩ := h.current
  have hkept := hf d.current
  have hrows := congrArg Prod.fst hkept
  have hbest' : (f d.current).store.bestNumber = d.current.store.bestNumber := congrArg Prod.fst hrows
  have hheaders' : (f d.current).store.headers = d.current.store.headers :=
    congrArg (fun rows => rows.2.1) hrows
  have hmanifest' : (f d.current).manifest = d.current.manifest :=
    congrArg (fun rows => rows.2.2.1) hkept
  refine h.append [d.current] rfl ?_ ⟨hmanifest'.trans hmanifest, header,
    hbest'.trans hbest, by rw [hheaders']; exact hheader, hnumber⟩
  intro left hleft
  rw [List.mem_singleton.mp hleft]
  exact h.current

end Phased

/-! ## The loop -/

/-- The tip is the `i`-th block of the branch; accounts and files are those of the start. -/
structure OnTip (g : Generation) (best : BlockHeader) (i : ℕ) (p : DirectProgress)
    (left : Generation) : Prop where
  number : p.parent.number = best.number + BitVec.ofNat 64 i
  bestNumber : left.store.bestNumber = some p.parent.number
  header : left.store.headers[p.parent.number]? = some p.parent
  accounts : left.accountRows = g.accountRows
  files : left.files = g.files

def Numbered : BlockHeader → List Block → Prop
  | _, [] => True
  | parent, block :: rest => block.header.number = parent.number + 1 ∧ Numbered block.header rest

theorem add_ofNat_ne {n : U64} (hpos : 0 < i) (hi : i < 2 ^ 64) : n + BitVec.ofNat 64 i ≠ n := by
  intro h
  have h' := congrArg BitVec.toNat h
  rw [BitVec.toNat_add, toNat_ofNat_of_lt hi] at h'
  have hn := n.isLt
  omega

theorem add_ofNat_succ (n : U64) (i : ℕ) :
    n + BitVec.ofNat 64 i + 1 = n + BitVec.ofNat 64 (i + 1) := by
  rw [BitVec.add_assoc, BitVec.ofNat_add]
  rfl

theorem executeSuffix_cons {native : NativeAccounts} {evm : RevmState}
    (hstate : validateReplayStateRoot O R p.nativeAccounts p.evmState block
      p.parent.timestampSeconds = .ok (native, evm))
    (h : executeSuffix O R ⟨block.header, native, evm⟩ rest = .ok p') :
    executeSuffix O R p (block :: rest) = .ok p' := by
  unfold executeSuffix at h ⊢
  rw [List.foldlM_cons, bind_eq_ok]
  exact ⟨_, by rw [hstate]; rfl, h⟩

section Loop

variable {g : Generation} {m : GenerationManifest} {best : BlockHeader} {first : ℕ}
  {genesisHash : Hash256}

theorem ahead_of_onTip (hnamed : TipNamed O g m best) (hpos : 0 < i) (hi : i < 2 ^ 64)
    (h : OnTip g best i p left) : Ahead m left := by
  have hmanifest : left.manifest = g.manifest := congrArg Prod.fst h.files
  refine ⟨hmanifest.trans hnamed.manifest, p.parent, h.bestNumber, h.header, ?_⟩
  rw [h.number, hnamed.describes.1]
  exact add_ofNat_ne hpos hi

theorem OnTip.next (h : OnTip g best i p left) (hnumber : block.header.number = p.parent.number + 1)
    (htip : AtTip left block left') (native : NativeAccounts) (evm : RevmState) :
    OnTip g best (i + 1) ⟨block.header, native, evm⟩ left' := by
  refine ⟨?_, htip.bestNumber, htip.header, htip.accounts.trans h.accounts,
    htip.files.trans h.files⟩
  show block.header.number = _
  rw [hnumber, h.number, add_ofNat_succ]

theorem OnTip.before (h : OnTip g best i p left)
    (hnumber : block.header.number = p.parent.number + 1) (hbefore : BeforeTip left block left') :
    OnTip g best i p left' := by
  refine ⟨h.number, hbefore.bestNumber.trans h.bestNumber, ?_, hbefore.accounts.trans h.accounts,
    hbefore.files.trans h.files⟩
  have hne : p.parent.number ≠ block.header.number := by
    rw [hnumber]
    exact fun heq => add_ofNat_ne (n := p.parent.number) (i := 1) (by omega) (by omega) heq.symm
  rw [hbefore.headers _ hne]
  exact h.header

/-- **The rest of the branch**: all states are in the second phase, and the result is the execution of
the blocks. -/
theorem keeps_commitDirectBlocks (R : Revm) (config : NodeConfig) (genesisHash : Hash256)
    (hnamed : TipNamed O g m best) (rest : List Block) (i : ℕ)
    (p : DirectProgress) (d : Durable Generation) (hpos : 0 < i) (hi : i + rest.length < 2 ^ 64)
    (hphased : Phased g m first d) (htip : OnTip g best i p d.current) :
    Keeps (Phased g m first) (rest.foldlM (commitDirectBlock O R config genesisHash) p) d
      fun p' d' => OnTip g best (i + rest.length) p' d'.current ∧
        executeSuffix O R p rest = .ok p' ∧ Numbered p.parent rest ∧
        d'.past.length = d.past.length + (rest.map blockWrites).sum := by
  induction rest generalizing i p d with
  | nil => exact keeps_pure hphased ⟨htip, rfl, trivial, rfl⟩
  | cons block rest ih =>
    rw [List.foldlM_cons]
    rw [List.length_cons] at hi ⊢
    refine Keeps.bind (P := fun p₁ d₁ => OnTip g best (i + 1) p₁ d₁.current ∧
      block.header.number = p.parent.number + 1 ∧ p₁.parent = block.header ∧
      validateReplayStateRoot O R p.nativeAccounts p.evmState block p.parent.timestampSeconds =
        .ok (p₁.nativeAccounts, p₁.evmState) ∧
      d₁.past.length = d.past.length + blockWrites block) ?_ ?_
    · refine keeps_commitDirectBlock hphased ?_
      intro native evm d' new hnumber hstate hpast hlength hnew hat
      have htip' := htip.next hnumber hat native evm
      refine ⟨hphased.append _ hpast ?_ (ahead_of_onTip hnamed (by omega) (by omega) htip'), htip',
        hnumber, rfl, hstate, by rw [hpast, List.length_append, hlength]⟩
      intro left hleft
      exact ahead_of_onTip hnamed hpos (by omega) (htip.before hnumber (hnew left hleft))
    · rintro ⟨parent, native, evm⟩ d₁ hphased₁ ⟨htip₁, hnumber, rfl, hstate, hlength⟩
      refine (ih (i + 1) _ d₁ (by omega) (by omega) hphased₁ htip₁).mono ?_
      rintro p' d' - ⟨htip', hexecuted, hnumbered, hlength'⟩
      refine ⟨?_, executeSuffix_cons hstate hexecuted, ⟨hnumber, hnumbered⟩, ?_⟩
      · rw [show i + (rest.length + 1) = i + 1 + rest.length by omega]
        exact htip'
      · rw [hlength', hlength, List.map_cons, List.sum_cons, Nat.add_assoc]

/-- **The whole branch.** Until its first block is the tip, all states are in the first phase. -/
theorem keeps_commitDirectSuffix (R : Revm) (config : NodeConfig) (genesisHash : Hash256)
    (hnamed : TipNamed O g m best) (block : Block) (hlength : rest.length + 1 < 2 ^ 64) :
    Keeps (fun d => d = ⟨g, []⟩ ∨ Phased g m (blockWrites block) d)
      ((block :: rest).foldlM (commitDirectBlock O R config genesisHash) (progress g best)) ⟨g, []⟩
      fun p d => Phased g m (blockWrites block) d ∧ OnTip g best (rest.length + 1) p d.current ∧
        executeSuffix O R (progress g best) (block :: rest) = .ok p ∧
        Numbered best (block :: rest) ∧ d.past.length = ((block :: rest).map blockWrites).sum := by
  rw [List.foldlM_cons]
  refine Keeps.bind (P := fun p₁ d₁ => Phased g m (blockWrites block) d₁ ∧
    OnTip g best 1 p₁ d₁.current ∧ block.header.number = best.number + 1 ∧
    p₁.parent = block.header ∧
    validateReplayStateRoot O R g.store.accountSnapshot (revmStateFromSled g.store) block
      best.timestampSeconds = .ok (p₁.nativeAccounts, p₁.evmState) ∧
    d₁.past.length = blockWrites block) ?_ ?_
  · refine keeps_commitDirectBlock (.inl rfl) ?_
    intro native evm d' new hnumber hstate hpast hlength' hnew hat
    have hstart : OnTip g best 0 (progress g best) g :=
      ⟨by simp [progress], hnamed.number, hnamed.header, rfl, rfl⟩
    have htip := hstart.next hnumber hat native evm
    rw [List.nil_append] at hpast
    have hphased : Phased g m (blockWrites block) d' := by
      refine phased_first (by rw [hpast, hlength']) ?_
        (ahead_of_onTip hnamed (by omega) (by omega) htip)
      intro left hleft
      rw [hpast] at hleft
      have hbefore := hstart.before hnumber (hnew left hleft)
      refine ⟨?_, hbefore.accounts, hbefore.files⟩
      rw [bestHeader_eq_ok.mpr ⟨_, hbefore.bestNumber, hbefore.header⟩,
        bestHeader_eq_ok.mpr ⟨_, hnamed.number, hnamed.header⟩]
      rfl
    exact ⟨.inr hphased, hphased, htip, hnumber, rfl, hstate, by rw [hpast, hlength']⟩
  · rintro ⟨parent, native, evm⟩ d₁ - ⟨hphased₁, htip₁, hnumber, rfl, hstate, hlength₁⟩
    have hrest := keeps_commitDirectBlocks R config genesisHash hnamed rest 1 _ d₁ (by omega)
      (by omega) hphased₁ htip₁
    refine Keeps.imp (hrest.mono ?_) fun _ => .inr
    rintro p' d' hphased' ⟨htip', hexecuted, hnumbered, hlength'⟩
    refine ⟨hphased', ?_, executeSuffix_cons hstate hexecuted, ⟨hnumber, hnumbered⟩, ?_⟩
    · rw [Nat.add_comm rest.length 1]
      exact htip'
    · rw [hlength', hlength₁, List.map_cons, List.sum_cons]

end Loop

/-! ## The accounts -/

def NativeIn (native : NativeAccounts) (evm : RevmState) : Prop :=
  ∀ a : Address, (native[a]?).isSome → (evm.accounts[a]?).isSome

theorem nativeIn_merge (S : RevmState) (accounts : NativeAccounts) :
    NativeIn accounts (mergeNativeAccountsIntoRevmState S accounts) := by
  intro a ha
  obtain ⟨row, hrow⟩ := Option.isSome_iff_exists.mp ha
  rw [accounts_merge, hrow]
  rfl

theorem nativeIn_accountsFromRevmState {S : RevmState} {accounts : NativeAccounts}
    (h : accountsFromRevmState S = .ok accounts) : NativeIn accounts S := by
  obtain ⟨-, rfl⟩ := (foldlM_inRange_eq_ok (fun account balance => (balance, account.nonce)) _).mp h
  intro a ha
  rwa [Std.ExtTreeMap.getElem?_map, Option.isSome_map] at ha

theorem nativeIn_of_replay {native native' : NativeAccounts} {evm evm' : RevmState}
    {timestamp : U64}
    (h : validateReplayStateRoot O R native evm block timestamp = .ok (native', evm')) :
    NativeIn native' evm' := by
  unfold validateReplayStateRoot at h
  split at h
  · simp only [bind_eq_ok, pure_eq_ok, Prod.mk.injEq] at h
    obtain ⟨simulation, -, _, -, _, -, accounts, haccounts, rfl, rfl⟩ := h
    exact nativeIn_accountsFromRevmState haccounts
  · simp only [bind_eq_ok, pure_eq_ok, Prod.mk.injEq] at h
    obtain ⟨⟨accounts, receipts, gasUsed⟩, -, _, -, rfl, rfl⟩ := h
    exact nativeIn_merge _ _

theorem nativeIn_of_executeSuffix (h : executeSuffix O R p (block :: rest) = .ok p') :
    NativeIn p'.nativeAccounts p'.evmState := by
  induction rest generalizing p block with
  | nil =>
    simp only [executeSuffix, List.foldlM_cons, List.foldlM_nil, bind_eq_ok, pure_eq_ok] at h
    obtain ⟨p₁, ⟨state, hstate, rfl⟩, rfl⟩ := h
    exact nativeIn_of_replay hstate
  | cons next rest ih =>
    unfold executeSuffix at h
    rw [List.foldlM_cons, bind_eq_ok] at h
    obtain ⟨p₁, -, hrest⟩ := h
    exact ih hrest

theorem view_of_accountRows {g' : Generation} (h : g'.accountRows = g.accountRows) :
    g'.store.view = g.store.view := by
  unfold accountRows at h
  simp only [Prod.mk.injEq] at h
  obtain ⟨hbalances, hnonces, hcodes, hslots⟩ := h
  funext a
  unfold SledStorage.view SledStorage.balance SledStorage.nonce
  rw [hbalances, hnonces, hcodes, hslots]

theorem updates_persistAccounts (accounts : NativeAccounts) : Updates (persistAccounts accounts)
    (fun s => accounts.toList.foldl (fun s q => s.putAccount q.1 q.2.1 q.2.2) s)
    fun _ => 2 * accounts.toList.length :=
  updates_forM fun q _ => updates_putAccount q.1 q.2.1 q.2.2

theorem writes_persisted {d₁ d₂ d₃ : Durable Generation}
    (hnative : persistAccounts p.nativeAccounts d₁ = .ok () d₂)
    (hevm : persistRevmState p.evmState d₂ = .ok () d₃) :
    d₃.past.length = d₁.past.length + 2 * p.nativeAccounts.size +
      (p.evmState.accounts.toList.map fun q =>
        accountWrites d₁.current.store.slots q.1 q.2.storage).sum := by
  obtain ⟨d', hrun, hstore, -, hlength⟩ := updates_persistAccounts p.nativeAccounts d₁
  obtain ⟨-, rfl⟩ := EStateM.Result.ok.inj (hrun.symm.trans hnative)
  have hslots : (database d').slots = (database d₁).slots := by
    rw [hstore]
    exact List.foldlRecOn _ _ (motive := fun s : SledStorage => s.slots = (database d₁).slots) rfl
      fun _ h _ _ => h
  rw [writes_of_persistRevmState hevm, hlength, hslots, Std.ExtTreeMap.length_toList]
  rfl

/-- **The accounts that are persisted**: those of the executor's state, and at every other address
what was there before. -/
theorem view_persisted (hin : NativeIn p.nativeAccounts p.evmState) {d₁ d₂ d₃ : Durable Generation}
    (hnative : persistAccounts p.nativeAccounts d₁ = .ok () d₂)
    (hevm : persistRevmState p.evmState d₂ = .ok () d₃) (a : Address) :
    d₃.current.store.view a =
      (p.evmState.accounts[a]?).elim (d₁.current.store.view a) RevmAccount.view := by
  obtain ⟨d', hrun, hstore, -⟩ := updates_persistAccounts p.nativeAccounts d₁
  obtain ⟨-, rfl⟩ := EStateM.Result.ok.inj (hrun.symm.trans hnative)
  have hview : p.nativeAccounts[a]? = none → (database d').view a = (database d₁).view a := by
    intro hnone
    have hput := view_putAccounts p.nativeAccounts (database d₁) a
    rw [hnone, Option.elim_none, Std.ExtTreeMap.foldl_eq_foldl_toList] at hput
    rw [hstore]
    exact hput
  have hevm' := of_adaptExcept_eq_ok ((simulates_persistRevmState p.evmState d').of_ok hevm)
  have hfinal := view_persistRevmState hevm' a
  cases haccount : p.evmState.accounts[a]? with
  | some account =>
    rw [haccount] at hfinal
    exact hfinal
  | none =>
    have hnone : p.nativeAccounts[a]? = none := by
      by_contra hsome
      have hin' := hin a (Option.isSome_iff_ne_none.mpr hsome)
      rw [haccount] at hin'
      cases hin'
    rw [haccount, Option.elim_none, hview hnone] at hfinal
    exact hfinal

/-! ## The whole extension -/

/-- What is left after the manifest was written: the last block is the tip, and the persisted accounts
are there. -/
structure Published (O : Oracle) (g : Generation) (m : GenerationManifest) (p : DirectProgress)
    (left : Generation) : Prop where
  tip : left.store.bestHeader = .ok p.parent
  manifest : left.manifest = some (refreshedManifest O m p.parent)
  view : ∀ a, left.store.view a =
    (p.evmState.accounts[a]?).elim (g.store.view a) RevmAccount.view

/-- What the removal of candidates leaves alone. -/
def publishedRows (g : Generation) := (g.store.bestNumber, g.store.headers, g.accountRows, g.manifest)

theorem Published.of_rows (h : Published O g m p left)
    (hrows : publishedRows left' = publishedRows left) : Published O g m p left' := by
  unfold publishedRows at hrows
  simp only [Prod.mk.injEq] at hrows
  obtain ⟨hbest, hheaders, haccounts, hmanifest⟩ := hrows
  refine ⟨?_, hmanifest.trans h.manifest, ?_⟩
  · obtain ⟨n, hn, hheader⟩ := bestHeader_eq_ok.mp h.tip
    exact bestHeader_eq_ok.mpr ⟨n, hbest.trans hn, by rw [hheaders]; exact hheader⟩
  · intro a
    rw [view_of_accountRows haccounts]
    exact h.view a

theorem writes_removeCandidateBlocks (suffix : List Block) :
    Writes publishedRows (suffix.forM fun block => removeCandidateBlock (block.header.hash O))
      (3 * suffix.length) := by
  have hone : ∀ block ∈ suffix,
      Writes publishedRows (removeCandidateBlock (block.header.hash O)) 3 := by
    intro block _
    exact (writes_durably (by intro g; rfl)).seq ((writes_durably (by intro g; rfl)).seq
      (writes_durably (by intro g; rfl)))
  have hsum : (suffix.map fun _ => 3).sum = 3 * suffix.length := by
    rw [List.map_const', List.sum_replicate, smul_eq_mul, Nat.mul_comm]
  rw [← hsum]
  exact writes_forM hone

section Extension

variable {g : Generation} {m : GenerationManifest} {best : BlockHeader} {block : Block}
  {rest : List Block} {genesisHash : Hash256}

def finishExtension (O : Oracle) (suffix : List Block) (p : DirectProgress) : DiskM Bool := do
  persistAccounts p.nativeAccounts
  persistRevmState p.evmState
  updateStore fun s => s.setRewardIndexedTo p.parent.number
  refreshGenerationManifest O
  suffix.forM fun block => removeCandidateBlock (block.header.hash O)
  return true

theorem published_of_persisted (hin : NativeIn p.nativeAccounts p.evmState)
    {d₁ d₂ : Durable Generation} (htip : OnTip g best i p d.current)
    (hnative : persistAccounts p.nativeAccounts d = .ok () d₁)
    (hevm : persistRevmState p.evmState d₁ = .ok () d₂)
    (hrows : chainRows d₂.current = chainRows d.current)
    (hstore : left.store.bestNumber = d₂.current.store.bestNumber ∧
      left.store.headers = d₂.current.store.headers ∧ left.accountRows = d₂.current.accountRows)
    (hmanifest : left.manifest = some (refreshedManifest O m p.parent)) :
    Published O g m p left := by
  obtain ⟨hbest, hheaders, haccounts⟩ := hstore
  have hchain := congrArg Prod.fst hrows
  have hbest₂ : d₂.current.store.bestNumber = d.current.store.bestNumber := congrArg Prod.fst hchain
  have hheaders₂ : d₂.current.store.headers = d.current.store.headers :=
    congrArg (fun rows => rows.2.1) hchain
  refine ⟨?_, hmanifest, ?_⟩
  · refine bestHeader_eq_ok.mpr ⟨p.parent.number, ?_, ?_⟩
    · rw [hbest, hbest₂, htip.bestNumber]
    · rw [hheaders, hheaders₂, htip.header]
  · intro a
    rw [view_of_accountRows haccounts, view_persisted hin hnative hevm a,
      view_of_accountRows htip.accounts]

/-- **All the part after the blocks can do**: stop while the accounts are written, or go on to the
end, with two files and three rows for each candidate after the accounts. -/
theorem finish_cases (suffix : List Block) {first : ℕ} (hin : NativeIn p.nativeAccounts p.evmState)
    (hphased : Phased g m first d) (htip : OnTip g best i p d.current)
    (hlength : d.past.length = (suffix.map blockWrites).sum) :
    (∃ e d', finishExtension O suffix p d = .error e d' ∧ Phased g m first d') ∨
    ∃ d₁ d' new, finishExtension O suffix p d = .ok true d' ∧ Phased g m first d₁ ∧
      d₁.past.length = writesBeforeManifest g suffix p ∧ d'.past = d₁.past ++ d₁.current :: new ∧
      (∀ left ∈ new, Published O g m p left) ∧ Published O g m p d'.current := by
  have hkept : Closed chainRows fun d' => chainRows d'.current = chainRows d.current :=
    fun f d' hf hd' => (hf d'.current).trans hd'
  unfold finishExtension
  have hnative := keeps_persistAccounts closed_phased hphased p.nativeAccounts
  cases hrun₁ : persistAccounts p.nativeAccounts d with
  | error e d₁ =>
    exact .inl ⟨e, d₁, bind_apply_of_error hrun₁, hnative.of_error hrun₁⟩
  | ok u d₁ =>
    rw [bind_apply_of_ok hrun₁]
    have hphased₁ := (hnative.of_ok hrun₁).1
    have hevm := keeps_persistRevmState_of closed_phased hphased₁ p.evmState
    cases hrun₂ : persistRevmState p.evmState d₁ with
    | error e d₂ =>
      exact .inl ⟨e, d₂, bind_apply_of_error hrun₂, hevm.of_error hrun₂⟩
    | ok u d₂ =>
      rw [bind_apply_of_ok hrun₂]
      have hphased₂ := (hevm.of_ok hrun₂).1
      have hrows₁ := ((keeps_persistAccounts hkept rfl p.nativeAccounts).of_ok hrun₁).1
      have hrows₂ := ((keeps_persistRevmState_of hkept hrows₁ p.evmState).of_ok hrun₂).1
      -- the last row before the files
      let d₃ : Durable Generation := ⟨{ d₂.current with
        store := d₂.current.store.setRewardIndexedTo p.parent.number }, d₂.past ++ [d₂.current]⟩
      have hphased₃ : Phased g m first d₃ :=
        closed_phased (fun g => { g with store := g.store.setRewardIndexedTo p.parent.number }) d₂
          (by intro g; rfl) hphased₂
      have hpublished : ∀ left : Generation, left.store = d₃.current.store →
          left.manifest = some (refreshedManifest O m p.parent) → Published O g m p left := by
        intro left hstore hmanifest
        refine published_of_persisted hin htip hrun₁ hrun₂ hrows₂ ?_ hmanifest
        unfold accountRows
        rw [hstore]
        exact ⟨rfl, rfl, rfl⟩
      have hmanifest₃ : d₃.current.manifest = some m := hphased₃.current.1
      have hbest₃ : (database d₃).bestHeader = .ok p.parent :=
        (hpublished { d₃.current with manifest := some (refreshedManifest O m p.parent) } rfl rfl).tip
      let named : Generation := { d₃.current with
        manifest := some (refreshedManifest O m p.parent) }
      let d₄ : Durable Generation := ⟨{ named with
        publication := some (publicationOf O (refreshedManifest O m p.parent)) },
        d₃.past ++ [d₃.current, named]⟩
      have hrefresh : refreshGenerationManifest O d₃ = .ok () d₄ := refresh_apply hmanifest₃ hbest₃
      obtain ⟨d₅, new, hrun₅, hpast₅, -, hnew₅, hobs₅⟩ :=
        writes_removeCandidateBlocks (O := O) suffix d₄
      have hpublished₄ : Published O g m p d₄.current := hpublished _ rfl rfl
      refine .inr ⟨d₃, d₅, named :: new, ?_, hphased₃, ?_, ?_, ?_, hpublished₄.of_rows hobs₅⟩
      · show (refreshGenerationManifest O >>= _) d₃ = _
        rw [bind_apply_of_ok hrefresh, bind_apply_of_ok hrun₅]
        rfl
      · have hslots : d.current.store.slots = g.store.slots :=
          congrArg (fun rows => rows.2.2.2) htip.accounts
        rw [writesBeforeManifest, List.length_append, writes_persisted hrun₁ hrun₂, hlength, hslots]
        rfl
      · rw [hpast₅]
        simp [d₄]
      · intro left hleft
        rcases List.mem_cons.mp hleft with rfl | hmem
        · exact hpublished named rfl rfl
        · exact hpublished₄.of_rows (hnew₅ left hmem)

theorem extension_apply (R : Revm) (config : NodeConfig) (hnamed : TipNamed O g m best)
    (branch : CandidateBranch) :
    commitDirectCandidateExtension O R config branch ⟨g, []⟩ = .ok false ⟨g, []⟩ ∨
    ∃ block rest, branch.suffix = block :: rest ∧
      commitDirectCandidateExtension O R config branch ⟨g, []⟩ =
        ((block :: rest).foldlM
          (commitDirectBlock O R config (configuredGenesisHash O g.store)) (progress g best) >>=
          finishExtension O (block :: rest)) ⟨g, []⟩ := by
  have hbest : g.store.bestHeader = .ok best :=
    bestHeader_eq_ok.mpr ⟨_, hnamed.number, hnamed.header⟩
  unfold commitDirectCandidateExtension
  cases hsuffix : branch.suffix with
  | nil => exact .inl rfl
  | cons block rest =>
    rw [if_neg (by simp), onDisk_bind_apply,
      readDatabase_bind_of_ok (d := ⟨g, []⟩) hbest]
    by_cases htip : best.number ≠ branch.commonHeight ∨ best.hash O ≠ branch.commonHash
    · rw [if_pos htip]
      exact .inl rfl
    · rw [if_neg htip]
      exact .inr ⟨block, rest, rfl, rfl⟩

/-- **All that the extension can do**: stop before the accounts are written, or go on to the end. -/
theorem extension_cases (R : Revm) (config : NodeConfig) (hnamed : TipNamed O g m best)
    (hlength : branch.suffix.length < 2 ^ 64) :
    ((∀ d, commitDirectCandidateExtension O R config branch ⟨g, []⟩ ≠ .ok true d) ∧
      ∃ d, finalState (commitDirectCandidateExtension O R config branch) ⟨g, []⟩ = d ∧
        (d = ⟨g, []⟩ ∨ Phased g m (firstBlockWrites branch.suffix) d)) ∨
    ∃ p d₁ d new, commitDirectCandidateExtension O R config branch ⟨g, []⟩ = .ok true d ∧
      executeSuffix O R (progress g best) branch.suffix = .ok p ∧ Numbered best branch.suffix ∧
      Phased g m (firstBlockWrites branch.suffix) d₁ ∧
      d₁.past.length = writesBeforeManifest g branch.suffix p ∧ d.past = d₁.past ++ d₁.current :: new ∧
      (∀ left ∈ new, Published O g m p left) ∧
      Published O g m p d.current := by
  unfold finalState
  rcases extension_apply R config hnamed branch with
    hfalse | ⟨block, rest, hsuffix, hrun⟩
  · rw [hfalse]
    refine .inl ⟨?_, _, rfl, .inl rfl⟩
    intro d h
    cases h
  · rw [hrun, hsuffix]
    rw [hsuffix, List.length_cons] at hlength
    have hloop := keeps_commitDirectSuffix R config (configuredGenesisHash O g.store) hnamed block hlength
    cases hblocks : (block :: rest).foldlM (commitDirectBlock O R config
        (configuredGenesisHash O g.store)) (progress g best) ⟨g, []⟩ with
    | error e d =>
      rw [bind_apply_of_error hblocks]
      refine .inl ⟨?_, d, rfl, hloop.of_error hblocks⟩
      intro d' h
      cases h
    | ok p d =>
      rw [bind_apply_of_ok hblocks]
      obtain ⟨-, hphased, htip, hexecuted, hnumbered, hwrites⟩ := hloop.of_ok hblocks
      rcases finish_cases (O := O) (block :: rest) (nativeIn_of_executeSuffix hexecuted)
        hphased htip hwrites with ⟨e, d', herr, hphased'⟩ | ⟨d₁, d', new, hok, hrest⟩
      · rw [herr]
        refine .inl ⟨?_, d', rfl, .inr hphased'⟩
        intro d'' h
        cases h
      · rw [hok]
        exact .inr ⟨p, d₁, d', new, rfl, hexecuted, hnumbered, hrest⟩

/-- The extension runs to its end, and its manifest is among the first `k` writes. -/
def ManifestWritten (O : Oracle) (R : Revm) (config : NodeConfig) (g : Generation)
    (best : BlockHeader) (branch : CandidateBranch) (k : ℕ) : Prop :=
  (∃ d, commitDirectCandidateExtension O R config branch ⟨g, []⟩ = .ok true d) ∧
    ∃ p, executeSuffix O R (progress g best) branch.suffix = .ok p ∧
      writesBeforeManifest g branch.suffix p < k

theorem firstBlockWrites_pos (suffix : List Block) : 0 < firstBlockWrites suffix := by
  unfold firstBlockWrites
  split
  · omega
  · unfold blockWrites
    omega

/-- **All that the extension can leave**: a store from before the tip moved, one whose tip is ahead of
the manifest, or one with the manifest of the last block. -/
theorem left_by_extension (hnamed : TipNamed O g m best) (hlength : branch.suffix.length < 2 ^ 64)
    {k : ℕ}
    (hleft : (crashStates (commitDirectCandidateExtension O R config branch) g)[k]? = some left) :
    (k < firstBlockWrites branch.suffix ∧ Behind g left) ∨
    (firstBlockWrites branch.suffix ≤ k ∧ Ahead m left ∧ ¬ManifestWritten O R config g best branch k) ∨
    (firstBlockWrites branch.suffix ≤ k ∧ ManifestWritten O R config g best branch k ∧
      ∃ p, executeSuffix O R (progress g best) branch.suffix = .ok p ∧
        Numbered best branch.suffix ∧ Published O g m p left) := by
  unfold crashStates at hleft
  rcases extension_cases R config hnamed hlength with
    ⟨hnot, d, hfinal, hd⟩ | ⟨p, d₁, d, new, hrun, hexecuted, hnumbered, hphased, hwrites, hpast,
      hall, hlast⟩
  · rw [hfinal] at hleft
    rcases hd with rfl | hphased
    · obtain ⟨hk, hg⟩ := List.getElem?_eq_some_iff.mp hleft
      have hzero : k = 0 := by simpa [Durable.states] using hk
      subst hzero
      obtain rfl : g = left := hg
      exact .inl ⟨firstBlockWrites_pos _, rfl, rfl, rfl⟩
    · rcases hphased.2 k left hleft with hbehind | ⟨hk, hahead⟩
      · exact .inl hbehind
      · refine .inr (.inl ⟨hk, hahead, ?_⟩)
        rintro ⟨⟨d', hok⟩, -⟩
        exact hnot d' hok
  · unfold finalState at hleft
    rw [hrun] at hleft
    have hwritten : ManifestWritten O R config g best branch k ↔ d₁.past.length < k := by
      rw [hwrites]
      constructor
      · rintro ⟨-, p', hexecuted', hlt⟩
        rwa [Except.ok.inj (hexecuted.symm.trans hexecuted')]
      · intro hlt
        exact ⟨⟨d, hrun⟩, p, hexecuted, hlt⟩
    -- the states up to the accounts, then those with the manifest
    have hstates : d.states = d₁.states ++ (new ++ [d.current]) := by
      simp [Durable.states, hpast]
    have hcount : d₁.states.length = d₁.past.length + 1 := by simp [Durable.states]
    dsimp only at hleft
    rw [hstates] at hleft
    by_cases hk : k < d₁.states.length
    · rw [List.getElem?_append_left hk] at hleft
      rcases hphased.2 k left hleft with hbehind | ⟨hfirst, hahead⟩
      · exact .inl hbehind
      · exact .inr (.inl ⟨hfirst, hahead, by rw [hwritten]; omega⟩)
    · rw [List.getElem?_append_right (by omega)] at hleft
      have hle := hphased.1
      refine .inr (.inr ⟨by omega, by rw [hwritten]; omega, p, hexecuted, hnumbered, ?_⟩)
      rcases List.mem_append.mp (List.mem_of_getElem? hleft) with hmem | hmem
      · exact hall left hmem
      · rw [List.mem_singleton.mp hmem]
        exact hlast

end Extension

/-! ## Coherence -/

theorem Numbered.take {parent : BlockHeader} (h : Numbered parent suffix) (i : ℕ) :
    Numbered parent (suffix.take i) := by
  induction suffix generalizing parent i with
  | nil => simpa using h
  | cons block rest ih =>
    cases i with
    | zero => exact trivial
    | succ i => exact ⟨h.1, ih h.2 i⟩

theorem number_of_executeSuffix {blocks : List Block} (hnumbered : Numbered p.parent blocks)
    (h : executeSuffix O R p blocks = .ok p') :
    p'.parent.number = p.parent.number + BitVec.ofNat 64 blocks.length := by
  induction blocks generalizing p with
  | nil =>
    obtain rfl := pure_eq_ok.mp h
    simp
  | cons block rest ih =>
    unfold executeSuffix at h
    rw [List.foldlM_cons, bind_eq_ok] at h
    obtain ⟨p₁, hstep, hrest⟩ := h
    obtain ⟨state, -, hp₁⟩ := bind_eq_ok.mp hstep
    obtain rfl := pure_eq_ok.mp hp₁
    have hlast := ih hnumbered.2 hrest
    rw [hlast]
    show block.header.number + _ = _
    rw [hnumbered.1, List.length_cons, ← add_ofNat_succ, BitVec.add_assoc, BitVec.add_assoc,
      BitVec.add_comm 1]

/-- The height of the tip tells how many blocks of the branch were executed. -/
theorem executed_unique {p₁ p₂ : DirectProgress} (hlength : suffix.length < 2 ^ 64)
    (hnumbered : Numbered p.parent suffix) (h₁ : executeSuffix O R p (suffix.take i) = .ok p₁)
    (h₂ : executeSuffix O R p suffix = .ok p₂) (hparent : p₁.parent = p₂.parent) : p₁ = p₂ := by
  by_cases hi : suffix.length ≤ i
  · rw [List.take_of_length_le hi] at h₁
    exact Except.ok.inj (h₁.symm.trans h₂)
  · have hn₁ := number_of_executeSuffix (hnumbered.take i) h₁
    have hn₂ := number_of_executeSuffix hnumbered h₂
    rw [hparent, hn₂, List.length_take, Nat.min_eq_left (by omega)] at hn₁
    have hnat := congrArg BitVec.toNat ((BitVec.add_right_inj p.parent.number).mp hn₁)
    rw [toNat_ofNat_of_lt hlength, toNat_ofNat_of_lt (by omega)] at hnat
    omega

/-- No account with content is missing from the state the branch leads to. -/
def NoneVanished (O : Oracle) (R : Revm) (g : Generation) (best : BlockHeader)
    (suffix : List Block) : Prop :=
  ∀ p, executeSuffix O R (progress g best) suffix = .ok p →
    ∀ a, g.store.view a ≠ AccountView.empty → (p.evmState.accounts[a]?).isSome

theorem Published.coherent_iff_noneVanished {best : BlockHeader} (hlength : suffix.length < 2 ^ 64)
    (hexecuted : executeSuffix O R (progress g best) suffix = .ok p)
    (hnumbered : Numbered best suffix) (h : Published O g m p left) :
    Coherent O R g best suffix left ↔ NoneVanished O R g best suffix := by
  have hview : (∀ a, left.store.view a = p.evmState.view a) ↔
      ∀ a, g.store.view a ≠ AccountView.empty → (p.evmState.accounts[a]?).isSome := by
    refine forall_congr' fun a => ?_
    rw [h.view a]
    cases haccount : p.evmState.accounts[a]? with
    | none =>
      rw [RevmState.view_of_none haccount]
      simp
    | some account =>
      unfold RevmState.view RevmState.account
      rw [haccount]
      simp
  constructor
  · rintro ⟨i, p', m', hexecuted', htip, hsame, -, -⟩ p'' hexecuted''
    obtain rfl : p = p'' := Except.ok.inj (hexecuted.symm.trans hexecuted'')
    obtain rfl : p' = p := executed_unique hlength hnumbered hexecuted' hexecuted
      (Except.ok.inj (htip.symm.trans h.tip))
    exact hview.mp hsame
  · intro hnone
    refine ⟨suffix.length, p, refreshedManifest O m p.parent, ?_, h.tip,
      hview.mpr (hnone p hexecuted), h.manifest, rfl, rfl, rfl⟩
    rw [List.take_length]
    exact hexecuted

theorem Behind.coherent {best : BlockHeader} (hnamed : TipNamed O g m best) (h : Behind g left)
    (suffix : List Block) : Coherent O R g best suffix left := by
  have hmanifest : left.manifest = g.manifest := congrArg Prod.fst h.files
  refine ⟨0, progress g best, m, rfl, ?_, ?_, hmanifest.trans hnamed.manifest, hnamed.describes⟩
  · rw [h.tip]
    exact bestHeader_eq_ok.mpr ⟨_, hnamed.number, hnamed.header⟩
  · intro a
    rw [view_of_accountRows h.accounts]
    exact (view_revmStateFromSled g.store a).symm

theorem Ahead.not_coherent (h : Ahead m left) (best : BlockHeader) (suffix : List Block) :
    ¬Coherent O R g best suffix left := by
  rintro ⟨i, p, m', -, htip, -, hmanifest, hdescribes⟩
  obtain ⟨hmanifest', header, hbest, hheader, hnumber⟩ := h
  obtain rfl : m = m' := Option.some.inj (hmanifest'.symm.trans hmanifest)
  obtain rfl : header = p.parent := by
    have hok := bestHeader_eq_ok.mpr ⟨_, hbest, hheader⟩
    exact Except.ok.inj (hok.symm.trans htip)
  exact hnumber hdescribes.1.symm

/-- **What an error leaves is coherent exactly if the tip had not moved yet**, or the manifest was
written and no account with content had vanished. -/
theorem coherent_iff (O : Oracle) (R : Revm) (config : NodeConfig) (g : Generation)
    (m : GenerationManifest) (best : BlockHeader) (branch : CandidateBranch) (k : ℕ)
    (left : Generation) (hnamed : TipNamed O g m best) (hlength : branch.suffix.length < 2 ^ 64)
    (hleft : (crashStates (commitDirectCandidateExtension O R config branch) g)[k]? = some left) :
    Coherent O R g best branch.suffix left ↔ k < firstBlockWrites branch.suffix ∨
      ManifestWritten O R config g best branch k ∧ NoneVanished O R g best branch.suffix := by
  rcases left_by_extension hnamed hlength hleft with
    ⟨hk, hbehind⟩ | ⟨hk, hahead, hunwritten⟩ | ⟨hk, hwritten, p, hexecuted, hnumbered, hpublished⟩
  · exact ⟨fun _ => .inl hk, fun _ => hbehind.coherent hnamed _⟩
  · refine ⟨fun h => absurd h (hahead.not_coherent best _), ?_⟩
    rintro (h | ⟨h, -⟩)
    · omega
    · exact absurd h hunwritten
  · rw [hpublished.coherent_iff_noneVanished hlength hexecuted hnumbered]
    constructor
    · exact fun h => .inr ⟨hwritten, h⟩
    · rintro (h | ⟨-, h⟩)
      · omega
      · exact h

/-! ## A branch with an invalid second block -/

def wrongFourthBlock : Block :=
  let block := childOf thirdBlock.header 5
  { block with header := { block.header with stateRoot := 1 } }

def brokenBranch : CandidateBranch where
  commonHeight := secondBlock.header.number
  commonHash := secondBlock.header.hash nonceOracle
  suffix := [thirdBlock, wrongFourthBlock]

theorem tipNamed_publishedChain :
    TipNamed nonceOracle publishedChain tipManifest secondBlock.header :=
  ⟨by decide +kernel, by decide +kernel, rfl, rfl, rfl, rfl⟩

/-- Whether the extension fails and leaves the third block as the tip with the old manifest. -/
def failsAhead (branch : CandidateBranch) : Bool :=
  match commitDirectCandidateExtension nonceOracle noContracts plainConfig branch
      ⟨publishedChain, []⟩ with
  | .ok _ _ => false
  | .error _ d => decide (d.current.manifest = some tipManifest) &&
    decide (d.current.store.bestNumber = some thirdBlock.header.number) &&
    decide (d.current.store.headers[thirdBlock.header.number]? = some thirdBlock.header)

theorem of_failsAhead (h : failsAhead branch = true) :
    ∃ e d, commitDirectCandidateExtension nonceOracle noContracts plainConfig branch
        ⟨publishedChain, []⟩ = .error e d ∧
      ¬Coherent nonceOracle noContracts publishedChain secondBlock.header branch.suffix d.current := by
  unfold failsAhead at h
  split at h
  · cases h
  · next e d hrun =>
    simp only [Bool.and_eq_true, decide_eq_true_eq] at h
    obtain ⟨⟨hmanifest, hbest⟩, hheader⟩ := h
    have hahead : Ahead tipManifest d.current :=
      ⟨hmanifest, thirdBlock.header, hbest, hheader, by decide +kernel⟩
    exact ⟨e, d, hrun, hahead.not_coherent _ _⟩

/-- **An invalid second block leaves the first one as the tip**, without its accounts and with the
manifest of the old tip. -/
theorem invalid_second_block :
    TipNamed nonceOracle publishedChain tipManifest secondBlock.header ∧
    ∃ e d, commitDirectCandidateExtension nonceOracle noContracts plainConfig brokenBranch
        ⟨publishedChain, []⟩ = .error e d ∧
      ¬Coherent nonceOracle noContracts publishedChain secondBlock.header brokenBranch.suffix
        d.current :=
  ⟨tipNamed_publishedChain, of_failsAhead (by decide +kernel)⟩

theorem coherent_iff_brokenBranch : ∃ left,
    (crashStates (commitDirectCandidateExtension nonceOracle noContracts plainConfig brokenBranch)
      publishedChain)[3]? = some left ∧
    (Coherent nonceOracle noContracts publishedChain secondBlock.header brokenBranch.suffix left ↔
      3 < firstBlockWrites brokenBranch.suffix ∨
      ManifestWritten nonceOracle noContracts plainConfig publishedChain secondBlock.header
          brokenBranch 3 ∧
        NoneVanished nonceOracle noContracts publishedChain secondBlock.header
          brokenBranch.suffix) := by
  have hsome : ((crashStates (commitDirectCandidateExtension nonceOracle noContracts plainConfig
      brokenBranch) publishedChain)[3]?).isSome = true := by decide +kernel
  obtain ⟨left, hleft⟩ := Option.isSome_iff_exists.mp hsome
  exact ⟨left, hleft, coherent_iff nonceOracle noContracts plainConfig publishedChain tipManifest
    secondBlock.header brokenBranch 3 left tipNamed_publishedChain (by decide) hleft⟩

end Generation

end Blq
