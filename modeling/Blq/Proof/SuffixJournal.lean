import Blq.Proof.ChainOperations

/-!
# The journal of a suffix publication

A publication writes its journal, commits its batch, writes the files one by one and clears the
journal. It can stop after any of these writes, by a crash or by an error, and the node may go on
without being restarted. Here:

* `open_cases`: what opening makes of a journal;
* `reopens_of_run`: in every run whose publications start from a generation that passes its check and
  whose insertions find no journal, the generation can be opened, passes its check and has the tip
  that was committed last;
* `insertion_after_failed_publication`: a block inserted while the journal of a failed publication
  is left makes the generation impossible to open.
-/

namespace Blq

open Word Result

structure SuffixPublication where
  ancestor : BlockHeader
  replacement : List Block
  native : NativeAccounts
  evm : EvmStateSnapshot
  totals : U64 × U128 × U128
  target : GenerationManifest

def SuffixPublication.run (O : Oracle) (p : SuffixPublication) : DiskM Unit :=
  Generation.publishCanonicalSuffix O p.ancestor p.replacement p.native p.evm p.totals p.target

/-- What happens to a generation on disk. `publish p k` and `reopen k` stop after `k` writes, at the
end of the operation or before. -/
inductive DiskEvent where
  | publish (p : SuffixPublication) (k : ℕ)
  | insert (block : Block)
  | reopen (k : ℕ)

/-- A generation, and the tip of the last commit to its database. -/
structure DiskHistory where
  disk : Generation
  committed : BlockHeader

namespace Generation

variable {O : Oracle} {R : Revm} {config : NodeConfig}

/-- One event. The batch of a publication is its second write, after the journal. -/
inductive Happens (O : Oracle) (R : Revm) : DiskEvent → DiskHistory → DiskHistory → Prop
  | unpublished {s : DiskHistory} {p : SuffixPublication} {k : ℕ} {g : Generation}
      (hk : k < 2) (hleft : (crashStates (p.run O) s.disk)[k]? = some g) :
      Happens O R (.publish p k) s ⟨g, s.committed⟩
  | published {s : DiskHistory} {p : SuffixPublication} {k : ℕ} {g : Generation} {tip : Block}
      (hk : 2 ≤ k) (hleft : (crashStates (p.run O) s.disk)[k]? = some g)
      (htip : p.replacement.getLast? = some tip) :
      Happens O R (.publish p k) s ⟨g, tip.header⟩
  | inserted {s : DiskHistory} {block : Block} {d : Durable Generation}
      (hrun : insertBlock O R block ⟨s.disk, []⟩ = .ok () d) :
      Happens O R (.insert block) s ⟨d.current, block.header⟩
  | reopened {s : DiskHistory} {k : ℕ} {g : Generation}
      (hleft : (crashStates (openStorage O) s.disk)[k]? = some g) :
      Happens O R (.reopen k) s ⟨g, s.committed⟩

/-- The manifest is not marked as one that must not be opened. -/
def Publishable (m : GenerationManifest) : Prop :=
  ¬(m.status = .staging ∨ m.status = .retired ∨ m.status = .failed)

instance (m : GenerationManifest) : Decidable (Publishable m) :=
  inferInstanceAs (Decidable (¬(_ ∨ _ ∨ _)))

/-- What an event needs. A publication starts from a generation that passes its check, with a target
that may be opened; an insertion finds no journal and leaves the checkpoint's block alone. -/
def Careful (O : Oracle) (R : Revm) (config : NodeConfig) (g : Generation) : DiskEvent → Prop
  | .publish p _ => Verifies O g ∧ Publishable p.target
  | .insert block => g.journal = none ∧
    (ChainOperation.insertBlock block).LeavesCheckpoint O R config g
  | .reopen _ => True

/-- The histories after a sequence of events that all had what they need. -/
inductive CarefulRun (O : Oracle) (R : Revm) (config : NodeConfig) (s : DiskHistory) :
    DiskHistory → Prop
  | start : CarefulRun O R config s s
  | next {s₁ s₂ : DiskHistory} {event : DiskEvent} (hrun : CarefulRun O R config s s₁)
      (hcareful : Careful O R config s₁.disk event) (hevent : Happens O R event s₁ s₂) :
      CarefulRun O R config s s₂

/-- **Opening succeeds, the check passes and the tip is the committed one.** -/
def Reopens (O : Oracle) (s : DiskHistory) : Prop :=
  ∃ d, openStorage O ⟨s.disk, []⟩ = .ok () d ∧ Verifies O d.current ∧
    d.current.store.bestHeader = .ok s.committed

/-- A generation without a journal that passes its check, with its tip stored at the tip's height. -/
structure Settled (O : Oracle) (s : DiskHistory) : Prop where
  journal : s.disk.journal = none
  verifies : Verifies O s.disk
  tip : s.disk.store.bestHeader = .ok s.committed
  stored : s.disk.store.headers[s.committed.number]? = some s.committed

/-! ## Opening -/

variable {g : Generation} {s s' : DiskHistory} {p : SuffixPublication}

/-- **All that opening can make of a generation with a tip**: nothing without a journal; otherwise it
completes the publication, drops the journal or gives up. -/
theorem open_cases {best : BlockHeader} (hbest : g.store.bestHeader = .ok best) :
    (g.journal = none ∧ openStorage O ⟨g, []⟩ = .ok () ⟨g, []⟩) ∨
    ∃ record, g.journal = some record ∧
      ((record.targetManifest.Describes O best ∧ openStorage O ⟨g, []⟩ =
          .ok () ⟨finished O g record.targetManifest, finishSteps O g record.targetManifest⟩) ∨
        (¬record.targetManifest.Describes O best ∧ record.previousManifest.Describes O best ∧
          openStorage O ⟨g, []⟩ = .ok () ⟨{ g with journal := none }, [g]⟩) ∨
        (¬record.targetManifest.Describes O best ∧ ¬record.previousManifest.Describes O best ∧
          ∃ e, openStorage O ⟨g, []⟩ = .error e ⟨g, []⟩)) := by
  unfold openStorage recoverSuffixPublication
  rw [onDisk_bind_apply]
  cases hjournal : g.journal with
  | none => exact .inl ⟨rfl, rfl⟩
  | some record =>
    refine .inr ⟨record, rfl, ?_⟩
    dsimp only
    rw [readDatabase_bind_of_ok (d := ⟨g, []⟩) hbest]
    by_cases htarget : record.targetManifest.Describes O best
    · rw [if_pos htarget, finish_apply]
      exact .inl ⟨htarget, rfl⟩
    · rw [if_neg htarget]
      by_cases hprevious : record.previousManifest.Describes O best
      · rw [if_pos hprevious]
        exact .inr (.inl ⟨htarget, hprevious, rfl⟩)
      · rw [if_neg hprevious]
        exact .inr (.inr ⟨htarget, hprevious, _, rfl⟩)

/-! ## What every careful run keeps -/

theorem Verifies.withJournal (h : Verifies O g) (journal : Option SuffixPublicationRecord) :
    Verifies O { g with journal := journal } := by
  obtain ⟨m, best, hm⟩ := verifies_iff.mp h
  exact verifies_iff.mpr ⟨m, best, hm.manifest, hm.status, hm.tip, hm.describes, hm.publication,
    hm.named, hm.stored⟩

/-- The journal, if there is one, can be settled: the files of its target fit the tip, or the batch
was not committed and the files still fit. -/
def JournalFits (O : Oracle) (s : DiskHistory) : Prop :=
  match s.disk.journal with
  | none => Verifies O s.disk
  | some record =>
    (record.targetManifest.Describes O s.committed →
      record.targetManifest.replayCheckpoint = some s.committed.number ∧
        Publishable record.targetManifest) ∧
    (¬record.targetManifest.Describes O s.committed →
      record.previousManifest.Describes O s.committed ∧ Verifies O s.disk)

/-- The invariant of careful runs. -/
structure Recoverable (O : Oracle) (s : DiskHistory) : Prop where
  tip : s.disk.store.bestHeader = .ok s.committed
  stored : s.disk.store.headers[s.committed.number]? = some s.committed
  fits : JournalFits O s

theorem Settled.recoverable (h : Settled O s) : Recoverable O s := by
  refine ⟨h.tip, h.stored, ?_⟩
  unfold JournalFits
  rw [h.journal]
  exact h.verifies

/-- A journal whose target describes the tip can be settled whatever the other files are. -/
theorem recoverable_of_target {tip : BlockHeader} {record : SuffixPublicationRecord}
    (htip : g.store.bestHeader = .ok tip) (hstored : g.store.headers[tip.number]? = some tip)
    (hjournal : g.journal = some record) (htarget : record.targetManifest.Describes O tip)
    (hcheckpoint : record.targetManifest.replayCheckpoint = some tip.number)
    (hpublishable : Publishable record.targetManifest) : Recoverable O ⟨g, tip⟩ := by
  refine ⟨htip, hstored, ?_⟩
  unfold JournalFits
  dsimp only
  rw [hjournal]
  exact ⟨fun _ => ⟨hcheckpoint, hpublishable⟩, fun hnot => absurd htarget hnot⟩

theorem Recoverable.opens (h : Recoverable O s) :
    ∃ d, openStorage O ⟨s.disk, []⟩ = .ok () d ∧ Settled O ⟨d.current, s.committed⟩ := by
  have hfits := h.fits
  unfold JournalFits at hfits
  rcases open_cases h.tip with ⟨hnone, hopen⟩ | ⟨record, hrecord, hcases⟩
  · rw [hnone] at hfits
    exact ⟨_, hopen, hnone, hfits, h.tip, h.stored⟩
  · rw [hrecord] at hfits
    rcases hcases with ⟨htarget, hopen⟩ | ⟨hnot, -, hopen⟩ | ⟨hnot, hprevious, -⟩
    · obtain ⟨hcheckpoint, hpublishable⟩ := hfits.1 htarget
      have hverifies := verifies_finished h.tip h.stored htarget hcheckpoint hpublishable
      exact ⟨_, hopen, rfl, hverifies, h.tip, h.stored⟩
    · obtain ⟨-, hverifies⟩ := hfits.2 hnot
      exact ⟨_, hopen, rfl, hverifies.withJournal none, h.tip, h.stored⟩
    · exact absurd (hfits.2 hnot).1 hprevious

theorem Recoverable.reopens (h : Recoverable O s) : Reopens O s := by
  obtain ⟨d, hopen, hsettled⟩ := h.opens
  exact ⟨d, hopen, hsettled.verifies, hsettled.tip⟩

/-! ## One event -/

theorem mem_finishSteps {g' : Generation} {target : GenerationManifest}
    (h : g' ∈ finishSteps O g target) : g'.store = g.store ∧ g'.journal = g.journal := by
  simp only [finishSteps, List.mem_cons, List.not_mem_nil, or_false] at h
  rcases h with rfl | rfl | rfl | rfl <;> exact ⟨rfl, rfl⟩

/-- What a publication leaves when it stops: nothing new, its journal, or the batch with some of its
files, or all of them and no journal. -/
theorem left_by_publication {g' : Generation} {k : ℕ}
    (hleft : (crashStates (p.run O) g)[k]? = some g') :
    (k = 0 ∧ g' = g) ∨
    ∃ previous, g.manifest = some previous ∧
      checkSuffix O g.store p.ancestor p.replacement p.target = .ok () ∧
      ((k = 1 ∧ g' = { g with journal := some ⟨previous, p.target⟩ }) ∨
        (2 ≤ k ∧ ∃ batch, g.store.publishCanonicalSuffix O p.ancestor p.replacement p.native p.evm
            p.totals = .ok batch.store ∧ batch.journal = some ⟨previous, p.target⟩ ∧
          (g' ∈ finishSteps O batch p.target ∨ g' = finished O batch p.target))) := by
  unfold crashStates finalState SuffixPublication.run at hleft
  rcases publish_cases O p.ancestor p.replacement p.native p.evm p.totals p.target ⟨g, []⟩ with
    ⟨e, hrun⟩ | ⟨previous, hprevious, hcheck, ⟨e, hrun⟩ | ⟨batch, hbatch, hrun⟩⟩
  · rw [hrun] at hleft
    obtain ⟨hk, hg⟩ := List.getElem?_eq_some_iff.mp hleft
    have hk0 : k = 0 := by simpa [Durable.states] using hk
    subst hk0
    exact .inl ⟨rfl, hg.symm⟩
  · rw [hrun] at hleft
    rcases k with _ | _ | k
    · exact .inl ⟨rfl, (Option.some.inj hleft).symm⟩
    · exact .inr ⟨previous, hprevious, hcheck, .inl ⟨rfl, (Option.some.inj hleft).symm⟩⟩
    · cases hleft
  · rw [hrun] at hleft
    rcases k with _ | _ | k
    · exact .inl ⟨rfl, (Option.some.inj hleft).symm⟩
    · exact .inr ⟨previous, hprevious, hcheck, .inl ⟨rfl, (Option.some.inj hleft).symm⟩⟩
    · have hmem := List.mem_of_getElem? (show (finishSteps O batch p.target ++
        [finished O batch p.target])[k]? = some g' from hleft)
      obtain ⟨hstore, hfiles⟩ := suffixBatch_eq_ok hbatch
      have hjournal : batch.journal = some ⟨previous, p.target⟩ :=
        congrArg (fun fs : Files => fs.2.2.2) hfiles
      refine .inr ⟨previous, hprevious, hcheck, .inr ⟨by omega, batch, hstore, hjournal, ?_⟩⟩
      simpa only [List.mem_append, List.mem_singleton] using hmem

theorem Recoverable.journaled (h : Recoverable O s) (hverifies : Verifies O s.disk)
    (hpublishable : Publishable p.target) {previous : GenerationManifest}
    (hprevious : s.disk.manifest = some previous)
    (hcheck : checkSuffix O s.disk.store p.ancestor p.replacement p.target = .ok ()) :
    Recoverable O ⟨{ s.disk with journal := some ⟨previous, p.target⟩ }, s.committed⟩ := by
  refine ⟨h.tip, h.stored, ?_, ?_⟩
  · intro htarget
    -- the replacement may end at the height the chain has now
    obtain ⟨tip, -, hdescribes, hcheckpoint⟩ := checkSuffix_eq_ok hcheck
    have hnumber : tip.header.number = s.committed.number := hdescribes.1.symm.trans htarget.1
    rw [← hnumber]
    exact ⟨hcheckpoint, hpublishable⟩
  · intro _
    obtain ⟨m, best, hm⟩ := verifies_iff.mp hverifies
    obtain rfl : m = previous := Option.some.inj (hm.manifest.symm.trans hprevious)
    obtain rfl : best = s.committed := Except.ok.inj (hm.tip.symm.trans h.tip)
    exact ⟨hm.describes, hverifies.withJournal _⟩

theorem recoverable_of_batch (hpublishable : Publishable p.target) {s : SledStorage}
    {batch : Generation} {previous : GenerationManifest} {tip : Block}
    (htip : p.replacement.getLast? = some tip)
    (hcheck : checkSuffix O s p.ancestor p.replacement p.target = .ok ())
    (hstore : s.publishCanonicalSuffix O p.ancestor p.replacement p.native p.evm p.totals =
      .ok batch.store) (hjournal : batch.journal = some ⟨previous, p.target⟩)
    (hg : g ∈ finishSteps O batch p.target ∨ g = finished O batch p.target) :
    Recoverable O ⟨g, tip.header⟩ := by
  obtain ⟨tip', htip', hdescribes, hcheckpoint⟩ := checkSuffix_eq_ok hcheck
  obtain rfl : tip = tip' := Option.some.inj (htip.symm.trans htip')
  have hbest := bestHeader_of_publish htip hstore
  have hheader := headers_of_publish htip hstore
  rcases hg with hmem | rfl
  · obtain ⟨hsame, hkept⟩ := mem_finishSteps hmem
    rw [← hsame] at hbest hheader
    exact recoverable_of_target hbest hheader (hkept.trans hjournal) hdescribes hcheckpoint
      hpublishable
  · have hverifies := verifies_finished hbest hheader hdescribes hcheckpoint hpublishable
    exact ⟨hbest, hheader, hverifies⟩

theorem Recoverable.publish (h : Recoverable O s) {k : ℕ} (hverifies : Verifies O s.disk)
    (hpublishable : Publishable p.target) (hevent : Happens O R (.publish p k) s s') :
    Recoverable O s' := by
  cases hevent with
  | unpublished hk hleft =>
    rcases left_by_publication hleft with ⟨-, rfl⟩ | ⟨previous, hprevious, hcheck, hcases⟩
    · exact h
    · rcases hcases with ⟨-, rfl⟩ | ⟨hk', -⟩
      · exact h.journaled hverifies hpublishable hprevious hcheck
      · omega
  | published hk hleft htip =>
    rcases left_by_publication hleft with ⟨hk', -⟩ | ⟨previous, -, hcheck, hcases⟩
    · omega
    · rcases hcases with ⟨hk', -⟩ | ⟨-, batch, hstore, hjournal, hg⟩
      · omega
      · exact recoverable_of_batch hpublishable htip hcheck hstore hjournal hg

theorem Recoverable.insert (h : Recoverable O s) {block : Block} (hjournal : s.disk.journal = none)
    (hleaves : (ChainOperation.insertBlock block).LeavesCheckpoint O R config s.disk)
    (hevent : Happens O R (.insert block) s s') : Recoverable O s' := by
  cases hevent with
  | inserted hrun =>
    rename_i d
    have hverifies : Verifies O s.disk := by
      have hfits := h.fits
      unfold JournalFits at hfits
      rw [hjournal] at hfits
      exact hfits
    obtain ⟨-, hinsert, htip, hfiles⟩ := insertBlock_ok hrun
    have hheaders : d.current.store.headers =
        s.disk.store.headers.insert block.header.number block.header :=
      congrArg ChainView.headers (insertBlock_view hinsert)
    have hnone : d.current.journal = none := by
      have hkept : d.current.journal = (withTip O s.disk block.header).journal :=
        congrArg (fun fs : Files => fs.2.2.2) hfiles
      rw [hkept, withTip]
      split <;> exact hjournal
    refine Settled.recoverable ⟨hnone, (verifies_insertBlock_iff hverifies hrun).mpr hleaves, htip, ?_⟩
    show d.current.store.headers[block.header.number]? = some block.header
    rw [hheaders, Map.getElem?_insert_eq, if_pos rfl]

theorem Recoverable.reopen (h : Recoverable O s) {k : ℕ} (hevent : Happens O R (.reopen k) s s') :
    Recoverable O s' := by
  cases hevent with
  | reopened hleft =>
    rename_i g
    obtain ⟨d, hopen, hsettled⟩ := h.opens
    unfold crashStates finalState at hleft
    rw [hopen] at hleft
    have hmem := List.mem_of_getElem? hleft
    rcases List.mem_append.mp hmem with hpast | hlast
    · -- a recovery that stops early leaves its journal and the database
      rcases open_cases h.tip with ⟨-, hrun⟩ | ⟨record, hrecord, hcases⟩
      · obtain ⟨-, rfl⟩ := EStateM.Result.ok.inj (hopen.symm.trans hrun)
        cases hpast
      · rcases hcases with ⟨htarget, hrun⟩ | ⟨-, -, hrun⟩ | ⟨-, -, e, hrun⟩
        · obtain ⟨-, rfl⟩ := EStateM.Result.ok.inj (hopen.symm.trans hrun)
          obtain ⟨hsame, hkept⟩ := mem_finishSteps hpast
          have hfits := h.fits
          unfold JournalFits at hfits
          rw [hrecord] at hfits
          obtain ⟨hcheckpoint, hpublishable⟩ := hfits.1 htarget
          exact recoverable_of_target (by rw [hsame]; exact h.tip) (by rw [hsame]; exact h.stored)
            (hkept.trans hrecord) htarget hcheckpoint hpublishable
        · obtain ⟨-, rfl⟩ := EStateM.Result.ok.inj (hopen.symm.trans hrun)
          obtain rfl := List.mem_singleton.mp hpast
          exact h
        · rw [hopen] at hrun
          cases hrun
    · obtain rfl := List.mem_singleton.mp hlast
      exact hsettled.recoverable

/-! ## Runs -/

theorem CarefulRun.recoverable (hstart : Settled O s) (hrun : CarefulRun O R config s s') :
    Recoverable O s' := by
  induction hrun with
  | start => exact hstart.recoverable
  | @next s₁ s₂ event _ hcareful hevent ih =>
    cases event with
    | publish p k => exact ih.publish hcareful.1 hcareful.2 hevent
    | insert block => exact ih.insert hcareful.1 hcareful.2 hevent
    | reopen k => exact ih.reopen hevent

/-- **In every careful run the generation can be opened at any time**, passes its check and has the
tip that was committed last. -/
theorem reopens_of_run (O : Oracle) (R : Revm) (config : NodeConfig) (s s' : DiskHistory)
    (hstart : Settled O s) (hrun : CarefulRun O R config s s') : Reopens O s' :=
  (hrun.recoverable hstart).reopens

/-! ## A journal that is left behind -/

def otherSecondBlock : Block := childOf firstBlock.header 3

def otherSuffix : SuffixPublication where
  ancestor := firstBlock.header
  replacement := [otherSecondBlock]
  native := chainStore.accountSnapshot
  evm := chainStore.evmAccountSnapshot
  totals := (2, 0, 0)
  target := publicationTarget nonceOracle tipManifest otherSecondBlock.header ""

def publishedHistory : DiskHistory := ⟨publishedChain, secondBlock.header⟩

theorem settled_publishedHistory : Settled nonceOracle publishedHistory :=
  ⟨rfl, verifies_publishedChain, by decide +kernel, by decide +kernel⟩

/-- Whether the generation can be opened after a publication that stopped after `k` writes and the
insertion of a block. -/
def opensAfter (k : ℕ) (block : Block) : Option Bool :=
  match (crashStates (otherSuffix.run nonceOracle) publishedChain)[k]? with
  | none => none
  | some g =>
    match insertBlock nonceOracle noContracts block ⟨g, []⟩ with
    | .error _ _ => none
    | .ok _ d =>
      match openStorage nonceOracle ⟨d.current, []⟩ with
      | .ok _ _ => some true
      | .error _ _ => some false

theorem of_opensAfter {k : ℕ} (hk : k < 2) (block : Block) (h : opensAfter k block = some false) :
    ∃ s₁ s₂, Happens nonceOracle noContracts (.publish otherSuffix k) publishedHistory s₁ ∧
      Happens nonceOracle noContracts (.insert block) s₁ s₂ ∧ ¬Reopens nonceOracle s₂ := by
  unfold opensAfter at h
  split at h
  · cases h
  · next g hleft =>
    split at h
    · cases h
    · next d hinsert =>
      refine ⟨⟨g, secondBlock.header⟩, ⟨d.current, block.header⟩, .unpublished hk hleft,
        .inserted hinsert, ?_⟩
      rintro ⟨d', hopen, -⟩
      dsimp only at hopen
      rw [hopen] at h
      cases h

/-- **A block inserted after a failed publication makes the generation impossible to open**: the
publication stopped before its batch and left its journal, which names neither the new tip nor any
tip the chain has again. -/
theorem insertion_after_failed_publication : Settled nonceOracle publishedHistory ∧
    ∃ s₁ s₂, Happens nonceOracle noContracts (.publish otherSuffix 1) publishedHistory s₁ ∧
      Happens nonceOracle noContracts (.insert thirdBlock) s₁ s₂ ∧ ¬Reopens nonceOracle s₂ :=
  ⟨settled_publishedHistory, of_opensAfter (by decide) _ (by decide +kernel)⟩

/-- The publication alone does no harm. -/
theorem reopens_after_failed_publication : ∃ s,
    Happens nonceOracle noContracts (.publish otherSuffix 1) publishedHistory s ∧
      Reopens nonceOracle s := by
  obtain ⟨s, -, hevent, -⟩ := of_opensAfter (k := 1) (by decide) thirdBlock
    (by decide +kernel)
  have hcareful : Careful nonceOracle noContracts plainConfig publishedChain
      (.publish otherSuffix 1) := ⟨verifies_publishedChain, by decide⟩
  exact ⟨s, hevent, reopens_of_run nonceOracle noContracts plainConfig publishedHistory s
    settled_publishedHistory (.next .start hcareful hevent)⟩

end Generation

end Blq
