import Blq.Spec.Handlers

/-!
# The storage and the mempool are locked in both orders

A block template locks the mempool under the storage guard; a submitted transaction is
checked against the storage under the mempool guard. All other handlers hold at most one of
the two.

* `noOverlap_run`: a run in which no submission holds the mempool while a template holds the
  storage keeps it that way.
* `no_crossWait_of_apart`: in such a run no two threads wait for each other.
* `submission_and_template_wait`: without that condition two threads suffice.
-/

namespace Blq

open Lock

/-- What each handler may acquire while it holds other mutexes. -/
def mayAcquire (k : Handler) (held : Finset Mutex) : Mutex → Bool
  | .storage => .mempool ∉ held || k.submits
  | .mempool => .storage ∉ held || k.builds
  | .blockImport => held = ∅
  | .candidateReplay => held ⊆ {.blockImport}

/-- Every handler keeps to it and ends with nothing held. -/
theorem check_lockProgram (k : Handler) : check (mayAcquire k) (lockProgram k) ∅ = some ∅ := by
  cases k <;> decide

abbrev NodeSys := Sys Mutex Handler

/-- A submission locks the mempool only while no block template holds the storage, and a
block template locks the storage only while no submission holds the mempool. -/
def Apart (s : NodeSys) : Event Mutex Handler → Prop
  | .acquire i .mempool => (s.kind i).submits = true →
      ∀ j, s.owner .storage = some j → (s.kind j).builds = false
  | .acquire i .storage => (s.kind i).builds = true →
      ∀ j, s.owner .mempool = some j → (s.kind j).submits = false
  | _ => True

/-- No submission holds the mempool while a block template holds the storage. -/
def NoOverlap (s : NodeSys) : Prop :=
  ∀ i j, s.owner .mempool = some i → s.owner .storage = some j →
    (s.kind i).submits = true → (s.kind j).builds = false

/-- **Step lemma.** -/
theorem noOverlap_step {s s' : NodeSys} {e : Event Mutex Handler} (hstep : Step lockProgram s e s')
    (hapart : Apart s e) (hinv : Inv mayAcquire s) (h : NoOverlap s) : NoOverlap s' := by
  intro i j hi hj hsub
  cases hstep with
  | start t k w ht hw =>
    -- the thread that starts owns nothing, so neither owner changes its handler
    have hidle : ∀ m, s.owner m ≠ some t := by
      intro m hm
      have hmem : m ∈ held s t := mem_held.mpr hm
      rw [hinv.held_eq_empty ht] at hmem
      exact absurd hmem (Finset.notMem_empty m)
    have hit : i ≠ t := fun e => hidle .mempool (e ▸ hi)
    have hjt : j ≠ t := fun e => hidle .storage (e ▸ hj)
    simp only [Sys.start, Function.update_of_ne hit, Function.update_of_ne hjt] at hsub ⊢
    exact h i j hi hj hsub
  | acquire t l w ht hfree =>
    simp only [Sys.acquire] at hi hj hsub ⊢
    cases l with
    | storage =>
      obtain rfl : t = j := by simpa using hj
      by_contra hb
      have := hapart (by simpa using hb) i (by simpa using hi)
      simp [this] at hsub
    | mempool =>
      obtain rfl : t = i := by simpa using hi
      exact hapart hsub j (by simpa using hj)
    | blockImport => exact h i j (by simpa using hi) (by simpa using hj) hsub
    | candidateReplay => exact h i j (by simpa using hi) (by simpa using hj) hsub
  | release t l w ht howner =>
    simp only [Sys.release, Function.update_apply] at hi hj hsub ⊢
    split at hi
    · cases hi
    · split at hj
      · cases hj
      · exact h i j hi hj hsub

/-- **Run lemma.** -/
theorem noOverlap_run {s₀ s : NodeSys} (hidle : Idle s₀) (hrun : Run lockProgram Apart s₀ s) :
    Inv mayAcquire s ∧ NoOverlap s := by
  refine run_induction (P := fun s => Inv mayAcquire s ∧ NoOverlap s) ?_ hrun ⟨inv_of_idle hidle, ?_⟩
  · rintro s e s' hstep hapart ⟨hinv, hno⟩
    exact ⟨inv_step check_lockProgram hstep hinv, noOverlap_step hstep hapart hinv hno⟩
  · intro i j hi
    rw [hidle.1] at hi
    cases hi

/-- **No two threads wait for each other.** In every run from an idle node in which
submissions and block templates stay apart, no thread holds the mempool while it waits for
the storage and another holds the storage while it waits for the mempool. -/
theorem no_crossWait_of_apart (s₀ s : NodeSys) (hidle : Idle s₀)
    (hrun : Run lockProgram Apart s₀ s) : ¬ CrossWait s .mempool .storage := by
  intro hcross
  obtain ⟨hinv, hno⟩ := noOverlap_run hidle hrun
  obtain ⟨i, j, hi, hmayStorage, hj, hmayMempool⟩ := hcross.may_acquire hinv
  have hsub : (s.kind i).submits = true := by
    simpa [mayAcquire, hi] using hmayStorage
  have hbuilds : (s.kind j).builds = true := by
    simpa [mayAcquire, hj] using hmayMempool
  rw [hno i j hi hj hsub] at hbuilds
  cases hbuilds

/-! ## Two threads -/

def idleNode : NodeSys where
  owner _ := none
  kind _ := .storageWorker
  todo _ := []

def submissionWord : List (Op Mutex) :=
  [.acquire .storage, .release .storage, .acquire .mempool, .acquire .storage,
    .release .storage, .release .mempool, .acquire .mempool, .release .mempool]

def templateWord : List (Op Mutex) :=
  [.acquire .storage, .acquire .mempool, .release .mempool, .release .storage]

theorem submissionWord_mem : submissionWord ∈ (lockProgram .rpcSendTransaction).matches' :=
  (RegularExpression.rmatch_iff_matches' _ _).mp (by decide)

theorem templateWord_mem : templateWord ∈ (lockProgram .rpcBlockTemplate).matches' :=
  (RegularExpression.rmatch_iff_matches' _ _).mp (by decide)

/-- Thread `0` has submitted a transaction and holds the mempool for the state check. -/
def submittingNode : NodeSys :=
  (((idleNode.start 0 .rpcSendTransaction submissionWord).acquire 0 .storage
    (submissionWord.drop 1)).release 0 .storage (submissionWord.drop 2)).acquire 0 .mempool
    (submissionWord.drop 3)

theorem submittingNode_reached : Run lockProgram Apart idleNode submittingNode := by
  have hstart : Run lockProgram Apart idleNode _ := .step .refl
    (.start (s := idleNode) 0 .rpcSendTransaction submissionWord rfl submissionWord_mem) trivial
  have hstorage := hstart.step (.acquire 0 .storage (submissionWord.drop 1) rfl rfl)
    (show Apart _ (.acquire 0 .storage) from fun hbuilds => by cases hbuilds)
  have hreleased := hstorage.step (.release 0 .storage (submissionWord.drop 2) rfl rfl) trivial
  exact hreleased.step (.acquire 0 .mempool (submissionWord.drop 3) rfl rfl)
    (show Apart _ (.acquire 0 .mempool) from fun _ j hj => by cases hj)

theorem no_crossWait_submitting :
    Idle idleNode ∧ Run lockProgram Apart idleNode submittingNode ∧
      submittingNode.owner .mempool = some 0 ∧ ¬ CrossWait submittingNode .mempool .storage :=
  ⟨⟨fun _ => rfl, fun _ => rfl⟩, submittingNode_reached, rfl,
    no_crossWait_of_apart idleNode submittingNode ⟨fun _ => rfl, fun _ => rfl⟩
      submittingNode_reached⟩

/-- **A submission and a block template wait for each other.** While thread `0` holds the
mempool for its state check, thread `1` takes the storage for a template. -/
theorem submission_and_template_wait :
    ∃ s, Run lockProgram (fun _ _ => True) idleNode s ∧ CrossWait s .mempool .storage := by
  refine ⟨(submittingNode.start 1 .rpcBlockTemplate templateWord).acquire 1 .storage
    (templateWord.drop 1), ?_, 0, 1, rfl, ⟨_, rfl⟩, rfl, ⟨_, rfl⟩⟩
  have hsub : Run lockProgram (fun _ _ => True) idleNode submittingNode :=
    Relation.ReflTransGen.mono (fun _ _ ⟨e, he, _⟩ => ⟨e, he, trivial⟩) _ _ submittingNode_reached
  have hstart := hsub.step
    (.start 1 .rpcBlockTemplate templateWord rfl templateWord_mem) trivial
  exact hstart.step (.acquire 1 .storage (templateWord.drop 1) rfl rfl) trivial

end Blq
