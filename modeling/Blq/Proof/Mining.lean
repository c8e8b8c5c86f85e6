import Blq.Proof.SameHeader
import Blq.Spec.Mining

/-!
# Mining jobs and the tip

The subscription compares heights only. A poll that finds the chain no higher than the poll before
sends nothing, whether the tip is the same or another.

* `Rising`: polls that find the tip of the poll before, or a higher one and a template for it.
* `mining_job_on_tip`: **along such polls the last job sent is always on the tip.**
* `replaced_tip_is_not_announced`: a tip replaced at its height is not.
-/

namespace Blq

open Word Result

variable {O : Oracle} {R : Revm} {config : NodeConfig} {call : TemplateCall} {tip : BlockHeader}

/-- **A node's template is on its best header**, whether it was cached or not. -/
theorem rpcBlockTemplate_parent {entry : LocalTemplateCache}
    (h : rpcBlockTemplate O R config call = .ok entry)
    (htip : call.node.storage.bestHeader = .ok tip) :
    entry.payload.header.parentHash = tip.hash O := by
  simp only [rpcBlockTemplate, htip, liftStorage, Except.mapError, ok_bind] at h
  split at h
  · next cached hcached =>
    obtain rfl := pure_eq_ok.mp h
    have hfor := (Option.filter_eq_some_iff.mp hcached).2
    rw [cached.onParent]
    exact (of_decide_eq_true hfor).1
  · split at h
    · exact absurd h throw_ne_ok
    · next hbuild =>
      obtain rfl := pure_eq_ok.mp h
      exact parentHash_buildTemplate hbuild

theorem ownTemplate_parent {block : Block}
    (h : ownTemplate O R config call = some block) (htip : call.node.storage.bestHeader = .ok tip) :
    block.header.parentHash = tip.hash O := by
  unfold ownTemplate at h
  cases hentry : rpcBlockTemplate O R config call with
  | error e =>
    rw [hentry] at h
    cases h
  | ok entry =>
    rw [hentry] at h
    obtain rfl := Option.some.inj h
    exact rpcBlockTemplate_parent hentry htip

/-- Every poll finds the tip of the poll before it, or a higher tip and a template. -/
def Rising (O : Oracle) (R : Revm) (config : NodeConfig) :
    U64 → Option Hash256 → List TemplateCall → Prop
  | _, _, [] => True
  | height, previous, call :: polls => ∃ tip, call.node.storage.bestHeader = .ok tip ∧
      (height.toNat < tip.number.toNat ∧ (ownTemplate O R config call).isSome = true ∨
        height = tip.number ∧ previous = some (tip.hash O)) ∧
      Rising O R config tip.number (some (tip.hash O)) polls

theorem websocketMiningResult_rising
    {subscription : MiningSubscription} {job : Option MiningJob} {previous : Option Hash256}
    (htip : call.node.storage.bestHeader = .ok tip)
    (hjob : previous.isSome → job.map MiningJob.parent = previous)
    (h : subscription.lastBlock.toNat < tip.number.toNat ∧
        (ownTemplate O R config call).isSome = true ∨
      subscription.lastBlock = tip.number ∧ previous = some (tip.hash O)) :
    ∃ jobs subscription', websocketMiningResult call.node false (ownTemplate O R config call)
        subscription = .ok (jobs, subscription') ∧ subscription'.lastBlock = tip.number ∧
      ((jobs.getLast?).or job).map MiningJob.parent = some (tip.hash O) := by
  simp only [websocketMiningResult, htip, ok_bind]
  rcases h with ⟨hlt, htemplate⟩ | ⟨hsame, hprevious⟩
  · obtain ⟨block, hblock⟩ := Option.isSome_iff_exists.mp htemplate
    have hne : tip.number ≠ subscription.lastBlock := fun heq =>
      hlt.ne (congrArg BitVec.toNat heq.symm)
    rw [if_neg hlt.not_gt, if_neg fun hsame => hne hsame.1, hblock]
    refine ⟨[⟨tip.number, block⟩], _, rfl, rfl, ?_⟩
    exact congrArg some (ownTemplate_parent hblock htip)
  · rw [hsame, if_neg (lt_irrefl _), if_pos ⟨rfl, trivial⟩]
    refine ⟨[], subscription, rfl, hsame, ?_⟩
    exact (hjob (by rw [hprevious]; rfl)).trans hprevious

theorem minePolls_rising {polls : List TemplateCall} (subscription : MiningSubscription)
    (job : Option MiningJob) {previous : Option Hash256}
    (hjob : previous.isSome → job.map MiningJob.parent = previous)
    (h : Rising O R config subscription.lastBlock previous polls) :
    ∃ subscription' job', minePolls O R config (subscription, job) polls =
      .ok (subscription', job') ∧ ∀ call tip, polls.getLast? = some call →
        call.node.storage.bestHeader = .ok tip →
        job'.map MiningJob.parent = some (tip.hash O) := by
  induction polls generalizing subscription job previous with
  | nil => exact ⟨subscription, job, rfl, by simp⟩
  | cons call polls ih =>
    obtain ⟨tip, htip, hstep, hrest⟩ := h
    obtain ⟨jobs, subscription₁, hpoll, hlast, hjob₁⟩ := websocketMiningResult_rising htip hjob hstep
    obtain ⟨subscription', job', hrun, hfinal⟩ :=
      ih subscription₁ ((jobs.getLast?).or job) (fun _ => hjob₁) (hlast ▸ hrest)
    refine ⟨subscription', job', ?_, ?_⟩
    · rw [minePolls, List.foldlM_cons]
      simp only [hpoll, ok_bind]
      exact hrun
    · intro last tip' hm htip'
      cases polls with
      | nil =>
        obtain rfl : call = last := by simpa using hm
        obtain rfl := Except.ok.inj (htip.symm.trans htip')
        obtain ⟨-, rfl⟩ := Prod.mk.inj (Except.ok.inj hrun)
        exact hjob₁
      | cons next polls => exact hfinal last tip' (by simpa using hm) htip'

/-- **A miner works on the tip** after every poll of a run in which each poll finds the tip of the
one before it, or a higher tip and a template for it. -/
theorem mining_job_on_tip (O : Oracle) (R : Revm) (config : NodeConfig) (start : Node)
    (tip₀ : BlockHeader) (hstart : start.storage.bestHeader = .ok tip₀) (polls : List TemplateCall)
    (h : Rising O R config (saturatingSub tip₀.number 1) none polls) :
    ∃ subscription subscription' job, newMiningSubscription start = .ok subscription ∧
      minePolls O R config (subscription, none) polls = .ok (subscription', job) ∧
      ∀ call tip, polls.getLast? = some call → call.node.storage.bestHeader = .ok tip →
        job.map MiningJob.parent = some (tip.hash O) := by
  have hnew : newMiningSubscription start = .ok { lastBlock := saturatingSub tip₀.number 1 } := by
    rw [newMiningSubscription, hstart, ok_bind]
    rfl
  obtain ⟨subscription', job, hrun, hfinal⟩ :=
    minePolls_rising { lastBlock := saturatingSub tip₀.number 1 } none (by simp) h
  exact ⟨_, subscription', job, hnew, hrun, hfinal⟩

def firstCall (n : Node) : TemplateCall := { node := n }

theorem rising_rivalNode : Rising nonceOracle noContracts plainConfig
    (saturatingSub rivalBlock.header.number 1) none [firstCall rivalNode, firstCall rivalNode] :=
  ⟨rivalBlock.header, by decide +kernel, .inl (by decide +kernel),
    rivalBlock.header, by decide +kernel, .inr ⟨rfl, rfl⟩, trivial⟩

theorem mining_job_on_tip_rivalNode : ∃ subscription subscription' job,
    newMiningSubscription rivalNode = .ok subscription ∧
    minePolls nonceOracle noContracts plainConfig (subscription, none)
      [firstCall rivalNode, firstCall rivalNode] = .ok (subscription', job) ∧
    ∀ call tip, [firstCall rivalNode, firstCall rivalNode].getLast? = some call →
      call.node.storage.bestHeader = .ok tip →
      job.map MiningJob.parent = some (tip.hash nonceOracle) :=
  mining_job_on_tip nonceOracle noContracts plainConfig rivalNode rivalBlock.header
    (by decide +kernel) _ rising_rivalNode

/-- **A tip replaced at its height is not announced**: the first block takes the place of its rival
between two polls, and the miner stays on the rival. -/
theorem replaced_tip_is_not_announced :
    Reachable nonceOracle noContracts plainConfig rivalNode ∧
    (rivalNode.deliver nonceOracle noContracts plainConfig snapshotHost
      firstBlock).storage.bestHeader = .ok firstBlock.header ∧
    rivalBlock.header.hash nonceOracle ≠ firstBlock.header.hash nonceOracle ∧
    ((newMiningSubscription rivalNode).bind fun subscription =>
      (minePolls nonceOracle noContracts plainConfig (subscription, none) [firstCall rivalNode,
        firstCall (rivalNode.deliver nonceOracle noContracts plainConfig snapshotHost firstBlock)]).map
          fun state => state.2.map MiningJob.parent) =
      .ok (some (rivalBlock.header.hash nonceOracle)) := by
  refine ⟨.deliver _ _ _ startNode_reachable, ?_⟩
  decide +kernel

end Blq
