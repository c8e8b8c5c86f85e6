import Blq.Proof.FilterRuns

/-!
# What a filter of pending transactions reports

Such a filter keeps the height of the tip, as the others do, and no record of what it has reported. A
poll that finds a higher tip reports the whole pool and any other poll reports nothing.

* `PendingPoll`: what a poll finds: the height of the tip and the pending transactions.
* `newBlockPolls`: the polls that find a tip above that of every poll before.
* `pending_reports_once_iff`: **each pending transaction is reported, and once**, exactly if the pools
  of those polls have nothing in common and every other poll finds nothing new.
-/

namespace Blq

open Word Result FilterNode

/-- The tip and the pool at the time of a poll. -/
structure PendingPoll where
  height : U64
  pending : List Hash256
deriving DecidableEq

def pendingHashes (O : Oracle) (mempool : Mempool) : List Hash256 :=
  mempool.transactions.map fun transaction => transaction.rpcHash O

/-- The request asks for a new filter. -/
def FilterEvent.installs : FilterEvent → Bool
  | .newBlockFilter _ | .newFilter _ _ | .newPendingFilter _ => true
  | _ => false

namespace FilterNode

variable (O : Oracle) (peers : BodyPeers)

/-- What a poll of the filter finds, unless the filter has gone or the tip cannot be read. -/
def observe (filterId : U64) (n : FilterNode) : FilterEvent → Option PendingPoll
  | .getFilterChanges now parsed =>
    match filterIdFromParams parsed, currentBlockNumber n.rows with
    | .ok id, .ok latest =>
      if id = filterId ∧ ((n.table.pruneExpired now).filters[filterId]?).isSome then
        some ⟨latest, pendingHashes O n.mempool⟩
      else none
    | _, _ => none
  | _ => none

def observed (filterId : U64) (n : FilterNode) : List FilterEvent → List PendingPoll
  | [] => []
  | event :: rest => (n.observe O filterId event).toList ++ observed filterId (n.step O peers event) rest

/-- After every poll of the run what is pending has been reported, and nothing has been twice. -/
def ReportsOnce (filterId : U64) (n : FilterNode) : List FilterEvent → Prop
  | [] => True
  | event :: rest =>
    (∀ poll, n.observe O filterId event = some poll →
      (∀ hash ∈ poll.pending, hashText hash ∈ (n.step O peers event).sent (.filter filterId)) ∧
        ((n.step O peers event).sent (.filter filterId)).Nodup) ∧
    ReportsOnce filterId (n.step O peers event) rest

/-- The filter, if it is still there, is at a height, and has reported some hashes. -/
structure PendingAt (n : FilterNode) (filterId last : U64) (reported : List Hash256) : Prop where
  filter : ∀ filter, n.table.filters[filterId]? = some filter →
    filter.kind = .pendingTransactions ∧ filter.lastBlock = last
  sent : n.sent (.filter filterId) = reported.map hashText

end FilterNode

/-! ## Polls -/

/-- The tip is above a height, as the filter compares them. -/
def PendingPoll.above (last : U64) (poll : PendingPoll) : Bool :=
  decide ((saturatingAdd last 1).toNat ≤ poll.height.toNat)

/-- The polls that find a tip above that of every poll before. -/
def newBlockPolls (last : U64) : List PendingPoll → List PendingPoll
  | [] => []
  | poll :: rest =>
    if poll.above last then poll :: newBlockPolls poll.height rest else newBlockPolls last rest

/-- **The condition**: the pools of the polls that find a new block have nothing in common, also with
what was reported before, and what is pending at a poll was so at one that found a new block. -/
@[mk_iff]
structure OnceAtNewBlocks (last : U64) (reported : List Hash256) (polls : List PendingPoll) : Prop where
  once : (reported ++ (newBlockPolls last polls).flatMap PendingPoll.pending).Nodup
  all : ∀ earlier poll, earlier ++ [poll] <+: polls → ∀ hash ∈ poll.pending,
    hash ∈ reported ++ (newBlockPolls last (earlier ++ [poll])).flatMap PendingPoll.pending

variable {last : U64} {reported : List Hash256} {poll : PendingPoll} {polls : List PendingPoll}

theorem OnceAtNewBlocks.nodup (h : OnceAtNewBlocks last reported polls) : reported.Nodup :=
  List.Nodup.of_append_left h.once

theorem onceAtNewBlocks_nil : OnceAtNewBlocks last reported [] ↔ reported.Nodup := by
  refine ⟨fun h => h.nodup, fun h => ⟨?_, fun earlier poll hprefix => ?_⟩⟩
  · show (reported ++ []).Nodup
    rwa [List.append_nil]
  · exact absurd (List.prefix_nil.mp hprefix) (by simp)

theorem forall_prefix_cons {P : List PendingPoll → PendingPoll → Prop} :
    (∀ earlier poll', earlier ++ [poll'] <+: poll :: polls → P earlier poll') ↔
      P [] poll ∧ ∀ earlier poll', earlier ++ [poll'] <+: polls → P (poll :: earlier) poll' := by
  constructor
  · intro h
    refine ⟨h [] poll ?_, fun earlier poll' hprefix => h (poll :: earlier) poll' ?_⟩
    · exact List.prefix_append [poll] polls
    · exact List.cons_prefix_cons.mpr ⟨rfl, hprefix⟩
  · rintro ⟨hnil, hcons⟩ earlier poll' hprefix
    cases earlier with
    | nil =>
      obtain ⟨rfl, -⟩ := List.cons_prefix_cons.mp hprefix
      exact hnil
    | cons first earlier =>
      obtain ⟨rfl, hrest⟩ := List.cons_prefix_cons.mp hprefix
      exact hcons earlier poll' hrest

theorem onceAtNewBlocks_above (habove : poll.above last = true) :
    OnceAtNewBlocks last reported (poll :: polls) ↔
      OnceAtNewBlocks poll.height (reported ++ poll.pending) polls := by
  have hpolls : ∀ rest, reported ++ (newBlockPolls last (poll :: rest)).flatMap PendingPoll.pending =
      (reported ++ poll.pending) ++ (newBlockPolls poll.height rest).flatMap PendingPoll.pending := by
    intro rest
    show reported ++ (if poll.above last then _ else _ : List PendingPoll).flatMap _ = _
    rw [if_pos habove, List.flatMap_cons, List.append_assoc]
  simp only [onceAtNewBlocks_iff, forall_prefix_cons, List.nil_append, List.cons_append, hpolls]
  constructor
  · rintro ⟨honce, -, hall⟩
    exact ⟨honce, hall⟩
  · rintro ⟨honce, hall⟩
    exact ⟨honce, fun hash hhash => List.mem_append_left _ (List.mem_append_right _ hhash), hall⟩

theorem onceAtNewBlocks_not_above (habove : poll.above last = false) :
    OnceAtNewBlocks last reported (poll :: polls) ↔
      (∀ hash ∈ poll.pending, hash ∈ reported) ∧ OnceAtNewBlocks last reported polls := by
  have hpolls : ∀ rest, newBlockPolls last (poll :: rest) = newBlockPolls last rest := by
    intro rest
    show (if poll.above last then _ else _ : List PendingPoll) = _
    rw [habove, if_neg Bool.false_ne_true]
  simp only [onceAtNewBlocks_iff, forall_prefix_cons, List.nil_append, List.cons_append, hpolls]
  rw [newBlockPolls, List.flatMap_nil, List.append_nil]
  exact and_left_comm

theorem hashText_injective : Function.Injective hashText := by
  intro hash hash' h
  have htext := congrArg String.toList (JsonValue.str.inj h)
  rw [String.toList_append, String.toList_append] at htext
  exact Rows.toHex_inj (List.append_cancel_left htext)

/-! ## One event -/

namespace FilterNode

variable {O : Oracle} {peers : BodyPeers} {n n' : FilterNode} {filterId now : U64} {parsed : JsonValue}
  {event : FilterEvent}

theorem PendingAt.of_sameFilters (h : n.PendingAt filterId last reported)
    (hsame : n.table.SameFilters n'.table) (hsent : n'.sent (.filter filterId) = n.sent (.filter filterId)) :
    n'.PendingAt filterId last reported := by
  refine ⟨fun filter' hfilter' => ?_, hsent.trans h.sent⟩
  obtain ⟨filter, hfilter, hkind, hlast⟩ := hsame filterId filter' hfilter'
  rw [hkind, hlast]
  exact h.filter filter hfilter

theorem observe_poll (hid : filterIdFromParams parsed = .ok filterId) :
    n.observe O filterId (.getFilterChanges now parsed) = match Blq.currentBlockNumber n.rows with
      | .ok latest => if ((n.table.pruneExpired now).filters[filterId]?).isSome then
          some ⟨latest, pendingHashes O n.mempool⟩ else none
      | .error _ => none := by
  unfold observe
  dsimp only
  rw [hid]
  cases Blq.currentBlockNumber n.rows <;> simp

theorem observe_other (hid : filterIdFromParams parsed ≠ .ok filterId) :
    n.observe O filterId (.getFilterChanges now parsed) = none := by
  unfold observe
  dsimp only
  split
  next id latest hother _ =>
    refine if_neg ?_
    rintro ⟨rfl, -⟩
    exact hid hother
  next => rfl

theorem PendingAt.observe_eq (h : n.PendingAt filterId last reported)
    (hid : filterIdFromParams parsed = .ok filterId) {latest : U64}
    (hlatest : Blq.currentBlockNumber n.rows = .ok latest) :
    n.observe O filterId (.getFilterChanges now parsed) =
      (answerOf (rpcGetFilterChanges O peers n.rows n.mempool now parsed n.table)).map fun _ =>
        ⟨latest, pendingHashes O n.mempool⟩ := by
  rw [observe_poll hid, hlatest, answerOf_getFilterChanges hid hlatest]
  cases hlive : (n.table.pruneExpired now).filters[filterId]? with
  | none => rfl
  | some filter =>
    have hkind := (h.filter filter (RpcFilters.getElem?_pruneExpired hlive)).1
    show some _ = _
    rw [Option.bind_some, hkind]
    split_ifs <;> rfl

theorem PendingAt.observe_refused (h : n.PendingAt filterId last reported)
    (hid : filterIdFromParams parsed = .ok filterId) {e : RpcError} {table' : RpcFilters}
    (herror : rpcGetFilterChanges O peers n.rows n.mempool now parsed n.table = .error e table') :
    n.observe O filterId (.getFilterChanges now parsed) = none := by
  cases hlatest : Blq.currentBlockNumber n.rows with
  | error e => rw [observe_poll hid, hlatest]
  | ok latest =>
    rw [h.observe_eq hid hlatest, herror]
    rfl

theorem PendingAt.observe_answered (h : n.PendingAt filterId last reported)
    (hid : filterIdFromParams parsed = .ok filterId) {answer : JsonValue}
    {table' : RpcFilters} {latest : U64} (hlatest : Blq.currentBlockNumber n.rows = .ok latest)
    (hanswer : rpcGetFilterChanges O peers n.rows n.mempool now parsed n.table = .ok answer table') :
    n.observe O filterId (.getFilterChanges now parsed) =
      some ⟨latest, pendingHashes O n.mempool⟩ := by
  rw [h.observe_eq hid hlatest, hanswer]
  rfl

/-- The height and the reports of the filter after a poll that finds something or not. -/
def absorb (last : U64) (reported : List Hash256) : Option PendingPoll → U64 × List Hash256
  | some poll =>
    if poll.above last then (poll.height, reported ++ poll.pending) else (last, reported)
  | none => (last, reported)

theorem absorb_above (habove : poll.above last = true) :
    absorb last reported (some poll) = (poll.height, reported ++ poll.pending) := if_pos habove

theorem absorb_not_above (habove : poll.above last = false) :
    absorb last reported (some poll) = (last, reported) := if_neg (by rw [habove]; exact Bool.false_ne_true)

/-- **A poll of the filter.** -/
theorem PendingAt.getFilterChanges (h : n.PendingAt filterId last reported)
    (hid : filterIdFromParams parsed = .ok filterId) :
    (n.step O peers (.getFilterChanges now parsed)).PendingAt filterId
      (absorb last reported (n.observe O filterId (.getFilterChanges now parsed))).1
      (absorb last reported (n.observe O filterId (.getFilterChanges now parsed))).2 := by
  rw [step_getFilterChanges hid]
  have hcases : ChangesOutcome O peers n.rows n.mempool n.table filterId
    (rpcGetFilterChanges O peers n.rows n.mempool now parsed n.table) := changes_cases hid
  generalize houtcome : rpcGetFilterChanges O peers n.rows n.mempool now parsed n.table = outcome
    at hcases ⊢
  cases hcases with
  | refused e table' hsame _ =>
    rw [h.observe_refused hid houtcome]
    exact h.of_sameFilters hsame rfl
  | nothing latest filter table' hsame hlatest hentry hnothing =>
    obtain ⟨stored, hstored, -, hlast⟩ := hsame filterId filter hentry
    rw [hlast, (h.filter stored hstored).2] at hnothing
    rw [h.observe_answered hid hlatest houtcome,
      absorb_not_above (decide_eq_false (Nat.not_le.mpr hnothing))]
    refine h.of_sameFilters hsame ?_
    show Function.update n.sent _ (n.sent _ ++ []) _ = _
    rw [List.append_nil, Function.update_self]
  | reported latest filter answer table' hlatest hfilter hfirst hanswer hpolled hothers =>
    obtain ⟨hkind, hlast⟩ := h.filter filter hfilter
    rw [hlast] at hfirst
    rw [hkind] at hanswer
    obtain rfl := Except.ok.inj hanswer
    rw [h.observe_answered hid hlatest houtcome, absorb_above (decide_eq_true hfirst)]
    refine ⟨fun filter' hfilter' => ?_, ?_⟩
    · obtain ⟨hkind', hlast'⟩ := hpolled filter' hfilter'
      exact ⟨hkind'.trans hkind, hlast'⟩
    · show Function.update n.sent _ (n.sent _ ++ n.mempool.transactions.map _) _ = _
      rw [Function.update_self, h.sent]
      show _ = (reported ++ pendingHashes O n.mempool).map hashText
      rw [List.map_append]
      unfold pendingHashes
      rw [List.map_map]
      rfl

theorem PendingAt.otherChanges (h : n.PendingAt filterId last reported) {other : U64}
    (hid : filterIdFromParams parsed = .ok other) (hother : other ≠ filterId) :
    (n.step O peers (.getFilterChanges now parsed)).PendingAt filterId last reported := by
  have hsent : ∀ items, (n.send (.filter other) items).sent (.filter filterId) =
      n.sent (.filter filterId) := sent_send_other (by simpa using Ne.symm hother)
  rw [step_getFilterChanges hid]
  have hcases : ChangesOutcome O peers n.rows n.mempool n.table other
    (rpcGetFilterChanges O peers n.rows n.mempool now parsed n.table) := changes_cases hid
  generalize rpcGetFilterChanges O peers n.rows n.mempool now parsed n.table = outcome at hcases ⊢
  cases hcases with
  | refused e table' hsame _ => exact h.of_sameFilters hsame rfl
  | nothing latest filter table' hsame _ _ _ => exact h.of_sameFilters hsame (hsent _)
  | reported latest filter answer table' _ _ _ _ _ hothers =>
    refine ⟨fun filter' hfilter' => ?_, (hsent _).trans h.sent⟩
    obtain ⟨stored, hstored, hkind, hlast⟩ := hothers filterId filter' (Ne.symm hother) hfilter'
    rw [hkind, hlast]
    exact h.filter stored hstored

/-- **One event**: only a poll of the filter changes what it has reported. -/
theorem PendingAt.step (h : n.PendingAt filterId last reported) (hevent : event.installs = false) :
    (n.step O peers event).PendingAt filterId (absorb last reported (n.observe O filterId event)).1
      (absorb last reported (n.observe O filterId event)).2 := by
  cases event with
  | chain c => exact h.of_sameFilters (.refl _) rfl
  | pool mempool => exact h.of_sameFilters (.refl _) rfl
  | newBlockFilter now => exact absurd hevent (by simp [FilterEvent.installs])
  | newFilter now parsed => exact absurd hevent (by simp [FilterEvent.installs])
  | newPendingFilter now => exact absurd hevent (by simp [FilterEvent.installs])
  | getFilterChanges now parsed =>
    by_cases hid : filterIdFromParams parsed = .ok filterId
    · exact h.getFilterChanges hid
    rw [observe_other hid]
    cases hparsed : filterIdFromParams parsed with
    | error e =>
      rw [step_getFilterChanges_error hparsed]
      exact h
    | ok other => exact h.otherChanges hparsed fun heq => hid (heq ▸ hparsed)
  | getFilterLogs now parsed => exact h.of_sameFilters sameFilters_getFilterLogs rfl
  | uninstallFilter now parsed => exact h.of_sameFilters sameFilters_uninstallFilter rfl
  | subscribe id kind filter =>
    unfold FilterNode.step
    dsimp only
    cases newSubscription n.rows kind filter with
    | error e => exact h
    | ok subscription =>
      have hsent : (n.start (.socket id)).sent (.filter filterId) = n.sent (.filter filterId) :=
        sent_start_other (by simp)
      exact h.of_sameFilters (.refl _) hsent
  | notify id =>
    unfold FilterNode.step
    dsimp only
    cases n.sockets[id]? with
    | none => exact h
    | some subscription =>
      dsimp only
      cases websocketSubscriptionResult O peers n.rows n.mempool subscription with
      | error e => exact h.of_sameFilters (.refl _) rfl
      | ok result =>
        have hsent : (n.send (.socket id) result.1).sent (.filter filterId) = n.sent (.filter filterId) :=
          sent_send_other (by simp) result.1
        exact h.of_sameFilters (.refl _) hsent
  | unsubscribe id => exact h.of_sameFilters (.refl _) rfl

/-! ## Every run -/

variable {events : List FilterEvent}

theorem observed_cons_none (hnone : n.observe O filterId event = none) :
    n.observed O peers filterId (event :: events) =
      (n.step O peers event).observed O peers filterId events := by
  show (n.observe O filterId event).toList ++ _ = _
  rw [hnone]
  rfl

theorem observed_cons_some (hsome : n.observe O filterId event = some poll) :
    n.observed O peers filterId (event :: events) =
      poll :: (n.step O peers event).observed O peers filterId events := by
  show (n.observe O filterId event).toList ++ _ = _
  rw [hsome]
  rfl

theorem PendingAt.reported_iff (h : n.PendingAt filterId last reported) :
    ((∀ hash ∈ poll.pending, hashText hash ∈ n.sent (.filter filterId)) ∧
      (n.sent (.filter filterId)).Nodup) ↔
      (∀ hash ∈ poll.pending, hash ∈ reported) ∧ reported.Nodup := by
  rw [h.sent, List.nodup_map_iff hashText_injective]
  simp only [List.mem_map_of_injective hashText_injective]

/-- **Every run**, from any height and any reports. -/
theorem PendingAt.reportsOnce_iff (h : n.PendingAt filterId last reported)
    (hevents : ∀ event ∈ events, event.installs = false) (hnodup : reported.Nodup) :
    n.ReportsOnce O peers filterId events ↔
      OnceAtNewBlocks last reported (n.observed O peers filterId events) := by
  induction events generalizing n last reported with
  | nil => exact ⟨fun _ => onceAtNewBlocks_nil.mpr hnodup, fun _ => trivial⟩
  | cons event events ih =>
    obtain ⟨hevent, hrest⟩ := List.forall_mem_cons.mp hevents
    have hnext : (n.step O peers event).PendingAt filterId
      (absorb last reported (n.observe O filterId event)).1
      (absorb last reported (n.observe O filterId event)).2 := h.step hevent
    cases hobserve : n.observe O filterId event with
    | none =>
      rw [hobserve] at hnext
      have hsame : (n.step O peers event).PendingAt filterId last reported := hnext
      rw [observed_cons_none hobserve, ← ih hsame hrest hnodup]
      exact ⟨fun hrun => hrun.2,
        fun hrun => ⟨fun poll hpoll => absurd (hobserve.symm.trans hpoll) (by simp), hrun⟩⟩
    | some poll =>
      rw [hobserve] at hnext
      -- the run goes on from what the poll has reported
      have hsplit : n.ReportsOnce O peers filterId (event :: events) ↔
          ((∀ hash ∈ poll.pending, hash ∈ (absorb last reported (some poll)).2) ∧
            (absorb last reported (some poll)).2.Nodup) ∧
          (n.step O peers event).ReportsOnce O peers filterId events := by
        rw [← hnext.reported_iff]
        constructor
        · rintro ⟨hpoll, hrun⟩
          exact ⟨hpoll poll hobserve, hrun⟩
        · rintro ⟨hpoll, hrun⟩
          refine ⟨fun poll' hpoll' => ?_, hrun⟩
          obtain rfl := Option.some.inj (hobserve.symm.trans hpoll')
          exact hpoll
      rw [hsplit, observed_cons_some hobserve]
      cases habove : poll.above last with
      | true =>
        rw [absorb_above habove] at hnext ⊢
        rw [onceAtNewBlocks_above habove]
        constructor
        · rintro ⟨⟨-, hnodup'⟩, hrun⟩
          exact (ih hnext hrest hnodup').mp hrun
        · intro honce
          exact ⟨⟨fun hash hhash => List.mem_append_right _ hhash, honce.nodup⟩,
            (ih hnext hrest honce.nodup).mpr honce⟩
      | false =>
        rw [absorb_not_above habove] at hnext ⊢
        rw [onceAtNewBlocks_not_above habove, ← ih hnext hrest hnodup]
        exact ⟨fun hrun => ⟨hrun.1.1, hrun.2⟩, fun hrun => ⟨⟨hrun.1, hnodup⟩, hrun.2⟩⟩

end FilterNode

/-- **A filter of pending transactions reports each of them once exactly if** the pools found by the
polls that come with a new block have nothing in common and every other poll finds only what one of
them has found. -/
theorem pending_reports_once_iff {O : Oracle} {peers : BodyPeers} {n : FilterNode}
    {filterId start accessed : U64}
    (hfilter : n.table.filters[filterId]? = some ⟨.pendingTransactions, start, accessed⟩)
    (hsent : n.sent (.filter filterId) = []) {events : List FilterEvent}
    (hevents : ∀ event ∈ events, event.installs = false) :
    n.ReportsOnce O peers filterId events ↔
      OnceAtNewBlocks start [] (n.observed O peers filterId events) := by
  have hstart : n.PendingAt filterId start [] := by
    refine ⟨fun filter hentry => ?_, hsent⟩
    obtain rfl := Option.some.inj (hfilter.symm.trans hentry)
    exact ⟨rfl, rfl⟩
  exact hstart.reportsOnce_iff hevents List.nodup_nil

def pendingNode : FilterNode :=
  FilterNode.step nonceOracle noPeers { rows := genesisRows } (.newPendingFilter 0)

def waitingPool : Mempool := { transactions := [Rows.relayedTransaction] }

def pendingRun : List FilterEvent :=
  [.pool waitingPool, .chain (.extend (Rows.relayBlock 0 1 1)), pollFirst, pollFirst]

theorem filter_pendingNode :
    pendingNode.table.filters[(1 : U64)]? = some ⟨.pendingTransactions, 0, 0⟩ := by
  have hentry : (pendingNode.table.filters[(1 : U64)]?).map (fun filter =>
      (filter.kind matches .pendingTransactions, filter.lastBlock, filter.lastAccessedAt)) =
      some (true, 0, 0) := by decide +kernel
  obtain ⟨⟨kind, last, accessed⟩, hfilter, heq⟩ := Option.map_eq_some_iff.mp hentry
  obtain ⟨hkind, hrest⟩ := Prod.mk.inj heq
  obtain ⟨rfl, rfl⟩ := Prod.mk.inj hrest
  cases kind with
  | pendingTransactions => exact hfilter
  | blocks => exact absurd hkind Bool.false_ne_true
  | logs filter => exact absurd hkind Bool.false_ne_true

theorem sent_pendingNode : pendingNode.sent (.filter 1) = [] := by
  rfl

theorem pending_reports_once_iff_pendingRun :
    (∀ event ∈ pendingRun, event.installs = false) ∧
      pendingNode.ReportsOnce nonceOracle noPeers 1 pendingRun := by
  have hevents : ∀ event ∈ pendingRun, event.installs = false := by decide
  refine ⟨hevents, (pending_reports_once_iff filter_pendingNode sent_pendingNode hevents).mpr ?_⟩
  have hpolls : pendingNode.observed nonceOracle noPeers 1 pendingRun = [⟨1, [99]⟩, ⟨1, [99]⟩] := by
    decide +kernel
  rw [hpolls, onceAtNewBlocks_above (by decide), onceAtNewBlocks_not_above (by decide),
    onceAtNewBlocks_nil]
  exact ⟨fun hash hhash => hhash, by simp⟩

/-- **A pending transaction is not reported before a block arrives, and again after each**: a poll
reports the whole pool if there is a new block and nothing if there is not. -/
theorem pending_missed_and_repeated :
    ¬pendingNode.ReportsOnce nonceOracle noPeers 1 [.pool waitingPool, pollFirst] ∧
      ¬pendingNode.ReportsOnce nonceOracle noPeers 1
        [.pool waitingPool, .chain (.extend (Rows.relayBlock 0 1 1)), pollFirst,
          .chain (.extend (emptyBlock 1 2 0 3)), pollFirst] := by
  have hstart : pendingNode.PendingAt 1 0 [] :=
    ⟨fun filter hentry => by
      obtain rfl := Option.some.inj (filter_pendingNode.symm.trans hentry)
      exact ⟨rfl, rfl⟩, sent_pendingNode⟩
  constructor
  · rw [hstart.reportsOnce_iff (by decide) List.nodup_nil]
    have hpolls : pendingNode.observed nonceOracle noPeers 1 [.pool waitingPool, pollFirst] =
        [⟨0, [99]⟩] := by decide +kernel
    rw [hpolls, onceAtNewBlocks_not_above (by decide)]
    exact fun h => absurd (h.1 99 (by decide)) (by decide)
  · rw [hstart.reportsOnce_iff (by decide) List.nodup_nil]
    have hpolls : pendingNode.observed nonceOracle noPeers 1
        [.pool waitingPool, .chain (.extend (Rows.relayBlock 0 1 1)), pollFirst,
          .chain (.extend (emptyBlock 1 2 0 3)), pollFirst] = [⟨1, [99]⟩, ⟨2, [99]⟩] := by
      decide +kernel
    rw [hpolls, onceAtNewBlocks_above (by decide), onceAtNewBlocks_above (by decide),
      onceAtNewBlocks_nil]
    decide

end Blq
