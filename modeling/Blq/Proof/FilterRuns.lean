import Blq.Proof.Deliveries

/-!
# Runs of the filters

The node under changes of the chain and requests of its clients.

* `Sound`: every subscriber has been served up to its height, which is not above the tip.
* `Polled`: **what a poll does.** One lemma for filters and one for subscriptions.
* `polls_deliver`: **after a poll everything on the chain has been delivered, once**, in every run in
  which no change reaches down to a height that has been reported and no log query is refused.
* `reorganized_block_is_not_delivered`: a filter keeps only a height, and blocks that are replaced at
  or below it are never reported.
-/

namespace Blq

open Word Result

variable {O : Oracle} {peers : BodyPeers} {rows rows' : Rows} {started last latest : U64}
  {sent : List JsonValue} {w : Watch}

namespace FilterNode

section

variable (O : Oracle) (n : FilterNode)

/-- A poll of the subscriber that is not refused: its logs are asked for without a block hash and over
a range whose bodies are here. -/
def Pollable (k : Subscriber) : Prop :=
  ∀ w last, n.Watches O k w last → last.toNat + 1 < 2 ^ 64 ∧
    ∀ latest, currentBlockNumber n.rows = .ok latest → last.toNat < latest.toNat →
      LogsReadable n.rows (saturatingAdd last 1) latest w

/-- The condition on an event: **no block is replaced at or below a height that a subscriber has been
served up to**, and no poll is refused. -/
def Harmless : FilterEvent → Prop
  | .chain c => ∀ k w last, n.Watches O k w last → c.Above last.toNat
  | .getFilterChanges _ parsed => ∀ filterId, filterIdFromParams parsed = .ok filterId →
      n.Pollable O (.filter filterId)
  | .notify subscriptionId => n.Pollable O (.socket subscriptionId)
  | _ => True

/-- A subscriber that has been served up to a height. -/
structure Served (k : Subscriber) (w : Watch) (last : U64) : Prop where
  started : (n.started k).toNat ≤ last.toNat
  tip : ∃ best, n.rows.getBestNumber = .ok best ∧ last.toNat ≤ best.toNat
  delivered : DeliveredUpTo O n.rows (n.started k) last (n.sent k) w

structure Sound : Prop where
  store : Rows.Store O n.rows
  tip : ∃ tip, n.rows.bestHeader = .ok tip
  served : ∀ k w last, n.Watches O k w last → n.Served O k w last

end

variable {n n' : FilterNode} {k : Subscriber}

theorem Served.congr (h : n.Served O k w last) (hrows : n'.rows = n.rows)
    (hstarted : n'.started k = n.started k) (hsent : n'.sent k = n.sent k) : n'.Served O k w last where
  started := by rw [hstarted]; exact h.started
  tip := by rw [hrows]; exact h.tip
  delivered := by rw [hrows, hstarted, hsent]; exact h.delivered

theorem Sound.currentBlockNumber (h : n.Sound O) : ∃ latest,
    Blq.currentBlockNumber n.rows = .ok latest ∧ n.rows.getBestNumber = .ok latest := by
  obtain ⟨tip, htip⟩ := h.tip
  refine ⟨tip.number, ?_, (Rows.bestHeader_eq_ok h.store.sound.index htip).1⟩
  unfold Blq.currentBlockNumber
  rw [htip]
  rfl

/-- A subscriber whose entry is an old one watches as before. -/
theorem Watches.of_entries (h : n'.Watches O k w last)
    (hfilters : ∀ filterId filter', k = .filter filterId → n'.table.filters[filterId]? = some filter' →
      ∃ filter : RpcFilter, n.table.filters[filterId]? = some filter ∧ filter'.kind = filter.kind ∧
        filter'.lastBlock = filter.lastBlock)
    (hsockets : ∀ (id : U64) (subscription : WsSubscription), k = .socket id →
      n'.sockets[id]? = some subscription → n.sockets[id]? = some subscription) :
    n.Watches O k w last := by
  cases h with
  | filter filterId filter' w hfilter' hwatch =>
    obtain ⟨filter, hfilter, hkind, hlast⟩ := hfilters filterId filter' rfl hfilter'
    rw [hlast]
    exact .filter filterId filter w hfilter (hkind ▸ hwatch)
  | socket id subscription w hsubscription hwatch =>
    exact .socket id subscription w (hsockets id subscription rfl hsubscription) hwatch

theorem Watches.of_sameFilters (h : n'.Watches O k w last) (hsockets : n'.sockets = n.sockets)
    (hsame : n.table.SameFilters n'.table) : n.Watches O k w last :=
  h.of_entries (fun filterId filter' _ => hsame filterId filter') fun _ _ _ h => hsockets ▸ h

theorem Sound.of_sameFilters (h : n.Sound O) {table' : RpcFilters}
    (hsame : n.table.SameFilters table') : ({ n with table := table' } : FilterNode).Sound O where
  store := h.store
  tip := h.tip
  served k w last hwatch := (h.served k w last (hwatch.of_sameFilters rfl hsame)).congr rfl rfl rfl

theorem Sound.of_others (h : n.Sound O) (hrows : n'.rows = n.rows)
    (hothers : ∀ k' w last, k' ≠ k → n'.Watches O k' w last →
      n.Watches O k' w last ∧ n'.started k' = n.started k' ∧ n'.sent k' = n.sent k')
    (hserved : ∀ w last, n'.Watches O k w last → n'.Served O k w last) : n'.Sound O where
  store := by rw [hrows]; exact h.store
  tip := by rw [hrows]; exact h.tip
  served k' w last hwatch := by
    by_cases hk : k' = k
    · subst hk
      exact hserved w last hwatch
    · obtain ⟨hold, hstarted, hsent⟩ := hothers k' w last hk hwatch
      exact (h.served k' w last hold).congr hrows hstarted hsent

theorem Sound.chain (h : n.Sound O) {c : Rows.RowChange} (hharmless : n.Harmless O (.chain c)) :
    (n.step O peers (.chain c)).Sound O := by
  have hchanged := Rows.changed_change O n.rows c
  obtain ⟨tip, htip⟩ := h.tip
  refine ⟨h.store.change hchanged, Rows.bestHeader_change hchanged htip, fun k w last hwatch => ?_⟩
  have hwatch' : n.Watches O k w last := hwatch.of_sameFilters rfl (.refl _)
  have hserved := h.served k w last hwatch'
  obtain ⟨best, hbest, hle⟩ := hserved.tip
  obtain ⟨hkept, hbest'⟩ := Rows.kept_change h.store hchanged hbest hle (hharmless k w last hwatch')
  exact ⟨hserved.started, hbest', hserved.delivered.keep hkept⟩

theorem Sound.joined (h : n.Sound O) (hlatest : Blq.currentBlockNumber n.rows = .ok latest)
    (hrows : n'.rows = n.rows) (hstarted : n'.started = (n.start k).started)
    (hsent : n'.sent = (n.start k).sent)
    (hothers : ∀ k' w last, k' ≠ k → n'.Watches O k' w last → n.Watches O k' w last)
    (hnew : ∀ w last, n'.Watches O k w last → last = latest) : n'.Sound O := by
  obtain ⟨latest', hlatest', hbest⟩ := h.currentBlockNumber
  obtain rfl := Except.ok.inj (hlatest.symm.trans hlatest')
  refine h.of_others hrows (fun k' w last hk hwatch => ⟨hothers k' w last hk hwatch, ?_, ?_⟩)
    fun w last hwatch => ?_
  · rw [hstarted]
    exact Function.update_of_ne hk ..
  · rw [hsent]
    exact Function.update_of_ne hk ..
  · obtain rfl := hnew w last hwatch
    have hstart : n'.started k = last := by
      rw [hstarted, start, hlatest]
      exact Function.update_self ..
    have hnone : n'.sent k = [] := by
      rw [hsent]
      exact Function.update_self ..
    refine ⟨by rw [hstart], ⟨last, by rw [hrows]; exact hbest, le_rfl⟩, ?_⟩
    rw [hstart, hnone]
    exact .start O n'.rows last w

theorem Sound.install (h : n.Sound O) {kind : RpcFilterKind}
    {outcome : EStateM.Result RpcError RpcFilters JsonValue}
    (houtcome : InstallOutcome n.rows n.table kind outcome) : (n.install outcome).Sound O := by
  cases houtcome with
  | refused e table' hsame => exact h.of_sameFilters hsame
  | installed latest now table' hlatest hentry hothers =>
    refine h.joined (k := .filter n.table.nextId) hlatest rfl rfl rfl (fun k' w last hk hwatch => ?_)
      fun w last hwatch => ?_
    · refine hwatch.of_entries (fun filterId filter' hid hfilter => ?_) fun _ _ _ h => h
      exact ⟨filter', hothers filterId filter' (fun heq => hk (heq ▸ hid)) hfilter, rfl, rfl⟩
    · cases hwatch with
      | filter _ filter w hfilter hkind =>
        obtain rfl : filter = ⟨kind, latest, now⟩ := Option.some.inj (hfilter.symm.trans hentry)
        rfl

theorem Sound.subscribe (h : n.Sound O) (subscriptionId : U64) (kind : WsKind)
    (filter : Option JsonValue) : (n.step O peers (.subscribe subscriptionId kind filter)).Sound O := by
  obtain ⟨latest, hlatest, -⟩ := h.currentBlockNumber
  have hstep : n.step O peers (.subscribe subscriptionId kind filter) =
      { n.start (.socket subscriptionId) with
        sockets := n.sockets.insert subscriptionId
          { kind := kind, filter := filter, lastBlock := latest } } := by
    unfold step newSubscription
    rw [hlatest]
    rfl
  rw [hstep]
  refine h.joined (k := .socket subscriptionId) hlatest rfl rfl rfl (fun k' w last hk hwatch => ?_)
    fun w last hwatch => ?_
  · refine hwatch.of_entries (fun _ filter' _ h => ⟨filter', h, rfl, rfl⟩) fun id subscription hid h => ?_
    change (n.sockets.insert subscriptionId _)[id]? = _ at h
    rwa [Map.getElem?_insert_eq, if_neg fun (heq : subscriptionId = id) => hk (heq ▸ hid)] at h
  · cases hwatch with
    | socket _ subscription w hsubscription hkind =>
      change (n.sockets.insert subscriptionId _)[subscriptionId]? = _ at hsubscription
      rw [Map.getElem?_insert_eq, if_pos rfl] at hsubscription
      obtain rfl := Option.some.inj hsubscription
      rfl

theorem Sound.unsubscribe (h : n.Sound O) (subscriptionId : U64) :
    ({ n with sockets := n.sockets.erase subscriptionId } : FilterNode).Sound O := by
  refine ⟨h.store, h.tip, fun k w last hwatch => (h.served k w last ?_).congr rfl rfl rfl⟩
  exact hwatch.of_entries (fun _ filter' _ h => ⟨filter', h, rfl, rfl⟩) fun id subscription _ =>
    Map.forall_erase (fun _ _ h => h) id subscription

/-! ## Polls -/

/-- What a poll does: what the subscriber asks for is sent up to the tip, where its height moves; the
others keep theirs. -/
structure Polled (O : Oracle) (n : FilterNode) (k : Subscriber) (items : List JsonValue)
    (n' : FilterNode) : Prop where
  rows : n'.rows = n.rows
  started : n'.started = n.started
  sent : n'.sent = (n.send k items).sent
  others : ∀ k' w last, k' ≠ k → n'.Watches O k' w last → n.Watches O k' w last
  polled : ∀ w last', n'.Watches O k w last' → Blq.currentBlockNumber n.rows = .ok last' ∧
    ∃ last, n.Watches O k w last ∧ last.toNat ≤ last'.toNat ∧ last.toNat + 1 < 2 ^ 64 ∧
      BodiesStored n.rows last last' w ∧ items = reportsBetween O n.rows (saturatingAdd last 1) last' w

theorem Sound.polled {items : List JsonValue} (h : n.Sound O) (hpolled : Polled O n k items n') :
    n'.Sound O := by
  refine h.of_others hpolled.rows (fun k' w last hk hwatch => ⟨hpolled.others k' w last hk hwatch,
    by rw [hpolled.started], ?_⟩) fun w last' hwatch => ?_
  · rw [hpolled.sent]
    exact Function.update_of_ne hk ..
  · obtain ⟨hlatest, last, hold, hle, hroom, hbodies, rfl⟩ := hpolled.polled w last' hwatch
    have hserved := h.served k w last hold
    obtain ⟨latest, hlatest', hbest⟩ := h.currentBlockNumber
    obtain rfl := Except.ok.inj (hlatest.symm.trans hlatest')
    refine ⟨?_, ⟨last', by rw [hpolled.rows]; exact hbest, le_rfl⟩, ?_⟩
    · rw [hpolled.started]
      exact hserved.started.trans hle
    · rw [hpolled.rows, hpolled.started, hpolled.sent]
      show DeliveredUpTo O n.rows (n.started k) last' (Function.update n.sent k (n.sent k ++ _) k) w
      rw [Function.update_self]
      exact hserved.delivered.advance h.store.sound.index hserved.started hroom hle hbodies

theorem send_nil (n : FilterNode) (k : Subscriber) : n.send k [] = n := by
  unfold send
  rw [List.append_nil, Function.update_eq_self]

theorem reportsBetween_nothing (hroom : last.toNat + 1 < 2 ^ 64) :
    reportsBetween O rows (saturatingAdd last 1) last w = [] := by
  have hheights : SledStorage.heights (saturatingAdd last 1) last = [] := by
    have hfirst : (saturatingAdd last 1).toNat = last.toNat + 1 := by
      rw [toNat_saturatingAdd_one]
      omega
    unfold SledStorage.heights
    rw [hfirst, Nat.sub_self]
    rfl
  cases w with
  | headers report =>
    show (headersBetween rows _ _).map report = []
    unfold headersBetween
    rw [hheights]
    rfl
  | logs filter =>
    show (blocksBetween rows _ _).flatMap _ = []
    unfold blocksBetween
    rw [hheights]
    rfl

theorem Sound.at_tip (h : n.Sound O) (hwatch : n.Watches O k w last)
    (hlatest : Blq.currentBlockNumber n.rows = .ok latest) (hroom : last.toNat + 1 < 2 ^ 64)
    (hnothing : latest.toNat < (saturatingAdd last 1).toNat) : latest = last := by
  obtain ⟨best, hbest, hle⟩ := (h.served k w last hwatch).tip
  obtain ⟨latest', hlatest', hbest'⟩ := h.currentBlockNumber
  obtain rfl := Except.ok.inj (hlatest.symm.trans hlatest')
  obtain rfl := Except.ok.inj (hbest.symm.trans hbest')
  rw [toNat_saturatingAdd_one] at hnothing
  exact BitVec.eq_of_toNat_eq (by omega)

variable {parsed : JsonValue}

theorem step_getFilterChanges {filterId now : U64} (hid : filterIdFromParams parsed = .ok filterId) :
    n.step O peers (.getFilterChanges now parsed) =
      match rpcGetFilterChanges O peers n.rows n.mempool now parsed n.table with
      | .ok answer table => { n.send (.filter filterId) (answer.asArray?.getD []) with table := table }
      | .error _ table => { n with table := table } := by
  unfold step
  dsimp only
  rw [hid]
  cases rpcGetFilterChanges O peers n.rows n.mempool now parsed n.table <;> rfl

theorem step_getFilterChanges_error {now : U64} {e : String}
    (hid : filterIdFromParams parsed = .error e) :
    n.step O peers (.getFilterChanges now parsed) = n := by
  unfold step
  dsimp only
  rw [hid, changes_of_error hid]

/-- **A poll of a filter.** -/
theorem Sound.polled_filter (h : n.Sound O) {filterId now : U64}
    (hid : filterIdFromParams parsed = .ok filterId) (hpollable : n.Pollable O (.filter filterId)) :
    ∃ items, Polled O n (.filter filterId) items (n.step O peers (.getFilterChanges now parsed)) := by
  obtain ⟨tip, htip⟩ := h.tip
  rw [step_getFilterChanges hid]
  have hcases : ChangesOutcome O peers n.rows n.mempool n.table filterId
    (rpcGetFilterChanges O peers n.rows n.mempool now parsed n.table) := changes_cases hid
  generalize rpcGetFilterChanges O peers n.rows n.mempool now parsed n.table = outcome at hcases ⊢
  cases hcases with
  | refused e table' hsame hrefused =>
    refine ⟨[], rfl, rfl, by rw [send_nil], fun k' w last _ hwatch => hwatch.of_sameFilters rfl hsame,
      fun w last' hwatch => ?_⟩
    -- a filter that could be polled is not refused
    obtain ⟨latest, hlatest, -⟩ := h.currentBlockNumber
    obtain ⟨hroom, hreadable⟩ := hpollable w last' (hwatch.of_sameFilters rfl hsame)
    cases hwatch with
    | filter _ filter w hfilter hkind =>
      obtain ⟨hfirst, text, hfail⟩ := hrefused latest filter hlatest hfilter
      have habove : filter.lastBlock.toNat < latest.toNat := by
        rw [toNat_saturatingAdd_one] at hfirst
        omega
      rw [filterChanges_watch h.store.sound.index htip hkind (hreadable latest hlatest habove)] at hfail
      exact absurd hfail (by simp)
  | nothing latest filter table' hsame hlatest hentry hnothing =>
    show ∃ items, Polled O n _ items { n.send (.filter filterId) [] with table := table' }
    rw [send_nil]
    refine ⟨[], rfl, rfl, by rw [send_nil], fun k' w last _ hwatch => hwatch.of_sameFilters rfl hsame,
      fun w last' hwatch => ?_⟩
    have hold : n.Watches O (.filter filterId) w last' := hwatch.of_sameFilters rfl hsame
    have hroom := (hpollable w last' hold).1
    obtain rfl : latest = last' := by
      cases hwatch with
      | filter _ filter' w hfilter' hkind =>
        obtain rfl := Option.some.inj (hentry.symm.trans hfilter')
        exact h.at_tip hold hlatest hroom hnothing
    exact ⟨hlatest, latest, hold, le_rfl, hroom, bodiesStored_nothing, (reportsBetween_nothing hroom).symm⟩
  | reported latest filter answer table' hlatest hfilter hfirst hanswer hpolled hothers =>
    refine ⟨answer.asArray?.getD [], rfl, rfl, rfl, fun k' w last hk hwatch => ?_,
      fun w last' hwatch => ?_⟩
    · exact hwatch.of_entries (fun other filter' hid => hothers other filter' fun heq => hk (heq ▸ hid))
        fun _ _ _ h => h
    · cases hwatch with
      | filter _ filter' w hfilter' hkind =>
        obtain ⟨hsamekind, hlast⟩ := hpolled filter' hfilter'
        rw [hsamekind] at hkind
        have hold : n.Watches O (.filter filterId) w filter.lastBlock :=
          .filter filterId filter w hfilter hkind
        obtain ⟨hroom, hreadable⟩ := hpollable w filter.lastBlock hold
        have habove : filter.lastBlock.toNat < latest.toNat := by
          rw [toNat_saturatingAdd_one] at hfirst
          omega
        rw [filterChanges_watch h.store.sound.index htip hkind (hreadable latest hlatest habove)]
          at hanswer
        obtain rfl := Except.ok.inj hanswer
        rw [hlast]
        exact ⟨hlatest, filter.lastBlock, hold, habove.le, hroom, (hreadable latest hlatest habove).bodies,
          rfl⟩

theorem watch?_of_result {subscription subscription' : WsSubscription} {items : List JsonValue}
    {mempool : Mempool} (hresult : websocketSubscriptionResult O peers rows mempool subscription =
      .ok (items, subscription')) : subscription'.watch? O = subscription.watch? O := by
  unfold websocketSubscriptionResult at hresult
  obtain ⟨latest, -, hresult⟩ := bind_eq_ok.mp hresult
  dsimp only at hresult
  split at hresult
  · split_ifs at hresult <;> (obtain ⟨-, rfl⟩ := Prod.mk.inj (pure_eq_ok.mp hresult); rfl)
  · obtain ⟨-, rfl⟩ := Prod.mk.inj (pure_eq_ok.mp hresult)
    rfl
  · split_ifs at hresult
    · obtain ⟨-, rfl⟩ := Prod.mk.inj (pure_eq_ok.mp hresult)
      rfl
    · obtain ⟨logs, -, hresult⟩ := bind_eq_ok.mp hresult
      obtain ⟨-, rfl⟩ := Prod.mk.inj (pure_eq_ok.mp hresult)
      rfl

/-- **A poll of a subscription.** -/
theorem Sound.polled_socket (h : n.Sound O) {id : U64} (hpollable : n.Pollable O (.socket id)) :
    ∃ items, Polled O n (.socket id) items (n.step O peers (.notify id)) := by
  obtain ⟨tip, htip⟩ := h.tip
  obtain ⟨latest, hlatest, -⟩ := h.currentBlockNumber
  unfold step
  dsimp only
  cases hentry : n.sockets[id]? with
  | none =>
    refine ⟨[], rfl, rfl, by rw [send_nil], fun _ _ _ _ hwatch => hwatch, fun w last' hwatch => ?_⟩
    cases hwatch with
    | socket _ subscription w hsubscription hkind => exact absurd (hentry.symm.trans hsubscription) (by simp)
  | some subscription =>
    dsimp only
    cases hresult : websocketSubscriptionResult O peers n.rows n.mempool subscription with
    | error e =>
      -- the connection is closed and nobody watches
      refine ⟨[], rfl, rfl, by rw [send_nil], fun k' w last hk hwatch => ?_, fun w last' hwatch => ?_⟩
      · refine hwatch.of_entries (fun _ filter' _ h => ⟨filter', h, rfl, rfl⟩) fun other _ hother h => ?_
        change (n.sockets.erase id)[other]? = _ at h
        rwa [Map.getElem?_erase_eq, if_neg fun (heq : id = other) => hk (heq ▸ hother)] at h
      · cases hwatch with
        | socket _ subscription w hsubscription hkind =>
          have herase : (n.sockets.erase id)[id]? = some subscription := hsubscription
          rw [Map.getElem?_erase_eq, if_pos rfl] at herase
          exact absurd herase (by simp)
    | ok result =>
      obtain ⟨items, subscription'⟩ := result
      refine ⟨items, rfl, rfl, rfl, fun k' w last hk hwatch => ?_, fun w last' hwatch => ?_⟩
      · refine hwatch.of_entries (fun _ filter' _ h => ⟨filter', h, rfl, rfl⟩) fun other _ hother h => ?_
        change (n.sockets.insert id subscription')[other]? = _ at h
        rwa [Map.getElem?_insert_eq, if_neg fun (heq : id = other) => hk (heq ▸ hother)] at h
      · cases hwatch with
        | socket _ stored w hsubscription hkind =>
          have hinsert : (n.sockets.insert id subscription')[id]? = some stored := hsubscription
          rw [Map.getElem?_insert_eq, if_pos rfl] at hinsert
          obtain rfl := Option.some.inj hinsert
          rw [watch?_of_result hresult] at hkind
          have hold : n.Watches O (.socket id) w subscription.lastBlock :=
            .socket id subscription w hentry hkind
          obtain ⟨hroom, hreadable⟩ := hpollable w subscription.lastBlock hold
          have habove : (saturatingAdd subscription.lastBlock 1).toNat ≤ latest.toNat →
              subscription.lastBlock.toNat < latest.toNat := by
            rw [toNat_saturatingAdd_one]
            omega
          rw [websocketSubscriptionResult_watch h.store.sound.index htip hlatest hkind
            fun hfirst => hreadable latest hlatest (habove hfirst)] at hresult
          split_ifs at hresult with hnothing
          · obtain ⟨rfl, rfl⟩ := Prod.mk.inj (Except.ok.inj hresult)
            have htip := h.at_tip hold hlatest hroom hnothing
            exact ⟨htip ▸ hlatest, subscription.lastBlock, hold, le_rfl, hroom, bodiesStored_nothing,
              (reportsBetween_nothing hroom).symm⟩
          · obtain ⟨rfl, rfl⟩ := Prod.mk.inj (Except.ok.inj hresult)
            have hless := habove (Nat.not_lt.mp hnothing)
            exact ⟨hlatest, subscription.lastBlock, hold, hless.le, hroom,
              (hreadable latest hlatest hless).bodies, rfl⟩

/-! ## Every run -/

/-- A run from a node without subscribers in which every event is harmless. -/
inductive Undisturbed (O : Oracle) (peers : BodyPeers) : FilterNode → Prop
  | start (rows : Rows) (tip : BlockHeader) : Rows.Store O rows → rows.bestHeader = .ok tip →
      Undisturbed O peers { rows := rows }
  | step (n : FilterNode) (event : FilterEvent) : Undisturbed O peers n → n.Harmless O event →
      Undisturbed O peers (n.step O peers event)

theorem Sound.step (h : n.Sound O) {event : FilterEvent} (hharmless : n.Harmless O event) :
    (n.step O peers event).Sound O := by
  cases event with
  | chain c => exact h.chain hharmless
  | pool mempool =>
    refine ⟨h.store, h.tip, fun k w last hwatch => ?_⟩
    exact (h.served k w last (hwatch.of_sameFilters rfl (.refl _))).congr rfl rfl rfl
  | newBlockFilter now => exact h.install (install_cases n.rows n.table now .blocks)
  | newFilter now parsed => exact h.install (install_cases n.rows n.table now (.logs _))
  | newPendingFilter now => exact h.install (install_cases n.rows n.table now .pendingTransactions)
  | getFilterChanges now parsed =>
    cases hid : filterIdFromParams parsed with
    | ok filterId =>
      obtain ⟨items, hpolled⟩ := h.polled_filter hid (hharmless filterId hid)
      exact h.polled hpolled
    | error e =>
      rw [step_getFilterChanges_error hid]
      exact h
  | getFilterLogs now parsed => exact h.of_sameFilters sameFilters_getFilterLogs
  | uninstallFilter now parsed => exact h.of_sameFilters sameFilters_uninstallFilter
  | subscribe id kind filter => exact h.subscribe id kind filter
  | notify id =>
    obtain ⟨items, hpolled⟩ := h.polled_socket hharmless
    exact h.polled hpolled
  | unsubscribe id => exact h.unsubscribe id

theorem Undisturbed.sound (h : Undisturbed O peers n) : n.Sound O := by
  induction h with
  | start rows tip hstore htip =>
    refine ⟨hstore, ⟨tip, htip⟩, fun k w last hwatch => ?_⟩
    cases hwatch with
    | filter filterId filter w hfilter _ => exact absurd hfilter (by simp)
    | socket id subscription w hsubscription _ => exact absurd hsubscription (by simp)
  | step n event _ hharmless ih => exact ih.step hharmless

/-- What was sent are the reports of the canonical blocks above the start, each once and in order. -/
def DeliversChain (O : Oracle) (n : FilterNode) (k : Subscriber) : Watch → Prop
  | .headers report => ∃ headers : List BlockHeader, n.sent k = headers.map report ∧
      headers.Pairwise (fun earlier later => earlier.number.toNat < later.number.toNat) ∧
      ∀ (number : U64) (header : BlockHeader), (n.started k).toNat < number.toNat →
        n.rows.headerByNumber number = .ok header → header ∈ headers
  | .logs filter => ∃ blocks : List Block, n.sent k = blocks.flatMap (filteredLogs O filter) ∧
      blocks.Pairwise (fun earlier later => earlier.header.number.toNat < later.header.number.toNat) ∧
      (∀ (number : U64) (header : BlockHeader), (n.started k).toNat < number.toNat →
        n.rows.headerByNumber number = .ok header → ∃ block ∈ blocks, block.header = header) ∧
      ∀ (number : U64) (block : Block), (n.started k).toNat < number.toNat →
        n.rows.blockByNumber number = .ok block → block ∈ blocks

inductive Polls : FilterEvent → Subscriber → Prop
  | filter (now : U64) (parsed : JsonValue) (filterId : U64) : filterIdFromParams parsed = .ok filterId →
      Polls (.getFilterChanges now parsed) (.filter filterId)
  | socket (id : U64) : Polls (.notify id) (.socket id)

/-- **A subscriber that has been polled has been sent the chain.** -/
theorem Sound.delivers (h : n.Sound O) (hwatch : n.Watches O k w last)
    (hlatest : Blq.currentBlockNumber n.rows = .ok last) : n.DeliversChain O k w := by
  have hdelivered := (h.served k w last hwatch).delivered
  obtain ⟨latest, hlatest', hbest⟩ := h.currentBlockNumber
  obtain rfl := Except.ok.inj (hlatest.symm.trans hlatest')
  -- no header and no body lies above the tip
  have hheader : ∀ (number : U64) (header : BlockHeader),
      n.rows.headerByNumber number = .ok header → number.toNat ≤ last.toNat := by
    intro number header hread
    obtain ⟨best, hbest', hle⟩ := h.store.sound.below number header (Rows.headerByNumber_eq_ok.mp hread)
    obtain rfl := Except.ok.inj (hbest.symm.trans hbest')
    exact hle
  cases w with
  | headers report =>
    obtain ⟨headers, hsent, hcovers⟩ := hdelivered
    refine ⟨headers, hsent, hcovers.ascending, fun number header hstart hread => ?_⟩
    exact hcovers.complete number.toNat header hstart (hheader number header hread)
      (headerAt_eq_some.mpr ⟨number, rfl, hread⟩)
  | logs filter =>
    obtain ⟨blocks, hsent, hcovers, hheaders⟩ := hdelivered
    refine ⟨blocks, hsent, hcovers.ascending, fun number header hstart hread => ?_,
      fun number block hstart hread => ?_⟩
    · exact hheaders number header hstart (hheader number header hread) hread
    · have hle := h.store.sound.body_le (Rows.blockByNumber_eq_ok.mp hread) hbest
      exact hcovers.complete number.toNat block hstart hle (blockAt_eq_some.mpr ⟨number, rfl, hread⟩)

end FilterNode

open FilterNode

/-- **After a poll the chain has been delivered**: what a block filter, a log filter or a subscription
has been sent are the reports of every canonical block above the height it started at, each once, in
every run in which no block is replaced at or below a height that was served and no poll is refused. -/
theorem polls_deliver {n : FilterNode} (h : Undisturbed O peers n) {event : FilterEvent}
    (hharmless : n.Harmless O event) {k : Subscriber} (hpolls : Polls event k) {w : Watch} {last : U64}
    (hwatch : (n.step O peers event).Watches O k w last) :
    (n.step O peers event).DeliversChain O k w := by
  obtain ⟨items, hpolled⟩ : ∃ items, Polled O n k items (n.step O peers event) := by
    cases hpolls with
    | filter now parsed filterId hid => exact h.sound.polled_filter hid (hharmless filterId hid)
    | socket id => exact h.sound.polled_socket hharmless
  have hlatest := (hpolled.polled w last hwatch).1
  rw [← hpolled.rows] at hlatest
  exact (h.sound.polled hpolled).delivers hwatch hlatest

/-! ## A replaced block -/

def genesisRows : Rows :=
  (Rows.insertBlock nonceOracle ∅ (emptyBlock 0 0 0 0)).toOption.getD ∅

theorem store_genesisRows : Rows.Store nonceOracle genesisRows := by
  obtain ⟨rows, hinsert⟩ : ∃ rows, Rows.insertBlock nonceOracle ∅ (emptyBlock 0 0 0 0) = .ok rows :=
    exists_ok_of_isOk (by decide +kernel)
  unfold genesisRows
  rw [hinsert]
  refine .insert (emptyBlock 0 0 0 0) .empty (fun best hbest => ?_) hinsert
  unfold Rows.getBestNumber at hbest
  simp [throw_ne_ok] at hbest

def pollFirst : FilterEvent := .getFilterChanges 0 firstFilterId

def followedNode : FilterNode :=
  (FilterNode.step nonceOracle noPeers { rows := genesisRows } (.newBlockFilter 0)).step nonceOracle
    noPeers (.chain (.extend (Rows.relayBlock 0 1 1)))

def reorganizedNode : FilterNode :=
  (((followedNode.step nonceOracle noPeers pollFirst).step nonceOracle noPeers
    (.chain (.publish (some Rows.relayManifest) (emptyBlock 0 0 0 0).header Rows.relaySuffix ∅ ∅ (0, 0, 0)
      Rows.relayManifest))).step nonceOracle noPeers pollFirst)

def blockWatch : Watch := .headers fun header => hashText (header.hash nonceOracle)

def BlockFilterAt (n : FilterNode) (last : U64) : Prop :=
  (n.table.filters[(1 : U64)]?).map (fun filter => (filter.kind matches .blocks, filter.lastBlock)) =
    some (true, last)

instance (n : FilterNode) (last : U64) : Decidable (BlockFilterAt n last) :=
  inferInstanceAs (Decidable (Option.map _ _ = _))

theorem BlockFilterAt.watches_iff {n : FilterNode} {last last' : U64} {w : Watch}
    (h : BlockFilterAt n last) :
    n.Watches nonceOracle (.filter 1) w last' ↔ w = blockWatch ∧ last' = last := by
  obtain ⟨filter, hfilter, hentry⟩ := Option.map_eq_some_iff.mp h
  obtain ⟨hblocks, rfl⟩ := Prod.mk.inj hentry
  have hkind : filter.kind = .blocks := by
    split at hblocks
    next hcase => exact hcase
    next => exact absurd hblocks Bool.false_ne_true
  constructor
  · intro hwatch
    cases hwatch with
    | filter _ filter' w hfilter' hwatch =>
      obtain rfl := Option.some.inj (hfilter.symm.trans hfilter')
      rw [hkind] at hwatch
      exact ⟨(Option.some.inj hwatch).symm, rfl⟩
  · rintro ⟨rfl, rfl⟩
    exact .filter 1 filter blockWatch hfilter (by rw [hkind]; rfl)

theorem undisturbed_followedNode : Undisturbed nonceOracle noPeers followedNode := by
  obtain ⟨tip, htip⟩ : ∃ tip, genesisRows.bestHeader = .ok tip :=
    exists_ok_of_isOk (by decide +kernel)
  exact .step _ _ (.step _ _ (.start genesisRows tip store_genesisRows htip) trivial)
    fun _ _ _ _ => trivial

theorem polls_deliver_followedNode :
    Undisturbed nonceOracle noPeers followedNode ∧ followedNode.Harmless nonceOracle pollFirst ∧
      (followedNode.step nonceOracle noPeers pollFirst).DeliversChain nonceOracle (.filter 1)
        blockWatch := by
  have hbefore : BlockFilterAt followedNode 0 := by decide +kernel
  have hafter : BlockFilterAt (followedNode.step nonceOracle noPeers pollFirst) 1 := by decide +kernel
  have hharmless : followedNode.Harmless nonceOracle pollFirst := by
    intro filterId hid w last hwatch
    obtain rfl := Except.ok.inj (filterId_firstFilterId.symm.trans hid)
    obtain ⟨rfl, rfl⟩ := hbefore.watches_iff.mp hwatch
    exact ⟨by decide, fun latest _ _ filter hlogs => absurd hlogs (by simp [blockWatch])⟩
  exact ⟨undisturbed_followedNode, hharmless, polls_deliver undisturbed_followedNode hharmless
    (.filter 0 _ 1 filterId_firstFilterId) (hafter.watches_iff.mpr ⟨rfl, rfl⟩)⟩

/-- **A block that replaces one already reported is not delivered**: the filter has reported another
block at its height and goes on above it. -/
theorem reorganized_block_is_not_delivered :
    reorganizedNode.Watches nonceOracle (.filter 1) blockWatch 2 ∧
      ¬reorganizedNode.DeliversChain nonceOracle (.filter 1) blockWatch := by
  have hrun : BlockFilterAt reorganizedNode 2 ∧
      ((reorganizedNode.rows.headerByNumber 1).toOption.map fun header =>
        header.hash nonceOracle) = some 2 ∧
      (reorganizedNode.started (.filter 1)).toNat < (1 : U64).toNat ∧
      (hashText 2).text? ∉ (reorganizedNode.sent (.filter 1)).map JsonValue.text? := by
    decide +kernel
  obtain ⟨hfilter, hread, hstart, hother⟩ := hrun
  refine ⟨hfilter.watches_iff.mpr ⟨rfl, rfl⟩, ?_⟩
  rintro ⟨headers, hsent, -, hcomplete⟩
  obtain ⟨header, hheader, hhash⟩ := Option.map_eq_some_iff.mp hread
  refine hother (List.mem_map_of_mem ?_)
  rw [hsent, ← hhash]
  exact List.mem_map_of_mem (hcomplete 1 header hstart (toOption_eq_some.mp hheader))

end Blq
