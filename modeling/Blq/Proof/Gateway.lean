import Blq.Monad.Basic
import Blq.Spec.Gateway

/-!
# What the public gateway reveals

Two nodes that differ only in the private part of their information answer alike through the gateway
if every answer with such information is reduced to its public part. The gateway finds those answers
by the identifier of a request for `blq_nodeInfo`; the node gives the same information to
`blq_health`.

* `sanitizeItem_result`, `sanitizeItem_error`: what becomes of an answer.
* `doPost_forwarded`: the reply to a request that is forwarded.
* `reply_eq_unavailable`: when there is no answer for the caller.
* `public_reply_iff`: **when two such nodes get the same reply.**
* `health_reveals_private`: the reply to `blq_health` is not one of those cases.
-/

namespace Blq.Gateway

open JsonValue Result

variable {P : Python} {L : JsonLibrary} {S : Settings} {slots : Slots} {fresh : Bool}
  {websocketEndpoint : String} {U U₁ U₂ : Upstream} {request : JsonValue} {id response : JsonValue}
  {place : ℕ}

/-! ## One answer -/

variable {ids : List HashKey} {key : HashKey}

theorem sanitizeItem_result {result : JsonValue} (hkey : id.hashKey? = some key) :
    sanitizeItem websocketEndpoint ids (rpcResult id result) =
      if ids.contains key then (publicNodeInfoPayload websocketEndpoint result).map (rpcResult id)
      else some (rpcResult id result) := by
  have hget : (rpcResult id result).get "id" = id := rfl
  unfold rpcResult at hget ⊢
  simp only [sanitizeItem, hget, hkey]
  show (if ids.contains key then _ else _) = _
  split
  · cases publicNodeInfoPayload websocketEndpoint result <;> rfl
  · rfl

theorem sanitizeItem_error {code : ℤ} {message : String} (hkey : id.hashKey? = some key) :
    sanitizeItem websocketEndpoint ids (rpcError id code message) =
      some (rpcError id code message) := by
  have hget : (rpcError id code message).get "id" = id := rfl
  unfold rpcError at hget ⊢
  simp only [sanitizeItem, hget, hkey]
  rfl

theorem sanitizeItem_unhashable {item : JsonValue} (hdict : item.isDict = true)
    (hkey : (item.get "id").hashKey? = none) : sanitizeItem websocketEndpoint ids item = none := by
  cases item with
  | obj members =>
    simp only [sanitizeItem, hkey]
    rfl
  | _ => exact absurd hdict Bool.false_ne_true

/-! ## Which answers differ -/

/-- The nodes differ at most in the private part of their information. -/
structure Agree (U₁ U₂ : Upstream) : Prop where
  publicReadOnly : U₁.publicReadOnly = U₂.publicReadOnly
  miningApiEnabled : U₁.miningApiEnabled = U₂.miningApiEnabled
  other : U₁.other = U₂.other
  fields : ∀ place, ∀ key ∈ publicNodeInfoFields,
    (JsonValue.obj (U₁.nodeInfo place)).get key = (JsonValue.obj (U₂.nodeInfo place)).get key

/-- The requests that get an answer, with their places. -/
def answered (request : JsonValue) : List (JsonValue × ℕ) :=
  request.asList.zipIdx.filter fun entry => !isJsonRpcNotification entry.1

/-- The identifier is that of a request for `blq_nodeInfo`. -/
def Covered (request id : JsonValue) : Prop :=
  ∃ item ∈ request.asList, requestsNodeInfo item = true ∧
    ∃ key, (item.get "id").hashKey? = some key ∧ id.hashKey? = some key

theorem handleJsonRpcMethod_nodeInfo (h : isNodeInfoMethod (method request) = true) :
    handleJsonRpcMethod U place request = .ok (.obj (U.nodeInfo place)) := by
  have hallowed : rpcMethodAllowedByPolicy U.publicReadOnly U.miningApiEnabled (method request) =
      true := by
    unfold isNodeInfoMethod at h
    rcases Bool.or_eq_true_iff.mp h with h | h
    · rw [eq_of_beq h]
      cases U.publicReadOnly <;> cases U.miningApiEnabled <;> rfl
    · rw [eq_of_beq h]
      cases U.publicReadOnly <;> cases U.miningApiEnabled <;> rfl
  unfold handleJsonRpcMethod
  rw [hallowed, h]
  rfl

theorem Agree.handleJsonRpcMethod (hagree : Agree U₁ U₂)
    (h : isNodeInfoMethod (method request) = false) :
    handleJsonRpcMethod U₁ place request = handleJsonRpcMethod U₂ place request := by
  unfold Gateway.handleJsonRpcMethod
  rw [hagree.publicReadOnly, hagree.miningApiEnabled, hagree.other, h]
  rfl

theorem Agree.payload (hagree : Agree U₁ U₂) (place : ℕ) :
    publicNodeInfoPayload websocketEndpoint (.obj (U₁.nodeInfo place)) =
      publicNodeInfoPayload websocketEndpoint (.obj (U₂.nodeInfo place)) := by
  have hfields : (publicNodeInfoFields.map fun key =>
      (key, (JsonValue.obj (U₁.nodeInfo place)).get key)) =
      publicNodeInfoFields.map fun key => (key, (JsonValue.obj (U₂.nodeInfo place)).get key) := by
    refine List.map_congr_left fun key hkey => ?_
    rw [hagree.fields place key hkey]
  unfold publicNodeInfoPayload
  rw [hfields]
  rfl

section Ids

variable {ids : List HashKey}

theorem nodeInfoIds_eq_none {requests : List JsonValue} : nodeInfoIds requests = none ↔
    ∃ item ∈ requests, requestsNodeInfo item = true ∧ (item.get "id").hashKey? = none := by
  unfold nodeInfoIds
  rw [mapM_eq_none_iff]
  simp only [List.mem_filter, and_assoc]

theorem covered_iff (hids : nodeInfoIds request.asList = some ids)
    (hkey : id.hashKey? = some key) : Covered request id ↔ ids.contains key = true := by
  unfold nodeInfoIds at hids
  rw [List.contains_iff_mem, mem_of_mapM_eq_some hids]
  simp only [List.mem_filter, and_assoc, Covered, hkey, Option.some.injEq]
  refine exists_congr fun item => and_congr_right fun _ => and_congr_right fun _ => ?_
  constructor
  · rintro ⟨_, hitem, rfl⟩
    exact hitem
  · intro hitem
    exact ⟨key, hitem, rfl⟩

/-- The answer to an entry of the batch, as the gateway passes it on. -/
def passedOn (L : JsonLibrary) (websocketEndpoint : String) (U : Upstream) (ids : List HashKey)
    (entry : JsonValue × ℕ) : Option JsonValue :=
  sanitizeItem websocketEndpoint ids (handleJsonRpcValue L U entry.2 entry.1)

theorem handleJsonRpcValue_id (L : JsonLibrary) (U : Upstream) (place : ℕ) (request : JsonValue) :
    (handleJsonRpcValue L U place request).isDict = true ∧
      (handleJsonRpcValue L U place request).get "id" = L.echo (request.get "id") := by
  unfold handleJsonRpcValue
  dsimp only
  split <;> exact ⟨rfl, rfl⟩

/-- **When an answer fails**: at an identifier without a hash, or because it is to be reduced and is
no dictionary. -/
theorem passedOn_eq_none (hids : nodeInfoIds request.asList = some ids) (entry : JsonValue × ℕ) :
    passedOn L websocketEndpoint U ids entry = none ↔
      (L.echo (entry.1.get "id")).hashKey? = none ∨
        ∃ result, handleJsonRpcMethod U entry.2 entry.1 = .ok result ∧ result.isDict = false ∧
          Covered request (L.echo (entry.1.get "id")) := by
  obtain ⟨hdict, hid⟩ := handleJsonRpcValue_id L U entry.2 entry.1
  unfold passedOn
  cases hkey : (L.echo (entry.1.get "id")).hashKey? with
  | none =>
    rw [sanitizeItem_unhashable hdict (by rw [hid]; exact hkey)]
    simp
  | some key =>
    rw [covered_iff hids hkey]
    unfold handleJsonRpcValue
    dsimp only
    split
    next result hresult =>
      rw [sanitizeItem_result hkey]
      cases hcontains : ids.contains key with
      | true =>
        cases hd : result.isDict <;> simp [publicNodeInfoPayload, hd, hresult]
      | false => simp
    next code message herror =>
      rw [sanitizeItem_error hkey]
      simp [herror]

/-- **When two nodes differ in an answer**: only where it is their information, not reduced. -/
theorem passedOn_eq (hagree : Agree U₁ U₂) (hids : nodeInfoIds request.asList = some ids)
    {entry : JsonValue × ℕ} (hkey : (L.echo (entry.1.get "id")).hashKey? = some key) :
    passedOn L websocketEndpoint U₁ ids entry = passedOn L websocketEndpoint U₂ ids entry ↔
      (isNodeInfoMethod (method entry.1) = true → Covered request (L.echo (entry.1.get "id")) ∨
        U₁.nodeInfo entry.2 = U₂.nodeInfo entry.2) := by
  unfold passedOn handleJsonRpcValue
  cases hinfo : isNodeInfoMethod (method entry.1) with
  | false =>
    rw [hagree.handleJsonRpcMethod hinfo]
    simp
  | true =>
    rw [handleJsonRpcMethod_nodeInfo hinfo, handleJsonRpcMethod_nodeInfo hinfo, covered_iff hids hkey]
    dsimp only
    rw [sanitizeItem_result hkey, sanitizeItem_result hkey]
    cases hcontains : ids.contains key with
    | true =>
      rw [hagree.payload entry.2]
      simp
    | false =>
      simp [rpcResult]

end Ids

/-! ## A whole request -/

/-- A forwarded request whose answer cannot be passed on: an identifier has no hash, or an answer that
is to be reduced is no dictionary. -/
def Unsanitizable (L : JsonLibrary) (U : Upstream) (request : JsonValue) : Prop :=
  (∃ item ∈ request.asList, requestsNodeInfo item = true ∧ (item.get "id").hashKey? = none) ∨
    L.readable request = true ∧
      ∃ entry ∈ answered request, (L.echo (entry.1.get "id")).hashKey? = none ∨
        ∃ result, handleJsonRpcMethod U entry.2 entry.1 = .ok result ∧ result.isDict = false ∧
          Covered request (L.echo (entry.1.get "id"))

/-- The answer of the node is longer than the gateway reads. -/
def TooLarge (L : JsonLibrary) (U : Upstream) (request : JsonValue) : Prop :=
  ∃ response, handleJsonRpcRequest L U request = some response ∧ maxBody < L.len response

/-- The caller gets no answer of the node. -/
def Fails (P : Python) (L : JsonLibrary) (S : Settings) (fresh : Bool) (U : Upstream)
    (request : JsonValue) : Prop :=
  verifiedUpstream P L S fresh U = false ∨ TooLarge L U request ∨ Unsanitizable L U request

/-- The answers of a request, as the gateway passes them on. -/
def sanitized (L : JsonLibrary) (websocketEndpoint : String) (U : Upstream) (request : JsonValue) :
    Option (List JsonValue) :=
  (nodeInfoIds request.asList).bind fun ids =>
    (answered request).mapM (passedOn L websocketEndpoint U ids)

theorem sanitized_eq_none (hreadable : L.readable request = true) :
    sanitized L websocketEndpoint U request = none ↔ Unsanitizable L U request := by
  unfold sanitized Unsanitizable
  rw [← nodeInfoIds_eq_none, and_iff_right hreadable]
  cases hids : nodeInfoIds request.asList with
  | none => simp
  | some ids =>
    rw [Option.bind_some, mapM_eq_none_iff]
    simp only [passedOn_eq_none hids, reduceCtorEq, false_or]

/-- **When two nodes differ in what is passed on**: only where an answer is their information, not
reduced. -/
theorem sanitized_eq (hagree : Agree U₁ U₂) {values₁ values₂ : List JsonValue}
    (h₁ : sanitized L websocketEndpoint U₁ request = some values₁)
    (h₂ : sanitized L websocketEndpoint U₂ request = some values₂) :
    sanitized L websocketEndpoint U₁ request = sanitized L websocketEndpoint U₂ request ↔
      ∀ entry ∈ answered request, isNodeInfoMethod (method entry.1) = true →
        Covered request (L.echo (entry.1.get "id")) ∨ U₁.nodeInfo entry.2 = U₂.nodeInfo entry.2 := by
  unfold sanitized at h₁ h₂ ⊢
  obtain ⟨ids, hids, hpassed₁⟩ := Option.bind_eq_some_iff.mp h₁
  rw [hids, Option.bind_some] at h₂ ⊢
  have hsome₁ := mt mapM_eq_none_iff.mpr (hpassed₁ ▸ Option.some_ne_none values₁)
  have hsome₂ := mt mapM_eq_none_iff.mpr (h₂ ▸ Option.some_ne_none values₂)
  push Not at hsome₁ hsome₂
  rw [Option.bind_some, mapM_eq_mapM_iff fun entry hentry =>
    iff_of_false (hsome₁ entry hentry) (hsome₂ entry hentry), or_iff_right (by simpa using hsome₁)]
  refine forall₂_congr fun entry hentry => ?_
  have hhash := hsome₁ entry hentry
  rw [ne_eq, passedOn_eq_none hids, not_or] at hhash
  obtain ⟨key, hkey⟩ := Option.ne_none_iff_exists'.mp hhash.1
  exact passedOn_eq hagree hids hkey

/-! ## The handler -/

theorem valid_of_forwarded (h : refuse slots request = none) :
    request.asList ≠ [] ∧ request.asList.length ≤ 20 ∧
      ∀ item ∈ request.asList, isValidJsonRpcEnvelope item = true := by
  unfold refuse at h
  dsimp only at h
  split at h
  next => exact absurd h (Option.some_ne_none _)
  next hsize =>
    rw [Bool.or_eq_true, decide_eq_true_iff, not_or, List.isEmpty_iff] at hsize
    split at h
    next => exact absurd h (Option.some_ne_none _)
    next hitems =>
      refine ⟨hsize.1, by omega, fun item hitem => ?_⟩
      have hrefused := List.findSome?_eq_none_iff.mp hitems item hitem
      unfold refuseItem at hrefused
      split at hrefused
      next => exact absurd hrefused (Option.some_ne_none _)
      next hvalid => exact Bool.not_not_eq.mp hvalid

theorem handleBatchItem_valid (h : isValidJsonRpcEnvelope request = true) :
    handleBatchItem L U place request =
      if isJsonRpcNotification request then none else some (handleJsonRpcValue L U place request) := by
  unfold handleBatchItem
  rw [h]
  rfl

theorem filterMap_handleBatchItem (entries : List (JsonValue × ℕ))
    (hentries : ∀ entry ∈ entries, isValidJsonRpcEnvelope entry.1 = true) :
    (entries.filterMap fun (request, place) => handleBatchItem L U place request) =
      (entries.filter fun entry => !isJsonRpcNotification entry.1).map fun entry =>
        handleJsonRpcValue L U entry.2 entry.1 := by
  rw [← List.filterMap_eq_map, ← List.filterMap_eq_filter, List.filterMap_filterMap]
  refine List.filterMap_congr fun entry hentry => ?_
  refine (handleBatchItem_valid (hentries entry hentry)).trans ?_
  cases hnotification : isJsonRpcNotification entry.1 <;> simp [Option.guard, hnotification]

theorem handleJsonRpcRequest_batch {requests : List JsonValue} (hne : requests ≠ [])
    (hlength : requests.length ≤ 20)
    (hvalid : ∀ item ∈ requests, isValidJsonRpcEnvelope item = true)
    (hreadable : L.readable (.arr requests) = true) :
    handleJsonRpcRequest L U (.arr requests) = some (.arr ((answered (.arr requests)).map fun entry =>
      handleJsonRpcValue L U entry.2 entry.1)) := by
  have hsize : (requests.isEmpty || decide (requests.length > maxRpcBatchRequests)) = false := by
    rw [Bool.or_eq_false_iff, decide_eq_false_iff_not, List.isEmpty_eq_false_iff]
    exact ⟨hne, Nat.not_lt.mpr hlength⟩
  have hplaces : ∀ entry ∈ requests.zipIdx, isValidJsonRpcEnvelope entry.1 = true := by
    intro entry hentry
    exact hvalid entry.1 (List.fst_mem_of_mem_zipIdx hentry)
  unfold handleJsonRpcRequest
  rw [hreadable]
  dsimp only [Bool.not_true, Bool.false_eq_true, if_false]
  rw [hsize, filterMap_handleBatchItem _ hplaces]
  rfl

/-- The values of a reply: the list of a batch, or the one value of a request. -/
def replyValue (request : JsonValue) (values : List JsonValue) : JsonValue :=
  match request with
  | .arr _ => .arr values
  | _ => values.headD .null

theorem sanitizePublicRpcResponse_dict (h : response.isDict = true) :
    sanitizePublicRpcResponse websocketEndpoint request response =
      (nodeInfoIds request.asList).bind fun ids => sanitizeItem websocketEndpoint ids response := by
  cases response with
  | obj members => rfl
  | _ => exact absurd h Bool.false_ne_true

/-- **What is passed on of the answer to a forwarded request.** -/
theorem sanitizePublicRpcResponse_forwarded (hforwarded : refuse slots request = none)
    (hreadable : L.readable request = true)
    (hresponse : handleJsonRpcRequest L U request = some response) :
    sanitizePublicRpcResponse websocketEndpoint request response =
      (sanitized L websocketEndpoint U request).map (replyValue request) := by
  obtain ⟨hne, hlength, hvalid⟩ := valid_of_forwarded hforwarded
  cases request with
  | arr requests =>
    have hbatch : handleJsonRpcRequest L U (.arr requests) = some (.arr ((answered
        (.arr requests)).map fun entry => handleJsonRpcValue L U entry.2 entry.1)) :=
      handleJsonRpcRequest_batch hne hlength hvalid hreadable
    obtain rfl := Option.some.inj (hresponse.symm.trans hbatch)
    unfold sanitizePublicRpcResponse sanitized
    cases nodeInfoIds (arr requests).asList with
    | none => rfl
    | some ids =>
      have hpassed : ((answered (.arr requests)).map fun entry =>
          handleJsonRpcValue L U entry.2 entry.1).mapM (sanitizeItem websocketEndpoint ids) =
          (answered (.arr requests)).mapM (passedOn L websocketEndpoint U ids) := List.mapM_map ..
      dsimp only [Option.bind_eq_bind, Option.bind_some]
      rw [hpassed]
      cases (answered (.arr requests)).mapM (passedOn L websocketEndpoint U ids) <;> rfl
  | obj members =>
    have hone := hvalid (.obj members) List.mem_cons_self
    have hsingle : handleJsonRpcRequest L U (.obj members) =
        if isJsonRpcNotification (.obj members) then none
        else some (handleJsonRpcValue L U 0 (.obj members)) := by
      unfold handleJsonRpcRequest
      rw [hreadable]
      dsimp only [Bool.not_true, Bool.false_eq_true, if_false]
      rw [hone]
      rfl
    rw [hsingle] at hresponse
    split at hresponse
    next => exact absurd hresponse.symm (Option.some_ne_none _)
    next hnotification =>
      obtain rfl := Option.some.inj hresponse
      have hanswered : answered (.obj members) = [(.obj members, 0)] := by
        show List.filter _ [(JsonValue.obj members, 0)] = _
        rw [List.filter_singleton, Bool.eq_false_of_not_eq_true hnotification]
        rfl
      rw [sanitizePublicRpcResponse_dict (handleJsonRpcValue_id L U 0 _).1]
      unfold sanitized
      rw [hanswered]
      cases nodeInfoIds (obj members).asList with
      | none => rfl
      | some ids =>
        rw [Option.bind_some, Option.bind_some, List.mapM_cons]
        unfold passedOn
        cases sanitizeItem websocketEndpoint ids (handleJsonRpcValue L U 0 (.obj members)) <;> rfl
  | _ => exact absurd (hvalid _ List.mem_cons_self) Bool.false_ne_true

theorem handleJsonRpcRequest_eq_none (h : handleJsonRpcRequest L U₁ request = none) :
    handleJsonRpcRequest L U₂ request = none ∧ answered request = [] ∧
      ∀ item ∈ request.asList, (item.get "id").hashKey? ≠ none := by
  unfold handleJsonRpcRequest at h ⊢
  split at h
  next => exact absurd h (Option.some_ne_none _)
  next hreadable =>
    rw [if_neg hreadable]
    split at h
    next requests =>
      split at h
      next => exact absurd h (Option.some_ne_none _)
      next => exact absurd h (Option.some_ne_none _)
    next _ hsingle =>
      split at h
      next => exact absurd h (Option.some_ne_none _)
      next hvalid =>
        split at h
        next hnotification =>
          rw [if_neg hvalid, if_pos hnotification]
          cases request with
          | obj members =>
            have hid : members.lookup "id" = none := Option.isNone_iff_eq_none.mp hnotification
            refine ⟨rfl, ?_, fun item hitem => ?_⟩
            · show List.filter _ [(JsonValue.obj members, 0)] = _
              rw [List.filter_singleton, hnotification]
              rfl
            · obtain rfl := List.mem_singleton.mp hitem
              simp [JsonValue.get, hid, hashKey?]
          | _ => exact absurd hnotification Bool.false_ne_true
        next => exact absurd h (Option.some_ne_none _)

theorem handleJsonRpcRequest_unreadable (hreadable : L.readable request = false)
    (websocketEndpoint : String) (U : Upstream) :
    handleJsonRpcRequest L U request = some (rpcError .null (-32700) "parse error") ∧
      sanitizePublicRpcResponse websocketEndpoint request (rpcError .null (-32700) "parse error") =
        (nodeInfoIds request.asList).map fun _ => rpcError .null (-32700) "parse error" := by
  constructor
  · unfold handleJsonRpcRequest
    rw [hreadable]
    rfl
  · rw [sanitizePublicRpcResponse_dict rfl]
    cases nodeInfoIds request.asList <;> rfl

theorem sanitizePublicRpcResponse_eq_none (websocketEndpoint : String)
    (hforwarded : refuse slots request = none)
    (hresponse : handleJsonRpcRequest L U request = some response) :
    sanitizePublicRpcResponse websocketEndpoint request response = none ↔
      Unsanitizable L U request := by
  cases hreadable : L.readable request with
  | true =>
    rw [sanitizePublicRpcResponse_forwarded hforwarded hreadable hresponse, Option.map_eq_none_iff]
    exact sanitized_eq_none hreadable
  | false =>
    obtain ⟨hparse, hsanitize⟩ := handleJsonRpcRequest_unreadable hreadable websocketEndpoint U
    obtain rfl := Option.some.inj (hresponse.symm.trans hparse)
    rw [hsanitize, Option.map_eq_none_iff, nodeInfoIds_eq_none]
    unfold Unsanitizable
    simp [hreadable]

theorem tooLarge_iff (hresponse : handleJsonRpcRequest L U request = some response) :
    TooLarge L U request ↔ maxBody < L.len response := by
  constructor
  · rintro ⟨_, hsome, hlen⟩
    obtain rfl := Option.some.inj (hresponse.symm.trans hsome)
    exact hlen
  · exact fun hlen => ⟨response, hresponse, hlen⟩

/-! ## The reply -/

/-- **The reply to a forwarded request.** -/
theorem doPost_forwarded (hforwarded : refuse slots request = none) :
    (doPost P L S slots fresh U request).1 =
      if verifiedUpstream P L S fresh U = true then
        match handleJsonRpcRequest L U request with
        | none => ⟨204, none⟩
        | some response =>
          if maxBody < L.len response then unavailable
          else match sanitizePublicRpcResponse S.websocketEndpoint request response with
          | some value => ⟨200, some value⟩
          | none => unavailable
      else unavailable := by
  unfold doPost forwardJsonRpc
  rw [hforwarded]
  cases verifiedUpstream P L S fresh U with
  | false => rfl
  | true =>
    cases handleJsonRpcRequest L U request with
    | none => rfl
    | some response =>
      by_cases hlen : maxBody < L.len response
      · simp [hlen]
      · simp only [hlen, if_false, Bool.not_true, Bool.false_eq_true, if_true]
        cases sanitizePublicRpcResponse S.websocketEndpoint request response <;> rfl

theorem status_ne_unavailable (status : ℕ) (body : Option JsonValue) (h : status ≠ 503) :
    (⟨status, body⟩ : Reply) ≠ unavailable :=
  fun heq => h (congrArg Reply.status heq)

/-- **When there is no answer for the caller.** -/
theorem reply_eq_unavailable (hforwarded : refuse slots request = none) :
    (doPost P L S slots fresh U request).1 = unavailable ↔ Fails P L S fresh U request := by
  rw [doPost_forwarded hforwarded]
  unfold Fails
  cases verifiedUpstream P L S fresh U with
  | false => simp
  | true =>
    rw [if_pos rfl, or_iff_right (by simp)]
    cases hresponse : handleJsonRpcRequest L U request with
    | none =>
      obtain ⟨-, hanswered, hhash⟩ : handleJsonRpcRequest L U request = none ∧ _ :=
        handleJsonRpcRequest_eq_none hresponse
      refine iff_of_false (status_ne_unavailable 204 none (by decide)) ?_
      rintro (⟨_, hsome, -⟩ | ⟨item, hitem, -, hnone⟩ | ⟨-, entry, hentry, -⟩)
      · exact Option.some_ne_none _ (hsome.symm.trans hresponse)
      · exact hhash item hitem hnone
      · rw [hanswered] at hentry
        exact absurd hentry List.not_mem_nil
    | some response =>
      rw [tooLarge_iff hresponse,
        ← sanitizePublicRpcResponse_eq_none S.websocketEndpoint hforwarded hresponse]
      dsimp only
      by_cases hlen : maxBody < L.len response
      · simp [hlen]
      · rw [if_neg hlen, or_iff_right hlen]
        cases sanitizePublicRpcResponse S.websocketEndpoint request response with
        | none => simp
        | some value => simp [status_ne_unavailable 200 (some value) (by decide)]

theorem reply_of_not_fails (hforwarded : refuse slots request = none)
    (hnot : ¬Fails P L S fresh U request)
    (hresponse : handleJsonRpcRequest L U request = some response) :
    ∃ value, sanitizePublicRpcResponse S.websocketEndpoint request response = some value ∧
      (doPost P L S slots fresh U request).1 = ⟨200, some value⟩ := by
  unfold Fails at hnot
  rw [not_or, not_or, Bool.not_eq_false, tooLarge_iff hresponse,
    ← sanitizePublicRpcResponse_eq_none S.websocketEndpoint hforwarded hresponse] at hnot
  obtain ⟨hverified, hlen, hsome⟩ := hnot
  obtain ⟨value, hvalue⟩ := Option.ne_none_iff_exists'.mp hsome
  refine ⟨value, hvalue, ?_⟩
  rw [doPost_forwarded hforwarded, if_pos hverified, hresponse]
  dsimp only
  rw [if_neg hlen, hvalue]

/-! ## Two nodes -/

theorem replyValue_injective {values₁ values₂ : List JsonValue}
    (h₁ : sanitized L websocketEndpoint U₁ request = some values₁)
    (h₂ : sanitized L websocketEndpoint U₂ request = some values₂)
    (heq : replyValue request values₁ = replyValue request values₂) : values₁ = values₂ := by
  have hlength : ∀ {U : Upstream} {values : List JsonValue},
      sanitized L websocketEndpoint U request = some values →
        (answered request).length = values.length := by
    intro U values h
    unfold sanitized at h
    obtain ⟨ids, -, h⟩ := Option.bind_eq_some_iff.mp h
    simpa using congrArg List.length (mapM_eq_some_iff.mp h)
  have h₁ := hlength h₁
  have h₂ := hlength h₂
  have hanswered : (answered request).length ≤ request.asList.length := by
    unfold answered
    exact (List.length_filter_le ..).trans List.length_zipIdx.le
  cases request with
  | arr requests => exact JsonValue.arr.inj heq
  | _ =>
    -- without a batch there is at most one value
    have hone : (answered _).length ≤ 1 := hanswered
    have hhead : values₁.headD .null = values₂.headD .null := heq
    rcases values₁ with _ | ⟨value₁, _ | _⟩ <;> rcases values₂ with _ | ⟨value₂, _ | _⟩ <;>
      simp_all

/-- **When two nodes that both answer get the same reply.** -/
theorem shown_eq_iff (hagree : Agree U₁ U₂) (hforwarded : refuse slots request = none)
    (hnot₁ : ¬Fails P L S fresh U₁ request) (hnot₂ : ¬Fails P L S fresh U₂ request) :
    (doPost P L S slots fresh U₁ request).1 = (doPost P L S slots fresh U₂ request).1 ↔
      L.readable request = false ∨
        ∀ entry ∈ answered request, isNodeInfoMethod (method entry.1) = true →
          Covered request (L.echo (entry.1.get "id")) ∨
            U₁.nodeInfo entry.2 = U₂.nodeInfo entry.2 := by
  cases hresponse₁ : handleJsonRpcRequest L U₁ request with
  | none =>
    obtain ⟨hresponse₂, hanswered, -⟩ : handleJsonRpcRequest L U₂ request = none ∧ _ :=
      handleJsonRpcRequest_eq_none hresponse₁
    have hverified₁ : verifiedUpstream P L S fresh U₁ = true := by
      by_contra h
      exact hnot₁ (.inl (Bool.eq_false_of_not_eq_true h))
    have hverified₂ : verifiedUpstream P L S fresh U₂ = true := by
      by_contra h
      exact hnot₂ (.inl (Bool.eq_false_of_not_eq_true h))
    refine iff_of_true ?_ (.inr (by simp [hanswered]))
    rw [doPost_forwarded hforwarded, doPost_forwarded hforwarded, if_pos hverified₁,
      if_pos hverified₂, hresponse₁, hresponse₂]
  | some response₁ =>
    cases hresponse₂ : handleJsonRpcRequest L U₂ request with
    | none =>
      obtain ⟨hnone, -⟩ : handleJsonRpcRequest L U₁ request = none ∧ _ :=
        handleJsonRpcRequest_eq_none hresponse₂
      exact absurd (hresponse₁.symm.trans hnone) (Option.some_ne_none response₁)
    | some response₂ =>
      obtain ⟨value₁, hvalue₁, hreply₁⟩ := reply_of_not_fails hforwarded hnot₁ hresponse₁
      obtain ⟨value₂, hvalue₂, hreply₂⟩ := reply_of_not_fails hforwarded hnot₂ hresponse₂
      rw [hreply₁, hreply₂]
      cases hreadable : L.readable request with
      | false =>
        have hparse₁ := (handleJsonRpcRequest_unreadable hreadable "" U₁).1
        have hparse₂ := (handleJsonRpcRequest_unreadable hreadable "" U₂).1
        cases hresponse₁.symm.trans hparse₁
        cases hresponse₂.symm.trans hparse₂
        cases hvalue₁.symm.trans hvalue₂
        simp
      | true =>
        rw [sanitizePublicRpcResponse_forwarded hforwarded hreadable hresponse₁] at hvalue₁
        rw [sanitizePublicRpcResponse_forwarded hforwarded hreadable hresponse₂] at hvalue₂
        obtain ⟨values₁, hvalues₁, rfl⟩ := Option.map_eq_some_iff.mp hvalue₁
        obtain ⟨values₂, hvalues₂, rfl⟩ := Option.map_eq_some_iff.mp hvalue₂
        rw [or_iff_right (by simp), ← sanitized_eq hagree hvalues₁ hvalues₂, hvalues₁, hvalues₂,
          Option.some.injEq]
        constructor
        · intro heq
          exact replyValue_injective hvalues₁ hvalues₂
            (Option.some.inj (congrArg Reply.body heq))
        · rintro rfl
          rfl

/-- **When two nodes that agree on the public fields get the same reply**: if the request is not
forwarded, if both fail the probe or give an answer that is too large or cannot be reduced, or if
neither does and every answer with node information has the identifier of a request for
`blq_nodeInfo`, or is the same. -/
theorem public_reply_iff (hagree : Agree U₁ U₂) :
    (doPost P L S slots fresh U₁ request).1 = (doPost P L S slots fresh U₂ request).1 ↔
      refuse slots request ≠ none ∨
      (Fails P L S fresh U₁ request ∧ Fails P L S fresh U₂ request) ∨
      (¬Fails P L S fresh U₁ request ∧ ¬Fails P L S fresh U₂ request ∧
        (L.readable request = false ∨
          ∀ entry ∈ answered request, isNodeInfoMethod (method entry.1) = true →
            Covered request (L.echo (entry.1.get "id")) ∨
              U₁.nodeInfo entry.2 = U₂.nodeInfo entry.2)) := by
  cases hrefuse : refuse slots request with
  | some reply =>
    refine iff_of_true ?_ (.inl (Option.some_ne_none reply))
    unfold doPost
    rw [hrefuse]
  | none =>
    rw [or_iff_right (by simp)]
    have hfails₁ : (doPost P L S slots fresh U₁ request).1 = unavailable ↔ _ :=
      reply_eq_unavailable hrefuse
    have hfails₂ : (doPost P L S slots fresh U₂ request).1 = unavailable ↔ _ :=
      reply_eq_unavailable hrefuse
    by_cases h₁ : Fails P L S fresh U₁ request
    · by_cases h₂ : Fails P L S fresh U₂ request
      · exact iff_of_true ((hfails₁.mpr h₁).trans (hfails₂.mpr h₂).symm) (.inl ⟨h₁, h₂⟩)
      · refine iff_of_false (fun heq => h₂ (hfails₂.mp (heq ▸ hfails₁.mpr h₁))) ?_
        simp [h₁, h₂]
    · by_cases h₂ : Fails P L S fresh U₂ request
      · refine iff_of_false (fun heq => h₁ (hfails₁.mp (heq ▸ hfails₂.mpr h₂))) ?_
        simp [h₁, h₂]
      · rw [shown_eq_iff hagree hrefuse h₁ h₂]
        simp [h₁, h₂]

/-! ## The status of the node -/

def nodeWithRoute (route : String) : Upstream :=
  let info : List (String × JsonValue) := [("activePeer", .str route), ("chainId", .int 707070),
    ("storage", .obj [("filesystemFreeBytes", .int 2), ("filesystemReserveBytes", .int 1)])]
  { publicReadOnly := true
    miningApiEnabled := false
    probeInfo := info
    nodeInfo := fun _ => info
    other := fun _ => .error (-32601, "method not found") }

theorem nodeWithRoute_agree (route route' : String) :
    Agree (nodeWithRoute route) (nodeWithRoute route') := by
  refine ⟨rfl, rfl, rfl, fun place key hkey => ?_⟩
  have hne : key ≠ "activePeer" := by
    rintro rfl
    exact absurd hkey (by decide)
  unfold nodeWithRoute JsonValue.get
  simp only [List.lookup_cons, beq_false_of_ne hne]

def plainPython : Python where
  str _ := ""
  lower text := text
  int _ := none

def plainLibrary : JsonLibrary where
  readable _ := true
  echo id := id
  len _ := 100

def defaultSettings : Settings := ⟨"", 707070, "", ""⟩

def freeSlots : Slots := ⟨true, true, true, true, true⟩

def plainReply (route : String) (request : JsonValue) : Reply :=
  (doPost plainPython plainLibrary defaultSettings freeSlots false (nodeWithRoute route) request).1

def statusRequest (id : ℤ) (method : String) : JsonValue :=
  .obj [("jsonrpc", .str "2.0"), ("id", .int id), ("method", .str method)]

def coveredBatch : JsonValue :=
  .arr [statusRequest 1 "blq_nodeInfo", statusRequest 2 "blq_nodeInfo", statusRequest 1 "blq_health",
    statusRequest 3 "eth_chainId"]

/-- The route of a node is not visible through that batch. -/
theorem public_reply_covered : plainReply "10.0.0.1" coveredBatch = plainReply "10.0.0.2" coveredBatch := by
  have hnot : ∀ route, ¬Fails plainPython plainLibrary defaultSettings false (nodeWithRoute route)
      coveredBatch := by
    intro route hfails
    have hreply : plainReply route coveredBatch = unavailable :=
      (reply_eq_unavailable (show refuse freeSlots coveredBatch = none from rfl)).mpr hfails
    exact absurd (congrArg Reply.status hreply) (show ¬(200 : ℕ) = 503 by decide)
  refine (public_reply_iff (nodeWithRoute_agree _ _)).mpr (.inr (.inr ⟨hnot _, hnot _, .inr ?_⟩))
  intro entry hentry hinfo
  have hmem := List.fst_mem_of_mem_zipIdx (List.mem_of_mem_filter hentry)
  simp only [coveredBatch, asList, List.mem_cons, List.not_mem_nil, or_false] at hmem
  rcases hmem with h | h | h | h <;> rw [h] at hinfo ⊢
  · exact .inl ⟨statusRequest 1 "blq_nodeInfo", by simp [coveredBatch, asList], rfl, .num 1, rfl, rfl⟩
  · exact .inl ⟨statusRequest 2 "blq_nodeInfo", by simp [coveredBatch, asList], rfl, .num 2, rfl, rfl⟩
  · exact .inl ⟨statusRequest 1 "blq_nodeInfo", by simp [coveredBatch, asList], rfl, .num 1, rfl, rfl⟩
  · exact absurd hinfo (by decide)

/-- **The route is visible through `blq_health`**, which is public and has the same handler. -/
theorem health_reveals_private :
    Agree (nodeWithRoute "10.0.0.1") (nodeWithRoute "10.0.0.2") ∧
    refuse freeSlots (statusRequest 1 "blq_health") = none ∧
    plainReply "10.0.0.1" (statusRequest 1 "blq_health") ≠
      plainReply "10.0.0.2" (statusRequest 1 "blq_health") := by
  have hreply : ∀ route, plainReply route (statusRequest 1 "blq_health") =
      ⟨200, some (rpcResult (.int 1) (.obj ((nodeWithRoute route).nodeInfo 0)))⟩ :=
    fun _ => rfl
  refine ⟨nodeWithRoute_agree _ _, rfl, ?_⟩
  rw [hreply, hreply]
  simp [rpcResult, nodeWithRoute]

end Blq.Gateway
