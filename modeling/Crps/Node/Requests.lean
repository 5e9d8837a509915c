import Crps.Broker.Requests
import Crps.Foundation.JsonText
import Crps.Node.State

/-!
# What a node asks and how it reads the answer

The JSON a node builds for each of its requests is exactly what the broker's
dispatcher reads, and the fields it takes from a success response are the ones
the dispatcher wrote.
-/

namespace Crps
namespace Node

/-! ## Requests -/

/-- The JSON of a request with a given `rpc_id`, as the registration functions build it. -/
def requestJson (rpcId : UInt32) : ControlRequest → Json
  | .registerNode name => registerNodeRequest rpcId name
  | .registerMessageType name size => registerMessageTypeRequest rpcId name size
  | .registerTopic name messageTypeId priority =>
    registerTopicRequest rpcId name messageTypeId priority
  | .addPublisher nodeId topicId messageTypeId =>
    addEndpointRequest "add_publisher" rpcId nodeId topicId messageTypeId
  | .addSubscriber nodeId topicId messageTypeId =>
    addEndpointRequest "add_subscriber" rpcId nodeId topicId messageTypeId

theorem requestJson_eq (rpcId : UInt32) (c : ControlRequest) :
    requestJson rpcId c = .object (match c with
      | .registerNode name =>
        [("node", .object [("action", .string "register"),
            ("params", .object [("name", .string name)])]),
          ("rpc_id", .ofUInt32 rpcId), ("scope", .string "node")]
      | .registerMessageType name size =>
        [("message", .object [("action", .string "register"),
            ("params", .object [("name", .string name), ("size", .ofUInt32 size)])]),
          ("rpc_id", .ofUInt32 rpcId), ("scope", .string "message")]
      | .registerTopic name messageTypeId priority =>
        [("rpc_id", .ofUInt32 rpcId), ("scope", .string "topic"),
          ("topic", .object [("action", .string "register"),
            ("params", .object [("message_type_id", .ofUInt32 messageTypeId),
              ("name", .string name), ("priority", .ofInt8 priority)])])]
      | .addPublisher nodeId topicId messageTypeId =>
        [("rpc_id", .ofUInt32 rpcId), ("scope", .string "topic"),
          ("topic", .object [("action", .string "add_publisher"),
            ("params", .object [("message_type_id", .ofUInt32 messageTypeId),
              ("node_id", .ofUInt32 nodeId), ("topic_id", .ofUInt32 topicId)])])]
      | .addSubscriber nodeId topicId messageTypeId =>
        [("rpc_id", .ofUInt32 rpcId), ("scope", .string "topic"),
          ("topic", .object [("action", .string "add_subscriber"),
            ("params", .object [("message_type_id", .ofUInt32 messageTypeId),
              ("node_id", .ofUInt32 nodeId), ("topic_id", .ofUInt32 topicId)])])]) := by
  cases c <;> rfl

theorem requestJson_rpcId (rpcId : UInt32) (c : ControlRequest) :
    (requestJson rpcId c).field "rpc_id" = .ok (.ofUInt32 rpcId) := by
  rw [requestJson_eq]
  cases c <;> rfl

/-- The dispatcher reads the request the node meant. -/
theorem ofJson_requestJson (rpcId : UInt32) (c : ControlRequest) :
    ControlRequest.ofJson (requestJson rpcId c) = .ok (some c) := by
  rw [requestJson_eq]
  cases c with
  | registerNode name => rfl
  | registerMessageType name size =>
    change (do let s ← (Json.ofUInt32 size).toUInt32
               pure (some (ControlRequest.registerMessageType name s))) = _
    rw [Json.toUInt32_ofUInt32]
    rfl
  | registerTopic name messageTypeId priority =>
    change (do let m ← (Json.ofUInt32 messageTypeId).toUInt32
               let p ← (Json.ofInt8 priority).toInt8
               pure (some (ControlRequest.registerTopic name m p))) = _
    rw [Json.toUInt32_ofUInt32, Json.toInt8_ofInt8]
    rfl
  | addPublisher nodeId topicId messageTypeId =>
    change (do let ids ← (do let n ← (Json.ofUInt32 nodeId).toUInt32
                             let t ← (Json.ofUInt32 topicId).toUInt32
                             let m ← (Json.ofUInt32 messageTypeId).toUInt32
                             pure (n, t, m))
               pure (some (ControlRequest.addPublisher ids.1 ids.2.1 ids.2.2))) = _
    rw [Json.toUInt32_ofUInt32, Json.toUInt32_ofUInt32, Json.toUInt32_ofUInt32]
    rfl
  | addSubscriber nodeId topicId messageTypeId =>
    change (do let ids ← (do let n ← (Json.ofUInt32 nodeId).toUInt32
                             let t ← (Json.ofUInt32 topicId).toUInt32
                             let m ← (Json.ofUInt32 messageTypeId).toUInt32
                             pure (n, t, m))
               pure (some (ControlRequest.addSubscriber ids.1 ids.2.1 ids.2.2))) = _
    rw [Json.toUInt32_ofUInt32, Json.toUInt32_ofUInt32, Json.toUInt32_ofUInt32]
    rfl

theorem requestJson_plain (rpcId : UInt32) (c : ControlRequest) :
    (requestJson rpcId c).Plain := by
  rw [requestJson_eq]
  cases c <;>
    simp only [Json.Plain, Json.PlainFields, Json.plain_ofUInt32, Json.plain_ofInt8, and_true,
      true_and, List.map_cons, List.map_nil] <;> decide

/-! ## Answers -/

theorem succeeded_response (a : ControlAnswer) (rpcId : Json) (n : Node) :
    succeeded (a.response rpcId) n = .ret n true := by
  have hsuccess := Json.entry_of_field (a.response_success rpcId)
  have hfull : (a.response rpcId).isEmpty = false := by
    rw [ControlAnswer.response_eq]
    cases a <;> rfl
  simp only [succeeded, hfull, Bool.false_eq_true, if_false, Program.bind_apply, hsuccess,
    Program.ofExcept_ok, Session.ret_bind, Json.toBool]

theorem fieldUInt32_ok {result : Json} {key : String} {w : UInt32}
    (h : result.field key = .ok (.ofUInt32 w)) (n : Node) :
    fieldUInt32 result key n = .ret n w := by
  simp only [fieldUInt32, Program.bind_apply, Json.entry_of_field h, Program.ofExcept_ok,
    Session.ret_bind, Json.toUInt32_ofUInt32]

theorem response_plain (a : ControlAnswer) (w : UInt32) : (a.response (.ofUInt32 w)).Plain := by
  rw [ControlAnswer.response_eq]
  cases a <;>
    simp only [Json.Plain, Json.PlainFields, Json.plain_ofUInt32, Json.plain_ofInt8, and_true,
      List.map_cons, List.map_nil] <;> decide

/-- What the broker can respond to a request, and what it amounts to: an
answer, a failure, or no response at all. -/
inductive Responds (c : ControlRequest) : Json → Option ControlAnswer → Prop
  | granted {a : ControlAnswer} (rpcId : Json) : a.Fits c → Responds c (a.response rpcId) (some a)
  | failed (rpcId errorCode : Int32) (errorMessage : String) :
      Responds c (rpcFailureResponse rpcId errorCode errorMessage) none
  | nothing : Responds c .null none

theorem Responds.succeeded {c : ControlRequest} {d : Json} {r : Option ControlAnswer}
    (h : Responds c d r) (n : Node) : succeeded d n = .ret n r.isSome := by
  cases h with
  | granted rpcId => exact succeeded_response _ rpcId n
  | failed => rfl
  | nothing => rfl

/-! ## Registration functions against any server -/

section Safe

variable {S : Type} {I : Interference Node S Json Json} {n : Node} {x : S}

/-- A call for request `c` leaves `Post` on every response. -/
def CallMeets (I : Interference Node S Json Json) (n : Node) (x : S) (c : ControlRequest)
    (Post : Node → Option ControlAnswer → S → Prop) : Prop :=
  ∀ y, I.rely x y → ∀ n' z d, I.serve n y (requestJson n.rpcId c) n' z d →
    I.guarantee n y (requestJson n.rpcId c) z ∧ ∃ r, Responds c d r ∧ ∀ w, I.rely z w → Post n' r w

variable {Post : Node → Option ControlAnswer → S → Prop}

theorem safe_request {α : Type} {Q : Node → α → S → Prop} {c : ControlRequest}
    {f : Json → NodeM α} (h : CallMeets I n x c Post)
    (hf : ∀ d r n' z, Responds c d r → (∀ w, I.rely z w → Post n' r w) →
      (f d n').Safe I Q z) :
    ((brokerRpc (requestJson n.rpcId c) >>= f) n).Safe I Q x := by
  intro y hy n' z d hserve
  obtain ⟨hg, r, hr, hpost⟩ := h y hy n' z d hserve
  exact ⟨hg, hf d r n' z hr hpost⟩

theorem safe_registerNode {n : Node} {x : S} (h : CallMeets I n x (.registerNode n.name) Post) :
    (registerNode n).Safe I (fun n' ok z =>
      if ok then ∃ n₀ id, n' = { n₀ with nodeId := id } ∧ Post n₀ (some (.node id)) z
      else Post n' none z) x := by
  refine safe_request (f := fun d => do
    if !(← succeeded d) then return false
    let nodeId ← fieldUInt32 d "node_id"
    Program.modify fun n => { n with nodeId }
    return true) h fun d r n' z hr hpost => ?_
  rw [Program.bind_apply, hr.succeeded, Session.ret_bind]
  cases hr with
  | @granted a rpcId hfits =>
    cases a with
    | node id =>
      have hfield : ((ControlAnswer.node id).response rpcId).field "node_id" =
          .ok (.ofUInt32 id) := rfl
      simp only [Option.isSome_some, Bool.not_true, Bool.false_eq_true, if_false,
        Program.bind_apply, fieldUInt32_ok hfield, Session.ret_bind, Program.modify_apply]
      exact fun w hw => ⟨n', id, rfl, hpost w hw⟩
    | _ => exact hfits.elim
  | failed => exact hpost
  | nothing => exact hpost

theorem safe_registerMessageType {name : String} {size : MessageSize}
    (h : CallMeets I n x (.registerMessageType name size) Post) :
    (registerMessageType name size n).Safe I
      (fun n' r z => Post n' (r.map .messageType) z) x := by
  refine safe_request (f := fun d => do
    if !(← succeeded d) then return none
    let messageTypeId ← fieldUInt32 d "message_type_id"
    return some messageTypeId) h fun d r n' z hr hpost => ?_
  rw [Program.bind_apply, hr.succeeded, Session.ret_bind]
  cases hr with
  | @granted a rpcId hfits =>
    cases a with
    | messageType id =>
      have hfield : ((ControlAnswer.messageType id).response rpcId).field "message_type_id" =
          .ok (.ofUInt32 id) := rfl
      simp only [Option.isSome_some, Bool.not_true, Bool.false_eq_true, if_false,
        Program.bind_apply, fieldUInt32_ok hfield, Session.ret_bind]
      exact hpost
    | _ => exact hfits.elim
  | failed => exact hpost
  | nothing => exact hpost

/-- The priority in the answer is read only where the caller asks for it. -/
theorem safe_registerTopic {name : String} {messageTypeId : MessageTypeId}
    {priority : TopicPriority} {wantPriority : Bool}
    (h : CallMeets I n x (.registerTopic name messageTypeId priority) Post) :
    (registerTopic name messageTypeId priority wantPriority n).Safe I (fun n' r z =>
      match r with
      | none => Post n' none z
      | some (id, p) => ∃ actual, Post n' (some (.topic id actual)) z ∧
          p = if wantPriority then actual else priority) x := by
  refine safe_request (f := fun d => do
    if !(← succeeded d) then return none
    let topicId ← fieldUInt32 d "topic_id"
    if wantPriority then
      let value ← Program.ofExcept (d.entry "topic_priority")
      let actual ← Program.ofExcept value.toInt8
      return some (topicId, actual)
    else return some (topicId, priority)) h fun d r n' z hr hpost => ?_
  rw [Program.bind_apply, hr.succeeded, Session.ret_bind]
  cases hr with
  | @granted a rpcId hfits =>
    cases a with
    | topic id actual =>
      have hfield : ((ControlAnswer.topic id actual).response rpcId).field "topic_id" =
          .ok (.ofUInt32 id) := rfl
      have hprio : ((ControlAnswer.topic id actual).response rpcId).entry "topic_priority" =
          .ok (.ofInt8 actual) := rfl
      simp only [Option.isSome_some, Bool.not_true, Bool.false_eq_true, if_false,
        Program.bind_apply, fieldUInt32_ok hfield, Session.ret_bind]
      cases wantPriority with
      | true =>
        simp only [if_true, Program.bind_apply, hprio, Program.ofExcept_ok, Session.ret_bind,
          Json.toInt8_ofInt8]
        exact fun w hw => ⟨actual, hpost w hw, rfl⟩
      | false => exact fun w hw => ⟨actual, hpost w hw, rfl⟩
    | _ => exact hfits.elim
  | failed => exact hpost
  | nothing => exact hpost

theorem safe_addPublisher {topicId : TopicId} {messageTypeId : MessageTypeId}
    (h : CallMeets I n x (.addPublisher n.nodeId topicId messageTypeId) Post) :
    (addEndpoint "add_publisher" topicId messageTypeId n).Safe I
      (fun n' ok z => Post n' (if ok then some .added else none) z) x := by
  refine safe_request (f := succeeded) h fun d r n' z hr hpost => ?_
  rw [hr.succeeded]
  cases hr with
  | @granted a rpcId hfits =>
    cases a with
    | added => exact hpost
    | _ => exact hfits.elim
  | failed => exact hpost
  | nothing => exact hpost

theorem safe_addSubscriber {topicId : TopicId} {messageTypeId : MessageTypeId}
    (h : CallMeets I n x (.addSubscriber n.nodeId topicId messageTypeId) Post) :
    (addEndpoint "add_subscriber" topicId messageTypeId n).Safe I
      (fun n' ok z => Post n' (if ok then some .added else none) z) x := by
  refine safe_request (f := succeeded) h fun d r n' z hr hpost => ?_
  rw [hr.succeeded]
  cases hr with
  | @granted a rpcId hfits =>
    cases a with
    | added => exact hpost
    | _ => exact hfits.elim
  | failed => exact hpost
  | nothing => exact hpost

end Safe

/-! ## Text lengths -/

/-- The name in a request. -/
def requestName : ControlRequest → String
  | .registerNode name => name
  | .registerMessageType name _ => name
  | .registerTopic name _ _ => name
  | _ => ""

theorem length_dump_requestJson_le (c : ControlRequest) (w : UInt32) :
    (compactJson.dump (requestJson w c)).length ≤
      256 + (CompactJson.dumpString (requestName c)).length := by
  have hword : ∀ w : UInt32, (CompactJson.dump (.ofUInt32 w)).length ≤ 11 := fun w => by
    have hw := w.toNat_lt
    exact CompactJson.length_dumpInt_le (by simp; omega) (by omega)
  have hbyte : ∀ p : Int8, (CompactJson.dump (.ofInt8 p)).length ≤ 11 := fun p => by
    have hlo := p.le_toInt
    have hhi := p.toInt_lt
    exact CompactJson.length_dumpInt_le (by omega) (by omega)
  have hkey : ∀ key ∈ ["node_id", "message_type_id", "topic_id", "priority", "rpc_id", "size",
      "params", "action", "scope", "message", "register", "add_publisher", "add_subscriber"],
      (CompactJson.dumpString key).length ≤ 17 := by decide
  have hshort : ∀ key ∈ ["node", "topic", "name"], (CompactJson.dumpString key).length ≤ 7 := by
    decide
  simp only [List.forall_mem_cons] at hkey hshort
  obtain ⟨h1, h2, h3, h4, h5, h6, h7, h8, h9, h10, h11, h12, h13, _⟩ := hkey
  obtain ⟨h14, h15, h16, _⟩ := hshort
  have hrpc := hword w
  rw [requestJson_eq]
  cases c with
  | registerNode name =>
    simp only [compactJson, CompactJson.dump, CompactJson.dumpMembers, requestName,
      List.length_cons, List.length_append, List.length_nil] at *
    omega
  | registerMessageType name size =>
    have hsize := hword size
    simp only [compactJson, CompactJson.dump, CompactJson.dumpMembers, requestName,
      List.length_cons, List.length_append, List.length_nil] at *
    omega
  | registerTopic name messageTypeId priority =>
    have htype := hword messageTypeId
    have hpriority := hbyte priority
    simp only [compactJson, CompactJson.dump, CompactJson.dumpMembers, requestName,
      List.length_cons, List.length_append, List.length_nil] at *
    omega
  | addPublisher nodeId topicId messageTypeId =>
    have hnode := hword nodeId
    have htopic := hword topicId
    have htype := hword messageTypeId
    simp only [compactJson, CompactJson.dump, CompactJson.dumpMembers, requestName,
      List.length_cons, List.length_append, List.length_nil] at *
    omega
  | addSubscriber nodeId topicId messageTypeId =>
    have hnode := hword nodeId
    have htopic := hword topicId
    have htype := hword messageTypeId
    simp only [compactJson, CompactJson.dump, CompactJson.dumpMembers, requestName,
      List.length_cons, List.length_append, List.length_nil] at *
    omega

/-- A name that leaves room for the rest of a request. -/
def ShortName (name : String) : Prop := (CompactJson.dumpString name).length ≤ 1000

instance (name : String) : Decidable (ShortName name) := inferInstanceAs (Decidable (_ ≤ _))

theorem length_dump_response_le (a : ControlAnswer) (w : UInt32) :
    (compactJson.dump (a.response (.ofUInt32 w))).length ≤ 128 := by
  have hword : ∀ w : UInt32, (CompactJson.dump (.ofUInt32 w)).length ≤ 11 := fun w => by
    have hw := w.toNat_lt
    exact CompactJson.length_dumpInt_le (by simp; omega) (by omega)
  have hbyte : ∀ p : Int8, (CompactJson.dump (.ofInt8 p)).length ≤ 11 := fun p => by
    have hlo := p.le_toInt
    have hhi := p.toInt_lt
    exact CompactJson.length_dumpInt_le (by omega) (by omega)
  have hkey : ∀ key ∈ ["node_id", "message_type_id", "topic_id", "topic_priority", "rpc_id",
      "success"], (CompactJson.dumpString key).length ≤ 17 := by decide
  simp only [List.forall_mem_cons] at hkey
  obtain ⟨h1, h2, h3, h4, h5, h6, _⟩ := hkey
  have hrpc := hword w
  rw [ControlAnswer.response_eq]
  cases a with
  | node id =>
    have hid := hword id
    simp only [compactJson, CompactJson.dump, CompactJson.dumpMembers, List.length_cons,
      List.length_append, List.length_nil] at *
    omega
  | messageType id =>
    have hid := hword id
    simp only [compactJson, CompactJson.dump, CompactJson.dumpMembers, List.length_cons,
      List.length_append, List.length_nil] at *
    omega
  | topic id priority =>
    have hid := hword id
    have hpriority := hbyte priority
    simp only [compactJson, CompactJson.dump, CompactJson.dumpMembers, List.length_cons,
      List.length_append, List.length_nil] at *
    omega
  | added =>
    simp only [compactJson, CompactJson.dump, CompactJson.dumpMembers, List.length_cons,
      List.length_append, List.length_nil] at *
    omega

end Node
end Crps
