import Crps.Node.Requests

/-!
# Remote calls while data is arriving

`broker_rpc_blocking` takes the next datagram on the node's only socket for the
response. Here the broker answers every request with success, but may send data
packets of live topics first; `connect` is followed through all its requests.
-/

namespace Crps

/-- A data packet that holds the payload it announces. -/
def WellFormedData (d : Bytes) : Prop :=
  ∃ (c : BpCounter) (t : TopicId) (m : MessageTypeId) (s : UInt32) (payload : Bytes),
    d = dataHeaderBytes c t m s ++ payload ∧ s.toNat = payload.length ∧
      d.length < 2 ^ 32

/-- What the broker sends to a node that connects: data packets before the
response to the `k`-th request, and the answer in that response. -/
structure Script where
  data : ℕ → List Bytes
  answer : ℕ → ControlRequest → ControlAnswer

/-- Requests made so far and what is waiting at the node's socket. -/
abbrev Waiting := ℕ × List Bytes

namespace Node

variable (text : JsonText) (script : Script)

/-- The response to the `k`-th request; nodes number their requests in 32 bits. -/
def scriptedResponse (k : ℕ) (request : Json) : Json :=
  match ControlRequest.ofJson request, (request.field "rpc_id").bind Json.toUInt32 with
  | .ok (some c), .ok rpcId => (script.answer k c).response (.ofUInt32 rpcId)
  | _, _ => .null

/-- The packet with that response; it carries the counter of the request. -/
def responsePacket (n : Node) (k : ℕ) (request : Json) : Bytes :=
  bpControlJsonToPacketBuffer text (scriptedResponse script k request)
    (n.sendControl text request).2.bpCounter

/-- What the node finds at its socket once a request has been answered. -/
def inboxAfter (n : Node) (x : Waiting) (request : Json) : List Bytes :=
  x.2 ++ (script.data x.1 ++ [responsePacket text script n x.1 request])

/-- One `broker_rpc_blocking` against the script. -/
def rpcOver (n : Node) (x : Waiting) (request : Json) : Except Fault (Node × Waiting × Json) :=
  match inboxAfter text script n x request with
  | [] => .ok ((n.sendControl text request).2, (x.1 + 1, []), .null)
  | d :: rest => do
    let (n', response) ← n.brokerRpcBlocking text request true (.datagram d)
    return (n', (x.1 + 1, rest), response)

/-- A registration session against the script. -/
def sessionOver {α : Type} :
    Session Node Json Json Fault α → Waiting → Except Fault (Node × α × Waiting)
  | .ret n a, x => .ok (n, a, x)
  | .throw e, _ => .error e
  | .call n request resume, x =>
    match rpcOver text script n x request with
    | .error e => .error e
    | .ok (n', x', response) => sessionOver (resume n' response) x'

/-- The scripted broker as a server nobody else talks to. -/
def scripted : Interference Node Waiting Json Json where
  rely := Eq
  guarantee := fun _ _ _ _ => True
  serve := fun n x request n' x' response =>
    rpcOver text script n x request = .ok (n', x', response)
  rely_refl := fun _ => rfl
  rely_trans := Eq.trans

/-- Nothing in the inbox makes the receive path throw. -/
def Readable (inbox : List Bytes) : Prop :=
  ∀ d ∈ inbox, ∀ old, ∃ decoded,
    decodePacketBuffer text (Memory.load d old) d.length = .ok decoded

variable {text script}

theorem readable_data {d : Bytes} (h : WellFormedData d) : Readable text [d] := by
  obtain ⟨c, t, m, s, payload, rfl, hs, hlen⟩ := h
  intro d hd old
  rw [List.mem_singleton.mp hd]
  simp only [List.length_append, length_dataHeaderBytes] at hlen
  exact ⟨_, decode_dataPacket text c t m old hs (by omega)⟩

section Decoded

variable {n : Node} {d : Bytes} {decoded : Decoded}
variable (hd : decodePacketBuffer text (Memory.load d n.buffer) d.length = .ok decoded)

include hd

theorem receiveMessage_of_decode (block : Bool) (hvalid : decoded.type ≠ .invalid) :
    n.receiveMessage text block (.datagram d) =
      .ok ({ n with buffer := Memory.load d n.buffer }, .packet decoded) := by
  simp only [receiveMessage, hd, bind, Except.bind, if_neg hvalid]
  rfl

theorem rpcResponse_of_control (htype : decoded.type = .control) :
    n.rpcResponse text (.datagram d) =
      .ok ({ n with buffer := Memory.load d n.buffer }, decoded.controlJson) := by
  have hvalid : decoded.type ≠ .invalid := by simp [htype]
  have hcontrol : ¬ decoded.type ≠ .control := by simp [htype]
  simp only [rpcResponse, receiveMessage_of_decode hd true hvalid, bind, Except.bind,
    if_neg hcontrol]
  rfl

end Decoded

variable (text) in
theorem rpcResponse_notControl (n : Node) {d : Bytes} (h : d.head? ≠ some 1) :
    n.rpcResponse text (.datagram d) =
      .ok ({ n with buffer := Memory.load d n.buffer }, .null) := by
  obtain ⟨decoded, hd, htype⟩ := decode_notControl text h n.buffer
  by_cases hinvalid : decoded.type = .invalid
  · simp only [rpcResponse, receiveMessage, hd, hinvalid, bind, Except.bind, if_true]
    rfl
  · simp only [rpcResponse, receiveMessage_of_decode hd true hinvalid, bind, Except.bind,
      if_pos htype]
    rfl

variable (text) in
theorem rpcResponse_data (n : Node) {d : Bytes} (h : WellFormedData d) :
    n.rpcResponse text (.datagram d) =
      .ok ({ n with buffer := Memory.load d n.buffer }, .null) := by
  obtain ⟨c, t, m, s, payload, rfl, _, _⟩ := h
  exact rpcResponse_notControl text n (by simp [dataHeaderBytes])

variable (text) in
theorem rpcResponse_control (n : Node) {j : Json} (hj : j.Plain) (c : BpCounter)
    (hlen : 9 + (text.dump j).length < 2 ^ 32) :
    n.rpcResponse text (.datagram (bpControlJsonToPacketBuffer text j c)) =
      .ok ({ n with buffer := Memory.load (bpControlJsonToPacketBuffer text j c) n.buffer }, j) :=
  rpcResponse_of_control (decode_controlPacket text hj c n.buffer hlen) rfl

/-! ## One call -/

theorem scriptedResponse_requestJson (k : ℕ) (w : UInt32) (c : ControlRequest) :
    scriptedResponse script k (requestJson w c) = (script.answer k c).response (.ofUInt32 w) := by
  simp only [scriptedResponse, ofJson_requestJson, requestJson_rpcId, Except.bind,
    Json.toUInt32_ofUInt32]

theorem scriptedResponse_plain (k : ℕ) (request : Json) :
    (scriptedResponse script k request).Plain := by
  unfold scriptedResponse
  split
  · exact response_plain _ _
  · trivial

/-- Everything the script sends is well formed, fits, and answers with success. -/
structure Script.Sound (text : JsonText) (script : Script) : Prop where
  data : ∀ k, ∀ d ∈ script.data k, WellFormedData d
  answer : ∀ k c, (script.answer k c).Fits c
  size : ∀ k request,
    9 + (text.dump (scriptedResponse script k request)).length ≤ maxDatagramSize

/-- The node after a call: counted up, with something in its buffer. -/
structure Called (n n' : Node) : Prop where
  name : n'.name = n.name
  nodeId : n'.nodeId = n.nodeId
  publishers : n'.publishers = n.publishers
  subscribers : n'.subscribers = n.subscribers
  bpCounter : n'.bpCounter = n.bpCounter + 1

theorem rpcOver_head {n n' : Node} {x : Waiting} {request response : Json} {d : Bytes}
    {rest : List Bytes} (hinbox : inboxAfter text script n x request = d :: rest)
    (hread : (n.sendControl text request).2.rpcResponse text (.datagram d) = .ok (n', response)) :
    rpcOver text script n x request = .ok (n', (x.1 + 1, rest), response) := by
  simp only [rpcOver, hinbox, brokerRpcBlocking, Bool.not_true, Bool.false_eq_true, if_false,
    hread, bind, Except.bind, pure, Except.pure]

section Call

variable (hs : Script.Sound text script) (n : Node) (c : ControlRequest)

include hs

theorem rpcOver_quiet {k : ℕ} (hdata : script.data k = []) :
    ∃ n', Called n n' ∧ rpcOver text script n (k, []) (requestJson n.rpcId c) =
      .ok (n', (k + 1, []), (script.answer k c).response (.ofUInt32 n.rpcId)) := by
  have hinbox : inboxAfter text script n (k, []) (requestJson n.rpcId c) =
      [responsePacket text script n k (requestJson n.rpcId c)] := by
    rw [inboxAfter, hdata]
    rfl
  have hsize := hs.size k (requestJson n.rpcId c)
  simp only [maxDatagramSize, scriptedResponse_requestJson] at hsize
  have hread := rpcResponse_control text (n.sendControl text (requestJson n.rpcId c)).2
    (response_plain (script.answer k c) n.rpcId)
    (n.sendControl text (requestJson n.rpcId c)).2.bpCounter (by omega)
  rw [responsePacket, scriptedResponse_requestJson] at hinbox
  have hcall := rpcOver_head hinbox hread
  refine ⟨_, ?_, hcall⟩
  exact ⟨rfl, rfl, rfl, rfl, rfl⟩

/-- With data before the response, the call returns the empty response and
leaves the real one at the socket. -/
theorem rpcOver_data {k : ℕ} {d : Bytes} {ds : List Bytes} (hdata : script.data k = d :: ds) :
    ∃ n' rest, Called n n' ∧ rpcOver text script n (k, []) (requestJson n.rpcId c) =
      .ok (n', (k + 1, rest), .null) := by
  have hinbox : inboxAfter text script n (k, []) (requestJson n.rpcId c) =
      d :: (ds ++ [responsePacket text script n k (requestJson n.rpcId c)]) := by
    rw [inboxAfter, hdata]
    rfl
  have hread := rpcResponse_data text (n.sendControl text (requestJson n.rpcId c)).2
    (hs.data k d (by simp [hdata]))
  have hcall := rpcOver_head hinbox hread
  refine ⟨_, _, ?_, hcall⟩
  exact ⟨rfl, rfl, rfl, rfl, rfl⟩

/-- The call meets its specification from an empty inbox: the answer and an
empty inbox, or nothing because data came first. -/
theorem callMeets_scripted (k : ℕ) :
    CallMeets (scripted text script) n (k, []) c fun n' r z =>
      Called n n' ∧ (r.isSome = true ↔ script.data k = []) ∧
        (r.isSome = true → z = (k + 1, [])) := by
  intro y hy n' z d hserve
  subst hy
  refine ⟨trivial, ?_⟩
  cases hdata : script.data k with
  | nil =>
    obtain ⟨m, hm, hrpc⟩ := rpcOver_quiet hs n c hdata
    have heq := hrpc.symm.trans hserve
    injection heq with heq
    injection heq with hm' heq
    injection heq with hz hd
    subst hm' hz hd
    refine ⟨_, .granted _ (hs.answer k c), fun w hw => ?_⟩
    subst hw
    simp [hm]
  | cons d' ds =>
    obtain ⟨m, rest, hm, hrpc⟩ := rpcOver_data hs n c hdata
    have heq := hrpc.symm.trans hserve
    injection heq with heq
    injection heq with hm' heq
    injection heq with hz hd
    subst hm' hz hd
    refine ⟨none, .nothing, fun w hw => ?_⟩
    simp [hm]

end Call

/-! ## A session of calls -/

theorem rpcResponse_total {n : Node} {d : Bytes}
    (h : ∃ decoded, decodePacketBuffer text (Memory.load d n.buffer) d.length = .ok decoded) :
    ∃ n' response, n.rpcResponse text (.datagram d) = .ok (n', response) := by
  obtain ⟨decoded, hd⟩ := h
  simp only [rpcResponse, receiveMessage, hd, bind, Except.bind, pure, Except.pure]
  split_ifs
  · exact ⟨_, _, rfl⟩
  · simp only
    split_ifs <;> exact ⟨_, _, rfl⟩

theorem rpcOver_total (hs : Script.Sound text script) (n : Node) (x : Waiting) (request : Json)
    (hx : Readable text x.2) :
    ∃ n' z response, rpcOver text script n x request = .ok (n', z, response) ∧
      Readable text z.2 := by
  have hinbox : Readable text (inboxAfter text script n x request) := by
    intro d hd old
    rcases List.mem_append.mp hd with hd | hd
    · exact hx d hd old
    rcases List.mem_append.mp hd with hd | hd
    · exact readable_data (hs.data _ d hd) d (by simp) old
    · rw [List.mem_singleton.mp hd]
      have hsize := hs.size x.1 request
      simp only [maxDatagramSize] at hsize
      exact ⟨_, decode_controlPacket text (scriptedResponse_plain x.1 request) _ old (by omega)⟩
  cases h : inboxAfter text script n x request with
  | nil => simp [inboxAfter] at h
  | cons d rest =>
    rw [h] at hinbox
    obtain ⟨n', response, hread⟩ := rpcResponse_total (n := (n.sendControl text request).2)
      (hinbox d (by simp) _)
    exact ⟨_, _, _, rpcOver_head h hread, fun d' hd' => hinbox d' (by simp [hd'])⟩

theorem sessionOver_of_safe {α : Type} (hs : Script.Sound text script)
    {Q : Node → α → Waiting → Prop} {m : Session Node Json Json Fault α} {x : Waiting}
    (hx : Readable text x.2) (h : m.Safe (scripted text script) Q x) :
    ∃ n a z, sessionOver text script m x = .ok (n, a, z) ∧ Q n a z := by
  induction m generalizing x with
  | ret n a => exact ⟨n, a, x, rfl, h.post⟩
  | throw e => exact h.elim
  | call n request resume ih =>
    obtain ⟨n', z, response, hrpc, hz⟩ := rpcOver_total hs n x request hx
    have hnext := (h x rfl n' z response hrpc).2
    obtain ⟨m, a, y, hrun, hq⟩ := ih n' response hz hnext
    refine ⟨m, a, y, ?_, hq⟩
    rw [sessionOver, hrpc]
    exact hrun

/-- Where `m` calls from the `k`-th on have led: no data came in between and the
inbox is empty, or one of them met data and the session gave up. -/
def Stage (script : Script) (k m : ℕ) (ok : Bool) (z : Waiting) : Prop :=
  if ok then z = (k + m, []) ∧ ∀ j, k ≤ j → j < k + m → script.data j = []
  else ∃ j, k ≤ j ∧ j < k + m ∧ script.data j ≠ []

theorem Stage.zero (k : ℕ) : Stage script k 0 true (k, []) :=
  ⟨rfl, fun j _ _ => by omega⟩

theorem Stage.start {k m : ℕ} {z : Waiting} (h : Stage script k m true z) : z = (k + m, []) := h.1

theorem Stage.stop {k m m' : ℕ} {z z' : Waiting} (h : Stage script k m false z) (hm : m ≤ m') :
    Stage script k m' false z' := by
  obtain ⟨j, hk, hj, hdata⟩ := h
  exact ⟨j, hk, by omega, hdata⟩

theorem Stage.next {k m m' l : ℕ} {ok : Bool} {z z' : Waiting} (h : Stage script k m true z)
    (h' : Stage script (k + m) m' ok z') (hl : l = m + m') : Stage script k l ok z' := by
  subst hl
  cases ok with
  | true =>
    refine ⟨by rw [h'.1, Nat.add_assoc], fun j hk hj => ?_⟩
    by_cases hjm : j < k + m
    · exact h.2 j hk hjm
    · exact h'.2 j (by omega) (by omega)
  | false =>
    obtain ⟨j, hk, hj, hdata⟩ := h'
    exact ⟨j, by omega, by omega, hdata⟩

section Registration

variable (hs : Script.Sound text script)

include hs

theorem callMeets_stage (n : Node) (c : ControlRequest) (k : ℕ) :
    CallMeets (scripted text script) n (k, []) c fun n' r z =>
      Called n n' ∧ Stage script k 1 r.isSome z := by
  intro y hy n' z d hserve
  obtain ⟨hg, r, hr, hpost⟩ := callMeets_scripted hs n c k y hy n' z d hserve
  refine ⟨hg, r, hr, fun w hw => ?_⟩
  obtain ⟨hcalled, hiff, hz⟩ := hpost w hw
  refine ⟨hcalled, ?_⟩
  cases hsome : r.isSome with
  | true =>
    refine ⟨hz hsome, fun j hk hj => ?_⟩
    obtain rfl : j = k := by omega
    exact hiff.mp hsome
  | false =>
    refine ⟨k, le_rfl, by omega, fun hdata => ?_⟩
    rw [hiff.mpr hdata] at hsome
    cases hsome

theorem safe_registerNode_stage (n : Node) (k : ℕ) :
    (registerNode n).Safe (scripted text script) (fun n' ok z =>
      n'.publishers = n.publishers ∧ n'.subscribers = n.subscribers ∧ Stage script k 1 ok z)
      (k, []) := by
  refine (safe_registerNode (callMeets_stage hs n _ k)).mono fun n' ok z h => ?_
  cases ok with
  | true =>
    obtain ⟨n₀, id, rfl, hcalled, hstage⟩ := h
    exact ⟨hcalled.publishers, hcalled.subscribers, hstage⟩
  | false => exact ⟨h.1.publishers, h.1.subscribers, h.2⟩

theorem safe_registerPublisher_stage (i : ℕ) (p : Publisher) (n : Node) (k : ℕ) :
    (registerPublisher i p n).Safe (scripted text script) (fun _ ok z => Stage script k 3 ok z)
      (k, []) := by
  refine Program.safe_bind ((safe_registerMessageType (callMeets_stage hs n _ k)).mono ?_)
  rintro n₁ (_ | messageTypeId) z₁ ⟨_, h₁⟩
  · exact fun _ _ => h₁.stop (by omega)
  obtain rfl := h₁.start
  simp only [Program.bind_apply, Program.modify_apply, Session.ret_bind]
  refine Session.Safe.bind ((safe_registerTopic (callMeets_stage hs _ _ (k + 1))).mono ?_)
  rintro n₂ (_ | ⟨topicId, priority⟩) z₂ h₂
  · exact fun _ _ => (h₁.next h₂.2 rfl).stop (by omega)
  obtain ⟨actual, ⟨_, h₂⟩, _⟩ := h₂
  obtain rfl := h₂.start
  have h₁₂ := h₁.next h₂ rfl
  simp only [Program.bind_apply, Program.modify_apply, Session.ret_bind]
  refine Session.Safe.bind ((safe_addPublisher (callMeets_stage hs _ _ (k + 2))).mono ?_)
  rintro n₃ (_ | _) z₃ ⟨_, h₃⟩
  · exact fun _ _ => h₁₂.next h₃ rfl
  · intro z hz
    subst hz
    exact h₁₂.next h₃ rfl

theorem safe_registerSubscriber_stage (i : ℕ) (s : Subscriber) (n : Node) (k : ℕ) :
    (registerSubscriber i s n).Safe (scripted text script) (fun _ ok z => Stage script k 3 ok z)
      (k, []) := by
  refine Program.safe_bind ((safe_registerMessageType (callMeets_stage hs n _ k)).mono ?_)
  rintro n₁ (_ | messageTypeId) z₁ ⟨_, h₁⟩
  · exact fun _ _ => h₁.stop (by omega)
  obtain rfl := h₁.start
  simp only [Program.bind_apply, Program.modify_apply, Session.ret_bind]
  refine Session.Safe.bind ((safe_registerTopic (callMeets_stage hs _ _ (k + 1))).mono ?_)
  rintro n₂ (_ | ⟨topicId, priority⟩) z₂ h₂
  · exact fun _ _ => (h₁.next h₂.2 rfl).stop (by omega)
  obtain ⟨actual, ⟨_, h₂⟩, _⟩ := h₂
  obtain rfl := h₂.start
  have h₁₂ := h₁.next h₂ rfl
  simp only [Program.bind_apply, Program.modify_apply, Session.ret_bind]
  refine Session.Safe.bind ((safe_addSubscriber (callMeets_stage hs _ _ (k + 2))).mono ?_)
  rintro n₃ (_ | _) z₃ ⟨_, h₃⟩
  · exact fun _ _ => h₁₂.next h₃ rfl
  · intro z hz
    subst hz
    exact h₁₂.next h₃ rfl

omit hs in
theorem safe_registerEach_stage {α : Type} {register : ℕ → α → NodeM Bool}
    (hregister : ∀ i e n k, (register i e n).Safe (scripted text script)
      (fun _ ok z => Stage script k 3 ok z) (k, []))
    (es : List α) (i : ℕ) (n : Node) (k : ℕ) :
    (registerEach register i es n).Safe (scripted text script)
      (fun _ ok z => Stage script k (3 * es.length) ok z) (k, []) := by
  induction es generalizing i n k with
  | nil =>
    intro z hz
    subst hz
    exact Stage.zero k
  | cons e es ih =>
    refine Program.safe_bind ((hregister i e n k).mono ?_)
    rintro n₁ (_ | _) z₁ h₁
    · exact fun _ _ => h₁.stop (by simp)
    obtain rfl := h₁.start
    refine (ih (i + 1) n₁ (k + 3)).mono fun n₂ ok z₂ h₂ => h₁.next h₂ ?_
    rw [List.length_cons]
    omega

/-- All calls of `connect`: one for the node and three for each endpoint. -/
def connectCalls (n : Node) : ℕ := 1 + 3 * (n.publishers.length + n.subscribers.length)

theorem safe_connect_stage (n : Node) :
    (connect n).Safe (scripted text script) (fun _ ok z => Stage script 0 n.connectCalls ok z)
      (0, []) := by
  refine Program.safe_bind ((safe_registerNode_stage hs n 0).mono ?_)
  rintro n₁ (_ | _) z₁ ⟨hpublishers, hsubscribers, h₁⟩
  · exact fun _ _ => h₁.stop (by simp [connectCalls])
  obtain rfl := h₁.start
  simp only [Bool.not_true, Bool.false_eq_true, if_false, Program.bind_apply, Program.get_apply,
    Session.ret_bind, hpublishers, hsubscribers]
  refine Session.Safe.bind ((safe_registerEach_stage
    (safe_registerPublisher_stage hs) n.publishers 0 n₁ (0 + 1)).mono ?_)
  rintro n₂ (_ | _) z₂ h₂
  · exact fun _ _ => (h₁.next h₂ rfl).stop (by simp only [connectCalls]; omega)
  obtain rfl := h₂.start
  have h₁₂ := h₁.next h₂ rfl
  refine (safe_registerEach_stage (safe_registerSubscriber_stage hs) n.subscribers 0 n₂
    (0 + 1 + 3 * n.publishers.length)).mono fun n₃ ok z₃ h₃ => ?_
  rw [Nat.add_assoc] at h₃
  refine h₁₂.next h₃ ?_
  simp only [connectCalls]
  omega

/-- `connect` ends, with true exactly if no request was answered behind data. -/
theorem connect_ends (n : Node) :
    ∃ n' ok z, sessionOver text script (connect n) (0, []) = .ok (n', ok, z) ∧
      (ok = true ↔ ∀ k < n.connectCalls, script.data k = []) := by
  have hempty : Readable text ((0, []) : Waiting).2 := by simp [Readable]
  obtain ⟨n', ok, z, hrun, hstage⟩ := sessionOver_of_safe hs hempty (safe_connect_stage hs n)
  refine ⟨n', ok, z, hrun, ?_⟩
  cases ok with
  | true => exact iff_of_true rfl fun k hk => hstage.2 k (by omega) (by omega)
  | false =>
    obtain ⟨k, _, hk, hdata⟩ := hstage
    exact iff_of_false (by simp) fun hall => hdata (hall k (by omega))

end Registration

/-- Every call from an empty socket returns the response to its own request if
and only if no data came first, and so `connect`, with every request granted,
returns true if and only if none was answered behind data. -/
theorem connect_with_data (text : JsonText) (script : Script)
    (hs : Script.Sound text script) :
    (∀ (n : Node) (c : ControlRequest) (k : ℕ), ∃ n' z response,
      rpcOver text script n (k, []) (requestJson n.rpcId c) = .ok (n', z, response) ∧
        (response = (script.answer k c).response (.ofUInt32 n.rpcId) ↔ script.data k = [])) ∧
    ∀ n : Node, ∃ n' ok z, sessionOver text script (connect n) (0, []) = .ok (n', ok, z) ∧
      (ok = true ↔ ∀ k < n.connectCalls, script.data k = []) := by
  refine ⟨fun n c k => ?_, connect_ends hs⟩
  cases hdata : script.data k with
  | nil =>
    obtain ⟨n', _, hrpc⟩ := rpcOver_quiet hs n c hdata
    exact ⟨n', _, _, hrpc, iff_of_true rfl rfl⟩
  | cons d ds =>
    obtain ⟨n', rest, _, hrpc⟩ := rpcOver_data hs n c hdata
    refine ⟨n', _, _, hrpc, iff_of_false (fun h => ?_) (by simp)⟩
    rw [ControlAnswer.response_eq] at h
    cases h

/-! ## A second subscriber joins a live topic -/

/-- Two nodes' topics; the first one is already being published to. -/
def liveScript : Script where
  data k := if k = 4 then [dataHeaderBytes 9 0 0 1 ++ [42]] else []
  answer _
    | .registerNode _ => .node 1
    | .registerMessageType .. => .messageType 0
    | .registerTopic name .. => .topic (if name = "imu" then 1 else 0) 0
    | .addPublisher .. => .added
    | .addSubscriber .. => .added

def joiningNode : Node :=
  ((Node.create "listener").createSubscriber "pose" "pose_t" 1 0).createSubscriber "imu" "imu_t" 1 0

theorem liveScript_sound : Script.Sound compactJson liveScript where
  data k d hd := by
    simp only [liveScript] at hd
    split_ifs at hd
    · rw [List.mem_singleton.mp hd]
      exact ⟨9, 0, 0, 1, [42], rfl, rfl, by decide⟩
    · cases hd
  answer k c := by cases c <;> trivial
  size k request := by
    simp only [maxDatagramSize]
    unfold scriptedResponse
    split
    · rename_i c rpcId _ _
      have hlen := length_dump_response_le (liveScript.answer k c) rpcId
      omega
    · decide

theorem connect_with_data_join :
    ∃ n' ok z, sessionOver compactJson liveScript (connect joiningNode) (0, []) =
      .ok (n', ok, z) ∧ (ok = true ↔ ∀ k < joiningNode.connectCalls, liveScript.data k = []) :=
  (connect_with_data compactJson liveScript liveScript_sound).2 joiningNode

/-- A data packet for the first topic arrives before the response for the second
subscriber's message type: `connect` fails though every request was granted. -/
theorem connect_with_data_fails :
    ¬ ∀ script : Script, Script.Sound compactJson script → ∃ n' z,
      sessionOver compactJson script (connect joiningNode) (0, []) = .ok (n', true, z) := by
  intro h
  obtain ⟨m, y, htrue⟩ := h liveScript liveScript_sound
  obtain ⟨n', ok, z, hrun, hiff⟩ := connect_ends liveScript_sound joiningNode
  rw [hrun] at htrue
  injection htrue with htrue
  injection htrue with _ htrue
  injection htrue with htrue _
  have hdata := hiff.mp htrue 4 (by decide)
  simp [liveScript] at hdata

end Node
end Crps
