import Crps.System.Steps

/-!
# One client's dealings with the broker

At any time a client's handshake is in one of six situations, told by its
phase and by the control packets on its two links: there is at most one, the
open request or its response. Each situation keeps the rest of `connect` safe
against whatever the other clients do meanwhile.
-/

namespace Crps

/-- The control packets among some datagrams. -/
def controls (packets : List Bytes) : List Bytes :=
  packets.filter fun packet => packet.head? = some 1

@[simp] theorem controls_nil : controls [] = [] := rfl

theorem controls_append (xs ys : List Bytes) : controls (xs ++ ys) = controls xs ++ controls ys :=
  List.filter_append ..

theorem controls_cons_of_ne {packet : Bytes} (h : packet.head? ≠ some 1) (rest : List Bytes) :
    controls (packet :: rest) = controls rest := by simp [controls, h]

theorem controls_cons_of_eq {packet : Bytes} (h : packet.head? = some 1) (rest : List Bytes) :
    controls (packet :: rest) = packet :: controls rest := by simp [controls, h]

theorem controls_eq_nil {packets : List Bytes} :
    controls packets = [] ↔ ∀ packet ∈ packets, packet.head? ≠ some 1 := by
  simp [controls, List.filter_eq_nil_iff]

theorem head?_controlPacket (text : JsonText) (j : Json) (c : BpCounter) :
    (bpControlJsonToPacketBuffer text j c).head? = some 1 := rfl

/-- A request as a node may have put it on its link. -/
def IsRequest (text : JsonText) (client : String) (r : Registry) (packet : Bytes) : Prop :=
  ∃ rpcId c counter, packet = bpControlJsonToPacketBuffer text (Node.requestJson rpcId c) counter ∧
    packet.length < 2 ^ 32 ∧ (r.tables.Small → r.tables.Own client c)

/-! ## The broker on either kind of packet -/

namespace Broker

variable {text : JsonText} {b : Broker} {sendto : Sendto} {client : String} {packet : Bytes}
variable {it : Iteration}

theorem response_plain {c : ControlRequest} {rpcId : UInt32} {t : Tables} {reply : ControlReply}
    (h : t.processControlRequest client (Node.requestJson rpcId c) = .ok reply) :
    reply.response.Plain := by
  rw [Tables.processControlRequest_eq, Node.ofJson_requestJson] at h
  obtain ⟨_, _, hresponse⟩ := Tables.respond_ok h
  cases hresult : (t.handle client c).result with
  | none =>
    rw [hresult] at hresponse
    obtain ⟨id, hfailure⟩ := hresponse
    rw [hfailure]
    exact rpcFailureResponse_plain _ _ _
  | some a =>
    rw [hresult] at hresponse
    obtain ⟨id, hid, hsuccess⟩ := hresponse
    rw [Node.requestJson_rpcId] at hid
    injection hid with hid
    rw [hsuccess, ← hid]
    exact Node.response_plain _ _

theorem spinIteration_notControl (hpacket : packet.head? ≠ some 1)
    (h : b.spinIteration text sendto client packet = .ok it) :
    it.broker.tables = b.tables ∧ it.stopped = false ∧ ∀ a ∈ it.attempts, a.packet = packet := by
  obtain ⟨d, hd, hit⟩ := spinIteration_iterates h
  obtain ⟨d', hd', htype⟩ := decode_notControl text hpacket b.buffer
  rw [hd] at hd'
  injection hd' with hd'
  subst hd'
  cases hit with
  | refused => exact ⟨rfl, rfl, by simp⟩
  | invalid => exact ⟨rfl, rfl, by simp⟩
  | unknownType => exact ⟨rfl, rfl, by simp⟩
  | control _ hcontrol => exact absurd hcontrol htype
  | data =>
    refine ⟨by rw [processData_broker]; rfl, (processData_quiet _ _ _ _).1, fun a ha => ?_⟩
    simp only [processData] at ha
    split at ha
    · cases ha
    · split_ifs at ha
      · cases ha
      · cases ha
      · obtain ⟨k, id, _, rfl⟩ := List.mem_mapIdx.mp ha
        rfl

theorem spinIteration_request {rpcId : UInt32} {c : ControlRequest} {counter : BpCounter}
    (hpacket : packet = bpControlJsonToPacketBuffer text (Node.requestJson rpcId c) counter)
    (hlen : packet.length < 2 ^ 32) (h : b.spinIteration text sendto client packet = .ok it) :
    (it.broker.tables = b.tables ∧ it.attempts = []) ∨
      ∃ reply counter', b.tables.processControlRequest client (Node.requestJson rpcId c) =
          .ok reply ∧ it.broker.tables = reply.tables ∧
        it.attempts = [⟨client, bpControlJsonToPacketBuffer text reply.response counter',
          sendto 0 client (bpControlJsonToPacketBuffer text reply.response counter')⟩] := by
  obtain ⟨d, hd, hit⟩ := spinIteration_iterates h
  rw [hpacket, length_controlPacket] at hlen
  rw [hpacket, decode_controlPacket text (Node.requestJson_plain rpcId c) counter b.buffer hlen]
    at hd
  injection hd with hd
  have htype : d.type = .control := by rw [← hd]
  have hjson : d.controlJson = Node.requestJson rpcId c := by rw [← hd]
  cases hit with
  | refused => exact .inl ⟨rfl, rfl⟩
  | invalid _ hinvalid => simp [htype] at hinvalid
  | unknownType _ hother => simp [htype] at hother
  | data _ hdata => simp [htype] at hdata
  | control _ _ hcontrol =>
    obtain ⟨reply, hreply, packet', rfl, rfl⟩ := processControl_ok hcontrol
    rw [hjson] at hreply
    exact .inr ⟨reply, _, hreply, rfl, rfl⟩

end Broker

/-! ## The six situations -/

/-- The rest of `connect` cannot go wrong from here; where it returns true,
everything is registered. -/
def SafeConnect (client : String) (start : Node) (m : Session Node Json Json Fault Bool)
    (x : Desk) : Prop :=
  m.Safe (clientSetting client) (fun n ok z => ok = true →
    Node.Registered client start n.publishers.length n.subscribers.length n z) x

/-- A client's situation, by its phase, its node and the packets on its links. -/
inductive Dealings (text : JsonText) (client : String) (start : Node) (r : Registry) :
    Phase → Node → List Bytes → List Bytes → Prop
  | created {up down : List Bytes} :
      controls up = [] → controls down = [] →
      (r.tables.Small → ∀ id, ¬ r.tables.Owns client id) →
      Dealings text client start r .created start up down
  | asked {n : Node} {request : Json} {resume : Node → Json → Session Node Json Json Fault Bool}
      {up down : List Bytes} :
      controls up = [(n.sendControl text request).1] → controls down = [] →
      (n.sendControl text request).1.length ≤ maxDatagramSize →
      SafeConnect client start (.call n request resume) ⟨r, true⟩ →
      Dealings text client start r (.waiting resume) n.nextBpCounter.2 up down
  | answered {n : Node} {response : Json} {counter : BpCounter}
      {resume : Node → Json → Session Node Json Json Fault Bool} {up down : List Bytes} :
      controls up = [] →
      controls down = [bpControlJsonToPacketBuffer text response counter] →
      response.Plain → (bpControlJsonToPacketBuffer text response counter).length < 2 ^ 32 →
      (∀ n', n.Counted n' → SafeConnect client start (resume n' response) ⟨r, true⟩) →
      (∀ n', n.Counted n' → SafeConnect client start (resume n' .null) ⟨r, false⟩) →
      Dealings text client start r (.waiting resume) n.nextBpCounter.2 up down
  | lost {n : Node} {resume : Node → Json → Session Node Json Json Fault Bool}
      {up down : List Bytes} :
      controls up = [] → controls down = [] →
      (∀ n', n.Counted n' → SafeConnect client start (resume n' .null) ⟨r, false⟩) →
      Dealings text client start r (.waiting resume) n.nextBpCounter.2 up down
  | connected {n n₁ : Node} {up down : List Bytes} :
      controls up = [] → controls down = [] →
      Node.Registered client start n₁.publishers.length n₁.subscribers.length n₁ ⟨r, true⟩ →
      n.config = n₁.config → Dealings text client start r .connected n up down
  | failed {n : Node} {up down : List Bytes} :
      (∀ packet ∈ controls up, IsRequest text client r packet) →
      Dealings text client start r .failed n up down

theorem safeConnect_start {client : String} {start : Node} {r : Registry}
    (hcreated : Node.Created start)
    (hfresh : r.tables.Small → ∀ id, ¬ r.tables.Owns client id) :
    SafeConnect client start (Node.connect start) ⟨r, true⟩ :=
  Node.safe_connect_client rfl hcreated hfresh

section Sessions

variable {client : String} {start n : Node} {r : Registry} {request : Json}
variable {resume : Node → Json → Session Node Json Json Fault Bool} {live : Bool}

theorem SafeConnect.empty (h : SafeConnect client start (.call n request resume) ⟨r, live⟩)
    (r' : Registry) :
    live = true ∧ n.Asks client r request ∧
      ∀ n', n.Counted n' → SafeConnect client start (resume n' .null) ⟨r', false⟩ := by
  have hserve : ∀ n', n.Counted n' →
      (clientSetting client).serve n ⟨r, live⟩ request n' ⟨r', false⟩ .null :=
    fun n' hn' => ⟨hn', .inl ⟨rfl, rfl⟩⟩
  have hself : n.Counted { n with bpCounter := n.bpCounter + 1 } := ⟨n.buffer, rfl⟩
  obtain ⟨hlive, hasks⟩ := (h _ ((clientSetting client).rely_refl _) _ _ _ (hserve _ hself)).1
  exact ⟨hlive, hasks, fun n' hn' =>
    (h _ ((clientSetting client).rely_refl _) _ _ _ (hserve n' hn')).2⟩

theorem SafeConnect.reply {c : ControlRequest} {reply : ControlReply}
    (h : SafeConnect client start (.call n request resume) ⟨r, live⟩)
    (hreply : r.tables.processControlRequest client request = .ok reply)
    (htables : (r.handle client c).tables = reply.tables) :
    ∀ n', n.Counted n' →
      SafeConnect client start (resume n' reply.response) ⟨r.handle client c, live⟩ := by
  intro n' hn'
  exact (h _ ((clientSetting client).rely_refl _) n' ⟨r.handle client c, live⟩ reply.response
    ⟨hn', .inr ⟨reply, hreply, rfl, htables, rfl⟩⟩).2

theorem SafeConnect.stable {m : Session Node Json Json Fault Bool} {r' : Registry}
    (h : SafeConnect client start m ⟨r, live⟩) (hr : r.Relies client r') :
    SafeConnect client start m ⟨r', live⟩ :=
  Session.Safe.stable h ⟨rfl, hr⟩

/-- Once a call has come back empty, `connect` gives up. -/
theorem advance_dead {text : JsonText} {m : Session Node Json Json Fault Bool}
    (h : SafeConnect client start m ⟨r, false⟩) (n : Node) :
    ∃ n', advance text n m = (n', .failed, []) := by
  cases m with
  | ret n' ok =>
    cases ok with
    | true =>
      have hlive := (Session.Safe.post h rfl).live
      cases hlive
    | false => exact ⟨n', rfl⟩
  | throw e => exact ⟨n, rfl⟩
  | call n' request resume => cases (h.empty r).1

theorem advance_live (text : JsonText) {m : Session Node Json Json Fault Bool}
    (h : SafeConnect client start m ⟨r, true⟩) (n : Node) {up down : List Bytes}
    (hup : controls up = []) (hdown : controls down = []) :
    Dealings text client start r (advance text n m).2.1 (advance text n m).1
      (up ++ (advance text n m).2.2) down := by
  cases m with
  | ret n' ok =>
    cases ok with
    | true =>
      simp only [advance, List.append_nil]
      exact .connected hup hdown (Session.Safe.post h rfl) rfl
    | false => exact .failed (by simp [advance, hup])
  | throw e => exact .failed (by simp [advance, hup])
  | call n' request resume =>
    by_cases hlen : (n'.sendControl text request).1.length ≤ maxDatagramSize
    · simp only [advance, if_pos hlen]
      refine .asked ?_ hdown hlen h
      rw [controls_append, hup, List.nil_append, controls_cons_of_eq rfl, controls_nil]
    · simp only [advance, if_neg hlen]
      have hempty := (h.empty r).2.2 (n'.sendControl text request).2 ⟨n'.buffer, rfl⟩
      obtain ⟨n'', hdead⟩ := advance_dead hempty (n'.sendControl text request).2
      rw [hdead]
      exact .failed (by simp [hup])

end Sessions

namespace Dealings

variable {text : JsonText} {client : String} {start n : Node} {r r' : Registry} {phase : Phase}
variable {up down up' down' : List Bytes}

theorem request (h : Dealings text client start r phase n up down) {packet : Bytes}
    (hpacket : packet ∈ controls up) : IsRequest text client r packet := by
  cases h with
  | created hup => simp [hup] at hpacket
  | @asked n request _ _ _ hup _ hlen hsafe =>
    obtain ⟨_, ⟨c, rfl, hown⟩, _⟩ := hsafe.empty r
    rw [hup, List.mem_singleton] at hpacket
    subst hpacket
    simp only [maxDatagramSize] at hlen
    exact ⟨n.rpcId, c, _, rfl, by omega, hown⟩
  | answered hup => simp [hup] at hpacket
  | lost hup => simp [hup] at hpacket
  | connected hup => simp [hup] at hpacket
  | failed hrequests => exact hrequests packet hpacket

/-- The links may lose packets, gain packets that are not control packets, and
the others may be served. -/
theorem others (h : Dealings text client start r phase n up down) (hr : r.Relies client r')
    (hup : (controls up').Sublist (controls up))
    (hdown : (controls down').Sublist (controls down)) :
    Dealings text client start r' phase n up' down' := by
  have hnil : ∀ {xs ys : List Bytes}, (controls xs).Sublist (controls ys) → controls ys = [] →
      controls xs = [] := fun hsub hys => List.sublist_nil.mp (hys ▸ hsub)
  cases h with
  | created hu hd hfresh =>
    refine .created (hnil hup hu) (hnil hdown hd) fun hsmall id hid => ?_
    exact hfresh (hsmall.of_grows hr.1) id ((hr.2 hsmall).owns id hid)
  | asked hu hd hlen hsafe =>
    rw [hu] at hup
    rcases List.sublist_singleton.mp hup with hu' | hu'
    · exact .lost hu' (hnil hdown hd) (hsafe.empty r').2.2
    · exact .asked hu' (hnil hdown hd) hlen (hsafe.stable hr)
  | answered hu hd hplain hlen hanswer hempty =>
    rw [hd] at hdown
    rcases List.sublist_singleton.mp hdown with hd' | hd'
    · exact .lost (hnil hup hu) hd' fun n' hn' => (hempty n' hn').stable hr
    · exact .answered (hnil hup hu) hd' hplain hlen (fun n' hn' => (hanswer n' hn').stable hr)
        fun n' hn' => (hempty n' hn').stable hr
  | lost hu hd hempty =>
    exact .lost (hnil hup hu) (hnil hdown hd) fun n' hn' => (hempty n' hn').stable hr
  | connected hu hd hregistered hconfig =>
    exact .connected (hnil hup hu) (hnil hdown hd) (hregistered.stable ⟨rfl, hr⟩) hconfig
  | failed hrequests =>
    refine .failed fun packet hpacket => ?_
    obtain ⟨rpcId, c, counter, hp, hlen, hown⟩ := hrequests packet (hup.subset hpacket)
    exact ⟨rpcId, c, counter, hp, hlen, fun hsmall => (hown (hsmall.of_grows hr.1)).grows hr.1⟩

/-- A request at the head of the link, and the client's situation without it:
when it is refused, when its response is not sent, and when it is answered. -/
structure Opens (text : JsonText) (client : String) (start : Node) (r : Registry) (phase : Phase)
    (n : Node) (rest down : List Bytes) (packet : Bytes) (rpcId : UInt32) (c : ControlRequest) :
    Prop where
  encoding : ∃ counter,
    packet = bpControlJsonToPacketBuffer text (Node.requestJson rpcId c) counter
  size : packet.length < 2 ^ 32
  own : r.tables.Small → r.tables.Own client c
  refused : ∀ down', controls down' = controls down →
    Dealings text client start r phase n rest down'
  unsent : ∀ reply, r.tables.processControlRequest client (Node.requestJson rpcId c) = .ok reply →
    ∀ down', controls down' = controls down →
      Dealings text client start (r.handle client c) phase n rest down'
  answered : ∀ reply,
    r.tables.processControlRequest client (Node.requestJson rpcId c) = .ok reply →
    ∀ down' counter, (bpControlJsonToPacketBuffer text reply.response counter).length < 2 ^ 32 →
      controls down' = controls down ++ [bpControlJsonToPacketBuffer text reply.response counter] →
      Dealings text client start (r.handle client c) phase n rest down'

theorem opens (h : Dealings text client start r phase n up down) {packet : Bytes}
    {rest : List Bytes} (hup : up = packet :: rest) (hpacket : packet.head? = some 1) :
    ∃ rpcId c, Opens text client start r phase n rest down packet rpcId c := by
  have hcontrols : controls up = packet :: controls rest := by
    rw [hup, controls_cons_of_eq hpacket]
  cases h with
  | created hu => simp [hu] at hcontrols
  | answered hu => simp [hu] at hcontrols
  | lost hu => simp [hu] at hcontrols
  | connected hu => simp [hu] at hcontrols
  | @asked n request resume _ _ hu hd hlen hsafe =>
    rw [hu] at hcontrols
    injection hcontrols with hpacket' hrest
    obtain ⟨_, ⟨c, rfl, hown⟩, hempty⟩ := hsafe.empty r
    have hempty' := (hsafe.empty (r.handle client c)).2.2
    simp only [maxDatagramSize] at hlen
    refine ⟨n.rpcId, c, ⟨_, hpacket'.symm⟩, by rw [← hpacket']; omega, hown, ?_, ?_, ?_⟩
    · intro down' hd'
      exact .lost hrest.symm (hd'.trans hd) hempty
    · intro reply _ down' hd'
      exact .lost hrest.symm (hd'.trans hd) hempty'
    · intro reply hreply down' counter hsize hd'
      rw [hd, List.nil_append] at hd'
      exact .answered hrest.symm hd' (Broker.response_plain hreply) hsize
        (hsafe.reply hreply (Node.processControlRequest_requestJson hreply).1.symm) hempty'
  | failed hrequests =>
    obtain ⟨rpcId, c, counter, hp, hlen, hown⟩ :=
      hrequests packet (by rw [hcontrols]; exact List.mem_cons_self)
    have hrest : ∀ q ∈ controls rest, IsRequest text client r q := fun q hq =>
      hrequests q (by rw [hcontrols]; exact List.mem_cons_of_mem _ hq)
    have hrest' : ∀ q ∈ controls rest, IsRequest text client (r.handle client c) q := by
      intro q hq
      obtain ⟨rpcId', c', counter', hp', hlen', hown'⟩ := hrest q hq
      have hgrows := (r.tables.handle_handled client c).grows
      exact ⟨rpcId', c', counter', hp', hlen',
        fun hsmall => (hown' (hsmall.of_grows hgrows)).grows hgrows⟩
    exact ⟨rpcId, c, ⟨counter, hp⟩, hlen, hown, fun _ _ => .failed hrest,
      fun _ _ _ _ => .failed hrest', fun _ _ _ _ _ _ => .failed hrest'⟩

/-- The broker takes the client's request off the link. Whatever it does, the
other clients can rely on, and at most one response comes back. -/
theorem served (h : Dealings text client start r phase n up down) {packet : Bytes}
    {rest : List Bytes} (hup : up = packet :: rest) (hpacket : packet.head? = some 1) {b : Broker}
    {it : Iteration} (hb : b.tables = r.tables)
    (hit : b.spinIteration text System.brokerSendto client packet = .ok it) :
    ∃ r' : Registry, r'.tables = it.broker.tables ∧
      (∀ other, other ≠ client → r.Relies other r') ∧ (∀ a ∈ it.attempts, a.address = client) ∧
      ∀ down', controls down' = controls down ++
          controls ((it.attempts.filter SendAttempt.sent).map SendAttempt.packet) →
        Dealings text client start r' phase n rest down' := by
  obtain ⟨rpcId, c, hopens⟩ := h.opens hup hpacket
  obtain ⟨counter, hp⟩ := hopens.encoding
  rcases Broker.spinIteration_request hp hopens.size hit with
    ⟨htables, hattempts⟩ | ⟨reply, counter', hreply, htables, hattempts⟩
  · refine ⟨r, by rw [htables, hb], fun other _ => .refl other r, by simp [hattempts],
      fun down' hd' => hopens.refused down' ?_⟩
    simpa [hattempts] using hd'
  · rw [hb] at hreply
    have hhandled := r.tables.handle_handled client c
    refine ⟨r.handle client c, ?_, fun other hother => ⟨hhandled.grows, fun hsmall => ?_⟩, ?_,
      fun down' hd' => ?_⟩
    · rw [htables]
      exact (Node.processControlRequest_requestJson hreply).1.symm
    · exact hhandled.undisturbed (hopens.own (hsmall.of_grows hhandled.grows)) hother
    · simp [hattempts]
    · rw [hattempts] at hd'
      by_cases hsize : (bpControlJsonToPacketBuffer text reply.response counter').length ≤
          maxDatagramSize
      · refine hopens.answered reply hreply down' counter' ?_ ?_
        · simp only [maxDatagramSize] at hsize
          omega
        · simpa [System.brokerSendto, hsize, controls, head?_controlPacket] using hd'
      · refine hopens.unsent reply hreply down' ?_
        simpa [System.brokerSendto, hsize] using hd'

section Returned

variable {resume : Node → Json → Session Node Json Json Fault Bool} {n' : Node} {packet : Bytes}
variable {rest : List Bytes} {response : Json}

/-- What `connect` goes on with when its blocking receive returns: nothing that lives on, or what
the dispatcher has answered. -/
theorem resumed (h : Dealings text client start r (.waiting resume) n up down)
    (hdown : down = packet :: rest)
    (hresponse : n.rpcResponse text (.datagram packet) = .ok (n', response)) :
    SafeConnect client start (resume n' response) ⟨r, false⟩ ∨
      SafeConnect client start (resume n' response) ⟨r, true⟩ ∧ controls up = [] ∧
        controls rest = [] := by
  subst hdown
  -- with a packet that is no control packet the call comes back empty
  have hnothing : packet.head? ≠ some 1 → response = .null ∧
      n' = { n with buffer := Memory.load packet n.buffer } := by
    intro hpacket
    rw [Node.rpcResponse_notControl text n hpacket] at hresponse
    injection hresponse with hresponse
    injection hresponse with hn hj
    exact ⟨hj.symm, hn.symm⟩
  cases h with
  | asked _ hd _ hsafe =>
    obtain ⟨rfl, rfl⟩ := hnothing (controls_eq_nil.mp hd packet List.mem_cons_self)
    exact .inl ((hsafe.empty r).2.2 _ ⟨_, rfl⟩)
  | lost _ hd hempty =>
    obtain ⟨rfl, rfl⟩ := hnothing (controls_eq_nil.mp hd packet List.mem_cons_self)
    exact .inl (hempty _ ⟨_, rfl⟩)
  | answered hu hd hplain hlen hanswer hempty =>
    by_cases hpacket : packet.head? = some 1
    · rw [controls_cons_of_eq hpacket] at hd
      injection hd with heq hrest
      subst heq
      rw [length_controlPacket] at hlen
      rw [Node.rpcResponse_control text _ hplain _ hlen] at hresponse
      injection hresponse with hresponse
      injection hresponse with hn hj
      subst hn hj
      exact .inr ⟨hanswer _ ⟨_, rfl⟩, hu, hrest⟩
    · obtain ⟨rfl, rfl⟩ := hnothing hpacket
      exact .inl (hempty _ ⟨_, rfl⟩)

theorem returned (h : Dealings text client start r (.waiting resume) n up down)
    (hdown : down = packet :: rest)
    (hresponse : n.rpcResponse text (.datagram packet) = .ok (n', response)) :
    Dealings text client start r (advance text n' (resume n' response)).2.1
      (advance text n' (resume n' response)).1
      (up ++ (advance text n' (resume n' response)).2.2) rest := by
  rcases h.resumed hdown hresponse with hdead | ⟨hlive, hu, hrest⟩
  · obtain ⟨n'', hadvance⟩ := advance_dead hdead n'
    rw [hadvance]
    refine .failed fun q hq => ?_
    rw [List.append_nil] at hq
    exact h.request hq
  · exact advance_live text hlive _ hu hrest

end Returned

end Dealings
end Crps
