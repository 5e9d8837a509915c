import Crps.Broker.Correlation
import Crps.System.Carriage
import Crps.System.Priorities

/-!
# What no run comes to

Only the text of a control packet can make the decoder throw, and the nodes and
the broker write that text themselves. So as long as every client is a node, no
exception leaves the broker's loop, and none leaves `spin_once` of a node that
is connected, whatever the network loses. The loop goes on as long as its
responses fit a datagram.
-/

namespace Crps

namespace Node

variable {text : JsonText} {n : Node} {packet : Bytes}

theorem spinOnce_notControl (hpacket : packet.head? ≠ some 1) (env : SpinEnvironment) :
    ∃ out, n.spinOnce text (.datagram packet) env = .ok out := by
  obtain ⟨d, hd, _⟩ := decode_notControl text hpacket n.buffer
  have hprocessed : ∃ n' events processed,
      n.processIncomingMessage text (.datagram packet) = .ok (n', events, processed) := by
    rw [processIncomingMessage_of_decode hd]
    simp only
    split_ifs
    · exact ⟨_, _, _, rfl⟩
    · exact ⟨_, _, _, rfl⟩
  obtain ⟨n', events, processed, hprocessed⟩ := hprocessed
  exact ⟨_, spinOnce_of_processed hprocessed rfl⟩

theorem spinOnce_wouldBlock (env : SpinEnvironment) :
    ∃ out, n.spinOnce text .wouldBlock env = .ok out :=
  ⟨_, spinOnce_of_processed rfl rfl⟩

end Node

theorem Tables.exists_reply (t : Tables) (client : String) (rpcId : UInt32) (c : ControlRequest) :
    ∃ reply, t.processControlRequest client (Node.requestJson rpcId c) = .ok reply := by
  rw [processControlRequest_eq, Node.ofJson_requestJson]
  simp only [Except.bind]
  cases hresult : (t.handle client c).result with
  | none =>
    simp only [respond, hresult, Node.requestJson_rpcId]
    exact ⟨_, rfl⟩
  | some a =>
    simp only [respond, hresult, Node.requestJson_rpcId]
    exact ⟨_, rfl⟩

theorem JsonText.DumpsResponses.reply {text : JsonText} (h : text.DumpsResponses) {t : Tables}
    {client : String} {rpcId : UInt32} {c : ControlRequest} {reply : ControlReply}
    (hreply : t.processControlRequest client (Node.requestJson rpcId c) = .ok reply) :
    9 + (text.dump reply.response).length ≤ maxDatagramSize := by
  rw [Tables.processControlRequest_eq, Node.ofJson_requestJson] at hreply
  obtain ⟨_, _, hresponse⟩ := Tables.respond_ok hreply
  cases hresult : (t.handle client c).result with
  | none =>
    rw [hresult] at hresponse
    obtain ⟨id, hfailure⟩ := hresponse
    rw [hfailure]
    exact h.refused id c
  | some a =>
    rw [hresult] at hresponse
    obtain ⟨id, hid, hsuccess⟩ := hresponse
    rw [Node.requestJson_rpcId] at hid
    injection hid with hid
    rw [hsuccess, ← hid]
    exact h.granted a rpcId

namespace Broker

variable {text : JsonText} {b : Broker} {client : String} {packet : Bytes}

theorem exists_spinIteration_notControl (hpacket : packet.head? ≠ some 1) (sendto : Sendto) :
    ∃ it, b.spinIteration text sendto client packet = .ok it ∧ it.stopped = false := by
  obtain ⟨d, hd, htype⟩ := decode_notControl text hpacket b.buffer
  have hok : ∃ it, b.spinIteration text sendto client packet = .ok it := by
    simp only [spinIteration, hd, bind, Except.bind]
    split_ifs
    · exact ⟨_, rfl⟩
    · split
      · exact ⟨_, rfl⟩
      · rename_i hcontrol
        exact absurd hcontrol htype
      · exact ⟨_, rfl⟩
      · exact ⟨_, rfl⟩
  obtain ⟨it, hit⟩ := hok
  exact ⟨it, hit, (spinIteration_notControl hpacket hit).2.1⟩

theorem exists_spinIteration_request (htext : text.DumpsResponses) {rpcId : UInt32}
    {c : ControlRequest} {counter : BpCounter}
    (hpacket : packet = bpControlJsonToPacketBuffer text (Node.requestJson rpcId c) counter)
    (hlen : packet.length < 2 ^ 32) :
    ∃ it, b.spinIteration text System.brokerSendto client packet = .ok it ∧
      it.stopped = false := by
  rw [hpacket, length_controlPacket] at hlen
  have hd := decode_controlPacket text (Node.requestJson_plain rpcId c) counter b.buffer hlen
  rw [← hpacket] at hd
  cases hpass : (verifyAndUpdateClientCounter b.clientCounters client counter).1 with
  | false =>
    refine ⟨{ broker := b.checked client packet counter, disposal := .wrongCounter }, ?_, rfl⟩
    simp only [spinIteration, hd, bind, Except.bind, hpass]
    rfl
  | true =>
    obtain ⟨reply, hreply⟩ := b.tables.exists_reply client rpcId c
    have hok : ∃ it, processControl text (b.checked client packet counter) System.brokerSendto
        client (Node.requestJson rpcId c) = .ok it := by
      simp only [processControl, checked, hreply, bind, Except.bind]
      exact ⟨_, rfl⟩
    obtain ⟨it, hit⟩ := hok
    refine ⟨it, (spinIteration_of_control System.brokerSendto hd hpass rfl).trans hit, ?_⟩
    obtain ⟨reply', hreply', packet', rfl, rfl⟩ := processControl_ok hit
    have hfits := System.brokerSendto_controlPacket 0 client
      ((((b.checked client packet counter).clientCounters client).getD 0)) (htext.reply hreply')
    simp only [hfits, Bool.not_true]

end Broker

namespace System

variable {ι : Type} {net : Deployment ι} {nodes : ι → Node} {s s' : System ι} {i : ι}
variable {r : Registry}

theorem Orderly.serves (h : Orderly net nodes s r) (htext : net.text.DumpsResponses)
    {d : Datagram ι} {rest : List (Datagram ι)} (hup : s.up i = d :: rest) :
    ∃ it, s.broker.spinIteration net.text brokerSendto (net.address i) d.bytes = .ok it ∧
      it.stopped = false := by
  by_cases hd : d.bytes.head? = some 1
  · have hbytes : (s.up i).map Datagram.bytes = d.bytes :: rest.map Datagram.bytes := by
      rw [hup, List.map_cons]
    obtain ⟨rpcId, c, hopens⟩ := (h.dealings i).opens hbytes hd
    obtain ⟨counter, hpacket⟩ := hopens.encoding
    exact Broker.exists_spinIteration_request htext hpacket hopens.size
  · exact Broker.exists_spinIteration_notControl hd brokerSendto

theorem Orderly.connected_down (h : Orderly net nodes s r) (hphase : s.phase i = .connected)
    {d : Datagram ι} (hd : d ∈ s.down i) : d.bytes.head? ≠ some 1 := by
  have hi := h.dealings i
  rw [hphase] at hi
  cases hi with
  | connected _ hdown =>
    exact controls_eq_nil.mp hdown d.bytes (List.mem_map_of_mem hd)

theorem Orderly.spins (h : Orderly net nodes s r) (hphase : s.phase i = .connected)
    {reception : Reception} {origin : Option (MessageId ι)} {rest : List (Datagram ι)}
    (hreceipt : Receipt (s.down i) reception origin rest) (env : SpinEnvironment) :
    ∃ out, (s.node i).spinOnce net.text reception env = .ok out := by
  cases hreceipt with
  | nothing => exact Node.spinOnce_wouldBlock env
  | datagram hwaiting =>
    apply Node.spinOnce_notControl
    exact h.connected_down hphase (by rw [hwaiting]; exact List.mem_cons_self)

variable [DecidableEq ι]

theorem step_connected (h : Orderly net nodes s r) {a : Action ι}
    (hstep : s.step net a = some s') (hphase : s.phase i = .connected) :
    s'.phase i = .connected := by
  have hcontinue : ∀ {x : ι} {n : Node} {m : Session Node Json Json Fault Bool} {s₁ : System ι},
      s₁.phase i = .connected → x ≠ i → (s₁.continueConnect net x n m).phase i = .connected := by
    intro x n m s₁ hconnected hxi
    simpa [continueConnect, Ne.symm hxi] using hconnected
  cases a with
  | connect x =>
    obtain ⟨hcreated, rfl⟩ := step_connect hstep
    apply hcontinue hphase
    rintro rfl
    rw [hphase] at hcreated
    cases hcreated
  | rpcReturn x =>
    obtain ⟨resume, d, rest, hwaiting, _, hcases⟩ := step_rpcReturn hstep
    have hxi : x ≠ i := by
      rintro rfl
      rw [hphase] at hwaiting
      cases hwaiting
    rcases hcases with ⟨fault, _, rfl⟩ | ⟨n, response, _, rfl⟩
    · simpa [Ne.symm hxi] using hphase
    · exact hcontinue hphase hxi
  | broker x =>
    obtain ⟨_, _, _, _, hcases⟩ := step_broker hstep
    rcases hcases with ⟨_, _, rfl⟩ | ⟨_, _, rfl⟩
    · exact hphase
    · exact hphase
  | publish x k data =>
    obtain ⟨_, rfl⟩ := step_publish hstep
    exact hphase
  | spin x receive env =>
    obtain ⟨hconnected, reception, origin, rest, hreceipt, hcases⟩ := step_spin hstep
    rcases hcases with ⟨fault, hfault, _⟩ | ⟨out, _, rfl⟩
    · obtain ⟨out, hout⟩ := h.spins hconnected hreceipt env
      rw [hfault] at hout
      cases hout
    · exact hphase
  | loseUp x position =>
    injection hstep with hstep
    exact hstep ▸ hphase
  | loseDown x position =>
    injection hstep with hstep
    exact hstep ▸ hphase

theorem Orderly.run_connected (h : Orderly net nodes s r) (hnodes : ∀ i, Node.Created (nodes i))
    {as : List (Action ι)} (hphase : s.phase i = .connected) (hrun : s.run net as = some s') :
    s'.phase i = .connected := by
  obtain ⟨_, _, hconnected⟩ := run_invariant
    (P := fun s => ∃ r, Orderly net nodes s r ∧ s.phase i = .connected)
    (fun a _ s₁ s₂ h hstep => by
      obtain ⟨r₁, h₁, hphase₁⟩ := h
      obtain ⟨r₂, h₂, _⟩ := step_orderly hnodes h₁ hstep
      exact ⟨r₂, h₂, step_connected h₁ hstep hphase₁⟩)
    ⟨r, h, hphase⟩ hrun
  exact hconnected

end System
end Crps
