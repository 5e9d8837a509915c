import Crps.Broker.Loop
import Crps.Node.Spin

/-!
# One broker and its nodes over a datagram network

Each node has a link to the broker and one back; a link is the list of
datagrams in flight, oldest first. Every action of a schedule is one atomic
step: a node's `connect` up to its next blocking receive, the return of that
receive, one broker iteration, one `publish`, one `spin_once`, or the loss of a
datagram. What the nodes do is also written to a ledger, and data packets carry
the identity of their message; no step reads either.
-/

namespace Crps

/-- The JSON codec in use and the nodes' addresses as the broker sees them. -/
structure Deployment (ι : Type) where
  text : JsonText
  address : ι → String
  address_injective : Function.Injective address

/-- A message accepted by a publisher: which one, and its number there. -/
structure MessageId (ι : Type) where
  node : ι
  publisher : ℕ
  index : ℕ
  deriving DecidableEq

structure Datagram (ι : Type) where
  bytes : Bytes
  origin : Option (MessageId ι)

/-- Where a node is in its first `connect`. -/
inductive Phase where
  | created
  | waiting (resume : Node → Json → Session Node Json Json Fault Bool)
  | connected
  | failed

/-- The history of one node: its events, the packets it transmitted, those the
broker has looked at with the verdicts of the counter check, and for each
subscriber the origins of the queued messages and the messages handed to the
callback. -/
structure Ledger (ι : Type) where
  trace : List SpinEvent := []
  sent : List Bytes := []
  verdicts : List (Bytes × Bool) := []
  inbox : ℕ → List (Option (MessageId ι)) := fun _ => []
  delivered : ℕ → List (Option (MessageId ι) × Bytes) := fun _ => []

structure System (ι : Type) where
  broker : Broker
  brokerRunning : Bool
  node : ι → Node
  phase : ι → Phase
  up : ι → List (Datagram ι)
  down : ι → List (Datagram ι)
  ledger : ι → Ledger ι

inductive Action (ι : Type) where
  | connect (i : ι)
  | rpcReturn (i : ι)
  | broker (i : ι)
  | publish (i : ι) (publisher : ℕ) (data : Memory)
  | spin (i : ι) (receive : Bool) (env : SpinEnvironment)
  | loseUp (i : ι) (position : ℕ)
  | loseDown (i : ι) (position : ℕ)

/-- Payloads `publish` returned true for, by publisher. -/
def acceptedPayloads (trace : List SpinEvent) (k : ℕ) : List Bytes :=
  trace.filterMap fun
    | .publish j payload true => if j = k then some payload else none
    | _ => none

/-- Number of packets of a publisher that were transmitted. -/
def transmitted (trace : List SpinEvent) (k : ℕ) : ℕ :=
  trace.countP fun
    | .sendto j _ true => j = k
    | _ => false

namespace Ledger

variable {ι : Type}

/-- One event; `received` is the origin of the datagram being processed. -/
def record (received : Option (MessageId ι)) (l : Ledger ι) (e : SpinEvent) : Ledger ι :=
  match e with
  | .queueMessage k _ true =>
    { l with
      trace := l.trace ++ [e]
      inbox := Function.update l.inbox k (l.inbox k ++ [received]) }
  | .callback k message =>
    { l with
      trace := l.trace ++ [e]
      inbox := Function.update l.inbox k (l.inbox k).tail
      delivered := Function.update l.delivered k
        (l.delivered k ++ [((l.inbox k).head?.join, message)]) }
  | .sendto _ packet true => { l with trace := l.trace ++ [e], sent := l.sent ++ [packet] }
  | _ => { l with trace := l.trace ++ [e] }

def recordAll (received : Option (MessageId ι)) (l : Ledger ι) (events : List SpinEvent) :
    Ledger ι :=
  events.foldl (record received) l

def transmit (l : Ledger ι) (packets : List Bytes) : Ledger ι :=
  { l with sent := l.sent ++ packets }

def judge (l : Ledger ι) (packet : Bytes) (verdict : Bool) : Ledger ι :=
  { l with verdicts := l.verdicts ++ [(packet, verdict)] }

end Ledger

/-- The datagrams a node's events put on its link, given the events before. -/
def dispatched {ι : Type} (i : ι) (past : List SpinEvent) : List SpinEvent → List (Datagram ι)
  | [] => []
  | e :: es =>
    let rest := dispatched i (past ++ [e]) es
    match e with
    | .sendto k packet true => ⟨packet, some ⟨i, k, transmitted past k⟩⟩ :: rest
    | _ => rest

/-- Run `connect` to its next blocking receive or its end. An oversized request
fails in `sendto` and the call returns the empty response. -/
def advance (text : JsonText) (n : Node) :
    Session Node Json Json Fault Bool → Node × Phase × List Bytes
  | .ret n' true => (n', .connected, [])
  | .ret n' false => (n', .failed, [])
  | .throw _ => (n, .failed, [])
  | .call n' request resume =>
    let sent := n'.sendControl text request
    if sent.1.length ≤ maxDatagramSize then (sent.2, .waiting resume, [sent.1])
    else advance text sent.2 (resume sent.2 .null)

namespace System

variable {ι : Type} [DecidableEq ι] (net : Deployment ι)

/-- The broker started, the nodes set up, nothing sent. -/
def initial (nodes : ι → Node) : System ι where
  broker := .started
  brokerRunning := true
  node := nodes
  phase := fun _ => .created
  up := fun _ => []
  down := fun _ => []
  ledger := fun _ => {}

variable (s : System ι)

/-- Node `i` continues `connect` with the given session. -/
def continueConnect (i : ι) (n : Node) (session : Session Node Json Json Fault Bool) :
    System ι :=
  let moved := advance net.text n session
  { s with
    node := Function.update s.node i moved.1
    phase := Function.update s.phase i moved.2.1
    up := Function.update s.up i (s.up i ++ moved.2.2.map fun packet => ⟨packet, none⟩)
    ledger := Function.update s.ledger i ((s.ledger i).transmit moved.2.2) }

/-- The broker's `sendto` on a working network. -/
def brokerSendto : Sendto := fun _ _ packet => decide (packet.length ≤ maxDatagramSize)

/-- What an iteration's successful sends add to the link back to node `j`. -/
def arrivals (it : Iteration) (origin : Option (MessageId ι)) (j : ι) : List (Datagram ι) :=
  (it.attempts.filter fun a => a.sent && a.address == net.address j).map fun a =>
    ⟨a.packet, origin⟩

def brokerStep (i : ι) : Option (System ι) :=
  match s.brokerRunning, s.up i with
  | true, d :: rest =>
    let s' := { s with up := Function.update s.up i rest }
    match s.broker.spinIteration net.text brokerSendto (net.address i) d.bytes with
    | .error _ => some { s' with brokerRunning := false }
    | .ok it =>
      some { s' with
        broker := it.broker
        brokerRunning := !it.stopped
        down := fun j => s.down j ++ arrivals net it d.origin j
        ledger := Function.update s.ledger i
          ((s.ledger i).judge d.bytes it.disposal.passedCounter) }
  | _, _ => none

def publishStep (i : ι) (k : ℕ) (data : Memory) : Option (System ι) :=
  match s.phase i with
  | .connected =>
    let published := (s.node i).publish k data
    some { s with
      node := Function.update s.node i published.1
      ledger := Function.update s.ledger i ((s.ledger i).record none published.2) }
  | _ => none

/-- `spin_once` at node `i` with a given reception; `rest` stays on the link. -/
def spinWith (i : ι) (reception : Reception) (received : Option (MessageId ι))
    (rest : List (Datagram ι)) (env : SpinEnvironment) : System ι :=
  let s' := { s with down := Function.update s.down i rest }
  match (s.node i).spinOnce net.text reception env with
  | .error _ => { s' with phase := Function.update s.phase i .failed }
  | .ok out =>
    { s' with
      node := Function.update s.node i out.node
      up := Function.update s.up i
        (s.up i ++ dispatched i (s.ledger i).trace out.events)
      ledger := Function.update s.ledger i ((s.ledger i).recordAll received out.events) }

def spinStep (i : ι) (receive : Bool) (env : SpinEnvironment) : Option (System ι) :=
  match s.phase i with
  | .connected =>
    match receive, s.down i with
    | true, d :: rest => some (s.spinWith net i (.datagram d.bytes) d.origin rest env)
    | _, waiting => some (s.spinWith net i .wouldBlock none waiting env)
  | _ => none

def step : Action ι → Option (System ι)
  | .connect i =>
    match s.phase i with
    | .created => some (s.continueConnect net i (s.node i) (Node.connect (s.node i)))
    | _ => none
  | .rpcReturn i =>
    match s.phase i, s.down i with
    | .waiting resume, d :: rest =>
      let s' := { s with down := Function.update s.down i rest }
      match (s.node i).rpcResponse net.text (.datagram d.bytes) with
      | .error _ => some { s' with phase := Function.update s.phase i .failed }
      | .ok (n, response) => some (s'.continueConnect net i n (resume n response))
    | _, _ => none
  | .broker i => s.brokerStep net i
  | .publish i k data => s.publishStep i k data
  | .spin i receive env => s.spinStep net i receive env
  | .loseUp i position => some { s with up := Function.update s.up i ((s.up i).eraseIdx position) }
  | .loseDown i position =>
    some { s with down := Function.update s.down i ((s.down i).eraseIdx position) }

/-- A schedule, none where an action is not possible. -/
def run : System ι → List (Action ι) → Option (System ι)
  | s, [] => some s
  | s, a :: as => (s.step net a).bind fun s' => s'.run as

end System

end Crps
