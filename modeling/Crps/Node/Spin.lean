import Crps.Node.State

/-!
# `spin_once`

One call receives at most one datagram and then visits every registered
endpoint in priority order. Whatever the call does to the outside is recorded
as a list of events; callbacks and `sendto` are answered by an environment that
may look at everything that happened in the call so far.
-/

namespace Crps

inductive SpinEvent where
  | queueMessage (subscriber : ℕ) (payload : Bytes) (accepted : Bool)
  | callback (subscriber : ℕ) (message : Bytes)
  | publish (publisher : ℕ) (payload : Bytes) (accepted : Bool)
  | sendto (publisher : ℕ) (packet : Bytes) (sent : Bool)
  deriving DecidableEq, Repr

/-- What a callback does: the bytes it leaves in the message it was given and
its calls of `publish`, by publisher and data pointer. -/
structure CallbackEffect where
  left : Bytes := []
  publishes : List (ℕ × Memory) := []

structure SpinEnvironment where
  callback : List SpinEvent → ℕ → Bytes → CallbackEffect
  sendto : List SpinEvent → Bytes → Bool

inductive SpinOnceResult where
  | success
  | noWork
  | error
  deriving DecidableEq, Repr

/-- The endpoints in the order of the nested loops of `spin_once`. -/
inductive Endpoint where
  | subscriber (k : ℕ)
  | publisher (k : ℕ)
  deriving DecidableEq, Repr

/-- The loop state: the node, the events so far and `work_done`. -/
structure SpinState where
  node : Node
  events : List SpinEvent
  workDone : Bool

namespace Node

variable (text : JsonText)

/-- `publish` on the publisher at position `k`; false when there is none. -/
def publish (n : Node) (k : ℕ) (data : Memory) : Node × SpinEvent :=
  match n.publishers[k]? with
  | none => (n, .publish k [] false)
  | some p =>
    let published := p.publish data
    ({ n with publishers := n.publishers.set k published.2 },
      .publish k (data.slice 0 p.messageSize.toNat) published.1)

def publishAll (n : Node) : List (ℕ × Memory) → Node × List SpinEvent
  | [] => (n, [])
  | (k, data) :: rest =>
    let first := n.publish k data
    let others := first.1.publishAll rest
    (others.1, first.2 :: others.2)

/-- `queue_message` on the subscriber at position `k`. -/
def queueMessage (n : Node) (k : ℕ) (data : Memory) : Node × SpinEvent :=
  match n.subscribers[k]? with
  | none => (n, .queueMessage k [] false)
  | some s =>
    let queued := s.queueMessage data
    ({ n with subscribers := n.subscribers.set k queued.2 },
      .queueMessage k (data.slice 0 s.messageSize.toNat) queued.1)

def queueAll (n : Node) (data : Memory) : List ℕ → Node × List SpinEvent
  | [] => (n, [])
  | k :: ks =>
    let first := n.queueMessage k data
    let others := first.1.queueAll data ks
    (others.1, first.2 :: others.2)

/-- `process_incoming_message`, with its result and the queue operations. A
message type that differs from the first subscriber's is only logged. -/
def processIncomingMessage (n : Node) (reception : Reception) :
    Except Fault (Node × List SpinEvent × ℤ) := do
  let (n', received) ← n.receiveMessage text false reception
  match received with
  | .error => return (n', [], -1)
  | .nothing => return (n', [], 0)
  | .packet decoded =>
    if decoded.type ≠ .data then return (n', [], -1)
    else
      match n'.topics decoded.dataHeader.topicId with
      | none => return (n', [], -1)
      | some info =>
        if info.subscribers.isEmpty then return (n', [], -1)
        else
          let payload : Memory := fun k => n'.buffer (bpHeaderSize + bpDataHeaderSize + k)
          let queued := n'.queueAll payload info.subscribers
          return (queued.1, queued.2, 1)

/-- `spin_once` on one subscriber; false is the early return with an error. The
callback runs, its publishes included, before the message is popped. -/
def visitSubscriber (env : SpinEnvironment) (s : SpinState) (k : ℕ) : Bool × SpinState :=
  match s.node.subscribers[k]? with
  | none => (true, s)
  | some sub =>
    match sub.messageQueue.get with
    | none => (true, s)
    | some message =>
      let effect := env.callback s.events k message
      let published := s.node.publishAll effect.publishes
      let run := sub.runCallback effect.left
      let node := { published.1 with subscribers := published.1.subscribers.set k run.2 }
      (run.1, { s with node, events := s.events ++ .callback k message :: published.2 })

/-- `spin_once` on one publisher. The header is written into the queued packet,
which stays queued when `sendto` fails. -/
def visitPublisher (env : SpinEnvironment) (s : SpinState) (k : ℕ) : Bool × SpinState :=
  match s.node.publishers[k]? with
  | none => (true, s)
  | some p =>
    match p.getMessage with
    | none => (true, s)
    | some message =>
      let filled := s.node.sendData p.topicId p.messageTypeId message p.packetSize
      let p' := p.writeMessage 0 filled.1
      let sent := env.sendto s.events filled.1
      let events := s.events ++ [.sendto k filled.1 sent]
      if !sent then
        (false, { s with
          node := { filled.2 with publishers := filled.2.publishers.set k p' }, events })
      else
        (true,
          { node := { filled.2 with publishers := filled.2.publishers.set k p'.popMessage.2 }
            events, workDone := true })

def visit (env : SpinEnvironment) (s : SpinState) : Endpoint → Bool × SpinState
  | .subscriber k => visitSubscriber env s k
  | .publisher k => visitPublisher env s k

def visitAll (env : SpinEnvironment) (s : SpinState) : List Endpoint → Bool × SpinState
  | [] => (true, s)
  | e :: es =>
    let next := visit env s e
    if next.1 then visitAll env next.2 es else next

/-- The endpoints as the loops over `m_topics_by_prio` reach them: for each
priority, highest first, its subscribers and then its publishers. -/
def visitOrder (n : Node) : List Endpoint :=
  n.topicsByPrio.flatMap fun entry =>
    entry.2.subscribers.map .subscriber ++ entry.2.publishers.map .publisher

/-- The node after one `spin_once`, its events and result. -/
structure SpinOutcome where
  node : Node
  events : List SpinEvent
  result : SpinOnceResult

def spinOnce (n : Node) (reception : Reception) (env : SpinEnvironment) :
    Except Fault SpinOutcome := do
  let (n', events, messagesProcessed) ← n.processIncomingMessage text reception
  let start : SpinState := ⟨n', events, decide (0 < messagesProcessed)⟩
  let visited := visitAll env start n'.visitOrder
  let result :=
    if !visited.1 then .error else if visited.2.workDone then .success else .noWork
  return ⟨visited.2.node, visited.2.events, result⟩

end Node

end Crps
