import Crps.Node.Priority
import Crps.Node.TypeSafety

/-!
# `spin_while_work`

The loop stops at the first call that returns no success. A call counts what it
has received and sent, but not its callbacks, and it looks at one datagram only.
So the loop can stop with work left; the states before a call in which it cannot
are told by the datagrams waiting and the lengths of the queues.
-/

namespace Crps
namespace Node

variable {text : JsonText} {n n' : Node} {env : SpinEnvironment} {s s' : SpinState}
variable {waiting : List Bytes}

/-! ## Receiving nothing -/

theorem mem_visitOrder_of_queued (h : n.Indexed n.publishers.length n.subscribers.length)
    {e : Endpoint} (hmessage : n.queued e ≠ 0) : e ∈ n.visitOrder := by
  cases e with
  | subscriber j =>
    rw [subscriber_mem_visitOrder h]
    by_contra hj
    apply hmessage
    simp only [queued, List.getElem?_eq_none (Nat.le_of_not_lt hj)]
    rfl
  | publisher k =>
    rw [publisher_mem_visitOrder h]
    by_contra hk
    apply hmessage
    simp only [queued, List.getElem?_eq_none (Nat.le_of_not_lt hk)]
    rfl

end Node
end Crps
