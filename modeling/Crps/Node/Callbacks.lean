import Crps.Node.Delivery

/-!
# What callbacks publish

During `spin_once` nothing is published but by a callback, and what it publishes
comes right after it.
-/

namespace Crps

def Endpoint.isSubscriber : Endpoint → Bool
  | .subscriber _ => true
  | .publisher _ => false

namespace Node

variable {text : JsonText} {n n' : Node} {env : SpinEnvironment} {s s' : SpinState}
variable {cfg : NodeConfig} {events es : List SpinEvent}

/-- What a call of `publish` with this pointer takes from it. -/
def publishedPayload (cfg : NodeConfig) (k : ℕ) (data : Memory) : Bytes :=
  (cfg.publishers[k]?).elim [] fun info => data.slice 0 info.messageSize.toNat

/-- Every call of `publish` among the events is one of a callback before it. -/
def Explained (env : SpinEnvironment) (cfg : NodeConfig) (events : List SpinEvent) : Prop :=
  ∀ t k payload taken, events[t]? = some (.publish k payload taken) →
    ∃ t' j message data, t' < t ∧ events[t']? = some (.callback j message) ∧
      (k, data) ∈ (env.callback (events.take t') j message).publishes ∧
        payload = publishedPayload cfg k data

theorem publish_event (n : Node) (k : ℕ) (data : Memory) : ∃ taken,
    (n.publish k data).2 = .publish k (publishedPayload n.config k data) taken := by
  cases hp : n.publishers[k]? with
  | none => exact ⟨false, by simp [publish, hp, publishedPayload, config]⟩
  | some p =>
    refine ⟨(p.publish data).1, ?_⟩
    rw [publish_of_some hp]
    simp [publishedPayload, config, hp, Publisher.info]

theorem publishAll_events {calls : List (ℕ × Memory)} {e : SpinEvent}
    (he : e ∈ (n.publishAll calls).2) : ∃ k data taken, (k, data) ∈ calls ∧
      e = .publish k (publishedPayload n.config k data) taken := by
  induction calls generalizing n with
  | nil => cases he
  | cons call calls ih =>
    obtain ⟨k, data⟩ := call
    rcases List.mem_cons.mp he with rfl | he
    · obtain ⟨taken, htaken⟩ := publish_event n k data
      exact ⟨k, data, taken, List.mem_cons_self, htaken⟩
    · obtain ⟨k', data', taken, hmem, rfl⟩ := ih he
      rw [(Does.publish (n := n) k data).config]
      exact ⟨k', data', taken, List.mem_cons_of_mem _ hmem, rfl⟩

theorem Explained.append (h : Explained env cfg events)
    (hes : ∀ k payload taken, .publish k payload taken ∉ es) :
    Explained env cfg (events ++ es) := by
  intro t k payload taken hpublish
  by_cases hlt : t < events.length
  · rw [List.getElem?_append_left hlt] at hpublish
    obtain ⟨t', j, message, data, ht, hcallback, hdata, hpayload⟩ := h t k payload taken hpublish
    refine ⟨t', j, message, data, ht, ?_, ?_, hpayload⟩
    · rw [List.getElem?_append_left (ht.trans hlt)]
      exact hcallback
    · rw [List.take_append_of_le_length (ht.trans hlt).le]
      exact hdata
  · rw [List.getElem?_append_right (not_lt.mp hlt)] at hpublish
    exact absurd (List.mem_of_getElem? hpublish) (hes k payload taken)

theorem Explained.callback (h : Explained env cfg events) (hcfg : n.config = cfg) (j : ℕ)
    (message : Bytes) : Explained env cfg (events ++ .callback j message ::
      (n.publishAll (env.callback events j message).publishes).2) := by
  intro t k payload taken hpublish
  by_cases hlt : t < events.length
  · have hold : events[t]? = some (.publish k payload taken) := by
      rwa [List.getElem?_append_left hlt] at hpublish
    obtain ⟨t', j', message', data, ht, hcallback, hdata, hpayload⟩ := h t k payload taken hold
    refine ⟨t', j', message', data, ht, ?_, ?_, hpayload⟩
    · rw [List.getElem?_append_left (ht.trans hlt)]
      exact hcallback
    · rw [List.take_append_of_le_length (ht.trans hlt).le]
      exact hdata
  · have hat : (events ++ .callback j message ::
        (n.publishAll (env.callback events j message).publishes).2)[events.length]? =
          some (.callback j message) := by
      rw [List.getElem?_append_right (Nat.le_refl _), Nat.sub_self]
      rfl
    have hmem : .publish k payload taken ∈
        (n.publishAll (env.callback events j message).publishes).2 := by
      rw [List.getElem?_append_right (not_lt.mp hlt)] at hpublish
      rcases List.mem_cons.mp (List.mem_of_getElem? hpublish) with hfirst | hrest
      · cases hfirst
      · exact hrest
    obtain ⟨k', data, taken', hdata, hevent⟩ := publishAll_events hmem
    rw [SpinEvent.publish.injEq] at hevent
    obtain ⟨rfl, hpayload, _⟩ := hevent
    have hlater : events.length < t := by
      rcases Nat.lt_or_eq_of_le (not_lt.mp hlt) with hlater | hsame
      · exact hlater
      · rw [← hsame, hat] at hpublish
        cases hpublish
    refine ⟨events.length, j, message, data, hlater, hat, ?_, hcfg ▸ hpayload⟩
    rw [List.take_left]
    exact hdata

theorem visit_explained (h : Explained env cfg s.events) (hcfg : s.node.config = cfg)
    (e : Endpoint) : Explained env cfg (visit env s e).2.events := by
  cases e with
  | subscriber k =>
    have hvisit : visit env s (.subscriber k) = visitSubscriber env s k := rfl
    rw [hvisit]
    unfold visitSubscriber
    split
    · exact h
    · split
      · exact h
      · exact h.callback hcfg k _
  | publisher k =>
    have hvisit : visit env s (.publisher k) = visitPublisher env s k := rfl
    rw [hvisit]
    unfold visitPublisher
    split
    · exact h
    · split
      · exact h
      · simp only
        split_ifs
        · exact h.append (by simp)
        · exact h.append (by simp)

theorem visitAll_explained {endpoints : List Endpoint} {ok : Bool}
    (h : Explained env cfg s.events) (hcfg : s.node.config = cfg)
    (hvisited : visitAll env s endpoints = (ok, s')) : Explained env cfg s'.events := by
  induction endpoints generalizing s with
  | nil =>
    cases hvisited
    exact h
  | cons e endpoints ih =>
    have hfirst := visit_explained h hcfg e
    simp only [visitAll] at hvisited
    split at hvisited
    · apply ih hfirst _ hvisited
      obtain ⟨es, _, hperforms⟩ := visit_continues env s e
      rw [hperforms.config, hcfg]
    · rwa [hvisited] at hfirst

theorem queueAll_events {data : Memory} {ks : List ℕ} {e : SpinEvent}
    (he : e ∈ (n.queueAll data ks).2) : ∃ k payload taken, e = .queueMessage k payload taken := by
  induction ks generalizing n with
  | nil => cases he
  | cons j ks ih =>
    rcases List.mem_cons.mp he with rfl | he
    · unfold queueMessage
      split
      · exact ⟨_, _, _, rfl⟩
      · exact ⟨_, _, _, rfl⟩
    · exact ih he

/-- Whatever is published in a call of `spin_once`, a callback has published before. -/
theorem spinOnce_explained {reception : Reception} {out : SpinOutcome}
    (hout : n.spinOnce text reception env = .ok out) : Explained env n.config out.events := by
  obtain ⟨n', events, processed, ok, s, hprocessed, hvisited, rfl⟩ := spinOnce_cases hout
  have hprocesses := processIncomingMessage_processes hprocessed
  apply visitAll_explained _ hprocesses.performs.config hvisited
  intro t k payload taken hpublish
  have hmem := List.mem_of_getElem? hpublish
  cases hprocesses with
  | dropped => cases hmem
  | queued _ _ _ hevents =>
    subst hevents
    obtain ⟨_, _, _, hevent⟩ := queueAll_events hmem
    cases hevent

/-! ## Nothing is left out -/

/-- If this event is a callback, its calls of `publish` stand right after it. -/
def AnsweredAt (env : SpinEnvironment) (n : Node) (events : List SpinEvent) (t : ℕ) : Prop :=
  ∀ j message, events[t]? = some (.callback j message) → ∃ n₁ es,
    n.Performs (events.take (t + 1)) n₁ ∧ events.drop (t + 1) =
      (n₁.publishAll (env.callback (events.take t) j message).publishes).2 ++ es

theorem AnsweredAt.append {t : ℕ} (h : AnsweredAt env n events t) (hlt : t < events.length) :
    AnsweredAt env n (events ++ es) t := by
  intro j message hat
  rw [List.getElem?_append_left hlt] at hat
  obtain ⟨n₁, later, hperforms, hdrop⟩ := h j message hat
  refine ⟨n₁, later ++ es, ?_, ?_⟩
  · rwa [List.take_append_of_le_length hlt]
  · rw [List.drop_append_of_le_length hlt, List.take_append_of_le_length hlt.le, hdrop,
      List.append_assoc]

theorem answered_append (h : ∀ t, AnsweredAt env n events t)
    (hes : ∀ j message, .callback j message ∉ es) (t : ℕ) : AnsweredAt env n (events ++ es) t := by
  by_cases hlt : t < events.length
  · exact (h t).append hlt
  · intro j message hat
    rw [List.getElem?_append_right (not_lt.mp hlt)] at hat
    exact absurd (List.mem_of_getElem? hat) (hes j message)

theorem answered_callback (h : ∀ t, AnsweredAt env n events t) {j : ℕ} {message : Bytes}
    (hperforms : n.Performs (events ++ [.callback j message]) n') (t : ℕ) :
    AnsweredAt env n (events ++ .callback j message ::
      (n'.publishAll (env.callback events j message).publishes).2) t := by
  by_cases hlt : t < events.length
  · exact (h t).append hlt
  · obtain ⟨u, rfl⟩ := Nat.exists_eq_add_of_le (not_lt.mp hlt)
    intro k data hat
    rw [List.getElem?_append_right (not_lt.mp hlt), Nat.add_sub_cancel_left] at hat
    cases u with
    | zero =>
      injection hat with hat
      injection hat with hk hdata
      subst hk hdata
      refine ⟨n', [], ?_, ?_⟩
      · rw [Nat.add_zero, List.take_length_add_append]
        exact hperforms
      · simp only [Nat.add_zero, List.drop_length_add_append, List.take_left, List.append_nil]
        rfl
    | succ u =>
      obtain ⟨_, _, _, hevent⟩ := mem_publishAll _ (List.mem_of_getElem? hat)
      cases hevent

theorem visit_answered (h : ∀ t, AnsweredAt env n s.events t)
    (hperforms : n.Performs s.events s.node) (e : Endpoint) (t : ℕ) :
    AnsweredAt env n (visit env s e).2.events t := by
  cases e with
  | subscriber k =>
    have hvisit : visit env s (.subscriber k) = visitSubscriber env s k := rfl
    rw [hvisit]
    unfold visitSubscriber
    split
    · exact h t
    · rename_i sub hsub
      split
      · exact h t
      · rename_i message hmessage
        -- popping the message first makes no difference to the publishers
        have hpopped := hperforms.trans (Does.callback
          (env.callback s.events k message).left hsub hmessage).performs
        have hanswered := answered_callback h hpopped t
        rwa [publishAll_with_subscribers] at hanswered
  | publisher k =>
    have hvisit : visit env s (.publisher k) = visitPublisher env s k := rfl
    rw [hvisit]
    unfold visitPublisher
    split
    · exact h t
    · split
      · exact h t
      · simp only
        split_ifs
        · exact answered_append h (by simp) t
        · exact answered_append h (by simp) t

theorem visitAll_answered {endpoints : List Endpoint} {ok : Bool}
    (h : ∀ t, AnsweredAt env n s.events t) (hperforms : n.Performs s.events s.node)
    (hvisited : visitAll env s endpoints = (ok, s')) (t : ℕ) : AnsweredAt env n s'.events t := by
  induction endpoints generalizing s with
  | nil =>
    cases hvisited
    exact h t
  | cons e endpoints ih =>
    have hfirst := visit_answered h hperforms e
    simp only [visitAll] at hvisited
    split at hvisited
    · apply ih hfirst _ hvisited
      obtain ⟨es, hevents, hmore⟩ := visit_continues env s e
      rw [hevents]
      exact hperforms.trans hmore
    · rw [hvisited] at hfirst
      exact hfirst t

/-- Whatever a callback publishes in a call of `spin_once`, it publishes at once. -/
theorem spinOnce_answered {reception : Reception} {out : SpinOutcome}
    (hout : n.spinOnce text reception env = .ok out) (t : ℕ) : AnsweredAt env n out.events t := by
  obtain ⟨n', events, processed, ok, s, hprocessed, hvisited, rfl⟩ := spinOnce_cases hout
  have hprocesses := processIncomingMessage_processes hprocessed
  apply visitAll_answered _ hprocesses.performs hvisited
  intro t j message hat
  have hmem := List.mem_of_getElem? hat
  cases hprocesses with
  | dropped => cases hmem
  | queued _ _ _ hevents =>
    subst hevents
    obtain ⟨_, _, _, hevent⟩ := queueAll_events hmem
    cases hevent

/-! ## How much callbacks publish -/

theorem length_publishAll (calls : List (ℕ × Memory)) :
    (n.publishAll calls).2.length = calls.length := by
  induction calls generalizing n with
  | nil => rfl
  | cons call calls ih => rw [publishAll, List.length_cons, ih, List.length_cons]

theorem publishedTo_le_length (events : List SpinEvent) (e : Endpoint) :
    publishedTo events e ≤ events.length := by
  cases e with
  | subscriber => exact Nat.zero_le _
  | publisher => exact List.countP_le_length

theorem visit_published_le {c : ℕ}
    (hcalls : ∀ events k message, (env.callback events k message).publishes.length ≤ c)
    (e f : Endpoint) : publishedTo (visit env s e).2.events f ≤
      publishedTo s.events f + if e.isSubscriber then c else 0 := by
  by_cases hsame : publishedTo (visit env s e).2.events f = publishedTo s.events f
  · omega
  · obtain ⟨_, k, rfl⟩ := visit_publishes hsame
    have hvisit : visit env s (.subscriber k) = visitSubscriber env s k := rfl
    rw [hvisit, Endpoint.isSubscriber, if_pos rfl]
    unfold visitSubscriber
    split
    · exact Nat.le_add_right _ _
    · split
      · exact Nat.le_add_right _ _
      · rename_i message _
        have hlength := publishedTo_le_length
          (s.node.publishAll (env.callback s.events k message).publishes).2 f
        rw [length_publishAll] at hlength
        have hcallback : publishedTo [.callback k message] f = 0 := by cases f <;> rfl
        have hbound := hcalls s.events k message
        rw [publishedTo_append, publishedTo_cons, hcallback]
        omega

theorem visitAll_published_le {c : ℕ}
    (hcalls : ∀ events k message, (env.callback events k message).publishes.length ≤ c)
    {endpoints : List Endpoint} {ok : Bool} (hvisited : visitAll env s endpoints = (ok, s'))
    (f : Endpoint) : publishedTo s'.events f ≤
      publishedTo s.events f + c * endpoints.countP Endpoint.isSubscriber := by
  induction endpoints generalizing s with
  | nil =>
    cases hvisited
    exact Nat.le_add_right _ _
  | cons e endpoints ih =>
    have hfirst := visit_published_le (s := s) hcalls e f
    rw [List.countP_cons, Nat.mul_add, mul_ite, Nat.mul_one, Nat.mul_zero]
    simp only [visitAll] at hvisited
    split at hvisited
    · have hrest := ih hvisited
      omega
    · rw [hvisited] at hfirst
      simp only at hfirst
      omega

theorem spinOnce_published_le {c : ℕ} (hequipped : n.Equipped)
    (hcalls : ∀ events k message, (env.callback events k message).publishes.length ≤ c)
    {reception : Reception} {out : SpinOutcome} (hout : n.spinOnce text reception env = .ok out)
    (f : Endpoint) : publishedTo out.events f ≤ c * n.subscribers.length := by
  obtain ⟨n', events, processed, ok, s, hprocessed, hvisited, rfl⟩ := spinOnce_cases hout
  have hprocesses := processIncomingMessage_processes hprocessed
  have hbound := visitAll_published_le hcalls hvisited f
  have hcount : n'.visitOrder.countP Endpoint.isSubscriber = n.subscribers.length := by
    have horder : n'.visitOrder.Perm _ :=
      (indexed_of_config hprocesses.performs.config hequipped.indexed).order
    have hpublishers : (Endpoint.isSubscriber ∘ Endpoint.publisher) = fun _ => false := rfl
    have hsubscribers : (Endpoint.isSubscriber ∘ Endpoint.subscriber) = fun _ => true := rfl
    rw [horder.countP_eq, List.countP_append, List.countP_map, List.countP_map, hpublishers,
      hsubscribers, List.countP_false, List.countP_true, List.length_range]
    exact Nat.zero_add _
  rw [hcount, hprocesses.publishedTo, Nat.zero_add] at hbound
  exact hbound

end Node
end Crps
