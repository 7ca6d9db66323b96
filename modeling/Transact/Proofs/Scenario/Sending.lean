import Transact.Proofs.Scenario.Beginning

/-! # A session alone with its broker: sending

The session sends one message after the other to a queue. Nothing is settled before the loop runs, so
their transfers wait in the loop, in order, each with the completions that are to be told of it. -/

namespace Transact.Scenario

open Run Peer

variable {o : Options} {i n : Nat} {w : State}

/-! ### What is sent -/

/-- The name of the first transaction, and the coordinator's name for it. -/
def firstId : TransactionId := ⟨defaultSession, .ofNat 1⟩

/-- The name of the first transaction. -/
def firstName : TxnId := .ofCounter 1

/-- The session in its first transaction, with a producer. -/
def member : Session where
  id := defaultSession
  context := 0
  sequence := 1
  current := some 0
  beginning := some 0
  producerNumber := 2

/-- The broker once it has the first transaction on record. -/
def ready : Broker := (({} : Broker).declare 0).2

/-- The body of the message of this index. -/
def body (i : Nat) : String := s!"message-{i + 1}"

/-- The completion that is returned for a message. The next one is told of its transfer first. -/
def receipt (i : Nat) : Nat := 3 + 2 * i

namespace Options

variable (o : Options)

/-- Whether the broker is told to reject the message of this index. -/
def Rejects (i : Nat) : Prop := o.failSend = some (.ofNat i)

instance : DecidablePred o.Rejects := fun i => inferInstanceAs (Decidable (o.failSend = some (.ofNat i)))

/-- The indices below this one that the broker is told to reject. -/
def rejected (n : Nat) : List Number := ((List.range n).filter (o.Rejects ·)).map .ofNat

/-- The transfer of the message of this index. -/
def transfer (i : Nat) : Task :=
  .transfer i o.address (body i) (some (.enrolling firstName))
    (some (.client (receipt i + 1) (.sent 0 (receipt i))))

end Options

/-- So many messages were sent, and none was taken in. -/
structure Sent (o : Options) (n : Nat) (w : State) : Prop where
  bound : Bound { member with outstanding := n } firstId 0 0 firstName w
  tasks : tasks w = (List.range n).map o.transfer
  size : w.client.completions.size = receipt n
  pending : ∀ j, 3 ≤ j → j < receipt n → w.client.Pending j
  broker : w.outside.broker = { ready with transfersToFail := o.rejected n }
  transfers : w.outside.transfers = n
  producer : ∃ id, w.outside.producers[0]? = some ⟨0, id, some { name := o.address }⟩
  aggregates : w.client.aggregates = #[]
  links : w.client.links.size = 1
  discharges : dischargesOf w.outside.requests.toList = []

/-! ### One message after the other -/

theorem Options.rejected_succ : o.rejected (n + 1) =
    if o.Rejects n then o.rejected n ++ [.ofNat n] else o.rejected n := by
  by_cases h : o.Rejects n <;> simp [rejected, List.range_succ, h]

/-- The session sends a message to the producer's own destination. -/
theorem Sent.sendFrom (h : Sent o n w) {f : Broker → Broker}
    (hf : f w.outside.broker = { ready with transfersToFail := o.rejected (n + 1) }) :
    After (Session.sendFrom 0 (body n) none) (w.out (·.changeBroker f)) (fun _ w' => Sent o (n + 1) w')
      fun _ _ => False := by
  obtain ⟨C, scene, active, current, coordinator, enrolled⟩ := h.bound.scene
  obtain ⟨k, joined, still⟩ := h.bound.link
  obtain ⟨id, producer⟩ := h.producer
  obtain ⟨v, hv⟩ : ∃ v : State, v = w.out (·.changeBroker f) := ⟨_, rfl⟩
  have me : v.outside.producer 0 = ⟨0, id, some { name := o.address }⟩ := by
    rw [hv]
    exact Outside.producer_eq producer
  have session : v.outside.session 0 = { member with outstanding := n } := by
    rw [hv]
    exact Outside.session_eq scene.session
  have context : v.client.context 0 = C := by
    rw [hv]
    exact Client.context_eq scene.context
  have link : v.client.link 0 = k := by
    rw [hv]
    exact Client.link_eq joined.link
  rw [← hv]
  unfold Session.sendFrom
  simp only [after_bind, after_producerAt, me]
  show After (Session.send 0 0 { name := o.address } (body n)) v _ _
  unfold Session.send
  simp only [after_bind, after_sessionAt, session, member, Bool.false_eq_true, if_false,
    Act.after_isFailed, context, coordinator, Option.any_some, link, joined.opened, reduceCtorEq,
    decide_false, Act.after_context, enrolled, after_producerAt, me]
  unfold Context.enrolProducer
  rw [Act.after_modifyContext, if_neg (by simp [Presettling.forProducer, Presettling.isOnFor])]
  unfold Peer.transfer
  simp only [after_bind, Act.after_newCompletion, after_modifySession, Act.after_outside,
    after_modifyOutside, after_add, after_pure]
  have broker : v.outside.broker = { ready with transfersToFail := o.rejected (n + 1) } := by
    rw [hv]
    exact hf
  have tasks : Peer.tasks v = (List.range n).map o.transfer := by
    rw [hv]
    exact h.tasks
  have next : w.client.addCompletion.completions.size = receipt n + 1 := by
    simp [Client.addCompletion, h.size]
  subst hv
  refine {
    bound := ⟨⟨_, ⟨Outside.changeSession_same scene.session, Client.changeContext_same scene.context,
      scene.own, scene.consumers, scene.accepts, ?_⟩, active, current, coordinator, enrolled⟩,
      ⟨k, joined.congr rfl rfl, still⟩, h.bound.transaction⟩
    tasks := ?_
    size := ?_
    pending := ?_
    broker := broker
    transfers := ?_
    producer := ⟨id, producer⟩
    aggregates := h.aggregates
    links := h.links
    discharges := h.discharges }
  · exact scene.ends
  · rw [tasks_schedule, List.range_succ, List.map_append, ← tasks]
    show _ ++ [Task.transfer w.outside.transfers o.address (body n) (some (.enrolling firstName))
      (some (.client w.client.addCompletion.completions.size (.sent 0 w.client.completions.size)))] = _
    rw [h.transfers, next, h.size]
    rfl
  · show (w.client.addCompletion.completions.push .pending).size = _
    rw [Array.size_push, next]
    rfl
  · intro j hj lt
    have split : j < receipt n ∨ j = receipt n ∨ j = receipt n + 1 := by
      unfold receipt at lt ⊢
      omega
    refine Client.pending_addCompletion.2 ?_
    rcases split with old | rfl | rfl
    · exact .inl (Client.pending_addCompletion.2 (.inl (h.pending j hj old)))
    · exact .inl (Client.pending_addCompletion.2 (.inr h.size.symm))
    · exact .inr next.symm
  · exact congrArg (· + 1) h.transfers

/-- The message of one index is sent; the broker may have been told to reject it. -/
theorem Sent.sendMessage (h : Sent o n w) :
    After (sendMessage o 0 n) w (fun _ w' => Sent o (n + 1) w') fun _ _ => False := by
  unfold Scenario.sendMessage
  split
  · next rejects =>
    rw [after_bind, after_modifyBroker, after_discard]
    refine h.sendFrom ?_
    rw [h.broker, Options.rejected_succ, if_pos (show o.Rejects n from rejects)]
  · next spares =>
    rw [after_discard]
    refine h.sendFrom (f := id) ?_
    rw [Options.rejected_succ, if_neg (show ¬ o.Rejects n from spares)]
    exact h.broker

/-- **All messages are sent,** by induction on their number. -/
theorem Sent.sendAll (h : Sent o 0 w) :
    After ((List.range n).forM (Scenario.sendMessage o 0)) w (fun _ w' => Sent o n w')
      fun _ _ => False := by
  induction n with
  | zero => exact h
  | succ n ih =>
    rw [List.forM_eq_forM] at ih ⊢
    rw [List.range_succ, List.forM_append, after_bind]
    refine ih.mono (fun _ v hv => ?_) fun _ _ => id
    rw [List.forM_cons, after_bind]
    exact hv.sendMessage.mono (fun _ _ hw => hw) fun _ _ => id

end Transact.Scenario
