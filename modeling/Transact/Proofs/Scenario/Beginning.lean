import Transact.Proofs.Loop
import Transact.Proofs.Peer.Begin
import Transact.Scenario.Basic

/-! # A session alone with its broker: beginning

The only session of a client begins a transaction. Nothing interferes, so it can be said exactly what
waits in the loop and what comes of it: the opening of the link, if the session has no open one, and
then the answer to the declare.

* `Scene.enterNext_joined`, `Scene.enterNext_alone`: what a session does to begin.
* `Opening.opened`, `Declaring.answered`: what comes of the two tasks.
* `Scene.begins_joined`, `Scene.begins_alone`: the transaction is bound after one task, or two. -/

namespace Transact.Scenario

open Run Peer

variable {n t l c : Nat} {S : Session} {C : Context} {k : Link Waiting} {id : TransactionId} {y : TxnId}
  {u v w w' : State}

/-! ### The scene -/

/-- One session with its context. It has no consumers, and the broker accepts links. -/
structure Scene (S : Session) (C : Context) (w : State) : Prop where
  session : w.outside.sessions[0]? = some S
  context : w.client.contexts[0]? = some C
  own : S.context = 0
  consumers : C.registry.consumers.values = []
  accepts : w.outside.refusesLinks = false
  ends : w.outside.endpoints.size = w.client.links.size

/-- The link is open, and so is its other end. Nobody waits for it to open any more. -/
structure Joined (l : Nat) (k : Link Waiting) (w : State) : Prop where
  link : w.client.links[l]? = some k
  opened : k.state = .opened
  opening : k.opening = none
  sender : k.sender = some l
  far : ∃ e, w.outside.endpoints[l]? = some e ∧ e.isActive = true ∧ e.listener = .link l

theorem Joined.active (h : Joined l k w) : (w.outside.endpoint l).isActive = true := by
  obtain ⟨e, he, active, -⟩ := h.far
  rw [Outside.endpoint_eq he]
  exact active

theorem Joined.listener (h : Joined l k w) : (w.outside.endpoint l).listener = .link l := by
  obtain ⟨e, he, -, listener⟩ := h.far
  rw [Outside.endpoint_eq he]
  exact listener

theorem Joined.congr (h : Joined l k w) (hl : w'.client.links = w.client.links)
    (he : w'.outside.endpoints = w.outside.endpoints) : Joined l k w' :=
  ⟨hl ▸ h.link, h.opened, h.opening, h.sender, he ▸ h.far⟩

/-- What a begin leaves as it was. -/
structure Aside (w w' : State) : Prop where
  kept : Keeps w.client w'.client
  aggregates : w'.client.aggregates = w.client.aggregates
  producers : w'.outside.producers = w.outside.producers
  transfers : w'.outside.transfers = w.outside.transfers
  discharges : dischargesOf w'.outside.requests.toList = dischargesOf w.outside.requests.toList

theorem Aside.trans (h : Aside u v) (h' : Aside v w) : Aside u w where
  kept := h.kept.trans h'.kept
  aggregates := h'.aggregates.trans h.aggregates
  producers := h'.producers.trans h.producers
  transfers := h'.transfers.trans h.transfers
  discharges := h'.discharges.trans h.discharges

theorem discharges_declare {requests : Array Request} :
    dischargesOf (requests.push .declare).toList = dischargesOf requests.toList := by
  simp [dischargesOf]

/-! ### A session begins -/

/-- The session has taken up its next transaction; the declare is still to come. -/
def entered (S : Session) (w : State) : State :=
  (((((w.out (·.changeSession 0 fun x => { x with sequence := x.sequence + 1 })).on
    (·.addTransaction ⟨S.id, .ofNat (S.sequence + 1)⟩)).on (·.addCompletion)).out
    (·.changeSession 0 fun x => { x with beginning := some w.client.completions.size })).on
    (·.changeContext 0 fun x => { x with stage := .declaring })).on (·.addCompletion)

/-- What is known then of the state `v`. -/
structure Entered (S : Session) (C : Context) (w v : State) : Prop where
  scene : Scene { S with sequence := S.sequence + 1, beginning := some w.client.completions.size }
    { C with stage := .declaring } v
  transaction : v.client.transactions[w.client.transactions.size]? =
    some ⟨⟨S.id, .ofNat (S.sequence + 1)⟩, none⟩
  begun : v.client.Pending w.client.completions.size
  declared : v.client.Pending w.client.addCompletion.completions.size
  size : v.client.completions.size = w.client.completions.size + 2
  tasks : tasks v = tasks w
  links : v.client.links = w.client.links
  outside : v.outside = { w.outside with sessions := v.outside.sessions }
  aside : Aside w v

theorem Scene.entered (h : Scene S C w) : Entered S C w (entered S w) where
  scene := by
    have first := Outside.changeSession_same (f := fun x => { x with sequence := x.sequence + 1 })
      h.session
    have second := Outside.changeSession_same
      (f := fun x => { x with beginning := some w.client.completions.size }) first
    have changed := Client.changeContext_same (f := fun x => { x with stage := .declaring }) h.context
    exact ⟨second, changed, h.own, h.consumers, h.accepts, h.ends⟩
  transaction := Array.getElem?_push_size
  begun := Client.pending_addCompletion.2 (.inl (Client.pending_addCompletion.2 (.inr rfl)))
  declared := Client.pending_addCompletion.2 (.inr rfl)
  size := by
    show w.client.addCompletion.addCompletion.completions.size = _
    simp [Client.addCompletion]
  tasks := rfl
  links := rfl
  outside := rfl
  aside := by
    have kept : Keeps w.client w.client.addCompletion.addCompletion :=
      Keeps.addCompletion.trans .addCompletion
    exact ⟨fun i r e => kept i r e, rfl, rfl, rfl, rfl⟩

/-- Who is told of the declare of the session's next transaction. -/
def declareToken (t c d : Nat) : Token Waiting := .declaring d 0 t (.client c (.begun 0 t))

/-- The coordinator link of a context, unless it has closed. -/
def usable (C : Context) (w : State) : Option Nat :=
  C.coordinator.bind fun l => if (w.client.link l).state = .closed then none else some l

/-- How a declare is brought on its way: on an open link, or on a new one. -/
def carry (far : Surroundings) (t c d : Nat) : Option Nat → Peering Unit
  | some l => Link.declare far l t (declareToken t c d)
  | none => do
    Act.modifyContext 0 fun x => { x with linksBuilt := x.linksBuilt + 1 }
    let context ← Act.context 0
    let l ← Act.newLink s!"{context.session.text}:coordinator:{context.linksBuilt}"
    Link.establish far l (.opening (← Act.newCompletion) 0 t l (declareToken t c d)
      (.client c (.begun 0 t)))

/-- The session asks for its next transaction, on its coordinator link if that is open. -/
theorem Scene.enters (h : Scene S C w) (idle : C.stage = .idle) {far : Surroundings}
    {Q : Nat → State → Prop} {R : Halt → State → Prop}
    (hQ : After (carry far w.client.transactions.size w.client.completions.size
      w.client.addCompletion.completions.size (usable C w)) (Scenario.entered S w)
      (fun _ w' => Q w.client.completions.size w') R) :
    After (Session.enterNext far 0) w Q R := by
  have me : (w.out (·.changeSession 0 fun x => { x with sequence := x.sequence + 1 })).outside.session
      0 = { S with sequence := S.sequence + 1 } :=
    Outside.session_eq (Outside.changeSession_same h.session)
  have stage : (w.client.context 0).stage = .idle := by
    rw [Client.context_eq h.context]
    exact idle
  have found : (((Scenario.entered S w).client.context 0).coordinator.bind fun l =>
      if ((Scenario.entered S w).client.link l).state = .closed then none else some l) =
        usable C w := by
    rw [Client.context_eq h.entered.scene.context]
    rfl
  unfold Session.enterNext
  simp only [after_bind, after_modifySession, after_sessionAt, Act.after_newTransaction,
    Act.after_newCompletion, after_pure, me, h.own]
  unfold Context.begin
  simp only [after_bind, Act.after_context]
  split
  · next differs => exact absurd stage differs
  · simp only [after_bind, Act.after_modifyContext, Act.after_newCompletion, Act.after_usableLink]
    show After (match ((Scenario.entered S w).client.context 0).coordinator.bind fun l =>
        if ((Scenario.entered S w).client.link l).state = .closed then none else some l with
      | some l => _
      | none => _) (Scenario.entered S w) _ _
    rw [found]
    cases hu : usable C w <;> rw [hu] at hQ <;> exact hQ

/-! ### The declare is sent -/

/-- The declare of the transaction waits for its answer. -/
structure Declaring (S : Session) (id : TransactionId) (t l c d : Nat) (w : State) : Prop where
  scene : ∃ C, Scene S C w ∧ C.coordinator = some l
  link : ∃ k n, Joined l k w ∧ k.pending = [(n, ⟨none, t, declareToken t c d⟩)] ∧
    tasks w = [.answer l (.ofIndex n) .declare]
  transaction : w.client.transactions[t]? = some ⟨id, none⟩
  begun : w.client.Pending c
  declared : w.client.Pending d
  apart : c ≠ d

theorem Joined.keep {n : Nat} {e : Exchange Waiting} (h : Joined l k w) :
    Joined l (Link.keep n e k) (w.on (·.changeLink l (Link.keep n e))) :=
  ⟨Client.changeLink_same h.link, h.opened, h.opening, h.sender, h.far⟩

/-- **On an open link** the declare is sent at once. -/
theorem Scene.enterNext_joined (h : Scene S C w) (idle : C.stage = .idle)
    (hco : C.coordinator = some l) (hl : Joined l k w) (still : k.pending = []) (empty : tasks w = []) :
    After (Session.enterNext (surroundings (n + 1)) 0) w (fun c w' => c = w.client.completions.size ∧
      Declaring { S with sequence := S.sequence + 1, beginning := some c }
        ⟨S.id, .ofNat (S.sequence + 1)⟩ w.client.transactions.size l c
        w.client.addCompletion.completions.size w' ∧
      Aside w w' ∧ w'.outside.broker = w.outside.broker ∧
      w'.client.completions.size = w.client.completions.size + 2 ∧
      w'.client.links.size = w.client.links.size) fun _ _ => False := by
  have entered := h.entered
  have joined : Joined l k (Scenario.entered S w) := hl.congr entered.links rfl
  have on : usable C w = some l := by
    rw [usable, hco, Option.bind_some, Client.link_eq hl.link, if_neg (by simp [hl.opened])]
  refine h.enters idle ?_
  rw [on]
  unfold carry Link.declare
  refine after_transmit joined.link joined.opened joined.sender joined.active fun label => ?_
  refine ⟨rfl, {
    scene := ⟨_, ⟨entered.scene.session, entered.scene.context, h.own, h.consumers, h.accepts, ?_⟩, hco⟩
    link := ⟨_, k.nextDelivery, joined.keep.congr rfl rfl, ?_, ?_⟩
    transaction := entered.transaction
    begun := entered.begun
    declared := entered.declared
    apart := ?_ }, ?_, rfl, entered.size, Array.size_modify ..⟩
  · exact h.ends.trans (Array.size_modify ..).symm
  · show k.pending ++ _ = _
    rw [still]
    rfl
  · rw [tasks_request]
    show tasks w ++ _ = _
    rw [empty]
    rfl
  · exact Nat.ne_of_lt (by simp [Client.addCompletion])
  · exact entered.aside.trans ⟨.of_eq rfl, rfl, rfl, rfl, discharges_declare⟩

/-! ### The link is attached first -/

/-- The link of the session waits to be opened; the declare comes next. -/
structure Opening (S : Session) (id : TransactionId) (t l c d : Nat) (w : State) : Prop where
  scene : ∃ C, Scene S C w
  link : ∃ k o, w.client.links[l]? = some k ∧ k.state = .building ∧ k.sender = some l ∧
    k.pending = [] ∧ k.opening = some (.opening o 0 t l (declareToken t c d) (.client c (.begun 0 t))) ∧
    w.client.Pending o ∧ o ≠ c ∧ o ≠ d
  far : ∃ e, w.outside.endpoints[l]? = some e ∧ e.closed = false ∧ e.listener = .link l
  transaction : w.client.transactions[t]? = some ⟨id, none⟩
  begun : w.client.Pending c
  declared : w.client.Pending d
  apart : c ≠ d
  tasks : tasks w = [.openLink l]

/-- A link of this name has been attached to declare a transaction on. -/
def attaching (v : State) (t c d : Nat) (name label : String) : State :=
  (((((v.on (·.changeContext 0 fun x => { x with linksBuilt := x.linksBuilt + 1 })).on
    (·.addLink name)).on (·.addCompletion)).on (·.changeLink v.client.links.size fun k => { k with
      opening := some (.opening v.client.completions.size 0 t v.client.links.size (declareToken t c d)
        (.client c (.begun 0 t))) })).out fun o =>
    (o.addEndpoint name (.link v.client.links.size)).schedule label
      (o.attached v.client.links.size)).on
    (·.changeLink v.client.links.size fun k => { k with sender := some v.client.links.size })

theorem after_carry_none {t c d : Nat} {Q : Unit → State → Prop} {R : Halt → State → Prop}
    (side : v.outside.endpoints.size = v.client.links.size)
    (hQ : ∀ name label, Q () (attaching v t c d name label)) :
    After (carry (surroundings (n + 1)) t c d none) v Q R := by
  unfold carry
  simp only [after_bind, Act.after_modifyContext, Act.after_context, Act.after_newLink,
    Act.after_newCompletion]
  exact after_establish Client.addLink_new side fun label => hQ _ label

theorem Scene.attaching {name label : String} {d : Nat} (h : Scene S C v) (empty : tasks v = [])
    (transaction : v.client.transactions[t]? = some ⟨id, none⟩) (begun : v.client.Pending c)
    (declared : v.client.Pending d) (apart : c ≠ d) :
    Opening S id t v.client.links.size c d (attaching v t c d name label) where
  scene := by
    have rebuilt := Client.changeContext_same
      (f := fun x => { x with linksBuilt := x.linksBuilt + 1 }) h.context
    refine ⟨_, h.session, rebuilt, h.own, h.consumers, h.accepts, ?_⟩
    simp [Scenario.attaching, World.on, World.out, Client.changeLink, Client.addLink, Client.addCompletion,
      Client.changeContext, Outside.addEndpoint, Outside.schedule, h.ends]
  link := by
    refine ⟨_, v.client.completions.size, Client.changeLink_same (Client.changeLink_same
      Client.addLink_new), rfl, rfl, rfl, rfl, ?_, ?_, ?_⟩
    · exact Client.pending_addCompletion.2 (.inr rfl)
    · exact (Nat.ne_of_lt begun.lt).symm
    · exact (Nat.ne_of_lt declared.lt).symm
  far := by
    refine ⟨{ name, listener := .link v.client.links.size }, ?_, rfl, rfl⟩
    have new : (v.outside.endpoints.push { name, listener := .link v.client.links.size })[
        v.outside.endpoints.size]? = some { name, listener := .link v.client.links.size } :=
      Array.getElem?_push_size
    rw [h.ends] at new
    exact new
  transaction := transaction
  begun := Client.pending_addCompletion.2 (.inl begun)
  declared := Client.pending_addCompletion.2 (.inl declared)
  apart := apart
  tasks := by
    show tasks (v.out (·.schedule label (v.outside.attached v.client.links.size))) = _
    rw [tasks_schedule, empty, Outside.attached, if_neg (by simp [h.accepts])]
    rfl

/-- **Without an open link** the session attaches one. -/
theorem Scene.enterNext_alone (h : Scene S C w) (idle : C.stage = .idle)
    (hco : ∀ l, C.coordinator = some l → (w.client.link l).state = .closed) (empty : tasks w = []) :
    After (Session.enterNext (surroundings (n + 1)) 0) w (fun c w' => c = w.client.completions.size ∧
      Opening { S with sequence := S.sequence + 1, beginning := some c }
        ⟨S.id, .ofNat (S.sequence + 1)⟩ w.client.transactions.size w.client.links.size c
        w.client.addCompletion.completions.size w' ∧
      Aside w w' ∧ w'.outside.broker = w.outside.broker ∧
      w'.client.completions.size = w.client.completions.size + 3 ∧
      w'.client.links.size = w.client.links.size + 1) fun _ _ => False := by
  have entered := h.entered
  have off : usable C w = none := by
    rw [usable, Option.bind_eq_none_iff]
    exact fun l hl => if_pos (hco l hl)
  refine h.enters idle ?_
  rw [off]
  refine after_carry_none h.ends fun name label => ⟨rfl, ?_, ?_, rfl, ?_, ?_⟩
  · exact entered.scene.attaching (entered.tasks.trans empty) entered.transaction entered.begun
      entered.declared (Nat.ne_of_lt (by simp [Client.addCompletion]))
  · exact entered.aside.trans ⟨fun i r e => Keeps.addCompletion i r e, rfl, rfl, rfl, rfl⟩
  · exact (Array.size_push ..).trans (congrArg (· + 1) entered.size)
  · simp [Scenario.attaching, World.on, World.out, Client.changeLink, Client.addLink, Client.addCompletion,
      Client.changeContext, entered.links]

/-! ### What comes of it -/

/-- The oldest task of `w` has been taken out, and these are left in `v`. -/
structure Started (w v : State) (rest : List Task) : Prop where
  client : v.client = w.client
  outside : v.outside = { w.outside with loop := v.outside.loop }
  tasks : tasks v = rest

theorem after_runOne_cons {far : Surroundings} {job : Task} {rest : List Task}
    {Q : Bool → State → Prop} {R : Halt → State → Prop} (ht : tasks w = job :: rest)
    (h : ∀ label v, Started w v rest → After (exec far label job) v (fun _ w' => Q true w') R) :
    After (Loop.runOne (exec far)) w Q R := by
  refine after_runOne (fun none => ?_) fun label job' loop head first => ?_
  · cases ht.symm.trans none
  · obtain ⟨rfl, same⟩ := List.cons.inj (ht.symm.trans first)
    exact h label _ ⟨rfl, rfl, same.symm⟩

section

variable {rest : List Task} (hv : Started w v rest)

include hv

theorem Scene.started (h : Scene S C w) : Scene S C v where
  session := by
    rw [hv.outside]
    exact h.session
  context := hv.client ▸ h.context
  own := h.own
  consumers := h.consumers
  accepts := by
    rw [hv.outside]
    exact h.accepts
  ends := by
    rw [hv.client, hv.outside]
    exact h.ends

theorem Joined.started (h : Joined l k w) : Joined l k v := by
  refine h.congr (congrArg _ hv.client) ?_
  rw [hv.outside]

theorem Aside.started (h : Aside v w') : Aside w w' where
  kept := hv.client ▸ h.kept
  aggregates := hv.client ▸ h.aggregates
  producers := h.producers.trans (by rw [hv.outside])
  transfers := h.transfers.trans (by rw [hv.outside])
  discharges := h.discharges.trans (by rw [hv.outside])

theorem Started.broker : v.outside.broker = w.outside.broker := by
  rw [hv.outside]

end

/-- **The link opens,** and the declare is sent on it. -/
theorem Opening.opened {d : Nat} (h : Opening S id t l c d w) :
    After (Loop.runOne (exec (surroundings (n + 1)))) w (fun started w' => started = true ∧
      Declaring S id t l c d w' ∧ Aside w w' ∧ w'.outside.broker = w.outside.broker ∧
      w'.client.completions.size = w.client.completions.size ∧
      w'.client.links.size = w.client.links.size) fun _ _ => False := by
  obtain ⟨C, scene⟩ := h.scene
  obtain ⟨k, o, link, building, sender, still, waits, pending, ne, ne'⟩ := h.link
  obtain ⟨e, far, closed, listener⟩ := h.far
  refine after_runOne_cons h.tasks fun label v hv => ?_
  have scene := scene.started hv
  have transaction := h.transaction
  rw [← hv.client] at link pending transaction
  rw [show w.outside.endpoints = v.outside.endpoints by rw [hv.outside]] at far
  show After (openEndpoint _ l) _ _ _
  unfold openEndpoint
  simp only [after_bind, after_endpointAt, Outside.endpoint_eq far, closed]
  rw [if_neg Bool.false_ne_true]
  simp only [after_bind, after_modifyEndpoint, listener]
  unfold Link.opened
  have found : (v.out (·.changeEndpoint l fun x => { x with opened := true })).client.link l = k :=
    Client.link_eq link
  simp only [after_bind, Act.after_link, found]
  rw [if_neg (by simp [building])]
  simp only [after_bind, Act.after_modifyLink, waits]
  unfold Token.resolve
  rw [after_bind, Act.after_settle (by exact pending)]
  simp only [after_bind, Act.after_modifyContext]
  have opened : (v.outside.changeEndpoint l fun x => { x with opened := true }).endpoints[l]? =
      some { e with opened := true } := by
    simp [Outside.changeEndpoint, Array.getElem?_modify, far]
  have changed := Client.changeLink_same
    (f := fun k : Link Waiting => { k with state := .opened, opening := none }) link
  have told := Client.changeContext_same (f := fun x => { x with coordinator := some l }) scene.context
  have active : ((v.outside.changeEndpoint l fun x => { x with opened := true }).endpoint l).isActive =
      true := by
    rw [Outside.endpoint_eq opened]
    simp [Endpoint.isActive, closed]
  have far' : ∃ e, (v.outside.changeEndpoint l fun x => { x with opened := true }).endpoints[l]? =
      some e ∧ e.isActive = true ∧ e.listener = .link l :=
    ⟨_, opened, by simp [Endpoint.isActive, closed], listener⟩
  have kept {id i : Nat} (live : w.client.Pending id) (apart : i ≠ id) :
      (v.client.write i (.settled (.succeeded ()))).Pending id :=
    Client.pending_write.2 ⟨hv.client ▸ live, Ne.symm apart⟩
  refine after_transmit changed rfl sender active fun label' => ⟨trivial, {
    scene := ⟨_, ⟨scene.session, told, scene.own, scene.consumers, scene.accepts, ?_⟩, rfl⟩
    link := ⟨_, k.nextDelivery, ⟨Client.changeLink_same changed, rfl, rfl, sender, far'⟩, ?_, ?_⟩
    transaction := transaction
    begun := kept h.begun ne
    declared := kept h.declared ne'
    apart := h.apart }, ?_, hv.broker, ?_, ?_⟩
  · simp [World.on, World.out, Outside.changeEndpoint, Outside.request, Outside.schedule,
      Outside.addRequest, Client.changeLink, Client.changeContext, Client.write, scene.ends]
  · show k.pending ++ _ = _
    rw [still]
    rfl
  · rw [tasks_request]
    show Peer.tasks v ++ _ = _
    rw [hv.tasks]
    rfl
  · exact Aside.started hv ⟨fun i r e => Keeps.write pending i r e, rfl, rfl, rfl, discharges_declare⟩
  · rw [← hv.client]
    exact Array.size_setIfInBounds
  · rw [← hv.client]
    exact (Array.size_modify ..).trans (Array.size_modify ..)

/-- The session is in the transaction `t`, under the coordinator's name `y`, and nothing is
outstanding on its link `l`. -/
structure Bound (S : Session) (id : TransactionId) (t l : Nat) (y : TxnId) (w : State) : Prop where
  scene : ∃ C, Scene S C w ∧ C.stage = .active ∧ C.current = some t ∧ C.coordinator = some l ∧
    C.enrolled = some (.enrolling y)
  link : ∃ k, Joined l k w ∧ k.pending = []
  transaction : w.client.transactions[t]? = some ⟨id, some y⟩

/-- **The declare is answered,** and the transaction is bound. -/
theorem Declaring.answered {d : Nat} (h : Declaring S id t l c d w)
    (accepted : w.outside.broker.declaresToReject = 0) :
    After (Loop.runOne (exec (surroundings (n + 1)))) w (fun started w' => started = true ∧
      Bound { S with current := some t } id t l (.ofCounter w.outside.broker.txnCounter) w' ∧
      tasks w' = [] ∧ Aside w w' ∧ w'.outside.broker = (w.outside.broker.declare l).2 ∧
      w'.client.completions[c]? = some (.settled (.succeeded ())) ∧
      w'.client.completions.size = w.client.completions.size ∧
      w'.client.links.size = w.client.links.size) fun _ _ => False := by
  obtain ⟨C, scene, coordinator⟩ := h.scene
  obtain ⟨k, m, joined, outstanding, waits⟩ := h.link
  refine after_runOne_cons waits fun label v hv => ?_
  have scene := scene.started hv
  have joined := joined.started hv
  have declared : (v.outside.broker.answer l .declare).1 =
      .declared (some (.ofCounter w.outside.broker.txnCounter)) := by
    simp [Broker.answer, Broker.declare, hv.broker, accepted]
  have found : (v.client.link l).pending.find? (·.1 = m) = some (m, ⟨none, t, declareToken t c d⟩) := by
    rw [Client.link_eq joined.link, outstanding]
    simp
  show After (answer _ l _ _) _ _ _
  unfold answer
  simp only [after_bind, after_endpointAt, joined.active, joined.listener]
  rw [if_neg (by simp)]
  simp only [after_bind, after_withBroker, Number.toNat?_ofIndex, declared]
  unfold Link.settled
  simp only [after_bind, Act.after_link]
  split
  · next none => cases found.symm.trans none
  next exchange some_ =>
  obtain ⟨rfl, rfl⟩ := Prod.mk.inj (Option.some.inj (found.symm.trans some_))
  simp only [after_bind, Act.after_modifyLink, Act.after_transaction, Act.after_setHint]
  have transaction := h.transaction
  rw [← hv.client] at transaction
  have named : (v.client.writeHint t (some (.ofCounter w.outside.broker.txnCounter))).transactions[t]? =
      some ⟨id, some (.ofCounter w.outside.broker.txnCounter)⟩ := by
    simp [Client.writeHint, Array.getElem?_modify, transaction]
  have hint : ((v.client.writeHint t (some (.ofCounter w.outside.broker.txnCounter))).transaction
      t).hint = some (.ofCounter w.outside.broker.txnCounter) := by
    rw [Client.transaction, named]
    rfl
  show After (Token.resolve _ (.declaring d 0 t (.client c (Waiting.begun 0 t))) (.succeeded ())) _ _ _
  unfold Token.resolve
  have declared : v.client.Pending d := hv.client ▸ h.declared
  rw [after_bind, Act.after_settle (by exact declared)]
  simp only [after_bind, Act.after_transaction]
  split
  · next none => cases hint.symm.trans none
  next y some_ =>
  obtain rfl := Option.some.inj (hint.symm.trans some_)
  unfold Context.bind Token.resolve
  have begun : (v.client.write d (.settled (.succeeded ()))).Pending c :=
    Client.pending_write.2 ⟨hv.client ▸ h.begun, h.apart⟩
  rw [after_bind, Act.after_modifyContext, after_bind, Act.after_settle (by exact begun)]
  show After (modifySession 0 fun x => { x with current := some t }) _ _ _
  simp only [after_modifySession]
  have filtered : Joined l { k with pending := k.pending.filter (·.1 ≠ m) }
      (v.on (·.changeLink l fun k => { k with pending := k.pending.filter (·.1 ≠ m) })) :=
    ⟨Client.changeLink_same joined.link, joined.opened, joined.opening, joined.sender, joined.far⟩
  have bound := Client.changeContext_same (f := fun x => { x with
    stage := .active
    current := some t
    accepted := some (.acknowledging (.ofCounter w.outside.broker.txnCounter))
    enrolled := some (.enrolling (.ofCounter w.outside.broker.txnCounter)) }) scene.context
  have took := Outside.changeSession_same (f := fun x => { x with current := some t }) scene.session
  refine ⟨trivial, {
    scene := ⟨_, ⟨took, bound, scene.own, scene.consumers, scene.accepts, ?_⟩, rfl, rfl, coordinator, rfl⟩
    link := ⟨_, filtered.congr rfl rfl, ?_⟩
    transaction := named }, hv.tasks, ?_, ?_, ?_, ?_, ?_⟩
  · simp [World.on, World.out, Outside.changeSession, Outside.changeBroker, Client.changeLink,
      Client.changeContext, Client.write, Client.writeHint, scene.ends]
  · rw [outstanding]
    simp
  · refine Aside.started hv ⟨?_, rfl, rfl, rfl, rfl⟩
    exact fun i r e => Keeps.write begun i r (Keeps.write declared i r e)
  · rw [← hv.broker]
    rfl
  · exact Array.getElem?_setIfInBounds_self_of_lt begun.lt
  · rw [← hv.client]
    exact Array.size_setIfInBounds.trans Array.size_setIfInBounds
  · rw [← hv.client]
    exact Array.size_modify ..

/-! ### From one end to the other -/

theorem settles_zero {exec : String → Task → Peering Unit} {P : State → Prop} (empty : tasks w = [])
    (h : P w) : Loop.Settles exec P 0 w :=
  ⟨List.map_eq_nil_iff.1 empty, h⟩

/-- The next transaction of the session is bound, and nothing waits in the loop. The completion `c` has
told of its begin, it was declared on the link `l`, and so many completions are new. -/
structure Begun (S : Session) (l c added : Nat) (w w' : State) : Prop where
  bound : Bound { S with
      sequence := S.sequence + 1, beginning := some c, current := some w.client.transactions.size }
    ⟨S.id, .ofNat (S.sequence + 1)⟩ w.client.transactions.size l
    (.ofCounter w.outside.broker.txnCounter) w'
  tasks : tasks w' = []
  aside : Aside w w'
  broker : w'.outside.broker = (w.outside.broker.declare l).2
  told : w'.client.completions[c]? = some (.settled (.succeeded ()))
  size : w'.client.completions.size = w.client.completions.size + added
  links : w'.client.links.size = max w.client.links.size (l + 1)

variable {m : Nat}

/-- **A transaction begins on the open link:** there is one task to run. -/
theorem Scene.begins_joined (h : Scene S C w) (idle : C.stage = .idle) (hco : C.coordinator = some l)
    (hl : Joined l k w) (still : k.pending = []) (empty : tasks w = [])
    (accepted : w.outside.broker.declaresToReject = 0) :
    After (Session.enterNext (surroundings (n + 1)) 0) w (fun c w' => c = w.client.completions.size ∧
      Loop.Settles (exec (surroundings (m + 1))) (Begun S l c 2 w) 1 w')
      fun _ _ => False := by
  refine (h.enterNext_joined idle hco hl still empty).mono (fun c v hv => ?_) fun _ _ => id
  obtain ⟨rfl, declaring, aside, broker, size, links⟩ := hv
  rw [← broker] at accepted
  refine ⟨rfl, (declaring.answered accepted).mono (fun started w' hw => ?_) fun _ _ => id⟩
  obtain ⟨rfl, bound, empty, aside', broker', told, size', links'⟩ := hw
  rw [broker] at bound broker'
  have old : l < w.client.links.size := (Array.getElem?_eq_some_iff.1 hl.link).1
  exact ⟨rfl, settles_zero empty ⟨bound, empty, aside.trans aside', broker', told, size'.trans size,
    by omega⟩⟩

/-- **A transaction begins without a link:** there are two tasks to run. -/
theorem Scene.begins_alone (h : Scene S C w) (idle : C.stage = .idle)
    (hco : ∀ l, C.coordinator = some l → (w.client.link l).state = .closed) (empty : tasks w = [])
    (accepted : w.outside.broker.declaresToReject = 0) :
    After (Session.enterNext (surroundings (n + 1)) 0) w (fun c w' => c = w.client.completions.size ∧
      (∃ S', w'.outside.sessions[0]? = some S' ∧ S'.discharging = S.discharging) ∧
      Loop.Settles (exec (surroundings (m + 1))) (Begun S w.client.links.size c 3 w) 2 w')
      fun _ _ => False := by
  refine (h.enterNext_alone idle hco empty).mono (fun c u hu => ?_) fun _ _ => id
  obtain ⟨rfl, opening, aside, broker, size, links⟩ := hu
  obtain ⟨_, scene⟩ := opening.scene
  refine ⟨rfl, ⟨_, scene.session, rfl⟩, opening.opened.mono (fun started v hv => ?_) fun _ _ => id⟩
  obtain ⟨rfl, declaring, aside', broker', size', links'⟩ := hv
  rw [broker] at broker'
  rw [← broker'] at accepted
  refine ⟨rfl, (declaring.answered accepted).mono (fun started w' hw => ?_) fun _ _ => id⟩
  obtain ⟨rfl, bound, empty, aside'', broker'', told, size'', links''⟩ := hw
  rw [broker'] at bound broker''
  exact ⟨rfl, settles_zero empty ⟨bound, empty, (aside.trans aside').trans aside'', broker'', told,
    size''.trans (size'.trans size), by omega⟩⟩

end Transact.Scenario
