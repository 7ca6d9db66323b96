import Transact.Proofs.Client.Counting
import Transact.Proofs.Scenario.Beginning

/-! # A session alone with its broker: ending

The session ends its transaction. On an open link the discharge waits in the loop, and its answer ends
the transaction; if the link has closed, the transaction is ended at once. Either way the session tells
its caller, and begins the next transaction.

* `Bound.handOver`, `Discharging.answered`: the end on an open link.
* `Broken.finish`: the end of a transaction in doubt.
* `MovedOn`: what is to be seen in the end. -/

namespace Transact.Scenario

open Run Peer

variable {n m t l c : Nat} {S : Session} {C : Context} {k : Link Waiting} {id : TransactionId} {y : TxnId}
  {v w w' : State} {completed : Nat} {q : Token Waiting} {r : Resolution Unit}
  {tell : Resolution Unit → Resolution Unit}

/-! ### The session moves on -/

/-- The session has told its caller, and is in its next transaction. -/
structure MovedOn (S : Session) (completed : Nat) (r : Resolution Unit) (broker : Broker)
    (discharges : List Bool) (w : State) : Prop where
  completed : w.client.completions[completed]? = some (.settled r)
  next : ∃ S' t y, w.outside.sessions[0]? = some S' ∧ S'.current = some t ∧
    w.client.transactions[t]? = some ⟨⟨S.id, .ofNat (S.sequence + 1)⟩, some y⟩
  queued : ∀ a, w.outside.broker.queued a = broker.queued a
  discharges : dischargesOf w.outside.requests.toList = discharges

/-- The session is in no transaction any more. -/
def freed (S : Session) : Session :=
  { S with discharging := false, aggregate := none, failedSend := none, current := none }

/-- The session has told its caller that its transaction has ended. -/
def parted (completed : Nat) (r : Resolution Unit) (v : State) : State :=
  (v.out (·.changeSession 0 freed)).on (·.write completed (.settled r))

theorem Scene.parted (h : Scene S C v) : Scene (freed S) C (parted completed r v) where
  session := Outside.changeSession_same h.session
  context := h.context
  own := h.own
  consumers := h.consumers
  accepts := h.accepts
  ends := h.ends

theorem after_moveOn {Q : Unit → State → Prop} {R : Halt → State → Prop} {far : Surroundings}
    (pending : v.client.Pending completed)
    (hQ : After (Session.enterNext far 0) (parted completed r v) (fun _ w' => Q () w') R) :
    After (Session.moveOn far 0 completed r) v Q R := by
  unfold Session.moveOn
  rw [after_bind, after_modifySession, after_bind, Act.after_settle (by exact pending), after_discard]
  exact hQ

theorem queued_declare {b : Broker} {a : String} : (b.declare l).2.queued a = b.queued a := by
  unfold Broker.declare
  split <;> rfl

theorem Begun.movedOn {added : Nat} (h : Begun (freed S) l c added (parted completed r v) w)
    (pending : v.client.Pending completed) : MovedOn S completed r v.outside.broker
      (dischargesOf v.outside.requests.toList) w where
  completed := h.aside.kept completed r (Array.getElem?_setIfInBounds_self_of_lt pending.lt)
  next := by
    obtain ⟨C, scene, -⟩ := h.bound.scene
    exact ⟨_, _, _, scene.session, rfl, h.bound.transaction⟩
  queued a := by
    rw [h.broker]
    exact queued_declare
  discharges := h.aside.discharges

theorem Scene.moveOn_joined (h : Scene S C v) (idle : C.stage = .idle) (hco : C.coordinator = some l)
    (hl : Joined l k v) (still : k.pending = []) (empty : tasks v = [])
    (accepted : v.outside.broker.declaresToReject = 0) (pending : v.client.Pending completed) :
    After (Session.moveOn (surroundings (n + 1)) 0 completed r) v (fun _ w' =>
      Loop.Settles (exec (surroundings (m + 1))) (MovedOn S completed r v.outside.broker
        (dischargesOf v.outside.requests.toList)) 1 w') fun _ _ => False := by
  refine after_moveOn pending ?_
  refine (h.parted.begins_joined (m := m) idle hco (hl.congr rfl rfl) still empty accepted).mono
    (fun c w' hw => ?_) fun _ _ => id
  exact hw.2.mono fun w begun => begun.movedOn pending

theorem Scene.moveOn_alone (h : Scene S C v) (idle : C.stage = .idle)
    (hco : ∀ l, C.coordinator = some l → (v.client.link l).state = .closed) (empty : tasks v = [])
    (accepted : v.outside.broker.declaresToReject = 0) (pending : v.client.Pending completed) :
    After (Session.moveOn (surroundings (n + 1)) 0 completed r) v (fun _ w' =>
      Loop.Settles (exec (surroundings (m + 1))) (MovedOn S completed r v.outside.broker
        (dischargesOf v.outside.requests.toList)) 2 w' ∧
      ∃ S', w'.outside.sessions[0]? = some S' ∧ S'.discharging = false) fun _ _ => False := by
  refine after_moveOn pending ?_
  refine (h.parted.begins_alone (m := m) idle hco empty accepted).mono (fun c w' hw => ?_) fun _ _ => id
  obtain ⟨-, session, settles⟩ := hw
  exact ⟨settles.mono fun w begun => begun.movedOn pending, session⟩

/-! ### Who is told of the end -/

/-- The token tells the session, and with it the caller of `completed`, how its transaction ended: as it
is, or as a failure, where a rollback takes the place of a commit. Its completions are not below `b`. -/
inductive Reports (x : Client Waiting) (b completed : Nat) :
    Token Waiting → (Resolution Unit → Resolution Unit) → Prop
  | plain {outcome : Nat} (h : x.Pending outcome) (h' : x.Pending completed) (ne : completed ≠ outcome)
    (le : b ≤ outcome) (le' : b ≤ completed) :
    Reports x b completed (.client outcome (.ended 0 completed)) fun r => r
  | instead {i outcome : Nat} {f : Failure} (hi : x.Pending i) (h : x.Pending outcome)
    (h' : x.Pending completed) (ne : completed ≠ outcome) (ni : completed ≠ i) (no : outcome ≠ i)
    (li : b ≤ i) (le : b ≤ outcome) (le' : b ≤ completed) :
    Reports x b completed (.instead i f (.client outcome (.ended 0 completed))) fun r =>
      .failed (r.cause?.getD f)

variable {b : Nat}

theorem Reports.mono {x x' : Client Waiting} (h : Reports x b completed q tell)
    (hx : ∀ c, b ≤ c → x.Pending c → x'.Pending c) : Reports x' b completed q tell := by
  cases h with
  | plain h h' ne le le' => exact .plain (hx _ le h) (hx _ le' h') ne le le'
  | instead hi h h' ne ni no li le le' =>
    exact .instead (hx _ li hi) (hx _ le h) (hx _ le' h') ne ni no li le le'

/-- What is left when it has been told. -/
structure Resolved (completed : Nat) (v w : State) : Prop where
  client : w.client = { v.client with completions := w.client.completions }
  outside : w.outside = v.outside
  pending : w.client.Pending completed

theorem Scene.resolved (h : Scene S C v) (hw : Resolved completed v w) : Scene S C w where
  session := hw.outside ▸ h.session
  context := by
    rw [hw.client]
    exact h.context
  own := h.own
  consumers := h.consumers
  accepts := hw.outside ▸ h.accepts
  ends := by
    rw [hw.client, hw.outside]
    exact h.ends

theorem Joined.resolved (h : Joined l k v) (hw : Resolved completed v w) : Joined l k w := by
  refine h.congr ?_ (by rw [hw.outside])
  rw [hw.client]

theorem Reports.resolve {Q : Unit → State → Prop} {R : Halt → State → Prop}
    (h : Reports v.client b completed q tell)
    (hQ : ∀ w, Resolved completed v w →
      After (Session.moveOn (surroundings n) 0 completed (tell r)) w Q R) :
    After (q.resolve (surroundings (n + 1)) r) v Q R := by
  cases h with
  | plain h h' ne =>
    unfold Token.resolve
    rw [after_bind, Act.after_settle h]
    exact hQ _ ⟨rfl, rfl, Client.pending_write.2 ⟨h', ne⟩⟩
  | instead hi h h' ne ni no =>
    unfold Token.resolve
    rw [after_bind, Act.after_settle hi]
    unfold Token.resolve
    rw [after_bind, Act.after_settle (Client.pending_write.2 ⟨h, no⟩)]
    exact hQ _ ⟨rfl, rfl, Client.pending_write.2 ⟨Client.pending_write.2 ⟨h', ni⟩, ne⟩⟩

/-! ### The end on an open link -/

theorem Scene.notify (h : Scene S C w) {far : Surroundings} {hook : Hook}
    {Q : Option Failure → State → Prop} {R : Halt → State → Prop} :
    After (Context.notify far 0 hook) w Q R ↔ Q none w := by
  unfold Context.notify
  rw [after_bind, Act.after_context, Client.context_eq h.context, h.consumers]
  rfl

/-- The discharge of the transaction waits for its answer. -/
structure Discharging (S : Session) (id : TransactionId) (t l b : Nat) (y : TxnId) (commit : Bool)
    (completed : Nat) (tell : Resolution Unit → Resolution Unit) (w : State) : Prop where
  scene : ∃ C, Scene S C w ∧ C.coordinator = some l
  link : ∃ k m x q, Joined l k w ∧ k.pending = [(m, ⟨some commit, t, .discharging x 0 commit q⟩)] ∧
    tasks w = [.answer l (.ofIndex m) (.discharge y (!commit))] ∧ w.client.Pending x ∧ b ≤ x ∧
    ∀ r, Reports (w.client.write x (.settled r)) b completed q tell
  transaction : w.client.transactions[t]? = some ⟨id, some y⟩

theorem discharges_discharge {requests : Array Request} {fail : Bool} :
    dischargesOf (requests.push (.discharge y fail)).toList = dischargesOf requests.toList ++ [fail] := by
  simp [dischargesOf]

/-- What is known once the discharge is on its way. -/
structure HandedOver (S : Session) (id : TransactionId) (t l b : Nat) (y : TxnId) (commit : Bool)
    (completed : Nat) (tell : Resolution Unit → Resolution Unit) (w w' : State) : Prop where
  waits : Discharging S id t l b y commit completed tell w'
  broker : w'.outside.broker = w.outside.broker
  discharges : dischargesOf w'.outside.requests.toList =
    dischargesOf w.outside.requests.toList ++ [!commit]
  pending : ∀ c, w.client.Pending c → w'.client.Pending c

theorem Bound.handOver {commit : Bool} (h : Bound S id t l y w) (empty : tasks w = [])
    (reports : Reports w.client b completed q tell) :
    After (Context.handOver (surroundings (n + 1)) 0 t l commit q) w
      (fun _ w' => HandedOver S id t l b y commit completed tell w w') fun _ _ => False := by
  obtain ⟨C, scene, active, current, coordinator, -⟩ := h.scene
  obtain ⟨k, joined, still⟩ := h.link
  unfold Context.handOver
  simp only [after_bind, Act.after_modifyContext, Act.after_newCompletion]
  obtain ⟨v, hv⟩ : ∃ v : State, v = (w.on (·.changeContext 0 fun x => { x with
    stage := .discharging })).on (·.addCompletion) := ⟨_, rfl⟩
  have joined' : Joined l k v := hv ▸ joined.congr rfl rfl
  have changed := Client.changeContext_same (f := fun x => { x with stage := .discharging })
    scene.context
  have transaction : v.client.transaction t = ⟨id, some y⟩ := by
    subst hv
    show w.client.transaction t = _
    rw [Client.transaction, h.transaction]
    rfl
  rw [← hv]
  unfold Link.discharge
  simp only [after_bind, Act.after_transaction, transaction]
  refine after_transmit joined'.link joined'.opened joined'.sender joined'.active fun label => ?_
  have old {c : Nat} (pending : w.client.Pending c) : w.client.addCompletion.Pending c :=
    Client.pending_addCompletion.2 (.inl pending)
  have le : b ≤ w.client.completions.size := by
    cases reports with
    | plain h _ _ le => exact Nat.le_of_lt (Nat.lt_of_le_of_lt le h.lt)
    | instead _ h _ _ _ _ _ le => exact Nat.le_of_lt (Nat.lt_of_le_of_lt le h.lt)
  subst hv
  refine {
    waits := {
      scene := ⟨_, ⟨scene.session, changed, scene.own, scene.consumers, scene.accepts, ?_⟩, coordinator⟩
      link := ⟨_, k.nextDelivery, w.client.completions.size, q, joined'.keep.congr rfl rfl, ?_, ?_, ?_, le,
        fun r => reports.mono fun c _ pending => ?_⟩
      transaction := h.transaction }
    broker := rfl
    discharges := discharges_discharge
    pending := fun c => old }
  · exact scene.ends.trans (Array.size_modify ..).symm
  · show k.pending ++ _ = _
    rw [still]
    rfl
  · rw [tasks_request]
    show tasks w ++ _ = _
    rw [empty]
    rfl
  · exact Client.pending_addCompletion.2 (.inr rfl)
  · exact Client.pending_write.2 ⟨old pending, Nat.ne_of_lt pending.lt⟩

/-- **The transaction is handed over** to be discharged. -/
theorem Bound.finish (commit : Bool) (h : Bound S id t l y w) (empty : tasks w = [])
    (reports : Reports w.client b completed q tell) :
    After (Context.finish (surroundings (n + 1)) 0 (Context.endingFor commit) ⟨t, false⟩ q) w
      (fun _ w' => HandedOver S id t l b y commit completed tell w w') fun _ _ => False := by
  obtain ⟨C, scene, active, current, coordinator, -⟩ := h.scene
  obtain ⟨k, joined, still⟩ := h.link
  have context : w.client.context 0 = C := Client.context_eq scene.context
  have link : w.client.link l = k := Client.link_eq joined.link
  have transaction : w.client.transaction t = ⟨id, some y⟩ := by
    rw [Client.transaction, h.transaction]
    rfl
  unfold Context.finish
  simp only [after_bind, Act.after_transaction, Act.after_currentId, context, current, transaction,
    Option.map_some, ne_eq, not_true_eq_false, if_false, Act.after_context, active, reduceCtorEq,
    Act.after_isFailed, coordinator, Option.any_some, link, joined.opened, decide_false,
    Bool.false_eq_true]
  unfold Context.discharge
  simp only [after_bind, Act.after_context, context, current, coordinator]
  cases commit with
  | true =>
    simp only [Context.endingFor, if_true, after_bind, scene.notify]
    exact h.handOver empty reports
  | false =>
    simp only [Context.endingFor, Bool.false_eq_true, if_false, after_bind, after_discard, scene.notify]
    exact h.handOver empty reports

/-! ### The transaction is forgotten -/

theorem Scene.concluded (h : Scene S C v) :
    Scene S C.concluded (v.on (·.changeContext 0 Context.concluded)) :=
  ⟨h.session, Client.changeContext_same h.context, h.own, rfl, h.accepts, h.ends⟩

theorem Scene.conclude (h : Scene S C v) {far : Surroundings} {commit : Bool} {Q : Unit → State → Prop}
    {R : Halt → State → Prop} : After (Context.conclude far 0 commit) v Q R ↔
      Q () (v.on (·.changeContext 0 Context.concluded)) := by
  have reset : Scene S C.cleared (v.on (·.changeContext 0 (·.cleared))) :=
    ⟨h.session, Client.changeContext_same h.context, h.own, h.consumers, h.accepts, h.ends⟩
  have both : (v.on (·.changeContext 0 (·.cleared))).on (·.changeContext 0 fun x => { x with
      registry := {} }) = v.on (·.changeContext 0 Context.concluded) :=
    congrArg (World.mk · v.outside) Client.changeContext_changeContext
  unfold Context.conclude
  rw [after_bind, Act.after_reset, after_bind, after_discard, reset.notify, Act.after_modifyContext, both]

/-- **The discharge is answered:** the transaction has ended, and the session begins the next one. -/
theorem Discharging.answered {commit : Bool}
    (h : Discharging S id t l b y commit completed tell w)
    (accepted : (w.outside.broker.discharge y (!commit)).2.declaresToReject = 0) :
    After (Loop.runOne (exec (surroundings (n + 2)))) w (fun started w' => started = true ∧
      Loop.Settles (exec (surroundings (m + 1))) (MovedOn S completed
        (tell (Link.dischargeResolution id commit (w.outside.broker.discharge y (!commit)).1))
        (w.outside.broker.discharge y (!commit)).2 (dischargesOf w.outside.requests.toList)) 1 w')
      fun _ _ => False := by
  obtain ⟨C, scene, coordinator⟩ := h.scene
  obtain ⟨k, d, x, q, joined, outstanding, waits, pending, -, reports⟩ := h.link
  refine after_runOne_cons waits fun label v hv => ?_
  have scene := scene.started hv
  have joined := joined.started hv
  have found : (v.client.link l).pending.find? (·.1 = d) =
      some (d, ⟨some commit, t, .discharging x 0 commit q⟩) := by
    rw [Client.link_eq joined.link, outstanding]
    simp
  have transaction : v.client.transaction t = ⟨id, some y⟩ := by
    rw [hv.client, Client.transaction, h.transaction]
    rfl
  rw [← hv.client] at pending reports
  rw [← hv.broker] at accepted ⊢
  show After (answer _ l _ _) _ _ _
  unfold answer
  simp only [after_bind, after_endpointAt, joined.active, joined.listener]
  rw [if_neg (by simp)]
  simp only [after_bind, after_withBroker, Number.toNat?_ofIndex]
  unfold Link.settled
  simp only [after_bind, Act.after_link]
  split
  · next none => cases found.symm.trans none
  next exchange some_ =>
  obtain ⟨rfl, rfl⟩ := Prod.mk.inj (Option.some.inj (found.symm.trans some_))
  simp only [after_bind, Act.after_modifyLink, Act.after_transaction]
  obtain ⟨u, hu⟩ : ∃ u : State, u = (v.out (·.changeBroker fun b => (b.answer l
    (.discharge y (!commit))).2)).on (·.changeLink l fun k => { k with
      pending := k.pending.filter (·.1 ≠ d) }) := ⟨_, rfl⟩
  rw [← hu, show u.client.transaction t = ⟨id, some y⟩ by rw [hu]; exact transaction]
  unfold Token.resolve
  have filtered : Joined l { k with pending := k.pending.filter (·.1 ≠ d) } u := by
    subst hu
    exact ⟨Client.changeLink_same joined.link, joined.opened, joined.opening, joined.sender, joined.far⟩
  have scene' (r : Resolution Unit) : Scene S C (u.on (·.write x (.settled r))) := by
    subst hu
    refine ⟨scene.session, scene.context, scene.own, scene.consumers, scene.accepts, ?_⟩
    exact scene.ends.trans (Array.size_modify ..).symm
  rw [after_bind, Act.after_settle (by subst hu; exact pending), after_bind, (scene' _).conclude]
  have kept (r : Resolution Unit) : Reports ((u.on (·.write x (.settled r))).on
      (·.changeContext 0 Context.concluded)).client b completed q tell := by
    subst hu
    exact (reports r).mono fun c _ live => live
  refine (kept _).resolve fun w' hw => ?_
  have empty : tasks w' = [] := by
    rw [tasks, hw.outside]
    subst hu
    exact hv.tasks
  have broker : w'.outside.broker = (v.outside.broker.discharge y (!commit)).2 := by
    rw [hw.outside]
    subst hu
    rfl
  have requests : dischargesOf w'.outside.requests.toList =
      dischargesOf w.outside.requests.toList := by
    have same : v.outside.requests = w.outside.requests := by rw [hv.outside]
    rw [hw.outside, ← same]
    subst hu
    rfl
  rw [← broker] at accepted
  have near : Joined l { k with pending := k.pending.filter (·.1 ≠ d) } w' :=
    Joined.resolved (by exact filtered.congr rfl rfl) hw
  rw [← broker, ← requests]
  refine (((scene' _).concluded.resolved hw).moveOn_joined rfl coordinator near (by simp [outstanding])
    empty accepted hw.pending).mono (fun _ _ settles => ⟨trivial, settles⟩) fun _ _ => False.elim

/-! ### The end in doubt -/

/-- The session is in the transaction `t`, and its link `l` has closed. -/
structure Broken (S : Session) (id : TransactionId) (t l : Nat) (w : State) : Prop where
  scene : ∃ C, Scene S C w ∧ C.stage = .active ∧ C.current = some t ∧ C.coordinator = some l
  link : (w.client.link l).state = .closed
  transaction : (w.client.transaction t).id = id

/-- **The link is closed** by the broker. -/
theorem Bound.dropped {error : Option Condition} (h : Bound S id t l y w)
    (waits : tasks w = [.closeLink l error]) :
    After (Loop.runOne (exec (surroundings (n + 1)))) w (fun started w' => started = true ∧
      Broken S id t l w' ∧ tasks w' = [] ∧ w'.outside.broker = w.outside.broker.forgetLink l ∧
      w'.client.completions = w.client.completions ∧ w'.client.aggregates = w.client.aggregates ∧
      w'.outside.requests = w.outside.requests) fun _ _ => False := by
  obtain ⟨C, scene, active, current, coordinator, -⟩ := h.scene
  obtain ⟨k, joined, still⟩ := h.link
  refine after_runOne_cons waits fun label v hv => ?_
  have scene := scene.started hv
  have joined := joined.started hv
  obtain ⟨e, far, open_, listener⟩ := joined.far
  have closed : e.closed = false := by
    simp only [Endpoint.isActive, Bool.and_eq_true, Bool.not_eq_true'] at open_
    exact open_.2
  show After (closeEndpoint _ l error) _ _ _
  unfold closeEndpoint
  simp only [after_bind, after_endpointAt, Outside.endpoint_eq far, closed]
  rw [if_neg Bool.false_ne_true]
  simp only [after_bind, after_modifyEndpoint, after_modifyBroker, listener]
  obtain ⟨u, hu⟩ : ∃ u : State, u = (v.out (·.changeEndpoint l fun x => { x with
    closed := true })).out (·.changeBroker (·.forgetLink l)) := ⟨_, rfl⟩
  rw [← hu]
  have link : u.client.links[l]? = some k := by
    rw [hu]
    exact joined.link
  have first := Client.changeLink_same (f := fun k : Link Waiting => { k with closeError := error }) link
  have second := Client.changeLink_same
    (f := fun k : Link Waiting => { k with state := .closed, opening := none }) first
  have opening : (u.client.changeLink l fun k => { k with closeError := error }).link l =
      { k with closeError := error } := Client.link_eq first
  have pending : ((u.client.changeLink l fun k => { k with closeError := error }).changeLink l fun k =>
      { k with state := .closed, opening := none }).link l =
        { k with closeError := error, state := .closed, opening := none } := Client.link_eq second
  unfold Link.closed
  simp only [after_bind, Act.after_link, Client.link_eq link, joined.opened]
  rw [if_neg (by simp)]
  rw [after_bind, Act.after_modifyLink]
  unfold Link.shut
  rw [after_bind, Act.after_link, after_bind, Act.after_modifyLink,
    show (u.on (·.changeLink l fun k => { k with closeError := error })).client.link l = _ from opening]
  simp only [joined.opening, after_bind]
  rw [Act.after_link, show ((u.on (·.changeLink l fun k => { k with closeError := error })).on
    (·.changeLink l fun k => { k with state := .closed, opening := none })).client.link l = _ from
      pending, Act.after_modifyLink, still]
  have third := Client.changeLink_same (f := fun k : Link Waiting => { k with pending := [] }) second
  subst hu
  refine ⟨trivial, ⟨⟨C, ⟨scene.session, scene.context, scene.own, scene.consumers, scene.accepts, ?_⟩, active,
    current, coordinator⟩, ?_, ?_⟩, hv.tasks, ?_, ?_, ?_, ?_⟩
  · simp [World.on, World.out, Outside.changeEndpoint, Outside.changeBroker, Client.changeLink,
      scene.ends]
  · exact congrArg Link.state (Client.link_eq third)
  · show (v.client.transaction t).id = id
    rw [hv.client, Client.transaction, h.transaction]
    rfl
  · rw [← hv.broker]
    rfl
  · rw [← hv.client]
    rfl
  · rw [← hv.client]
    rfl
  · rw [show w.outside.requests = v.outside.requests by rw [hv.outside]]
    rfl

/-- **The transaction is in doubt:** it has ended at once, and the session begins the next one. -/
theorem Broken.finish {ending : Ending} (h : Broken S id t l w) (empty : tasks w = [])
    (accepted : w.outside.broker.declaresToReject = 0) (reports : Reports w.client b completed q tell) :
    After (Context.finish (surroundings (n + 2)) 0 ending ⟨t, true⟩ q) w (fun _ w' =>
      Loop.Settles (exec (surroundings (m + 1))) (MovedOn S completed
        (tell (Context.answerUnbound ending true true)) w.outside.broker
        (dischargesOf w.outside.requests.toList)) 2 w' ∧
      ∃ S', w'.outside.sessions[0]? = some S' ∧ S'.discharging = false) fun _ _ => False := by
  obtain ⟨C, scene, active, current, coordinator⟩ := h.scene
  have context : w.client.context 0 = C := Client.context_eq scene.context
  have leave {r : Resolution Unit} : After (do
      Context.abandon (surroundings (n + 2)) 0
      q.resolve (surroundings (n + 2)) r) w (fun _ w' =>
        Loop.Settles (exec (surroundings (m + 1))) (MovedOn S completed (tell r) w.outside.broker
          (dischargesOf w.outside.requests.toList)) 2 w' ∧
        ∃ S', w'.outside.sessions[0]? = some S' ∧ S'.discharging = false) fun _ _ => False := by
    unfold Context.abandon
    rw [after_bind, after_bind, after_discard, scene.notify, scene.conclude]
    have kept : Reports (w.on (·.changeContext 0 Context.concluded)).client b completed q tell :=
      reports.mono fun c _ live => live
    refine kept.resolve fun w' hw => ?_
    have near : (w'.client.link l).state = .closed := by
      rw [hw.client]
      exact h.link
    have same : w'.outside = w.outside := hw.outside
    rw [← same] at accepted ⊢
    refine (scene.concluded.resolved hw).moveOn_alone rfl (fun l' hl => ?_) ?_ accepted hw.pending
    · obtain rfl : l = l' := Option.some.inj (coordinator.symm.trans hl)
      exact near
    · rw [tasks, same]
      exact empty
  unfold Context.finish
  simp only [after_bind, Act.after_transaction, Act.after_currentId, context, current, h.transaction,
    Option.map_some, ne_eq, not_true_eq_false, if_false, Act.after_context, active, reduceCtorEq,
    Act.after_isFailed, coordinator, Option.any_some, h.link, decide_true, if_true]
  cases ending with
  | rollback => exact leave
  | commit => exact leave

end Transact.Scenario
