import Transact.Proofs.Peer.Ledger
import Transact.Proofs.Peer.Stock

/-! # Names of transactions

A broker names its transactions by a counter of four bytes, and never looks whether a name is in use.
What keeps the names apart is the list of requests: every declare is recorded there before it is
answered, and a list has fewer entries than there are names.

The broker is called from outside, in any order. Whoever listens to a link may call it as well when he is
told of an event; but to tell him is the last that is done for a call, so what he calls is as good as
called next, and the listeners here only look on.

* `Numbered`: the names of the live transactions were given by counting, to requests on record.
* `Call.keeps`: so it stays, whatever is called for.
* `run_begins`: a declare is rejected, or begins a transaction beside the live ones. -/

namespace Transact.Peer

namespace Broker

/-- A declare on this link begins a transaction beside the live ones: its name is none of theirs, and
all of them stay as they are. -/
def Begins (l : Nat) (b : Broker) : Prop := ∃ y, (b.declare l).1 = .declared (some y) ∧
  b.transactions.get? y = none ∧
  ∀ z r, b.transactions.get? z = some r → (b.declare l).2.transactions.get? z = some r

end Broker

namespace Names

open Run

/-! ### Calls -/

/-- What a broker and its links are called for. A link is given by its number. (Whoever drains the loop
has so many tasks run, one after the other.) -/
inductive Call where
  | attach (name observer : String)
  | send (link : Nat) (delivery : Number) (request : Request)
  | receive (link : Nat) (delivery : Number) (request : Request)
  | detach (link : Nat)
  | remoteOpen (link : Nat)
  | remoteClose (link : Nat) (error : Option Condition)
  | forgetLink (link : Nat)
  | closeAll (error : Option Condition)
  | runOne
  | transfer (address body : String) (state : Option DeliveryState)
  | fetch (address : String)
  | acknowledge (tag : Number) (state : DeliveryState)
  | release (tag : Number)
  | rejectDeclare
  | rejectDischarge
  | failTransfer (index : Number)
  | refuseLinks (refused : Bool)

/-- How many entries a list can have. -/
def capacity : Nat := 0xFFFFFFFF

/-- Records a request at most. If the list of requests is full, that raises, and nothing has happened. -/
def limited (x : Peering Unit) : Peering Unit := do
  let before ← get
  x
  if capacity < (← Act.outside).requests.size then
    set before
    Run.raise (.report .range "Invalid array length" none)

/-- Does something about a link, if there is one of this number. -/
def onLink (l : Nat) (x : Peering Unit) : Peering Unit := do
  if l < (← Act.outside).endpoints.size then x

/-- Makes a call. -/
def Call.perform : Call → Peering Unit
  | attach name observer => discard (Peer.attach name (.observer observer))
  | send l delivery request => onLink l (limited (Peer.send l delivery request))
  | receive l delivery request => onLink l (limited (Peer.receive l delivery request))
  | detach l => onLink l (Peer.detach l)
  | remoteOpen l => onLink l (openEndpoint peer l)
  | remoteClose l error => onLink l (closeEndpoint peer l error)
  | forgetLink l => onLink l (modifyBroker (·.forgetLink l))
  | closeAll error => Peer.closeAll error
  | runOne => discard (Loop.runOne (exec peer))
  | transfer address body state => Peer.transfer address body state none
  | fetch address => discard (withBroker (·.fetch address))
  | acknowledge tag state => askBroker (·.acknowledge tag state)
  | release tag => askBroker (·.release tag)
  | rejectDeclare => modifyBroker fun b => { b with declaresToReject := b.declaresToReject + 1 }
  | rejectDischarge => modifyBroker fun b => { b with dischargesToReject := b.dischargesToReject + 1 }
  | failTransfer index => modifyBroker fun b => { b with transfersToFail := b.transfersToFail ++ [index] }
  | refuseLinks refused => Act.modifyOutside fun o => { o with refusesLinks := refused }

/-- What a list of calls leads to. A call that raises ends there, and the next one follows. -/
def run (calls : List Call) : State :=
  calls.foldl (fun w c => (c.perform.observe w).2) initial

/-! ### The broker -/

variable {b b' : Broker} {l : Nat} {y : TxnId} {r r' : Record}

/-- No transaction begins. -/
structure Retains (b b' : Broker) : Prop where
  txnCounter : b'.txnCounter = b.txnCounter
  keys : b'.transactions.keys ⊆ b.transactions.keys

theorem Retains.trans {b'' : Broker} (h : Retains b b') (h' : Retains b' b'') : Retains b b'' :=
  ⟨h'.txnCounter.trans h.txnCounter, fun _ hy => h.keys (h'.keys hy)⟩

theorem retains_same (hc : b'.txnCounter = b.txnCounter) (hr : b'.transactions = b.transactions) :
    Retains b b' := by
  refine ⟨hc, ?_⟩
  rw [hr]
  exact List.Subset.refl _

/-- A live transaction takes in a message. -/
theorem retains_put (hc : b'.txnCounter = b.txnCounter) (hr : b.transactions.get? y = some r)
    (ht : b'.transactions = b.transactions.put y r') : Retains b b' := by
  refine ⟨hc, fun z hz => ?_⟩
  rw [ht] at hz
  obtain ⟨⟨z', r''⟩, listed, rfl⟩ := List.mem_map.1 hz
  rcases Roll.mem_put listed with ⟨rfl, -⟩ | before
  · exact List.mem_map.2 ⟨_, Roll.mem_of_get? hr, rfl⟩
  · exact List.mem_map.2 ⟨_, before, rfl⟩

theorem retains_transfer {index : Nat} {address body : String} {state : Option DeliveryState} :
    Retains b (b.transfer index address body state).2 := by
  cases state with
  | none => exact retains_same Broker.txnCounter_deposit Broker.transactions_deposit
  | some state =>
    unfold Broker.transfer
    split
    · exact retains_same rfl rfl
    · dsimp only
      split
      · exact retains_same rfl rfl
      · next r hr => exact retains_put rfl hr rfl

theorem retains_fetch {address : String} : Retains b (b.fetch address).2 := by
  unfold Broker.fetch
  split
  · exact retains_same rfl rfl
  · exact retains_same rfl rfl

theorem retains_takeBack {tag : Number} {d : Delivery} (h : b.takeBack tag = .ok (d, b')) :
    Retains b b' := by
  unfold Broker.takeBack at h
  split at h
  · cases h
  · cases h
    exact retains_same rfl rfl

theorem retains_release {tag : Number} (h : b.release tag = .ok b') : Retains b b' := by
  unfold Broker.release at h
  cases ht : b.takeBack tag with
  | error p => simp [ht, bind, Except.bind] at h
  | ok x =>
    simp only [ht, bind, Except.bind, pure, Except.pure, Except.ok.injEq] at h
    exact (retains_takeBack ht).trans (h ▸ retains_same rfl rfl)

theorem retains_acknowledge {tag : Number} {state : DeliveryState}
    (h : b.acknowledge tag state = .ok b') : Retains b b' := by
  unfold Broker.acknowledge at h
  cases ht : b.takeBack tag with
  | error p => simp [ht, bind, Except.bind] at h
  | ok x =>
    refine (retains_takeBack ht).trans ?_
    simp only [ht, bind, Except.bind, pure, Except.pure] at h
    split at h
    · next r hr _ =>
      cases h
      exact retains_put rfl hr rfl
    · cases h
      exact retains_same rfl rfl

theorem retains_forgetLink : Retains b (b.forgetLink l) := by
  refine ⟨(Broker.moves_forgetLink []).txnCounter, ?_⟩
  rw [Broker.transactions_forgetLink]
  exact (List.filter_sublist.map _).subset

theorem retains_discharge {fail : Bool} : Retains b (b.discharge y fail).2 := by
  refine ⟨(Broker.counters_discharge b y fail).1, ?_⟩
  rw [Broker.transactions_discharge]
  exact (List.filter_sublist.map _).subset

/-- A declare is rejected, or gives the name that the counter has come to. -/
theorem declare_cases (b : Broker) (l : Nat) :
    ((∃ e, (b.declare l).1 = .rejected e) ∧ Retains b (b.declare l).2) ∨
    ((b.declare l).1 = .declared (some (.ofCounter b.txnCounter)) ∧
      (b.declare l).2 = { b with
        txnCounter := b.txnCounter + 1
        transactions := b.transactions.put (.ofCounter b.txnCounter) { link := l } }) := by
  rcases Broker.answer_declare b (l := l) with ⟨rejected, after⟩ | declared
  · have after : (b.declare l).2 = _ := after
    exact .inl ⟨rejected, after ▸ retains_same rfl rfl⟩
  · exact .inr declared

/-! ### The invariant -/

/-- The task is about one of so many links, or a message that nobody asks after. -/
def Listed (links : Nat) : Task → Prop
  | .openLink e | .refuseLink e | .closeLink e _ | .answer e .. => e < links
  | .transfer _ _ _ _ sender => sender = none

/-- **The names were given by counting,** to declares that are on record. Those that wait for their
answers are on record as well.

* `watched`: nobody but an observer listens to a link. -/
structure Numbered (w : State) : Prop where
  watched : ∀ (e : Nat) (side : Endpoint), w.outside.endpoints[e]? = some side →
    ∃ name, side.listener = .observer name
  listed : ∀ task ∈ tasks w, Listed w.outside.endpoints.size task
  pos : 0 < w.outside.broker.txnCounter
  names : ∀ y ∈ w.outside.broker.transactions.keys,
    ∃ n, 0 < n ∧ n < w.outside.broker.txnCounter ∧ y = .ofCounter n
  counted : w.outside.broker.txnCounter + (tasks w).countP (·.isDeclare) ≤ w.outside.requests.size + 1
  room : w.outside.requests.size ≤ capacity

variable {w : State} {task : Task}

theorem Listed.mono {n m : Nat} (h : Listed n task) (hm : n ≤ m) : Listed m task := by
  cases task with
  | transfer => exact h
  | _ => exact Nat.lt_of_lt_of_le h hm

/-- **No name comes back** before all names were given. -/
theorem Numbered.begins (h : Numbered w) : (∃ e, (w.outside.broker.declare l).1 = .rejected e) ∨
    w.outside.broker.Begins l := by
  rcases declare_cases w.outside.broker l with ⟨rejected, -⟩ | ⟨declared, after⟩
  · exact .inl rejected
  · have new : w.outside.broker.transactions.get? (.ofCounter w.outside.broker.txnCounter) = none := by
      refine Roll.get?_eq_none.2 fun live => ?_
      obtain ⟨n, pos, lt, same⟩ := h.names _ live
      have wraps := TxnId.mod_eq_of_ofCounter same
      have counted := h.counted
      have room : w.outside.requests.size ≤ 0xFFFFFFFF := h.room
      omega
    refine .inr ⟨_, declared, new, fun z r found => ?_⟩
    have other : z ≠ .ofCounter w.outside.broker.txnCounter := by
      rintro rfl
      cases new.symm.trans found
    rw [after, Roll.get?_put, if_neg other]
    exact found

/-! ### One change -/

namespace Numbered

theorem changeBroker {f : Broker → Broker} (h : Numbered w)
    (hf : Retains w.outside.broker (f w.outside.broker)) : Numbered (w.out (·.changeBroker f)) :=
  { h with
    pos := Nat.lt_of_lt_of_eq h.pos hf.txnCounter.symm
    names := fun y hy => by
      obtain ⟨n, pos, lt, rfl⟩ := h.names y (hf.keys hy)
      exact ⟨n, pos, Nat.lt_of_lt_of_eq lt hf.txnCounter.symm, rfl⟩
    counted := by
      show (f w.outside.broker).txnCounter + _ ≤ _
      rw [hf.txnCounter]
      exact h.counted }

theorem changeEndpoint {e : Nat} {f : Endpoint → Endpoint} (h : Numbered w)
    (hf : ∀ side, (f side).listener = side.listener) : Numbered (w.out (·.changeEndpoint e f)) :=
  { h with
    watched := fun i side hi => by
      change (w.outside.endpoints.modify e f)[i]? = some side at hi
      rw [Array.getElem?_modify] at hi
      split at hi
      · obtain ⟨side, found, rfl⟩ := Option.map_eq_some_iff.1 hi
        rw [hf]
        exact h.watched i side found
      · exact h.watched i side hi
    listed := by
      show ∀ task ∈ tasks w, Listed (w.outside.endpoints.modify e f).size task
      rw [Array.size_modify]
      exact h.listed }

/-- A link is closed, and its transactions are rolled back. -/
theorem closeEndpoint (h : Numbered w) : Numbered ((w.out (·.changeEndpoint l fun x =>
    { x with closed := true })).out (·.changeBroker (·.forgetLink l))) := by
  have closed : Numbered (w.out (·.changeEndpoint l fun x => { x with closed := true })) :=
    h.changeEndpoint fun _ => rfl
  exact closed.changeBroker retains_forgetLink

theorem addEndpoint {name observer : String} (h : Numbered w) :
    Numbered (w.out (·.addEndpoint name (.observer observer))) :=
  { h with
    watched := fun i side hi => by
      change (w.outside.endpoints.push { name, listener := .observer observer })[i]? = some side at hi
      rw [Array.getElem?_push] at hi
      split at hi
      · cases hi
        exact ⟨observer, rfl⟩
      · exact h.watched i side hi
    listed := fun task hm => (h.listed task hm).mono (by simp [World.out, Outside.addEndpoint]) }

theorem schedule {label : String} (h : Numbered w) (hl : Listed w.outside.endpoints.size task)
    (hd : task.isDeclare = false) : Numbered (w.out (·.schedule label task)) :=
  { h with
    listed := fun other hm => by
      rw [tasks_schedule] at hm
      rcases List.mem_append.1 hm with before | last
      · exact h.listed other before
      · exact List.mem_singleton.1 last ▸ hl
    counted := by
      rw [tasks_schedule, List.countP_append, List.countP_singleton, hd]
      exact h.counted }

/-- A request is recorded, and waits for its answer. -/
theorem receive {label : String} {d : Number} {request : Request} (h : Numbered w)
    (hl : l < w.outside.endpoints.size) (room : w.outside.requests.size < capacity) :
    Numbered ((w.out (·.addRequest request)).out (·.schedule label (.answer l d request))) := by
  have recorded : (w.outside.requests.push request).size = w.outside.requests.size + 1 :=
    Array.size_push _
  refine { h with listed := fun task hm => ?_, counted := ?_, room := ?_ }
  · rw [tasks_schedule] at hm
    rcases List.mem_append.1 hm with before | last
    · exact h.listed task before
    · rw [List.mem_singleton.1 last]
      exact hl
  · have counted := h.counted
    have one : [Task.answer l d request].countP (·.isDeclare) ≤ 1 := List.countP_le_length
    rw [tasks_schedule, List.countP_append]
    show _ ≤ (w.outside.requests.push request).size + 1
    change _ + ((tasks w).countP (·.isDeclare) + _) ≤ _
    show w.outside.broker.txnCounter + _ ≤ _
    omega
  · show (w.outside.requests.push request).size ≤ capacity
    omega

/-- A task is started. If it answers a declare, one request is on record that was not counted yet. -/
theorem start {loop : Loop Task} (h : Numbered w)
    (ht : tasks w = task :: tasks (w.out (·.withLoop loop))) :
    Numbered (w.out (·.withLoop loop)) ∧ Listed w.outside.endpoints.size task ∧
      (task.isDeclare = true → w.outside.broker.txnCounter +
        (tasks (w.out (·.withLoop loop))).countP (·.isDeclare) ≤ w.outside.requests.size) := by
  have listed := h.listed
  have counted := h.counted
  rw [ht] at listed counted
  rw [List.countP_cons] at counted
  refine ⟨{ h with
    listed := fun task hm => listed task (List.mem_cons_of_mem _ hm), counted := ?_ },
    listed task List.mem_cons_self, fun hd => ?_⟩
  · show w.outside.broker.txnCounter + _ ≤ w.outside.requests.size + 1
    omega
  · rw [if_pos hd] at counted
    omega

/-- A declare is answered. -/
theorem declare (h : Numbered w) (hc : w.outside.broker.txnCounter + (tasks w).countP (·.isDeclare) ≤
    w.outside.requests.size) : Numbered (w.out (·.changeBroker fun b => (b.declare l).2)) := by
  rcases declare_cases w.outside.broker l with ⟨-, retains⟩ | ⟨-, after⟩
  · exact h.changeBroker retains
  · refine { h with pos := ?_, names := fun y hy => ?_, counted := ?_ }
    · show 0 < (w.outside.broker.declare l).2.txnCounter
      rw [after]
      exact Nat.succ_pos _
    · change y ∈ (w.outside.broker.declare l).2.transactions.keys at hy
      show ∃ n, 0 < n ∧ n < (w.outside.broker.declare l).2.txnCounter ∧ y = .ofCounter n
      rw [after] at hy ⊢
      obtain ⟨⟨y', r⟩, listed, rfl⟩ := List.mem_map.1 hy
      rcases Roll.mem_put listed with ⟨rfl, -⟩ | before
      · exact ⟨_, h.pos, Nat.lt_succ_self _, rfl⟩
      · obtain ⟨n, pos, lt, same⟩ := h.names y' (List.mem_map.2 ⟨_, before, rfl⟩)
        exact ⟨n, pos, Nat.lt_succ_of_lt lt, same⟩
    · show (w.outside.broker.declare l).2.txnCounter + _ ≤ w.outside.requests.size + 1
      rw [after]
      show w.outside.broker.txnCounter + 1 + (tasks w).countP (·.isDeclare) ≤ _
      omega

end Numbered

/-! ### Every call -/

/-- The invariant holds again, however the computation ends. -/
def Keeps {α : Type} (x : Peering α) (w : State) : Prop :=
  After x w (fun _ w' => Numbered w') fun _ w' => Numbered w'

/-- Whoever listens to a link is told, which changes nothing. -/
theorem observe_keeps {e : Observed} (h : Numbered w) : Keeps (observe e) w :=
  { h with }

theorem modifyBroker_keeps {f : Broker → Broker} (h : Numbered w)
    (hf : Retains w.outside.broker (f w.outside.broker)) : Keeps (modifyBroker f) w := h.changeBroker hf

theorem askBroker_keeps {f : Broker → Except Problem Broker} (h : Numbered w)
    (hf : ∀ b', f w.outside.broker = .ok b' → Retains w.outside.broker b') : Keeps (askBroker f) w := by
  unfold Keeps askBroker
  rw [after_bind, Act.after_outside]
  cases hb : f w.outside.broker with
  | error p => exact h
  | ok b' => exact h.changeBroker (f := fun _ => b') (hf b' hb)

theorem onLink_keeps {x : Peering Unit} (h : Numbered w)
    (hx : ∀ side, w.outside.endpoints[l]? = some side → Keeps x w) : Keeps (onLink l x) w := by
  unfold Keeps onLink
  rw [after_bind, Act.after_outside]
  split
  · next listed => exact hx _ (Array.getElem?_eq_getElem listed)
  · exact h

/-- A request that would be one too many is not recorded. -/
theorem limited_keeps {x : Peering Unit} (h : Numbered w)
    (hx : After x w (fun _ w' => w'.outside.requests.size ≤ capacity → Numbered w')
      fun _ w' => Numbered w') : Keeps (limited x) w := by
  unfold Keeps limited
  rw [after_bind, after_get, after_bind]
  refine hx.mono (fun _ w' hw' => ?_) fun _ _ => id
  rw [after_bind, Act.after_outside]
  split
  · exact h
  · next room => exact hw' (Nat.not_lt.1 room)

theorem receive_keeps {d : Number} {request : Request} (h : Numbered w) {side : Endpoint}
    (hl : w.outside.endpoints[l]? = some side) :
    After (Peer.receive l d request) w
      (fun _ w' => w'.outside.requests.size ≤ capacity → Numbered w') fun _ w' => Numbered w' := by
  unfold Peer.receive
  simp only [after_bind, after_endpointAt, after_modifyOutside, after_add]
  intro room
  refine h.receive (Array.getElem?_eq_some_iff.1 hl).1 ?_
  change (w.outside.requests.push request).size ≤ capacity at room
  rw [Array.size_push] at room
  exact room

theorem openEndpoint_keeps {side : Endpoint} (h : Numbered w)
    (hl : w.outside.endpoints[l]? = some side) : Keeps (openEndpoint peer l) w := by
  obtain ⟨name, watched⟩ := h.watched l side hl
  unfold Keeps openEndpoint
  rw [after_bind, after_endpointAt, Outside.endpoint_eq hl]
  split
  · exact h
  · rw [after_bind, after_modifyEndpoint, watched]
    exact observe_keeps (h.changeEndpoint fun _ => rfl)

theorem closeEndpoint_keeps {side : Endpoint} {error : Option Condition} (h : Numbered w)
    (hl : w.outside.endpoints[l]? = some side) : Keeps (closeEndpoint peer l error) w := by
  obtain ⟨name, watched⟩ := h.watched l side hl
  unfold Keeps closeEndpoint
  rw [after_bind, after_endpointAt, Outside.endpoint_eq hl]
  split
  · exact h
  · simp only [after_bind, after_modifyEndpoint, after_modifyBroker, watched]
    exact observe_keeps h.closeEndpoint

theorem detach_keeps (h : Numbered w) : Keeps (Peer.detach l) w := by
  unfold Keeps Peer.detach
  rw [after_bind, after_endpointAt]
  split
  · exact h
  · simp only [after_bind, after_modifyEndpoint, after_modifyBroker]
    exact h.closeEndpoint

/-- A request is answered. -/
theorem answer_keeps {side : Endpoint} {d : Number} {request : Request} (h : Numbered w)
    (hl : w.outside.endpoints[l]? = some side)
    (hc : request = .declare → w.outside.broker.txnCounter + (tasks w).countP (·.isDeclare) ≤
      w.outside.requests.size) : Keeps (answer peer l d request) w := by
  obtain ⟨name, watched⟩ := h.watched l side hl
  unfold Keeps answer
  rw [after_bind, after_endpointAt, Outside.endpoint_eq hl]
  split
  · exact h
  · rw [after_bind, after_withBroker, watched]
    refine observe_keeps ?_
    cases request with
    | declare => exact h.declare (hc rfl)
    | discharge => exact h.changeBroker retains_discharge

theorem runOne_keeps (h : Numbered w) : Keeps (Loop.runOne (exec peer)) w := by
  refine after_runOne (fun _ => h) fun label task loop _ first => ?_
  obtain ⟨started, listed, counted⟩ := h.start first
  have found {e : Nat} (he : e < w.outside.endpoints.size) :
      (w.out (·.withLoop loop)).outside.endpoints[e]? = some w.outside.endpoints[e] :=
    Array.getElem?_eq_getElem he
  cases task with
  | openLink e => exact openEndpoint_keeps started (found listed)
  | refuseLink e => exact closeEndpoint_keeps started (found listed)
  | closeLink e error => exact closeEndpoint_keeps started (found listed)
  | answer e d request =>
    refine answer_keeps started (found listed) fun declare => counted ?_
    rw [declare]
    rfl
  | transfer index address body state sender =>
    obtain rfl : sender = none := listed
    exact started.changeBroker (f := fun b => (b.transfer index address body state).2) retains_transfer

theorem closeAll_keeps {error : Option Condition} (h : Numbered w) : Keeps (Peer.closeAll error) w := by
  have all : ∀ (links : List (Endpoint × Nat)) (v : State), Numbered v →
      (∀ x ∈ links, x.2 < v.outside.endpoints.size) →
      Keeps (links.forM fun x => (Loop.add s!"close {x.1.name}" (Task.closeLink x.2 error) :
        Peering Unit)) v := by
    intro links
    induction links with
    | nil => exact fun v hv _ => hv
    | cons x links ih =>
      intro v hv listed
      unfold Keeps
      simp only [List.forM, after_bind, after_add]
      exact ih _ (hv.schedule (listed x List.mem_cons_self) rfl)
        fun x hx => listed x (List.mem_cons_of_mem _ hx)
  unfold Keeps Peer.closeAll
  rw [after_bind, Act.after_outside]
  refine all _ w h fun x hx => ?_
  have found := List.mem_zipIdx (List.mem_filter.1 hx).1
  simp only [Array.length_toList] at found
  omega

/-- **Every call keeps the invariant.** -/
theorem Call.keeps (c : Call) (h : Numbered w) : Keeps c.perform w := by
  cases c with
  | attach name observer =>
    unfold Keeps perform Peer.attach
    simp only [after_discard, after_bind, Act.after_outside, after_modifyOutside]
    have added : Numbered (w.out (·.addEndpoint name (.observer observer))) := h.addEndpoint
    have last : w.outside.endpoints.size <
        (w.outside.endpoints.push { name, listener := .observer observer }).size := by simp
    split
    · exact added.schedule last rfl
    · exact added.schedule last rfl
  | send l d request =>
    refine onLink_keeps h fun side hl => limited_keeps h ?_
    unfold Peer.send
    rw [after_bind, after_endpointAt]
    split
    · exact receive_keeps h hl
    · exact h
  | receive l d request => exact onLink_keeps h fun side hl => limited_keeps h (receive_keeps h hl)
  | detach l => exact onLink_keeps h fun _ _ => detach_keeps h
  | remoteOpen l => exact onLink_keeps h fun _ hl => openEndpoint_keeps h hl
  | remoteClose l error => exact onLink_keeps h fun _ hl => closeEndpoint_keeps h hl
  | forgetLink l => exact onLink_keeps h fun _ _ => modifyBroker_keeps h retains_forgetLink
  | closeAll error => exact closeAll_keeps h
  | runOne => exact after_discard.2 (runOne_keeps h)
  | transfer address body state =>
    unfold Keeps perform Peer.transfer
    simp only [after_bind, Act.after_outside, after_modifyOutside, after_add]
    exact Numbered.schedule { h with } rfl rfl
  | fetch address => exact after_discard.2 (h.changeBroker (f := fun b => (b.fetch address).2) retains_fetch)
  | acknowledge tag state => exact askBroker_keeps h fun _ => retains_acknowledge
  | release tag => exact askBroker_keeps h fun _ => retains_release
  | rejectDeclare =>
    unfold perform
    exact modifyBroker_keeps h (retains_same rfl rfl)
  | rejectDischarge =>
    unfold perform
    exact modifyBroker_keeps h (retains_same rfl rfl)
  | failTransfer index =>
    unfold perform
    exact modifyBroker_keeps h (retains_same rfl rfl)
  | refuseLinks refused => exact { h with }

variable {calls : List Call}

theorem run_numbered : Numbered (run calls) := by
  have start : Numbered initial := ⟨nofun, nofun, Nat.one_pos, nofun, Nat.le_refl _, Nat.zero_le _⟩
  have kept : ∀ w, Numbered w → Numbered (calls.foldl (fun w c => (c.perform.observe w).2) w) := by
    induction calls with
    | nil => exact fun _ h => h
    | cons c calls ih => exact fun w h => ih _ (c.keeps h).observe
  exact kept _ start

/-- **A declare never gives a name that is in use,** however many came before. It is rejected, or begins a
transaction beside the live ones, with all that was staged and acknowledged in them. -/
theorem run_begins : (∃ e, ((run calls).outside.broker.declare l).1 = .rejected e) ∨
    (run calls).outside.broker.Begins l := run_numbered.begins

end Names

end Transact.Peer
