import Transact.Proofs.Peer.Ending

/-! # From rest to rest

A step of a run begins and ends with all sessions at rest. `Advance` says what it adds to what is
known of the run: messages that were sent, messages that were taken in, and a commit or rollback that
was asked for. Here are the steps that do little: a task that is scheduled or taken from the loop, a
call that is refused, and whatever only moves messages about at the broker. -/

namespace Transact.Peer

open Run

variable {o : Origin} {G G' : Ledger} {due : Option Nat} {s n i t l : Nat} {p : Phase Waiting}
  {co : Option Nat} {S : Session} {w w' v : State} {job : Task} {quiet : Prop} {g : Gain}

/-! ### What a step adds -/

/-- From `w` to `w'` the messages of the transaction are put at the tails of their queues. All of
them are staged but those that were made to fail, and none is on its way. -/
structure Publishes (G : Ledger) (t : Nat) (w w' : State) : Prop where
  clean : G.Clean t
  known : G.Known t
  waiting : ∀ x ∈ G.waiting, x.transaction ≠ t
  queue : ∀ address, (w'.outside.broker.queue address).toList =
    (w.outside.broker.queue address).toList ++ (G.staged t).filter (·.address = address)

/-- **What a step adds** to what is known of a run. -/
inductive Gain where
  | nothing
  /-- A call was refused: its caller is given this completion, which has failed. -/
  | refused (completion : Nat)
  | sent (x : Parcel)
  | taken (x : Parcel) (fate : Fate)
  /-- The completion of a commit or rollback that was asked for. -/
  | asked (completion : Nat) (ending : Ending) (transaction : Nat)
  | committed (transaction : Nat)

namespace Gain

/-- The message that the step has sent. -/
def parcel? : Gain → Option Parcel
  | sent x => some x
  | _ => none

/-- The message that the step has taken in, with its fate. -/
def intake? : Gain → Option (Parcel × Fate)
  | taken x fate => some (x, fate)
  | _ => none

/-- What is consumed when a transaction is committed is what its discharge consumes. -/
def lost (w : State) : Gain → List Delivery
  | committed _ => consumed w
  | _ => []

end Gain

/-- A step from `w` to `w'`, with what it adds. -/
structure Advance (G : Ledger) (w : State) (g : Gain) (G' : Ledger) (w' : State) : Prop where
  calm : Calm G' w'
  parcels : G'.parcels = G.parcels ++ g.parcel?.toList
  taken : G'.taken = G.taken ++ g.intake?.toList
  onward : Onward w w'
  purposes : ∀ (c : Nat) (a : Purpose) (n : Nat), G.purposes[c]? = some (a, n) →
    G'.purposes[c]? = some (a, n)
  reports : ∀ (c : Nat) (ending : Ending) (t : Nat), G'.purposes[c]? = some (.report ending, t) ↔
    G.purposes[c]? = some (.report ending, t) ∨ g = .asked c ending t
  fresh : ∀ x, g = .sent x → ¬ G.Concluded w.client x.transaction
  concluded : ∀ t, G'.Concluded w'.client t → G.Concluded w.client t ∨ g = .committed t
  published : Distinct w → ∀ t, g = .committed t → Publishes G t w w'
  balance : Distinct w → Broker.Balance (g.lost w) w.outside.broker w'.outside.broker
  lawful : ∀ (c : Nat) (f : Failure), w'.client.completions[c]? = some (.settled (.failed f)) →
    ¬ f.Legal → w.client.completions[c]? = some (.settled (.failed f)) ∨ g = .refused c

/-- A step that adds nothing. -/
def Steady (G : Ledger) (w w' : State) : Prop := ∃ G', Advance G w .nothing G' w'

/-- A step that ends a transaction with a commit. -/
def Commits (G : Ledger) (w w' : State) : Prop := ∃ t G', Advance G w (.committed t) G' w'

theorem Calm.turn (h : Calm G w) (quiet : Prop) (hr : Rest G s p co S w) :
    Turn ⟨G, w, none, quiet⟩ G none s p co S w where
  common := h.common
  others i hi _ := h.settled i hi
  seat := hr.seat
  dues := hr.dues
  session := hr.session
  context := hr.context
  count := hr.count
  current := hr.current
  due _ e := by cases e
  since := .refl _

theorem Calm.advance (h : Calm G w) : Advance G w .nothing G w :=
  ⟨h, (List.append_nil _).symm, (List.append_nil _).symm, .refl w, fun _ _ _ => id,
    fun _ _ _ => (or_iff_left nofun).symm, nofun, fun _ => .inl, nofun, fun _ => .refl _,
    fun _ _ e _ => .inl e⟩

theorem Calm.refusing (h : Calm G w) (c : Nat) : Advance G w (.refused c) G w :=
  { h.advance with
    reports := fun _ _ _ => (or_iff_left nofun).symm
    fresh := nofun
    concluded := fun _ => .inl
    published := nofun
    lawful := fun _ _ e _ => .inl e }

/-- A step that leaves the ledger and the completions as they are. -/
theorem Calm.still (h : Calm G w') (hc : w'.client.completions = w.client.completions)
    (ho : Onward w w')
    (hb : Distinct w → Broker.Balance 0 w.outside.broker w'.outside.broker) :
    Advance G w .nothing G w' := by
  refine { h.advance with
    onward := ho, fresh := nofun, concluded := fun t ht => .inl ?_, published := nofun, balance := hb
    lawful := fun c f e _ => .inl (hc ▸ e) }
  obtain ⟨c, hr, hs⟩ := ht
  exact ⟨c, hr, hc ▸ hs⟩

theorem Calm.steady (h : Calm G w') (hc : w'.client.completions = w.client.completions)
    (ho : Onward w w')
    (hb : Distinct w → Broker.Balance 0 w.outside.broker w'.outside.broker) : Steady G w w' :=
  ⟨G, h.still hc ho hb⟩

theorem Calm.unmoved (h : Calm G w) : Steady G w w := h.steady rfl (.refl w) fun _ => .refl _

/-- Work that began when a transaction had been published, or when none was to be. -/
theorem Since.advance (hs : Since ⟨G, v, due, quiet⟩ G' w') (hc : Calm G' w')
    (hv : v.client.completions = w.client.completions) (ho : Onward w v)
    (hd : ∀ t, due = some t → quiet ∧ (Distinct w → Publishes G t w v))
    (hb : Distinct w →
      Broker.Balance ((due.elim Gain.nothing .committed).lost w) w.outside.broker v.outside.broker) :
    Advance G w (due.elim .nothing .committed) G' w' := by
  have taken : G'.taken = G.taken := hs.taken
  have waiting : G'.waiting = G.waiting := hs.waiting
  refine ⟨hc, ?_, ?_, ho.trans hs.onward, hs.purposes, fun c ending t => ?_,
    fun x e => ?_, fun t ht => ?_, fun hx t e => ?_, ?_, fun c f e hf => .inl (hv ▸ hs.lawful c f e hf)⟩
  · rw [Ledger.parcels, Ledger.parcels, taken, waiting]
    cases due <;> exact (List.append_nil _).symm
  · rw [taken]
    cases due <;> exact (List.append_nil _).symm
  · refine (hs.reports c ending t).trans (or_iff_left ?_).symm
    cases due <;> exact nofun
  · cases due <;> cases e
  · rcases hs.concluded t ht with ⟨c, hc, e⟩ | e
    · exact .inl ⟨c, hc, hv ▸ e⟩
    · obtain rfl : due = some t := e
      exact .inr rfl
  · cases due with
    | none => cases e
    | some _ =>
      cases e
      obtain ⟨hq, hp⟩ := hd t rfl
      have same := hs.broker hq
      exact { hp hx with queue := fun address => by simpa only [same] using (hp hx).queue address }
  · exact fun hx => (hb hx).trade hs.shift.trade

theorem Back.advance (h : Back ⟨G, v, due, quiet⟩ w')
    (hv : v.client.completions = w.client.completions) (ho : Onward w v)
    (hd : ∀ t, due = some t → quiet ∧ (Distinct w → Publishes G t w v))
    (hb : Distinct w →
      Broker.Balance ((due.elim Gain.nothing .committed).lost w) w.outside.broker v.outside.broker) :
    ∃ G', Advance G w (due.elim .nothing .committed) G' w' := by
  obtain ⟨G', hc, hs⟩ := h
  exact ⟨G', hs.advance hc hv ho hd hb⟩

theorem Back.steady (h : Back ⟨G, v, none, quiet⟩ w')
    (hv : v.client.completions = w.client.completions) (ho : Onward w v)
    (hb : Distinct w → Broker.Balance 0 w.outside.broker v.outside.broker) : Steady G w w' :=
  h.advance hv ho nofun hb

/-! ### Tasks that are scheduled -/

theorem Calm.schedule (h : Calm G w) (hj : job.Idle)
    (hl : ∀ l, job.link? = some l → l < w.client.links.size)
    (hd : ∀ i, job.deposit? = some i → G.Stray w.outside.transfers i) {label : String} :
    Calm G (w.out (·.schedule label job)) where
  common := { h.common with
    placed := by
      intro job' hj'
      rw [tasks_schedule, List.mem_append, List.mem_singleton] at hj'
      rcases hj' with hj' | rfl
      · exact h.common.placed job' hj'
      · exact hl
    transfers := by
      rw [tasks_schedule, List.filter_append, h.common.transfers]
      simp [hj.transfer]
    deposits := by
      intro job' hj'
      rw [tasks_schedule, List.mem_append, List.mem_singleton] at hj'
      rcases hj' with hj' | rfl
      · exact h.common.deposits job' hj'
      · exact hd
    counter := by
      rw [tasks_schedule, List.countP_append, List.countP_singleton, hj.declare]
      exact h.common.counter }
  settled i hi := (h.settled i hi).spared { Spares.refl i G w with
    asked := fun l _ _ _ _ => by rw [tasks_schedule, asked_append (hj.asks l)]
    closing := fun _ l _ y _ _ _ hs => by
      rw [tasks_schedule]
      exact hs.append (hj.carries y)
    opens := fun l _ ⟨job', hj', e⟩ =>
      ⟨job', by rw [tasks_schedule]; exact List.mem_append_left _ hj', e⟩ }

/-! ### Tasks that are started -/

theorem tasks_of_head {label : String} (h : w.outside.loop.tasks.head? = some (label, job)) :
    ∃ ts, tasks w = job :: ts := by
  rw [Queue.head?_eq] at h
  obtain ⟨ts, e⟩ := List.head?_eq_some_iff.1 h
  exact ⟨ts.map (·.2), by rw [tasks, e, List.map_cons]⟩

theorem consumed_eq {ts : List Task} (ht : tasks w = job :: ts) :
    consumed w = job.consumes w.outside := by
  obtain ⟨⟨label, job'⟩, rest, e, rfl, -⟩ := List.map_eq_cons_iff.1 ht
  rw [consumed, Queue.head?_eq, e]
  rfl

theorem Common.start (h : Common G due w) {loop : Loop Task}
    (ht : tasks w = job :: tasks (w.out (·.withLoop loop))) (hj : job.isTransfer = false) :
    Common G due (w.out (·.withLoop loop)) :=
  { h with
    placed := fun job' hj' => h.placed job' (by
      rw [ht]
      exact List.mem_cons_of_mem _ hj')
    transfers := by
      have := h.transfers
      rwa [ht, List.filter_cons, hj, if_neg Bool.false_ne_true] at this
    deposits := fun job' hj' => h.deposits job' (ht ▸ List.mem_cons_of_mem _ hj')
    counter := by
      have := h.counter
      rw [ht, List.countP_cons] at this
      show w.outside.broker.txnCounter + _ ≤ Peer.declares w + 1
      omega }

theorem Steady.started {loop : Loop Task} (h : Steady G (w.out (·.withLoop loop)) w') :
    Steady G w w' := by
  obtain ⟨G', hG⟩ := h
  have started : Onward w (w.out (·.withLoop loop)) := .of_same rfl rfl rfl le_rfl le_rfl le_rfl
  exact ⟨G', { hG with
    onward := started.trans hG.onward
    published := nofun }⟩

theorem opens_tail (ht : tasks w = job :: tasks v) (hj : job.opens? ≠ some l)
    (h : ∃ job' ∈ tasks w, job'.opens? = some l) : ∃ job' ∈ tasks v, job'.opens? = some l := by
  obtain ⟨job', hj', e⟩ := h
  rw [ht, List.mem_cons] at hj'
  rcases hj' with rfl | hj'
  · exact absurd e hj
  · exact ⟨job', hj', e⟩

theorem spares_start {loop : Loop Task} (ht : tasks w = job :: tasks (w.out (·.withLoop loop)))
    (hj : ∀ (l : Nat) (k : Link Waiting), G.owners[l]? = some i → w.client.links[l]? = some k →
      k.state ≠ .closed → job.asks l = none)
    (ho : ∀ l : Nat, G.owners[l]? = some i → job.opens? ≠ some l) :
    Spares i G w G (w.out (·.withLoop loop)) where
  __ := Spares.refl i G w
  asked l k hl hk hn := by
    rw [ht, asked, asked, List.filterMap_cons, hj l k hl hk hn]
  closing _ _ _ _ _ _ _ hs := by
    rw [ht] at hs
    exact hs.tail
  opens l hl := opens_tail ht (ho l hl)

theorem Calm.start (h : Calm G w) {loop : Loop Task}
    (ht : tasks w = job :: tasks (w.out (·.withLoop loop))) (hj : job.isTransfer = false)
    (ha : ∀ (l : Nat) (k : Link Waiting), w.client.links[l]? = some k → k.state ≠ .closed →
      job.asks l = none) (ho : job.opens? = none) : Calm G (w.out (·.withLoop loop)) where
  common := h.common.start ht hj
  settled i hi := (h.settled i hi).spared (spares_start ht (fun l k _ => ha l k) fun l _ => by simp [ho])

/-- A task is started that opens a link of a session, or refuses it. -/
theorem Calm.startOpening (h : Calm G w) {loop : Loop Task} (quiet : Prop)
    (hr : Rest G s p co S w) (ht : tasks w = job :: tasks (w.out (·.withLoop loop)))
    (hj : job = .openLink l ∨ job = .refuseLink l) (hl : G.owners[l]? = some s) :
    Turn ⟨G, w.out (·.withLoop loop), none, quiet⟩ G none s p co S (w.out (·.withLoop loop)) := by
  have opens : job.opens? = some l := by
    rcases hj with rfl | rfl <;> rfl
  have idle : job.Idle := by
    rcases hj with rfl | rfl
    · exact idle_openLink
    · exact idle_refuseLink
  have rest : Seat G s p co (w.out (·.withLoop loop)) := {
    hr.seat with
    asked := fun i k hi hk hn => by
      rw [← hr.seat.asked i k hi hk hn, ht, asked, asked, List.filterMap_cons, idle.asks i]
    closing := fun hx i y e => by
      have sealing := hr.seat.closing hx i y e
      rw [ht] at sealing
      exact sealing.tail }
  exact {
    common := h.common.start ht idle.transfer
    others := fun i hi hne => (h.settled i hi).spared (spares_start ht (fun i' _ _ _ _ => idle.asks i')
      fun l' hl' e => by
        obtain rfl := Option.some.inj (opens.symm.trans e)
        exact hne (Option.some.inj (hl'.symm.trans hl)))
    seat := rest
    dues := hr.dues
    session := hr.session
    context := hr.context
    count := hr.count
    current := hr.current
    due := by simp
    since := .refl ⟨G, _, none, quiet⟩ }

/-! ### The broker -/

theorem Calm.changeBroker (h : Calm G w) {f : Broker → Broker}
    (hs : Shift w.outside.broker (f w.outside.broker))
    (hl : (f w.outside.broker).inflight = w.outside.broker.inflight) :
    Calm G (w.out (·.changeBroker f)) :=
  have takes := (hs.trade h.common.sound).takes hl
  ⟨h.common.changeBroker hs.moves.txnCounter takes
      (fun _ d hd => .inl ((hs.moves.held d hd).resolve_right List.not_mem_nil)) fun _ => id,
    fun i hi => (h.settled i hi).spared <|
      spares_changeBroker takes fun _ y r hr _ => hs.moves.record y r hr id⟩

/-! ### Completions that settle at once -/

/-- A completion that is about no transaction, and is not waited for with a message on its way. -/
structure Loose (G : Ledger) (x : Client Waiting) (id : Nat) : Prop where
  live : ∃ b m, G.Live x id b m ∧ b.ofTransaction = false ∧
    ∀ x ∈ G.waiting, x.receipt.isSome → (b, m) ≠ (.sent, x.index) ∧ (b, m) ≠ (.told, x.index)

theorem Loose.concluded {id : Nat} {r : Resolution Unit} (h : Loose G w.client id) :
    G.Concluded (w.client.write id (.settled r)) t ↔ G.Concluded w.client t := by
  obtain ⟨b, m, hl, hb, -⟩ := h.live
  refine (Ledger.concluded_write hl).trans (or_iff_left ?_)
  rintro ⟨rfl, -⟩
  cases hb

theorem Common.tell {id : Nat} {r : Resolution Unit} (h : Common G due w)
    (hl : Loose G w.client id) : Common G due (w.on (·.write id (.settled r))) := by
  obtain ⟨b, m, hlive, hb, hx⟩ := hl.live
  refine { h with purposes := ?_, receipt := ?_, held := ?_ }
  · simpa only [World.on, Client.write, Array.size_setIfInBounds] using h.purposes
  · intro x hxw e he
    obtain ⟨h₁, h₂⟩ := h.receipt x hxw e he
    obtain ⟨n₁, n₂⟩ := hx x hxw (by simp [he])
    exact ⟨h₁.write hlive.1 n₁, h₂.write hlive.1 n₂⟩
  · intro hx d hd
    exact fun t ht => (h.held hx d hd t ht).imp_left hl.concluded.2

theorem Loose.spares {id : Nat} {r : Resolution Unit} (h : Loose G w.client id) :
    Spares i G w G (w.on (·.write id (.settled r))) where
  __ := Spares.refl i G w
  live c a t _ ha hc := by
    obtain ⟨b, m, hl, hb, -⟩ := h.live
    refine hc.write hl.1 ?_
    rintro ⟨⟩
    cases hb.symm.trans ha
  due _ _ _ ht _ hc := ⟨ht, hc.before⟩
  kept := by
    obtain ⟨b, m, hl, -, -⟩ := h.live
    exact .write hl.2
  concluded _ _ := h.concluded.1

theorem Advance.tell (h : Advance G w g G' w') {id : Nat} {r : Resolution Unit}
    (hl : Loose G' w'.client id) (hr : r.Legal ∨ g = .refused id) :
    Advance G w g G' (w'.on (·.write id (.settled r))) := by
  obtain ⟨b, m, hlive, -, -⟩ := hl.live
  exact { h with
    calm := ⟨h.calm.common.tell hl, fun i hi => (h.calm.settled i hi).spared hl.spares⟩
    onward := h.onward.trans (.of_keeps (.write hlive.2))
    concluded := fun t ht => h.concluded t (hl.concluded.1 ht)
    published := fun hx t e => { h.published hx t e with }
    lawful := fun c f e hf => by
      by_cases same : c = id
      · subst same
        refine hr.elim (fun legal => ?_) .inr
        exact h.lawful c f (Lawful.write legal c f e hf) hf
      · refine h.lawful c f ?_ hf
        simpa [World.on, Client.write, Ne.symm same] using e }

theorem Advance.addCompletion (h : Advance G w g G' w') {a : Purpose} (ha : a.ofCaller = false) :
    Advance G w g (G'.addPurpose a n) (w'.on (·.addCompletion)) := by
  have never {b : Prop} (e : a.ofCaller = true) : b := by
    rw [ha] at e
    cases e
  exact {
    calm := ⟨h.calm.common.addCompletion never, fun i hi =>
      (h.calm.settled i hi).spared (h.calm.common.spares_addCompletion never)⟩
    parcels := h.parcels
    taken := h.taken
    onward := h.onward.trans (.of_keeps .addCompletion)
    purposes := fun c b m e => Ledger.purposes_old (h.purposes c b m e)
    reports := fun c ending t => (Ledger.report_addPurpose ha).trans (h.reports c ending t)
    fresh := h.fresh
    concluded := fun t ht =>
      h.concluded t ((Ledger.concluded_addCompletion h.calm.common.purposes).1 ht)
    published := fun hx t e => { h.published hx t e with }
    balance := h.balance
    lawful := fun c f e hf => h.lawful c f (Lawful.addCompletion c f e hf) hf }

/-- **A completion that is settled from the start.** -/
theorem Advance.settledCompletion (h : Advance G w g G' w') {r : Resolution Unit}
    (hr : r.Legal ∨ g = .refused w'.client.completions.size) :
    After (Session.settledCompletion r) w' (fun c w'' => c = w'.client.completions.size ∧
      (∃ G'', Advance G w g G'' w'') ∧ w'' = w'.on (·.addSettled r)) fun _ _ => False := by
  have live : (G'.addPurpose .other 0).Live (w'.on (·.addCompletion)).client
    w'.client.completions.size .other 0 := Ledger.live_new h.calm.common.purposes
  have added := h.addCompletion (a := .other) (n := 0) rfl
  unfold Session.settledCompletion
  simp only [after_bind, Act.after_newCompletion]
  rw [Act.after_settle live.2]
  exact ⟨rfl, ⟨_, added.tell ⟨_, _, live, rfl, fun _ _ _ => ⟨by simp, by simp⟩⟩ hr⟩,
    congrArg (World.mk · w'.outside) Client.write_addCompletion⟩

/-! ### Calls that are refused -/

/-- The session waits for its begin. -/
def Session.Waits (S : Session) (x : Client Waiting) : Prop :=
  ∃ b, S.beginning = some b ∧ ¬ x.Settled b

/-- The coordinator link of the session has closed. -/
def Session.InDoubt (S : Session) (x : Client Waiting) : Prop :=
  (x.context S.context).coordinator.any fun l => (x.link l).state = .closed

/-- **What a session refuses at once:**

* to start, while it is in a transaction or waits for one to begin;
* to end a transaction, while it is in none or about to end it;
* to send, in the same cases, when its coordinator link has closed, and to no destination. -/
inductive Refuses (w : State) : Step → Prop
  | start {s : Nat} {S : Session} (hS : w.outside.sessions[s]? = some S)
    (h : S.current.isSome ∨ S.Waits w.client) : Refuses w (.start s)
  | finish {s : Nat} {S : Session} {ending : Ending} (hS : w.outside.sessions[s]? = some S)
    (h : S.current = none ∨ S.discharging = true) : Refuses w (.finish s ending)
  | send {i : Nat} {k : Producer} {S : Session} {body : String} {destination : Option Destination}
    (hk : w.outside.producers[i]? = some k) (hS : w.outside.sessions[k.session]? = some S)
    (h : S.current = none ∨ S.discharging = true ∨ S.InDoubt w.client ∨
      destination.or k.destination = none) : Refuses w (.send i body destination)

/-- From `w` to `w'` a completion that has failed is new, and nothing else. -/
def Declines (w : State) (c : Nat) (w' : State) : Prop :=
  c = w.client.completions.size ∧ ∃ f, w' = w.on (·.addSettled (.failed f))

theorem Declines.failed {c : Nat} (h : Declines w c w') :
    ∃ f, w'.client.completions[c]? = some (.settled (.failed f)) := by
  obtain ⟨rfl, f, rfl⟩ := h
  exact ⟨f, Client.addSettled_new⟩

theorem Declines.outside {c : Nat} (h : Declines w c w') : w'.outside = w.outside := by
  obtain ⟨-, f, rfl⟩ := h
  rfl

/-- **A call is refused:** nothing but its completion is new. -/
theorem Calm.refusal (h : Calm G w) {problem : Problem} :
    After (Session.refusal problem) w (fun c w' => (∃ G', Advance G w (.refused c) G' w') ∧
      Declines w c w') fun _ _ => False := by
  refine ((h.refusing w.client.completions.size).settledCompletion (.inr rfl)).mono
    (fun c w' hw => ?_) fun _ _ => id
  obtain ⟨rfl, advance, same⟩ := hw
  exact ⟨advance, rfl, _, same⟩

end Transact.Peer
