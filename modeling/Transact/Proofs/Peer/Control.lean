import Transact.Proofs.Peer.Messages

/-! # What sessions and their members are asked to do

A session begins with all sessions at rest and ends so, whether it does what it is asked or refuses.

* `Calm.enter`: a session is started.
* `Calm.finish`: a session is asked for the end of its transaction.
* `Calm.receive`, `Calm.sendFrom`: a consumer receives, a producer sends. -/

namespace Transact.Peer

open Run

variable {o : Origin} {G G' : Ledger} {s n t : Nat} {p : Phase Waiting} {co : Option Nat}
  {S : Session} {w w' : State} {ending : Ending}

/-! ### Beginning -/

theorem after_status {c : Nat} {Q : Status Unit → State → Prop} {R : Halt → State → Prop} :
    After (Act.status c : Peering (Status Unit)) w Q R ↔
      Q (w.client.completions[c]?.getD .pending) w := Iff.rfl

/-- What a start does: it is refused in a session that is in a transaction or waits for its begin, and
else it begins one. -/
inductive Starts (w : State) (s c : Nat) (w' : State) : Gain → Prop
  | refused {S : Session} (h : Declines w c w') (hS : w.outside.sessions[s]? = some S)
    (hc : S.current.isSome ∨ S.Waits w.client) (hb : S.beginning.isSome) :
    Starts w s c w' (.refused c)
  | begun {S S' : Session} (hS : w.outside.sessions[s]? = some S)
    (hS' : w'.outside.sessions[s]? = some S') (hb : S'.beginning = some c)
    (hn : S'.sequence = S.sequence + 1) : Starts w s c w' .nothing

/-- **A session begins its first transaction,** or tries again. -/
theorem Calm.enter (h : Calm G w) (hs : s < w.outside.sessions.size) :
    After (Session.start (surroundings (n + 1)) s) w (fun c w' => ∃ g G', Advance G w g G' w' ∧
      G'.Promised w'.client c ∧ Starts w s c w' g ∧ c = w.client.completions.size)
      fun _ _ => False := by
  obtain ⟨p, co, S, hr⟩ := h.settled s hs
  have refused (problem : Problem) (hc : S.current.isSome ∨ S.Waits w.client) :
      After (Session.refusal problem) w (fun c w' => ∃ g G', Advance G w g G' w' ∧
        G'.Promised w'.client c ∧ Starts w s c w' g ∧ c = w.client.completions.size)
        fun _ _ => False := by
    refine h.refusal.mono (fun c w' hw => ?_) fun _ _ => id
    obtain ⟨⟨G', hG⟩, declines⟩ := hw
    obtain ⟨f, failed⟩ := declines.failed
    refine ⟨_, G', hG, .inl ⟨_, failed⟩, .refused declines hr.session hc ?_, declines.1⟩
    rcases hc with hc | ⟨b, hb, -⟩
    · exact hr.dues.started hc
    · rw [hb, Option.isSome_some]
  have enters (waiting : Bool) (hb : waiting = true ↔ S.Waits w.client) :
      After (if (S.current.isSome || waiting) = true then
        Session.refusal (.sessionStarted S.id) else Session.enterNext (surroundings (n + 1)) s) w
        (fun c w' => ∃ g G', Advance G w g G' w' ∧ G'.Promised w'.client c ∧ Starts w s c w' g ∧
          c = w.client.completions.size) fun _ _ => False := by
    split
    · next busy => exact refused _ (by simpa [hb] using busy)
    · next idle =>
      have unbegun {t : Nat} {q : Token Waiting} (hq : G.Begins w.client s t S q) : False := by
        obtain ⟨b, -, e, hl⟩ := hq
        simp [hb.2 ⟨b, e, hl.2.not_settled⟩] at idle
      cases p with
      | idle =>
        refine ((h.turn False hr).enterNext hr.stance.1 fun c t ht hl => ?_).mono
          (fun c w' ⟨t, S', begun, hb', hn, new⟩ => ?_) fun _ _ => id
        · obtain ⟨f, hf⟩ := hr.stance.2 c (hr.dues.begun c t ht hl).1
          cases hl.2.symm.trans hf
        · obtain ⟨G', hG, hsince, hS', b, hbeg, hl⟩ := begun.live
          obtain rfl := Option.some.inj (hb'.symm.trans hbeg)
          exact ⟨_, G', hsince.advance hG rfl (.refl w) (by simp) fun _ => .refl _,
            .inr (.inl ⟨_, _, hl.1, rfl⟩),
            .begun hr.session hS' hb' hn, new⟩
      | opening => exact (unbegun hr.stance.2.2.2).elim
      | declaring => exact (unbegun hr.stance.2.2).elim
      | active => simp [hr.stance.1] at idle
      | discharging => simp [hr.stance.1] at idle
  unfold Session.start
  simp only [after_bind, after_sessionAt, Outside.session_eq hr.session]
  cases hb : S.beginning with
  | none =>
    refine enters false ⟨(by simp), ?_⟩
    rintro ⟨b, e, -⟩
    cases hb.symm.trans e
  | some b =>
    simp only [after_bind, after_status]
    have waits : S.Waits w.client ↔ ¬ w.client.Settled b := by
      refine ⟨?_, fun hp => ⟨b, hb, hp⟩⟩
      rintro ⟨b', e, hp⟩
      obtain rfl := Option.some.inj (hb.symm.trans e)
      exact hp
    refine enters _ (.trans ?_ waits.symm)
    unfold Client.Settled
    rcases w.client.completions[b]? with _ | _ | r <;> simp [Status.isSettled]

/-! ### Ending -/

/-- What a commit or rollback adds: nothing if it was refused, and else that its completion reports
the end of the transaction that its session is in. -/
inductive Asks (w : State) (s : Nat) (ending : Ending) (c : Nat) (w' : State) : Gain → Prop
  | refused {S : Session} (h : Declines w c w')
    (hS : w.outside.sessions[s]? = some S) (hc : S.current = none ∨ S.discharging = true) :
    Asks w s ending c w' (.refused c)
  | accepted {S : Session} {t : Nat} (hS : w.outside.sessions[s]? = some S)
    (hc : S.current = some t) : Asks w s ending c w' (.asked c ending t)

/-- Work that began when a completion was to report the end of a transaction. -/
theorem Back.asked {quiet : Prop} (h : Back ⟨G.addPurpose (.report ending) t,
      w.on (·.addCompletion), none, quiet⟩ w') (hp : G.purposes.length = w.client.completions.size) :
    ∃ G', Advance G w (.asked w.client.completions.size ending t) G' w' := by
  obtain ⟨G', hc, hs⟩ := h
  have taken : G'.taken = G.taken := hs.taken
  have waiting : G'.waiting = G.waiting := hs.waiting
  have added : Onward w (w.on (·.addCompletion)) := .of_keeps .addCompletion
  refine ⟨G', hc, ?_, ?_, added.trans hs.onward, fun c a n e => hs.purposes c a n
    (Ledger.purposes_old e), fun c ending' t' => ?_, (by simp), fun t ht => ?_, (by simp), fun _ =>
    (Broker.Balance.refl _).trade hs.shift.trade,
    fun c f e hf => .inl (Lawful.addCompletion c f (hs.lawful c f e hf) hf)⟩
  · rw [Ledger.parcels, Ledger.parcels, taken, waiting]
    exact (List.append_nil _).symm
  · rw [taken]
    exact (List.append_nil _).symm
  · refine (hs.reports c ending' t').trans ⟨fun e => ?_, fun e => ?_⟩
    · rcases Ledger.purposes_cases e with e | ⟨rfl, same, rfl⟩
      · exact .inl e
      · cases same
        exact .inr (by rw [hp])
    · rcases e with e | e
      · exact Ledger.purposes_old e
      · cases e
        exact Ledger.purposes_new hp
  · have := (hs.concluded t ht).resolve_right (by simp)
    exact .inl ((Ledger.concluded_addCompletion hp).1 this)

theorem Past.changeAggregate {a : Nat} (h : Past o s w) (counted : Ledger.Counted w.client s a) :
    Past o s (w.out (·.changeSession s fun x =>
      if x.discharging then { x with aggregate := some a } else x)) := by
  obtain ⟨G, p, co, S, turn, hst, hp⟩ := h
  have changed := turn.changeSession (f := fun x =>
    if x.discharging then { x with aggregate := some a } else x) (by split <;> rfl) (by split <;> rfl)
    (.inl (by split <;> rfl)) (turn.dues.congr (by split <;> rfl) (by split <;> rfl) (by split <;> rfl)
      (by split <;> rfl))
    (fun e => by split <;> exact e) fun x => by split <;> exact ⟨rfl, rfl⟩
  by_cases hd : S.discharging
  · refine ⟨G, p, co, _, changed, ⟨hst.firm, ?_, hst.opens⟩, hp⟩
    obtain ⟨-, stance, -⟩ := hst
    cases p with
    | active t y => exact absurd rfl (hp t y)
    | discharging =>
      obtain ⟨hc, -, ho, hl, he, hk, -⟩ := stance
      simp only [hd, if_true]
      exact ⟨hc, rfl, ho, hl, he, hk, fun i e => Option.some.inj e ▸ counted⟩
    | idle => cases stance.1.discharging.symm.trans hd
    | opening => cases stance.1.discharging.symm.trans hd
    | declaring => cases stance.1.discharging.symm.trans hd
  · refine ⟨G, p, co, _, changed, ?_, hp⟩
    rw [if_neg hd]
    exact ⟨hst.firm, hst.stance, hst.opens⟩

theorem Rest.countable (hr : Rest G s p co S w) (h : Calm G w)
    (hb : w.outside.loop.pending < Number.countLimit) : S.outstanding < Number.countLimit := by
  have sends : G.unsettled s ≤ G.waiting.length := List.countP_le_length
  have transfers : G.waiting.length ≤ (tasks w).length := by
    rw [← List.length_map (f := (·.task)), ← h.common.transfers]
    exact List.length_filter_le _ _
  rw [length_tasks] at transfers
  rw [hr.count]
  omega

/-- A session in an active transaction asks for its end. -/
theorem Rest.finish {y : TxnId} {commit : Bool} (hr : Rest G s (.active t y) co S w)
    (h : Calm G w) (hb : w.outside.loop.pending < Number.countLimit) (hd : S.discharging = false)
    (ha : S.aggregate = none) (hS : S.failedSend = none → G.Clean t) :
    After (Session.finish (surroundings (n + 2)) s (Context.endingFor commit)) w
      (fun c w' => c = w.client.completions.size ∧
        Back ⟨G.addPurpose (.report (Context.endingFor commit)) t, w.on (·.addCompletion), none,
          False⟩ w') fun _ _ => False := by
  obtain ⟨c, hc, hcc⟩ := hr.seat.tables.context
  have hc : w.client.contexts[s]? = some c := hc
  have hcur : S.current = some t := hr.stance.1
  have unasked (c : Nat) (ending : Ending) (t : Nat) (ht : G.homes[t]? = some s) :
      ¬ G.Live w.client c (.report ending) t := fun hl => by
    cases hd.symm.trans (hr.dues.report c ending t ht hl).2
  have closing := (h.turn False hr).changeSession (f := fun x => { x with discharging := true }) rfl rfl
    (.inl rfl) ⟨hr.dues.started, hr.dues.begun, fun c ending t ht hl => absurd hl (unasked c ending t ht),
      hr.dues.alone, hr.dues.failed⟩ (fun e => e) fun _ => ⟨rfl, rfl⟩
  have since : Since ⟨G.addPurpose (.report (Context.endingFor commit)) t, w.on (·.addCompletion), none,
      False⟩ (G.addPurpose (.report (Context.endingFor commit)) t)
      ((w.out (·.changeSession s fun x => { x with discharging := true })).on (·.addCompletion)) := {
    Since.refl ⟨G.addPurpose (.report (Context.endingFor commit)) t, w.on (·.addCompletion), none,
      False⟩ with
    onward := .changeSession fun _ _ e => e }
  have turn := closing.addCall (hr.seat.home t rfl).1
    (closing.dues.addReport h.common.purposes unasked hcur rfl) since
  have turn' := turn.addCompletion (a := .outcome) (n := t) rfl
  have hl := (Ledger.live_new (b := .report (Context.endingFor commit)) (m := t)
    h.common.purposes).addCompletion (b := .outcome) (m := t)
  have hl' := Ledger.live_new (b := .outcome) (m := t) turn.common.purposes
  have countable := hr.countable h hb
  have wanted : decide (Context.endingFor commit = .commit) = commit := by
    cases commit <;> rfl
  unfold Session.finish
  simp only [after_bind, after_sessionAt, Outside.session_eq hr.session, hcur, hd,
    Act.after_newCompletion, after_modifySession, Act.after_isFailed, hr.context, wanted]
  refine (turn'.finishAfter id rfl (fun l e hcl => ?_) ?_ hl' hl fun e => ?_).mono
    (fun i w' hw => ?_) fun _ _ => id
  · obtain ⟨m, hm, hs⟩ := hcl
    have hm : w.client.links[l]? = some m := hm
    show (w.client.context s).coordinator.any (fun l => (w.client.link l).state = .closed)
    rw [Client.context_eq hc, hcc.coordinator, e]
    simp [Client.link_eq hm, hs]
  · split <;> omega
  · have none : S.failedSend = none := by
      cases hf : S.failedSend with
      | none => rfl
      | some f => simp [hf] at e
    refine ⟨⟨hcur, rfl, ?_, fun i e => ?_⟩, fun _ => hS none⟩
    · show S.outstanding = 0
      omega
    · cases ha.symm.trans e
  · rcases hw with ⟨empty, past, counted⟩ | ⟨positive, after, A, hA, waits, commits⟩
    · have failed : S.failedSend = none := by
        cases hf : S.failedSend with
        | none => rfl
        | some f => simp [hf] at empty
      simp only [failed, Option.isSome_none, Bool.false_eq_true, if_false, after_pure]
      exact ⟨trivial, (past.changeAggregate counted).back⟩
    · have told := after.changeSession (f := fun x =>
        if x.discharging then { x with aggregate := some i } else x) rfl rfl (.inl rfl)
        (after.dues.congr rfl rfl rfl rfl) (fun e => e) fun x => by split <;> exact ⟨rfl, rfl⟩
      cases hf : S.failedSend with
      | none =>
        simp only [hf, Option.isSome_none, Bool.false_eq_true, if_false, Nat.add_zero] at waits ⊢
        exact ⟨rfl, told.back ⟨trivial, ⟨hcur, .inr ⟨rfl, i, A, rfl, hA, waits, fun _ => hS hf⟩⟩,
          fun _ e => by cases e⟩⟩
      | some f =>
        simp only [hf, Option.isSome_some, if_true] at waits ⊢
        rw [after_bind]
        exact (told.settleSend id hcur rfl rfl hA waits fun _ e => by cases e).mono
          (fun _ _ h => ⟨rfl, h⟩) fun _ _ => id

/-- **A session ends its transaction,** or is refused that. -/
theorem Calm.finish (h : Calm G w) (hs : s < w.outside.sessions.size)
    (hb : w.outside.loop.pending < Number.countLimit) :
    After (Session.finish (surroundings (n + 2)) s ending) w
      (fun c w' => ∃ g G', Advance G w g G' w' ∧ Asks w s ending c w' g ∧ G'.Promised w'.client c ∧
        c = w.client.completions.size) fun _ _ => False := by
  obtain ⟨p, co, S, hr⟩ := h.settled s hs
  have refused (problem : Problem) (unready : S.current = none ∨ S.discharging = true) :
      After (Session.refusal problem) w (fun c w' =>
        ∃ g G', Advance G w g G' w' ∧ Asks w s ending c w' g ∧ G'.Promised w'.client c ∧
          c = w.client.completions.size) fun _ _ => False := by
    refine h.refusal.mono (fun c w' hw => ?_) fun _ _ => id
    obtain ⟨⟨G', hG⟩, declines⟩ := hw
    obtain ⟨f, failed⟩ := declines.failed
    exact ⟨_, G', hG, .refused declines hr.session unready, .inl ⟨_, failed⟩, declines.1⟩
  have outside (free : S.Free) : After (Session.finish (surroundings (n + 2)) s ending) w (fun c w' =>
      ∃ g G', Advance G w g G' w' ∧ Asks w s ending c w' g ∧ G'.Promised w'.client c ∧
        c = w.client.completions.size) fun _ _ => False := by
    unfold Session.finish
    simp only [after_bind, after_sessionAt, Outside.session_eq hr.session, free.current,
      free.discharging]
    exact refused _ (.inl free.current)
  have twice (again : S.discharging = true) : After (Session.finish (surroundings (n + 2)) s ending) w
      (fun c w' => ∃ g G', Advance G w g G' w' ∧ Asks w s ending c w' g ∧ G'.Promised w'.client c ∧
        c = w.client.completions.size) fun _ _ => False := by
    unfold Session.finish
    simp only [after_bind, after_sessionAt, Outside.session_eq hr.session, again]
    exact refused _ (.inr again)
  cases p with
  | idle => exact outside hr.stance.1
  | opening => exact outside hr.stance.1
  | declaring => exact outside hr.stance.1
  | discharging => exact twice hr.stance.2.1
  | active t y =>
    obtain ⟨hcur, ⟨hd, ha, hS⟩ | ⟨hd, -⟩⟩ := hr.stance
    · obtain ⟨commit, rfl⟩ : ∃ commit, ending = Context.endingFor commit := by
        cases ending with
        | commit => exact ⟨true, rfl⟩
        | rollback => exact ⟨false, rfl⟩
      refine (hr.finish h hb hd ha hS).mono (fun c w' hw => ?_) fun _ _ => id
      obtain ⟨rfl, back⟩ := hw
      obtain ⟨G', hG⟩ := back.asked h.common.purposes
      exact ⟨_, G', hG, .accepted hr.session hcur, .inr (.inl ⟨_, _, (hG.reports _ _ _).2 (.inr rfl),
        rfl⟩), rfl⟩
    · exact twice hd

/-! ### Receiving and sending -/

/-- **A message is handed out** to a consumer of a session in an active transaction, and enrols it. -/
theorem Turn.receive {due : Option Nat} (h : Turn o G due s p co S w) (ho : ¬ o.quiet)
    (hp : p.Holding) {c : Nat} {k : Consumer} (hk : w.outside.consumers[c]? = some k)
    (hs : k.session = s) {address : String} {d : Delivery}
    (hd : (w.outside.broker.fetch address).1 = some d) :
    Turn o G due s p co S (((w.out (·.changeBroker fun b => (b.fetch address).2)).on
      (·.changeContext s fun x => { x with registry := x.registry.enrolConsumer k.id c })).out
      (·.changeConsumer c fun x => { x with received := x.received ++ [d] })) := by
  have bound : p.bound ≠ none := fun e => Phase.not_holding e hp
  have enrolled := h.enrol hk hs
  obtain ⟨C, hC, -⟩ := h.seat.tables.context
  have hC : w.client.contexts[s]? = some C := hC
  have lent : (w.outside.broker.fetch address).2.lent = w.outside.broker.lent + {d} := by
    rcases Broker.fetch_cases h.common.sound address with ⟨none, -⟩ | ⟨d', some, -, lent⟩
    · cases none.symm.trans hd
    · rw [lent, Option.some.inj (some.symm.trans hd)]
  have calls : Calls s w.outside.consumers (w.outside.consumers.modify c fun x =>
      { x with received := x.received ++ [d] }) := by
    refine .modify (fun x hx => ?_) fun _ => ⟨rfl, rfl⟩
    rw [Option.some.inj (hx.symm.trans hk), hs]
  refine enrolled.serve (fun e => absurd e ho) shift_fetch calls (fun hx => ?_)
    fun hx c' k' hk' hs' hne => ?_
  · have more := buffered_modify (f := fun x => { x with received := x.received ++ [d] }) hk
    rw [← Multiset.coe_add, ← add_assoc, add_right_comm] at more
    show (w.outside.broker.fetch address).2.lent = _
    rw [lent, h.common.custody hx]
    exact (add_right_cancel more).symm
  · have hk' : (w.outside.consumers.modify c fun x => { x with received := x.received ++ [d] })[c']? =
      some k' := hk'
    rw [Array.getElem?_modify] at hk'
    split at hk'
    · next e =>
      subst e
      rw [hk] at hk'
      rw [← Option.some.inj hk']
      exact ⟨hp, _, Client.changeContext_same hC, Roll.mem_of_get? (Roll.get?_put.trans (if_pos rfl))⟩
    · exact enrolled.seat.holding hx c' k' hk' hs' hne

/-- **A consumer receives a message,** or is refused that. -/
theorem Calm.receive (h : Calm G w) {c : Nat} (hc : c < w.outside.consumers.size) :
    After (Consumer.receive c) w (fun _ w' => Steady G w w') fun e w' => w' = w ∧
      ∃ id, e = .raised (Problem.receiveOutside id).toFailure := by
  obtain ⟨k, hk⟩ : ∃ k, w.outside.consumers[c]? = some k := ⟨_, Array.getElem?_eq_getElem hc⟩
  obtain ⟨p, co, S, hr⟩ := h.settled _ (h.common.consumer c k hk)
  obtain ⟨x, hx, hxc⟩ := hr.seat.tables.context
  have hx : w.client.contexts[k.session]? = some x := hx
  unfold Consumer.receive
  simp only [after_bind, after_consumerAt, after_sessionAt, Outside.consumer_eq hk,
    Outside.session_eq hr.session, hr.context, Act.after_context, Act.after_isFailed]
  split
  · exact ⟨rfl, k.id, rfl⟩
  · next active =>
    have holding : p.Holding := by
      simp only [Client.context_eq hx, hxc.stage] at active
      cases p with
      | active => trivial
      | _ => exact absurd rfl active
    simp only [after_bind, after_withBroker]
    split
    · next none =>
      have same : w.out (·.changeBroker fun b => (b.fetch k.destination.name).2) = w := by
        rcases Broker.fetch_cases h.common.sound k.destination.name with ⟨-, same⟩ | ⟨d, some, -⟩
        · exact out_changeBroker (b := id) same
        · cases none.symm.trans some
      rw [after_pure, same]
      exact h.unmoved
    · next d some =>
      unfold Context.enrolConsumer
      simp only [Act.after_modifyContext, after_bind, after_modifyConsumer, after_pure]
      have received := (h.turn False hr).receive id holding hk rfl some
      refine (received.back ⟨hr.firm, ?_, hr.opens⟩).steady rfl (.refl w) fun _ => .refl _
      exact hr.stance.congr rfl rfl rfl (fun _ => id) rfl rfl rfl rfl rfl rfl

/-- **A producer sends a message,** or is refused that. -/
theorem Calm.sendFrom (h : Calm G w) {i : Nat} {k : Producer} {body : String}
    {destination : Option Destination} (hk : w.outside.producers[i]? = some k) :
    After (Session.sendFrom i body destination) w (fun c w' => ∃ g G', Advance G w g G' w' ∧
      G'.Promised w'.client c ∧ c = w.client.completions.size ∧ match destination <|> k.destination with
      | none => g = .refused c ∧ Declines w c w'
      | some d => Accepts w k.session d body c w' g) fun _ _ => False := by
  unfold Session.sendFrom
  simp only [after_bind, after_producerAt, Outside.producer_eq hk]
  cases destination <|> k.destination with
  | none =>
    refine h.refusal.mono (fun _ w' hw => ?_) fun _ _ => id
    obtain ⟨⟨G', hG⟩, declines⟩ := hw
    obtain ⟨f, failed⟩ := declines.failed
    exact ⟨_, G', hG, .inl ⟨_, failed⟩, declines.1, rfl, declines⟩
  | some d =>
    refine (h.send (h.common.producer i k hk)).mono (fun _ w' hw => ?_) fun _ _ => id
    obtain ⟨g, G', hG, accepts, promised, new⟩ := hw
    exact ⟨g, G', hG, promised, new, accepts⟩

end Transact.Peer
