import Transact.Proofs.Link.Events

/-! # Requests

A request of the link keeps the invariant: its completion is at hand when it is made, and in the end
the link holds it or it was told.

* `establish_keeps`: the link is attached.
* `transmit_keeps`, `declare_keeps`, `discharge_keeps`: a request is sent. -/

namespace Transact.Link

open Run Player

variable {attaching : Prop} {hand : List Nat} {w w' v : State} {x : Client Nat} {past : List Entry}
  {id n d : Nat} {r : Request} {h : Surroundings} {k : Link Nat} {o : Operation}

/-! ### Sending -/

/-- Keeps an exchange under its delivery number. -/
def enqueue (d : Nat) (exchange : Exchange Nat) (k : Link Nat) : Link Nat :=
  { k with
    nextDelivery := d + 1
    pending := k.pending ++ [(d, exchange)] }

theorem exchanges_enqueue {exchange : Exchange Nat} :
    exchanges (x.changeLink 0 (enqueue d exchange)) past = exchanges x past :=
  exchanges_congr (state_changeLink (f := enqueue d exchange) fun _ => rfl)

theorem exchanges_enqueue_sent {exchange : Exchange Nat} (hk : x.links[0]? = some k)
    (open_ : k.state = .opened) (ha : (asked past).head? = some (o, id)) :
    exchanges (x.changeLink 0 (enqueue d exchange))
        (⟨.sent d r, x.changeLink 0 (enqueue d exchange)⟩ :: past) =
      ⟨d, o, id, none⟩ :: exchanges x past := by
  have after : (x.changeLink 0 (enqueue d exchange)).link 0 = enqueue d exchange k :=
    Client.link_eq (Client.changeLink_same hk)
  rw [exchanges_sent ((congrArg Link.state after).trans open_) ha, exchanges_enqueue]

theorem live_enqueue {exchange : Exchange Nat} (hk : x.links[0]? = some k)
    (open_ : k.state = .opened) (ha : (asked past).head? = some (o, id)) :
    live (x.changeLink 0 (enqueue d exchange))
        (⟨.sent d r, x.changeLink 0 (enqueue d exchange)⟩ :: past) =
      ⟨d, o, id, none⟩ :: live x past := by
  rw [live, exchanges_enqueue_sent hk open_ ha]
  rfl

/-- **A request is sent,** and the link holds its completion. -/
theorem Inv.sent (hi : Inv False (id :: hand) w) (hf : Fresh o id w) (ho : o ≠ .establish)
    (hs : Clear w.client w.outside.history) (hk : w.client.links[0]? = some k)
    (open_ : k.state = .opened) (hc : Carries w.client o r) :
    Inv False hand (noting (.sent k.nextDelivery r)
      (w.on (·.changeLink 0 (enqueue k.nextDelivery (o.exchange id))))) := by
  have before : w.client.link 0 = k := Client.link_eq hk
  have after : (w.client.changeLink 0 (enqueue k.nextDelivery (o.exchange id))).link 0 =
      enqueue k.nextDelivery (o.exchange id) k :=
    Client.link_eq (Client.changeLink_same hk)
  have state : ((w.client.changeLink 0 (enqueue k.nextDelivery (o.exchange id))).link 0).state = .opened :=
    (congrArg Link.state after).trans open_
  have all : exchanges (w.client.changeLink 0 (enqueue k.nextDelivery (o.exchange id)))
      (⟨.sent k.nextDelivery r, w.client.changeLink 0 (enqueue k.nextDelivery (o.exchange id))⟩ ::
        w.outside.history) = ⟨k.nextDelivery, o, id, none⟩ :: exchanges w.client w.outside.history :=
    exchanges_enqueue_sent hk open_ hf.latest
  have length : k.nextDelivery = (exchanges w.client w.outside.history).length :=
    before ▸ hi.linked.next
  have linked : Linked False (w.client.changeLink 0 (enqueue k.nextDelivery (o.exchange id)))
      (⟨.sent k.nextDelivery r, w.client.changeLink 0 (enqueue k.nextDelivery (o.exchange id))⟩ ::
        w.outside.history) := by
    constructor
    · rw [after]
      exact Client.changeLink_same hk
    · rw [after]
      exact before ▸ hi.linked.opening
    · rw [after]
      exact before ▸ hi.linked.sender
    · rw [after]
      exact before ▸ hi.linked.attached
    · rw [after, live_enqueue hk open_ hf.latest, List.reverse_cons, List.map_append,
        ← hi.linked.pending, before]
      rfl
    · rw [state]
      exact nofun
    · rw [after, all, List.length_cons, ← length]
      rfl
    · rw [all, List.length_cons, List.map_cons, hi.linked.numbers, List.range_succ,
        List.reverse_append, ← length]
      rfl
    · rw [all]
      intro q hq
      cases hq with
      | head => exact ⟨hf.mem, ho⟩
      | tail _ hq => exact hi.linked.requested q hq
    · rw [all, List.map_cons, List.nodup_cons]
      refine ⟨fun hm => ?_, hi.linked.single⟩
      obtain ⟨q, hq, e⟩ := List.mem_map.1 hm
      exact hf.unsent q hq e
  have moved : (hand ++ held ((w.client.changeLink 0 (enqueue k.nextDelivery (o.exchange id))).link 0)).Perm
      (id :: hand ++ held (w.client.link 0)) := by
    rw [linked.held, hi.linked.held, live_enqueue hk open_ hf.latest, after, before, List.reverse_cons,
      List.map_append, ← List.append_assoc, ← List.append_assoc]
    refine List.perm_append_comm.trans ?_
    rw [List.append_assoc]
    exact .refl _
  have ids : Ids hand (w.client.changeLink 0 (enqueue k.nextDelivery (o.exchange id))) w.outside.history :=
    hi.ids.relink rfl moved
  have stands : ((w.client.changeLink 0 (enqueue k.nextDelivery (o.exchange id))).link 0).state =
      standing w.outside.history := by
    rw [state, ← hs.state, before, open_]
  refine ⟨linked, ids.congr rfl rfl, .cons ⟨stands, nofun, ?_, nofun, fun d s before earlier hp hb => ?_⟩
    hi.lawful, hi.tame⟩
  · rintro d r' e
    obtain ⟨rfl, rfl⟩ := Event.sent.inj e
    exact ⟨state, length.trans (congrArg List.length exchanges_enqueue.symm), o, id, hf.latest, hc⟩
  · obtain ⟨_, _⟩ := before
    obtain rfl := hb
    exact absurd ⟨d, s, _, earlier, hp⟩ hs.settled

section
variable (sound : Sound n h)

include sound

/-- **The endpoint refuses a request,** and its completion is told. -/
theorem refused_keeps {q : Sent} {f : Failure} (hf : f.kind? = some .protocol)
    (hi : Inv False hand w) (hs : Clear w.client w.outside.history)
    (hq : q ∈ live w.client w.outside.history) (hn : w.outside.moves.length < n) :
    Keeps False hand w ((Token.client q.completion q.completion).resolve h (.failed f))
      ((noting (.refused q.delivery) w).on (·.changeLink 0 (drop q.delivery))) := by
  have refused : Inv False (q.completion :: hand) ((noting (.refused q.delivery) w).on
      (·.changeLink 0 (drop q.delivery))) := hi.answer hs hq answers_refused
  have answered := mem_answered hq answers_refused
  have told : Told (w.client.changeLink 0 (drop q.delivery))
      (⟨.refused q.delivery, w.client⟩ :: w.outside.history) q.completion (.failed f) := by
    refine .answered answered rfl rfl ?_ fun t y _ e => (by cases e)
    rw [Sent.verdict_refused]
    exact ⟨f, rfl, hf⟩
  have since : Since w ((noting (.refused q.delivery) w).on (·.changeLink 0 (drop q.delivery))) :=
    Since.noting.trans (.relink hi.linked.link (fun e => e) fun e => ⟨e, fun o => o⟩)
  have clear : Clear (w.client.changeLink 0 (drop q.delivery))
      (⟨.refused q.delivery, w.client⟩ :: w.outside.history) :=
    ⟨state_drop.trans hs.state, not_settling nofun⟩
  exact (tell_keeps sound refused told clear hn).of since

/-- **A request is sent,** or its completion is told why not. -/
theorem transmit_keeps (hi : Inv False (id :: hand) w) (hf : Fresh o id w) (ho : o ≠ .establish)
    (hs : Clear w.client w.outside.history) (hn : w.outside.moves.length < n)
    (hc : Carries w.client o r) :
    Keeps False hand w (Link.transmit h 0 r (o.exchange id)
      fun f => (Token.client id id).resolve h (.failed f)) w := by
  obtain ⟨k, hk⟩ : ∃ k, w.client.links[0]? = some k := ⟨_, hi.linked.link⟩
  have before : w.client.link 0 = k := Client.link_eq hk
  unfold Keeps Link.transmit
  simp only [after_bind, Act.after_link, before]
  split
  · next sender open_ _ =>
    have sent : Inv False hand (noting (.sent k.nextDelivery r)
        (w.on (·.changeLink 0 (enqueue k.nextDelivery (o.exchange id))))) := hi.sent hf ho hs hk open_ hc
    have since : Since w (noting (.sent k.nextDelivery r)
        (w.on (·.changeLink 0 (enqueue k.nextDelivery (o.exchange id))))) :=
      Since.trans (.relink hk (fun e => e) fun e => ⟨e, fun o => o⟩) .noting
    simp only [after_bind, Act.after_modifyLink, after_attempt]
    have stands : ((w.client.changeLink 0 (enqueue k.nextDelivery (o.exchange id))).link 0).state =
        standing w.outside.history := by
      rw [Client.link_eq (Client.changeLink_same hk), ← hs.state, before]
      rfl
    refine (sound.send sender k.nextDelivery r sent stands hn).mono (fun _ w' kept => kept.of since) ?_
    rintro _ _ ⟨f, v, rfl, reportable, unmoved, rfl⟩
    have waiting : ⟨k.nextDelivery, o, id, none⟩ ∈ live v.client v.outside.history := by
      rw [unmoved.client, unmoved.history]
      refine (congrArg (_ ∈ ·) (live_enqueue hk open_ hf.latest)).mpr ?_
      exact List.mem_cons_self
    have clear : Clear v.client v.outside.history := by
      rw [unmoved.client, unmoved.history]
      exact ⟨stands, not_settling (by simp)⟩
    obtain ⟨report, converts⟩ := Option.isSome_iff_exists.1 reportable
    have refused : Keeps False hand v ((Token.client id id).resolve h
        (.failed ((Problem.transmitFailed r k.name).toFailure report)))
        ((noting (.refused k.nextDelivery) v).on (·.changeLink 0 (drop k.nextDelivery))) :=
      refused_keeps (q := ⟨k.nextDelivery, o, id, none⟩) sound rfl (sent.unmoved unmoved) clear waiting
        (Nat.lt_of_le_of_lt unmoved.moves.length_le hn)
    simp only [Run.convert_eq converts]
    exact refused.of (since.trans (.of_unmoved unmoved))
  · next notOpen =>
    have named : ∀ t commit, o = .discharge t commit → (w.client.transaction t).hint ≠ none := by
      rintro t commit rfl
      obtain ⟨y, hint, -⟩ := hc
      simp [hint]
    have told : Told w.client w.outside.history id
        (.failed (Problem.linkNotOpen k.name k.state).toFailure) := by
      refine .unsent hf.mem ho hf.unsent named ?_ ⟨_, rfl, rfl⟩
      rw [before]
      by_cases open_ : k.state = .opened
      · cases hsender : k.sender with
        | none => exact .inl rfl
        | some sender => exact absurd hsender (notOpen sender open_)
      · exact .inr open_
    exact tell_keeps sound hi told hs hn

theorem declare_keeps {t : Nat} (hi : Inv False (id :: hand) w) (hf : Fresh (.declare t) id w)
    (hs : Clear w.client w.outside.history) (hn : w.outside.moves.length < n) :
    Keeps False hand w (Link.declare h 0 t (.client id id)) w :=
  transmit_keeps (o := .declare t) sound hi hf (by simp) hs hn rfl

theorem discharge_keeps {t : Nat} {commit : Bool} (hi : Inv False (id :: hand) w)
    (hf : Fresh (.discharge t commit) id w) (hs : Clear w.client w.outside.history)
    (hn : w.outside.moves.length < n) :
    Keeps False hand w (Link.discharge h 0 t (.client id id) commit) w := by
  unfold Keeps Link.discharge
  simp only [after_bind, Act.after_transaction]
  split
  · next undeclared =>
    exact tell_keeps sound hi (.undeclared hf.mem hf.unsent undeclared ⟨_, rfl, rfl⟩) hs hn
  · next y declared =>
    exact transmit_keeps (o := .discharge t commit) sound hi hf (by simp) hs hn ⟨y, declared, rfl⟩

/-! ### Attaching -/

omit sound in
/-- Keeps who waits for the link to open. -/
def awaitOpening (id : Nat) (k : Link Nat) : Link Nat := { k with opening := some (.client id id) }

omit sound in
/-- Whoever asks for the link first waits for it to open. -/
theorem Inv.awaits (hi : Inv True (id :: hand) w) (hk : w.client.links[0]? = some k)
    (building : k.state = .building) (first : opener w.outside.history = some id) :
    Inv True hand (w.on (·.changeLink 0 (awaitOpening id))) := by
  have before : w.client.link 0 = k := Client.link_eq hk
  -- Nobody else waits for the opening: it would be whoever asked first.
  have nobody : k.opening = none := by
    cases ho : k.opening with
    | none => rfl
    | some token =>
      obtain ⟨-, i, rfl, hi'⟩ := hi.linked.opening token (by rw [before]; exact ho)
      obtain rfl : i = id := Option.some.inj (hi'.symm.trans first)
      have nodup := hi.ids.nodup
      rw [before, List.cons_append, List.nodup_cons] at nodup
      refine absurd (List.mem_append_right hand ?_) nodup.1
      rw [held, ho]
      exact List.mem_append_left _ List.mem_cons_self
  have taken : held (awaitOpening id k) = id :: held k := by
    rw [held, held, nobody]
    rfl
  refine hi.relink hk (hi.linked.relink hk ?_ (fun _ _ => rfl) (fun e => absurd trivial e)
    (fun e => e) ?_ (fun e => ⟨e, rfl⟩) rfl) ?_
  · intro token e
    exact ⟨building, id, (Option.some.inj e).symm, first⟩
  · intro e
    rw [show (awaitOpening id k).state = k.state from rfl, building] at e
    cases e
  · rw [taken]
    exact List.perm_middle

omit sound in
/-- The endpoint has attached the link. -/
theorem Inv.attached {sender : Nat} (hi : Inv True hand w)
    (ho : (w.client.link 0).state = .building → (w.client.link 0).opening.isSome) :
    Inv False hand (w.on (·.changeLink 0 fun k => { k with sender := some sender })) := by
  refine hi.relink hi.linked.link (hi.linked.relink hi.linked.link hi.linked.opening
    (fun hb _ => ho hb) (fun _ hb _ _ => ⟨ho hb, rfl⟩) (fun e => e)
    hi.linked.pending_closed (fun e => ⟨e, rfl⟩) rfl) (.refl _)

/-- **The link is attached,** and its opening is waited for, unless it was attached before. -/
theorem establish_keeps (hi : Inv True (id :: hand) w) (hf : Fresh .establish id w)
    (hs : Clear w.client w.outside.history) (hn : w.outside.moves.length < n) :
    Keeps False hand w (Link.establish h 0 (.client id id)) w := by
  obtain ⟨k, hk⟩ : ∃ k, w.client.links[0]? = some k := ⟨_, hi.linked.link⟩
  have before : w.client.link 0 = k := Client.link_eq hk
  unfold Keeps Link.establish
  simp only [after_bind, Act.after_link, before]
  split
  · next taken =>
    have taken : Taken k := by simpa [Taken] using taken
    have attached : Inv False (id :: hand) w := by
      refine ⟨{ hi.linked with attached := fun _ hb i _ => ?_ }, hi.ids, hi.lawful, hi.tame⟩
      rw [before] at hb ⊢
      have sender : k.sender.isSome := taken.resolve_right (not_not_intro hb)
      have opening := hi.linked.sender
      rw [before] at opening
      exact ⟨opening hb sender, sender⟩
    have late : opener w.outside.history ≠ some id := fun e =>
      (hf.opener rfl).1 e (before.symm ▸ taken)
    exact tell_keeps sound attached (.attached hf.mem late (before.symm ▸ taken) ⟨_, rfl, rfl⟩) hs hn
  · next free =>
    obtain ⟨sender, building⟩ : k.sender = none ∧ k.state = .building := by simpa using free
    have first : opener w.outside.history = some id :=
      (hf.opener rfl).2 (by simp [Taken, before, sender, building])
    have waits : Inv True hand (w.on (·.changeLink 0 (awaitOpening id))) := hi.awaits hk building first
    have since : Since w (w.on (·.changeLink 0 (awaitOpening id))) :=
      .relink hk (fun e => e) fun e => ⟨e, fun _ => rfl⟩
    have link : (w.client.changeLink 0 (awaitOpening id)).link 0 = awaitOpening id k :=
      Client.link_eq (Client.changeLink_same hk)
    simp only [after_bind, Act.after_modifyLink, after_attempt]
    have clear : Clear (w.client.changeLink 0 (awaitOpening id)) w.outside.history := by
      refine ⟨?_, hs.settled⟩
      rw [link, ← hs.state, before]
      rfl
    refine (sound.attach k.name 0 waits clear hn).mono (fun sender w' kept => ?_) ?_
    · have held : (w'.client.link 0).state = .building → (w'.client.link 0).opening.isSome :=
        fun hb => (kept.since.building hb).2 (congrArg (·.opening.isSome) link)
      have same : ((w'.client.changeLink 0 fun k => { k with sender := some sender }).link 0).state =
          (w'.client.link 0).state := state_changeLink fun _ => rfl
      exact ((kept.inv.attached held).kept (.relink kept.inv.linked.link (fun e => e) fun e =>
        ⟨e, fun o => o⟩) ⟨same.trans kept.clear.state, kept.clear.settled⟩).of (since.trans kept.since)
    · rintro _ _ ⟨f, v, rfl, reportable, unmoved, rfl⟩
      obtain ⟨report, converts⟩ := Option.isSome_iff_exists.1 reportable
      have kept : v.client.links[0]? = some (awaitOpening id k) := by
        rw [unmoved.client]
        exact Client.changeLink_same hk
      have still : Clear v.client v.outside.history := by
        rw [unmoved.client, unmoved.history]
        exact clear
      have refused : Inv True hand (noting .unattached v) :=
        (waits.unmoved unmoved).noted trivial (still.plain (by simp) (by simp) (by simp))
      have closed : Since (noting .unattached v) ((noting .unattached v).on (·.changeLink 0 giveUp)) :=
        .relink kept (fun _ => rfl) (by simp [giveUp])
      simp only [Run.convert_eq converts]
      exact (unopened_keeps sound rfl refused kept rfl (not_settling (by simp)) rfl
        (Nat.lt_of_le_of_lt unmoved.moves.length_le hn)).of
        (((since.trans (.of_unmoved unmoved)).trans .noting).trans closed)

end

end Transact.Link
