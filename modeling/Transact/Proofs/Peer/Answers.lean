import Transact.Proofs.Peer.Links

/-! # Answers of the broker

The answer to a request is a task of the loop. When it comes, the request is the outstanding one of
its session, or its link has closed and nobody listens. A declare that is answered makes the
transaction known under a name that nobody had before; a discharge that commits publishes what was
staged, and its session is told so in the same task.

* `Calm.answer`: all is at rest afterwards. -/

namespace Transact

namespace Peer

open Run

variable {o : Origin} {G : Ledger} {due : Option Nat} {s n i t l d : Nat} {p : Phase Waiting}
  {co : Option Nat} {S : Session} {w v : State} {m : Link Waiting} {q : Token Waiting}
  {commit : Bool} {r : Resolution Unit} {f : Failure} {loop : Loop Task} {request : Request}

/-! ### The exchange is taken from its link -/

/-- Drops an exchange. -/
def drop (d : Nat) (k : Link Waiting) : Link Waiting :=
  { k with pending := k.pending.filter (·.1 ≠ d) }

theorem Common.drop (h : Common G due w) :
    Common G due (w.on (·.changeLink l (Peer.drop d))) :=
  { h with
    endpoints := by simpa [World.on, Client.changeLink] using h.endpoints
    owners := by simpa [World.on, Client.changeLink] using h.owners
    placed := fun job hj i hi => by
      have := h.placed job hj i hi
      simpa [World.on, Client.changeLink] using this
    sync := by
      intro i k hk
      rw [World.on, Client.changeLink, Array.getElem?_modify] at hk
      split at hk
      · obtain ⟨k', hk', rfl⟩ := Option.map_eq_some_iff.1 hk
        exact h.sync i k' hk'
      · exact h.sync i k hk
    opened := fun y r hr => by
      obtain ⟨k, hk, ho⟩ := h.opened y r hr
      by_cases hl : r.link = l
      · subst hl
        exact ⟨_, Client.changeLink_same hk, ho⟩
      · exact ⟨k, (Client.changeLink_other hl).trans hk, ho⟩ }

/-- **The oldest task answers a request:** it was the outstanding one, which is loose then. If it was
about a transaction, the broker has dropped it; what it has published is due. -/
theorem Calm.take (h : Calm G w) (quiet : Prop) (due : Option Nat) (hr : Rest G s p co S w)
    (hs : p.slot = some (l, d))
    (ht : tasks w = .answer l (.ofIndex d) request :: tasks (w.out (·.withLoop loop)))
    (extra : List Delivery) {g : Broker → Broker}
    (hc : (g w.outside.broker).txnCounter = w.outside.broker.txnCounter)
    (hg : Broker.Takes w.outside.broker (g w.outside.broker))
    (hm : Distinct w → Broker.Moves (· = l) extra w.outside.broker (g w.outside.broker))
    (he : ∀ d ∈ extra, ∀ t, G.Tagged d.tag t → due = some t)
    (hn : ∀ y r, (g w.outside.broker).transactions.get? y = some r → ∀ t, p.recorded ≠ some (t, y))
    (hv : v = ((w.on (·.changeLink l (drop d))).out (·.withLoop loop)).out (·.changeBroker g)) :
    Turn ⟨G, v, due, quiet⟩ G due s p.loose co S v := by
  obtain ⟨hco, m, hm', hopen, -⟩ := hr.seat.tables.slot l d hs
  have hl := (hr.seat.tables.coordinator l hco).1
  have hl : G.owners[l]? = some s := hl
  have other {i : Nat} (hi : i ≠ l) :
      (Task.answer l (.ofIndex d) request).asks i = none :=
    Task.asks_eq_none fun e => hi (Option.some.inj e).symm
  have asked' {i : Nat} (hi : i ≠ l) :
      asked i (tasks (w.out (·.withLoop loop))) = asked i (tasks w) := by
    rw [ht, asked, asked, List.filterMap_cons, other hi]
  have state {i : Nat} {k : Link Waiting} (hk : (w.client.changeLink l (drop d)).links[i]? = some k) :
      ∃ k', w.client.links[i]? = some k' ∧ k'.state = k.state := by
    rw [Client.changeLink, Array.getElem?_modify] at hk
    split at hk
    · obtain ⟨k', hk', rfl⟩ := Option.map_eq_some_iff.1 hk
      exact ⟨k', hk', rfl⟩
    · exact ⟨k, hk, rfl⟩
  subst hv
  refine {
    common := ((h.common.drop (l := l) (d := d)).start ht rfl).changeBroker hc hg
      (fun hx d hd => ((hm hx).held d hd).imp_right (he d)) (by simp)
    others := fun i hi hne => ?_
    seat := ⟨?_, fun i k hi hk hn => ?_, ?_, ?_, ?_, ?_, fun y r hy hi => ?_, hr.seat.enrolled,
      fun hx c k hk hks hne => ?_⟩
    dues := hr.dues.of_same rfl rfl rfl rfl
    session := hr.session
    context := hr.context
    count := hr.count
    current := hr.current
    due := fun _ => id
    since := .refl ⟨G, _, due, quiet⟩ }
  · have ne {i' : Nat} (hi' : G.owners[i']? = some i) : i' ≠ l := by
      rintro rfl
      exact hne (Option.some.inj (hi'.symm.trans hl))
    have taken : Spares i G w G ((w.on (·.changeLink l (drop d))).out (·.withLoop loop)) := {
      Spares.refl i G w with
      link := fun i' hi' => Client.changeLink_other (ne hi')
      asked := fun i' _ hi' _ _ => asked' (ne hi')
      closing := fun _ _ _ _ _ _ _ hs => by
        rw [ht] at hs
        exact hs.tail
      opens := fun i' _ => opens_tail ht fun e => by cases e }
    exact ((h.settled i hi).spared taken).spared (spares_changeBroker hg
      fun hx y r hy hi' => (hm hx).record y r hy (ne hi'))
  · exact hr.seat.tables.takeOut hs ⟨hm', Client.changeLink_same hm', fun i hi =>
      Client.changeLink_other hi⟩ rfl rfl rfl
  · rw [Phase.loose_still.asks]
    obtain ⟨k', hk', hks⟩ := state hk
    have before := hr.seat.asked i k' hi hk' (hks ▸ hn)
    by_cases e : i = l
    · subst e
      obtain ⟨request', ha⟩ := Phase.asks_slot hs
      rw [ht, asked, List.filterMap_cons, show (Task.answer i (.ofIndex d) request).asks i = _ from
        if_pos rfl, ha] at before
      exact (List.cons.inj before).2
    · show asked i (tasks (w.out (·.withLoop loop))) = []
      rw [asked' e, before]
      exact Phase.asks_of_slot fun d' e' => e (by simpa using congrArg (·.map (·.1)) (e'.symm.trans hs))
  · intro _ i y e
    rw [Phase.loose_still.sealing] at e
    cases e
  · intro _ t y i k e
    rw [Phase.recorded_loose hs] at e
    cases e
  · intro t e
    exact hr.seat.home t (Phase.loose_transaction ▸ e)
  · intro t e hb
    exact hr.seat.unnamed t (Phase.loose_transaction ▸ e) (Phase.loose_bound ▸ hb)
  · obtain ⟨r', hr', e⟩ := hg.links y r hy
    obtain ⟨t, recorded⟩ := hr.seat.alone y r' hr' (e ▸ hi)
    exact absurd recorded (hn y r hy t)
  · have hx : Exact w := ⟨hx.1, Nat.le_trans hg.tagCounter hx.2.1, hx.2.2⟩
    exact (hr.seat.holding hx c k hk hks hne).imp_left Phase.holding_loose

/-! ### The broker answers -/

theorem Common.unsent (h : Common G due w) (ht : (w.client.transaction t).hint = none) :
    ∀ e ∈ G.taken, e.1.transaction ≠ t := by
  rintro e he rfl
  have := (h.parcel e.1 (List.mem_append_left _ (List.mem_map_of_mem he))).2
  rw [ht] at this
  cases this

/-- The broker takes up a transaction under a new name. -/
def enlist (l : Nat) (b : Broker) : Broker :=
  { b with
    txnCounter := b.txnCounter + 1
    transactions := b.transactions.put (.ofCounter b.txnCounter) { link := l } }

theorem hint_writeHint {x : Client Waiting} {t' : Nat} {y : Option TxnId}
    (ht : t < x.transactions.size) :
    ((x.writeHint t y).transaction t').hint = if t' = t then y else (x.transaction t').hint := by
  unfold Client.transaction Client.writeHint
  rw [Array.getElem?_modify]
  by_cases e : t = t'
  · subst e
    simp [ht]
  · simp [e, Ne.symm e]

/-- **The new name is nobody else's.** -/
theorem Common.fresh_name (h : Common G due w)
    (hn : w.outside.broker.txnCounter < 0x100000000) {t : Nat} {y : TxnId}
    (hy : (w.client.transaction t).hint = some y) : y ≠ .ofCounter w.outside.broker.txnCounter := by
  obtain ⟨n, hlt, rfl⟩ := h.names t y hy
  rw [ne_eq, TxnId.ofCounter_inj (Nat.lt_trans hlt hn) hn]
  omega

theorem Common.enlist (h : Common G due w)
    (hc : w.outside.broker.txnCounter + (tasks w).countP (·.isDeclare) ≤ declares w)
    (ht : t < w.client.transactions.size) (hm : w.client.links[l]? = some m) (ho : m.state = .opened)
    (hu : (w.client.transaction t).hint = none) :
    Common G due ((w.out (·.changeBroker (Peer.enlist l))).on
      (·.writeHint t (some (.ofCounter w.outside.broker.txnCounter)))) := by
  have fresh (hx : Distinct w) {t' : Nat} {y : TxnId} := h.fresh_name (t := t') (y := y) (by
    unfold Distinct at hx
    omega)
  have other {t' : Nat} {y : TxnId} (hy : (w.client.transaction t').hint = some y) : t' ≠ t := by
    rintro rfl
    rw [hu] at hy
    cases hy
  refine { h with
    homes := ?_
    parcel := fun x hx => ⟨(h.parcel x hx).1, ?_⟩
    names := fun t' y hy => ?_
    named := fun hx t₁ t₂ y h₁ h₂ => ?_
    counter := ?_
    held := ?_
    sound := Broker.sound_enlist h.sound
    opened := fun y r hr => ?_
    custody := fun hx => h.custody hx }
  · simpa [World.on, World.out, Client.writeHint] using h.homes
  · have hy := (h.parcel x hx).2
    exact (hint_writeHint ht).trans ((if_neg (other hy)).trans hy)
  · have hy := (hint_writeHint ht).symm.trans hy
    show ∃ n, n < w.outside.broker.txnCounter + 1 ∧ _
    split at hy
    · exact ⟨_, Nat.lt_succ_self _, (Option.some.inj hy).symm⟩
    · obtain ⟨n, hlt, e⟩ := h.names t' y hy
      exact ⟨n, Nat.lt_succ_of_lt hlt, e⟩
  · have h₁ := (hint_writeHint ht).symm.trans h₁
    have h₂ := (hint_writeHint ht).symm.trans h₂
    split at h₁ <;> split at h₂
    · next e₁ e₂ => rw [e₁, e₂]
    · exact absurd (Option.some.inj h₁).symm (fresh hx h₂)
    · exact absurd (Option.some.inj h₂).symm (fresh hx h₁)
    · exact h.named hx t₁ t₂ y h₁ h₂
  · show w.outside.broker.txnCounter + 1 + (tasks w).countP (·.isDeclare) ≤ declares w + 1
    omega
  · rintro hx d (hd | hd | ⟨y, r, hr, hd⟩)
    · exact h.held hx d (.inl hd)
    · exact h.held hx d (.inr (.inl hd))
    · rcases Roll.mem_put hr with ⟨-, rfl⟩ | hr
      · cases hd
      · exact h.held hx d (.inr (.inr ⟨y, r, hr, hd⟩))
  · have hr := Roll.get?_put.symm.trans hr
    split at hr
    · rw [← Option.some.inj hr]
      exact ⟨m, hm, ho⟩
    · exact h.opened y r hr

theorem spares_enlist (h : Common G due w)
    (hc : w.outside.broker.txnCounter + (tasks w).countP (·.isDeclare) ≤ declares w)
    (ht : G.homes[t]? = some s) (hl : G.owners[l]? = some s) {g : Context → Context} (hne : i ≠ s) :
    Spares i G w G (((w.out (·.changeBroker (Peer.enlist l))).on
      (·.writeHint t (some (.ofCounter w.outside.broker.txnCounter)))).on (·.changeContext s g)) := by
  have other {t' : Nat} (ht' : G.homes[t']? = some i) : t ≠ t' := by
    rintro rfl
    exact hne (Option.some.inj (ht'.symm.trans ht))
  exact { Spares.refl i G w with
    context := by
      simp [World.on, World.out, Client.changeContext, Client.writeHint, Array.getElem?_modify,
        Ne.symm hne]
    transaction := fun t' ht' => by
      simp [World.on, World.out, Client.changeContext, Client.writeHint, Array.getElem?_modify,
        other ht']
    record := fun hx t' y r ht' hy _ hr => by
      have hx : declares w < 0x100000000 := hx
      refine ⟨r, ?_, rfl, rfl⟩
      show (Peer.enlist l w.outside.broker).transactions.get? y = some r
      rw [Peer.enlist, Roll.get?_put, if_neg (h.fresh_name (by omega) hy), hr]
    alone := fun y r hr hi => by
      have hr := Roll.get?_put.symm.trans hr
      split at hr
      · rw [← Option.some.inj hr] at hi
        exact absurd (Option.some.inj (hi.symm.trans hl)) hne
      · exact ⟨r, hr, rfl⟩ }

/-- **A declared transaction is bound.** Nothing is staged in it yet. -/
theorem Turn.bind {id : Nat} (h : Turn o G none s (.declaring none t id q) co S w) (quiet : Prop)
    (hco : co = some l) (hm : w.client.links[l]? = some m) (ho : m.state = .opened)
    (hc : w.outside.broker.txnCounter + (tasks w).countP (·.isDeclare) ≤ declares w)
    {y : TxnId} (hy : y = .ofCounter w.outside.broker.txnCounter)
    (hv : v = ((w.out (·.changeBroker (Peer.enlist l))).on
      (·.writeHint t (some y))).on (·.changeContext s fun x => { x with
        stage := .active, current := some t, accepted := some (.acknowledging y)
        enrolled := some (.enrolling y) })) :
    Turn ⟨G, v, none, quiet⟩ G none s (.active t y) co S v ∧ G.Clean t := by
  obtain ⟨k, hk, hkc⟩ := h.seat.tables.context
  obtain ⟨home, hnc⟩ := h.seat.home t rfl
  have hu := h.seat.unnamed t rfl rfl
  have ht : t < w.client.transactions.size := by
    rw [← h.common.homes]
    exact (List.getElem?_eq_some_iff.1 home).1
  have none_sent := h.common.unsent hu
  have common := h.common.enlist (l := l) hc ht hm ho hu
  have own : G.owners[l]? = some s := (h.seat.tables.coordinator l hco).1
  rw [← hy] at common
  have clean : G.Clean t := fun e he het => absurd het (none_sent e he)
  have staged : G.staged t = [] := by
    refine List.filterMap_eq_nil_iff.2 fun e he => ?_
    rw [if_neg (none_sent e he)]
  have got : (Peer.enlist l w.outside.broker).transactions.get? y = some { link := l } := by
    rw [Peer.enlist, ← hy, Roll.get?_put, if_pos rfl]
  subst hv
  refine ⟨{
    common := common.changeContext
    others := fun i hi hne =>
      (h.others i hi hne).spared (hy ▸ spares_enlist h.common hc home own hne)
    seat := ⟨?_, ?_, (fun _ _ _ e => by cases e), ?_, fun t' e => ?_, (fun _ _ e => by cases e),
      fun y' r hr hi => ?_, fun C hC e he => ?_,
      fun hx c k hk hks hne => absurd (h.seat.bare (fun e => e) hx c k hk hks) hne⟩
    dues := h.dues.of_same rfl rfl rfl rfl
    session := h.session
    context := h.context
    count := h.count
    current := h.current
    due := by simp
    since := .refl ⟨G, _, none, quiet⟩ }, clean⟩
  · refine h.seat.tables.relabel ⟨rfl, rfl⟩ ⟨rfl, rfl⟩ (Client.changeContext_same hk)
      ⟨rfl, rfl, rfl, rfl, hkc.coordinator⟩ rfl (fun t' y' e => ?_)
      fun _ => by simp [hco]
    obtain ⟨rfl, rfl⟩ : t = t' ∧ y = y' := by simpa [Phase.bound] using e
    exact (hint_writeHint ht).trans (if_pos rfl)
  · exact fun i k' hi hk' hn => h.seat.asked i k' hi hk' hn
  · intro _ t' y' i k' e hi _ _
    obtain ⟨rfl, rfl⟩ : t = t' ∧ y = y' := by simpa [Phase.recorded] using e
    obtain rfl : l = i := Option.some.inj (hco.symm.trans hi)
    exact ⟨fun e he het => absurd het (none_sent e he), _, got, rfl, staged.symm⟩
  · obtain rfl := Option.some.inj e
    exact ⟨home, hnc⟩
  · have hr := Roll.get?_put.symm.trans hr
    split at hr
    · next e => exact ⟨t, by rw [e, ← hy]; rfl⟩
    · exact absurd hi (h.seat.unrecorded rfl y' r hr)
  · obtain rfl := Option.some.inj ((Client.changeContext_same hk).symm.trans hC)
    exact h.seat.enrolled k hk e he

/-- Whatever the broker has on record has a name that a session knows. -/
theorem Calm.recorded (h : Calm G w) {y : TxnId} {r : Record}
    (hr : w.outside.broker.transactions.get? y = some r) :
    ∃ t, (w.client.transaction t).hint = some y := by
  obtain ⟨k, hk, -⟩ := h.common.opened y r hr
  obtain ⟨s, p, co, S, hl, rest⟩ := h.owner hk
  obtain ⟨t, recorded⟩ := rest.seat.alone y r hr hl
  exact ⟨t, rest.seat.tables.hint t y (Phase.bound_of_recorded recorded)⟩

/-! ### Settlements -/

theorem after_settled {h : Surroundings} {e : Exchange Waiting} {settlement : Settlement}
    {Q : Unit → State → Prop} {R : Halt → State → Prop} (hm : w.client.links[l]? = some m)
    (hp : m.pending = [(d, e)]) :
    After (Link.settled h l d settlement) w Q R ↔
      After (match e.discharge with
        | none => do
          match settlement with
          | .declared txnId => Act.setHint e.transaction txnId
          | _ => pure ()
          e.request.resolve h (Link.declareResolution (w.client.transaction e.transaction).id settlement)
        | some commit => e.request.resolve h
          (Link.dischargeResolution (w.client.transaction e.transaction).id commit settlement))
        (w.on (·.changeLink l (drop d))) Q R := by
  unfold Link.settled
  simp only [after_bind, Act.after_link, Client.link_eq hm, hp, List.find?_cons_of_pos,
    decide_true, Act.after_modifyLink, Act.after_transaction]
  rfl

/-- **A declare is answered.** -/
theorem Calm.answerDeclare {id : Nat} (h : Calm G w)
    (hr : Rest G s (.declaring (some (l, d)) t id q) co S w)
    (ht : tasks w = .answer l (.ofIndex d) .declare :: tasks (w.out (·.withLoop loop))) :
    After (Link.settled (surroundings (n + 1)) l d (w.outside.broker.answer l .declare).1)
      ((w.out (·.withLoop loop)).out (·.changeBroker fun b => (b.answer l .declare).2))
      (fun _ w' => Steady G w w') fun _ _ => False := by
  obtain ⟨hco, m, hm, hopen, -⟩ := hr.seat.tables.slot l d rfl
  have hl : G.owners[l]? = some s := (hr.seat.tables.coordinator l hco).1
  have home := (hr.seat.home t rfl).1
  have hp := (hr.seat.tables.link l m hl hm).pending.trans (if_pos rfl)
  have shaped := h.common.sound.toShaped
  obtain ⟨hf, hd, hq⟩ := hr.stance
  rw [after_settled (by exact hm) hp]
  dsimp only
  rcases Broker.answer_declare w.outside.broker (l := l) with ⟨⟨e, he⟩, hb⟩ | ⟨he, hb⟩
  · have trade : Broker.Trade 0 0 w.outside.broker { w.outside.broker with
        declaresToReject := w.outside.broker.declaresToReject - 1 } :=
      Broker.trade_same shaped rfl rfl rfl rfl
    have turn := h.take False none hr rfl ht [] (g := fun b => { b with
      declaresToReject := b.declaresToReject - 1 }) rfl (trade.takes rfl)
      (fun _ => Broker.moves_same rfl rfl rfl rfl rfl) (fun _ hd => by cases hd)
      (fun _ _ _ _ e => by cases e) rfl
    rw [he, out_changeBroker (b := fun b => { b with declaresToReject := b.declaresToReject - 1 })
      (by exact hb)]
    simp only [Link.declareResolution]
    refine (turn.undeclared ?_ ⟨rfl, rfl⟩ rfl hf hd hq home).mono (fun _ w' hw => ?_)
      fun _ _ => False.elim
    · exact nofun
    exact (hw.1.back hw.2).steady rfl (.of_same rfl rfl rfl le_rfl le_rfl le_rfl)
      fun _ => .of_trade fun _ => trade
  · obtain ⟨b, rfl, hb', hl'⟩ := hq
    obtain ⟨y, hy⟩ : ∃ y, y = TxnId.ofCounter w.outside.broker.txnCounter := ⟨_, rfl⟩
    have counted : w.outside.broker.txnCounter +
        (tasks (w.out (·.withLoop loop))).countP (·.isDeclare) ≤ declares w := by
      have := h.common.counter
      rw [ht, List.countP_cons_of_pos rfl] at this
      omega
    have known : t < w.client.transactions.size := by
      rw [← h.common.homes]
      exact (List.getElem?_eq_some_iff.1 home).1
    have taken := h.take False none hr rfl ht [] (g := fun b => b) rfl
      ((Broker.Trade.refl shaped).takes rfl)
      (fun _ => .refl _) (fun _ hd => by cases hd) (fun _ _ _ _ e => by cases e) rfl
    obtain ⟨bound, clean⟩ := taken.bind False hco (Client.changeLink_same hm) hopen counted hy rfl
    have unused (hx : Distinct w) :
        w.outside.broker.transactions.get? (.ofCounter w.outside.broker.txnCounter) = none := by
      refine Option.eq_none_iff_forall_ne_some.2 fun r hr => ?_
      obtain ⟨t, known⟩ := h.recorded hr
      have hx : declares w < 0x100000000 := hx
      exact h.common.fresh_name (by omega) known rfl
    have declared := bound.write (r := .succeeded ()) hd rfl home nofun (by simp)
    have told := declared.write (r := .succeeded ()) (hl'.write hd.1 (by rintro ⟨⟩)) rfl home nofun
      (by simp)
    have current := told.changeSession (f := fun x => { x with current := some t }) rfl rfl
      (.inr hf.outstanding) (declared.dues.enter hb' hf.current rfl hf.failedSend) (fun e => e)
      fun _ => ⟨rfl, rfl⟩
    rw [he, out_changeBroker (b := enlist l) (by exact hb), ← hy]
    simp only [Link.declareResolution, after_bind, Act.after_setHint]
    unfold Token.resolve
    simp only [after_bind]
    rw [Act.after_settle (by exact hd.2)]
    simp only [Act.after_transaction]
    rw [show ((((((w.out (·.withLoop loop)).out (·.changeBroker (enlist l))).on
      (·.changeLink l (drop d))).on (·.writeHint t (some y))).on
      (·.write id (.settled (.succeeded ())))).client.transaction t).hint = some y from
      (hint_writeHint known).trans (if_pos rfl)]
    simp only [after_bind]
    unfold Context.bind
    rw [Act.after_modifyContext]
    unfold Token.resolve
    rw [after_bind, Act.after_settle (by exact (hl'.write hd.1 (by rintro ⟨⟩)).2)]
    exact (current.back ⟨trivial, ⟨rfl, .inl ⟨hf.discharging, hf.aggregate, fun _ => clean⟩⟩,
      fun _ e => by cases e⟩).steady rfl (.of_same rfl rfl rfl le_rfl le_rfl le_rfl)
      fun hx => Broker.balance_enlist (unused hx)

/-- No message is on its way in a transaction whose discharge is answered next. -/
theorem Rest.arrived {y : TxnId} (hr : Rest G s p co S w) (h : Common G due w) (hx : Distinct w)
    (hp : p.sealing = some (l, y)) (hy : (w.client.transaction t).hint = some y)
    (ht : tasks w = .answer l (.ofIndex d) request :: tasks (w.out (·.withLoop loop))) :
    ∀ x ∈ G.waiting, x.transaction ≠ t := by
  rintro x hxw rfl
  have named := (h.parcel x (List.mem_append_right _ hxw)).2
  obtain rfl : y = x.txnId := Option.some.inj (hy.symm.trans named)
  have mem : x.task ∈ (tasks w).filter (·.isTransfer) := by
    rw [h.transfers]
    exact List.mem_map_of_mem hxw
  have closing := hr.seat.closing hx l _ hp
  rw [ht, Sealed, List.dropWhile_cons_of_neg (by simp [Task.asks]), ← ht] at closing
  exact closing _ (List.mem_filter.1 mem).1 rfl

/-- **A discharge is answered.** What was staged is published just if a commit succeeds, and whoever
asked for it is told. -/
theorem Calm.answerDischarge {y : TxnId} {id : Nat} (h : Calm G w)
    (hr : Rest G s (.discharging (some (l, d)) t y id commit q) co S w)
    (ht : tasks w = .answer l (.ofIndex d) (.discharge y (!commit)) ::
      tasks (w.out (·.withLoop loop)))
    {e : Endpoint} (he : w.outside.endpoints[l]? = some e) (active : e.isActive = true) :
    After (Link.settled (surroundings (n + 2)) l d
        (w.outside.broker.answer l (.discharge y (!commit))).1)
      ((w.out (·.withLoop loop)).out
        (·.changeBroker fun b => (b.answer l (.discharge y (!commit))).2))
      (fun _ w' => Steady G w w' ∧ consumed w = [] ∨ Commits G w w') fun _ _ => False := by
  obtain ⟨hco, m, hm, hopen, -⟩ := hr.seat.tables.slot l d rfl
  have hl : G.owners[l]? = some s := (hr.seat.tables.coordinator l hco).1
  have home := (hr.seat.home t rfl).1
  have hp := (hr.seat.tables.link l m hl hm).pending.trans (if_pos rfl)
  obtain ⟨-, -, hS, hd, hq, hclean, -⟩ := hr.stance
  have record (hx : Distinct w) := hr.seat.record hx t y l m rfl hco hm (by simp [hopen])
  have shaped := h.common.sound.toShaped
  have hc := (Broker.counters_discharge w.outside.broker y (!commit)).1
  have gone (y' : TxnId) (r : Record)
      (hr : (w.outside.broker.discharge y (!commit)).2.transactions.get? y' = some r) (t' : Nat) :
      some (t, y) ≠ some (t', y') := by
    rintro ⟨⟩
    exact (Broker.get?_discharge hr).1 rfl
  rw [after_settled (by exact hm) hp]
  dsimp only
  by_cases commits : commit = true ∧ (w.outside.broker.discharge y (!commit)).1 = .accepted
  · obtain ⟨rfl, accepted⟩ := commits
    obtain ⟨r, hrec⟩ : ∃ r, w.outside.broker.transactions.get? y = some r := by
      refine Option.ne_none_iff_exists'.1 fun none => ?_
      simp [Broker.discharge, none] at accepted
    have trade := Broker.trade_committed shaped hrec accepted
    have published (hx : Distinct w) : Broker.Moves (· = l) (G.staged t) w.outside.broker
        (w.outside.broker.discharge y false).2 ∧ ∀ address,
          ((w.outside.broker.discharge y false).2.queue address).toList =
            (w.outside.broker.queue address).toList ++ (G.staged t).filter (·.address = address) := by
      obtain ⟨-, r, hrec, rfl, hst⟩ := record hx
      rw [← hst]
      exact Broker.discharge_committed hrec accepted
    have turn := h.take True (some t) hr rfl ht (G.staged t)
      (g := fun b => (b.answer l (.discharge y (!true))).2) hc
      (trade.takes Broker.inflight_discharge) (fun hx => (published hx).1)
      (fun d hd t' htag => congrArg some
        (Ledger.Tagged.unique h.common.tags (Ledger.tagged_of_staged hd) htag)) gone rfl
    have lost : consumed w = r.acknowledged := by
      rw [consumed_eq ht]
      show ite _ _ _ = _
      rw [if_pos ⟨by simp [he, active], accepted⟩, hrec]
      rfl
    rw [show (w.outside.broker.answer l (.discharge y (!true))).1 = _ from accepted]
    refine (turn.ended ⟨rfl, rfl⟩ rfl (fun e => e) hd home hS (hq.congr rfl rfl)
      Link.dischargeResolution_legal (fun _ _ => rfl)
      fun t' e => ⟨(Option.some.inj e).symm, rfl, rfl⟩).mono (fun _ w' hw => .inr ⟨t, hw.back.advance rfl
        (.of_same rfl rfl rfl trade.tagCounter.ge le_rfl le_rfl) (fun t' e => ⟨trivial, fun hx => ?_⟩)
        fun _ => ?_⟩) fun _ _ => False.elim
    · obtain rfl := Option.some.inj e
      refine ⟨hclean rfl, (record hx).1, ?_, fun address => ?_⟩
      · exact hr.arrived (y := y) h.common hx rfl (hr.seat.tables.hint t y rfl) ht
      · exact (published hx).2 address
    · show Broker.Balance (consumed w) _ _
      rw [lost]
      exact .of_trade fun _ => trade
  · have trade := Broker.trade_undone shaped y (!commit) fun e =>
      commits ⟨by simpa using e.1, e.2⟩
    have dropped (hx : Distinct w) : Broker.Moves (· = l) [] w.outside.broker
        (w.outside.broker.discharge y (!commit)).2 := by
      obtain ⟨-, r, hrec, rfl, -⟩ := record hx
      exact Broker.discharge_dropped hrec fun e => commits ⟨by simpa using e.1, e.2⟩
    have turn := h.take False none hr rfl ht [] (g := fun b => (b.answer l (.discharge y (!commit))).2) hc
      (trade.takes Broker.inflight_discharge) dropped (by simp) gone rfl
    have kept : consumed w = [] := by
      rw [consumed_eq ht]
      cases commit with
      | false => rfl
      | true => exact if_neg fun e => commits ⟨rfl, e.2⟩
    refine (turn.ended ⟨rfl, rfl⟩ rfl (fun e => e) hd home hS (hq.congr rfl rfl)
      Link.dischargeResolution_legal (fun hc e => ?_) fun _ e => by cases e).mono
        (fun _ w' hw => .inl ⟨hw.back.steady rfl
          (.of_same rfl rfl rfl trade.tagCounter.ge le_rfl le_rfl) fun _ => .of_trade fun _ => trade, kept⟩)
        fun _ _ => False.elim
    refine absurd ⟨hc, ?_⟩ commits
    rw [show (w.outside.broker.discharge y (!commit)).1 = _ from rfl]
    unfold Link.dischargeResolution at e
    split at e
    · assumption
    · split at e <;> cases e
    · cases e

/-- **The broker answers a request,** unless the link has closed. -/
theorem Calm.answer (h : Calm G w) {delivery : Number}
    (ht : tasks w = .answer l delivery request :: tasks (w.out (·.withLoop loop))) :
    After (Peer.answer (surroundings (n + 2)) l delivery request) (w.out (·.withLoop loop))
      (fun _ w' => Steady G w w' ∧ consumed w = [] ∨ Commits G w w') fun _ _ => False := by
  have hlt : l < w.client.links.size := h.common.placed _ (ht ▸ List.mem_cons_self) l rfl
  obtain ⟨m, hm⟩ : ∃ m, w.client.links[l]? = some m := ⟨_, Array.getElem?_eq_getElem hlt⟩
  obtain ⟨e, he, hel, hef⟩ := h.common.sync l m hm
  obtain ⟨s, p, co, S, hown, hr⟩ := h.owner hm
  have asked' : m.state ≠ .closed →
      p.asks l = (delivery, request) :: asked l (tasks (w.out (·.withLoop loop))) := by
    intro hs
    rw [← hr.seat.asked l m hown hm hs, ht, asked, List.filterMap_cons,
      show (Task.answer l delivery request).asks l = _ from if_pos rfl]
    rfl
  unfold Peer.answer
  simp only [after_bind, after_endpointAt]
  rw [show (w.out (·.withLoop loop)).outside.endpoint l = e from Outside.endpoint_eq he]
  by_cases hs : m.state = .closed
  · rw [hs] at hef
    have inactive : e.isActive = false := by
      rw [Endpoint.isActive, show e.closed = true from hef, Bool.not_true, Bool.and_false]
    rw [if_pos (by simp [inactive])]
    have kept : consumed w = [] := by
      rw [consumed_eq ht]
      unfold Task.consumes
      split
      · next e' =>
        obtain ⟨rfl, -, -⟩ := Task.answer.inj e'
        exact if_neg (by simp [he, inactive])
      · rfl
    refine .inl ⟨(h.start ht rfl (fun i k hk hkn => Task.asks_eq_none fun e => ?_) rfl).steady rfl
      (.of_same rfl rfl rfl le_rfl le_rfl le_rfl) fun _ => .refl _, kept⟩
    obtain rfl := Option.some.inj e
    obtain rfl := Option.some.inj (hm.symm.trans hk)
    exact hkn hs
  · obtain ⟨d, slot⟩ : ∃ d, p.slot = some (l, d) := by
      refine Classical.byContradiction fun none => ?_
      have := asked' hs
      rw [Phase.asks_of_slot fun d e => none ⟨d, e⟩] at this
      cases this
    obtain ⟨-, k, hk, hopen, hd⟩ := hr.seat.tables.slot l d slot
    obtain rfl := Option.some.inj (hm.symm.trans hk)
    rw [hopen] at hef
    have active : e.isActive = true := by
      rw [Endpoint.isActive, hef.1, hef.2]
      rfl
    rw [if_neg (by simp [active])]
    simp only [after_bind, after_withBroker, hel]
    cases p with
    | declaring _ t id q =>
      cases slot
      obtain ⟨rfl, rfl⟩ : Number.ofIndex d = delivery ∧ Request.declare = request := by
        simpa using (List.cons.inj ((if_pos rfl).symm.trans (asked' hs))).1
      rw [Number.toNat?_ofIndex]
      have kept : consumed w = [] := consumed_eq ht
      exact (h.answerDeclare hr ht).mono (fun _ _ hw => .inl ⟨hw, kept⟩) fun _ _ => False.elim
    | discharging _ t y id commit q =>
      cases slot
      obtain ⟨rfl, rfl⟩ : Number.ofIndex d = delivery ∧ Request.discharge y (!commit) = request := by
        simpa using (List.cons.inj ((if_pos rfl).symm.trans (asked' hs))).1
      rw [Number.toNat?_ofIndex]
      exact h.answerDischarge hr ht he active
    | _ => cases slot

end Peer

end Transact
