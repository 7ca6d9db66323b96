import Transact.Proofs.Link.Answers

/-! # Events and closure

Each event of the endpoint keeps the invariant, and so does the closure of the link, if the
surroundings of the link are sound.

* `resolve_keeps`: a completion is told.
* `shut_keeps`, `closed_keeps`, `close_keeps`: the link closes, and everyone who waits is told.
* `opened_keeps`, `settled_keeps`: the other events of the endpoint. -/

namespace Transact.Link

open Run Player

variable {attaching : Prop} {hand : List Nat} {w w' v : State} {x : Client Nat} {past : List Entry}
  {id n d : Nat} {r : Resolution Unit} {h : Surroundings} {k : Link Nat} {f : Failure} {o : Operation}

theorem Inv.weaken {attaching' : Prop} (hi : Inv attaching hand w) (ha : attaching → attaching') :
    Inv attaching' hand w :=
  ⟨{ hi.linked with attached := fun no => hi.linked.attached fun e => no (ha e) }, hi.ids, hi.lawful,
    hi.tame⟩

theorem Kept.weaken (hk : Kept False hand w w') : Kept attaching hand w w' :=
  ⟨hk.inv.weaken False.elim, hk.since, hk.clear⟩

theorem Kept.of (hk : Kept attaching hand v w') (hs : Since w v) : Kept attaching hand w w' :=
  ⟨hk.inv, hs.trans hk.since, hk.clear⟩

theorem Keeps.of {y : Play Unit} {u : State} (hk : Keeps attaching hand v y u) (hs : Since w v) :
    Keeps attaching hand w y u :=
  After.mono hk (fun _ _ hk => hk.of hs) fun _ _ => False.elim

theorem Inv.kept (hi : Inv attaching hand w') (hs : Since w w')
    (hc : Clear w'.client w'.outside.history) : Kept attaching hand w w' := ⟨hi, hs, hc⟩

/-- A call is over. Its return says nothing of the link, unless the link was closed by it. -/
theorem Kept.returned {c : Call} (hk : Kept attaching hand w w')
    (same : standing (⟨.returned c none, w'.client⟩ :: w'.outside.history) =
      standing w'.outside.history) :
    Kept attaching hand w (noting (.returned c none) w') :=
  ⟨hk.inv.noted trivial (hk.clear.plain (fun _ _ e => by cases e; rfl) nofun nofun),
    hk.since.trans .noting, hk.clear.noted nofun same⟩

theorem Inv.strengthen {q : Sent} (hi : Inv attaching hand w)
    (hq : q ∈ exchanges w.client w.outside.history) : Inv False hand w := by
  have built : (w.client.link 0).state ≠ .building := by
    intro hb
    rw [hi.linked.unsent hb] at hq
    cases hq
  exact ⟨{ hi.linked with attached := fun _ hb => absurd hb built }, hi.ids, hi.lawful, hi.tame⟩

theorem Inv.relink {attaching' : Prop} {hand' : List Nat} {g : Link Nat → Link Nat}
    (hi : Inv attaching hand w) (hk : w.client.links[0]? = some k)
    (hl : Linked attaching' (w.client.changeLink 0 g) w.outside.history)
    (hp : (hand' ++ held (g k)).Perm (hand ++ held k)) :
    Inv attaching' hand' (w.on (·.changeLink 0 g)) := by
  refine ⟨hl, hi.ids.relink rfl ?_, hi.lawful, hi.tame⟩
  rw [show (w.on (·.changeLink 0 g)).client.link 0 = g k from
    Client.link_eq (Client.changeLink_same hk), Client.link_eq hk]
  exact hp

section
variable (sound : Sound n h)

include sound

/-! ### Telling -/

/-- **A completion at hand is told.** -/
theorem resolve_keeps (hi : Inv False (id :: hand) w) (ht : Told w.client w.outside.history id r)
    (hs : (w.client.link 0).state = standing w.outside.history)
    (hf : ∀ d s before earlier, w.outside.history = before :: earlier →
      before.event = .signalled (.settled d s) →
      ∃ q ∈ exchanges before.client earlier, q.delivery = d ∧ q.answer = none ∧ q.completion = id)
    (hn : w.outside.moves.length < n) : Keeps False hand w ((Token.client id id).resolve h r) w := by
  have pending : w.client.Pending id := (hi.ids.pending id).2 List.mem_cons_self
  have written : Since w (w.on (·.write id (.settled r))) := .of_link rfl rfl (List.suffix_refl _)
  unfold Keeps Token.resolve
  rw [after_bind, Act.after_settle pending]
  exact (sound.resume id r (hi.tell ht hs hf) hs hn).of (written.trans .noting)

/-- A completion is told while no settlement has just come in. -/
theorem tell_keeps (hi : Inv False (id :: hand) w) (ht : Told w.client w.outside.history id r)
    (hs : Clear w.client w.outside.history) (hn : w.outside.moves.length < n) :
    Keeps False hand w ((Token.client id id).resolve h r) w := by
  refine resolve_keeps sound hi ht hs.state (fun d s before earlier hp hb => ?_) hn
  obtain ⟨_, _⟩ := before
  obtain rfl := hb
  exact absurd ⟨d, s, _, earlier, hp⟩ hs.settled

/-! ### Closure -/

/-- **The exchanges of a link that has closed** are failed one after the other. -/
theorem failAll_keeps {qs : List Sent} (hf : f.kind? = some .protocol)
    (hi : Inv False (qs.map (·.completion) ++ hand) w) (hs : Clear w.client w.outside.history)
    (hq : ∀ q ∈ qs, ∃ q' ∈ exchanges w.client w.outside.history,
      q'.completion = q.completion ∧ q'.answer = some .closed)
    (hn : w.outside.moves.length < n) :
    Keeps False hand w (Link.failAll h f (qs.map Sent.entry)) w := by
  induction qs generalizing w with
  | nil => exact hi.kept (.refl w) hs
  | cons q rest ih =>
    obtain ⟨q', hq', hc, ha⟩ := hq q List.mem_cons_self
    have told : Told w.client w.outside.history q.completion (.failed f) :=
      .answered hq' hc ha (by rw [Sent.verdict_closed]; exact ⟨f, rfl, hf⟩) fun t y _ e => by cases e
    rw [List.map_cons]
    unfold Keeps Link.failAll
    rw [after_bind, request_entry]
    refine (tell_keeps sound hi told hs hn).mono (fun _ w' hk => ?_) fun _ _ => id
    have later : ∀ q ∈ rest, ∃ q' ∈ exchanges w'.client w'.outside.history,
        q'.completion = q.completion ∧ q'.answer = some .closed := by
      intro q hq₂
      obtain ⟨q', hq', hc, ha⟩ := hq q (List.mem_cons_of_mem _ hq₂)
      exact ⟨q', hk.since.answers q' hq' (by rw [ha]; rfl), hc, ha⟩
    exact (ih hk.inv hk.clear later (Nat.lt_of_le_of_lt hk.since.fewer hn)).of hk.since

omit sound in
/-- What the closure of a link leaves of it. -/
def shutDown (k : Link Nat) : Link Nat := { k with state := .closed, opening := none, pending := [] }

omit sound in
theorem Linked.shutDown (hl : Linked attaching x past) (hk : x.links[0]? = some k) :
    Linked False (x.changeLink 0 Link.shutDown) past :=
  hl.relink hk nofun nofun (fun _ => nofun) nofun (fun _ => rfl) (fun e => absurd rfl e) rfl

omit sound in
/-- Closes a link that did not open. -/
def giveUp (k : Link Nat) : Link Nat := { k with state := .closed, opening := none }

/-- **A link did not open,** and whoever waits for that is told. -/
theorem unopened_keeps (hf : f.kind? = some .protocol) (hi : Inv attaching hand w)
    (hk : w.client.links[0]? = some k) (ho : k.opening = some (.client id id))
    (hs : ¬ Settling w.outside.history) (hc : standing w.outside.history = .closed)
    (hn : w.outside.moves.length < n) :
    Keeps False hand (w.on (·.changeLink 0 giveUp)) ((Token.client id id).resolve h (.failed f))
      (w.on (·.changeLink 0 giveUp)) := by
  have before : w.client.link 0 = k := Client.link_eq hk
  obtain ⟨building, i, e, opener⟩ := hi.linked.opening (.client id id) (by rw [before]; exact ho)
  obtain ⟨rfl, -⟩ := Token.client.inj e
  have no_pending : k.pending = [] := by
    have pending := hi.linked.pending
    rw [before, live, hi.linked.unsent building] at pending
    exact pending
  have closing : Inv False (id :: hand) (w.on (·.changeLink 0 giveUp)) := by
    refine hi.relink hk (hi.linked.relink hk (by simp [giveUp]) (by simp [giveUp])
      (fun _ => by simp [giveUp]) (by simp [giveUp]) (fun _ => no_pending) (fun e => absurd rfl e) rfl) ?_
    simpa [held, giveUp, ho, no_pending, Token.completion] using
      (List.perm_append_singleton id hand).symm
  have state : ((w.client.changeLink 0 giveUp).link 0).state = .closed :=
    congrArg Link.state (Client.link_eq (Client.changeLink_same hk))
  have told : Told (w.client.changeLink 0 giveUp) w.outside.history id (.failed f) :=
    .unopened opener state ⟨f, rfl, hf⟩
  exact tell_keeps sound closing told ⟨state.trans hc.symm, hs⟩ hn

/-- **The link closes,** and everyone who waits is told. -/
theorem shut_keeps (hf : f.kind? = some .protocol) (hi : Inv attaching hand w)
    (hs : ¬ Settling w.outside.history) (hc : standing w.outside.history = .closed)
    (hn : w.outside.moves.length < n) :
    After (Link.shut h 0 f) w (fun _ w' => Kept False hand w w' ∧ (w'.client.link 0).state = .closed)
      fun _ _ => False := by
  obtain ⟨k, hk⟩ : ∃ k, w.client.links[0]? = some k := ⟨_, hi.linked.link⟩
  have before : w.client.link 0 = k := Client.link_eq hk
  have held := hi.linked.held
  have pending := hi.linked.pending
  rw [before] at held pending
  unfold Link.shut
  simp only [after_bind, Act.after_link, Act.after_modifyLink, before]
  cases ho : k.opening with
  | none =>
    have listed : (w.on (·.changeLink 0 fun k => { k with
        state := .closed, opening := none })).client.link 0 = { k with
        state := .closed, opening := none } := Client.link_eq (Client.changeLink_same hk)
    have merged : (w.on (·.changeLink 0 fun k => { k with state := .closed, opening := none })).on
        (·.changeLink 0 fun k => { k with pending := [] }) = w.on (·.changeLink 0 shutDown) :=
      on_changeLink
    have link : (w.client.changeLink 0 shutDown).link 0 = shutDown k :=
      Client.link_eq (Client.changeLink_same hk)
    have shut : Inv False ((live w.client w.outside.history).reverse.map (·.completion) ++ hand)
        (w.on (·.changeLink 0 shutDown)) := by
      refine hi.relink hk (hi.linked.shutDown hk) ?_
      rw [held, ho]
      simpa [Link.held, shutDown] using List.perm_append_comm
    have closed : Since w (w.on (·.changeLink 0 shutDown)) :=
      .relink hk (fun _ => rfl) (by simp [shutDown])
    have clear : Clear (w.client.changeLink 0 shutDown) w.outside.history :=
      ⟨(congrArg Link.state link).trans hc.symm, hs⟩
    simp only [after_bind, Act.after_link, Act.after_modifyLink, listed, merged, pending]
    have failed := failAll_keeps sound hf shut clear (fun q hq => ?_) hn
    · exact failed.mono (fun _ _ kept => ⟨kept.of closed, kept.since.closed (congrArg Link.state link)⟩)
        fun _ _ no => no
    refine ⟨q.shut, ?_, rfl, ?_⟩
    · obtain ⟨hq, ha⟩ := answer_of_mem_live (List.mem_reverse.1 hq)
      have open_ : k.state ≠ .closed := by
        intro hc
        have done : q.answer.isSome := answer_shutIf (before ▸ hc) hq
        rw [ha] at done
        cases done
      rw [exchanges, shutIf_open (before ▸ open_)] at hq
      have after : exchanges (w.client.changeLink 0 shutDown) w.outside.history =
          (sent w.outside.history).map Sent.shut := if_pos (congrArg Link.state link)
      exact after ▸ List.mem_map_of_mem hq
    · obtain ⟨-, ha⟩ := answer_of_mem_live (List.mem_reverse.1 hq)
      rw [Sent.shut, ha]
      rfl
  | some token =>
    obtain ⟨-, id, rfl, -⟩ := hi.linked.opening token (by rw [before]; exact ho)
    have closed : Since w (w.on (·.changeLink 0 giveUp)) :=
      .relink hk (fun _ => rfl) (by simp [giveUp])
    rw [after_bind]
    refine (unopened_keeps sound hf hi hk ho hs hc hn).mono (fun _ w' kept => ?_) fun _ _ no => no
    -- Nothing was outstanding, and nothing can have been sent since.
    have still : (w'.client.link 0).state = .closed :=
      kept.since.closed (congrArg Link.state (Client.link_eq (Client.changeLink_same hk)))
    have rest : (w'.client.link 0).pending = [] := kept.inv.linked.pending_closed still
    have same : w'.on (·.changeLink 0 fun k => { k with pending := [] }) = w' := by
      refine World.on_self (Client.changeLink_self fun k' hk' => ?_)
      rw [Client.link_eq hk'] at rest
      rw [← rest]
    simp only [after_bind, Act.after_link, Act.after_modifyLink, rest, same]
    exact ⟨kept.of closed, still⟩

/-! ### Events -/

/-- **The remote closes the link.** -/
theorem closed_keeps {error : Option Condition} (hi : Inv attaching hand w)
    (hs : ¬ Settling w.outside.history) (hc : standing w.outside.history = .closed)
    (hn : w.outside.moves.length < n) :
    Keeps attaching hand w (Link.closed h 0 error) w := by
  obtain ⟨k, hk⟩ : ∃ k, w.client.links[0]? = some k := ⟨_, hi.linked.link⟩
  have before : w.client.link 0 = k := Client.link_eq hk
  unfold Keeps Link.closed
  simp only [after_bind, Act.after_link, before]
  split
  · next closed =>
    exact hi.kept (.refl w) ⟨((congrArg Link.state before).trans closed).trans hc.symm, hs⟩
  · next open_ =>
    have marked : Inv attaching hand (w.on (·.changeLink 0 fun k => { k with closeError := error })) := by
      refine hi.relink hk (hi.linked.relink hk ?_ ?_ ?_ (fun e => e) (fun e => absurd e open_)
        (fun e => ⟨e, rfl⟩) rfl) (.refl _)
      · rw [← before]
        exact hi.linked.opening
      · rw [← before]
        exact hi.linked.sender
      · rw [← before]
        exact hi.linked.attached
    have since : Since w (w.on (·.changeLink 0 fun k => { k with closeError := error })) :=
      .relink hk (fun e => e) fun e => ⟨e, fun o => o⟩
    simp only [after_bind, Act.after_modifyLink]
    exact (shut_keeps sound rfl marked hs hc hn).mono (fun _ _ kept => (kept.1.of since).weaken)
      fun _ _ no => no

/-- **The remote opens the link,** and whoever asked for it is told. -/
theorem opened_keeps (hi : Inv attaching hand w) (hs : ¬ Settling w.outside.history)
    (hc : standing w.outside.history =
      if (w.client.link 0).state = .building then .opened else (w.client.link 0).state)
    (hn : w.outside.moves.length < n) : Keeps attaching hand w (Link.opened h 0) w := by
  obtain ⟨k, hk⟩ : ∃ k, w.client.links[0]? = some k := ⟨_, hi.linked.link⟩
  have before : w.client.link 0 = k := Client.link_eq hk
  rw [before] at hc
  unfold Keeps Link.opened
  simp only [after_bind, Act.after_link, before]
  split
  · next built =>
    rw [if_neg built] at hc
    exact hi.kept (.refl w) ⟨(congrArg Link.state before).trans hc.symm, hs⟩
  · next building =>
    have building : k.state = .building := Decidable.not_not.1 building
    rw [if_pos building] at hc
    have linked : Linked False (w.client.changeLink 0 fun k => { k with
        state := .opened, opening := none }) w.outside.history :=
      hi.linked.relink hk (by simp) (by simp) (fun _ => by simp) (by simp) (by simp)
        (fun _ => ⟨by rw [building]; simp, rfl⟩) rfl
    have since : Since w (w.on (·.changeLink 0 fun k => { k with
        state := .opened, opening := none })) :=
      .relink hk (fun e => by rw [building] at e; cases e) (by simp)
    have link : (w.client.changeLink 0 fun k => { k with state := .opened, opening := none }).link 0 =
        { k with state := .opened, opening := none } := Client.link_eq (Client.changeLink_same hk)
    have clear : Clear (w.client.changeLink 0 fun k => { k with
        state := .opened, opening := none }) w.outside.history :=
      ⟨(congrArg Link.state link).trans hc.symm, hs⟩
    simp only [after_bind, Act.after_modifyLink]
    cases ho : k.opening with
    | none =>
      have opened : Inv False hand (w.on (·.changeLink 0 fun k => { k with
          state := .opened, opening := none })) :=
        hi.relink hk linked (by simp [Link.held, ho])
      exact (opened.kept since clear).weaken
    | some token =>
      obtain ⟨-, id, rfl, opener⟩ := hi.linked.opening token (by rw [before]; exact ho)
      have opened : Inv False (id :: hand) (w.on (·.changeLink 0 fun k => { k with
          state := .opened, opening := none })) := by
        refine hi.relink hk linked ?_
        simpa [Link.held, ho, Token.completion] using List.perm_middle.symm
      have told : Told (w.client.changeLink 0 fun k => { k with state := .opened, opening := none })
          w.outside.history id (.succeeded ()) := .opened opener (congrArg Link.state link) rfl
      exact ((tell_keeps sound opened told clear hn).of since).mono (fun _ _ kept => kept.weaken)
        fun _ _ no => no

/-- **An exchange is told of its settlement,** once the link has let go of it and its transaction has got
its name. -/
theorem settlement_keeps {q : Sent} {s : Settlement} (hi : Inv attaching hand w)
    (hs : Clear w.client w.outside.history) (hq : q ∈ live w.client w.outside.history)
    (hn : w.outside.moves.length < n) (hl : v.client.links = (w.client.changeLink 0 (drop q.delivery)).links)
    (hc : v.client.completions = w.client.completions)
    (ho : v.outside = (noting (.signalled (.settled q.delivery s)) w).outside)
    (hr : r.Fits (Sent.verdict q.operation (.settled s)))
    (hint : ∀ t y, q.operation = .declare t → s = .declared y →
      t < v.client.transactions.size → (v.client.transaction t).hint = y) :
    After ((Token.client q.completion q.completion).resolve h r) v
      (fun _ w' => Kept attaching hand w (noting (.returned (.signal (.settled q.delivery s)) none) w'))
      fun _ _ => False := by
  obtain ⟨sent, unanswered⟩ := answer_of_mem_live hq
  have link : v.client.link 0 = (w.client.changeLink 0 (drop q.delivery)).link 0 := by
    rw [Client.link, hl]
    rfl
  have history : v.outside.history =
      ⟨.signalled (.settled q.delivery s), w.client⟩ :: w.outside.history := congrArg Part.history ho
  have moves : v.outside.moves = w.outside.moves := by
    rw [ho]
    rfl
  have answered : Inv False (q.completion :: hand) v :=
    ((hi.strengthen sent).answer hs hq answers_settled).congr hl hc history (moves ▸ List.suffix_refl _)
  have dropped : Since w ((noting (.signalled (.settled q.delivery s)) w).on
      (·.changeLink 0 (drop q.delivery))) :=
    Since.noting.trans (.relink hi.linked.link (fun e => e) fun e => ⟨e, fun o => o⟩)
  have since : Since w v := dropped.trans (.of_link link history (moves ▸ List.suffix_refl _))
  have same : exchanges v.client v.outside.history =
      exchanges (w.client.changeLink 0 (drop q.delivery))
        (⟨.signalled (.settled q.delivery s), w.client⟩ :: w.outside.history) := by
    rw [history, exchanges, shutIf, link]
    rfl
  have kept : { q with answer := some (.settled s) } ∈ exchanges v.client v.outside.history := by
    rw [same]
    exact mem_answered hq answers_settled
  have told : Told v.client v.outside.history q.completion r :=
    .answered kept rfl rfl hr fun t y e e' => hint t y e (Answer.settled.inj e')
  have stays : (v.client.link 0).state = standing v.outside.history := by
    rw [history, link]
    exact state_drop.trans hs.state
  refine (resolve_keeps sound answered told stays (fun d' s' before earlier hp hb => ?_)
    (moves ▸ hn)).mono (fun _ _ kept => (kept.of since).weaken.returned rfl) fun _ _ no => no
  rw [history] at hp
  obtain ⟨rfl, rfl⟩ := List.cons.inj hp
  obtain ⟨rfl, rfl⟩ := Signal.settled.inj (Event.signalled.inj hb)
  exact ⟨q, sent, rfl, unanswered, rfl⟩

omit sound in
theorem Inv.unsettled {s : Settlement} (hi : Inv attaching hand w)
    (hs : Clear w.client w.outside.history) (hd : ∀ q ∈ live w.client w.outside.history, q.delivery ≠ d) :
    Kept attaching hand w (noting (.returned (.signal (.settled d s)) none)
      (noting (.signalled (.settled d s)) w)) := by
  have ignored : Inv attaching hand (noting (.signalled (.settled d s)) w) :=
    hi.ignored hs hd answers_settled
  refine ⟨ignored.noted trivial ⟨hs.state, fun _ _ e => by cases e; rfl, nofun, nofun,
    fun d' s' before earlier hp hb => .inr ?_⟩, Since.noting.trans .noting, hs.state, not_settling nofun⟩
  obtain ⟨rfl, rfl⟩ := List.cons.inj hp
  obtain ⟨rfl, rfl⟩ := Signal.settled.inj (Event.signalled.inj hb)
  refine ⟨fun q hq e => Option.isSome_iff_ne_none.2 fun ha => ?_, rfl⟩
  exact hd q (List.mem_filter.2 ⟨hq, by rw [ha]; rfl⟩) e

/-- **The remote settles a delivery.** The exchange that waits for it is told, if there is one; what
has come of the settlement is then noted. -/
theorem settled_keeps {s : Settlement} (hi : Inv attaching hand w)
    (hs : Clear w.client w.outside.history) (hn : w.outside.moves.length < n) :
    After (Link.settled h 0 d s) (noting (.signalled (.settled d s)) w)
      (fun _ w' => Kept attaching hand w (noting (.returned (.signal (.settled d s)) none) w'))
      fun _ _ => False := by
  have link : (noting (.signalled (.settled d s)) w).client.link 0 = w.client.link 0 := rfl
  unfold Link.settled
  simp only [after_bind, Act.after_link, link, hi.linked.pending, find_entry]
  cases hf : (live w.client w.outside.history).reverse.find? (·.delivery = d) with
  | none =>
    refine hi.unsettled hs fun q hq => ?_
    simpa using List.find?_eq_none.1 hf q (List.mem_reverse.2 hq)
  | some q =>
    have waiting : q ∈ live w.client w.outside.history :=
      List.mem_reverse.1 (List.mem_of_find?_eq_some hf)
    obtain rfl : q.delivery = d := by simpa using List.find?_some hf
    cases ho : q.operation with
    | establish => exact absurd ho (hi.linked.requested q (answer_of_mem_live waiting).1).2
    | declare t =>
      have entry : q.entry = (q.delivery, ⟨none, t, .client q.completion q.completion⟩) := by
        rw [Sent.entry, ho]
        rfl
      simp only [Option.map_some, entry, after_bind, Act.after_modifyLink, Act.after_transaction]
      split
      · next y =>
        simp only [after_bind, Act.after_setHint]
        refine settlement_keeps sound hi hs waiting hn rfl rfl rfl (ho ▸ fits_declare)
          fun t' y' et es lt => ?_
        obtain rfl := Operation.declare.inj (ho.symm.trans et)
        obtain rfl := Settlement.declared.inj es
        refine Client.hint_writeHint_same ?_
        simpa [World.on, Client.writeHint] using lt
      · next other =>
        exact settlement_keeps sound hi hs waiting hn rfl rfl rfl (ho ▸ fits_declare)
          fun t' y' _ es => absurd es (other y')
    | discharge t commit =>
      have entry : q.entry = (q.delivery, ⟨some commit, t, .client q.completion q.completion⟩) := by
        rw [Sent.entry, ho]
        rfl
      simp only [Option.map_some, entry, after_bind, Act.after_modifyLink, Act.after_transaction]
      exact settlement_keeps sound hi hs waiting hn rfl rfl rfl (ho ▸ fits_discharge)
        fun t' y' e => by rw [ho] at e; cases e

/-- **The link is closed from this side.** While it is detached, the endpoint may raise events. -/
theorem close_keeps (hi : Inv False hand w) (hs : ¬ Settling w.outside.history)
    (hc : standing w.outside.history =
      if (w.client.link 0).sender.isNone then .closed else (w.client.link 0).state)
    (hn : w.outside.moves.length < n) :
    After (Link.close h 0) w
      (fun _ w' => Kept False hand w (noting (.returned (.signal .close) none) w')) fun _ _ => False := by
  have ends {v : State} (kept : Kept False hand w v) (closed : (v.client.link 0).state = .closed) :
      Kept False hand w (noting (.returned (.signal .close) none) v) :=
    kept.returned (closed.symm.trans kept.clear.state)
  unfold Link.close
  simp only [after_bind, Act.after_link]
  split
  · next closed =>
    have stands : standing w.outside.history = .closed := by
      rw [hc, closed, ite_self]
    exact ends (hi.kept (.refl w) ⟨closed.trans stands.symm, hs⟩) closed
  · cases hsender : (w.client.link 0).sender with
    | none =>
      rw [hsender] at hc
      exact (shut_keeps sound rfl hi hs hc hn).mono (fun _ _ shut => ends shut.1 shut.2) fun _ _ no => no
    | some sender =>
      rw [hsender] at hc
      simp only [after_bind]
      refine (sound.detach sender hi ⟨hc.symm, hs⟩ hn).mono ?_ fun _ _ no => no
      rintro _ _ ⟨v, kept, rfl⟩
      have let_go : Inv False hand (noting .detached v) :=
        kept.inv.noted trivial (kept.clear.plain (by simp) (by simp) (by simp))
      exact (shut_keeps sound rfl let_go (not_settling (by simp)) rfl
        (Nat.lt_of_le_of_lt kept.since.fewer hn)).mono
        (fun _ _ shut => ends (shut.1.of (kept.since.trans .noting)) shut.2) fun _ _ no => no

end

end Transact.Link
