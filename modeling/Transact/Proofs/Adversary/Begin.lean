import Transact.Proofs.Adversary.Telling

/-! # Beginning a transaction

A begin declares the transaction on the coordinator link, or builds a link first.

* `Ground.sent`: what holds when a request is handed over.
* `begin_keeps`: the invariant holds after a begin. -/

namespace Transact

/-- Of the completions of a token only the one that is told in the end was ever handed over. -/
structure Token.Known (q : Token Nat) (past : List Adversary.Entry) : Prop where
  plain : q.Plain
  handed : ∀ i ∈ q.ids, i ∈ Adversary.handed past → i = q.completion

namespace Adversary

open Run Player

variable {how : Manners} {n : Nat} {h : Surroundings} {p p' : Phase Nat} {co : Option Nat}
  {hand : List Nat} {w v : State} {q : Token Nat} {t : Nat}

/-- **A request is handed over.** -/
theorem Ground.sent {l d : Nat} {r : Request} (hi : Ground how p co hand w) (hs : p.slot = none)
    (hs' : p'.slot = some (l, d)) (hg : w.client.Grows v.client) (ho : v.outside = w.outside)
    (ht : At whole p' (some l) v.client) (hids : Ids how.Tame p' [] v.client w.outside.history)
    (hst : Standing p' (some l) (⟨l, d, r, none⟩ :: requests w.outside.history))
    (hu : Underway p' (begun (⟨.sent l d r, v.client⟩ :: w.outside.history)))
    (hd : ∀ y fail, r = .discharge y fail → ∃ d', (requests w.outside.history).head? =
      some ⟨l, d', .declare, some (.settled (.declared (some y)))⟩)
    (hp : ∀ y, r = .discharge y false → Prepared w.outside.history) :
    Ground how p' (some l) [] (noting (.sent l d r) v) := by
  obtain ⟨-, k, hk, hopen, hkd⟩ := ht.slot l d hs'
  have handed : HandedOver l r v.client w.outside.history := by
    refine ⟨⟨k, hk, hopen⟩, fun i hm hl => ?_, fun y fail e => ?_, hp⟩
    · cases hn : i.answer with
      | some a => rfl
      | none =>
        have closed := hg.closed ((hi.traffic.answered i hm hn).resolve_left (by simp [hs]))
        obtain ⟨k', hk', hc⟩ := hl ▸ closed
        obtain rfl : k = k' := Option.some.inj (hk.symm.trans hk')
        exact absurd (hopen.symm.trans hc) (by decide)
    · obtain ⟨d', e⟩ := hd y fail e
      cases hR : requests w.outside.history with
      | nil => simp [hR] at e
      | cons i R =>
        obtain rfl : i = _ := by simpa [hR] using e
        exact ⟨d', by simp⟩
  have past : (noting (.sent l d r) v).outside.history =
      ⟨.sent l d r, v.client⟩ :: w.outside.history := by
    rw [← ho]
    rfl
  refine ⟨ht, ?_, ?_, ?_, ?_, ?_⟩
  · rw [past]
    exact hids.congr rfl rfl rfl rfl rfl rfl
  · rw [past]
    exact hi.traffic.sent hg hs hs' ⟨k, hk, hkd⟩ hst hu
  · rw [past]
    exact .cons ⟨alone_of_at ht, handed⟩ hi.lawful
  · rw [past]
    exact .cons (.other (fun _ _ e => by cases e) rfl) hi.founded
  · show ∀ m ∈ v.outside.moves, _
    rw [ho]
    exact hi.moves

/-- From `w` to `v` the link `l` has become, or has been, an open link with nothing outstanding, and
the other links are the same. -/
structure Ready (w v : State) (l : Nat) (k : Link Nat) : Prop where
  before : ∃ m, w.client.links[l]? = some m ∧ m.state ≠ .closed ∧ k.sender = m.sender ∧
    k.nextDelivery = m.nextDelivery
  after : v.client.links[l]? = some k
  opened : k.state = .opened
  opening : k.opening = none
  pending : k.pending = []
  others : ∀ i, i ≠ l → v.client.links[i]? = w.client.links[i]?
  settled : ∀ id, w.client.Settled id → v.client.Settled id
  outside : v.outside = w.outside

theorem Ready.grows {l : Nat} {k : Link Nat} (hr : Ready w v l k) {g : Link Nat → Link Nat}
    (hd : k.nextDelivery ≤ (g k).nextDelivery) :
    w.client.Grows (v.client.changeLink l g) := by
  obtain ⟨m, hm, hn, -, hd'⟩ := hr.before
  refine ⟨hr.settled, fun i m' hm' => ?_⟩
  by_cases hil : i = l
  · subst hil
    obtain rfl : m = m' := Option.some.inj (hm.symm.trans hm')
    exact ⟨_, Client.changeLink_same hr.after, fun e => absurd e hn, by omega⟩
  · exact ⟨m', (Client.changeLink_other hil).trans ((hr.others i hil).trans hm'), fun e => e,
      Nat.le_refl _⟩

/-! ### A new link -/

/-- A link was added for a begin, with a completion for its declare and one for the link to open. -/
def adding (name : String) (x : Client Nat) : Client Nat :=
  ((((x.changeContext 0 fun x => { x with stage := .declaring }).addCompletion).changeContext 0
    fun x => { x with linksBuilt := x.linksBuilt + 1 }).addLink name).addCompletion

/-- The phase of a begin that waits for such a link, as long as the link is building. -/
def awaiting (x : Client Nat) (t : Nat) (q : Token Nat) (link : Option Nat) : Phase Nat :=
  .opening link t (x.completions.size + 1) x.completions.size q

/-- What such a link has to tell once it opens. -/
def opener (x : Client Nat) (t : Nat) (q : Token Nat) : Token Nat :=
  .opening (x.completions.size + 1) 0 t x.links.size (.declaring x.completions.size 0 t q) q

section Adding

variable {x : Client Nat} {name : String} {i : Nat} {link : Option Nat} {f : Link Nat → Link Nat}

theorem adding_new : (adding name x).links[x.links.size]? = some { name } := Client.addLink_new

theorem adding_old (hne : i ≠ x.links.size) : (adding name x).links[i]? = x.links[i]? :=
  Client.addLink_old hne

theorem adding_context {c : Context} (hc : x.contexts[0]? = some c) :
    ((adding name x).changeLink x.links.size f).contexts[0]? =
      some { c with stage := .declaring, linksBuilt := c.linksBuilt + 1 } :=
  Client.changeContext_same (x := (x.changeContext 0 _).addCompletion)
    (f := fun x => { x with linksBuilt := x.linksBuilt + 1 })
    (Client.changeContext_same (f := fun x => { x with stage := .declaring }) hc)

theorem grows_adding : x.Grows ((adding name x).changeLink x.links.size f) := by
  refine ⟨fun i hm => ?_, fun i k hk => ?_⟩
  · exact Client.Grows.addCompletion.settled i (Client.Grows.addCompletion.settled i hm)
  · have ne : i ≠ x.links.size := Nat.ne_of_lt (Array.getElem?_eq_some_iff.1 hk).1
    exact ⟨k, (Client.changeLink_other ne).trans ((adding_old ne).trans hk), id, Nat.le_refl _⟩

theorem grows_of {y : Client Nat} (h : y = (adding name x).changeLink x.links.size f) : x.Grows y :=
  h ▸ grows_adding

theorem alone_adding (h : At whole .idle co x) (hco : ∀ i, co = some i → x.Closed i) :
    Alone ((adding name x).changeLink x.links.size f) := by
  have new {i : Nat} {k : Link Nat}
      (hk : ((adding name x).changeLink x.links.size f).links[i]? = some k)
      (hn : k.state ≠ .closed) : i = x.links.size := by
    refine Decidable.byContradiction fun hne => ?_
    rw [Client.changeLink_other hne, adding_old hne] at hk
    rcases h.open_or_building trivial hk hn with ⟨-, rfl⟩ | ⟨-, e⟩
    · obtain ⟨k', hk', closed⟩ := hco i rfl
      obtain rfl : k = k' := Option.some.inj (hk.symm.trans hk')
      exact hn closed
    · cases e
  intro i j k k' hk hk' hn hn'
  exact (new hk hn).trans (new hk' hn').symm

theorem at_adding {m : Link Nat} (h : At whole .idle co x) (hco : ∀ i, co = some i → x.Closed i)
    (hm : f { name } = m) (hl : ∀ i, link = some i → i = x.links.size ∧ m.state = .building)
    (hat : LinkAt whole (awaiting x t q link) co x.links.size m) :
    At whole (awaiting x t q link) co ((adding name x).changeLink x.links.size f) := by
  obtain ⟨c, hc, hc'⟩ := h.context
  refine h.build ⟨rfl, rfl⟩ hco ⟨rfl, fun i => by simp [whole]⟩ rfl hl rfl
    (by rw [Client.changeLink_same adding_new, hm])
    (fun i hne => (Client.changeLink_other hne).trans (adding_old hne)) hat (fun e => ?_)
    (adding_context hc) ⟨rfl, hc'.current, hc'.accepted, hc'.enrolled, hc'.coordinator⟩
  obtain ⟨k, hk, -⟩ := hco _ e
  exact Nat.lt_irrefl _ (Array.getElem?_eq_some_iff.1 hk).1

theorem ids_adding {tame : Prop} {past : List Entry} (h : Ids tame .idle q.ids x past)
    (hq : q.Known past) : Ids tame (awaiting x t q link) [] (adding name x) past := by
  have size : x.addCompletion.completions.size = x.completions.size + 1 := Array.size_push _
  have two := h.add.add
  rw [size] at two
  refine (two.takeUp [x.completions.size + 1, x.completions.size] rfl rfl rfl rfl
    hq.plain hq.handed (by simp) fun i hm => ?_).congr rfl rfl rfl rfl rfl rfl
  have new : i = x.completions.size + 1 ∨ i = x.completions.size := by simpa using hm
  refine ⟨?_, fun hh => ?_⟩
  · rw [Client.pending_addCompletion, Client.pending_addCompletion, size]
    omega
  · have := h.handed_lt i hh
    omega

end Adding

section Building

variable {name : String} {link : Option Nat} {f : Link Nat → Link Nat} (hq : q.Known w.outside.history)
  (hi : Inv how .idle co q.ids w) (hb : (begun w.outside.history).map (·.transaction) = some t)
  (clear : course w.outside.history = {}) (hco : ∀ i, co = some i → w.client.Closed i)

include hq hi hb clear

theorem inv_adding {m : Link Nat} (hm : f { name } = m)
    (hl : ∀ i, link = some i → i = w.client.links.size ∧ m.state = .building)
    (hat : LinkAt whole (awaiting w.client t q link) co w.client.links.size m)
    (hco : ∀ i, co = some i → w.client.Closed i) (hw : Quietly w v)
    (hc : v.client = (adding name w.client).changeLink w.client.links.size f)
    (same : course v.outside.history = course w.outside.history) :
    Inv how (awaiting w.client t q link) co [] v := by
  refine hi.step hw (hc ▸ at_adding hi.tables hco hm hl hat) ?_ ?_ fun civil => ⟨same.trans clear, ?_⟩
  · rw [hc]
    exact (ids_adding hi.ids hq).congr rfl rfl rfl rfl rfl rfl
  · rw [hc]
    have waiting : Traffic (awaiting w.client t q link) co w.client w.outside.history :=
      hi.traffic.relabel _ rfl trivial hb
    exact waiting.grow grows_adding rfl rfl
  · obtain ⟨c, hcon, -⟩ := hi.context
    have registry := (hi.fits civil).registry rfl
    rw [Client.context_eq hcon] at registry
    rw [hc, Client.context_eq (adding_context hcon)]
    exact registry

end Building

variable (sound : Sound how n h)

include sound

/-- **A request is handed over in the phase `p`,** which becomes `p'` by that. -/
theorem transmit_from (p' : Phase Nat) {l : Nat} {k : Link Nat} {e : Exchange Nat} {r : Request}
    {c : Context} (hi : Ground how p co hand w) (hs : p.slot = none) (ht : p.ticket = none)
    (hb : ∀ i, p.building = some i → i = l)
    (hco : ∀ i, co = some i → i = l ∨ w.client.Closed i) (hr : Ready w v l k)
    (hs' : p'.slot = some (l, k.nextDelivery)) (he : p'.exchange 0 = some e) (hf : p'.Firm)
    (hc : v.client.contexts[0]? = some c) (hc' : ContextAt p' (some l) c)
    (hh : ∀ t y, p'.bound = some (t, y) → (v.client.transaction t).hint = some y)
    (hids : Ids how.Tame p' [] v.client w.outside.history)
    (hst : Standing p' (some l) (⟨l, k.nextDelivery, r, none⟩ :: requests w.outside.history))
    (hu : ∀ x, Underway p' (begun (⟨.sent l k.nextDelivery r, x⟩ :: w.outside.history)))
    (hd : ∀ y fail, r = .discharge y fail → ∃ d', (requests w.outside.history).head? =
      some ⟨l, d', .declare, some (.settled (.declared (some y)))⟩)
    (hp : ∀ y, r = .discharge y false → Prepared w.outside.history)
    (fits : how.Civil → ∀ x : Client Nat, x.contexts = v.client.contexts →
      (course (⟨.sent l k.nextDelivery r, x⟩ :: w.outside.history)).Fits (some l) x p')
    (hn : w.outside.moves.length < n) :
    Keeps how p w (Link.transmit h l r e fun f => e.request.resolve h (.failed f)) v := by
  obtain ⟨m, hm, hmn, hms, hmd⟩ := hr.before
  obtain ⟨s, hsender, hside⟩ := (hi.tables.link l m trivial hm).sender hmn
  rw [show s = l from hside] at hsender
  obtain ⟨e', he', hpe⟩ := Phase.pendingAt_slot (c := 0) hs'
  obtain rfl : e = e' := Option.some.inj (he.symm.trans he')
  have grows := hr.grows (g := fun k' => { k' with
    nextDelivery := k.nextDelivery + 1
    pending := k'.pending ++ [(k.nextDelivery, e)] }) (Nat.le_succ _)
  refine transmit_keeps sound hr.after hr.opened (hms.trans hsender) hs' he (fun _ => hf) rfl
    ⟨hi.sent hs hs' grows hr.outside ?_ (hids.congr rfl rfl rfl rfl rfl rfl) hst (hu _) hd hp, ?_⟩
    ?_ (hr.outside ▸ hn)
  · refine hi.tables.handOver hs hb hco hs' trivial (m := m)
      ⟨hm, Client.changeLink_same hr.after, fun i hne => ?_⟩ hmn hr.opened hr.opening ?_
      (Nat.lt_succ_self _) hms (k := c) hc hc' hh
    · exact (Client.changeLink_other hne).trans (hr.others i hne)
    · rw [hr.pending]
      exact hpe.symm
  · intro civil
    show (course (⟨_, _⟩ :: v.outside.history)).Fits _ _ _
    rw [hr.outside]
    exact fits civil _ rfl
  · refine ⟨?_, grows, .inr (.inr fun id e => by simp [ht] at e), fun i d e => .inr fun k' hk' => ?_⟩
    · show v.outside.moves <:+ w.outside.moves
      exact hr.outside ▸ List.suffix_refl _
    · obtain ⟨rfl, rfl⟩ : l = i ∧ k.nextDelivery = d := by simpa using hs'.symm.trans e
      obtain rfl : m = k' := Option.some.inj (hm.symm.trans hk')
      omega

theorem declare_keeps {l : Nat} {k : Link Nat} (hq : q.Known w.outside.history)
    (hi : Inv how .idle (some l) q.ids w)
    (hb : (begun w.outside.history).map (·.transaction) = some t)
    (clear : course w.outside.history = {})
    (hk : w.client.links[l]? = some k) (ho : k.state = .opened)
    (hv : v = (w.on (·.changeContext 0 fun x => { x with stage := .declaring })).on
      (·.addCompletion))
    (hn : w.outside.moves.length < n) :
    Keeps how .idle w (Link.declare h l t (.declaring w.client.completions.size 0 t q)) v := by
  subst hv
  have hl := hi.tables.link l k trivial hk
  obtain ⟨c, hc, hc'⟩ := hi.context
  refine transmit_from sound
    (.declaring (some (l, k.nextDelivery)) t w.client.completions.size q)
    (c := { c with stage := .declaring }) hi.toGround rfl rfl (fun _ e => by cases e)
    (fun i e => .inl (Option.some.inj e).symm) ?_ rfl rfl trivial (Client.changeContext_same hc)
    ⟨rfl, hc'.current, hc'.accepted, hc'.enrolled, hc'.coordinator⟩
    (fun _ _ e => by cases e) ?_ rfl (fun x => ?_) (fun _ _ e => by cases e) (fun _ e => by cases e)
    (fun civil x hx => ⟨clear, ?_⟩) hn
  · exact ⟨⟨k, hk, by simp [ho], rfl, rfl⟩, hk, ho, hl.opening, hl.pending, fun _ _ => rfl,
      Client.Grows.addCompletion.settled, rfl⟩
  · refine (hi.ids.add.takeUp [w.client.completions.size] rfl rfl rfl rfl hq.plain
      hq.handed (by simp) fun i hm => ?_).congr rfl rfl rfl rfl rfl rfl
    obtain rfl := List.mem_singleton.1 hm
    exact ⟨Client.pending_addCompletion.2 (.inr rfl), fun hm => Nat.lt_irrefl _ (hi.ids.handed_lt _ hm)⟩
  · show (begun w.outside.history).map _ = _
    cases e : begun w.outside.history with
    | none => simp [e] at hb
    | some b =>
      obtain rfl : b.transaction = t := by simpa [e] using hb
      rfl
  · have registry := (hi.fits civil).registry rfl
    rw [Client.context_eq hc] at registry
    rw [Client.context_eq (k := { c with stage := .declaring }) (hx ▸ Client.changeContext_same hc)]
    exact registry

section Establishing

variable {name : String} (hq : q.Known w.outside.history)
  (hi : Inv how .idle co q.ids w) (hb : (begun w.outside.history).map (·.transaction) = some t)
  (clear : course w.outside.history = {}) (hco : ∀ i, co = some i → w.client.Closed i)
  (hv : v = (w.on (adding name)).on (·.changeLink w.client.links.size fun k => { k with
    opening := some (opener w.client t q) }))

include hq hi hb clear hco hv

omit sound in
theorem attached_keeps {w₁ : State} (hw : Noted [.attached w.client.links.size name] v w₁) :
    Kept how .idle w (w₁.on (·.changeLink w.client.links.size fun k => { k with
      sender := some w.client.links.size })) := by
  subst hv
  have quiet : Quietly w (w₁.on (·.changeLink w.client.links.size fun k => { k with
      sender := some w.client.links.size })) := by
    refine .on (.trans (((Quietly.refl w).on _).on _) (hw.quietly (alone_adding hi.tables hco) ?_)) _
    exact List.forall_mem_singleton.2 ⟨trivial, trivial⟩
  have client := (congrArg (·.changeLink w.client.links.size fun k => { k with
    sender := some w.client.links.size }) hw.client).trans Client.changeLink_changeLink
  have same : course w₁.outside.history = course w.outside.history := by
    rw [hw.history]
    rfl
  refine ⟨awaiting w.client t q (some w.client.links.size), co, fun _ => trivial,
    inv_adding hq hi hb clear rfl (fun i e => ⟨(Option.some.inj e).symm, rfl⟩) ?_ hco quiet client same,
    .still quiet.moves (grows_of client) (fun _ e => by cases e) rfl⟩
  exact ⟨(if_pos rfl).symm, rfl, fun _ => rfl, fun e => (by cases e), fun _ => ⟨_, rfl, rfl⟩⟩

/-- The endpoint has refused the new link. Nobody is told if what it raised cannot be reported. -/
theorem refused_keeps {w₁ : State} {f : Failure} (hf : how.Civil → f.isReportable)
    (hw : Noted [] v w₁) (hn : w.outside.moves.length < n) :
    After (Run.convert f >>= fun g =>
        (opener w.client t q).resolve h (.failed ((Problem.attachFailed name).toFailure g)))
      (w₁.on (·.changeLink w.client.links.size fun k => { k with opening := none, state := .closed }))
      (fun _ w' => Kept how .idle w w') (Broken how .idle w) := by
  subst hv
  have quiet : Quietly w (w₁.on (·.changeLink w.client.links.size fun k => { k with
      opening := none, state := .closed })) :=
    .on (.trans (((Quietly.refl w).on _).on _) (hw.quietly (alone_adding hi.tables hco) (by simp))) _
  have client := (congrArg (·.changeLink w.client.links.size fun k => { k with
    opening := none, state := .closed }) hw.client).trans Client.changeLink_changeLink
  have same : course w₁.outside.history = course w.outside.history := congrArg course hw.history
  have refused : Inv how (awaiting w.client t q none) co [] _ :=
    inv_adding hq hi hb clear rfl (fun i e => by cases e)
      ⟨(Phase.openingAt_of_ne fun e => by cases e).symm, rfl, fun e => (by cases e),
        fun e => (by cases e), fun e => absurd rfl e⟩ hco quiet client same
  have since : Since .idle w (awaiting w.client t q none) _ :=
    .still quiet.moves (grows_of client) (fun _ e => by cases e) rfl
  rw [after_bind]
  exact convert_keeps hf (fun wild => ⟨_, co, fun civil => absurd civil wild, refused, since⟩) fun g =>
    (resolve_opening sound refused (fun e => by cases e)
      (Nat.lt_of_le_of_lt quiet.moves.length_le hn)).of since

end Establishing

/-- A begin that builds a link, which the endpoint may refuse. -/
theorem establish_keeps {l openId : Nat} (hl : l = w.client.links.size)
    (ho : openId = w.client.completions.size + 1) (hq : q.Known w.outside.history)
    (hi : Inv how .idle co q.ids w)
    (hb : (begun w.outside.history).map (·.transaction) = some t)
    (clear : course w.outside.history = {})
    (hco : ∀ i, co = some i → w.client.Closed i) (hv : ∃ name, v = w.on (adding name))
    (hn : w.outside.moves.length < n) :
    Keeps how .idle w (Link.establish h l (.opening openId 0 t l
      (.declaring w.client.completions.size 0 t q) q)) v := by
  obtain ⟨name, rfl⟩ := hv
  subst hl ho
  unfold Keeps Link.establish
  simp only [after_bind, Act.after_link]
  rw [show (w.on (adding name)).client.link w.client.links.size = { name } from
    Client.link_eq adding_new]
  simp only [Option.isSome_none, Bool.false_or, ne_eq, not_true_eq_false, decide_false,
    Bool.false_eq_true, if_false, after_bind, Act.after_modifyLink, after_attempt]
  have attached := sound.attach ((w.on (adding name)).on (·.changeLink w.client.links.size fun k =>
    { k with opening := some (opener w.client t q) })) name w.client.links.size hi.moves hn
  refine attached.mono ?_ ?_
  · rintro _ w₁ ⟨rfl, hw₁⟩
    exact attached_keeps hq hi hb clear hco rfl hw₁
  · rintro _ w₁ ⟨f, rfl, hf, hw₁⟩
    exact after_bind.1 (refused_keeps sound hq hi hb clear hco rfl hf hw₁ hn)

/-- **The invariant holds after a begin.** -/
theorem begin_keeps (hq : q.Known w.outside.history) (hf : how.Civil → p.Firm)
    (hi : Inv how p co q.ids w) (hb : p = .idle → (begun w.outside.history).map (·.transaction) = some t)
    (clear : p = .idle → course w.outside.history = {})
    (blame : (w.client.context 0).stage ≠ .idle →
      ∃ e earlier, w.outside.history = e :: earlier ∧ e.Refuses q.completion)
    (hn : w.outside.moves.length < n) : Keeps how p w (Context.begin h 0 t q) w := by
  obtain ⟨c, hc, hc'⟩ := hi.context
  unfold Keeps Context.begin
  simp only [after_bind, Act.after_context, Client.context_eq hc]
  split
  · next hstage =>
    refine resolve_plain sound hq.plain hf hi (.inr (blame ?_)) hn
    rw [Client.context_eq hc]
    exact hstage
  · next hstage =>
    obtain rfl : p = .idle := by
      have : p.stage = .idle := by simpa [hc'.stage] using hstage
      cases p <;> first | rfl | cases this
    simp only [after_bind, Act.after_modifyContext, Act.after_newCompletion, Act.after_usableLink]
    obtain ⟨v, hv⟩ : ∃ v, v = (w.on (·.changeContext 0 fun x => { x with
      stage := .declaring })).on (·.addCompletion) := ⟨_, rfl⟩
    have hv' : v.client.contexts[0]? = some { c with stage := .declaring } := by
      rw [hv]
      exact Client.changeContext_same hc
    rw [← hv, Client.context_eq hv', show ({ c with stage := .declaring } : Context).coordinator = co
      from hc'.coordinator]
    rcases hi.usable with ⟨l, k, rfl, hk, ho⟩ | closed
    · have hk' : v.client.links[l]? = some k := by
        rw [hv]
        exact hk
      simp only [Option.bind_some, Client.link_eq hk', ho]
      exact declare_keeps sound hq hi (hb rfl) (clear rfl) hk ho hv hn
    · have unusable : (co.bind fun l => if (v.client.link l).state = .closed then none else some l) =
          none := by
        refine Option.bind_eq_none_iff.2 fun l e => if_pos ?_
        obtain ⟨k, hk, hcl⟩ := closed l e
        have hk' : v.client.links[l]? = some k := by
          rw [hv]
          exact hk
        rw [Client.link_eq hk', hcl]
      rw [unusable]
      simp only [after_bind, Act.after_modifyContext, Act.after_context, Act.after_newLink,
        Act.after_newCompletion]
      subst hv
      refine establish_keeps sound ?_ (Array.size_push _) hq hi (hb rfl) (clear rfl) closed ⟨_, rfl⟩ hn
      rfl

end Adversary

end Transact
