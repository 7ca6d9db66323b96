import Transact.Proofs.Link.Invariant

/-! # One change of a link at a time

The changes that a link makes while it has control, and what each does to the invariant.

* `Inv.noted`, `Inv.requested`: something is noted.
* `Inv.tell`: a completion at hand is told.
* `Inv.relink`: the link changes, and lets go of completions. -/

namespace Transact.Link

open Run Player

variable {attaching attaching' : Prop} {hand hand' : List Nat} {w w' v : State} {x x' : Client Nat}
  {past past' : List Entry} {e : Event} {id : Nat} {r : Resolution Unit} {f : Link Nat → Link Nat}
  {k : Link Nat} {d : Nat} {q : Sent} {o : Operation}

/-! ### Histories -/

/-- Nothing is to be seen at an entry but the state of the link. -/
theorem Clear.plain (hc : Clear x past) (hr : ∀ c failure, e = .returned c failure → failure = none)
    (hs : ∀ d r, e ≠ .sent d r) (ht : ∀ id r, e ≠ .resolved id r) : Entry.Good ⟨e, x⟩ past where
  state := hc.state
  returned c failure he := hr c failure he
  sent d r he := absurd he (hs d r)
  told id r he := absurd he (ht id r)
  follows d s before earlier hp hb := by
    obtain ⟨_, _⟩ := before
    obtain rfl := hb
    exact absurd ⟨d, s, _, earlier, hp⟩ hc.settled

theorem not_settling (h : ∀ d s, e ≠ .signalled (.settled d s)) : ¬ Settling (⟨e, x⟩ :: past) := by
  rintro ⟨d, s, x', earlier, hp⟩
  exact h d s (Entry.mk.inj (List.cons.inj hp).1).1

theorem Clear.noted (hc : Clear x past) (hs : ∀ d s, e ≠ .signalled (.settled d s))
    (same : standing (⟨e, x⟩ :: past) = standing past) : Clear x (⟨e, x⟩ :: past) :=
  ⟨hc.state.trans same.symm, not_settling hs⟩

theorem mem_exchanges (hq : q ∈ exchanges x past) (ha : q.answer.isSome) :
    q ∈ exchanges x (⟨e, x⟩ :: past) := by
  refine mem_shutIf_of_answer ?_ ha
  have answered {d : Nat} {a : Answer} : q ∈ (shutIf x (sent past)).map (·.answered d a) :=
    List.mem_map.2 ⟨q, hq, Sent.answered_of_answer ha⟩
  cases e with
  | sent => exact List.mem_append_right _ hq
  | refused => exact answered
  | signalled s =>
    cases s with
    | settled => exact answered
    | _ => exact hq
  | _ => exact hq

theorem answer_of_mem_live (h : q ∈ live x past) : q ∈ exchanges x past ∧ q.answer = none := by
  obtain ⟨hq, ha⟩ := List.mem_filter.1 h
  exact ⟨hq, by simpa using ha⟩

theorem live_eq_nil (h : (x.link 0).state = .closed) : live x past = [] := by
  refine List.filter_eq_nil_iff.2 fun q hq => ?_
  have done : q.answer.isSome := answer_shutIf h hq
  rw [Option.isSome_iff_ne_none] at done
  simp [done]

/-! ### Going on -/

namespace Since

theorem refl (w : State) : Since w w :=
  ⟨.refl w, id, fun h => ⟨h, id⟩, fun _ hq _ => hq⟩

theorem trans (h : Since v w) (h' : Since w w') : Since v w' where
  toOnward := h.toOnward.trans h'.toOnward
  closed hc := h'.closed (h.closed hc)
  building hb := by
    obtain ⟨hb', ho'⟩ := h'.building hb
    obtain ⟨hb'', ho⟩ := h.building hb'
    exact ⟨hb'', fun hs => ho' (ho hs)⟩
  answers q hq ha := h'.answers q (h.answers q hq ha) ha

theorem noting : Since w (noting e w) :=
  ⟨.noting, id, fun h => ⟨h, id⟩, fun _ hq ha => mem_exchanges hq ha⟩

theorem of_link (hl : w'.client.link 0 = w.client.link 0)
    (hh : w'.outside.history = w.outside.history)
    (hm : w'.outside.moves <:+ w.outside.moves) : Since w w' where
  moves := hm
  history := by
    show w.outside.history <:+ w'.outside.history
    rw [hh]
  closed := by
    rw [hl]
    exact id
  building := by
    rw [hl]
    exact fun h => ⟨h, id⟩
  answers q hq _ := by
    rw [exchanges, shutIf, hl, hh]
    exact hq

theorem of_unmoved (h : Unmoved w w') : Since w w' :=
  .of_link (congrArg (Client.link · 0) h.client) h.history h.moves

theorem relink (hk : w.client.links[0]? = some k) (hc : k.state = .closed → (f k).state = .closed)
    (hb : (f k).state = .building → k.state = .building ∧ (k.opening.isSome → (f k).opening.isSome)) :
    Since w (w.on (·.changeLink 0 f)) := by
  have before : w.client.link 0 = k := Client.link_eq hk
  have after : (w.client.changeLink 0 f).link 0 = f k := Client.link_eq (Client.changeLink_same hk)
  refine ⟨⟨List.suffix_refl _, List.suffix_refl _⟩, fun h => ?_, fun h => ?_, fun q hq ha => ?_⟩
  · rw [before] at h
    exact (congrArg Link.state after).trans (hc h)
  · rw [before]
    obtain ⟨hs, ho⟩ := hb ((congrArg Link.state after).symm.trans h)
    refine ⟨hs, fun h => ?_⟩
    rw [show (w.on (·.changeLink 0 f)).client.link 0 = f k from after]
    exact ho h
  · by_cases hs : k.state = .closed
    · have closed : ((w.client.changeLink 0 f).link 0).state = .closed :=
        (congrArg Link.state after).trans (hc hs)
      rw [exchanges, shutIf, if_pos (by rw [before]; exact hs)] at hq
      have shut : exchanges (w.on (·.changeLink 0 f)).client w.outside.history =
          (sent w.outside.history).map Sent.shut := if_pos closed
      exact shut ▸ hq
    · rw [exchanges, shutIf_open (by rw [before]; exact hs)] at hq
      exact mem_shutIf_of_answer hq ha

end Since

/-! ### Notes -/

theorem Linked.congr (h : Linked attaching x past) (hl : x'.links = x.links)
    (hx : exchanges x' past' = exchanges x past) (ho : opener past' = opener past)
    (ha : ∀ p ∈ asked past, p ∈ asked past') : Linked attaching x' past' := by
  have link : x'.link 0 = x.link 0 := by rw [Client.link, Client.link, hl]
  constructor
  · rw [hl, link]
    exact h.link
  · rw [link, ho]
    exact h.opening
  · rw [link]
    exact h.sender
  · rw [link, ho]
    exact h.attached
  · rw [link, live, hx]
    exact h.pending
  · rw [link, hx]
    exact h.unsent
  · rw [link, hx]
    exact h.next
  · rw [hx]
    exact h.numbers
  · rw [hx]
    exact fun q hq => ⟨ha _ (h.requested q hq).1, (h.requested q hq).2⟩
  · rw [hx]
    exact h.single

theorem Ids.congr (h : Ids hand x past) (ha : asked past' = asked past)
    (ht : told past' = told past) : Ids hand x past' where
  pending := h.pending
  nodup := h.nodup
  handed := ha ▸ h.handed
  settled := ht ▸ h.settled
  once := ht ▸ h.once

theorem Inv.congr (h : Inv attaching hand w) (hl : w'.client.links = w.client.links)
    (hc : w'.client.completions = w.client.completions)
    (hh : w'.outside.history = w.outside.history) (hm : w'.outside.moves <:+ w.outside.moves) :
    Inv attaching hand w' := by
  obtain ⟨⟨_, _, _, _, _⟩, ⟨_, _⟩⟩ := w
  obtain ⟨⟨_, _, _, _, _⟩, ⟨_, _⟩⟩ := w'
  dsimp only at hl hc hh
  subst hl hc hh
  exact ⟨h.linked.congr rfl rfl rfl fun _ => id,
    ⟨h.ids.pending, h.ids.nodup, h.ids.handed, h.ids.settled, h.ids.once⟩, h.lawful,
    fun m mem => h.tame m (hm.subset mem)⟩

theorem Inv.unmoved (h : Inv attaching hand w) (hw : Unmoved w w') : Inv attaching hand w' :=
  h.congr (by rw [hw.client]) (by rw [hw.client]) hw.history hw.moves

theorem Inv.noted (h : Inv attaching hand w) (he : e.Mute)
    (hg : Entry.Good ⟨e, w.client⟩ w.outside.history) : Inv attaching hand (noting e w) := by
  have asked' : asked (noting e w).outside.history = asked w.outside.history := asked_mute he
  refine ⟨h.linked.congr rfl (exchanges_of_sent (sent_mute he)) (opener_mute he) ?_,
    h.ids.congr asked' (told_mute he), .cons hg h.lawful, h.tame⟩
  rw [asked']
  exact fun _ => id

theorem Told.congr (h : Told x past id r) (hl : x'.links = x.links)
    (ht : x'.transactions = x.transactions) : Told x' past id r := by
  obtain ⟨_, _, _, _, _⟩ := x
  obtain ⟨_, _, _, _, _⟩ := x'
  dsimp only at hl ht
  subst hl ht
  cases h with
  | opened ho hs hr => exact .opened ho hs hr
  | unopened ho hs hr => exact .unopened ho hs hr
  | attached ha ho hs hr => exact .attached ha ho hs hr
  | undeclared ha hq hn hr => exact .undeclared ha hq hn hr
  | unsent ha ho hq hn hs hr => exact .unsent ha ho hq hn hs hr
  | answered hq hid ha hr hint => exact .answered hq hid ha hr hint

/-- **A completion at hand is told** what there is to tell. -/
theorem Inv.tell (h : Inv attaching (id :: hand) w) (ht : Told w.client w.outside.history id r)
    (hs : (w.client.link 0).state = standing w.outside.history)
    (hf : ∀ d s before earlier, w.outside.history = before :: earlier →
      before.event = .signalled (.settled d s) →
      ∃ q ∈ exchanges before.client earlier, q.delivery = d ∧ q.answer = none ∧ q.completion = id) :
    Inv attaching hand (noting (.resolved id r) (w.on (·.write id (.settled r)))) := by
  have pending : w.client.Pending id := (h.ids.pending id).2 List.mem_cons_self
  have nodup := h.ids.nodup
  rw [List.cons_append, List.nodup_cons] at nodup
  refine ⟨h.linked.congr rfl (exchanges_of_sent rfl) rfl fun _ hp => hp,
    ⟨fun i => ?_, nodup.2, ?_, fun i => ?_, ?_⟩,
    .cons ⟨hs, nofun, nofun, fun id' r' e => ?_, fun d s before earlier hp hb => ?_⟩ h.lawful, h.tame⟩
  · show (w.client.write id (.settled r)).Pending i ↔ i ∈ hand ++ held (w.client.link 0)
    rw [Client.pending_write, h.ids.pending, List.cons_append, List.mem_cons]
    constructor
    · rintro ⟨rfl | hi, hn⟩
      · exact absurd rfl hn
      · exact hi
    · intro hi
      refine ⟨.inr hi, ?_⟩
      rintro rfl
      exact nodup.1 hi
  · show (asked w.outside.history).map (·.2) =
      (List.range (w.client.completions.setIfInBounds id _).size).reverse
    rw [Array.size_setIfInBounds]
    exact h.ids.handed
  · show i ∈ id :: told w.outside.history ↔ (w.client.write id (.settled r)).Settled i
    rw [List.mem_cons, h.ids.settled, Client.settled_write_iff pending.lt]
  · show (id :: told w.outside.history).Nodup
    refine List.nodup_cons.2 ⟨fun hm => ?_, h.ids.once⟩
    exact pending.not_settled ((h.ids.settled id).1 hm)
  · obtain ⟨rfl, rfl⟩ := Event.resolved.inj e
    exact ht.congr rfl rfl
  · obtain ⟨q, hq, hd, ha, rfl⟩ := hf d s before earlier hp hb
    exact .inl ⟨q, hq, hd, ha, r, rfl⟩

/-! ### Requests -/

theorem lt_of_asked (h : Ids hand x past) (ha : (o, id) ∈ asked past) : id < x.completions.size := by
  have listed : id ∈ (asked past).map (·.2) := List.mem_map_of_mem ha
  rw [h.handed, List.mem_reverse, List.mem_range] at listed
  exact listed

theorem Ids.lt (h : Ids hand x past) (hi : id ∈ hand ++ held (x.link 0)) : id < x.completions.size :=
  ((h.pending id).2 hi).lt

/-- A request that was made last, and has not been sent. The link is to be attached by it, if it asks for
that and is not too late. -/
structure Fresh (o : Operation) (id : Nat) (w : State) : Prop where
  latest : (asked w.outside.history).head? = some (o, id)
  unsent : ∀ q ∈ exchanges w.client w.outside.history, q.completion ≠ id
  opener : o = .establish → (opener w.outside.history = some id ↔ ¬ Taken (w.client.link 0))

theorem Fresh.mem (h : Fresh o id w) : (o, id) ∈ asked w.outside.history := List.mem_of_head? h.latest

theorem asked_of_opener (h : opener past = some id) : (.establish, id) ∈ asked past := by
  induction past with
  | nil => cases h
  | cons e past ih =>
    obtain ⟨event, x⟩ := e
    cases event with
    | requested o i =>
      cases o with
      | establish =>
        rcases Option.or_eq_some_iff.1 h with h | ⟨-, h⟩
        · exact List.mem_cons_of_mem _ (ih h)
        · obtain ⟨-, e⟩ := Option.ite_none_left_eq_some.1 h
          obtain rfl := Option.some.inj e
          exact List.mem_cons_self
      | _ => exact List.mem_cons_of_mem _ (ih h)
    | _ => exact ih h

/-- **A request is made** with a new completion. -/
theorem Inv.requested (h : Inv False hand w) (hs : Clear w.client w.outside.history)
    (hv : v = noting (.requested o w.client.completions.size) (w.on (·.addCompletion))) :
    Inv (o = .establish) (w.client.completions.size :: hand) v ∧
      Fresh o w.client.completions.size v := by
  subst hv
  have same : exchanges (noting (.requested o w.client.completions.size)
      (w.on (·.addCompletion))).client (noting (.requested o w.client.completions.size)
      (w.on (·.addCompletion))).outside.history = exchanges w.client w.outside.history :=
    exchanges_of_sent rfl
  have clear : Clear w.client.addCompletion w.outside.history := ⟨hs.state, hs.settled⟩
  refine ⟨⟨?_, ⟨fun i => ?_, ?_, ?_, fun i => ?_, h.ids.once⟩,
    .cons (clear.plain nofun nofun nofun) h.lawful, h.tame⟩, rfl, fun q hq => ?_, fun he => ?_⟩
  · refine {
      link := h.linked.link
      opening := fun token e => ?_
      sender := h.linked.sender
      attached := fun hn hb id e => ?_
      pending := by
        rw [live, same]
        exact h.linked.pending
      unsent := fun hb => same.trans (h.linked.unsent hb)
      next := by
        rw [same]
        exact h.linked.next
      numbers := by
        rw [same]
        exact h.linked.numbers
      requested := fun q hq => by
        obtain ⟨hm, ho⟩ := h.linked.requested q (same ▸ hq)
        exact ⟨List.mem_cons_of_mem _ hm, ho⟩
      single := by
        rw [same]
        exact h.linked.single }
    · obtain ⟨hb, id, rfl, ho⟩ := h.linked.opening token e
      refine ⟨hb, id, rfl, ?_⟩
      cases o with
      | establish =>
        show (opener w.outside.history).or _ = _
        rw [ho]
        rfl
      | _ => exact ho
    · cases o with
      | establish => exact absurd rfl hn
      | _ => exact h.linked.attached (fun e => e) hb _ e
  · show w.client.addCompletion.Pending i ↔ i ∈ w.client.completions.size :: (hand ++ held (w.client.link 0))
    rw [Client.pending_addCompletion, h.ids.pending, List.mem_cons]
    exact or_comm
  · refine List.nodup_cons.2 ⟨fun hm => ?_, h.ids.nodup⟩
    exact Nat.lt_irrefl _ (h.ids.lt hm)
  · show w.client.completions.size :: (asked w.outside.history).map (·.2) =
      (List.range (w.client.completions.push .pending).size).reverse
    rw [Array.size_push, List.range_succ, List.reverse_append, h.ids.handed]
    rfl
  · show i ∈ told w.outside.history ↔ w.client.addCompletion.Settled i
    rw [h.ids.settled, Client.settled_addCompletion]
  · rw [same] at hq
    exact Nat.ne_of_lt (lt_of_asked h.ids (h.linked.requested q hq).1)
  · subst he
    show (opener w.outside.history).or (if Taken (w.client.link 0) then none else _) = _ ↔
      ¬ Taken (w.client.link 0)
    cases ho : opener w.outside.history with
    | none => simp
    | some i =>
      have old : i ≠ w.client.completions.size := Nat.ne_of_lt (lt_of_asked h.ids (asked_of_opener ho))
      have taken : Taken (w.client.link 0) := by
        by_cases building : (w.client.link 0).state = .building
        · exact .inl (h.linked.attached (fun e => e) building i ho).2
        · exact .inr building
      simp [old, taken]

/-! ### The link changes -/

theorem state_changeLink (hf : ∀ k, (f k).state = k.state) :
    ((x.changeLink 0 f).link 0).state = (x.link 0).state := by
  unfold Client.link Client.changeLink
  cases hk : x.links[0]? with
  | none => simp [Array.getElem?_modify, hk]
  | some k => simp [Array.getElem?_modify, hk, hf]

theorem request_entry : q.entry.2.request = .client q.completion q.completion := by
  unfold Sent.entry
  cases q.operation <;> rfl

theorem Linked.pending_closed (h : Linked attaching x past) (hs : (x.link 0).state = .closed) :
    (x.link 0).pending = [] := by
  rw [h.pending, live_eq_nil hs]
  rfl

/-- The link holds whoever waits for it to open and whoever waits for an answer. -/
theorem Linked.held (h : Linked attaching x past) : held (x.link 0) =
    (x.link 0).opening.toList.map (·.completion) ++ (live x past).reverse.map (·.completion) := by
  rw [Link.held, h.pending, List.map_map]
  refine congrArg _ (List.map_congr_left fun q _ => ?_)
  exact congrArg Token.completion request_entry

theorem on_changeLink {g : Link Nat → Link Nat} : (w.on (·.changeLink 0 f)).on (·.changeLink 0 g) =
    w.on (·.changeLink 0 fun k => g (f k)) := by
  have merged : (w.client.changeLink 0 f).changeLink 0 g = w.client.changeLink 0 fun k => g (f k) :=
    Client.changeLink_changeLink
  exact congrArg (fun c => { w with client := c }) merged

theorem map_exchanges {α : Type} {g : Sent → α} (x x' : Client Nat) (hg : ∀ q, g q.shut = g q) :
    (exchanges x past).map g = (exchanges x' past).map g :=
  (map_shutIf hg).trans (map_shutIf hg).symm

theorem length_exchanges (x x' : Client Nat) (past : List Entry) :
    (exchanges x past).length = (exchanges x' past).length := by
  have same : (exchanges x past).map (·.delivery) = (exchanges x' past).map (·.delivery) :=
    map_exchanges x x' fun _ => rfl
  simpa using congrArg List.length same

theorem Ids.relink (h : Ids hand x past) (hc : x'.completions = x.completions)
    (hp : (hand' ++ held (x'.link 0)).Perm (hand ++ held (x.link 0))) : Ids hand' x' past where
  pending i := by
    rw [hp.mem_iff, ← h.pending, Client.Pending, hc, Client.Pending]
  nodup := hp.nodup_iff.2 h.nodup
  handed := hc ▸ h.handed
  settled i := by
    rw [h.settled]
    unfold Client.Settled
    rw [hc]
  once := h.once

/-- The link changes, but not its exchanges, unless it closes. -/
theorem Linked.relink (h : Linked attaching x past) (hk : x.links[0]? = some k)
    (ho : ∀ token, (f k).opening = some token → (f k).state = .building ∧
      ∃ id, token = .client id id ∧ opener past = some id)
    (hs : (f k).state = .building → (f k).sender.isSome → (f k).opening.isSome)
    (ha : ¬ attaching' → (f k).state = .building → ∀ id, opener past = some id →
      (f k).opening.isSome ∧ (f k).sender.isSome)
    (hb : (f k).state = .building → k.state = .building)
    (hc : (f k).state = .closed → (f k).pending = [])
    (hp : (f k).state ≠ .closed → k.state ≠ .closed ∧ (f k).pending = k.pending)
    (hn : (f k).nextDelivery = k.nextDelivery) :
    Linked attaching' (x.changeLink 0 f) past := by
  have before : x.link 0 = k := Client.link_eq hk
  have after : (x.changeLink 0 f).link 0 = f k := Client.link_eq (Client.changeLink_same hk)
  have same (hs : (f k).state ≠ .closed) : exchanges (x.changeLink 0 f) past = exchanges x past := by
    rw [exchanges, exchanges, shutIf_open (by rw [after]; exact hs),
      shutIf_open (by rw [before]; exact (hp hs).1)]
  have length := length_exchanges (x.changeLink 0 f) x past
  constructor
  · rw [after]
    exact Client.changeLink_same hk
  · rw [after]
    exact ho
  · rw [after]
    exact hs
  · rw [after]
    exact ha
  · rw [after]
    by_cases hs : (f k).state = .closed
    · rw [hc hs, live_eq_nil (by rw [after]; exact hs)]
      rfl
    · rw [(hp hs).2, live, same hs, ← before]
      exact h.pending
  · rw [after]
    intro hs
    rw [same (by simp [hs])]
    exact h.unsent (before ▸ hb hs)
  · rw [after, hn, length, ← before]
    exact h.next
  · rw [map_exchanges _ x fun _ => rfl, length]
    exact h.numbers
  · intro q hq
    have listed := List.mem_map_of_mem (f := fun q : Sent => (q.operation, q.completion)) hq
    rw [map_exchanges _ x fun _ => rfl] at listed
    obtain ⟨q', hq', e⟩ := List.mem_map.1 listed
    obtain ⟨same_operation, same_completion⟩ := Prod.mk.inj e
    rw [← same_operation, ← same_completion]
    exact h.requested q' hq'
  · rw [map_exchanges _ x fun _ => rfl]
    exact h.single

end Transact.Link
