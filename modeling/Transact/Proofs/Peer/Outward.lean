import Transact.Proofs.Peer.Changes

/-! # What a session at work changes around it

The broker takes messages, consumers are called, and requests are sent on a link, which may be a new
one. As before, the parts of the invariant come first: what the change does to the whole, and that it
spares all other sessions.

* `Turn.serve`: consumers of the session have been called.
* `Turn.request`: a request waits in the loop.
* `Turn.attach`: the opening of a link, or its refusal, waits in the loop. -/

namespace Transact.Peer

variable {o : Origin} {G : Ledger} {due : Option Nat} {s i : Nat} {p p' : Phase Waiting}
  {co : Option Nat} {S : Session} {w w' : State}

/-! ### The broker -/

/-- The broker does something. It holds no message of a transaction but those that were published. -/
theorem Common.changeBroker (h : Common G due w) {f : Broker → Broker} {due' : Option Nat}
    (hc : (f w.outside.broker).txnCounter = w.outside.broker.txnCounter)
    (ht : Broker.Takes w.outside.broker (f w.outside.broker))
    (hm : Distinct w → ∀ d, (f w.outside.broker).Holds d → w.outside.broker.Holds d ∨
      ∀ t, G.Tagged d.tag t → due' = some t)
    (hd : ∀ t, due = some t → due' = some t) : Common G due' (w.out (·.changeBroker f)) :=
  { h with
    names := fun t y e => by
      obtain ⟨n, hn, hy⟩ := h.names t y e
      exact ⟨n, Nat.lt_of_lt_of_eq hn hc.symm, hy⟩
    counter := by
      show (f w.outside.broker).txnCounter + _ ≤ _
      rw [hc]
      exact h.counter
    held := by
      intro hx d hb t htag
      rcases hm hx d hb with hb | hb
      · exact (h.held hx d hb t htag).imp_right (hd t)
      · exact .inr (hb t htag)
    fresh := fun e he d hd => by
      obtain ⟨h₁, h₂⟩ := h.fresh e he d hd
      exact ⟨Nat.lt_of_lt_of_le h₁ ht.tagCounter, h₂⟩
    sound := ht.sound h.sound
    opened := fun y r hr => by
      obtain ⟨r', hr', e⟩ := ht.links y r hr
      exact e ▸ h.opened y r' hr'
    custody := fun hx => by
      show Roll.total _ (f w.outside.broker).inflight = _
      rw [ht.inflight]
      exact h.custody ⟨hx.1, Nat.le_trans ht.tagCounter hx.2.1, hx.2.2⟩ }

theorem spares_changeBroker {f : Broker → Broker}
    (ht : Broker.Takes w.outside.broker (f w.outside.broker))
    (hr : Distinct w → ∀ y r, w.outside.broker.transactions.get? y = some r →
      G.owners[r.link]? = some i → ∃ r', (f w.outside.broker).transactions.get? y = some r' ∧
        r'.link = r.link ∧ r'.staged = r.staged) : Spares i G w G (w.out (·.changeBroker f)) :=
  { Spares.refl i G w with
    record := fun hx _ y r _ _ ho h => hr hx y r h ho
    alone := fun y r hr _ => ht.links y r hr
    exact_before := fun hx => ⟨hx.1, Nat.le_trans ht.tagCounter hx.2.1, hx.2.2⟩ }

/-! ### Consumers -/

/-- What is left of the surroundings when consumers have been called. -/
def Outside.serve (o : Outside) (b : Broker) (table : Array Consumer) : Outside :=
  { o with broker := b, consumers := table }

/-- **Consumers of the session are called:** messages change their places. Who has received one then is
enrolled. -/
theorem Turn.serve (h : Turn o G due s p co S w) {b : Broker} {table : Array Consumer}
    (hq : o.quiet → b = w.outside.broker) (hb : Shift w.outside.broker b)
    (hs : Calls s w.outside.consumers table) (hc : Exact w → b.lent = buffered table)
    (hh : Exact w → ∀ (c : Nat) (k : Consumer), table[c]? = some k → k.session = s → k.received ≠ [] →
      p.Holding ∧ ∃ C, w.client.contexts[s]? = some C ∧
        (k.id.text, c) ∈ C.registry.consumers.entries) :
    Turn o G due s p co S (w.out (·.serve b table)) := by
  have trade := hb.trade h.common.sound
  have exact_before (hx : Exact (w.out (·.serve b table))) : Exact w :=
    ⟨hx.1, trade.tagCounter ▸ hx.2.1, hs.size ▸ hx.2.2⟩
  refine { h with
    common := { h.common with
      consumer := fun i k hk => ?_
      names := fun t y e => ?_
      counter := ?_
      held := fun hx d hd => ?_
      fresh := fun e he d hd => ?_
      sound := trade.sound h.common.sound
      opened := fun y r hr => ?_
      roster := hs.roster h.common.roster
      custody := fun hx => hc (exact_before hx) }
    others := fun i hi hne => (h.others i hi hne).spared { Spares.refl i G w with
      record := fun _ _ y r _ _ _ hr => hb.moves.record y r hr id
      alone := fun y r hr _ => trade.links y r hr
      exact_before
      consumer := fun c k hk => (hs.other (hk ▸ hne)).2
      received := fun c k hk h => .inl ((hs.other (hk ▸ hne)).1 h) }
    seat := { h.seat with
      record := fun hx t y l k e hl hk hn => ?_
      alone := fun y r hr hl => ?_
      enrolled := fun C hC e he => ?_
      holding := fun hx => hh (exact_before hx) }
    dues := h.dues.of_same rfl rfl rfl rfl
    since := { h.since with
      onward := h.since.onward.trans (.of_same rfl rfl rfl trade.tagCounter.ge hs.size.ge le_rfl)
      broker := fun e => (hq e).trans (h.since.broker e)
      shift := h.since.shift.trans hb } }
  · obtain ⟨k', hk', e, -⟩ := hs.entry i k hk
    exact e ▸ h.common.consumer i k' hk'
  · obtain ⟨n, hn, hy⟩ := h.common.names t y e
    exact ⟨n, Nat.lt_of_lt_of_eq hn hb.moves.txnCounter.symm, hy⟩
  · show b.txnCounter + _ ≤ _
    rw [hb.moves.txnCounter]
    exact h.common.counter
  · exact h.common.held hx d ((hb.moves.held d hd).resolve_right List.not_mem_nil)
  · obtain ⟨h₁, h₂⟩ := h.common.fresh e he d hd
    exact ⟨Nat.lt_of_lt_of_eq h₁ trade.tagCounter.symm, h₂⟩
  · obtain ⟨r', hr', e⟩ := trade.links y r hr
    exact e ▸ h.common.opened y r' hr'
  · obtain ⟨known, r, hr, hrl, hst⟩ := h.seat.record hx t y l k e hl hk hn
    obtain ⟨r', hr', hl', hs'⟩ := hb.moves.record y r hr id
    exact ⟨known, r', hr', hl'.trans hrl, by rw [hs', hst]⟩
  · obtain ⟨r', hr', e⟩ := trade.links y r hr
    exact h.seat.alone y r' hr' (e ▸ hl)
  · obtain ⟨k, hk, hks, hid⟩ := h.seat.enrolled C hC e he
    obtain ⟨k', hk', hs', hid', -⟩ := hs.still hk
    exact ⟨k', hk', hs'.trans hks, by rw [hid', hid]⟩

/-- Who gives up what it has received, or keeps it, is as it was before. -/
theorem Seat.served (h : Seat G s p co w) {table : Array Consumer}
    (hs : Serves s w.outside.consumers table) (hx : Exact w) (c : Nat) (k : Consumer)
    (hk : table[c]? = some k) (hks : k.session = s) (hne : k.received ≠ []) :
    p.Holding ∧ ∃ C, w.client.contexts[s]? = some C ∧ (k.id.text, c) ∈ C.registry.consumers.entries := by
  obtain ⟨k', hk', hs', hid', -⟩ := hs.entry c k hk
  rw [hid']
  exact h.holding hx c k' hk' (hs'.symm.trans hks) ((hs.received c k' k hk' hk).resolve_right hne ▸ hne)

/-! ### Requests -/

/-- The client `x'` differs from `x` in the context `s` and the link `l` only. -/
structure Client.Touches (x x' : Client Waiting) (s l : Nat) : Prop where
  completions : x'.completions = x.completions
  transactions : x'.transactions = x.transactions
  aggregates : x'.aggregates = x.aggregates
  contexts : x'.contexts.size = x.contexts.size
  context : ∀ i, i ≠ s → x'.contexts[i]? = x.contexts[i]?
  members : ∀ k, x'.contexts[s]? = some k → ∃ k', x.contexts[s]? = some k' ∧
    k.registry.consumers = k'.registry.consumers
  links : x'.links.size = x.links.size
  link : ∀ i, i ≠ l → x'.links[i]? = x.links[i]?

theorem Client.members_changeContext {x : Client Waiting} {g : Context → Context} {k : Context}
    (hg : ∀ k, (g k).registry.consumers = k.registry.consumers)
    (h : (x.changeContext s g).contexts[s]? = some k) :
    ∃ k', x.contexts[s]? = some k' ∧ k.registry.consumers = k'.registry.consumers := by
  rw [Client.changeContext, Array.getElem?_modify, if_pos rfl, Option.map_eq_some_iff] at h
  obtain ⟨k', hk', rfl⟩ := h
  exact ⟨k', hk', hg k'⟩

/-- A request that is sent: it is noted, and its answer scheduled. -/
def Outside.request (o : Outside) (label : String) (l : Nat) (delivery : Number)
    (request : Request) : Outside :=
  (o.addRequest request).schedule label (.answer l delivery request)

theorem tasks_request {label : String} {l : Nat} {d : Number} {request : Request} :
    tasks (w.out (·.request label l d request)) = tasks w ++ [.answer l d request] :=
  tasks_schedule

theorem declares_request {label : String} {l : Nat} {d : Number} {request : Request} :
    declares (w.out (·.request label l d request)) =
      declares w + if request = .declare then 1 else 0 := by
  simp [declares, World.out, Outside.request, Outside.addRequest, Outside.schedule, List.countP_append]

/-- The request waits in the loop after all that waited there before. -/
theorem Common.request (h : Common G due w) {x' : Client Waiting} {E : Array Endpoint}
    {label : String} {l d : Nat} {request : Request} {m m' : Link Waiting} {e : Endpoint}
    (hx : Client.Touches w.client x' s l) (hm : w.client.links[l]? = some m)
    (hm' : x'.links[l]? = some m') (hopen : m'.state = .opened)
    (hE : E.size = w.outside.endpoints.size) (hEl : E[l]? = some e)
    (hEo : ∀ i, i ≠ l → E[i]? = w.outside.endpoints[i]?)
    (he : e.listener = .link l ∧ e.Follows .opened) :
    Common G due (World.out { w with client := x', outside := { w.outside with endpoints := E } }
      (·.request label l (.ofIndex d) request)) := by
  obtain ⟨_, _, links, contexts, _⟩ := x'
  obtain ⟨hc, hct, hca, hcs, hcx, hmem, hls, hlx⟩ := hx
  dsimp only at hc hct hca hcs hcx hmem hls hlx hm'
  subst hc hct hca
  have lt : l < w.client.links.size := (Array.getElem?_eq_some_iff.1 hm).1
  generalize hw : World.out _ _ = w'
  have tasks' : tasks w' = tasks w ++ [.answer l (.ofIndex d) request] := by
    rw [← hw]
    exact tasks_request
  have declares' : declares w' = declares w + if request = .declare then 1 else 0 := by
    rw [← hw]
    exact declares_request
  have before (hx : Distinct w') : Distinct w :=
    Nat.lt_of_le_of_lt (declares' ▸ Nat.le_add_right ..) hx
  subst hw
  exact { h with
    contexts := hcs.trans h.contexts
    endpoints := (hE.trans h.endpoints).trans hls.symm
    owners := h.owners.trans hls.symm
    sync := by
      intro i k hk
      by_cases hi : i = l
      · subst hi
        obtain rfl : m' = k := Option.some.inj (hm'.symm.trans hk)
        exact ⟨e, hEl, he.1, hopen ▸ he.2⟩
      · obtain ⟨e', he', hf⟩ := h.sync i k ((hlx i hi).symm.trans hk)
        exact ⟨e', (hEo i hi).trans he', hf⟩
    placed := by
      intro job hj i hi
      show i < links.size
      rw [hls]
      rw [tasks', List.mem_append, List.mem_singleton] at hj
      rcases hj with hj | rfl
      · exact h.placed job hj i hi
      · exact Option.some.inj hi ▸ lt
    transfers := by
      rw [tasks', List.filter_append, h.transfers]
      simp [Task.isTransfer]
    deposits := by
      intro job hj i hi
      rw [tasks', List.mem_append, List.mem_singleton] at hj
      rcases hj with hj | rfl
      · exact h.deposits job hj i hi
      · cases hi
    named := fun hx => h.named (before hx)
    held := fun hx => h.held (before hx)
    opened := fun y r hr => by
      obtain ⟨k, hk, ho⟩ := h.opened y r hr
      by_cases hi : r.link = l
      · exact ⟨m', hi ▸ hm', hopen⟩
      · exact ⟨k, (hlx r.link hi).trans hk, ho⟩
    custody := fun hx => h.custody ⟨before hx.1, hx.2⟩
    counter := by
      rw [tasks', declares', List.countP_append]
      have := h.counter
      have : [Task.answer l (.ofIndex d) request].countP (·.isDeclare) =
          if request = .declare then 1 else 0 := by
        cases request <;> rfl
      rw [this]
      show w.outside.broker.txnCounter + _ ≤ _
      omega }

theorem spares_request {x' : Client Waiting} {E : Array Endpoint} {label : String} {l d : Nat}
    {request : Request} (hx : Client.Touches w.client x' s l) (hl : G.owners[l]? = some s)
    (hne : i ≠ s) :
    Spares i G w G (World.out { w with client := x', outside := { w.outside with endpoints := E } }
      (·.request label l (.ofIndex d) request)) := by
  obtain ⟨_, _, links, contexts, _⟩ := x'
  obtain ⟨hc, hct, hca, -, hcx, -, -, hlx⟩ := hx
  dsimp only at hc hct hca hcx hlx
  subst hc hct hca
  generalize hw : World.out _ _ = w'
  have tasks' : tasks w' = tasks w ++ [.answer l (.ofIndex d) request] := by
    rw [← hw]
    exact tasks_request
  have le : declares w ≤ declares w' := by
    rw [← hw]
    exact declares_request ▸ Nat.le_add_right ..
  have before (hx : Distinct w') : Distinct w := Nat.lt_of_le_of_lt le hx
  have other {l' : Nat} (hl' : G.owners[l']? = some i) : l' ≠ l := by
    rintro rfl
    exact hne (Option.some.inj (hl'.symm.trans hl))
  subst hw
  exact { Spares.refl i G w with
    context := hcx i hne
    link := fun l' hl' => hlx l' (other hl')
    asked := by
      intro l' _ hl' _ _
      rw [tasks']
      exact asked_append (by simp [Task.asks, Ne.symm (other hl')])
    closing := by
      intro _ l' t y _ _ _ hsl
      rw [tasks']
      exact hsl.append (by simp [Task.Carries])
    opens := by
      rintro l' - ⟨job, hj, e⟩
      exact ⟨job, by rw [tasks']; exact List.mem_append_left _ hj, e⟩
    record := fun hx => (Spares.refl i G w).record (before hx)
    declares := le
    exact_before := fun hx => ⟨before hx.1, hx.2⟩ }

/-- **A request is sent** on the coordinator link, which may just have opened. -/
theorem Turn.request (h : Turn o G due s p co S w) {x' : Client Waiting} {E : Array Endpoint}
    {label : String} {l d : Nat} {request : Request} {m m' : Link Waiting} {e : Endpoint}
    (hx : Client.Touches w.client x' s l) (hm : w.client.links[l]? = some m)
    (hm' : x'.links[l]? = some m') (hopen : m'.state = .opened) (hn : m.state ≠ .closed)
    (hl : G.owners[l]? = some s) (hE : E.size = w.outside.endpoints.size)
    (hEl : E[l]? = some e) (hEo : ∀ i, i ≠ l → E[i]? = w.outside.endpoints[i]?)
    (he : e.listener = .link l ∧ e.Follows .opened) (hp : p.slot = none)
    (ht : At (G.frame s) p' (some l) x') (ha : p'.asks l = [(.ofIndex d, request)])
    (hs : p'.slot = some (l, d)) (hr : p'.recorded ≠ none → p'.recorded = p.recorded ∧ co = some l)
    (hh : ∀ t, p'.transaction = some t → G.homes[t]? = some s ∧ ¬ G.Concluded w.client t)
    (hu : ∀ t, p'.transaction = some t → p'.bound = none → (w.client.transaction t).hint = none)
    (hrec : p'.recorded = p.recorded) (hbare : Exact w → Bare s w)
    (hw : w' = { w with client := x', outside := { w.outside with endpoints := E } }.out
      (·.request label l (.ofIndex d) request)) :
    Turn o G due s p' (some l) S w' := by
  have common : Common G due w' := hw ▸ h.common.request hx hm hm' hopen hE hEl hEo he
  have spares (i : Nat) (hne : i ≠ s) : Spares i G w G w' := hw ▸ spares_request hx hl hne
  obtain ⟨_, _, links, contexts, _⟩ := x'
  obtain ⟨hc, hct, hca, hcs, hcx, hmem, hls, hlx⟩ := hx
  dsimp only at hc hct hca hcs hcx hmem hls hlx hm'
  subst hc hct hca
  have empty : asked l (tasks w) = [] := by
    rw [h.seat.asked l m hl hm hn]
    exact Phase.asks_of_slot (by simp [hp])
  have tasks' : tasks w' = tasks w ++ [.answer l (.ofIndex d) request] := by
    rw [hw]
    exact tasks_request
  have le : declares w ≤ declares w' := by
    rw [hw]
    exact declares_request ▸ Nat.le_add_right ..
  have before (hx : Distinct w') : Distinct w := Nat.lt_of_le_of_lt le hx
  subst hw
  refine { h with
    common
    others := fun i hi hne => (h.others i hi hne).spared (spares i hne)
    seat := ⟨ht, ?_, ?_, ?_, hh, hu, fun y r hr hl => hrec ▸ h.seat.alone y r hr hl, ?_,
      fun hx c k hk hks hne => absurd (hbare ⟨before hx.1, hx.2⟩ c k hk hks) hne⟩
    dues := h.dues.of_same rfl rfl rfl rfl
    since := { h.since with
      onward := h.since.onward.trans { Onward.refl w with declares := le } } }
  · intro l' k hl' hk hkn
    by_cases hi : l' = l
    · subst hi
      rw [tasks', asked, List.filterMap_append, ← asked, empty, ha]
      simp [Task.asks]
    · rw [tasks', asked_append (by simp [Task.asks, Ne.symm hi]),
        h.seat.asked l' k hl' ((hlx l' hi).symm.trans hk) hkn,
        Phase.asks_of_slot (by simp [hp]), Phase.asks_of_slot (by simp [hs, Ne.symm hi])]
  · intro _ l' y hsl
    obtain ⟨d', t, hs', -⟩ := Phase.sealing_eq_some hsl
    obtain ⟨rfl, -⟩ : l = l' ∧ d = d' := by simpa using hs.symm.trans hs'
    rw [tasks']
    exact Sealed.of_empty empty (by simp [Task.Carries])
  · intro hx t y l' k e hl' hk hkn
    obtain ⟨hrec', hco⟩ := hr (by simp [e])
    obtain rfl : l = l' := Option.some.inj hl'
    exact h.seat.record (before hx) t y l m (hrec'.symm.trans e) hco hm hn
  · intro C hC e he
    obtain ⟨C', hC', same⟩ := hmem C hC
    exact h.seat.enrolled C' hC' e (same ▸ he)

/-! ### New links -/

theorem Ledger.owners_old {l : Nat} (h : G.owners[l]? = some i) :
    (G.addOwner s).owners[l]? = some i := by
  rw [addOwner, List.getElem?_append_left (List.getElem?_eq_some_iff.1 h).1, h]

theorem Ledger.owners_new {l : Nat} (h : G.owners.length = l) :
    (G.addOwner s).owners[l]? = some s := by
  simp [addOwner, ← h]

theorem Ledger.owners_cases {l : Nat} (h : (G.addOwner s).owners[l]? = some i) :
    G.owners[l]? = some i ∨ l = G.owners.length ∧ i = s := by
  by_cases hl : l < G.owners.length
  · rw [addOwner, List.getElem?_append_left hl] at h
    exact .inl h
  · have lt := (List.getElem?_eq_some_iff.1 h).1
    simp only [addOwner, List.length_append, List.length_singleton] at lt
    obtain rfl : l = G.owners.length := by omega
    simp only [addOwner, List.getElem?_concat_length, Option.some.injEq] at h
    exact .inr ⟨rfl, h.symm⟩

/-- The client `x'` differs from `x` in the context `s` only, and has one more link. -/
structure Client.Adds (x x' : Client Waiting) (s : Nat) (m : Link Waiting) : Prop where
  completions : x'.completions = x.completions
  transactions : x'.transactions = x.transactions
  aggregates : x'.aggregates = x.aggregates
  contexts : x'.contexts.size = x.contexts.size
  context : ∀ i, i ≠ s → x'.contexts[i]? = x.contexts[i]?
  members : ∀ k, x'.contexts[s]? = some k → ∃ k', x.contexts[s]? = some k' ∧
    k.registry.consumers = k'.registry.consumers
  links : x'.links.size = x.links.size + 1
  old : ∀ i, i ≠ x.links.size → x'.links[i]? = x.links[i]?
  new : x'.links[x.links.size]? = some m

/-- The opening of the new link, or its refusal, waits in the loop after all that waited there before. -/
theorem Common.attach (h : Common G due w) (hs : s < w.outside.sessions.size) (name label : String)
    {x' : Client Waiting} {job : Task} {m : Link Waiting} (hx : Client.Adds w.client x' s m)
    (hm : m.state = .building)
    (hj : job = .openLink w.client.links.size ∨ job = .refuseLink w.client.links.size) :
    Common (G.addOwner s) due (World.out { w with client := x' } fun o =>
      (o.addEndpoint name (.link w.client.links.size)).schedule label job) := by
  obtain ⟨_, _, links, contexts, _⟩ := x'
  obtain ⟨hc, hct, hca, hcs, -, -, hls, hlo, hln⟩ := hx
  dsimp only at hc hct hca hcs hls hlo hln
  subst hc hct hca
  have idle : job.Idle := by
    rcases hj with rfl | rfl
    · exact idle_openLink
    · exact idle_refuseLink
  generalize hw : World.out _ _ = w'
  have tasks' : tasks w' = tasks w ++ [job] := by
    rw [← hw]
    exact tasks_schedule
  subst hw
  exact { h with
    contexts := hcs.trans h.contexts
    endpoints := by
      show (w.outside.endpoints.push _).size = links.size
      rw [Array.size_push, hls, h.endpoints]
    owners := by
      show (G.owners ++ [s]).length = links.size
      rw [List.length_append, h.owners, hls]
      rfl
    owner := by
      intro l i hl
      rcases Ledger.owners_cases hl with hl | ⟨-, rfl⟩
      · exact h.owner l i hl
      · exact hs
    sync := by
      intro i k hk
      show ∃ e, (w.outside.endpoints.push _)[i]? = some e ∧ _
      by_cases hi : i = w.client.links.size
      · subst hi
        obtain rfl : m = k := Option.some.inj (hln.symm.trans hk)
        have new : (w.outside.endpoints.push
            { name, listener := .link w.client.links.size })[w.client.links.size]? =
            some { name, listener := .link w.client.links.size } := by
          rw [Array.getElem?_push, if_pos h.endpoints.symm]
        exact ⟨_, new, rfl, hm ▸ ⟨rfl, rfl⟩⟩
      · obtain ⟨e, he, hf⟩ := h.sync i k ((hlo i hi).symm.trans hk)
        rw [Array.getElem?_push, if_neg (by rw [h.endpoints]; exact hi)]
        exact ⟨e, he, hf⟩
    placed := by
      intro job' hj' i hi
      show i < links.size
      rw [tasks', List.mem_append, List.mem_singleton] at hj'
      rcases hj' with hj' | rfl
      · have := h.placed job' hj' i hi
        omega
      · have : i = w.client.links.size := by
          rcases hj with rfl | rfl <;> exact (Option.some.inj hi).symm
        omega
    transfers := by
      show _ = G.waiting.map _
      rw [tasks', List.filter_append, h.transfers]
      simp [idle.transfer]
    deposits := by
      intro job' hj' i hi
      rw [tasks', List.mem_append, List.mem_singleton] at hj'
      rcases hj' with hj' | rfl
      · exact h.deposits job' hj' i hi
      · rcases hj with rfl | rfl <;> cases hi
    counter := by
      rw [tasks', List.countP_append, List.countP_singleton, idle.declare]
      exact h.counter
    opened := fun y r hr => by
      obtain ⟨k, hk, ho⟩ := h.opened y r hr
      have lt := (Array.getElem?_eq_some_iff.1 hk).1
      exact ⟨k, (hlo r.link (Nat.ne_of_lt lt)).trans hk, ho⟩ }

theorem spares_attach (howners : G.owners.length = w.client.links.size) (name label : String)
    {x' : Client Waiting} {job : Task} {m : Link Waiting} (hx : Client.Adds w.client x' s m)
    (hj : job.Idle) (hne : i ≠ s) :
    Spares i G w (G.addOwner s) (World.out { w with client := x' } fun o =>
      (o.addEndpoint name (.link w.client.links.size)).schedule label job) := by
  obtain ⟨_, _, links, contexts, _⟩ := x'
  obtain ⟨hc, hct, hca, -, hcx, -, -, hlo, -⟩ := hx
  dsimp only at hc hct hca hcx hlo
  subst hc hct hca
  generalize hw : World.out _ _ = w'
  have tasks' : tasks w' = tasks w ++ [job] := by
    rw [← hw]
    exact tasks_schedule
  subst hw
  exact { Spares.refl i G w with
    context := hcx i hne
    owner := fun l => ⟨fun hl => (Ledger.owners_cases hl).resolve_right fun e => hne e.2,
      Ledger.owners_old⟩
    link := fun l hl => hlo l (Nat.ne_of_lt (by
      have := (List.getElem?_eq_some_iff.1 hl).1
      rwa [howners] at this))
    asked := by
      intro l _ _ _ _
      rw [tasks']
      exact asked_append (hj.asks l)
    closing := by
      intro _ l t y _ _ _ hsl
      rw [tasks']
      exact hsl.append (hj.carries y)
    opens := by
      rintro l - ⟨job', hj', e⟩
      exact ⟨job', by rw [tasks']; exact List.mem_append_left _ hj', e⟩ }

/-- **A link is attached:** its opening or its refusal waits in the loop. -/
theorem Turn.attach (h : Turn o G due s p co S w) (p' : Phase Waiting) (name label : String)
    {x' : Client Waiting} {job : Task} {m : Link Waiting} (hx : Client.Adds w.client x' s m)
    (hm : m.state = .building)
    (hj : job = .openLink w.client.links.size ∨
      job = .refuseLink w.client.links.size) (hp : p.Still)
    (ht : At ((G.addOwner s).frame s) p' co x') (hs : p'.slot = none) (hb : p'.bound = none)
    (hh : ∀ t, p'.transaction = some t → G.homes[t]? = some s ∧ ¬ G.Concluded w.client t)
    (hu : ∀ t, p'.transaction = some t → (w.client.transaction t).hint = none)
    (hn : p.recorded = none) (hbare : Exact w → Bare s w)
    (hw : w' = { w with client := x' }.out fun o =>
      (o.addEndpoint name (.link w.client.links.size)).schedule label job) :
    Turn o (G.addOwner s) due s p' co S w' := by
  have idle : job.Idle := by
    rcases hj with rfl | rfl
    · exact idle_openLink
    · exact idle_refuseLink
  have common : Common (G.addOwner s) due w' :=
    hw ▸ h.common.attach (Array.getElem?_eq_some_iff.1 h.session).1 name label hx hm hj
  have spares (i : Nat) (hne : i ≠ s) : Spares i G w (G.addOwner s) w' :=
    hw ▸ spares_attach h.common.owners name label hx idle hne
  obtain ⟨_, _, links, contexts, _⟩ := x'
  obtain ⟨hc, hct, hca, -, -, hmem, hls, hlo, -⟩ := hx
  dsimp only at hc hct hca hmem hls hlo
  subst hc hct hca
  have tasks' : tasks w' = tasks w ++ [job] := by
    rw [hw]
    exact tasks_schedule
  have slot' {l : Nat} : p'.asks l = [] := Phase.asks_of_slot (by simp [hs])
  subst hw
  refine { h with
    common
    others := fun i hi hne => (h.others i hi hne).spared (spares i hne)
    seat := ⟨ht, ?_, ?_, ?_, hh, fun t e _ => hu t e, fun y r hr hl => ?_, ?_,
      fun hx c k hk hks hne => absurd (hbare hx c k hk hks) hne⟩
    dues := h.dues.of_same rfl rfl rfl rfl
    since := { h.since with onward := h.since.onward.trans (.of_same rfl rfl rfl le_rfl le_rfl le_rfl) } }
  · intro l k hl hk hkn
    rw [tasks', asked_append (idle.asks l), slot']
    rcases Ledger.owners_cases hl with hl | ⟨rfl, -⟩
    · by_cases hi : l = w.client.links.size
      · exact h.common.stray (by omega)
      · rw [h.seat.asked l k hl ((hlo l hi).symm.trans hk) hkn, hp.asks]
    · exact h.common.stray (Nat.le_of_eq h.common.owners.symm)
  · intro _ l y hsl
    obtain ⟨d, t, hs', -⟩ := Phase.sealing_eq_some hsl
    cases hs.symm.trans hs'
  · intro _ t y l k hr
    cases hb.symm.trans (Phase.bound_of_recorded hr)
  · obtain ⟨k, hk, -⟩ := h.common.opened y r hr
    have lt := (Array.getElem?_eq_some_iff.1 hk).1
    refine absurd ((Ledger.owners_cases hl).resolve_right fun e => ?_) (h.seat.unrecorded hn y r hr)
    have := h.common.owners
    omega
  · intro C hC e he
    obtain ⟨C', hC', same⟩ := hmem C hC
    exact h.seat.enrolled C' hC' e (same ▸ he)

end Transact.Peer
