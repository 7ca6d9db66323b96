import Transact.Proofs.Peer.Invariant

/-! # What concerns a session

The state of the whole is shared by all sessions, but each session is concerned with a part of it
only. `Spares i G w G' w'` says that what the session `i` is concerned with is the same in `w` and
`w'`, and `Rest.spared` that the session is then still at rest. -/

namespace Transact.Peer

/-- From `w` to `w'` nothing changed that concerns the session `i`. -/
structure Spares (i : Nat) (G : Ledger) (w : State) (G' : Ledger) (w' : State) : Prop where
  session : w'.outside.sessions[i]? = w.outside.sessions[i]?
  context : w'.client.contexts[i]? = w.client.contexts[i]?
  owner : ∀ l : Nat, G'.owners[l]? = some i ↔ G.owners[l]? = some i
  link : ∀ l : Nat, G.owners[l]? = some i → w'.client.links[l]? = w.client.links[l]?
  asked : ∀ (l : Nat) (k : Link Waiting), G.owners[l]? = some i → w.client.links[l]? = some k →
    k.state ≠ .closed → asked l (tasks w') = asked l (tasks w)
  closing : Distinct w' → ∀ (l t : Nat) (y : TxnId), G.owners[l]? = some i → G.homes[t]? = some i →
    (w.client.transaction t).hint = some y → Sealed l y (tasks w) → Sealed l y (tasks w')
  opens : ∀ l : Nat, G.owners[l]? = some i → (∃ job ∈ tasks w, job.opens? = some l) →
    ∃ job ∈ tasks w', job.opens? = some l
  home : ∀ t : Nat, G.homes[t]? = some i → G'.homes[t]? = some i
  transaction : ∀ t : Nat, G.homes[t]? = some i →
    w'.client.transactions[t]? = w.client.transactions[t]?
  aggregate : ∀ (a : Nat) (A : Aggregate Waiting), w.client.aggregates[a]? = some A →
    A.context = i → w'.client.aggregates[a]? = some A
  live : ∀ (id : Nat) (a : Purpose) (t : Nat), G.homes[t]? = some i → a.ofTransaction →
    G.Live w.client id a t → G'.Live w'.client id a t
  due : ∀ (id : Nat) (a : Purpose) (t : Nat), G'.homes[t]? = some i → a.ofCaller →
    G'.Live w'.client id a t → G.homes[t]? = some i ∧ G.Live w.client id a t
  kept : Keeps w.client w'.client
  record : Distinct w' → ∀ (t : Nat) (y : TxnId) (r : Record), G.homes[t]? = some i →
    (w.client.transaction t).hint = some y → G.owners[r.link]? = some i →
    w.outside.broker.transactions.get? y = some r →
    ∃ r', w'.outside.broker.transactions.get? y = some r' ∧ r'.link = r.link ∧ r'.staged = r.staged
  taken : ∀ t : Nat, G.homes[t]? = some i →
    G'.taken.filter (·.1.transaction = t) = G.taken.filter (·.1.transaction = t)
  waiting : G'.waiting.filter (·.session = i) = G.waiting.filter (·.session = i)
  concluded : ∀ t : Nat, G.homes[t]? = some i → G'.Concluded w'.client t → G.Concluded w.client t
  declares : declares w ≤ declares w'
  exact_before : Exact w' → Exact w
  alone : ∀ (y : TxnId) (r : Record), w'.outside.broker.transactions.get? y = some r →
    G.owners[r.link]? = some i →
    ∃ r', w.outside.broker.transactions.get? y = some r' ∧ r'.link = r.link
  consumer : ∀ (c : Nat) (k : Consumer), k.session = i → w.outside.consumers[c]? = some k →
    w'.outside.consumers[c]? = some k
  received : ∀ (c : Nat) (k : Consumer), k.session = i → w'.outside.consumers[c]? = some k →
    w.outside.consumers[c]? = some k ∨ k.received = []

theorem Spares.refl (i : Nat) (G : Ledger) (w : State) : Spares i G w G w where
  session := rfl
  context := rfl
  owner _ := Iff.rfl
  link _ _ := rfl
  asked _ _ _ _ _ := rfl
  closing _ _ _ _ _ _ _ h := h
  opens _ _ h := h
  home _ h := h
  transaction _ _ := rfl
  aggregate _ _ h _ := h
  live _ _ _ _ _ h := h
  due _ _ _ ht _ h := ⟨ht, h⟩
  kept := .of_eq rfl
  record _ _ _ r _ _ _ h := ⟨r, h, rfl, rfl⟩
  taken _ _ := rfl
  waiting := rfl
  concluded _ _ h := h
  declares := Nat.le_refl _
  exact_before h := h
  alone _ r h _ := ⟨r, h, rfl⟩
  consumer _ _ _ h := h
  received _ _ _ h := .inl h

variable {G G' : Ledger} {w w' : State} {i t : Nat} {p : Phase Waiting} {co : Option Nat}
  {S : Session}

theorem Ledger.frame_eq (h : ∀ l : Nat, G'.owners[l]? = some i ↔ G.owners[l]? = some i) :
    G'.frame i = G.frame i := by
  have : (fun l : Nat => G'.owners[l]? = some i) = fun l => G.owners[l]? = some i :=
    funext fun l => propext (h l)
  simp only [Ledger.frame, this]

namespace Spares

variable (h : Spares i G w G' w')

include h

theorem staged (ht : G.homes[t]? = some i) : G'.staged t = G.staged t := by
  rw [Ledger.staged_eq, Ledger.staged_eq, h.taken t ht]

theorem mem_taken (ht : G.homes[t]? = some i) {e : Parcel × Fate} (he : e ∈ G'.taken)
    (het : e.1.transaction = t) : e ∈ G.taken := by
  have : e ∈ G'.taken.filter (·.1.transaction = t) := List.mem_filter.2 ⟨he, decide_eq_true het⟩
  rw [h.taken t ht] at this
  exact (List.mem_filter.1 this).1

theorem clean (ht : G.homes[t]? = some i) (hc : G.Clean t) : G'.Clean t :=
  fun _ he het => hc _ (h.mem_taken ht he het) het

theorem known (ht : G.homes[t]? = some i) (hk : G.Known t) : G'.Known t :=
  fun _ he het => hk _ (h.mem_taken ht he het) het

theorem fails {f : Failure} (ht : G.homes[t]? = some i) (hf : G.Fails t f) : G'.Fails t f := by
  obtain ⟨e, he, het, hr⟩ := hf
  have mem : e ∈ G.taken.filter (·.1.transaction = t) := List.mem_filter.2 ⟨he, decide_eq_true het⟩
  rw [← h.taken t ht] at mem
  exact ⟨e, (List.mem_filter.1 mem).1, het, hr⟩

theorem counted {j : Nat} (hc : Ledger.Counted w.client i j) : Ledger.Counted w'.client i j := by
  obtain ⟨A, hA, context, pending⟩ := hc
  exact ⟨A, h.aggregate j A hA context, context, pending⟩

theorem unsettled : G'.unsettled i = G.unsettled i := by
  rw [Ledger.unsettled_eq, Ledger.unsettled_eq, h.waiting]

theorem mem_waiting {x : Parcel} (hx : x ∈ G'.waiting) (hs : x.session = i) : x ∈ G.waiting := by
  have : x ∈ G'.waiting.filter (·.session = i) := List.mem_filter.2 ⟨hx, decide_eq_true hs⟩
  rw [h.waiting] at this
  exact (List.mem_filter.1 this).1

theorem hint (ht : G.homes[t]? = some i) :
    (w'.client.transaction t).hint = (w.client.transaction t).hint := by
  rw [Client.transaction, h.transaction t ht, Client.transaction]

theorem begins {q : Token Waiting} (ht : G.homes[t]? = some i)
    (hb : G.Begins w.client i t S q) : G'.Begins w'.client i t S q := by
  obtain ⟨b, e, hb, hl⟩ := hb
  exact ⟨b, e, hb, h.live b _ t ht rfl hl⟩

theorem ends {commit : Bool} {q : Token Waiting} (ht : G.homes[t]? = some i)
    (he : G.Ends w.client i t commit q) : G'.Ends w'.client i t commit q := by
  cases he with
  | plain ho hr => exact .plain (h.live _ _ t ht rfl ho) (h.live _ _ t ht rfl hr)
  | swapped hf hi ho hr =>
    exact .swapped hf (h.live _ _ t ht rfl hi) (h.live _ _ t ht rfl ho) (h.live _ _ t ht rfl hr)

theorem awaits {k : Nat} {A : Aggregate Waiting} (ht : G.homes[t]? = some i)
    (ha : G.Awaits w.client i t k A) : G'.Awaits w'.client i t k A := by
  obtain ⟨outcome, report, e, ho, hr⟩ := ha.request
  exact { ha with
    request := ⟨outcome, report, e, h.live _ _ t ht rfl ho, h.live _ _ t ht rfl hr⟩ }

theorem stance (ht : ∀ t, p.transaction = some t → G.homes[t]? = some i)
    (hs : G.Stance w.client i S p) : G'.Stance w'.client i S p := by
  cases p with
  | idle =>
    refine ⟨hs.1, fun b hb => ?_⟩
    obtain ⟨f, hf⟩ := hs.2 b hb
    exact ⟨f, h.kept b _ hf⟩
  | opening =>
    obtain ⟨hf, ho, hd, hb⟩ := hs
    have ht := ht _ rfl
    exact ⟨hf, h.live _ _ _ ht rfl ho, h.live _ _ _ ht rfl hd, h.begins ht hb⟩
  | declaring =>
    obtain ⟨hf, hd, hb⟩ := hs
    have ht := ht _ rfl
    exact ⟨hf, h.live _ _ _ ht rfl hd, h.begins ht hb⟩
  | active =>
    have ht := ht _ rfl
    obtain ⟨hc, ⟨hd, ha, hf⟩ | ⟨hd, a, A, ha, hA, haw, hk⟩⟩ := hs
    · exact ⟨hc, .inl ⟨hd, ha, fun e => h.clean ht (hf e)⟩⟩
    · exact ⟨hc, .inr ⟨hd, a, A, ha, h.aggregate a A hA haw.context, h.awaits ht haw,
        fun e => h.clean ht (hk e)⟩⟩
  | discharging =>
    have ht := ht _ rfl
    obtain ⟨hc, hd, ho, hl, he, hk, ha⟩ := hs
    exact ⟨hc, hd, ho, h.live _ _ _ ht rfl hl, h.ends ht he, fun e => h.clean ht (hk e),
      fun j e => h.counted (ha j e)⟩

theorem dues (hd : G.Dues w.client i S) : G'.Dues w'.client i S where
  started := hd.started
  begun c t ht hl := by
    obtain ⟨ht, hl⟩ := h.due c _ t ht rfl hl
    exact hd.begun c t ht hl
  report c ending t ht hl := by
    obtain ⟨ht, hl⟩ := h.due c _ t ht rfl hl
    exact hd.report c ending t ht hl
  alone c c' ending ending' t ht hl hl' := by
    obtain ⟨ht', hl⟩ := h.due c _ t ht rfl hl
    exact hd.alone c c' ending ending' t ht' hl (h.due c' _ t ht rfl hl').2
  failed f hf := by
    obtain ⟨t, current, home, fails⟩ := hd.failed f hf
    exact ⟨t, current, h.home t home, h.fails home fails⟩

theorem distinct (hd : Distinct w') : Distinct w := Nat.lt_of_le_of_lt h.declares hd

theorem seat (hs : Seat G i p co w) : Seat G' i p co w' := by
  have bound {t : Nat} {y : TxnId} (e : p.bound = some (t, y)) :
      G.homes[t]? = some i ∧ (w.client.transaction t).hint = some y :=
    ⟨(hs.home t (Phase.transaction_of_bound e)).1, hs.tables.hint t y e⟩
  have own {l : Nat} (hl : co = some l) : G.owners[l]? = some i := (hs.tables.coordinator l hl).1
  refine ⟨?_, fun l k hl hk hn => ?_, fun hd l y e => ?_, fun hd t y l k e hl hk hn => ?_,
    fun t e => ?_, fun t e hb => ?_, fun y r hr hl => ?_, fun C hC e he => ?_,
    fun hx c k hk hks hne => ?_⟩
  · rw [Ledger.frame_eq h.owner]
    refine hs.tables.spared h.context (fun l hl => h.link l hl) fun t y e => ?_
    rw [h.hint (bound e).1]
    exact (bound e).2
  · have hl := (h.owner l).1 hl
    have hk := (h.link l hl).symm.trans hk
    rw [h.asked l k hl hk hn]
    exact hs.asked l k hl hk hn
  · obtain ⟨d, t, hsl, hb⟩ := Phase.sealing_eq_some e
    exact h.closing hd l t y (own (hs.tables.slot l d hsl).1) (bound hb).1 (bound hb).2
      (hs.closing (h.distinct hd) l y e)
  · obtain ⟨ht, hy⟩ := bound (Phase.bound_of_recorded e)
    obtain ⟨hk', r, hr, rfl, hst⟩ :=
      hs.record (h.distinct hd) t y l k e hl ((h.link l (own hl)).symm.trans hk) hn
    obtain ⟨r', hr', hl', hs'⟩ := h.record hd t y r ht hy (own hl) hr
    exact ⟨h.known ht hk', r', hr', hl', by rw [hs', hst, h.staged ht]⟩
  · obtain ⟨ht, hn⟩ := hs.home t e
    exact ⟨h.home t ht, fun hc => hn (h.concluded t ht hc)⟩
  · rw [h.hint (hs.home t e).1]
    exact hs.unnamed t e hb
  · have hl := (h.owner r.link).1 hl
    obtain ⟨r', hr', e⟩ := h.alone y r hr hl
    exact hs.alone y r' hr' (e ▸ hl)
  · obtain ⟨k, hk, hks, hid⟩ := hs.enrolled C (h.context.symm.trans hC) e he
    exact ⟨k, h.consumer e.2 k hks hk, hks, hid⟩
  · have hk := (h.received c k hks hk).resolve_right hne
    obtain ⟨hp, C, hC, mem⟩ := hs.holding (h.exact_before hx) c k hk hks hne
    exact ⟨hp, C, h.context.trans hC, mem⟩

end Spares

theorem Rest.spared (hr : Rest G i p co S w) (h : Spares i G w G' w') : Rest G' i p co S w' where
  seat := h.seat hr.seat
  dues := h.dues hr.dues
  firm := hr.firm
  stance := h.stance (fun t e => (hr.seat.home t e).1) hr.stance
  opens l hl := h.opens l (hr.seat.tables.building l hl).1 (hr.opens l hl)
  session := h.session.trans hr.session
  context := hr.context
  count := hr.count.trans h.unsettled.symm
  current x hx hs he := hr.current x (h.mem_waiting hx hs) hs he

theorem Settled.spared (hs : Settled G i w) (h : Spares i G w G' w') : Settled G' i w' := by
  obtain ⟨p, co, S, hr⟩ := hs
  exact ⟨p, co, S, hr.spared h⟩

end Transact.Peer
