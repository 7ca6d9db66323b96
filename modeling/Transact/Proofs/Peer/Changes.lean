import Transact.Proofs.Peer.Apart

/-! # What changes while a session is at work

Each lemma about `Turn` takes one change that a session makes in the tables, and says which phase it
has reached then. The parts of the invariant come first: what the change does to the whole, and that it
spares all other sessions. -/

namespace Transact.Peer

variable {o : Origin} {G : Ledger} {due : Option Nat} {s n i t : Nat} {p p' : Phase Waiting}
  {co : Option Nat} {S S' : Session} {w w' : State} {a : Purpose} {r : Resolution Unit}

/-! ### New completions -/

theorem Common.addCompletion (h : Common G due w) (ha : a.ofCaller → n < G.homes.length) :
    Common (G.addPurpose a n) due (w.on (·.addCompletion)) :=
  { h with
    purposes := by
      simp only [Ledger.addPurpose, List.length_append, World.on, Client.addCompletion,
        Array.size_push, h.purposes, List.length_singleton]
    called := by
      intro c b t hc hb
      rcases Ledger.purposes_cases hc with hc | ⟨-, rfl, rfl⟩
      · exact h.called c b t hc hb
      · exact ha hb
    receipt := by
      intro x hx r hr
      obtain ⟨h₁, h₂⟩ := h.receipt x hx r hr
      exact ⟨h₁.addCompletion, h₂.addCompletion⟩
    held := fun hx d hd t ht =>
      (h.held hx d hd t ht).imp_left (Ledger.concluded_addCompletion h.purposes).2 }

theorem Ledger.report_addPurpose {b : Purpose} {c m : Nat} {ending : Ending}
    (hb : b.ofCaller = false) :
    (G.addPurpose b m).purposes[c]? = some (.report ending, t) ↔
      G.purposes[c]? = some (.report ending, t) := by
  refine ⟨fun h => (purposes_cases h).resolve_right ?_, purposes_old⟩
  rintro ⟨-, rfl, -⟩
  cases hb

/-- Only the session is concerned whose caller waits for the completion. -/
theorem Common.spares_addCompletion (h : Common G due w) (ha : a.ofCaller → G.homes[n]? ≠ some i) :
    Spares i G w (G.addPurpose a n) (w.on (·.addCompletion)) :=
  { Spares.refl i G w with
    live := fun _ _ _ _ _ hl => hl.addCompletion
    due := fun _ _ _ ht hb hl => by
      rcases Ledger.live_cases h.purposes hl with hl | ⟨-, rfl, rfl⟩
      · exact ⟨ht, hl⟩
      · exact absurd ht (ha hb)
    kept := .addCompletion
    concluded := fun _ _ => (Ledger.concluded_addCompletion h.purposes).1 }

theorem Turn.spared {G' : Ledger} (h : Turn o G due s p co S w) (hc : Common G' due w')
    (hs : ∀ i, Spares i G w G' w')
    (hn : w'.outside.sessions.size = w.outside.sessions.size) (ho : Since o G' w') :
    Turn o G' due s p co S w' where
  common := hc
  others i hi hne := (h.others i (hn ▸ hi) hne).spared (hs i)
  seat := (hs s).seat h.seat
  dues := (hs s).dues h.dues
  session := (hs s).session.trans h.session
  context := h.context
  count := h.count.trans (hs s).unsettled.symm
  current x hx hxs := h.current x ((hs s).mem_waiting hx hxs) hxs
  due := h.due
  since := ho

theorem Since.addCompletion (h : Since o G w) (hp : G.purposes.length = w.client.completions.size)
    (ha : ∀ ending, a ≠ .report ending) :
    Since o (G.addPurpose a n) (w.on (·.addCompletion)) := by
  refine { h with
    told := ?_, concluded := ?_, onward := h.onward.trans (.of_keeps .addCompletion)
    lawful := h.lawful.trans .addCompletion
    purposes := fun c b m e => Ledger.purposes_old (h.purposes c b m e), reports := ?_ }
  · exact fun id n hl => (h.told id n hl).addCompletion
  · exact fun t ht => h.concluded t ((Ledger.concluded_addCompletion hp).1 ht)
  · intro c ending t
    refine Iff.trans ⟨fun e => ?_, Ledger.purposes_old⟩ (h.reports c ending t)
    refine (Ledger.purposes_cases e).resolve_right ?_
    rintro ⟨-, rfl, -⟩
    exact ha ending rfl

theorem Turn.addCompletion (h : Turn o G due s p co S w) (ha : a.ofCaller = false) :
    Turn o (G.addPurpose a n) due s p co S (w.on (·.addCompletion)) := by
  have never {b : Prop} (e : a.ofCaller = true) : b := by
    rw [ha] at e
    cases e
  refine h.spared (h.common.addCompletion never) (fun _ => h.common.spares_addCompletion never) rfl
    (h.since.addCompletion h.common.purposes ?_)
  rintro ending rfl
  cases ha

/-- The same for a completion that a caller of the session waits for. -/
theorem Turn.addCall {o' : Origin} (h : Turn o G none s p co S w) (ht : G.homes[n]? = some s)
    (hd : (G.addPurpose a n).Dues w.client.addCompletion s S)
    (ho : Since o' (G.addPurpose a n) (w.on (·.addCompletion))) :
    Turn o' (G.addPurpose a n) none s p co S (w.on (·.addCompletion)) where
  common := h.common.addCompletion fun _ => (List.getElem?_eq_some_iff.1 ht).1
  others i hi hne := (h.others i hi hne).spared (h.common.spares_addCompletion fun _ e =>
    hne (Option.some.inj (e.symm.trans ht)))
  seat := { h.seat with
    tables := h.seat.tables.congr rfl rfl rfl
    home := fun t e => (h.seat.home t e).imp_right fun hn hc =>
      hn ((Ledger.concluded_addCompletion h.common.purposes).1 hc) }
  dues := hd
  session := h.session
  context := h.context
  count := h.count
  current := h.current
  due := nofun
  since := ho

namespace Ledger.Dues

variable {x : Client Waiting} {ending : Ending}

theorem of_same {G' : Ledger} {x' : Client Waiting} (h : G.Dues x s S)
    (hG : G'.purposes = G.purposes) (hh : G'.homes = G.homes) (ht : G'.taken = G.taken)
    (hx : x'.completions = x.completions) : G'.Dues x' s S where
  started := h.started
  begun c t ht hl := h.begun c t (hh ▸ ht) (hl.congr hG.symm hx.symm)
  report c ending t ht hl := h.report c ending t (hh ▸ ht) (hl.congr hG.symm hx.symm)
  alone c c' ending ending' t ht hl hl' :=
    h.alone c c' ending ending' t (hh ▸ ht) (hl.congr hG.symm hx.symm) (hl'.congr hG.symm hx.symm)
  failed f hf := by
    obtain ⟨t, current, home, e, he, fails⟩ := h.failed f hf
    exact ⟨t, current, hh ▸ home, e, ht ▸ he, fails⟩

theorem congr (h : G.Dues x s S) (hb : S'.beginning = S.beginning) (hc : S'.current = S.current)
    (hd : S'.discharging = S.discharging) (hf : S'.failedSend = S.failedSend) : G.Dues x s S' where
  started := by
    rw [hb, hc]
    exact h.started
  begun c t ht hl := by
    rw [hb, hc]
    exact h.begun c t ht hl
  report c ending t ht hl := by
    rw [hc, hd]
    exact h.report c ending t ht hl
  alone := h.alone
  failed := by
    rw [hc, hf]
    exact h.failed

theorem addBegin (h : G.Dues x s S) (hp : G.purposes.length = x.completions.size)
    (hn : ∀ c t : Nat, G.homes[t]? = some s → ¬ G.Live x c .begun t)
    (hb : S.beginning = some x.completions.size) (hc : S.current = none) :
    (G.addPurpose .begun n).Dues x.addCompletion s S where
  started := h.started
  failed := h.failed
  begun c t ht hl := by
    rcases live_cases hp hl with hl | ⟨rfl, -, -⟩
    · exact absurd hl (hn c t ht)
    · exact ⟨hb, hc⟩
  report c ending t ht hl := by
    rcases live_cases hp hl with hl | ⟨-, e, -⟩
    · exact h.report c ending t ht hl
    · cases e
  alone c c' ending ending' t ht hl hl' := by
    rcases live_cases hp hl with hl | ⟨-, e, -⟩
    · rcases live_cases hp hl' with hl' | ⟨-, e, -⟩
      · exact h.alone c c' ending ending' t ht hl hl'
      · cases e
    · cases e

/-- The end of the transaction that the session is in was not asked for before. -/
theorem addReport (h : G.Dues x s S) (hp : G.purposes.length = x.completions.size)
    (hn : ∀ (c : Nat) (ending : Ending) (t : Nat), G.homes[t]? = some s →
      ¬ G.Live x c (.report ending) t)
    (hc : S.current = some n) (hd : S.discharging = true) :
    (G.addPurpose (.report ending) n).Dues x.addCompletion s S where
  started := h.started
  failed := h.failed
  begun c t ht hl := by
    rcases live_cases hp hl with hl | ⟨-, e, -⟩
    · exact h.begun c t ht hl
    · cases e
  report c ending t ht hl := by
    rcases live_cases hp hl with hl | ⟨-, -, rfl⟩
    · exact absurd hl (hn c ending t ht)
    · exact ⟨hc, hd⟩
  alone c c' ending ending' t ht hl hl' := by
    rcases live_cases hp hl with hl | ⟨rfl, -, -⟩
    · exact absurd hl (hn c ending t ht)
    · rcases live_cases hp hl' with hl' | ⟨rfl, -, -⟩
      · exact absurd hl' (hn c' ending' t ht)
      · rfl

theorem write {id : Nat} (h : G.Dues x s S) : G.Dues (x.write id (.settled r)) s S where
  started := h.started
  failed := h.failed
  begun c t ht hl := h.begun c t ht hl.before
  report c ending t ht hl := h.report c ending t ht hl.before
  alone c c' ending ending' t ht hl hl' := h.alone c c' ending ending' t ht hl.before hl'.before

/-- The session enters a transaction when nobody waits for the begin any more. -/
theorem enter {id : Nat} (h : G.Dues x s S) (hb : S.beginning = some id) (hc : S.current = none)
    (hb' : S'.beginning = S.beginning) (hf : S'.failedSend = none) :
    G.Dues (x.write id (.settled r)) s S' where
  failed f e := by cases hf.symm.trans e
  started _ := by rw [hb', hb, Option.isSome_some]
  begun c t ht hl := by
    obtain rfl := Option.some.inj ((h.begun c t ht hl.before).1.symm.trans hb)
    exact absurd rfl (Client.pending_write.1 hl.2).2
  report c ending t ht hl := by
    have current := (h.report c ending t ht hl.before).1
    rw [hc] at current
    cases current
  alone c c' ending ending' t ht hl hl' := h.alone c c' ending ending' t ht hl.before hl'.before

/-- The session may leave its transaction when nobody waits for the end any more. -/
theorem leave {id : Nat} (h : G.Dues x s S) (hl : G.Live x id (.report ending) t)
    (ht : G.homes[t]? = some s) (hc : S'.current = none) (hf : S'.failedSend = none) :
    G.Dues (x.write id (.settled r)) s S' where
  failed f e := by cases hf.symm.trans e
  started e := by
    rw [hc] at e
    cases e
  begun c t' ht' hl' := by
    have current := (h.report id ending t ht hl).1
    rw [(h.begun c t' ht' hl'.before).2] at current
    cases current
  report c ending' t' ht' hl' := by
    have current := (h.report c ending' t' ht' hl'.before).1
    obtain rfl : t = t' := Option.some.inj ((h.report id ending t ht hl).1.symm.trans current)
    obtain rfl := h.alone id c ending ending' t ht hl hl'.before
    exact absurd rfl (Client.pending_write.1 hl'.2).2
  alone c c' ending ending' t ht hl hl' := h.alone c c' ending ending' t ht hl.before hl'.before

end Ledger.Dues

/-! ### New transactions -/

theorem hint_addTransaction {x : Client Waiting} {id : TransactionId} :
    ((x.addTransaction id).transaction t).hint = (x.transaction t).hint := by
  unfold Client.transaction Client.addTransaction
  rw [Array.getElem?_push]
  split
  · next e =>
    rw [e, Array.getElem?_eq_none (Nat.le_refl _)]
    rfl
  · rfl

theorem Common.addTransaction (h : Common G due w) {id : TransactionId}
    (hs : s < w.outside.sessions.size) :
    Common (G.addHome s) due (w.on (·.addTransaction id)) :=
  { h with
    homes := by
      simp only [Ledger.addHome, List.length_append, World.on, Client.addTransaction,
        Array.size_push, h.homes, List.length_singleton]
    home := by
      intro t i ht
      rw [Ledger.addHome, List.getElem?_append] at ht
      split at ht
      · exact h.home t i ht
      · rw [List.getElem?_singleton] at ht
        split at ht
        · exact Option.some.inj ht ▸ hs
        · cases ht
    called := by
      intro c a t hc ha
      have := h.called c a t hc ha
      simp only [Ledger.addHome, List.length_append]
      omega
    parcel := by
      intro x hx
      obtain ⟨hh, hy⟩ := h.parcel x hx
      refine ⟨?_, hint_addTransaction.trans hy⟩
      exact (List.getElem?_append_left (List.getElem?_eq_some_iff.1 hh).1).trans hh
    names := fun t y hy => h.names t y (hint_addTransaction.symm.trans hy)
    named := fun hx t t' y hy hy' =>
      h.named hx t t' y (hint_addTransaction.symm.trans hy) (hint_addTransaction.symm.trans hy') }

/-- The new transaction is the last one, and belongs to the session. -/
theorem Turn.addTransaction (h : Turn o G due s p co S w) (id : TransactionId) :
    Turn o (G.addHome s) due s p co S (w.on (·.addTransaction id)) := by
  have old {t i : Nat} (ht : G.homes[t]? = some i) : (G.addHome s).homes[t]? = some i :=
    (List.getElem?_append_left (List.getElem?_eq_some_iff.1 ht).1).trans ht
  refine h.spared (h.common.addTransaction (Array.getElem?_eq_some_iff.1 h.session).1)
    (fun i => { Spares.refl i G w with
      home := fun _ => old, transaction := fun t ht => ?_, due := fun c a t ht ha hl => ?_ })
    rfl { h.since with
      onward := h.since.onward.trans (.of_same rfl rfl rfl le_rfl le_rfl le_rfl)
      homes := fun t i ht => old (h.since.homes t i ht) }
  · have lt := h.common.homes ▸ (List.getElem?_eq_some_iff.1 ht).1
    simp only [World.on, Client.addTransaction, Array.getElem?_push, if_neg (Nat.ne_of_lt lt)]
  · have lt := h.common.called c a t hl.1 ha
    rw [Ledger.addHome, List.getElem?_append_left lt] at ht
    exact ⟨ht, hl⟩

/-! ### Sessions -/

theorem Common.changeSession (h : Common G due w) {f : Session → Session}
    (hf : ∀ S, (f S).id = S.id ∧ (f S).consumerNumber = S.consumerNumber) :
    Common G due (w.out (·.changeSession s f)) :=
  { h with
    contexts := by simpa only [World.out, Outside.changeSession, Array.size_modify] using h.contexts
    owner := by simpa only [World.out, Outside.changeSession, Array.size_modify] using h.owner
    home := by simpa only [World.out, Outside.changeSession, Array.size_modify] using h.home
    producer := by
      simpa only [World.out, Outside.changeSession, Array.size_modify] using h.producer
    consumer := by
      simpa only [World.out, Outside.changeSession, Array.size_modify] using h.consumer
    roster := h.roster.modify hf }

theorem Turn.unsent (h : Turn o G due s p co S w) (hS : S.outstanding = 0) {x : Parcel}
    (hx : x ∈ G.waiting) (hs : x.session = s) : x.receipt.isSome = false := by
  have : G.unsettled s = 0 := h.count.symm.trans hS
  have := List.countP_eq_zero.1 this x hx
  simpa [hs] using this

/-- What a session remembers may change, but not that messages are on their way. -/
theorem Turn.changeSession (h : Turn o G due s p co S w) {f : Session → Session}
    (hx : (f S).context = S.context) (ho : (f S).outstanding = S.outstanding)
    (hc : (f S).current = S.current ∨ S.outstanding = 0) (hd : G.Dues w.client s (f S))
    (hb : S.beginning.isSome → (f S).beginning.isSome)
    (hf : ∀ S, (f S).id = S.id ∧ (f S).consumerNumber = S.consumerNumber) :
    Turn o G due s p co (f S) (w.out (·.changeSession s f)) where
  common := h.common.changeSession hf
  others i hi hne := by
    rw [World.out, Outside.changeSession, Array.size_modify] at hi
    exact (h.others i hi hne).spared
      { Spares.refl i G w with session := Outside.changeSession_other hne }
  seat := { h.seat with }
  dues := hd
  session := Outside.changeSession_same h.session
  context := hx.trans h.context
  count := ho.trans h.count
  current x hxw hxs he := by
    rcases hc with hc | hc
    · exact hc.trans (h.current x hxw hxs he)
    · exact absurd he (by simp [h.unsent hc hxw hxs])
  due := h.due
  since := { h.since with
    onward := h.since.onward.trans (.changeSession fun S' hS hb' => by
      obtain rfl := Option.some.inj (h.session.symm.trans hS)
      exact hb hb') }

/-! ### Settling -/

theorem Common.write (h : Common G due w) {id : Nat} {due' : Option Nat}
    (hl : G.Live w.client id a t) (ha : a.ofTransaction)
    (hd : ∀ t', due = some t' →
      due' = some t' ∨ (a = .report .commit ∧ t = t' ∧ r = .succeeded ())) :
    Common G due' (w.on (·.write id (.settled r))) :=
  { h with
    purposes := by simpa only [World.on, Client.write, Array.size_setIfInBounds] using h.purposes
    receipt := by
      intro x hx e he
      obtain ⟨h₁, h₂⟩ := h.receipt x hx e he
      refine ⟨h₁.write hl.1 ?_, h₂.write hl.1 ?_⟩
      · rintro ⟨⟩
        cases ha
      · rintro ⟨⟩
        cases ha
    held := by
      intro hx d hb t' ht
      rcases h.held hx d hb t' ht with ht | ht
      · exact .inl ((Ledger.concluded_write hl).2 (.inl ht))
      · exact (hd t' ht).symm.imp_left fun e => (Ledger.concluded_write hl).2 (.inr e) }

theorem spares_write {id : Nat} (hl : G.Live w.client id a t) (ht : G.homes[t]? = some s)
    (hi : i ≠ s) : Spares i G w G (w.on (·.write id (.settled r))) where
  __ := Spares.refl i G w
  live id' a' t' ht' _ hl' := by
    refine hl'.write hl.1 ?_
    rintro ⟨⟩
    exact hi (Option.some.inj (ht'.symm.trans ht))
  due _ _ _ ht' _ hl' := ⟨ht', hl'.before⟩
  kept := .write hl.2
  concluded t' ht' hc := by
    rcases (Ledger.concluded_write hl).1 hc with hc | ⟨-, rfl, -⟩
    · exact hc
    · exact absurd (Option.some.inj (ht'.symm.trans ht)) hi

/-- A completion of the session is settled. This does not conclude a transaction. -/
theorem Turn.write (h : Turn o G due s p co S w) {id : Nat} (hl : G.Live w.client id a t)
    (ha : a.ofTransaction) (ht : G.homes[t]? = some s) (legal : r.Legal)
    (hr : a = .report .commit → r ≠ .succeeded ()) :
    Turn o G due s p co S (w.on (·.write id (.settled r))) := by
  have same {t' : Nat} :
      G.Concluded (w.client.write id (.settled r)) t' ↔ G.Concluded w.client t' :=
    (Ledger.concluded_write hl).trans (or_iff_left fun e => hr e.1 e.2.2)
  refine { h with
    common := h.common.write hl ha fun _ => .inl
    others := fun i hi hne => (h.others i hi hne).spared (spares_write hl ht hne)
    seat := { h.seat with tables := h.seat.tables.congr rfl rfl rfl, home := ?_ }
    dues := h.dues.write
    since := { h.since with
      told := ?_, concluded := ?_, onward := h.since.onward.trans (.of_keeps (.write hl.2))
      lawful := h.since.lawful.trans (.write legal) } }
  · intro t' e
    exact (h.seat.home t' e).imp_right fun hn hc => hn (same.1 hc)
  · intro c n hc
    refine (h.since.told c n hc).write hl.1 ?_
    rintro ⟨⟩
    cases ha
  · exact fun t' hc => h.since.concluded t' (same.1 hc)

/-- **The caller of a commit is told** that the transaction has been committed. -/
theorem Turn.report (h : Turn o G due s p co S w) {id : Nat} (hd : due = some t)
    (hl : G.Live w.client id (.report .commit) t) (ht : G.homes[t]? = some s)
    (hp : p.transaction ≠ some t) :
    Turn o G none s p co S (w.on (·.write id (.settled (.succeeded ())))) := by
  have told {t' : Nat} := Ledger.concluded_write (t := t') (r := .succeeded ()) hl
  refine { h with
    common := h.common.write hl rfl fun t' e => .inr ⟨rfl, Option.some.inj (hd.symm.trans e), rfl⟩
    others := fun i hi hne => (h.others i hi hne).spared (spares_write hl ht hne)
    seat := { h.seat with tables := h.seat.tables.congr rfl rfl rfl, home := ?_ }
    dues := h.dues.write
    due := fun _ e => by cases e
    since := { h.since with
      told := ?_, concluded := ?_, onward := h.since.onward.trans (.of_keeps (.write hl.2))
      lawful := h.since.lawful.trans (.write nofun) } }
  · intro t' e
    refine (h.seat.home t' e).imp_right fun hn hc => ?_
    rcases told.1 hc with hc | ⟨-, rfl, -⟩
    · exact hn hc
    · exact hp e
  · exact fun c n hc => (h.since.told c n hc).write hl.1 (by rintro ⟨⟩)
  · intro t' hc
    rcases told.1 hc with hc | ⟨-, rfl, -⟩
    · exact h.since.concluded t' hc
    · exact .inr (h.due t hd)

/-! ### Contexts -/

theorem Common.changeContext (h : Common G due w) {g : Context → Context} :
    Common G due (w.on (·.changeContext s g)) :=
  { h with
    contexts := by simpa only [World.on, Client.changeContext, Array.size_modify] using h.contexts }

theorem spares_changeContext {g : Context → Context} (hi : i ≠ s) :
    Spares i G w G (w.on (·.changeContext s g)) :=
  { Spares.refl i G w with
    context := by
      simp only [World.on, Client.changeContext, Array.getElem?_modify, Ne.symm hi, if_false] }

/-- The broker has nothing on record for the session. -/
def Unrecorded (G : Ledger) (s : Nat) (w : State) : Prop :=
  ∀ y r, w.outside.broker.transactions.get? y = some r → G.owners[r.link]? ≠ some s

/-- The consumers of the session hold nothing. -/
def Bare (s : Nat) (w : State) : Prop :=
  ∀ (c : Nat) (k : Consumer), w.outside.consumers[c]? = some k → k.session = s → k.received = []

theorem Seat.unrecorded (h : Seat G s p co w) (hp : p.recorded = none) : Unrecorded G s w := by
  intro y r hr hl
  obtain ⟨t, e⟩ := h.alone y r hr hl
  cases hp.symm.trans e

theorem Seat.bare (h : Seat G s p co w) (hp : ¬ p.Holding) (hx : Exact w) : Bare s w := by
  intro c k hk hs
  refine Decidable.byContradiction fun hne => hp ?_
  exact (h.holding hx c k hk hs hne).1

theorem Turn.relabel (h : Turn o G due s p co S w) {g : Context → Context} (hp : p.Still)
    (hp' : p'.Still) (hg : ∀ k, ContextAt p co k → ContextAt p' co (g k))
    (ht : ∀ t, p'.transaction = some t → G.homes[t]? = some s ∧ ¬ G.Concluded w.client t ∧
      p'.bound ≠ none)
    (hb : ∀ t y, p'.bound = some (t, y) → (w.client.transaction t).hint = some y ∧ co ≠ none)
    (hr : Distinct w → ∀ t y l k, p'.recorded = some (t, y) → co = some l → w.client.links[l]? = some k →
      k.state ≠ .closed → G.Known t ∧ ∃ r, w.outside.broker.transactions.get? y = some r ∧
        r.link = l ∧ r.staged.toList = G.staged t)
    (hn : Unrecorded G s w) (hw : Exact w → Bare s w)
    (hm : ∀ k, ∀ e ∈ (g k).registry.consumers.entries, e ∈ k.registry.consumers.entries) :
    Turn o G due s p' co S (w.on (·.changeContext s g)) := by
  obtain ⟨k, hk, hkc⟩ := h.seat.tables.context
  have hk : w.client.contexts[s]? = some k := hk
  refine { h with
    common := h.common.changeContext
    others := fun i hi hne => (h.others i hi hne).spared (spares_changeContext hne)
    seat := ⟨?_, ?_, ?_, hr, fun t e => ⟨(ht t e).1, (ht t e).2.1⟩,
      fun t e hb => absurd hb (ht t e).2.2, fun y r hr hl => absurd hl (hn y r hr), ?_,
      fun hx c k hk hs hne => absurd (hw hx c k hk hs) hne⟩
    dues := h.dues.of_same rfl rfl rfl rfl
    since := { h.since with onward := h.since.onward.trans (.of_same rfl rfl rfl le_rfl le_rfl le_rfl) } }
  · refine h.seat.tables.relabel hp hp' (Client.changeContext_same hk) (hg k hkc) rfl
      (fun t y e => (hb t y e).1) fun e => ?_
    obtain ⟨⟨t, y⟩, e⟩ := Option.ne_none_iff_exists'.1 e
    exact (hb t y e).2
  · intro l k' hl hk' hn
    rw [hp'.asks, ← hp.asks]
    exact h.seat.asked l k' hl hk' hn
  · intro _ l y e
    rw [hp'.sealing] at e
    cases e
  · intro C hC e he
    obtain rfl := Option.some.inj ((Client.changeContext_same hk).symm.trans hC)
    exact h.seat.enrolled k hk e (hm k e he)

theorem Turn.forget (h : Turn o G due s p co S w) {g : Context → Context} (hp : p.Still)
    (hg : ∀ k, ContextAt p co k → ContextAt (.idle : Phase Waiting) co (g k))
    (hn : Unrecorded G s w) (hw : Exact w → Bare s w)
    (hm : ∀ k, ∀ e ∈ (g k).registry.consumers.entries, e ∈ k.registry.consumers.entries) :
    Turn o G due s .idle co S (w.on (·.changeContext s g)) :=
  h.relabel hp ⟨rfl, rfl⟩ hg (fun _ e => by cases e) (fun _ _ e => by cases e)
    (fun _ _ _ _ _ e => by cases e) hn hw hm

/-- The context changes in who is enrolled: consumers of the session, and no holder is left out. -/
theorem Turn.reenrol (h : Turn o G due s p co S w) {g : Context → Context}
    (hg : ∀ k, ContextAt p co k → ContextAt p co (g k))
    (hm : ∀ C, w.client.contexts[s]? = some C → ∀ e ∈ (g C).registry.consumers.entries,
      ∃ k, w.outside.consumers[e.2]? = some k ∧ k.session = s ∧ k.id.text = e.1)
    (hh : Exact w → ∀ C (c : Nat) (k : Consumer), w.outside.consumers[c]? = some k → k.session = s →
      (k.id.text, c) ∈ C.registry.consumers.entries →
      (k.id.text, c) ∈ (g C).registry.consumers.entries) :
    Turn o G due s p co S (w.on (·.changeContext s g)) := by
  obtain ⟨k, hk, hkc⟩ := h.seat.tables.context
  have hk : w.client.contexts[s]? = some k := hk
  refine { h with
    common := h.common.changeContext
    others := fun i hi hne => (h.others i hi hne).spared (spares_changeContext hne)
    seat := { h.seat with tables := ?_, enrolled := ?_, holding := ?_ }
    dues := h.dues.of_same rfl rfl rfl rfl
    since := { h.since with onward := h.since.onward.trans (.of_same rfl rfl rfl le_rfl le_rfl le_rfl) } }
  · exact h.seat.tables.recontext (Client.changeContext_same hk) (hg k hkc) rfl rfl
  · intro C hC e he
    obtain rfl := Option.some.inj ((Client.changeContext_same hk).symm.trans hC)
    exact hm k hk e he
  · intro hx c x hc hs hne
    obtain ⟨hp, C, hC, mem⟩ := h.seat.holding hx c x hc hs hne
    obtain rfl := Option.some.inj (hk.symm.trans hC)
    exact ⟨hp, _, Client.changeContext_same hk, hh hx k c x hc hs mem⟩

theorem Turn.recontext (h : Turn o G due s p co S w) {g : Context → Context}
    (hg : ∀ k, ContextAt p co k → ContextAt p co (g k))
    (hm : ∀ k, (g k).registry.consumers = k.registry.consumers) :
    Turn o G due s p co S (w.on (·.changeContext s g)) :=
  h.reenrol hg (fun C hC e he => h.seat.enrolled C hC e (hm C ▸ he)) fun _ C _ _ _ _ mem => hm C ▸ mem

theorem Turn.enrol (h : Turn o G due s p co S w) {c : Nat} {k : Consumer}
    (hk : w.outside.consumers[c]? = some k) (hs : k.session = s) :
    Turn o G due s p co S (w.on (·.changeContext s fun x => { x with
      registry := x.registry.enrolConsumer k.id c })) := by
  refine h.reenrol (fun x hx => ⟨hx.stage, hx.current, hx.accepted, hx.enrolled, hx.coordinator⟩)
    (fun C hC e he => ?_) fun hx C c' k' hk' hs' mem => ?_
  · rcases Roll.mem_put he with ⟨e₁, e₂⟩ | he
    · exact ⟨k, e₂ ▸ hk, hs, e₁.symm⟩
    · exact h.seat.enrolled C hC e he
  · by_cases same : k'.id.text = k.id.text
    · obtain rfl := h.common.roster.distinct hx.2.2 c' c k' k hk' hk (hs'.trans hs.symm) same
      rw [same]
      exact Roll.mem_of_get? (Roll.get?_put.trans (if_pos rfl))
    · exact Roll.mem_put_of_mem mem same

/-! ### Aggregates -/

theorem Turn.addAggregate (h : Turn o G due s p co S w) {A : Aggregate Waiting} :
    Turn o G due s p co S (w.on (·.addAggregate A)) := by
  have old {a : Nat} {B : Aggregate Waiting} (hB : w.client.aggregates[a]? = some B) :
      (w.client.aggregates.push A)[a]? = some B := by
    have lt := (Array.getElem?_eq_some_iff.1 hB).1
    exact (Array.getElem?_push_lt lt).trans ((Array.getElem?_eq_getElem lt).symm.trans hB)
  refine h.spared { h.common with }
    (fun i => { Spares.refl i G w with aggregate := fun a B hB _ => old hB }) rfl
    { h.since with
      onward := h.since.onward.trans (.of_same rfl rfl rfl le_rfl le_rfl le_rfl)
      counted := fun i j hc => ?_ }
  obtain ⟨B, hB, context⟩ := h.since.counted i j hc
  exact ⟨B, old hB, context⟩

theorem Turn.changeAggregate (h : Turn o G due s p co S w) {a : Nat} {A : Aggregate Waiting}
    (sends : Aggregation) (hA : w.client.aggregates[a]? = some A) (hc : A.context = s)
    (hp : A.sends.pending ≠ .ofNat 0) :
    Turn o G due s p co S (w.on (·.changeAggregate a sends)) := by
  have other {b : Nat} {B : Aggregate Waiting} (hB : w.client.aggregates[b]? = some B) (hne : A ≠ B) :
      (w.client.changeAggregate a sends).aggregates[b]? = some B := by
    have : a ≠ b := by
      rintro rfl
      exact hne (Option.some.inj (hA.symm.trans hB))
    simpa [Client.changeAggregate, Array.getElem?_modify, this] using hB
  refine { h with
    common := { h.common with }
    others := fun i hi hne => (h.others i hi hne).spared
      { Spares.refl i G w with aggregate := fun b B hB hBc => ?_ }
    seat := { h.seat with tables := h.seat.tables.congr rfl rfl rfl }
    dues := h.dues.of_same rfl rfl rfl rfl
    since := { h.since with
      onward := h.since.onward.trans (.of_same rfl rfl rfl le_rfl le_rfl le_rfl)
      counted := fun i j hj => ?_ } }
  · refine other hB ?_
    rintro rfl
    exact hne (hBc.symm.trans hc)
  · obtain ⟨B, hB, context, pending⟩ := h.since.counted i j hj
    refine ⟨B, other hB ?_, context, pending⟩
    rintro rfl
    exact hp pending

end Transact.Peer
