import Transact.Proofs.Peer.Answers

/-! # Messages

A message that a session sends waits in the loop, in the order of all transfers. When it is taken in,
it is staged in its transaction, unless it is made to fail or its transaction is gone. Its session
counts it then, if it was not presettled; the last one to be counted may end the transaction.

* `Calm.transfer`: all is at rest after a message was taken in.
* `Calm.deposit`, `Calm.takeDeposit`: so it is for a message from elsewhere, which belongs to nobody.
* `Calm.send`: all is at rest after a message was sent. -/

namespace Transact.Peer

open Run

variable {o : Origin} {G G' : Ledger} {due : Option Nat} {s n i t : Nat} {p : Phase Waiting}
  {co : Option Nat} {S : Session} {w v : State} {x : Parcel} {rest : List Parcel} {fate : Fate}
  {r : Resolution Unit} {loop : Loop Task} {b b' : Broker}

/-! ### What the broker does with a message -/

/-- The message has met its fate at the broker, which tells the sender `r`. -/
structure Meets (b : Broker) (x : Parcel) (fate : Fate) (r : Resolution Unit) (b' : Broker) :
    Prop where
  txnCounter : b'.txnCounter = b.txnCounter
  delivery : fate.delivery? = if b.transfersToFail.contains (.ofNat x.index) then none
    else some ⟨b.tagCounter, x.address, x.body⟩
  tagged : ∀ d, fate.delivery? = some d → b'.tagCounter = b.tagCounter + 1
  held : ∀ d, b'.Holds d → b.Holds d
  other : ∀ y r, y ≠ x.txnId → b.transactions.get? y = some r →
    ∃ r', b'.transactions.get? y = some r' ∧ r'.link = r.link ∧ r'.staged = r.staged
  own : ∀ r, b.transactions.get? x.txnId = some r → (∀ d, fate ≠ .lost d) ∧
    ∃ r', b'.transactions.get? x.txnId = some r' ∧ r'.link = r.link ∧
      r'.staged.toList = r.staged.toList ++ fate.staged?.toList
  result : r = fate.resolution x
  takes : Broker.Takes b b'
  balance : Broker.Balance 0 b b'

theorem exact_intake {g : Broker → Broker} (h : Broker.Takes w.outside.broker (g w.outside.broker))
    (hx : Exact ((w.out (·.withLoop loop)).out (·.changeBroker g))) : Exact w :=
  ⟨hx.1, Nat.le_trans h.tagCounter hx.2.1, hx.2.2⟩

theorem meets (b : Broker) (x : Parcel) : ∃ fate, Meets b x fate
    (b.transfer x.index x.address x.body (some (.enrolling x.txnId))).1
    (b.transfer x.index x.address x.body (some (.enrolling x.txnId))).2 := by
  have takes : Broker.Takes b (b.transfer x.index x.address x.body (some (.enrolling x.txnId))).2 :=
    Broker.takes_transfer
  have balance : Broker.Balance 0 b
    (b.transfer x.index x.address x.body (some (.enrolling x.txnId))).2 := Broker.balance_transfer
  rcases Broker.transfer_cases b x.index x.address x.body (.enrolling x.txnId) fun _ => False with
    ⟨hf, hr, hm⟩ | ⟨hf, hg, hr, hb⟩ | ⟨hf, rec, hg, hr, hb⟩
  · refine ⟨.failed, hm.txnCounter, (if_pos hf).symm, nofun,
      fun d hd => (hm.held d hd).resolve_right List.not_mem_nil, fun y r _ hy => hm.record y r hy id,
      fun r hy => ⟨nofun, ?_⟩, hr, takes, balance⟩
    obtain ⟨r', hr', hl, hs⟩ := hm.record _ r hy id
    exact ⟨r', hr', hl, by rw [hs]; exact (List.append_nil _).symm⟩
  · rw [hb] at takes balance
    rw [hr, hb]
    refine ⟨.lost ⟨b.tagCounter, x.address, x.body⟩, rfl, (if_neg hf).symm, fun _ _ => rfl, fun _ => id,
      fun y r _ hy => ⟨r, hy, rfl, rfl⟩, fun r hy => ?_, rfl, takes, balance⟩
    cases hg.symm.trans hy
  · rw [hb] at takes balance
    rw [hr, hb]
    refine ⟨.staged ⟨b.tagCounter, x.address, x.body⟩, rfl, (if_neg hf).symm, fun _ _ => rfl, ?_,
      fun y r hy h => ⟨r, ?_, rfl, rfl⟩, fun r hy => ⟨nofun, ?_⟩, rfl, takes, balance⟩
    · rintro d (hd | hd | ⟨y, r, h, hd⟩)
      · exact .inl hd
      · exact .inr (.inl hd)
      · rcases Roll.mem_put h with ⟨-, rfl⟩ | h
        · exact .inr (.inr ⟨_, rec, Roll.mem_of_get? hg, hd⟩)
        · exact .inr (.inr ⟨y, r, h, hd⟩)
    · show (b.transactions.put x.txnId _).get? y = some r
      rw [Roll.get?_put, if_neg hy, h]
    · obtain rfl := Option.some.inj (hg.symm.trans hy)
      refine ⟨_, Roll.get?_put.trans (if_pos rfl), rfl, ?_⟩
      exact Queue.toList_pushBack

/-- A failure that is not reported is none: the message was staged. -/
theorem Meets.staged (h : Meets b x fate r b') (none : r.cause? = none) : ∃ d, fate = .staged d := by
  rw [h.result] at none
  cases fate with
  | staged d => exact ⟨d, rfl⟩
  | _ => cases none

/-! ### What is known then -/

/-- The first message that waits is taken in. -/
def Ledger.intake (G : Ledger) (x : Parcel) (fate : Fate) (rest : List Parcel) : Ledger :=
  { G with taken := G.taken ++ [(x, fate)], waiting := rest }

namespace Ledger

theorem parcels_intake (hw : G.waiting = x :: rest) (fate : Fate) :
    (G.intake x fate rest).parcels = G.parcels := by
  simp [parcels, intake, hw]

theorem staged_intake : (G.intake x fate rest).staged t =
    G.staged t ++ if x.transaction = t then fate.staged?.toList else [] := by
  rw [staged, intake, List.filterMap_append, ← staged]
  by_cases h : x.transaction = t
  · cases e : fate.staged? <;> simp [h, e]
  · simp [h]

theorem unsettled_intake (hw : G.waiting = x :: rest) (fate : Fate) : G.unsettled s =
    (G.intake x fate rest).unsettled s + if x.session = s ∧ x.receipt.isSome then 1 else 0 := by
  rw [unsettled, hw, List.countP_cons]
  simp [unsettled, intake]

theorem clean_intake (h : G.Clean t)
    (hx : x.transaction = t → x.receipt.isSome → ∃ d, fate = .staged d) :
    (G.intake x fate rest).Clean t := by
  intro e he het hes
  rcases List.mem_append.1 he with he | he
  · exact h e he het hes
  · obtain rfl := List.mem_singleton.1 he
    exact hx het hes

/-- What a session keeps of a failed send is not changed by what else is taken in. -/
theorem Dues.intake {y : Client Waiting} (h : G.Dues y s S) : (G.intake x fate rest).Dues y s S :=
  { h with
    failed := fun f hf => by
      obtain ⟨t, current, home, e, he, fails⟩ := h.failed f hf
      exact ⟨t, current, home, e, List.mem_append_left _ he, fails⟩ }

theorem index_ne (hi : (G.parcels.map (·.index)).Pairwise (· < ·)) (hw : G.waiting = x :: rest) :
    ∀ x' ∈ rest, x'.index ≠ x.index := by
  have nodup : (G.parcels.map (·.index)).Nodup := hi.imp Nat.ne_of_lt
  rw [parcels, hw, List.map_append, List.map_cons] at nodup
  have := (List.nodup_cons.1 (List.nodup_append.1 nodup).2.1).1
  intro x' hx' e
  exact this (e ▸ List.mem_map_of_mem hx')

end Ledger

theorem Common.head {job : Task} (h : Common G due w) (ht : tasks w = job :: tasks v)
    (hj : job.isTransfer) : ∃ x rest, G.waiting = x :: rest ∧ job = x.task ∧
      (tasks v).filter (·.isTransfer) = rest.map (·.task) := by
  have all := h.transfers
  rw [ht, List.filter_cons_of_pos hj] at all
  cases hw : G.waiting with
  | nil =>
    rw [hw] at all
    cases all
  | cons x rest =>
    rw [hw, List.map_cons] at all
    obtain ⟨h₁, h₂⟩ := List.cons.inj all
    exact ⟨x, rest, rfl, h₁, h₂⟩

/-! ### A message is taken in -/

section

variable (hw : G.waiting = x :: rest) {g : Broker → Broker}
  (hm : Meets w.outside.broker x fate r (g w.outside.broker))
  (ht : tasks w = x.task :: tasks (w.out (·.withLoop loop)))

include hw hm ht

theorem Common.intake (h : Common G due w)
    (hr : (tasks (w.out (·.withLoop loop))).filter (·.isTransfer) = rest.map (·.task)) :
    Common (G.intake x fate rest) due ((w.out (·.withLoop loop)).out (·.changeBroker g)) := by
  have parcels := Ledger.parcels_intake hw fate
  refine { h with
    placed := fun job hj => h.placed job (ht ▸ List.mem_cons_of_mem _ hj)
    transfers := hr
    indices := parcels ▸ h.indices
    numbered := parcels ▸ h.numbered
    deposits := fun job hj i hi => ?_
    parcel := parcels ▸ h.parcel
    receipt := fun x' hx' => h.receipt x' (hw ▸ List.mem_cons_of_mem _ hx')
    names := fun t y hy => ?_
    counter := ?_
    held := fun hx d hd t ht => ?_
    tags := ?_
    fresh := fun e he d hd => ?_
    sound := hm.takes.sound h.sound
    opened := fun y r hy => ?_
    custody := fun hx => ?_ }
  · obtain ⟨lt, ne⟩ := h.deposits job (ht ▸ List.mem_cons_of_mem _ hj) i hi
    exact ⟨lt, parcels ▸ ne⟩
  · obtain ⟨n, hn, e⟩ := h.names t y hy
    exact ⟨n, Nat.lt_of_lt_of_eq hn hm.txnCounter.symm, e⟩
  · have := h.counter
    rw [ht, List.countP_cons] at this
    show (g w.outside.broker).txnCounter + (tasks (w.out (·.withLoop loop))).countP _ ≤
      declares w + 1
    rw [hm.txnCounter]
    omega
  · -- The new tag is that of no message that was held.
    have hd := hm.held d hd
    obtain ⟨e, he, het, d', hd', same⟩ := ht
    rcases List.mem_append.1 he with he | he
    · exact h.held hx d hd t ⟨e, he, het, d', hd', same⟩
    · obtain rfl := List.mem_singleton.1 he
      have old := h.sound.fresh_held hd
      have hd' := hm.delivery.symm.trans hd'
      split at hd'
      · cases hd'
      · rw [← Option.some.inj hd'] at same
        exact absurd same.symm (Nat.ne_of_lt old)
  · rw [Ledger.intake, List.filterMap_append]
    refine List.pairwise_append.2 ⟨h.tags, ?_, fun a ha b hb => ?_⟩
    · cases e : fate.delivery? <;> simp [e]
    · obtain ⟨e, he, hea⟩ := List.mem_filterMap.1 ha
      have := (h.fresh e he a hea).1
      have hb : fate.delivery? = some b := by simpa using hb
      rw [hm.delivery] at hb
      split at hb
      · cases hb
      · rw [← Option.some.inj hb]
        exact this
  · rcases List.mem_append.1 he with he | he
    · obtain ⟨h₁, h₂⟩ := h.fresh e he d hd
      exact ⟨Nat.lt_of_lt_of_le h₁ hm.takes.tagCounter, h₂⟩
    · obtain rfl := List.mem_singleton.1 he
      have counted := hm.tagged d hd
      have hd := hm.delivery.symm.trans hd
      split at hd
      · cases hd
      · rw [← Option.some.inj hd]
        refine ⟨?_, rfl, rfl⟩
        show w.outside.broker.tagCounter < (g w.outside.broker).tagCounter
        omega
  · obtain ⟨r', hr', e⟩ := hm.takes.links y r hy
    exact e ▸ h.opened y r' hr'
  · show Roll.total _ (g w.outside.broker).inflight = _
    rw [hm.takes.inflight]
    exact h.custody (exact_intake hm.takes hx)

theorem Common.spares_intake (h : Common G due w) (hi : i ≠ x.session) :
    Spares i G w (G.intake x fate rest) ((w.out (·.withLoop loop)).out (·.changeBroker g)) := by
  obtain ⟨home, named⟩ := h.parcel x (List.mem_append_right _ (hw ▸ List.mem_cons_self))
  have other {t : Nat} (ht : G.homes[t]? = some i) : x.transaction ≠ t := by
    rintro rfl
    exact hi (Option.some.inj (ht.symm.trans home))
  refine { Spares.refl i G w with
    asked := fun l k _ _ _ => ?_
    closing := fun _ l t y _ _ _ hs => ?_
    opens := fun l _ => opens_tail ht nofun
    record := fun hx t y r hhome hy _ hr => hm.other y r (fun e => ?_) hr
    taken := fun t ht => ?_
    waiting := ?_
    exact_before := fun hx => exact_intake hm.takes hx
    alone := fun y r hy _ => hm.takes.links y r hy }
  · rw [ht, asked, asked, List.filterMap_cons]
    rfl
  · rw [ht] at hs
    exact hs.tail
  · exact other hhome (h.named hx _ _ y (e ▸ named) hy)
  · rw [Ledger.intake, List.filter_append, List.filter_cons_of_neg (by simpa using other ht)]
    exact List.append_nil _
  · rw [hw, List.filter_cons_of_neg (by simpa using Ne.symm hi)]
    rfl

/-- The session's own transaction is staged as far as its messages were taken in. -/
theorem Rest.intake (h : Common G due w) (hs : Rest G x.session p co S w) :
    Seat (G.intake x fate rest) x.session p co
      ((w.out (·.withLoop loop)).out (·.changeBroker g)) := by
  obtain ⟨home, named⟩ := h.parcel x (List.mem_append_right _ (hw ▸ List.mem_cons_self))
  refine { hs.seat with
    asked := fun l k hl hk hn => ?_
    closing := fun hx l y e => ?_
    record := fun hx t y l k hrec hco hk hn => ?_
    alone := fun y r hy hl => ?_
    holding := fun hx => hs.seat.holding (exact_intake hm.takes hx) }
  · rw [← hs.seat.asked l k hl hk hn, ht, asked, asked, List.filterMap_cons]
    rfl
  · have := hs.seat.closing hx l y e
    rw [ht] at this
    exact this.tail
  · obtain ⟨known, r, hr, hl, hst⟩ := hs.seat.record hx t y l k hrec hco hk hn
    have hy := hs.seat.tables.hint t y (Phase.bound_of_recorded hrec)
    rw [Ledger.staged_intake]
    by_cases e : x.transaction = t
    · obtain rfl : x.txnId = y := Option.some.inj ((e ▸ named).symm.trans hy)
      obtain ⟨present, r', hr', hl', hst'⟩ := hm.own r hr
      refine ⟨fun a ha hat d => ?_, r', hr', hl'.trans hl, ?_⟩
      · rcases List.mem_append.1 ha with ha | ha
        · exact known a ha hat d
        · obtain rfl := List.mem_singleton.1 ha
          exact present d
      · rw [hst', hst, if_pos e]
    · obtain ⟨r', hr', hl', hst'⟩ := hm.other y r (fun e' => e (h.named hx _ _ y (e' ▸ named) hy)) hr
      refine ⟨fun a ha hat d => ?_, r', hr', hl'.trans hl, ?_⟩
      · rcases List.mem_append.1 ha with ha | ha
        · exact known a ha hat d
        · obtain rfl := List.mem_singleton.1 ha
          exact absurd hat e
      · rw [hst', hst, if_neg e, List.append_nil]
  · obtain ⟨r', hr', e⟩ := hm.takes.links y r hy
    exact hs.seat.alone y r' hr' (e ▸ hl)

end

/-! ### The session counts -/

/-- **The session counts a settled send:** for its aggregate, or until there is one. -/
theorem Turn.counted {y : TxnId} (h : Turn o G none s (.active t y) co S w)
    (failure : Option Failure) (ho : ¬ o.quiet) (hcur : S.current = some t)
    (fails : ∀ f, failure = some f → G.Fails t f)
    (hst : S.discharging = false ∧ S.aggregate = none ∧
        (S.failedSend = none → failure = none → G.Clean t) ∨
      S.discharging = true ∧ ∃ i A, S.aggregate = some i ∧ w.client.aggregates[i]? = some A ∧
        G.Awaits w.client s t (S.outstanding + 1) A ∧
        (A.sends.commit → failure = none → G.Clean t)) :
    After (match S.aggregate with
      | some a => Context.settleSend (surroundings (n + 2)) a failure
      | none => modifySession s fun x => { x with failedSend := x.failedSend <|> failure }) w
      (fun _ w' => Back o w') fun _ _ => False := by
  rcases hst with ⟨hd, ha, hf⟩ | ⟨hd, i, A, ha, hA, haw, hf⟩
  · rw [ha]
    rw [after_modifySession]
    have dues : G.Dues w.client s { S with failedSend := S.failedSend <|> failure } := { h.dues with
      failed := fun f e => by
        cases hfs : S.failedSend with
        | none => exact ⟨t, hcur, (h.seat.home t rfl).1, fails f (by simpa [hfs] using e)⟩
        | some f' => exact h.dues.failed f (by simpa [hfs] using e) }
    refine (h.changeSession (f := fun x => { x with failedSend := x.failedSend <|> failure }) rfl rfl
      (.inl rfl) dues (fun e => e) fun _ => ⟨rfl, rfl⟩).back
      ⟨trivial, ⟨hcur, .inl ⟨hd, ha, fun e => ?_⟩⟩, nofun⟩
    cases hfs : S.failedSend with
    | none => exact hf hfs (by simpa [hfs] using e)
    | some f => simp [hfs] at e
  · rw [ha]
    exact h.settleSend ho hcur hd ha hA haw hf

section

variable (hw : G.waiting = x :: rest) {g : Broker → Broker}
  (hm : Meets w.outside.broker x fate r (g w.outside.broker))
  (ht : tasks w = x.task :: tasks (w.out (·.withLoop loop)))
  (hr : (tasks (w.out (·.withLoop loop))).filter (·.isTransfer) = rest.map (·.task))

include hw hm ht hr

theorem Calm.intake (h : Calm G w) (hs : Rest G x.session p co S w) (hx : x.receipt = none) :
    Calm (G.intake x fate rest) ((w.out (·.withLoop loop)).out (·.changeBroker g)) := by
  refine ⟨h.common.intake hw hm ht hr, fun i hi => ?_⟩
  by_cases e : i = x.session
  · subst e
    refine ⟨p, co, S, ⟨hs.firm, ?_, fun l e => opens_tail ht nofun (hs.opens l e)⟩,
      hs.intake hw hm ht h.common, (hs.dues.of_same rfl rfl rfl rfl).intake, hs.session, hs.context, ?_,
      fun x' hx' => hs.current x' (hw ▸ List.mem_cons_of_mem _ hx')⟩
    · refine hs.stance.congr rfl rfl rfl (fun t hc => Ledger.clean_intake hc fun _ e => ?_) rfl rfl rfl
        rfl rfl rfl
      simp [hx] at e
    · have := Ledger.unsettled_intake (s := x.session) hw fate
      rw [hs.count, this, if_neg (by simp [hx])]
      rfl
  · exact (h.settled i hi).spared (h.common.spares_intake hw hm ht e)

theorem Calm.count (h : Calm G w) (quiet : Prop) (hs : Rest G x.session p co S w) {sent told : Nat}
    (hx : x.receipt = some (sent, told)) {v : State}
    (hv : v = (((w.out (·.withLoop loop)).out (·.changeBroker g)).on
      (·.write sent (.settled r))).out (·.changeSession x.session fun S =>
        { S with outstanding := S.outstanding - 1 })) :
    Turn ⟨G.intake x fate rest, v, none, quiet⟩ (G.intake x fate rest) none x.session p co
      { S with outstanding := S.outstanding - 1 } v := by
  have common := h.common.intake hw hm ht hr
  have loose : Loose (G.intake x fate rest)
      ((w.out (·.withLoop loop)).out (·.changeBroker g)).client sent :=
    ⟨.sent, x.index, (h.common.receipt x (hw ▸ List.mem_cons_self) _ hx).1, rfl, fun x' hx' _ =>
      ⟨fun e => Ledger.index_ne h.common.indices hw x' hx' (Prod.mk.inj e).2.symm, by simp⟩⟩
  subst hv
  refine {
    common := (common.tell loose).changeSession fun _ => ⟨rfl, rfl⟩
    others := fun i hi hne => ?_
    seat := { loose.spares.seat (hs.intake hw hm ht h.common) with }
    dues := by
      have told : (G.intake x fate rest).Dues (w.client.write sent (.settled r)) x.session S :=
        hs.dues.write.intake
      exact Ledger.Dues.congr (told.of_same rfl rfl rfl rfl) rfl rfl rfl rfl
    session := Outside.changeSession_same hs.session
    context := hs.context
    count := ?_
    current := fun x' hx' => hs.current x' (hw ▸ List.mem_cons_of_mem _ hx')
    due := nofun
    since := .refl ⟨G.intake x fate rest, _, none, quiet⟩ }
  · rw [World.out, Outside.changeSession, Array.size_modify] at hi
    exact (((h.settled i hi).spared (h.common.spares_intake hw hm ht hne)).spared loose.spares).spared
      { Spares.refl i _ _ with session := Outside.changeSession_other hne }
  · have := Ledger.unsettled_intake (s := x.session) hw fate
    rw [if_pos ⟨rfl, by simp [hx]⟩] at this
    show S.outstanding - 1 = _
    rw [hs.count, this, Nat.add_sub_cancel]

/-- **A message is taken in, counted, and its sender is told.** -/
theorem Calm.told (h : Calm G w) (hs : Rest G x.session p co S w) {sent told : Nat}
    (hx : x.receipt = some (sent, told)) :
    After ((Token.client sent (.sent x.session told)).resolve (surroundings (n + 3)) r)
      ((w.out (·.withLoop loop)).out (·.changeBroker g))
      (fun _ w' => ∃ G', Advance G w (.taken x fate) G' w' ∧
        w'.client.completions[told]? = some (.settled (fate.resolution x)))
      fun _ _ => False := by
  have turn := h.count hw hm ht hr False hs hx rfl
  have hxw : x ∈ G.waiting := hw ▸ List.mem_cons_self
  obtain ⟨hlive, hlive'⟩ := h.common.receipt x hxw _ hx
  have current := hs.current x hxw rfl (by simp [hx])
  have counted := hs.count
  rw [Ledger.unsettled_intake hw fate, if_pos ⟨rfl, by simp [hx]⟩] at counted
  have clean {t : Nat} (hc : G.Clean t) (hf : r.cause? = none) : (G.intake x fate rest).Clean t :=
    Ledger.clean_intake hc fun _ _ => hm.staged hf
  have fails (f : Failure) (hf : r.cause? = some f) : (G.intake x fate rest).Fails x.transaction f := by
    refine ⟨(x, fate), List.mem_append_right _ List.mem_cons_self, rfl, by rw [hx]; rfl, ?_⟩
    show fate.resolution x = .failed f
    rw [← hm.result]
    cases r with
    | succeeded => cases hf
    | failed g => exact congrArg _ (Option.some.inj hf)
  unfold Token.resolve
  rw [after_bind, Act.after_settle (by exact hlive.2)]
  show After (resume (surroundings (n + 2)) (.sent x.session told) r) _ _ _
  unfold resume Session.countSettled
  simp only [after_bind, after_modifySession, after_sessionAt, Outside.session_eq turn.session]
  cases p with
  | active t y =>
    obtain ⟨hcur, hst⟩ := hs.stance
    obtain rfl : x.transaction = t := Option.some.inj (current.symm.trans hcur)
    refine (turn.counted r.cause? id hcur fails ?_).mono (fun _ w' hback => ?_)
      fun _ _ => False.elim
    · rcases hst with ⟨hd, ha, hc⟩ | ⟨hd, i, A, ha, hA, haw, hc⟩
      · exact .inl ⟨hd, ha, fun e => clean (hc e)⟩
      · refine .inr ⟨hd, i, A, ha, hA, ?_, fun e => clean (hc e)⟩
        show Ledger.Awaits _ _ _ _ (S.outstanding - 1 + 1) A
        rw [Nat.sub_add_cancel haw.positive]
        obtain ⟨outcome, report, e, ho, hl⟩ := haw.request
        exact { haw with request := ⟨outcome, report, e, ho.write hlive.1 (by rintro ⟨⟩),
          hl.write hlive.1 (by rintro ⟨⟩)⟩ }
    · obtain ⟨G', hc, hsince⟩ := hback
      have taken : G'.taken = G.taken ++ [(x, fate)] := hsince.taken
      have waiting : G'.waiting = rest := hsince.waiting
      have pending := hsince.told told x.index (hlive'.write (r := r) hlive.1 (by rintro ⟨⟩))
      have taken_in : Onward w ((w.out (·.withLoop loop)).out (·.changeBroker g)) :=
        .of_same rfl rfl rfl hm.takes.tagCounter le_rfl le_rfl
      have written := taken_in.trans (.of_keeps (f := (·.write sent (.settled r))) (.write hlive.2))
      have started := written.trans (.changeSession (s := x.session) (f := fun S =>
        { S with outstanding := S.outstanding - 1 }) fun _ _ e => e)
      have step : Advance G w (.taken x fate) G' w' := {
        calm := hc
        parcels := by
          rw [Ledger.parcels, taken, waiting]
          exact (Ledger.parcels_intake hw fate).trans (List.append_nil _).symm
        taken
        onward := started.trans hsince.onward
        purposes := hsince.purposes
        reports := fun c ending t => (hsince.reports c ending t).trans (or_iff_left (by simp)).symm
        fresh := by simp
        concluded := fun t ht => by
          have before := (hsince.concluded t ht).resolve_right (by simp)
          exact .inl (((Ledger.concluded_write hlive).1 before).resolve_right fun e => by cases e.1)
        published := by simp
        balance := fun _ => hm.balance.trade hsince.shift.trade
        lawful := fun c f e hf => .inl
          (Lawful.write (hm.result ▸ Fate.resolution_legal) c f (hsince.lawful c f e hf) hf) }
      rw [Act.after_settle pending.2]
      refine ⟨G', step.tell ⟨.told, x.index, pending, rfl, fun x' hx' _ => ⟨by simp, fun e => ?_⟩⟩
        (.inl (hm.result ▸ Fate.resolution_legal)), ?_⟩
      swap
      · rw [← hm.result]
        simp [World.on, Client.write, pending.2.lt]
      rw [waiting] at hx'
      exact Ledger.index_ne h.common.indices hw x' hx' (Prod.mk.inj e).2.symm
  | discharging =>
    have := hs.stance.2.2.1
    omega
  | idle => cases hs.stance.1.current.symm.trans current
  | opening => cases hs.stance.1.current.symm.trans current
  | declaring => cases hs.stance.1.current.symm.trans current

end

/-- **The oldest task is a transfer of a session.** -/
theorem Calm.transfer (h : Calm G w) {label address body : String} {index : Nat}
    {state : Option DeliveryState} {sender : Option (Token Waiting)}
    (ht : tasks w = .transfer index address body state sender :: tasks (w.out (·.withLoop loop)))
    (hj : (Task.transfer index address body state sender).isTransfer) :
    After (exec (surroundings (n + 3)) label (.transfer index address body state sender))
      (w.out (·.withLoop loop))
      (fun _ w' => ∃ x fate G', Advance G w (.taken x fate) G' w' ∧ x.index = index ∧
        (∀ sent told, x.receipt = some (sent, told) →
          w'.client.completions[told]? = some (.settled (fate.resolution x))) ∧
        fate.delivery? = if w.outside.broker.transfersToFail.contains (.ofNat index) then none
          else some ⟨w.outside.broker.tagCounter, address, body⟩)
      fun _ _ => False := by
  obtain ⟨x, rest, hw, hx, hr⟩ := h.common.head ht hj
  obtain ⟨rfl, rfl, rfl, rfl, rfl⟩ : index = x.index ∧ address = x.address ∧ body = x.body ∧
      state = some (.enrolling x.txnId) ∧
      sender = x.receipt.map fun r => .client r.1 (.sent x.session r.2) := by
    simpa [Parcel.task] using hx
  obtain ⟨home, -⟩ := h.common.parcel x (List.mem_append_right _ (hw ▸ List.mem_cons_self))
  obtain ⟨p, co, S, hs⟩ := h.settled _ (h.common.home _ _ home)
  obtain ⟨fate, hm⟩ := meets w.outside.broker x
  unfold exec
  simp only [after_bind, after_withBroker]
  cases hrec : x.receipt with
  | none =>
    have calm := h.intake (g := fun b =>
      (b.transfer x.index x.address x.body (some (.enrolling x.txnId))).2) hw hm ht hr hs hrec
    exact ⟨x, fate, _, {
      calm
      parcels := (Ledger.parcels_intake hw fate).trans (List.append_nil _).symm
      taken := rfl
      onward := .of_same rfl rfl rfl hm.takes.tagCounter le_rfl le_rfl
      purposes := fun _ _ _ => id
      reports := fun _ _ _ => (or_iff_left (by simp)).symm
      fresh := by simp
      concluded := fun _ => .inl
      published := by simp
      balance := fun _ => hm.balance
      lawful := fun _ _ e _ => .inl e }, rfl, (fun sent told e => by cases hrec.symm.trans e), hm.delivery⟩
  | some receipt =>
    refine (h.told (g := fun b =>
      (b.transfer x.index x.address x.body (some (.enrolling x.txnId))).2) hw hm ht hr hs hrec).mono
      (fun _ w' hw' => ?_) fun _ _ => id
    obtain ⟨G', hG, told⟩ := hw'
    refine ⟨x, fate, G', hG, rfl, fun sent told' e => ?_, hm.delivery⟩
    obtain rfl := Option.some.inj (hrec.symm.trans e)
    exact told

/-! ### Messages from elsewhere -/

/-- A message is sent by nobody in particular: its transfer waits in the loop. -/
theorem Calm.deposit (h : Calm G w) {address body : String} :
    After (Peer.transfer address body none none) w (fun _ w' => Steady G w w') fun _ _ => False := by
  have counted : Calm G (w.out (·.addTransfer)) := {
    common := { h.common with
      numbered := fun x hx => Nat.lt_succ_of_lt (h.common.numbered x hx)
      deposits := fun job hj i hi =>
        have ⟨lt, ne⟩ := h.common.deposits job hj i hi
        ⟨Nat.lt_succ_of_lt lt, ne⟩ }
    settled := fun i hi => (h.settled i hi).spared { Spares.refl i G w with } }
  unfold Peer.transfer
  simp only [after_bind, Act.after_outside, after_modifyOutside, after_add]
  refine (counted.schedule ⟨rfl, rfl, fun _ => rfl, fun _ => id⟩ (fun l hl => by cases hl)
    fun i hi => ?_).steady rfl
    (.of_same rfl rfl rfl le_rfl le_rfl (Nat.le_succ _)) fun _ => .refl _
  obtain rfl := Option.some.inj hi
  exact ⟨Nat.lt_succ_self _, fun x hx => Nat.ne_of_lt (h.common.numbered x hx)⟩

/-- **The oldest task is a transfer of no session.** -/
theorem Calm.takeDeposit (h : Calm G w) {label address body : String} {index : Nat}
    (ht : tasks w = .transfer index address body none none :: tasks (w.out (·.withLoop loop))) :
    After (exec (surroundings n) label (.transfer index address body none none))
      (w.out (·.withLoop loop))
      (fun _ w' => Advance G w .nothing G w' ∧ G.Stray w'.outside.transfers index) fun _ _ => False := by
  have started := h.start ht rfl (fun _ _ _ _ => rfl) rfl
  have takes : Broker.Takes w.outside.broker (w.outside.broker.transfer index address body none).2 :=
    Broker.takes_deposit
  have common : Common G none ((w.out (·.withLoop loop)).out
      (·.changeBroker fun b => (b.transfer index address body none).2)) := by
    refine started.common.changeBroker Broker.txnCounter_deposit takes (fun _ d hd => ?_) fun _ => id
    refine (Broker.held_deposit hd).imp (fun h => h)
      fun (new : d.tag = w.outside.broker.tagCounter) t ht => ?_
    obtain ⟨e, he, -, d', hd', same⟩ := ht
    have := (h.common.fresh e he d' hd').1
    omega
  unfold exec
  simp only [after_bind, after_withBroker]
  have calm : Calm G ((w.out (·.withLoop loop)).out
      (·.changeBroker fun b => (b.transfer index address body none).2)) :=
    ⟨common, fun i hi => (started.settled i hi).spared <| spares_changeBroker takes fun _ _ r hr _ =>
      ⟨r, by rw [Broker.transactions_deposit]; exact hr, rfl, rfl⟩⟩
  exact ⟨calm.still rfl (.of_same rfl rfl rfl takes.tagCounter le_rfl le_rfl)
    fun _ => Broker.balance_deposit,
    h.common.deposits _ (ht ▸ List.mem_cons_self) index rfl⟩

/-! ### A message is sent -/

/-- One more message waits. -/
def Ledger.addParcel (G : Ledger) (x : Parcel) : Ledger := { G with waiting := G.waiting ++ [x] }

theorem Ledger.parcels_addParcel : (G.addParcel x).parcels = G.parcels ++ [x] :=
  (List.append_assoc ..).symm

/-- What is left of the surroundings when a message is sent. -/
def Outside.dispatch (o : Outside) (sessions : Array Session) (label : String) (job : Task) :
    Outside :=
  { o.addTransfer with sessions }.schedule label job

theorem tasks_dispatch {sessions : Array Session} {label : String} {job : Task} :
    tasks (w.out (·.dispatch sessions label job)) = tasks w ++ [job] := by
  simp [tasks, World.out, Outside.dispatch, Outside.schedule, Outside.addTransfer, Loop.schedule]

theorem Ledger.mem_addParcel {x' : Parcel} (h : x' ∈ (G.addParcel x).parcels) :
    x' ∈ G.parcels ∨ x' = x := by
  rwa [parcels_addParcel, List.mem_append, List.mem_singleton] at h

theorem Common.dispatch (h : Common G due w) {sessions : Array Session} {label : String}
    (hx : x.index = w.outside.transfers)
    (hp : G.homes[x.transaction]? = some x.session ∧
      (w.client.transaction x.transaction).hint = some x.txnId)
    (hr : ∀ r, x.receipt = some r →
      G.Live w.client r.1 .sent x.index ∧ G.Live w.client r.2 .told x.index)
    (hn : sessions.size = w.outside.sessions.size)
    (hs : ∀ i : Nat, sessions[i]?.map (fun S => (S.id, S.consumerNumber)) =
      w.outside.sessions[i]?.map fun S => (S.id, S.consumerNumber)) :
    Common (G.addParcel x) due (w.out (·.dispatch sessions label x.task)) := by
  refine { h with
    contexts := h.contexts.trans hn.symm
    owner := fun l i hl => Nat.lt_of_lt_of_eq (h.owner l i hl) hn.symm
    home := fun t i ht => Nat.lt_of_lt_of_eq (h.home t i ht) hn.symm
    producer := fun i k hk => Nat.lt_of_lt_of_eq (h.producer i k hk) hn.symm
    consumer := fun i k hk => Nat.lt_of_lt_of_eq (h.consumer i k hk) hn.symm
    placed := fun job hj => ?_
    transfers := ?_
    indices := ?_
    numbered := fun x' hx' => ?_
    deposits := fun job hj i hi => ?_
    parcel := fun x' hx' => ?_
    receipt := fun x' hx' => ?_
    counter := ?_
    roster := h.roster.sessions_eq hs }
  · rw [tasks_dispatch, List.mem_append, List.mem_singleton] at hj
    rcases hj with hj | rfl
    · exact h.placed job hj
    · exact fun l e => by cases e
  · rw [tasks_dispatch, List.filter_append, h.transfers]
    show _ = (G.waiting ++ [x]).map _
    rw [List.map_append]
    rfl
  · rw [Ledger.parcels_addParcel, List.map_append]
    refine List.pairwise_append.2 ⟨h.indices, List.pairwise_singleton .., fun a ha b hb => ?_⟩
    obtain ⟨x', hx', rfl⟩ := List.mem_map.1 ha
    rw [List.mem_singleton.1 hb]
    exact Nat.lt_of_lt_of_eq (h.numbered x' hx') hx.symm
  · rcases Ledger.mem_addParcel hx' with hx' | rfl
    · exact Nat.lt_succ_of_lt (h.numbered x' hx')
    · exact Nat.lt_succ_of_le hx.le
  · rw [tasks_dispatch, List.mem_append, List.mem_singleton] at hj
    rcases hj with hj | rfl
    · obtain ⟨lt, ne⟩ := h.deposits job hj i hi
      refine ⟨Nat.lt_succ_of_lt lt, fun x' hx' => ?_⟩
      rcases Ledger.mem_addParcel hx' with hx' | rfl
      · exact ne x' hx'
      · exact hx ▸ Nat.ne_of_gt lt
    · cases hi
  · rcases Ledger.mem_addParcel hx' with hx' | rfl
    · exact h.parcel x' hx'
    · exact hp
  · rcases List.mem_append.1 hx' with hx' | hx'
    · exact h.receipt x' hx'
    · obtain rfl := List.mem_singleton.1 hx'
      exact hr
  · rw [tasks_dispatch, List.countP_append, List.countP_singleton]
    exact h.counter

theorem spares_dispatch (h : Common G due w) {sessions : Array Session} {label : String}
    (hp : G.homes[x.transaction]? = some x.session ∧
      (w.client.transaction x.transaction).hint = some x.txnId)
    (ho : sessions[i]? = w.outside.sessions[i]?) (hne : i ≠ x.session) :
    Spares i G w (G.addParcel x) (w.out (·.dispatch sessions label x.task)) := by
  refine { Spares.refl i G w with
    session := ho
    asked := fun l _ _ _ _ => ?_
    closing := fun hx l t y _ ht hy hs => ?_
    opens := fun l _ h => h.imp fun _ hj => ⟨tasks_dispatch ▸ List.mem_append_left _ hj.1, hj.2⟩
    waiting := ?_ }
  · rw [tasks_dispatch]
    exact asked_append rfl
  · rw [tasks_dispatch]
    refine hs.append fun (e : x.txnId = y) => hne ?_
    obtain rfl := h.named hx _ _ y hy (e ▸ hp.2)
    exact Option.some.inj (ht.symm.trans hp.1)
  · rw [Ledger.addParcel, List.filter_append, List.filter_cons_of_neg (by simpa using Ne.symm hne)]
    exact List.append_nil _

/-- **A message is sent** in the active transaction. -/
theorem Turn.dispatch {y : TxnId} {S' : Session} (h : Turn o G none s (.active t y) co S w)
    (sessions : Array Session) (label : String) (quiet : Prop) (hx : x.index = w.outside.transfers)
    (hxs : x.session = s) (hxt : x.transaction = t) (hxy : x.txnId = y)
    (hr : ∀ r, x.receipt = some r →
      G.Live w.client r.1 .sent x.index ∧ G.Live w.client r.2 .told x.index)
    (hn : sessions.size = w.outside.sessions.size) (hS : sessions[s]? = some S')
    (ho : ∀ i, i ≠ s → sessions[i]? = w.outside.sessions[i]?) (hc : S'.context = S.context)
    (hcur : S.current = some t) (hcur' : S'.current = S.current)
    (hbeg : S'.beginning = S.beginning) (hdis : S'.discharging = S.discharging)
    (hfail : S'.failedSend = S.failedSend)
    (hid : S'.id = S.id) (hnum : S'.consumerNumber = S.consumerNumber)
    (hk : S'.outstanding = S.outstanding + if x.receipt.isSome then 1 else 0)
    (hv : v = w.out (·.dispatch sessions label x.task)) :
    Turn ⟨G.addParcel x, v, none, quiet⟩ (G.addParcel x) none s (.active t y) co S' v := by
  subst hxs hxt hxy
  have parcel : G.homes[x.transaction]? = some x.session ∧
      (w.client.transaction x.transaction).hint = some x.txnId :=
    ⟨(h.seat.home _ rfl).1, h.seat.tables.hint _ _ rfl⟩
  have same (i : Nat) : sessions[i]?.map (fun S => (S.id, S.consumerNumber)) =
      w.outside.sessions[i]?.map fun S => (S.id, S.consumerNumber) := by
    by_cases e : i = x.session
    · subst e
      rw [hS, h.session, Option.map_some, Option.map_some, hid, hnum]
    · rw [ho i e]
  subst hv
  refine {
    common := h.common.dispatch hx parcel hr hn same
    others := fun i hi hne =>
      (h.others i (hn ▸ hi) hne).spared (spares_dispatch h.common parcel (ho i hne) hne)
    seat := { h.seat with
      asked := fun l k hl hk hn => ?_
      closing := fun _ _ _ e => by cases e }
    dues := Ledger.Dues.congr (h.dues.of_same rfl rfl rfl rfl) hbeg hcur' hdis hfail
    session := hS
    context := hc.trans h.context
    count := ?_
    current := fun x' hx' hs hr => ?_
    due := by simp
    since := .refl ⟨G.addParcel x, _, none, quiet⟩ }
  · rw [tasks_dispatch, asked_append rfl]
    exact h.seat.asked l k hl hk hn
  · rw [hk, h.count, Ledger.unsettled, Ledger.unsettled, Ledger.addParcel, List.countP_append,
      List.countP_singleton]
    simp
  · rcases List.mem_append.1 hx' with hx' | hx'
    · exact hcur'.trans (h.current x' hx' hs hr)
    · obtain rfl := List.mem_singleton.1 hx'
      exact hcur'.trans hcur

/-- What a send adds: nothing if it was refused, and else a message of the transaction that its session
is in. -/
inductive Accepts (w : State) (s : Nat) (d : Destination) (body : String) (c : Nat) (w' : State) :
    Gain → Prop
  | refused {S : Session} (h : Declines w c w')
    (hS : w.outside.sessions[s]? = some S)
    (hc : S.current = none ∨ S.discharging = true ∨ S.InDoubt w.client) :
    Accepts w s d body c w' (.refused c)
  | accepted {x : Parcel} {S : Session} {t : Nat}
    (h : w'.outside.transfers = w.outside.transfers + 1) (hS : w.outside.sessions[s]? = some S)
    (hc : S.current = some t) (hx : x.message =
      ⟨w.outside.transfers, t, d.name, body, S.policy.forProducer (some d) true⟩)
    (hr : ∀ sent told, x.receipt = some (sent, told) → c = told) : Accepts w s d body c w' (.sent x)

theorem Advance.dispatched {G₀ : Ledger} {y : TxnId} {S' : Session} {u : State} {loud quiet : Prop}
    (h : Turn ⟨G.addParcel x, v, none, loud⟩ (G.addParcel x) none s (.active t y) co S' v)
    (hst : (G.addParcel x).Stance v.client s S' (.active t y)) (hs : Since ⟨G₀, w, none, quiet⟩ G u)
    (hv : v.client = u.client) (ho : Onward u v) (hb : v.outside.broker = u.outside.broker)
    (ht : ¬ G₀.Concluded w.client x.transaction) :
    Advance G₀ w (.sent x) (G.addParcel x) v where
  calm := h.calm ⟨trivial, hst, nofun⟩
  parcels := by
    rw [Ledger.parcels_addParcel, Ledger.parcels, hs.taken, hs.waiting]
    rfl
  taken := hs.taken.trans (List.append_nil _).symm
  onward := hs.onward.trans ho
  purposes := hs.purposes
  reports c ending t := (hs.reports c ending t).trans (or_iff_left nofun).symm
  fresh x' e := by
    cases e
    exact ht
  concluded t hc := .inl ((hs.concluded t (hv ▸ hc)).resolve_right nofun)
  published := nofun
  balance _ := hb ▸ (Broker.Balance.refl _).trade hs.shift.trade
  lawful c f e hf := .inl (hs.lawful c f (hv ▸ e) hf)

/-- **A session sends a message.** -/
theorem Calm.send (h : Calm G w) (hs : s < w.outside.sessions.size) {k : Nat} {d : Destination}
    {body : String} :
    After (Session.send s k d body) w (fun c w' => ∃ g G', Advance G w g G' w' ∧
      Accepts w s d body c w' g ∧ G'.Promised w'.client c ∧ c = w.client.completions.size)
      fun _ _ => False := by
  obtain ⟨p, co, S, hr⟩ := h.settled s hs
  obtain ⟨c, hc, hcc⟩ := hr.seat.tables.context
  have hc : w.client.contexts[s]? = some c := hc
  have refusal (problem : Problem)
      (unready : S.current = none ∨ S.discharging = true ∨ S.InDoubt w.client) :
      After (Session.refusal problem) w (fun c w' =>
        ∃ g G', Advance G w g G' w' ∧ Accepts w s d body c w' g ∧ G'.Promised w'.client c ∧
          c = w.client.completions.size) fun _ _ => False := by
    refine h.refusal.mono (fun _ w' hw => ?_) fun _ _ => id
    obtain ⟨⟨G', hG⟩, declines⟩ := hw
    obtain ⟨f, failed⟩ := declines.failed
    exact ⟨_, G', hG, .refused declines hr.session unready, .inl ⟨_, failed⟩, declines.1⟩
  unfold Session.send
  simp only [after_bind, after_sessionAt, Outside.session_eq hr.session]
  split
  · next ends => exact refusal _ (.inr (.inl ends))
  · next hd =>
    simp only [after_bind, Act.after_isFailed]
    split
    · next doubt => exact refusal _ (.inr (.inr doubt))
    · simp only [after_bind, Act.after_context, hr.context, Client.context_eq hc, hcc.enrolled]
      cases p with
      | active t y =>
        obtain ⟨hcur, hst⟩ := hr.stance
        obtain ⟨-, open_⟩ := hr.seat.home t rfl
        obtain ⟨hd', ha, hf⟩ := hst.resolve_right fun e => hd e.1
        have enrolled (f : Registry Nat Nat → Registry Nat Nat)
            (hf : ∀ r, (f r).consumers = r.consumers) :=
          (h.turn False hr).recontext (g := fun x => { x with registry := f x.registry }) (fun k hk =>
            ⟨hk.stage, hk.current, hk.accepted, hk.enrolled, hk.coordinator⟩)
            fun _ => hf _
        simp only [Phase.bound, Option.map_some, after_bind, after_producerAt]
        unfold Context.enrolProducer Peer.transfer
        simp only [Act.after_modifyContext]
        have turn := enrolled (fun r => r.enrolProducer (w.outside.producer k).id k) fun _ => rfl
        split
        · next policy =>
          simp only [after_bind, Act.after_outside, after_modifyOutside, after_add]
          have sent (label : String) := turn.dispatch (x := ⟨w.outside.transfers, s, t, y, d.name, body,
            none⟩) w.outside.sessions label False rfl rfl rfl rfl (by simp) rfl hr.session
            (fun _ _ => rfl) rfl hcur rfl rfl rfl rfl rfl rfl rfl rfl
          refine ((Advance.dispatched (sent _) ⟨hcur, .inl ⟨hd', ha, hf⟩⟩ turn.since rfl
            (.of_same rfl rfl rfl le_rfl le_rfl (Nat.le_succ _)) rfl
            open_).settledCompletion (.inl Resolution.legal_succeeded)).mono (fun _ w' hw => ?_) fun _ _ => id
          obtain ⟨new, ⟨G', hG⟩, rfl⟩ := hw
          subst new
          exact ⟨_, G', hG, .accepted rfl hr.session hcur (by simp [Parcel.message, policy])
            (fun _ _ e => by cases e), .inl ⟨_, Client.addSettled_new⟩, rfl⟩
        · next policy =>
          simp only [after_bind, Act.after_outside, after_modifyOutside, after_add,
            Act.after_newCompletion, after_modifySession, after_pure]
          have told := turn.addCompletion (a := .told) (n := w.outside.transfers) rfl
          have both := told.addCompletion (a := .sent) (n := w.outside.transfers) rfl
          have hl := Ledger.live_new (b := .told) (m := w.outside.transfers) turn.common.purposes
          have hl' := Ledger.live_new (b := .sent) (m := w.outside.transfers) told.common.purposes
          have sent (label : String) := both.dispatch (x := ⟨w.outside.transfers, s, t, y, d.name, body,
            some (w.client.addCompletion.completions.size, w.client.completions.size)⟩)
            (w.outside.sessions.modify s fun x => { x with outstanding := x.outstanding + 1 }) label
            False rfl rfl rfl rfl
            (fun r e => Option.some.inj e ▸ ⟨hl', hl.addCompletion⟩) (Array.size_modify ..)
            (Outside.changeSession_same hr.session) (fun i hi => Outside.changeSession_other hi) rfl hcur
            rfl rfl rfl rfl rfl rfl rfl rfl
          have counted {u : State} : Onward u (u.out (·.changeSession s fun x => { x with
            outstanding := x.outstanding + 1 })) := .changeSession fun _ _ e => e
          exact ⟨_, _, Advance.dispatched (sent _) ⟨hcur, .inl ⟨hd', ha, hf⟩⟩ both.since rfl
            (counted.trans (.of_same rfl rfl rfl le_rfl le_rfl (Nat.le_succ _))) rfl open_,
            .accepted rfl hr.session hcur
            (by simp [Parcel.message, policy]) (fun sent told e => by cases e; rfl),
            .inr (.inr ⟨_, List.mem_append_right _ List.mem_cons_self, _, rfl⟩), rfl⟩
      | discharging => exact absurd hr.stance.2.1 hd
      | _ => exact refusal _ (.inl hr.stance.1.current)

end Transact.Peer
