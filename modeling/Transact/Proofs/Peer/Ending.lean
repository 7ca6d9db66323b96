import Transact.Proofs.Client.Counting
import Transact.Proofs.Peer.Hooks

/-! # Ending a transaction

A session asks for the end of its transaction once all its sends are settled. The discharge waits in
the loop then, or the transaction was in doubt and is over: the session has moved on. A commit is
sent only if every send was staged.

* `Turn.finish`: where a session stands after it has asked for the end.
* `Turn.settleSend`: the same after a send was settled that the end has waited for. -/

namespace Transact

open Run

variable {o : Origin} {G G' : Ledger} {due : Option Nat} {s n t l : Nat} {y : TxnId} {commit : Bool}
  {p : Phase Waiting} {co : Option Nat} {S S' : Session} {w w' : State}
  {q : Token Waiting} {a : Purpose} {x x' : Client Waiting} {A : Aggregate Waiting}

namespace Peer

namespace Ledger

/-! ### What whoever waits depends on -/

theorem Ends.congr (h : G.Ends x s t commit q) (hG : G'.purposes = G.purposes)
    (hx : x'.completions = x.completions) : G'.Ends x' s t commit q := by
  cases h with
  | plain ho hr => exact .plain (ho.congr hG hx) (hr.congr hG hx)
  | swapped hf hi ho hr => exact .swapped hf (hi.congr hG hx) (ho.congr hG hx) (hr.congr hG hx)

theorem Awaits.congr {k : Nat} (h : G.Awaits x s t k A) (hG : G'.purposes = G.purposes)
    (hx : x'.completions = x.completions) : G'.Awaits x' s t k A := by
  obtain ⟨outcome, report, e, hl, hl'⟩ := h.request
  exact { h with request := ⟨outcome, report, e, hl.congr hG hx, hl'.congr hG hx⟩ }

theorem Awaits.incomplete {k : Nat} (h : G.Awaits x s t k A) : A.sends.pending ≠ .ofNat 0 := by
  have waits : A.sends.isComplete = decide (k = 0) := Aggregation.isComplete_eq h.pending h.countable
  have positive : k ≠ 0 := Nat.ne_of_gt h.positive
  rw [decide_eq_false positive] at waits
  exact of_decide_eq_false waits

theorem Counted.congr {i : Nat} (h : Counted x s i) (ha : x'.aggregates = x.aggregates) :
    Counted x' s i := by
  rw [Counted, ha]
  exact h

/-- Of a session only what it remembers of its transaction matters, of a client only completions and
aggregates. -/
theorem Stance.congr (h : G.Stance x s S p) (hG : G'.purposes = G.purposes)
    (hx : x'.completions = x.completions) (ha : x'.aggregates = x.aggregates)
    (hk : ∀ t, G.Clean t → G'.Clean t) (hc : S'.current = S.current)
    (hb : S'.beginning = S.beginning) (ho : S'.outstanding = S.outstanding)
    (hf : S'.failedSend = S.failedSend) (hd : S'.discharging = S.discharging)
    (hg : S'.aggregate = S.aggregate) : G'.Stance x' s S' p := by
  have free (h : S.Free) : S'.Free := ⟨hc.trans h.current, hd.trans h.discharging,
    hg.trans h.aggregate, hf.trans h.failedSend, ho.trans h.outstanding⟩
  have begins {t : Nat} {q : Token Waiting} (h : G.Begins x s t S q) : G'.Begins x' s t S' q := by
    obtain ⟨b, e, hb', hl⟩ := h
    exact ⟨b, e, hb.trans hb', hl.congr hG hx⟩
  cases p with
  | idle => exact ⟨free h.1, fun b e => hx ▸ h.2 b (hb ▸ e)⟩
  | opening => exact ⟨free h.1, h.2.1.congr hG hx, h.2.2.1.congr hG hx, begins h.2.2.2⟩
  | declaring => exact ⟨free h.1, h.2.1.congr hG hx, begins h.2.2⟩
  | active =>
    obtain ⟨hcur, ⟨h₁, h₂, h₃⟩ | ⟨h₁, i, A, h₂, hA, haw, h₃⟩⟩ := h
    · exact ⟨hc.trans hcur, .inl ⟨hd.trans h₁, hg.trans h₂, fun e => hk _ (h₃ (hf ▸ e))⟩⟩
    · exact ⟨hc.trans hcur, .inr ⟨hd.trans h₁, i, A, hg.trans h₂, by rw [ha]; exact hA,
        ho ▸ haw.congr hG hx, fun e => hk _ (h₃ e)⟩⟩
  | discharging =>
    obtain ⟨hcur, h₁, h₂, hl, he, h₃, h₄⟩ := h
    exact ⟨hc.trans hcur, hd.trans h₁, ho.trans h₂, hl.congr hG hx, he.congr hG hx,
      fun e => hk _ (h₃ e), fun i e => (h₄ i (hg ▸ e)).congr ha⟩

/-! ### Who is told of the end -/

theorem Ends.addCompletion (h : G.Ends x s t commit q) :
    (G.addPurpose a n).Ends x.addCompletion s t commit q := by
  cases h with
  | plain ho hr => exact .plain ho.addCompletion hr.addCompletion
  | swapped hf hi ho hr => exact .swapped hf hi.addCompletion ho.addCompletion hr.addCompletion

/-- Whoever is told of the end is not told yet when the discharge has ended. -/
theorem Ends.write {id : Nat} {r : Resolution Unit} (h : G.Ends x s t commit q)
    (hl : G.Live x id .discharged t) : G.Ends (x.write id (.settled r)) s t commit q := by
  cases h with
  | plain ho hr => exact .plain (ho.write hl.1 (by rintro ⟨⟩)) (hr.write hl.1 (by rintro ⟨⟩))
  | swapped hf hi ho hr =>
    exact .swapped hf (hi.write hl.1 (by rintro ⟨⟩)) (ho.write hl.1 (by rintro ⟨⟩))
      (hr.write hl.1 (by rintro ⟨⟩))

/-- A rollback takes the place of a commit, and is reported as a failure. -/
theorem Ends.swap {f : Failure} (h : G.Ends x s t true q) (hf : f.Legal)
    (hp : G.purposes.length = x.completions.size) :
    (G.addPurpose .swapped t).Ends x.addCompletion s t false (.instead x.completions.size f q) := by
  cases h with
  | plain ho hr => exact .swapped hf (live_new hp) ho.addCompletion hr.addCompletion

end Ledger

/-- What a session remembers while it waits for the end of its transaction, with all its sends
settled. -/
structure Session.Closing (S : Session) (x : Client Waiting) (s t : Nat) : Prop where
  current : S.current = some t
  discharging : S.discharging = true
  outstanding : S.outstanding = 0
  counted : ∀ i : Nat, S.aggregate = some i → Ledger.Counted x s i

theorem Session.Closing.congr (h : S.Closing x s t) (ha : x'.aggregates = x.aggregates) :
    S.Closing x' s t := { h with counted := fun i e => (h.counted i e).congr ha }

/-! ### Discharging -/

/-- **A discharge is sent.** -/
theorem Turn.handOver (h : Turn o G none s (.active t y) (some l) S w) {m : Link Waiting}
    (hm : w.client.links[l]? = some m) (hn : m.state ≠ .closed) (hS : S.Closing w.client s t)
    (hq : G.Ends w.client s t commit q) (hc : commit → G.Clean t) (hb : Exact w → Bare s w) :
    After (Context.handOver (surroundings (n + 1)) s t l commit q) w (fun _ w' => Past o s w')
      fun _ _ => False := by
  obtain ⟨k, hk, hkc⟩ := h.seat.tables.context
  have hl := (h.seat.tables.coordinator l rfl).1
  have hint : (w.client.transaction t).hint = some y := h.seat.tables.hint t y rfl
  have turn := h.addCompletion (a := .discharged) (n := t) rfl
  obtain ⟨ready, sender⟩ := turn.ready rfl ⟨rfl, rfl⟩ hm hn
    (g := fun x => { x with stage := .discharging })
    fun _ => rfl
  unfold Context.handOver Link.discharge
  simp only [after_bind, Act.after_modifyContext, Act.after_newCompletion, Act.after_transaction]
  obtain ⟨v, hv⟩ : ∃ v, v = (w.on (·.changeContext s fun x => { x with
    stage := .discharging })).on (·.addCompletion) := ⟨_, rfl⟩
  have hint' : (v.client.transaction t).hint = some y := by
    rw [hv]
    exact hint
  rw [← hv, hint']
  subst hv
  refine after_transmit ready.link ready.opened sender ready.active fun label => ?_
  have sent := turn.transmit
    (.discharging (some (l, m.nextDelivery)) t y w.client.completions.size commit q) label
    (.discharge y (!commit))
    (e := ⟨some commit, t, .discharging w.client.completions.size s commit q⟩) ready hl rfl
    (fun _ e => by cases e) (fun i e => .inl (Option.some.inj e).symm) rfl rfl (if_pos rfl)
    (Client.changeContext_same hk)
    ⟨rfl, hkc.current, hkc.accepted, hkc.enrolled, hkc.coordinator⟩
    (fun t' y' e => ?_) (fun _ => ⟨rfl, rfl⟩) (fun t' e => turn.seat.home t' e)
    (fun _ _ e => by cases e) rfl hb
  · exact ⟨_, _, _, _, sent, ⟨trivial, ⟨hS.current, hS.discharging, hS.outstanding,
      Ledger.live_new h.common.purposes,
      (hq.addCompletion (a := .discharged) (n := t)).congr rfl rfl, hc, (hS.congr rfl).counted⟩,
      fun _ e => by cases e⟩, fun _ _ e => by cases e⟩
  · obtain ⟨rfl, rfl⟩ : t = t' ∧ y = y' := by simpa [Phase.bound] using e
    exact hint

/-- **The end of the transaction is asked for** on a link that has not closed. -/
theorem Turn.discharge (h : Turn o G none s (.active t y) (some l) S w) (ho : ¬ o.quiet)
    {m : Link Waiting} (hm : w.client.links[l]? = some m) (hn : m.state ≠ .closed)
    (hS : S.Closing w.client s t) (hq : G.Ends w.client s t commit q) (hc : commit → G.Clean t) :
    After (Context.discharge (surroundings (n + 1)) s (Context.endingFor commit) q) w
      (fun _ w' => Past o s w') fun _ _ => False := by
  obtain ⟨k, hk, hkc⟩ := h.seat.tables.context
  have hk : w.client.contexts[s]? = some k := hk
  unfold Context.discharge
  simp only [after_bind, Act.after_context, Client.context_eq hk, hkc.current, hkc.coordinator,
    Phase.bound, Option.map_some]
  cases commit with
  | false =>
    simp only [Context.endingFor, Bool.false_eq_true, if_false, after_bind, after_discard]
    refine (h.notify ho (.inr rfl)).mono (fun _ w' hw => ?_) fun _ _ => id
    obtain ⟨hw, bare⟩ := hw
    have same : w'.client.completions = w.client.completions := by rw [hw.client]
    refine hw.turn.handOver (by rw [hw.client]; exact hm) hn (hS.congr (by rw [hw.client]))
      (hq.congr rfl same) (fun e => by cases e) bare
  | true =>
    simp only [Context.endingFor, if_true, after_bind]
    refine (h.notify ho (.inl rfl)).mono (fun failure w' hw => ?_) fun _ _ => id
    obtain ⟨hw, bare⟩ := hw
    have hm' : w'.client.links[l]? = some m := by rw [hw.client]; exact hm
    have hq' : G.Ends w'.client s t true q := hq.congr rfl (by rw [hw.client])
    have hS' : S.Closing w'.client s t := hS.congr (by rw [hw.client])
    cases failure with
    | none => exact hw.turn.handOver hm' hn hS' hq' hc bare
    | some f =>
      simp only [after_bind, after_discard, Act.after_newCompletion]
      refine (hw.turn.notify ho (.inr rfl)).mono (fun _ w'' hw' => ?_) fun _ _ => id
      obtain ⟨hw', bare⟩ := hw'
      have turn := hw'.turn.addCompletion (a := .swapped) (n := t) rfl
      have hq'' : G.Ends w''.client s t true q := hq'.congr rfl (by rw [hw'.client])
      have hS'' : S.Closing w''.client s t := hS'.congr (by rw [hw'.client])
      refine turn.handOver (m := m) ?_ hn (hS''.congr rfl) (hq''.swap nofun hw'.turn.common.purposes)
        (fun e => by cases e) bare
      show w''.client.links[l]? = some m
      rw [hw'.client]
      exact hm'

/-! ### Transactions in doubt -/

/-- The broker has dropped the transaction of a link that has closed. -/
theorem Turn.unrecorded (h : Turn o G due s p co S w)
    (hc : ∀ l, co = some l → w.client.Closed l) : Unrecorded G s w := by
  intro y r hr hl
  obtain ⟨k, hk, ho⟩ := h.common.opened y r hr
  obtain ⟨k', hk', hs⟩ := hc r.link ((h.seat.tables.link r.link k hl hk).opened ho)
  obtain rfl := Option.some.inj (hk.symm.trans hk')
  cases ho.symm.trans hs

theorem Turn.abandon (h : Turn o G due s (.active t y) co S w) (ho : ¬ o.quiet)
    (hc : ∀ l, co = some l → w.client.Closed l) :
    After (Context.abandon (surroundings (n + 1)) s) w
      (fun _ w' => Turn o G due s .idle co S w' ∧ w'.client.completions = w.client.completions)
      fun _ _ => False := by
  unfold Context.abandon
  simp only [after_bind, after_discard]
  refine (h.notify ho (.inr rfl)).mono (fun _ w' hw => ?_) fun _ _ => id
  obtain ⟨hw, bare⟩ := hw
  have gone := hw.turn.unrecorded fun l e => hw.client ▸ hc l e
  refine (hw.turn.conclude ⟨rfl, rfl⟩ gone bare).mono (fun _ w'' hw' => ⟨hw'.1, ?_⟩) fun _ _ => id
  rw [hw'.2.1, hw.client]

/-- **A session ends its transaction.** One that is in doubt must be known to be. -/
theorem Turn.finish (h : Turn o G none s (.active t y) co S w) (commit : Bool) (ho : ¬ o.quiet)
    {info : TransactionRef} (hi : info.transaction = t)
    (hd : ∀ l, co = some l → w.client.Closed l → info.inDoubt) (hS : S.Closing w.client s t)
    (hq : G.Ends w.client s t commit q) (hc : commit → G.Clean t) :
    After (Context.finish (surroundings (n + 2)) s (Context.endingFor commit) info q) w
      (fun _ w' => Past o s w') fun _ _ => False := by
  obtain ⟨k, hk, hkc⟩ := h.seat.tables.context
  have hk : w.client.contexts[s]? = some k := hk
  have home := (h.seat.home t rfl).1
  have kc : k.coordinator = co := hkc.coordinator
  obtain ⟨l, hl⟩ := Option.ne_none_iff_exists'.1 (h.seat.tables.bound (by simp [Phase.bound]))
  obtain ⟨-, m, hm, -⟩ := h.seat.tables.coordinator l hl
  subst hl
  unfold Context.finish
  simp only [after_bind, Act.after_transaction, Act.after_currentId, Client.context_eq hk,
    hkc.current, Phase.bound, Option.map_some, hi]
  rw [if_neg (by simp)]
  simp only [after_bind, Act.after_context, Client.context_eq hk, hkc.stage]
  rw [if_neg (by simp [Phase.stage])]
  simp only [after_bind, Act.after_isFailed, Client.context_eq hk, kc, Option.any_some,
    Client.link_eq hm]
  by_cases hn : m.state = .closed
  · rw [if_pos (by simp [hn])]
    have doubt : info.inDoubt := hd l rfl ⟨m, hm, hn⟩
    have closed : ∀ i, some l = some i → w.client.Closed i := fun i e => Option.some.inj e ▸ ⟨m, hm, hn⟩
    cases commit with
    | false =>
      simp only [Context.endingFor, Bool.false_eq_true, if_false, after_bind]
      refine (h.abandon ho closed).mono (fun _ w' hw => ?_) fun _ _ => id
      exact hw.1.tell (hq.congr rfl hw.2) home hS.outstanding (fun _ e => by cases e)
        (fun e => by cases e) fun _ e => by cases e
    | true =>
      simp only [Context.endingFor, if_true, doubt, after_bind]
      refine (h.abandon ho closed).mono (fun _ w' hw => ?_) fun _ _ => id
      exact hw.1.tell (hq.congr rfl hw.2) home hS.outstanding
        (Failure.Legal.failed fun e => by cases e) (fun _ e => by cases e) fun _ e => by cases e
  · rw [if_neg (by simp [hn])]
    exact h.discharge ho hm hn hS hq hc

/-- **The session acts on the decision of its aggregate.** A rollback that takes the place of a commit
is reported as a failure. -/
theorem Turn.decide (h : Turn o G none s (.active t y) co S w) (ho : ¬ o.quiet)
    {decision : Decision} (hA : A.context = s) (hi : A.info.transaction = t)
    (hS : S.Closing w.client s t)
    (hq : G.Ends w.client s t A.commit A.request) (hc : decision.commit → A.commit ∧ G.Clean t) :
    After (Context.decide (surroundings (n + 2)) A decision) w (fun _ w' => Past o s w')
      fun _ _ => False := by
  obtain ⟨k, hk, hkc⟩ := h.seat.tables.context
  have hk : w.client.contexts[s]? = some k := hk
  have doubt : ∀ l, co = some l → w.client.Closed l →
      (A.info.inDoubt || co.any fun l => (w.client.link l).state = .closed) := by
    rintro l rfl ⟨m, hm, hn⟩
    simp [Client.link_eq hm, hn]
  unfold Context.decide
  simp only [after_bind, Act.after_isFailed, hA, Client.context_eq hk, hkc.coordinator]
  cases hac : A.commit with
  | false =>
    have hdc : decision.commit = false := by
      cases e : decision.commit with
      | false => rfl
      | true => cases hac.symm.trans (hc e).1
    simp only [hdc, Bool.false_and, Bool.false_eq_true, if_false]
    exact h.finish false ho hi doubt hS (hac ▸ hq) fun e => by cases e
  | true =>
    rw [hac] at hq
    cases hdc : decision.commit with
    | false =>
      simp only [Bool.not_false, Bool.and_self, if_true, after_bind, Act.after_newCompletion]
      have turn := h.addCompletion (a := .swapped) (n := t) rfl
      exact turn.finish false ho hi doubt (hS.congr rfl) (hq.swap (fun e => by cases e) h.common.purposes)
        fun e => by cases e
    | true =>
      simp only [Bool.not_true, Bool.and_false, Bool.false_eq_true, if_false]
      exact h.finish true ho hi doubt hS hq fun _ => (hc hdc).2

/-- **A send is settled that the end of the transaction waits for.** After the last one the end is
asked for. -/
theorem Turn.settleSend (h : Turn o G none s (.active t y) co S w) (ho : ¬ o.quiet) {i : Nat}
    {failure : Option Failure} (hcur : S.current = some t) (hd : S.discharging = true)
    (ha : S.aggregate = some i) (hA : w.client.aggregates[i]? = some A)
    (hw : G.Awaits w.client s t (S.outstanding + 1) A)
    (hc : A.sends.commit → failure = none → G.Clean t) :
    After (Context.settleSend (surroundings (n + 2)) i failure) w (fun _ w' => Back o w')
      fun _ _ => False := by
  obtain ⟨outcome, report, hreq, hl, hl'⟩ := hw.request
  have clean (e : (A.sends.note failure).commit) : A.commit ∧ G.Clean t := by
    obtain ⟨hs, hf⟩ := Aggregation.note_commit.1 e
    exact ⟨hw.commit hs, hc hs hf⟩
  unfold Context.settleSend
  simp only [after_bind, Act.after_client, hA]
  rw [Aggregation.settle_eq hw.pending hw.countable]
  obtain ⟨sends, hs⟩ : ∃ sends : Aggregation, sends = { A.sends.note failure with
    pending := .ofNat S.outstanding } := ⟨_, rfl⟩
  rw [← hs]
  have turn := h.changeAggregate sends hA hw.context hw.incomplete
  have told : (w.client.changeAggregate i sends).aggregates[i]? = some { A with sends } := by
    simp only [Client.changeAggregate, Array.getElem?_modify, hA, if_true, Option.map_some]
  by_cases last : S.outstanding = 0
  · simp only [last, if_true]
    refine (turn.decide ho hw.context hw.info ⟨hcur, hd, last, fun j e => ?_⟩ ?_ clean).mono
      (fun _ w' h' => h'.back) fun _ _ => id
    · obtain rfl : i = j := Option.some.inj (ha.symm.trans e)
      exact ⟨_, told, hw.context, by rw [hs, last]⟩
    · rw [hreq]
      exact .plain hl hl'
  · simp only [last, if_false]
    have clean' (e : sends.commit) : A.commit ∧ G.Clean t := clean (by rw [hs] at e; exact e)
    refine turn.back ⟨trivial, ⟨hcur, .inr ⟨hd, i, { A with sends }, ha, told, ?_, fun e =>
      (clean' e).2⟩⟩, fun _ e => by cases e⟩
    exact { hw with
      pending := by rw [hs]
      positive := Nat.pos_of_ne_zero last
      countable := Nat.le_of_succ_le hw.countable
      commit := fun e => (clean' e).1
      request := ⟨outcome, report, hreq, hl, hl'⟩ }

theorem Since.refl (o : Origin) : Since o o.ledger o.state where
  taken := rfl
  waiting := rfl
  told _ _ := id
  concluded _ := .inl
  onward := .refl _
  purposes _ _ _ := id
  reports _ _ _ := Iff.rfl
  homes _ _ := id
  transfers := rfl
  broker _ := rfl
  lawful := .of_eq rfl
  counted _ _ := id
  shift := .refl _

theorem Turn.restart (h : Turn o G none s p co S w) :
    Turn ⟨G, w, none, o.quiet⟩ G none s p co S w :=
  { h with
    due := nofun
    since := .refl _ }

theorem Since.trans (h : Since o G w) (h' : Since ⟨G, w, none, o.quiet⟩ G' w') : Since o G' w' where
  taken := h'.taken.trans h.taken
  waiting := h'.waiting.trans h.waiting
  told id n hl := h'.told id n (h.told id n hl)
  concluded t ht := h.concluded t ((h'.concluded t ht).resolve_right nofun)
  onward := h.onward.trans h'.onward
  purposes c a n e := h'.purposes c a n (h.purposes c a n e)
  reports c ending t := (h'.reports c ending t).trans (h.reports c ending t)
  homes t i e := h'.homes t i (h.homes t i e)
  transfers := h'.transfers.trans h.transfers
  broker e := (h'.broker e).trans (h.broker e)
  lawful := h.lawful.trans h'.lawful
  counted i j hc := h'.counted i j (h.counted i j hc)
  shift := h.shift.trans h'.shift

/-- The work before is part of the whole, and what was counted stays so. -/
theorem Past.resume (h : Past ⟨G, w, none, o.quiet⟩ s w') (ho : Since o G w) : Past o s w' ∧
    ∀ j, Ledger.Counted w.client s j → Ledger.Counted w'.client s j := by
  obtain ⟨G', p, co, S, turn, stands, past⟩ := h
  exact ⟨⟨G', p, co, S, { turn with due := nofun, since := ho.trans turn.since }, stands, past⟩,
    turn.since.counted s⟩

/-- **The end is asked for once so many sends are settled,** at once if there are none. -/
theorem Turn.finishAfter (h : Turn o G none s (.active t y) co S w) (ho : ¬ o.quiet)
    {info : TransactionRef} {k outcome report : Nat} (hi : info.transaction = t)
    (hd : ∀ l, co = some l → w.client.Closed l → info.inDoubt) (hk : k ≤ Number.countLimit)
    (hl : G.Live w.client outcome .outcome t)
    (hl' : G.Live w.client report (.report (Context.endingFor commit)) t)
    (hS : k = 0 → S.Closing w.client s t ∧ (commit → G.Clean t)) :
    After (Context.finishAfter (surroundings (n + 2)) s info (.ofNat k)
        (.client outcome (.ended s report)) commit) w
      (fun i w' => (k = 0 ∧ Past o s w' ∧ Ledger.Counted w'.client s i) ∨
        (0 < k ∧ Turn o G none s (.active t y) co S w' ∧
          ∃ A, w'.client.aggregates[i]? = some A ∧ G.Awaits w'.client s t k A ∧
            A.sends.commit = commit))
      fun _ _ => False := by
  obtain ⟨A, hA⟩ : ∃ A : Aggregate Waiting, A = { sends := { pending := .ofNat k, commit }
                                                  context := s, info, commit
                                                  request := .client outcome (.ended s report) } :=
    ⟨_, rfl⟩
  have turn := h.addAggregate (A := A)
  have added : (w.client.addAggregate A).aggregates[w.client.aggregates.size]? = some A := by
    simp [Client.addAggregate]
  unfold Context.finishAfter
  rw [Aggregation.ofSends_ofNat hk]
  simp only [after_bind, Act.after_newAggregate, ← hA, decide_eq_true_eq,
    Aggregation.isComplete_eq (a := { pending := .ofNat k, commit }) rfl hk]
  by_cases none : k = 0
  · obtain ⟨hS, hc⟩ := hS none
    rw [if_pos none, after_bind]
    have kept : S.Closing (w.on (·.addAggregate A)).client s t := { hS with
      counted := fun i e => (h.restart.addAggregate (A := A)).since.counted s i (hS.counted i e) }
    refine (turn.restart.finish commit ho hi hd kept (.plain hl hl') hc).mono (fun _ w' h' => ?_)
      fun _ _ => id
    obtain ⟨past, counted⟩ := h'.resume turn.since
    refine .inl ⟨none, past, counted _ ⟨A, added, ?_, ?_⟩⟩
    · rw [hA]
    · rw [hA, none]
  · rw [if_neg none]
    refine .inr ⟨Nat.pos_of_ne_zero none, turn, A, ?_, ?_, by rw [hA]⟩
    · exact added
    · subst hA
      exact ⟨rfl, hi, rfl, Nat.pos_of_ne_zero none, hk, id, outcome, report, rfl, hl, hl'⟩

end Peer

end Transact
