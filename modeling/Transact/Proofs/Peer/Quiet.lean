import Transact.Proofs.Peer.Runs

/-! # Nothing is left waiting

Whatever a session waits for waits in the loop: a link that is building for its opening or refusal, a
request for its answer, a send for its transfer. So once the loop is empty no session is in the middle
of anything, and everyone who was given a completion has been told.

* `Rest.quiet`: the two phases of a session at rest when the loop is empty.
* `Calm.answered`: whoever was promised an answer has it.
* `history_answered`: no task raises, and with an empty loop all completions are settled and every
  session that was started is in a transaction, or can be started again. -/

namespace Transact.Peer

open Run

variable {G : Ledger} {s c t l : Nat} {y : TxnId} {p : Phase Waiting} {co : Option Nat} {S : Session}
  {w : State}
  {past : List Moment}

/-! ### Sessions when the loop is empty -/

theorem tasks_eq_nil : tasks w = [] ↔ w.outside.loop.pending = 0 := by
  rw [← length_tasks, List.length_eq_zero_iff]

theorem Calm.waiting_eq_nil (h : Calm G w) (empty : tasks w = []) : G.waiting = [] := by
  have transfers := h.common.transfers
  rw [empty] at transfers
  exact List.map_eq_nil_iff.1 transfers.symm

/-- No link is building: its opening would wait in the loop. -/
theorem Rest.not_building (hr : Rest G s p co S w) (empty : tasks w = []) : p.building = none := by
  cases hb : p.building with
  | none => rfl
  | some l =>
    obtain ⟨job, hj, -⟩ := hr.opens l hb
    rw [empty] at hj
    cases hj

/-- No exchange is outstanding: its answer would wait in the loop. -/
theorem Rest.no_slot (hr : Rest G s p co S w) (empty : tasks w = []) : p.slot = none := by
  cases hs : p.slot with
  | none => rfl
  | some slot =>
    obtain ⟨l, d⟩ := slot
    obtain ⟨hco, m, hm, hopen, -⟩ := hr.seat.tables.slot l d hs
    have own : G.owners[l]? = some s := (hr.seat.tables.coordinator l hco).1
    have asks := hr.seat.asked l m own hm (by simp [hopen])
    obtain ⟨request, one⟩ := Phase.asks_slot hs
    rw [empty, one] at asks
    cases asks

/-- **With an empty loop** a session is idle, or in a transaction that it is not about to end. -/
theorem Rest.quiet (hr : Rest G s p co S w) (h : Calm G w) (empty : tasks w = []) :
    p = .idle ∨ ∃ t y, p = .active t y ∧ S.discharging = false := by
  have building := hr.not_building empty
  have slot := hr.no_slot empty
  cases p with
  | idle => exact .inl rfl
  | active t y =>
    refine .inr ⟨t, y, rfl, ?_⟩
    rcases hr.stance.2 with ⟨hd, -⟩ | ⟨-, a, A, -, -, waits, -⟩
    · exact hd
    · -- A session that ends its transaction waits for one send at least.
      have positive : 0 < S.outstanding := waits.positive
      have none_sent : S.outstanding = 0 := by
        rw [hr.count, Ledger.unsettled, h.waiting_eq_nil empty]
        rfl
      omega
  | opening link =>
    obtain rfl : link = none := building
    exact hr.firm.elim
  | declaring exchange =>
    obtain rfl : exchange = none := slot
    exact hr.firm.elim
  | discharging exchange =>
    obtain rfl : exchange = none := slot
    exact hr.firm.elim

theorem Calm.not_called (h : Calm G w) (empty : tasks w = []) {a : Purpose}
    (hc : G.purposes[c]? = some (a, t)) (ha : a.ofCaller) : ¬ w.client.Pending c := by
  intro pending
  have live : G.Live w.client c a t := ⟨hc, pending⟩
  have ht : t < G.homes.length := h.common.called c a t hc ha
  have home : G.homes[t]? = some G.homes[t] := List.getElem?_eq_getElem ht
  obtain ⟨p, co, S, hr⟩ := h.settled _ (h.common.home t _ home)
  cases a with
  | begun =>
    obtain ⟨begins, free⟩ := hr.dues.begun c t home live
    rcases hr.quiet h empty with rfl | ⟨t', y, rfl, -⟩
    · obtain ⟨f, failed⟩ := hr.stance.2 c begins
      cases pending.symm.trans failed
    · cases free.symm.trans hr.stance.1
  | report ending =>
    obtain ⟨current, discharging⟩ := hr.dues.report c ending t home live
    rcases hr.quiet h empty with rfl | ⟨t', y, rfl, hd⟩
    · cases current.symm.trans hr.stance.1.current
    · cases discharging.symm.trans hd
  | _ => cases ha

/-- **Whoever was promised an answer has it** when the loop is empty. -/
theorem Calm.answered (h : Calm G w) (empty : tasks w = []) (hc : G.Promised w.client c) :
    w.client.Settled c := by
  rcases hc with settled | ⟨a, t, purpose, caller⟩ | ⟨x, hx, -⟩
  · exact settled
  · have lt : c < w.client.completions.size := by
      rw [← h.common.purposes]
      exact (List.getElem?_eq_some_iff.1 purpose).1
    have found := Array.getElem?_eq_getElem lt
    cases hs : w.client.completions[c] with
    | pending => exact absurd (found.trans (congrArg some hs)) (h.not_called empty purpose caller)
    | settled r => exact ⟨r, found.trans (congrArg some hs)⟩
  · rw [h.waiting_eq_nil empty] at hx
    cases hx

/-! ### What a history shows -/

/-- The session was there when it was started, whatever came of it. -/
def Started (history : List Moment) (s : Nat) : Prop :=
  ∃ m ∈ history, m.step = .start s ∧ s < m.before.outside.sessions.size

/-- The session that is started. -/
def Step.starter? : Step → Option Nat
  | .start s => some s
  | _ => none

theorem Step.starter?_eq_some {step : Step} : step.starter? = some s ↔ step = .start s := by
  cases step <;> simp [starter?]

instance {history : List Moment} : Decidable (Started history s) :=
  decidable_of_iff (∃ m ∈ history, m.step.starter? = some s ∧ s < m.before.outside.sessions.size) <| by
    simp only [Started, Step.starter?_eq_some]

/-- The context of the session is in an active transaction, and the session is in the same one. -/
def InTransaction (w : State) (s : Nat) : Prop :=
  ∃ S x t, w.outside.sessions[s]? = some S ∧ w.client.contexts[S.context]? = some x ∧
    x.stage = .active ∧ x.current = some t ∧ S.current = some t

theorem Rest.inTransaction (hr : Rest G s (.active t y) co S w) : InTransaction w s := by
  obtain ⟨x, hx, at_⟩ := hr.seat.tables.context
  exact ⟨S, x, t, hr.session, by rw [hr.context]; exact hx, at_.stage, at_.current, hr.stance.1⟩

/-- The session is idle after a begin that failed. -/
def FailedToBegin (w : State) (s : Nat) : Prop :=
  ∃ S x b f, w.outside.sessions[s]? = some S ∧ w.client.contexts[S.context]? = some x ∧
    x.stage = .idle ∧ x.current = none ∧ S.current = none ∧ S.beginning = some b ∧
    w.client.completions[b]? = some (.settled (.failed f))

/-- To start the session is not refused: it begins its next transaction, and the completion that is
returned is the one of this begin. -/
def CanStart (w : State) (s : Nat) : Prop :=
  ∃ S S' c, w.outside.sessions[s]? = some S ∧ ((Step.start s).moment w).reply = .ok (some c) ∧
    ((Step.start s).moment w).after.outside.sessions[s]? = some S' ∧ S'.beginning = some c ∧
    S'.sequence = S.sequence + 1

theorem Calm.canStart (h : Calm G w) (hr : Rest G s .idle co S w) : CanStart w s := by
  have hs : s < w.outside.sessions.size := (Array.getElem?_eq_some_iff.1 hr.session).1
  have idle : ¬ (S.current.isSome ∨ S.Waits w.client) := by
    rintro (current | ⟨b, begins, waits⟩)
    · rw [hr.stance.1.current] at current
      cases current
    · obtain ⟨f, failed⟩ := hr.stance.2 b begins
      exact waits ⟨_, failed⟩
  have starts : After (Step.start s).perform w
      (fun c w' => ∃ c' g, c = some c' ∧ Starts w s c' w' g) fun _ _ => False := by
    refine after_about (fun few => absurd hs (Nat.not_lt.2 few)) fun _ => ?_
    simp only [after_bind, after_pure]
    refine (h.enter hs).mono (fun c w' hw => ?_) fun _ _ => id
    obtain ⟨g, -, -, -, begun, -⟩ := hw
    exact ⟨c, g, rfl, begun⟩
  have seen : ∃ c g, ((Step.start s).moment w).reply = .ok (some c) ∧
      Starts w s c ((Step.start s).moment w).after g := by
    refine (starts.mono (fun c w' hw => ?_) fun _ _ => False.elim).observed
      (P := fun reply w' => ∃ c g, reply = .ok (some c) ∧ Starts w s c w' g)
    obtain ⟨c', g, e, begun⟩ := hw
    exact ⟨c', g, congrArg Except.ok e, begun⟩
  obtain ⟨c, g, reply, begun⟩ := seen
  cases begun with
  | refused _ hS again _ =>
    obtain rfl := Option.some.inj (hr.session.symm.trans hS)
    exact absurd again idle
  | begun hS hS' begins next => exact ⟨_, _, c, hS, reply, hS', begins, next⟩

theorem Recorded.started_or (h : Recorded past G w) (empty : tasks w = []) (hs : Started past s) :
    InTransaction w s ∨ FailedToBegin w s ∧ CanStart w s := by
  obtain ⟨m, hm, start, lt⟩ := hs
  obtain ⟨S, hS, begun⟩ := h.started m hm s start lt
  obtain ⟨p, co, S', hr⟩ := h.calm.settled s (Array.getElem?_eq_some_iff.1 hS).1
  obtain rfl : S = S' := Option.some.inj (hS.symm.trans hr.session)
  rcases hr.quiet h.calm empty with rfl | ⟨t, y, rfl, -⟩
  · obtain ⟨x, hx, hxc⟩ := hr.seat.tables.context
    have context : w.client.contexts[S.context]? = some x := by
      rw [hr.context]
      exact hx
    obtain ⟨b, begins⟩ := Option.isSome_iff_exists.1 begun
    obtain ⟨f, failed⟩ := hr.stance.2 b begins
    exact .inr ⟨⟨S, x, b, f, hS, context, hxc.stage, hxc.current, hr.stance.1.current, begins, failed⟩,
      h.calm.canStart hr⟩
  · exact .inl hr.inTransaction

/-- **Nothing is left waiting.** No task of the loop raises anything. When the loop is empty, every
completion that was returned so far is settled, and every session that was started is in a transaction,
or is idle after a begin that failed, and can be started again. -/
theorem history_answered {refusesLinks : Bool} {steps : List Step}
    (hb : ∀ m ∈ history refusesLinks steps, Countable m.after) :
    (∀ m ∈ history refusesLinks steps, m.step = .runOne → m.reply = .ok none) ∧
      ((reach steps (initial refusesLinks)).outside.loop.pending = 0 →
        (∀ m ∈ history refusesLinks steps, ∀ c, m.reply = .ok (some c) →
          (reach steps (initial refusesLinks)).client.Settled c) ∧
        ∀ s, Started (history refusesLinks steps) s →
          InTransaction (reach steps (initial refusesLinks)) s ∨
            FailedToBegin (reach steps (initial refusesLinks)) s ∧
              CanStart (reach steps (initial refusesLinks)) s) := by
  obtain ⟨before, -⟩ := play_before (bounded_initial refusesLinks).countable hb
  obtain ⟨G, h⟩ := (recorded_initial refusesLinks).play before
  refine ⟨h.done, fun none => ?_⟩
  have empty := tasks_eq_nil.2 none
  exact ⟨fun m hm c reply => h.calm.answered empty (h.returned m hm c reply),
    fun s hs => h.started_or empty hs⟩

/-- One session commits a message and goes on to its next transaction; the declare of another one is
rejected. -/
def quietSteps : List Step :=
  [.newSession ⟨"c", .ofNat 1⟩ {}, .newSession ⟨"c", .ofNat 2⟩ {},
    .newProducer 0 (some ⟨"q", .queue⟩), .start 0, .runOne, .runOne, .rejectDeclare, .start 1, .runOne,
    .runOne, .send 0 "a" none, .finish 0 .commit, .runOne, .runOne, .runOne]

theorem history_answered_quiet :
    (∀ m ∈ history false quietSteps, Countable m.after) ∧
    (reach quietSteps (initial false)).outside.loop.pending = 0 ∧
    (∀ m ∈ history false quietSteps, ∀ c, m.reply = .ok (some c) →
      (reach quietSteps (initial false)).client.Settled c) ∧
    (InTransaction (reach quietSteps (initial false)) 0 ∧
      FailedToBegin (reach quietSteps (initial false)) 1) := by
  have countable : ∀ m ∈ history false quietSteps, Countable m.after := by decide +kernel
  have empty : (reach quietSteps (initial false)).outside.loop.pending = 0 := by decide +kernel
  obtain ⟨-, quiet⟩ := history_answered countable
  obtain ⟨settled, started⟩ := quiet empty
  have first : Started (history false quietSteps) 0 := by decide +kernel
  have second : Started (history false quietSteps) 1 := by decide +kernel
  have bound : (reach quietSteps (initial false)).outside.sessions[0]?.bind (·.current) = some 2 := by
    decide +kernel
  have unbound : (reach quietSteps (initial false)).outside.sessions[1]?.bind (·.current) = none := by
    decide +kernel
  refine ⟨countable, empty, settled, ?_, ?_⟩
  · refine (started 0 first).resolve_right ?_
    rintro ⟨⟨S, x, b, f, hS, -, -, -, idle, -⟩, -⟩
    rw [hS, Option.bind_some, idle] at bound
    cases bound
  · refine ((started 1 second).resolve_left ?_).1
    rintro ⟨S, x, t, hS, -, -, -, current⟩
    rw [hS, Option.bind_some, current] at unbound
    cases unbound

end Transact.Peer
