import Transact.Proofs.Scenario.Taking

/-! # A session alone with its broker: the end is asked for

The end of the first transaction is asked for. On an open link no message is taken in yet, and the end
waits for them all. After the link has closed, all messages are taken in and the end waits for nothing;
a failure that the session remembers makes it a rollback.

* `Taking.finish`: on an open link.
* `Broken.finishSession`: after the link has closed. -/

namespace Transact.Scenario

open Run Peer

variable {o : Options} {n e m k t l : Nat} {S S' : Session} {C : Context} {w w' : State}
  {id : TransactionId} {ending : Ending} {failed : Option Failure}

/-! ### What is the same in both cases -/

/-- The session has taken note of the end, with a completion for its caller and one for itself. -/
def asked (w : State) : State :=
  ((w.on (·.addCompletion)).out (·.changeSession 0 fun x => { x with discharging := true })).on
    (·.addCompletion)

theorem size_asked : (asked w).client.completions.size = w.client.completions.size + 2 := by
  simp [asked, World.on, World.out, Client.addCompletion]

theorem pending_asked {i : Nat} : (asked w).client.Pending i ↔
    w.client.Pending i ∨ i = w.client.completions.size ∨ i = w.client.completions.size + 1 := by
  have one : (w.client.addCompletion).completions.size = w.client.completions.size + 1 := by
    simp [Client.addCompletion]
  refine Client.pending_addCompletion.trans ?_
  rw [show ((w.on (·.addCompletion)).out (·.changeSession 0 fun x => { x with
    discharging := true })).client = w.client.addCompletion from rfl, Client.pending_addCompletion, one,
    or_assoc]

theorem Scene.asked (h : Scene S C w) : Scene { S with discharging := true } C (asked w) :=
  ⟨Outside.changeSession_same h.session, h.context, h.own, h.consumers, h.accepts, h.ends⟩

theorem Scene.finishes (h : Scene S C w) (current : S.current = some t) (free : S.discharging = false)
    {far : Surroundings} {Q : Nat → State → Prop} {R : Halt → State → Prop}
    (hQ : After (do
      let a ← Context.finishAfter far 0
        ⟨t, C.coordinator.any fun l => (w.client.link l).state = .closed⟩
        (.ofNat (S.outstanding + if S.failedSend.isSome then 1 else 0))
        (.client (w.client.completions.size + 1) (.ended 0 w.client.completions.size))
        (ending = .commit)
      modifySession 0 fun x => if x.discharging then { x with aggregate := some a } else x
      if S.failedSend.isSome then Context.settleSend far a S.failedSend
      return w.client.completions.size) (Scenario.asked w) Q R) :
    After (Session.finish far 0 ending) w Q R := by
  obtain ⟨v, hv⟩ : ∃ v : State, v = (w.on (·.addCompletion)).out (·.changeSession 0 fun x => { x with
      discharging := true }) := ⟨_, rfl⟩
  have context : v.client.context 0 = C := hv ▸ Client.context_eq h.context
  have link (l : Nat) : v.client.link l = w.client.link l := hv ▸ rfl
  have size : v.client.completions.size = w.client.completions.size + 1 := by
    rw [hv]
    exact Array.size_push _
  unfold Scenario.asked at hQ
  unfold Session.finish
  simp only [after_bind, after_sessionAt, Outside.session_eq h.session, current, free]
  simp only [Act.after_newCompletion, after_modifySession, Act.after_isFailed, h.own]
  rw [← hv] at hQ ⊢
  simp only [context, link, size]
  simp only [after_bind, after_modifySession] at hQ
  exact hQ

/-! ### On an open link -/

/-- **The end waits for all messages,** or the transaction is discharged at once if there are none. -/
theorem Taking.finish (h : Taking o n 0 e [] (receipt n) { member with outstanding := n } w)
    (small : n ≤ Number.countLimit) (aggregates : w.client.aggregates = #[]) :
    After (Session.finish (surroundings (m + 1)) 0 ending) w (fun c w' => c = receipt n ∧
      if n = 0 then Closing o n e (ending = .commit) w' else Awaiting o n 0 e (ending = .commit) w')
      fun _ _ => False := by
  obtain ⟨C, scene, active, current, coordinator, -⟩ := h.bound.scene
  obtain ⟨k, joined, still⟩ := h.bound.link
  have certain : C.coordinator.any (fun l => (w.client.link l).state = .closed) = false := by
    simp [coordinator, Client.link_eq joined.link, joined.opened]
  have size := h.size
  have taking : Taking o n 0 e [] (receipt n + 2) { member with outstanding := n, discharging := true }
      (asked w) := {
    bound := h.bound.congr scene.asked.session rfl rfl rfl rfl rfl rfl
    tasks := h.tasks
    size := size_asked.trans (congrArg (· + 2) size)
    pending := fun i le below => pending_asked.2 <| by
      rcases Nat.lt_or_ge i (receipt n) with old | new
      · exact .inl (h.pending i le old)
      · omega
    staged := h.staged
    discharges := h.discharges }
  have fresh : (asked w).client.aggregates = #[] := aggregates
  refine scene.finishes rfl rfl ?_
  obtain ⟨u, hu⟩ : ∃ u, u = asked w := ⟨_, rfl⟩
  rw [← hu] at taking fresh ⊢
  unfold Context.finishAfter
  simp only [certain, size, member, Option.isSome_none, Bool.false_eq_true, if_false, Nat.add_zero,
    Aggregation.ofSends_ofNat small, after_bind, Act.after_newAggregate, fresh]
  have complete : ({ pending := .ofNat n, commit := ending = .commit } : Aggregation).isComplete =
      decide (n = 0) := Aggregation.isComplete_eq rfl small
  by_cases zero : n = 0
  · subst zero
    have bound : Bound { member with discharging := true } firstId 0 0 firstName
        (u.on (·.addAggregate {
          sends := { pending := .ofNat 0, commit := ending = .commit }, context := 0, info := ⟨0, false⟩
          commit := ending = .commit, request := .client (receipt 0 + 1) (.ended 0 (receipt 0)) })) := by
      obtain ⟨C', scene', -⟩ := taking.bound.scene
      exact taking.bound.congr scene'.session rfl rfl rfl rfl rfl rfl
    have spared : decide (o.Fails 0) = false := decide_eq_false Options.not_fails_zero
    have reports := Reports.plain (b := receipt 0) (taking.pending (receipt 0 + 1) (by omega) (by omega))
      (taking.pending (receipt 0) (by omega) (by omega)) (by omega) (by omega) (Nat.le_refl _)
    simp only [complete, decide_true, if_true, after_bind, after_pure, after_modifySession]
    refine (bound.finish (ending = .commit) taking.tasks (reports.mono fun _ _ live => live)).mono
      (fun _ w' hw => ?_) fun _ _ => id
    refine ⟨trivial, ⟨none, ?_⟩, ?_, ?_⟩
    · simp only [spared, Bool.not_false, Bool.and_true, Bool.and_false]
      exact hw.waits.changeSession (f := fun x => if x.discharging then { x with aggregate := some 0 } else x)
        rfl
    · exact hw.broker ▸ taking.staged
    · rw [spared, Bool.not_false, Bool.and_true]
      exact hw.discharges.trans (congrArg (· ++ _) taking.discharges)
  · simp only [complete, zero, decide_false, Bool.false_eq_true, if_false, after_pure,
      after_modifySession]
    obtain ⟨C', scene', -⟩ := taking.bound.scene
    refine ⟨trivial, {
      taking := {
        bound := taking.bound.congr (Outside.changeSession_same scene'.session) rfl rfl rfl rfl rfl rfl
        tasks := taking.tasks
        size := taking.size
        pending := taking.pending
        staged := taking.staged
        discharges := taking.discharges }
      aggregate := ⟨{ pending := .ofNat n, commit := ending = .commit }, ?_, rfl, ?_⟩ }⟩
    · show (u.client.aggregates.push _)[0]? = _
      rw [fresh]
      rfl
    · simp [Options.not_fails_zero]

/-! ### After the link has closed -/

theorem endingFor_decide : Context.endingFor (ending = .commit) = ending := by
  cases ending <;> rfl

theorem Broken.congr (h : Broken S id t l w) (session : w'.outside.sessions[0]? = some S')
    (own : S'.context = 0) (contexts : w'.client.contexts = w.client.contexts)
    (links : w'.client.links = w.client.links)
    (transactions : w'.client.transactions = w.client.transactions)
    (endpoints : w'.outside.endpoints = w.outside.endpoints)
    (refuses : w'.outside.refusesLinks = w.outside.refusesLinks) : Broken S' id t l w' where
  scene := by
    obtain ⟨C, scene, rest⟩ := h.scene
    refine ⟨C, ⟨session, contexts ▸ scene.context, own, scene.consumers, ?_, ?_⟩, rest⟩
    · exact refuses.trans scene.accepts
    · rw [endpoints, links]
      exact scene.ends
  link := by
    rw [Client.link, links]
    exact h.link
  transaction := by
    rw [Client.transaction, transactions]
    exact h.transaction

/-- An aggregate decides on a rollback, as a send has failed. -/
theorem Broken.ends (h : Broken S firstId 0 0 w) (same : S.id = member.id ∧ S.sequence = 1)
    (empty : tasks w = []) (accepted : w.outside.broker.declaresToReject = 0)
    {A : Aggregate Waiting} {d : Decision} {commit : Bool} (context : A.context = 0)
    (info : A.info = ⟨0, true⟩) (asked : A.commit = commit)
    (request : A.request = .client (receipt n + 1) (.ended 0 (receipt n))) (decided : d.commit = false)
    (first : w.client.Pending (receipt n)) (second : w.client.Pending (receipt n + 1)) :
    After (Context.decide (surroundings (m + 2)) A d) w (fun _ w' =>
      Loop.Settles (exec (surroundings (k + 1))) (fun v => ∃ cause, MovedOn member (receipt n)
        (telling cause commit (.succeeded ())) w.outside.broker
        (dischargesOf w.outside.requests.toList) v) 2 w') fun _ _ => False := by
  obtain ⟨C, scene, active, current, coordinator⟩ := h.scene
  have moved {r : Resolution Unit} {b : Broker} {ds : List Bool} {v : State}
      (hv : MovedOn S (receipt n) r b ds v) : MovedOn member (receipt n) r b ds v := by
    refine ⟨hv.completed, ?_, hv.queued, hv.discharges⟩
    rw [← same.1, show member.sequence = S.sequence from same.2.symm]
    exact hv.next
  have size := second.lt
  unfold Context.decide
  simp only [after_bind, context, info, asked, request, decided, Act.after_isFailed,
    Client.context_eq scene.context, coordinator, Option.any_some, h.link, decide_true, Bool.or_self,
    Bool.not_false, Bool.and_true]
  cases commit with
  | true =>
    simp only [if_true, after_bind, Act.after_newCompletion]
    have broken : Broken S firstId 0 0 (w.on (·.addCompletion)) :=
      h.congr scene.session scene.own rfl rfl rfl rfl rfl
    have old {c : Nat} (pending : w.client.Pending c) : (w.on (·.addCompletion)).client.Pending c :=
      Client.pending_addCompletion.2 (.inl pending)
    refine (broken.finish (m := k) empty accepted (.instead (b := receipt n)
      (Client.pending_addCompletion.2 (.inr rfl)) (old second) (old first) (by omega) (by omega)
      (by omega) (by omega) (by omega) (Nat.le_refl _))).mono (fun _ w' hw => ?_) fun _ _ => id
    exact hw.1.mono fun v hv => ⟨_, moved hv⟩
  | false =>
    simp only [Bool.false_eq_true, if_false]
    refine (h.finish (m := k) empty accepted (.plain (b := receipt n) second first (by omega) (by omega)
      (Nat.le_refl _))).mono (fun _ w' hw => ?_) fun _ _ => id
    exact hw.1.mono fun v hv => ⟨none, moved hv⟩

/-- **The end waits for nothing:** the transaction is in doubt. What is remembered of a failure makes it
a rollback. -/
theorem Broken.finishSession (h : Broken { member with failedSend := failed } firstId 0 0 w)
    (empty : tasks w = []) (accepted : w.outside.broker.declaresToReject = 0)
    (size : w.client.completions.size = receipt n) (fresh : w.client.aggregates = #[]) :
    After (Session.finish (surroundings (m + 2)) 0 ending) w (fun c w' => c = receipt n ∧
      Loop.Settles (exec (surroundings (k + 1))) (fun v => ∃ cause, MovedOn member (receipt n)
        (telling cause (ending = .commit && failed.isSome)
          (Context.answerUnbound (if failed.isSome then .rollback else ending) true true))
        w.outside.broker (dischargesOf w.outside.requests.toList) v) 2 w') fun _ _ => False := by
  obtain ⟨C, scene, active, current, coordinator⟩ := h.scene
  have doubt : C.coordinator.any (fun l => (w.client.link l).state = .closed) = true := by
    simp [coordinator, h.link]
  have broken : Broken { member with failedSend := failed, discharging := true } firstId 0 0 (asked w) :=
    h.congr scene.asked.session rfl rfl rfl rfl rfl rfl
  have first : (asked w).client.Pending (receipt n) := pending_asked.2 (by omega)
  have second : (asked w).client.Pending (receipt n + 1) := pending_asked.2 (by omega)
  have told := size_asked (w := w)
  have fresh : (asked w).client.aggregates = #[] := fresh
  refine scene.finishes rfl rfl ?_
  unfold Context.finishAfter
  cases failed with
  | none =>
    simp only [doubt, size, member, Option.isSome_none, Bool.false_eq_true, if_false, Nat.add_zero,
      Aggregation.ofSends_ofNat (Nat.zero_le _), after_bind, Act.after_newAggregate, fresh,
      Array.size_empty]
    rw [if_pos (by simp [Aggregation.isComplete])]
    have broken' : Broken { member with discharging := true } firstId 0 0
        ((asked w).on (·.addAggregate {
          sends := { pending := .ofNat 0, commit := ending = .commit }, context := 0, info := ⟨0, true⟩
          commit := ending = .commit, request := .client (receipt n + 1) (.ended 0 (receipt n)) })) :=
      broken.congr scene.asked.session rfl rfl rfl rfl rfl rfl
    rw [after_bind, endingFor_decide]
    simp only [after_pure, after_modifySession]
    refine (broken'.finish (m := k) empty accepted (.plain (b := receipt n) second first (by omega)
      (by omega) (Nat.le_refl _))).mono (fun _ w' hw => ?_) fun _ _ => id
    obtain ⟨settles, S', session, idle⟩ := hw
    have unchanged : (w'.out (·.changeSession 0 fun x =>
        if x.discharging then { x with aggregate := some 0 } else x)) = w' :=
      congrArg (World.mk w'.client) (Outside.changeSession_self session (by simp [idle]))
    rw [Bool.and_false]
    refine ⟨trivial, ?_⟩
    rw [unchanged]
    exact settles.mono fun v hv => ⟨none, hv.completed, hv.next, hv.queued, hv.discharges⟩
  | some f =>
    simp only [doubt, size, member, Option.isSome_some, if_true, Nat.zero_add,
      Aggregation.ofSends_ofNat (show 1 ≤ Number.countLimit by decide), after_bind,
      Act.after_newAggregate, fresh, Array.size_empty]
    have waiting : ({ pending := .ofNat 1, commit := ending = .commit } : Aggregation).isComplete =
        false := Aggregation.isComplete_eq (k := 1) rfl (by decide)
    simp only [waiting, Bool.false_eq_true, if_false, after_pure, after_modifySession]
    obtain ⟨u, hu⟩ : ∃ u : State, u = ((asked w).on (·.addAggregate {
        sends := { pending := .ofNat 1, commit := ending = .commit }, context := 0, info := ⟨0, true⟩
        commit := ending = .commit, request := .client (receipt n + 1) (.ended 0 (receipt n)) })).out
        (·.changeSession 0 fun x => if x.discharging then { x with aggregate := some 0 } else x) :=
      ⟨_, rfl⟩
    have found : u.client.aggregates[0]? = some {
        sends := { pending := .ofNat 1, commit := ending = .commit }, context := 0, info := ⟨0, true⟩
        commit := ending = .commit, request := .client (receipt n + 1) (.ended 0 (receipt n)) } := by
      rw [hu]
      show ((asked w).client.aggregates.push _)[0]? = _
      rw [fresh]
      rfl
    rw [← hu]
    unfold Context.settleSend
    simp only [after_bind, Act.after_client]
    split
    · next none => cases found.symm.trans none
    next A some_ =>
    obtain rfl := Option.some.inj (found.symm.trans some_)
    rw [Aggregation.settle_eq (k := 0) rfl (by decide)]
    simp only [after_bind, Act.after_changeAggregate, if_true]
    have broken' (sends : Aggregation) : Broken { leaving with failedSend := some f } firstId 0 0
        (u.on (·.changeAggregate 0 sends)) := by
      subst hu
      exact broken.congr (Outside.changeSession_same scene.asked.session) rfl rfl rfl rfl rfl rfl
    refine ((broken' _).ends (k := k) ⟨rfl, rfl⟩ ?_ ?_ rfl rfl rfl rfl rfl ?_ ?_).mono (fun _ w' hw => ?_)
      fun _ _ => id
    · subst hu
      exact empty
    · subst hu
      exact accepted
    · subst hu
      exact first
    · subst hu
      exact second
    · rw [Bool.and_true]
      subst hu
      exact ⟨trivial, hw⟩

end Transact.Scenario
