import Mathlib.Algebra.Ring.Rat
import Transact.Proofs.Peer.Setup
import Transact.Proofs.Scenario.Finishing

/-! # The scenario, from one end to the other

The phases of the scenario are put together. Whether the loop can run all tasks depends on the number
of messages and on whether the link is dropped; if it can, the report is a function of the options, up to
the cause of the failure in it.

* `Sent.finished`: the end on an open link, once the messages are sent.
* `Sent.drops`, `Dropped.finished`: the same where the link is dropped first.
* `run_comes`: a run comes to a report, or to the refusal of the loop.
* `run_foretold`: what the options foretell, in their own words. -/

namespace Transact.Scenario

open Run Peer

variable {o : Options} {n k : Nat} {w : State} {P : State → Prop}

/-! ### The first transaction -/

/-- The only session before it starts, and its context. -/
def newcomer : Session := { id := defaultSession, context := 0 }

/-- The client with its only session. -/
def alone : State :=
  (initial.on (·.addContext defaultSession)).out (·.addSession newcomer)

theorem after_newcomer {Q : Nat → State → Prop} {R : Halt → State → Prop} :
    After (newSession defaultSession {}) initial Q R ↔ Q 0 alone := Iff.rfl

theorem scene_alone : Scene newcomer { session := defaultSession } alone :=
  ⟨rfl, rfl, rfl, rfl, rfl, rfl⟩

theorem alone_starts : After (Session.start peer 0) alone (fun c w => c = 0 ∧
    Loop.Settles (exec peer) (Begun newcomer 0 0 3 alone) 2 w) fun _ _ => False := by
  unfold Session.start
  simp only [after_bind, after_sessionAt, Outside.session_eq scene_alone.session, newcomer]
  rw [after_pure, if_neg (by simp)]
  refine (scene_alone.begins_alone (n := 2) (m := 2) rfl (fun _ e => by cases e) rfl rfl).mono
    (fun c w hw => ?_) fun _ _ => id
  obtain ⟨rfl, -, settles⟩ := hw
  exact ⟨rfl, settles⟩

/-- The session has a producer, and has sent nothing yet. -/
theorem Begun.sent (h : Begun newcomer 0 0 3 alone w) :
    After (newProducer 0 (some { name := o.address })) w (fun p w' => p = 0 ∧ Sent o 0 w')
      fun _ _ => False := by
  obtain ⟨C, scene, -⟩ := h.bound.scene
  have producers : w.outside.producers = #[] := h.aside.producers
  refine ⟨congrArg Array.size producers, {
    bound := h.bound.congr (Outside.changeSession_same scene.session) rfl rfl rfl rfl rfl rfl
    tasks := h.tasks
    size := h.size
    pending := fun j le lt => ?_
    broker := h.broker
    transfers := h.aside.transfers
    producer := ?_
    aggregates := h.aside.aggregates
    links := h.links
    discharges := h.aside.discharges }⟩
  · unfold receipt at lt
    omega
  · refine ⟨⟨.producer, (w.outside.session 0).id, .ofNat (w.outside.session 0).producerNumber⟩, ?_⟩
    show (w.outside.producers.push _)[0]? = _
    rw [producers]
    rfl

/-! ### The loop -/

theorem allowance_default : Loop.allowance Loop.defaultLimit = 10000 := by
  rw [Loop.defaultLimit, Number.ofNat_of_le (by decide)]
  rfl

/-- **All tasks are run,** unless there are too many. -/
theorem after_settle (h : Loop.Settles (exec peer) P k w) :
    After settle w (fun _ w' => k ≤ 10000 ∧ P w') fun e _ => 10000 < k ∧
      ∃ next, e = .raised (Problem.loopUnsettled Loop.defaultLimit next).toFailure := by
  unfold settle Loop.drain
  rw [after_discard, allowance_default]
  refine h.drainFrom.mono (fun ran w' hw => ?_) fun _ _ => id
  exact ⟨hw.1, hw.2.2⟩

/-! ### What the report says -/

namespace Options

variable (o : Options)

/-- How many messages are sent. -/
def count : Nat := countBelow o.sends

/-- Whether a message that is sent is one that the broker is told to reject. -/
def Spoiled : Prop := o.Fails o.count

instance : Decidable o.Spoiled := inferInstanceAs (Decidable (o.Fails o.count))

/-- There are more tasks than the loop runs at once. -/
def Unsettled : Prop := if o.dropLink then 9999 < o.count else 9998 < o.count

/-- Nothing stands in the way of the commit. -/
def Plain : Prop := o.dropLink = false ∧ o.rejectDischarge = false ∧ o.rollback = false ∧ ¬ o.Spoiled

instance : Decidable o.Plain := inferInstanceAs (Decidable (_ ∧ _ ∧ _ ∧ _))

/-- Why the transaction did not end as was asked for. -/
def problem : Option Problem :=
  if o.dropLink then
    if o.rollback then none else if o.Spoiled then some .sendFailed else some .lostInDoubt
  else if o.rejectDischarge then
    if o.rollback ∨ o.Spoiled then some (.rollbackRejected firstId (some Broker.dischargeRefused))
    else some (.commitRejected firstId (some Broker.dischargeRefused))
  else if o.rollback then none
  else if o.Spoiled then some .sendFailed else none

/-- The report, but for what has caused the failure in it. -/
def report (cause : Option Failure) : Report where
  outcome := outcomeOf o.rollback (o.problem.map (·.toFailure cause))
  published := if o.Plain then (List.range o.count).map body else []
  discharges := if o.dropLink then [] else [o.rollback || o.Spoiled]
  nextTransaction := some ⟨defaultSession, .ofNat 2⟩
  failure := o.problem.map (·.toFailure cause)

theorem lt_count {i : Nat} : i < o.count ↔ (i : Rat) < o.sends.value := by
  have cast : ((i : Int) : Rat) = (i : Rat) := Rat.intCast_natCast i
  rw [count, countBelow, Int.lt_toNat, Rat.lt_ceil_iff, cast]

theorem count_le (small : o.sends.value < 2 ^ 53) : o.count ≤ Number.countLimit := by
  have bound : o.sends.value.ceil ≤ (2 ^ 53 : Int) := by
    rw [Rat.ceil_le_iff]
    exact Rat.le_of_lt small
  unfold count countBelow
  exact Int.toNat_le.2 bound

/-- What is asked for. -/
def ending : Ending := if o.rollback then .rollback else .commit

theorem asks_commit : decide (o.ending = .commit) = !o.rollback := by
  unfold ending
  cases o.rollback <;> rfl

end Options

/-! ### The end -/

/-- All is over, and this is to be reported. -/
def Over (o : Options) (w : State) : Prop :=
  ∃ r broker cause, MovedOn member (receipt o.count) r broker (o.report cause).discharges w ∧
    r.cause? = (o.report cause).failure ∧ broker.queued o.address = (o.report cause).published

theorem Sent.taking {e : Nat} {rest : List Task} {v : State} (h : Sent o n w)
    (client : v.client = w.client)
    (outside : v.outside = { w.outside with
      loop := v.outside.loop, broker := { w.outside.broker with dischargesToReject := e } })
    (tasks : Peer.tasks v = Peer.tasks w ++ rest) :
    Taking o n 0 e rest (receipt n) { member with outstanding := n } v where
  bound := by
    obtain ⟨C, scene, -⟩ := h.bound.scene
    refine h.bound.congr ?_ rfl (congrArg _ client) (congrArg _ client) (congrArg _ client) ?_ ?_
    · rw [outside]
      exact scene.session
    · rw [outside]
    · rw [outside]
  tasks := by
    rw [tasks, h.tasks, List.range_eq_range', Nat.sub_zero]
  size := client ▸ h.size
  pending i le lt := by
    rw [client]
    exact h.pending i le lt
  staged := by
    rw [outside]
    show Staged o n 0 e { w.outside.broker with dischargesToReject := e }
    rw [h.broker]
    exact staged_zero
  discharges := by
    rw [outside]
    exact h.discharges

theorem cause?_answered (cause : Option Failure) (kept : o.dropLink = false) : ∃ cause',
    (telling cause (!o.rollback && decide o.Spoiled)
      (Link.dischargeResolution firstId (!o.rollback && !decide o.Spoiled)
        (if 0 < if o.rejectDischarge then 1 else 0 then .rejected Broker.dischargeRefused
          else .accepted))).cause? = o.problem.map (·.toFailure cause') := by
  cases hj : o.rejectDischarge with
  | true =>
    refine ⟨none, ?_⟩
    cases hr : o.rollback <;> by_cases hs : o.Spoiled <;>
      simp [Options.problem, telling, Link.dischargeResolution, Resolution.cause?, kept, hj, hr, hs]
  | false =>
    refine ⟨cause, ?_⟩
    cases hr : o.rollback <;> by_cases hs : o.Spoiled <;>
      simp [Options.problem, telling, Link.dischargeResolution, Resolution.cause?, kept, hj, hr, hs]

/-- **On an open link** what comes of the discharge is what the report says. -/
theorem Closing.over {m : Nat} (h : Closing o o.count (if o.rejectDischarge then 1 else 0)
      (o.ending = .commit) w) (kept : o.dropLink = false) :
    Loop.Settles (exec (surroundings (m + 2))) (Over o) 2 w := by
  refine h.settles.mono fun v hv => ?_
  obtain ⟨cause, moved⟩ := hv
  obtain ⟨answered, -, dropped, published⟩ :
      (w.outside.broker.discharge firstName (!(!o.rollback && !decide o.Spoiled))).1 = _ ∧ _ :=
    h.staged.discharge
  rw [o.asks_commit, show decide (o.Fails o.count) = decide o.Spoiled from rfl, answered] at moved
  have fields : (o.report none).discharges = [!(!o.rollback && !decide o.Spoiled)] := by
    simp [Options.report, kept]
  obtain ⟨cause', told⟩ := cause?_answered cause kept
  rw [← fields] at moved
  refine ⟨_, _, cause', moved, told, ?_⟩
  show _ = if o.Plain then (List.range o.count).map body else []
  by_cases plain : o.Plain
  · rw [if_pos plain]
    obtain ⟨-, hj, hr, hs⟩ := plain
    exact published (by simp [hj]) (by simp [hr, hs]) hs
  · rw [if_neg plain]
    refine dropped ?_ o.address
    cases hr : o.rollback <;> cases hj : o.rejectDischarge <;> by_cases hs : o.Spoiled <;>
      simp_all [Options.Plain]

/-- **On an open link** the end takes two tasks after the messages. -/
theorem Sent.finished (h : Sent o o.count w) (small : o.count ≤ Number.countLimit)
    (kept : o.dropLink = false) {v : State} (client : v.client = w.client)
    (outside : v.outside = { w.outside with broker := { w.outside.broker with
      dischargesToReject := if o.rejectDischarge then 1 else 0 } }) :
    After (Session.finish peer 0 o.ending) v (fun c w' => c = receipt o.count ∧
      Loop.Settles (exec peer) (Over o) (o.count + 2) w') fun _ _ => False := by
  have loop : v.outside.loop = w.outside.loop := by rw [outside]
  have tasks : Peer.tasks v = Peer.tasks w ++ [] := by
    rw [List.append_nil, Peer.tasks, loop]
    rfl
  have taking := h.taking client (e := if o.rejectDischarge then 1 else 0) (by rw [loop]; exact outside) tasks
  have fresh : v.client.aggregates = #[] := client ▸ h.aggregates
  refine (taking.finish (m := 2) small fresh).mono (fun c w' hw => ⟨hw.1, ?_⟩) fun _ _ => id
  by_cases zero : o.count = 0
  · have closing := hw.2
    rw [if_pos zero] at closing
    rw [zero]
    exact closing.over kept
  · have awaiting := hw.2
    rw [if_neg zero] at awaiting
    exact awaiting.settles (Nat.pos_of_ne_zero zero) small fun v hv => hv.over kept

/-! ### The link is dropped first -/

/-- All messages are taken in, and then the link was closed. -/
structure Dropped (o : Options) (n : Nat) (w : State) : Prop where
  broken : ∃ failed : Option Failure, (failed.isSome ↔ o.Fails n) ∧
    Broken { member with failedSend := failed } firstId 0 0 w
  tasks : tasks w = []
  size : w.client.completions.size = receipt n
  accepts : w.outside.broker.declaresToReject = 0
  queued : ∀ a, w.outside.broker.queued a = []
  aggregates : w.client.aggregates = #[]
  discharges : dischargesOf w.outside.requests.toList = []

theorem Sent.after_closeAll {error : Option Condition} {Q : Unit → State → Prop}
    {R : Halt → State → Prop} (h : Sent o n w)
    (hQ : ∀ label, Q () (w.out (·.schedule label (.closeLink 0 error)))) :
    After (closeAll error) w Q R := by
  obtain ⟨C, scene, -⟩ := h.bound.scene
  obtain ⟨k, joined, -⟩ := h.bound.link
  obtain ⟨e, found, active, -⟩ := joined.far
  have only : w.outside.endpoints.toList = [e] := by
    have size : w.outside.endpoints.toList.length = 1 := scene.ends.trans h.links
    obtain ⟨x, hx⟩ := List.length_eq_one_iff.1 size
    have same : some x = some e := by
      rw [← found, ← Array.getElem?_toList, hx]
      rfl
    rw [hx, Option.some.inj same]
  unfold closeAll
  rw [after_bind, Act.after_outside, only]
  simp only [List.zipIdx_cons, List.zipIdx_nil, List.filter_cons, active, if_true, List.filter_nil,
    List.forM_eq_forM, List.forM_cons, List.forM_nil, after_bind, after_add, after_pure]
  exact hQ _

/-- **The loop takes in all messages, and closes the link.** -/
theorem Sent.drops {error : Option Condition} {label : String} (h : Sent o n w)
    (small : n ≤ Number.countLimit) :
    Loop.Settles (exec peer) (Dropped o n) (n + 1)
      (w.out (·.schedule label (.closeLink 0 error))) := by
  have taking : Taking o n 0 0 [.closeLink 0 error] (receipt n) { member with outstanding := n }
      (w.out (·.schedule label (.closeLink 0 error))) := by
    refine h.taking rfl ?_ tasks_schedule
    have same : { w.outside.broker with dischargesToReject := 0 } = w.outside.broker := by
      rw [h.broker]
      rfl
    rw [same]
    rfl
  have collecting : Collecting o n 0 [.closeLink 0 error]
      (w.out (·.schedule label (.closeLink 0 error))) :=
    ⟨⟨none, iff_of_false Bool.false_ne_true Options.not_fails_zero, taking⟩, h.aggregates⟩
  refine collecting.settles (m := 2) (Nat.zero_le n) small fun v hv => ?_
  obtain ⟨failed, fails, taken⟩ := hv.taking
  rw [Nat.sub_self] at taken
  have waits : Peer.tasks v = [.closeLink 0 error] := by simp [taken.tasks]
  obtain ⟨accepts, queued⟩ := taken.staged.forgetLink
  refine (taken.bound.dropped waits).mono (fun started w' hw => ?_) fun _ _ => id
  obtain ⟨started, broken, empty, broker, completions, aggregates, requests⟩ := hw
  refine ⟨started, settles_zero empty ⟨⟨failed, fails, broken⟩, empty, ?_, ?_, ?_, ?_, ?_⟩⟩
  · rw [completions]
    exact taken.size
  · rw [broker]
    exact accepts
  · rw [broker]
    exact queued
  · exact aggregates.trans hv.aggregates
  · rw [requests]
    exact taken.discharges

theorem cause?_inDoubt (cause : Option Failure) (dropped : o.dropLink = true) : ∃ cause',
    (telling cause (!o.rollback && decide o.Spoiled)
      (Context.answerUnbound (if decide o.Spoiled then .rollback else o.ending) true true)).cause? =
        o.problem.map (·.toFailure cause') := by
  by_cases hs : o.Spoiled
  · refine ⟨cause, ?_⟩
    cases hr : o.rollback <;>
      simp [Options.problem, telling, Context.answerUnbound, Resolution.cause?, dropped, hr, hs]
  · refine ⟨none, ?_⟩
    cases hr : o.rollback <;>
      simp [Options.problem, Options.ending, telling, Context.answerUnbound, Resolution.cause?, dropped, hr,
        hs]

/-- **In doubt** the transaction has ended at once, and two tasks are left. -/
theorem Dropped.finished (h : Dropped o o.count w) (dropped : o.dropLink = true) {e : Nat} {v : State}
    (client : v.client = w.client) (outside : v.outside = { w.outside with
      broker := { w.outside.broker with dischargesToReject := e } }) :
    After (Session.finish peer 0 o.ending) v (fun c w' => c = receipt o.count ∧
      Loop.Settles (exec peer) (Over o) 2 w') fun _ _ => False := by
  obtain ⟨failed, fails, broken⟩ := h.broken
  obtain ⟨C, scene, -⟩ := broken.scene
  have broken : Broken { member with failedSend := failed } firstId 0 0 v := by
    refine broken.congr ?_ rfl (congrArg _ client) (congrArg _ client) (congrArg _ client) ?_ ?_
    · rw [outside]
      exact scene.session
    · rw [outside]
    · rw [outside]
  have empty : Peer.tasks v = [] := by
    rw [← h.tasks, Peer.tasks, outside]
    rfl
  have accepted : v.outside.broker.declaresToReject = 0 := by
    rw [outside]
    exact h.accepts
  refine (broken.finishSession (m := 1) (k := 2) empty accepted (client ▸ h.size)
    (client ▸ h.aggregates)).mono (fun c w' hw => ⟨hw.1, hw.2.mono fun u hu => ?_⟩) fun _ _ => id
  obtain ⟨cause, moved⟩ := hu
  have spoiled : failed.isSome = decide o.Spoiled := by
    rw [Bool.eq_iff_iff, decide_eq_true_eq]
    exact fails
  rw [o.asks_commit, spoiled] at moved
  obtain ⟨cause', told⟩ := cause?_inDoubt cause dropped
  have fields : (o.report cause').discharges = dischargesOf v.outside.requests.toList := by
    rw [outside]
    show _ = dischargesOf w.outside.requests.toList
    rw [h.discharges]
    simp [Options.report, dropped]
  rw [← fields] at moved
  refine ⟨_, _, cause', moved, told, ?_⟩
  have impure : ¬ o.Plain := by simp [Options.Plain, dropped]
  show _ = if o.Plain then (List.range o.count).map body else []
  rw [if_neg impure, outside]
  exact h.queued o.address

/-! ### From one end to the other -/

/-- What is reported in the end. -/
def account (o : Options) (completed : Nat) : Peering Report := do
  let failure ← failureOf completed
  let next ← match (← sessionAt 0).current with
    | none => pure none
    | some t => pure (some (← Act.transaction t).id)
  let outside ← Act.outside
  return {
    outcome := outcomeOf o.rollback failure
    published := outside.broker.queued o.address
    discharges := dischargesOf outside.requests.toList
    nextTransaction := next
    failure }

theorem after_failureOf {c : Nat} {Q : Option Failure → State → Prop} {R : Halt → State → Prop} :
    After (failureOf c) w Q R ↔
      Q ((w.client.completions[c]?.getD .pending).resolution?.bind (·.cause?)) w := Iff.rfl

theorem Over.account (h : Over o w) : After (Scenario.account o (receipt o.count)) w
    (fun r _ => ∃ cause, r = o.report cause) fun _ _ => False := by
  obtain ⟨r, broker, cause, moved, told, published⟩ := h
  obtain ⟨S, t, y, session, current, transaction⟩ := moved.next
  have named : w.client.transaction t = ⟨⟨defaultSession, .ofNat 2⟩, some y⟩ := by
    rw [Client.transaction, transaction]
    rfl
  unfold Scenario.account
  simp only [after_bind, after_failureOf, moved.completed, after_sessionAt, Outside.session_eq session,
    current, Act.after_transaction, named, Act.after_outside, after_pure]
  refine ⟨cause, ?_⟩
  rw [moved.queued, published, moved.discharges]
  show Report.mk (outcomeOf o.rollback r.cause?) _ _ _ r.cause? = _
  rw [told]
  rfl

/-- The end of the scenario. -/
def conclusion (o : Options) : Peering Report := do
  if o.rejectDischarge then
    modifyBroker fun b => { b with dischargesToReject := b.dischargesToReject + 1 }
  let completed ← Session.finish peer 0 o.ending
  settle
  account o completed

theorem after_conclusion (finished : ∀ v : State, v.client = w.client →
      v.outside = { w.outside with broker := { w.outside.broker with
        dischargesToReject := w.outside.broker.dischargesToReject + if o.rejectDischarge then 1 else 0 } } →
      After (Session.finish peer 0 o.ending) v (fun c w' => c = receipt o.count ∧
        Loop.Settles (exec peer) (Over o) k w') fun _ _ => False) :
    After (conclusion o) w (fun r _ => k ≤ 10000 ∧ ∃ cause, r = o.report cause) fun e _ =>
      10000 < k ∧
        ∃ next, e = .raised (Problem.loopUnsettled Loop.defaultLimit next).toFailure := by
  have rest {v : State} (hv : After (Session.finish peer 0 o.ending) v (fun c w' =>
      c = receipt o.count ∧ Loop.Settles (exec peer) (Over o) k w') fun _ _ => False) :
      After (do
        let completed ← Session.finish peer 0 o.ending
        settle
        account o completed) v (fun r _ => k ≤ 10000 ∧ ∃ cause, r = o.report cause) fun e _ =>
          10000 < k ∧
            ∃ next, e = .raised (Problem.loopUnsettled Loop.defaultLimit next).toFailure := by
    rw [after_bind]
    refine hv.mono (fun c w hw => ?_) fun _ _ => False.elim
    obtain ⟨rfl, settles⟩ := hw
    rw [after_bind]
    refine (after_settle settles).mono (fun _ w hw => ?_) fun _ _ => id
    exact hw.2.account.mono (fun r _ hr => ⟨hw.1, hr⟩) fun _ _ => False.elim
  unfold conclusion
  cases hj : o.rejectDischarge with
  | true =>
    simp only [if_true]
    rw [after_bind, after_modifyBroker]
    exact rest (finished _ rfl (by rw [hj]; rfl))
  | false =>
    simp only [Bool.false_eq_true, if_false]
    exact rest (finished w rfl (by rw [hj]; rfl))

/-- The two things that a run can come to. -/
def Comes (o : Options) (x : Except Halt Report) : Prop :=
  (¬ o.Unsettled ∧ ∃ cause, x = .ok (o.report cause)) ∨ (o.Unsettled ∧
    ∃ next, x = .error (.raised (Problem.loopUnsettled Loop.defaultLimit next).toFailure))

theorem comes_of_after {w : State} (h : After (play o) w
      (fun r _ => ¬ o.Unsettled ∧ ∃ cause, r = o.report cause) fun e _ => o.Unsettled ∧
        ∃ next, e = .raised (Problem.loopUnsettled Loop.defaultLimit next).toFailure) :
    Comes o ((play o).observe w).1 := by
  have played : After (play o) w (fun r _ => Comes o (.ok r)) fun e _ => Comes o (.error e) := by
    refine h.mono (fun r _ hr => ?_) fun e _ he => ?_
    · obtain ⟨settled, cause, same⟩ := hr
      exact .inl ⟨settled, cause, congrArg _ same⟩
    · obtain ⟨unsettled, next, same⟩ := he
      exact .inr ⟨unsettled, next, congrArg _ same⟩
  exact After.observed (P := fun x _ => Comes o x) played

/-- **The scenario is played,** unless there is too much to do. -/
theorem run_comes (small : o.sends.value < 2 ^ 53) : Comes o (run o) := by
  have small := o.count_le small
  have new {Q : Nat → State → Prop} {R : Halt → State → Prop} :
    After (newSession defaultSession {}) initial Q R ↔ Q 0 alone := after_newcomer
  have starts := alone_starts
  have told (w : State) (h : Begun newcomer 0 0 3 alone w) :
      (w.client.completions[0]?.getD Status.pending).resolution?.bind (·.cause?) = none := by
    rw [h.told]
    rfl
  have sent (w : State) (h : Begun newcomer 0 0 3 alone w) := h.sent (o := o)
  unfold run
  -- The states at the start are closed terms: a step of the proof could run the scenario on them.
  generalize initial = i at new ⊢
  generalize alone = a at new starts told sent
  refine comes_of_after ?_
  unfold play
  rw [after_bind, new, after_bind]
  refine starts.mono (fun c w hw => ?_) fun _ _ => False.elim
  obtain ⟨rfl, settles⟩ := hw
  rw [after_bind]
  refine (after_settle settles).mono (fun _ w hw => ?_) fun _ _ he => absurd he.1 (by omega)
  obtain ⟨-, begun⟩ := hw
  rw [after_bind, after_failureOf, told w begun, after_bind]
  refine (sent w begun).mono (fun p w hw => ?_) fun _ _ => False.elim
  obtain ⟨rfl, sent⟩ := hw
  rw [after_bind]
  refine sent.sendAll.mono (fun _ w (sent : Sent o o.count w) => ?_) fun _ _ => False.elim
  show After (if o.dropLink then do
      closeAll (some ⟨"amqp:connection:forced", none⟩)
      settle
      conclusion o
    else conclusion o) w _ _
  unfold Options.Unsettled
  cases hd : o.dropLink with
  | true =>
    simp only [if_true]
    rw [after_bind]
    refine sent.after_closeAll fun label => ?_
    rw [after_bind]
    refine (after_settle (sent.drops small)).mono (fun _ w hw => ?_) fun e _ he => ?_
    · obtain ⟨few, dropped⟩ := hw
      refine (after_conclusion fun v client outside => dropped.finished hd client outside).mono
        (fun r _ hr => ⟨by omega, hr.2⟩) fun _ _ he => absurd he.1 (by omega)
    · exact ⟨by omega, he.2⟩
  | false =>
    simp only [Bool.false_eq_true, if_false]
    have zero : w.outside.broker.dischargesToReject = 0 := by
      rw [sent.broker]
      rfl
    refine (after_conclusion (k := o.count + 2) fun v client outside => ?_).mono
      (fun r _ hr => ⟨by omega, hr.2⟩) fun _ _ he => ⟨by omega, he.2⟩
    rw [zero, Nat.zero_add] at outside
    exact sent.finished small hd client outside

/-! ### What was foretold -/

/-- What the options foretell of the report. -/
structure Options.Foretells (o : Options) (r : Report) : Prop where
  next : r.nextTransaction.map (·.text) = some "loopback:1:t2"
  discharges : r.discharges = if o.dropLink then [] else [o.rollback || o.Spoiled]
  published : r.published =
    if o.Plain then (List.range o.count).map fun i => s!"message-{i + 1}" else []
  committed : r.outcome = .committed ↔ o.Plain
  failed : r.outcome = .failed ↔
    o.dropLink = false ∧ o.rejectDischarge = true ∧ (o.rollback = true ∨ o.Spoiled)
  failure : r.failure.bind (·.kind?) = match r.outcome with
    | .committed => none
    | .failed => some .protocol
    | .rolledBack => if o.rollback then none else some .rolledBack
  reported : r.failure.isSome = (r.failure.bind (·.kind?)).isSome

theorem kind?_toFailure {p : Problem} {cause : Option Failure} :
    (p.toFailure cause).kind? = some p.kind := rfl

theorem Options.foretells (o : Options) (cause : Option Failure) : o.Foretells (o.report cause) where
  next := by
    have one : (Number.ofNat 1).text = "1" := Number.text_ofNat (by decide)
    have two : (Number.ofNat 2).text = "2" := Number.text_ofNat (by decide)
    simp [report, TransactionId.text, SessionId.text, defaultSession, one, two]
    rfl
  discharges := rfl
  published := rfl
  committed := by
    cases hd : o.dropLink <;> cases hj : o.rejectDischarge <;> cases hr : o.rollback <;>
      by_cases hs : o.Spoiled <;>
      simp [report, problem, outcomeOf, kind?_toFailure, Problem.kind, Plain, hd, hj, hr, hs]
  failed := by
    cases hd : o.dropLink <;> cases hj : o.rejectDischarge <;> cases hr : o.rollback <;>
      by_cases hs : o.Spoiled <;>
      simp [report, problem, outcomeOf, kind?_toFailure, Problem.kind, hd, hj, hr, hs]
  failure := by
    cases hd : o.dropLink <;> cases hj : o.rejectDischarge <;> cases hr : o.rollback <;>
      by_cases hs : o.Spoiled <;>
      simp [report, problem, outcomeOf, kind?_toFailure, Problem.kind, hd, hj, hr, hs]
  reported := by
    show (o.problem.map _).isSome = _
    cases h : o.problem <;> simp [report, h, kind?_toFailure]

theorem Options.toValue_report (o : Options) (address : String) (cause cause' : Option Failure) :
    ({ o with address }.report cause').toValue = (o.report cause).toValue := by
  have same : { o with address }.problem = o.problem := rfl
  unfold Report.toValue report
  rw [same]
  cases o.problem <;> rfl

/-- **The scenario is what its options foretell:** there is too much to do, or the report says what was
foretold, whatever the address. -/
theorem run_foretold (o : Options) (small : o.sends.value < 2 ^ 53) :
    (∀ i : Nat, i < o.count ↔ (i : Rat) < o.sends.value) ∧
    ((∃ next, run o = .error (.raised (Problem.loopUnsettled Loop.defaultLimit next).toFailure)) ↔
      o.Unsettled) ∧
    (¬ o.Unsettled → ∃ r, run o = .ok r ∧ o.Foretells r ∧
      ∀ address, ∃ r', run { o with address } = .ok r' ∧ r'.toValue = r.toValue) := by
  refine ⟨fun i => o.lt_count, ⟨?_, ?_⟩, ?_⟩
  · rintro ⟨next, raised⟩
    rcases run_comes small with ⟨-, cause, returned⟩ | ⟨unsettled, -⟩
    · cases raised.symm.trans returned
    · exact unsettled
  · intro unsettled
    rcases run_comes small with ⟨settled, -⟩ | ⟨-, raised⟩
    · exact absurd unsettled settled
    · exact raised
  · intro settled
    rcases run_comes small with ⟨-, cause, returned⟩ | ⟨unsettled, -⟩
    · refine ⟨_, returned, o.foretells cause, fun address => ?_⟩
      rcases run_comes (o := { o with address }) small with ⟨-, cause', returned'⟩ | ⟨unsettled, -⟩
      · exact ⟨_, returned', o.toValue_report address cause cause'⟩
      · exact absurd unsettled settled
    · exact absurd unsettled settled

/-- Three messages are sent, and the second one is rejected. -/
theorem run_foretold_rejected : ∃ r, run { failSend := some (.ofNat 1) } = .ok r ∧
    r.outcome = .rolledBack ∧ r.published = [] ∧ r.discharges = [true] := by
  have small : ({ failSend := some (.ofNat 1) } : Options).sends.value < 2 ^ 53 := by decide
  have spoiled : ({ failSend := some (.ofNat 1) } : Options).Spoiled := by decide
  have few : ¬ ({ failSend := some (.ofNat 1) } : Options).Unsettled := by
    unfold Options.Unsettled
    decide
  obtain ⟨-, -, settled⟩ := run_foretold { failSend := some (.ofNat 1) } small
  obtain ⟨r, returned, foretold, -⟩ := settled few
  refine ⟨r, returned, ?_, ?_, ?_⟩
  · have committed := foretold.committed
    have failed := foretold.failed
    cases h : r.outcome with
    | committed => exact absurd spoiled (committed.1 h).2.2.2
    | failed => cases (failed.1 h).2.1
    | rolledBack => rfl
  · rw [foretold.published, if_neg fun plain => plain.2.2.2 spoiled]
  · rw [foretold.discharges]
    simp [spoiled]

end Transact.Scenario
