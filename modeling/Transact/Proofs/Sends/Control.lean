import Transact.Proofs.Sends.Aggregates

/-! # Runs, with aggregates in view

Every call leaves the invariant of aggregates as it was, and so do whole runs.

* `call_holds`: a call that foreign code makes.
* `host_reliable`: the surroundings do for aggregates what a client relies on.
* `run_held`: the invariant holds at the end of a run. -/

namespace Transact.Adversary

open Run Player

variable {own : Prop} {n : Nat} {h : Surroundings} {w v : State} {e : Event} {id : Nat}

/-! ### Calls -/

/-- Control is back with foreign code, which sees the client as it is. -/
def Back (own : Prop) (w v : State) : Prop :=
  Held own Followed w v ∧ Outlook v.client v.outside.history

theorem watch_holds {y : Play Unit} (hy : Leads own Due w y (noting e v)) :
    After (do note e; watch .returned y) v (fun _ v' => Back own w v') fun _ _ => False := by
  have back {failure : Option Failure} {v' : State}
      (hv : Held own (Due failure v'.client) w v') : Back own w (noting (.returned failure) v') :=
    ⟨hv.settle trivial ⟨rfl, rfl⟩, .inr ⟨_, _, rfl, rfl, rfl⟩⟩
  rw [after_bind, after_note, after_watch]
  refine After.mono hy (fun _ v' hv => back hv) ?_
  rintro _ v' ⟨f, rfl, hv⟩
  exact back hv

section
variable (reliable : Reliable own n h)

include reliable

theorem signal_leads {s : Signal} (hv : Held own Followed w v)
    (ho : s.isEvent = false → Outlook v.client v.outside.history) (hn : w.outside.moves.length < n) :
    Leads own Due w (s.perform h) (noting (.signalled s) v) := by
  have noted (hc : (Event.signalled s).Still) : Held own Followed w (noting (.signalled s) v) :=
    hv.note hc (hv.history.cons hc.clear)
  have enrol {g : Context → Context} (hc : (Event.signalled s).Still) :
      Leads own Due w (do if (← Act.context 0).stage = .active then Act.modifyContext 0 g)
        (noting (.signalled s) v) := by
    unfold Leads
    simp only [after_bind, Act.after_context]
    split
    · exact ((noted hc).onContext g).mono fun hp => (Followed.free hp).due
    · exact (noted hc).mono fun hp => (Followed.free hp).due
  cases s with
  | settleSend a failure => exact settleSend_leads reliable hv (ho rfl) hn
  | enrolConsumer member consumer => exact enrol trivial
  | enrolProducer member producer => exact enrol trivial
  | opened l => exact (opened_leads reliable (noted trivial) hn).due
  | closed l error => exact (closed_leads reliable (noted trivial) hn).due
  | settled l d s => exact (settled_leads reliable (noted trivial) hn).due
  | closeCoordinator =>
    refine Leads.due ?_
    unfold Leads Signal.perform
    simp only [after_bind, Act.after_context]
    cases ((noting (.signalled .closeCoordinator) v).client.context 0).coordinator with
    | none => exact noted trivial
    | some l => exact close_leads reliable (noted trivial) hn

theorem operation_leads {o : Operation} (hv : Held own Followed w v) (fresh : Fresh own w id v)
    (hn : w.outside.moves.length < n) :
    Leads own Due w (o.perform h (.client id id)) (noting (.requested o id) v) := by
  have apart : own → Apart v.client (.client id id) := by
    intro o i hi
    obtain rfl : i = id := by simpa [Token.completions] using hi
    obtain ⟨v₀, rfl, rfl, tracked, -⟩ := fresh o
    exact tracked.spare_new o
  cases o with
  | begin t =>
    have asked : Held own (Owes fun hooks e => (∀ i ∈ hooks, i.event.isHook) →
        (⟨.requested (.begin t) id, v.client⟩ : Entry).Follows (e :: hooks)) w
        (noting (.requested (.begin t) id) v) := hv.asked rfl
    refine (begin_leads reliable .client (v := noting _ v) apart asked (fun hooks e hb hh => ?_) hn).due
    refine ⟨fun same => ?_, (fun e => by cases e), (fun e => by cases e), (fun e => by cases e)⟩
    cases same
    exact ⟨[], e, hooks, rfl, hh, hb⟩
  | finish ending info =>
    have asked : Held own (Owes fun hooks e => (∀ i ∈ hooks, i.event.isHook) →
        (⟨.requested (.finish ending info) id, v.client⟩ : Entry).Follows (e :: hooks)) w
        (noting (.requested (.finish ending info) id) v) := hv.asked rfl
    refine (finish_leads reliable .client (v := noting _ v) apart asked (fun hooks e he hh => ?_) hn).due
    refine ⟨(fun e => by cases e), fun same => ?_, (fun e => by cases e), (fun e => by cases e)⟩
    cases same
    exact ⟨[], e, hooks, rfl, hh, he⟩
  | aggregate info pending commit => exact finishAfter_leads reliable hv fresh hn

/-- **Every call leaves the invariant as it was.** -/
theorem call_holds {c : Call} (hc : own → c.Own) (hv : Held own Followed w v)
    (ho : c.isEvent = false → Outlook v.client v.outside.history) (hn : w.outside.moves.length < n) :
    After (c.perform h) v (fun _ v' => Back own w v') fun _ _ => False := by
  cases c with
  | signal s => exact watch_holds (signal_leads reliable hv ho hn)
  | request o again =>
    unfold Call.perform
    rw [after_bind, after_completion]
    cases hagain : again.bind ((handed v.outside.history)[·]?) with
    | some id =>
      refine watch_holds (operation_leads reliable hv (fun o => ?_) hn)
      rw [show again = none from hc o] at hagain
      cases hagain
    | none =>
      exact watch_holds (operation_leads reliable hv.onCompletion
        (fun _ => ⟨v, rfl, rfl, hv.tracked, hv.elapsed⟩) hn)

/-! ### Control -/

/-- **Foreign code leaves the invariant as it was.** -/
theorem control_holds {may : Call → Bool} {fuel : Nat} {refusing : Bool}
    (hv : Held own Followed w v)
    (ho : (∀ c, may c = true → c.isEvent = true) ∨ Outlook v.client v.outside.history)
    (hfuel : v.outside.moves.length < fuel) (hn : v.outside.moves.length ≤ n) :
    After (control may h fuel refusing) v (fun _ v' => Held own Followed w v')
      fun e v' => ∃ f, e = .raised f ∧ f.isReportable ∧ Held own Followed w v' := by
  -- Whoever may make other calls than events sees the client as it is.
  let Stands (u : State) := Held own Followed w u ∧
    ((∀ c, may c = true → c.isEvent = true) ∨ Outlook u.client u.outside.history)
  have left {u : State} {m : Move Call} {rest : List (Move Call)} (hu : Stands u)
      (hm : u.outside.moves = m :: rest) : Stands (leaving rest u) ∧ m.Civil ∧ (own → m.Calls Call.Own) := by
    have fewer : rest <:+ u.outside.moves := hm ▸ List.suffix_cons m rest
    have first : m ∈ u.outside.moves := hm ▸ List.mem_cons_self
    refine ⟨⟨hu.1.move (t := []) fewer rfl (by simp) (by simp) (by simp) hu.1.tracked.context rfl
      (Nat.le_refl _) (fun _ _ _ hp => hp) hu.1.tracked.link hu.1.history, hu.2⟩,
      hu.1.tracked.civil m first, fun o => hu.1.tracked.moves o m first⟩
  refine (after_play (G := Stands) (B := fun f v' => f.isReportable ∧ Held own Followed w v')
    (fun u m rest hu hm => (left hu hm).1) ?_ ?_ ?_ ⟨hv, ho⟩ hfuel hn).mono (fun _ _ hv' => hv'.1) ?_
  · intro u c rest hu hm hc few
    obtain ⟨⟨hu', ho'⟩, -, mine⟩ := left hu hm
    refine After.mono (call_holds reliable mine hu'.here (fun other => ?_) few) ?_ fun _ _ => False.elim
    · refine ho'.resolve_left fun events => ?_
      exact Bool.false_ne_true (other.symm.trans (events c hc))
    · rintro _ u' ⟨back, outlook⟩
      exact ⟨⟨back.of hu'.elapsed, .inr outlook⟩, back.elapsed.moves⟩
  · intro u f rest hu hm
    obtain ⟨hu', civil, -⟩ := left hu hm
    exact ⟨civil, hu'.1⟩
  · intro _ f rest hm
    obtain ⟨hu', civil, -⟩ := left ⟨hv, ho⟩ hm
    exact ⟨civil, hu'.1⟩
  · rintro _ v' ⟨f, rfl, civil, hv'⟩
    exact ⟨f, rfl, civil, hv'⟩

end

/-- **The surroundings are reliable** as far as their depth goes. -/
theorem host_reliable (n : Nat) : Reliable own n (host n) := by
  induction n with
  | zero => refine ⟨host_sound 0, ?_, ?_⟩ <;> intros <;> omega
  | succ n ih =>
    refine ⟨host_sound (n + 1), ?_, ?_⟩
    · intro w id r hv hn
      show After (resume (host n) (n + 1) id r) w _ _
      unfold resume
      rw [after_bind, after_note]
      refine After.mono (control_holds ih hv (.inr (.inr ⟨_, _, rfl, rfl, rfl⟩)) hn
        (Nat.le_of_lt_succ hn)) (fun _ _ hw => hw) ?_
      rintro _ w' ⟨f, rfl, -, hw⟩
      exact ⟨f, rfl, hw⟩
    · intro w l d r hv hn
      show After (send (host n) (n + 1) l d r) w _ _
      unfold send
      rw [after_bind, after_note, after_bind, after_attempt]
      refine After.mono (control_holds ih hv (.inl fun _ hc => hc) hn (Nat.le_of_lt_succ hn))
        (fun _ _ hw => hw) ?_
      rintro _ w' ⟨f, rfl, hr, hw⟩
      exact ⟨f, rfl, hr, hw.note trivial (hw.history.cons trivial)⟩

/-! ### Whole runs -/

variable {session : SessionId} {transactions : List TransactionId} {moves : List (Move Call)}

theorem start_tracked (civil : ∀ m ∈ moves, m.Civil) (hm : own → ∀ m ∈ moves, m.Calls Call.Own) :
    Tracked own (start session transactions moves) where
  context := ⟨_, rfl⟩
  table := rfl
  link l k hk := by cases hk
  waiting _ a A hA := by cases hA
  single _ a _ A _ hA := by cases hA
  faithful := .nil
  civil := civil
  moves := hm

theorem run_held (civil : ∀ m ∈ moves, m.Civil) (hm : own → ∀ m ∈ moves, m.Calls Call.Own) :
    Tracked own (run session transactions moves) ∧ Followed (history session transactions moves) := by
  have started : Held own Followed (start session transactions moves)
      (start session transactions moves) := ⟨start_tracked civil hm, .refl _, followed_nil⟩
  have held : After (control (fun _ => true) (host (moves.length + 1)) (moves.length + 1) false)
      (start session transactions moves) (fun _ w => Tracked own w ∧ Followed w.outside.history)
      fun _ w => Tracked own w ∧ Followed w.outside.history := by
    refine After.mono (control_holds (host_reliable _) started (.inr (.inl rfl)) (Nat.lt_succ_self _)
      (Nat.le_succ _)) (fun _ w hw => ⟨hw.tracked, hw.history⟩) ?_
    rintro _ w ⟨f, rfl, -, hw⟩
    exact ⟨hw.tracked, hw.history⟩
  exact held.observe

end Transact.Adversary
