import Transact.Proofs.Adversary.Events
import Transact.Proofs.Adversary.Seen

/-! # Runs

Whoever has control makes calls, and each call keeps the invariant; so whole runs do. Every level of
nesting takes a move, and by induction on what is left of them the surroundings are sound.

* `control_keeps`: foreign code keeps the invariant.
* `host_sound`: the surroundings are what a client relies on.
* `run_lawful`: everything that is noted in a run is as it should be. -/

namespace Transact.Adversary

open Run Player

variable {how : Manners} {n : Nat} {h : Surroundings} {p : Phase Nat} {co : Option Nat}
  {w w' : State} {id : Nat} {e : Event}

/-! ### Notes -/

/-- A quiet event is noted. -/
theorem Ground.noted (hi : Ground how p co [] w) (hq : e.Quiet) (hm : e.Mute) :
    Ground how p co [] (noting e w) := by
  refine hi.quietly ⟨List.suffix_refl _, [⟨e, w.client⟩], rfl, fun i hi' => ?_⟩ rfl
  obtain rfl := List.mem_singleton.1 hi'
  exact ⟨hq, hm, hi.alone⟩

theorem Inv.noted (hi : Inv how p co [] w) (hq : e.Quiet) (hm : e.Mute)
    (same : course (⟨e, w.client⟩ :: w.outside.history) = course w.outside.history) :
    Inv how p co [] (noting e w) :=
  ⟨hi.toGround.noted hq hm, hi.steady ⟨same, rfl⟩ (.refl _)⟩

theorem Inv.returned {failure : Option Failure} (hf : how.Civil → p.Firm) (hi : Inv how p co [] w)
    (ht : how.Tame → failure = none) : Inv how p co [] (noting (.returned failure) w) where
  tables := hi.tables
  ids := hi.ids.congr rfl rfl rfl rfl rfl rfl
  traffic := hi.traffic.grow (.refl _) rfl rfl
  lawful := .cons ⟨hi.alone, hi.coherent, fun t => ⟨ht t, hi.inProgress t (hf t.civil)⟩⟩ hi.lawful
  founded := .cons ⟨nofun, nofun, fun _ => hi.conducted⟩ hi.founded
  moves := hi.moves
  fits := hi.fits

theorem Inv.requested {hand : List Nat} {o : Operation} (hi : Inv how p co hand w)
    (hids : Ids how.Tame p [id] w.client (⟨.requested o id, w.client⟩ :: w.outside.history)) :
    Inv how p co [id] (noting (.requested o id) w) where
  tables := hi.tables
  ids := hids
  traffic := by
    obtain ⟨k, hk, hk'⟩ := hi.context
    exact hi.traffic.requested (by rw [Client.context_eq hk, hk'.stage])
  lawful := .cons ⟨hi.alone, trivial⟩ hi.lawful
  founded := .cons ⟨fun _ _ _ => ⟨p, co, hi.tables⟩, nofun, nofun⟩ hi.founded
  moves := hi.moves
  fits civil := by
    have fits := hi.fits civil
    obtain ⟨k, hk, hk'⟩ := hi.context
    show (course (⟨.requested o id, w.client⟩ :: w.outside.history)).Fits co w.client p
    cases o with
    | begin t =>
      rw [course, Course.next, Client.context_eq hk, hk'.stage]
      cases p <;> first | exact .begun rfl (fits.registry rfl) | exact fits
    | _ => exact fits

theorem Inv.enrols {member : MemberId} {consumer : Nat} (hi : Inv how p co [] w)
    (hs : (w.client.context 0).stage = .active) (civil : how.Civil) :
    (course (⟨.signalled (.enrolConsumer member consumer), w.client⟩ :: w.outside.history)).Fits co
      (w.client.changeContext 0 fun x => { x with
        registry := x.registry.enrolConsumer member consumer }) p := by
  obtain ⟨k, hk, hk'⟩ := hi.context
  have enrolled : course (⟨.signalled (.enrolConsumer member consumer), w.client⟩ ::
      w.outside.history) = { course w.outside.history with
        enrolled := (course w.outside.history).enrolled ++ [(member.text, consumer)] } := if_pos hs
  rw [Client.context_eq hk, hk'.stage] at hs
  cases p <;> cases hs
  obtain ⟨⟨bound, roll⟩, calls, rest⟩ := hi.fits civil
  rw [enrolled]
  refine ⟨⟨bound, ?_⟩, calls, rest⟩
  rw [Client.context_eq hk] at roll
  rw [Client.context_eq (Client.changeContext_same hk), roll_append, ← roll]
  rfl

theorem Inv.enrolsProducer {member : MemberId} {producer : Nat} (hi : Inv how p co [] w)
    (hs : (w.client.context 0).stage = .active) (civil : how.Civil) :
    (course w.outside.history).Fits co (w.client.changeContext 0 fun x => { x with
      registry := x.registry.enrolProducer member producer }) p := by
  obtain ⟨k, hk, hk'⟩ := hi.context
  rw [Client.context_eq hk, hk'.stage] at hs
  cases p <;> cases hs
  obtain ⟨⟨bound, roll⟩, rest⟩ := hi.fits civil
  refine ⟨⟨bound, ?_⟩, rest⟩
  rw [Client.context_eq hk] at roll
  rw [Client.context_eq (Client.changeContext_same hk), ← roll]
  rfl

theorem Since.noting : Since p w p (noting e w) := .same (List.suffix_refl _) (.refl _)

/-! ### Calls -/

/-- What a call leaves behind is noted, and nothing is raised. -/
theorem watch_keeps {x : Play Unit} (hx : Keeps how p w x (noting e w)) :
    After (do note e; watch .returned x) w (fun _ w' => Kept how p w w') fun _ _ => False := by
  have returned {failure : Option Failure} {w' : State} (hk : Kept how p w w')
      (ht : how.Tame → failure = none) : Kept how p w (noting (.returned failure) w') := by
    obtain ⟨p', co', hf, hi, hs⟩ := hk
    exact ⟨p', co', hf, hi.returned hf ht, hs.trans .noting⟩
  rw [after_bind, after_note, after_watch]
  refine After.mono hx (fun _ w' hk => returned hk fun _ => rfl) ?_
  rintro _ w' ⟨wild, ⟨f, rfl⟩, hk⟩
  exact returned hk fun t => absurd t wild

section
variable (sound : Sound how n h)

include sound

theorem operation_keeps {o : Operation} (ht : how.Tame → o.Tame) (hf : how.Civil → p.Firm)
    (hi : Inv how p co [id] w) {past : List Entry}
    (hw : w.outside.history = ⟨.requested o id, w.client⟩ :: past)
    (hn : w.outside.moves.length < n) : Keeps how p w (o.perform h (.client id id)) w := by
  have known : (Token.client id id).Known w.outside.history :=
    ⟨.client, fun i hm _ => List.mem_singleton.1 hm⟩
  cases o with
  | begin t =>
    refine begin_keeps sound known hf hi (fun e => ?_) (fun e => ?_)
      (fun hs => ⟨_, past, hw, rfl, hs⟩) hn
    all_goals
      subst e
      obtain ⟨k, hk, hk'⟩ := hi.context
      have idle : (w.client.context 0).stage = .idle := by
        rw [Client.context_eq hk, hk'.stage]
        rfl
      rw [hw]
    · rw [begun, if_pos idle]
      rfl
    · exact if_pos idle
  | finish ending info =>
    refine finish_keeps sound known hf hi (fun e => ?_) (fun hr => ⟨_, past, hw, rfl, hr⟩) hn
    rw [hw]
    exact .asked e
  | aggregate info pending commit =>
    refine finishAfter_keeps sound (fun t => ht t) hf hi ?_ (fun e => ?_)
      (fun hr => ⟨_, past, hw, rfl, hr⟩) hn
    · rw [hw]
      exact List.mem_cons_self
    · rw [hw]
      exact .asked e

theorem signal_keeps {s : Signal} (ht : how.Tame → s.Tame) (hf : how.Civil → p.Firm)
    (hi : Inv how p co [] w) (hn : w.outside.moves.length < n) :
    Keeps how p w (s.perform h) (noting (.signalled s) w) := by
  have since : Since p w p (noting (.signalled s) w) := .noting
  have noted (hq : (Event.signalled s).Quiet)
      (same : course (⟨.signalled s, w.client⟩ :: w.outside.history) = course w.outside.history) :
      Inv how p co [] (noting (.signalled s) w) :=
    hi.noted hq trivial same
  cases s with
  | settleSend a failure =>
    refine (settleSend_keeps sound (fun t => ht t) hf (noted trivial rfl) ?_ ⟨_, rfl⟩ hn).of since
    intro aggregate ha hfail hc hs
    exact .asked ⟨by rw [hfail]; rfl, aggregate, ha, hc, hs⟩
  | enrolConsumer member consumer =>
    unfold Keeps Signal.perform
    simp only [after_bind, Act.after_context]
    split
    · next hs =>
      have ground : Ground how p co [] (noting (.signalled (.enrolConsumer member consumer)) w) :=
        hi.toGround.noted trivial trivial
      exact (enrol_keeps hf ground (hi.enrols hs) fun k => ⟨_, rfl⟩).of since
    · next hs => exact ⟨p, co, hf, noted trivial (if_neg hs), since⟩
  | enrolProducer member producer =>
    unfold Keeps Signal.perform
    simp only [after_bind, Act.after_context]
    split
    · next hs =>
      exact (enrol_keeps hf (noted trivial rfl).toGround (hi.enrolsProducer hs) fun k => ⟨_, rfl⟩).of
        since
    · exact ⟨p, co, hf, noted trivial rfl, since⟩
  | opened l => exact (opened_keeps sound hf (noted trivial rfl) hn).of since
  | closed l error => exact (closed_keeps sound hf (noted trivial rfl) hn).of since
  | settled l d s => exact settled_keeps sound hf hi hn
  | closeCoordinator =>
    unfold Keeps Signal.perform
    simp only [after_bind, Act.after_context]
    cases hco : ((noting (.signalled .closeCoordinator) w).client.context 0).coordinator with
    | none => exact ⟨p, co, hf, noted trivial rfl, since⟩
    | some l => exact (close_keeps sound hf (noted trivial rfl) hn).of since

omit sound in
theorem after_completion {again : Option Nat} {Q : Nat → State → Prop} {R : Halt → State → Prop} :
    After (completion again) w Q R ↔
      (again.bind ((handed w.outside.history)[·]?)).elim
        (Q w.client.completions.size (w.on (·.addCompletion))) fun id => Q id w := by
  unfold completion
  rw [after_bind, Act.after_outside]
  cases again.bind ((handed w.outside.history)[·]?) <;> rfl

/-- **Every call keeps the invariant,** and raises nothing to whoever makes it. -/
theorem call_keeps {c : Call} (ht : how.Tame → c.Tame) (hf : how.Civil → p.Firm)
    (hi : Inv how p co [] w) (hn : w.outside.moves.length < n) :
    After (c.perform h) w (fun _ w' => Kept how p w w') fun _ _ => False := by
  cases c with
  | signal s => exact watch_keeps (signal_keeps sound ht hf hi hn)
  | request o again =>
    unfold Call.perform
    rw [after_bind, after_completion]
    cases hagain : again.bind ((handed w.outside.history)[·]?) with
    | some id =>
      have wild : ¬ how.Tame := fun t => by simp [(ht t).2] at hagain
      obtain ⟨i, -, hm⟩ := Option.bind_eq_some_iff.1 hagain
      have hi' := hi.requested (o := o) (hi.ids.again wild (List.mem_of_getElem? hm))
      exact watch_keeps ((operation_keeps sound (fun t => absurd t wild) hf hi' rfl hn).of .noting)
    | none =>
      have added : Since p w p (w.on (·.addCompletion)) :=
        .on .addCompletion ((Quietly.refl w).on _)
      have hi' : Inv how p co [w.client.completions.size]
          (noting (.requested o w.client.completions.size) (w.on (·.addCompletion))) :=
        hi.add.requested hi.ids.fresh
      refine (watch_keeps ((operation_keeps sound (fun t => (ht t).1) hf hi' rfl hn).of
        .noting)).mono (fun _ w' hk => ?_) fun _ _ => id
      exact hk.of added

/-! ### Control -/

/-- **Foreign code keeps the invariant.** In a tame run it raises at most before it has done
anything. -/
theorem control_keeps {may : Call → Bool} {fuel : Nat} {refusing : Bool} (hf : how.Civil → p.Firm)
    (hi : Inv how p co [] w) (hfuel : w.outside.moves.length < fuel)
    (hn : w.outside.moves.length ≤ n) :
    After (control may h fuel refusing) w (fun _ w' => Kept how p w w')
      fun e w' => ∃ f, e = .raised f ∧ (how.Civil → f.isReportable) ∧ ∃ p' co',
        (how.Civil → p'.Firm) ∧ Inv how p' co' [] w' ∧ Since p w p' w' ∧
        (how.Tame → refusing = true ∧ p' = p) := by
  have left {p : Phase Nat} {co : Option Nat} {u : State} {m : Move Call} {rest : List (Move Call)}
      (hi : Inv how p co [] u) (hm : u.outside.moves = m :: rest) :
      Inv how p co [] (leaving rest u) ∧ Since p u p (leaving rest u) ∧ how.Allows m := by
    have fewer : rest <:+ u.outside.moves := hm ▸ List.suffix_cons m rest
    have quiet : Quietly u (leaving rest u) := ⟨fewer, [], rfl, nofun⟩
    exact ⟨hi.quietly quiet rfl rfl, .on (.refl _) quiet, hi.moves m (by simp [hm])⟩
  refine after_play ?_ ?_ ?_ ?_ ⟨p, co, hf, hi, .refl⟩ hfuel hn
  · rintro u m rest ⟨p', co', hf', hi', hs⟩ hm
    obtain ⟨hi', since, -⟩ := left hi' hm
    exact ⟨p', co', hf', hi', hs.trans since⟩
  · rintro u c rest ⟨p', co', hf', hi', hs⟩ hm - hu
    obtain ⟨hi', since, allowed⟩ := left hi' hm
    refine (call_keeps sound allowed.tame hf' hi' hu).mono (fun _ v hk => ⟨hk.of (hs.trans since), ?_⟩)
      fun _ _ => id
    obtain ⟨_, _, _, _, after⟩ := hk
    exact after.moves
  · rintro u f rest ⟨p', co', hf', hi', hs⟩ hm
    obtain ⟨hi', since, allowed⟩ := left hi' hm
    exact ⟨allowed.civil, p', co', hf', hi', hs.trans since, fun t => (allowed.tame t).elim⟩
  · intro refusing f rest hm
    obtain ⟨hi', since, allowed⟩ := left hi hm
    exact ⟨allowed.civil, p, co, hf, hi', since, fun _ => ⟨refusing, rfl⟩⟩

end

theorem answer_after {fuel : Nat} (allowed : ∀ m ∈ w.outside.moves, how.Allows m) :
    After (answer h (fuel + 1)) w (fun _ w' => Noted [] w w')
      fun e w' => ∃ f, e = .raised f ∧ (how.Civil → f.isReportable) ∧ Noted [] w w' := by
  unfold answer control play next
  rw [after_bind, after_modifyGet]
  cases hm : moves w with
  | nil => exact ⟨rfl, List.suffix_refl _, rfl⟩
  | cons m rest =>
    have held : w.outside.moves = m :: rest := hm
    have fewer : rest <:+ w.outside.moves := held ▸ List.suffix_cons m rest
    have noted : Noted [] w (leaving rest w) := ⟨rfl, fewer, rfl⟩
    have first : how.Allows m := allowed m (by simp [held])
    cases m with
    | yield => exact noted
    | refuse f | throw f => exact ⟨f, rfl, first.civil, noted⟩
    | call c => exact noted

/-! ### The surroundings -/

theorem Noted.note (hw : Noted [] w w') : Noted [e] w (noting e w') := by
  refine ⟨hw.client, hw.moves, ?_⟩
  show ⟨e, w'.client⟩ :: w'.outside.history = _
  rw [hw.client, hw.history]
  rfl

/-- **The surroundings are sound** as far as their depth goes. -/
theorem host_sound (n : Nat) : Sound how n (host n) := by
  induction n with
  | zero =>
    refine ⟨?_, ?_, ?_, ?_, ?_⟩ <;> intros <;> omega
  | succ n ih =>
    refine ⟨?_, ?_, ?_, ?_, ?_⟩
    · intro p co w id r hf hi hn hs hnew blamed
      show After (resume (host n) (n + 1) id r) w _ _
      unfold resume
      rw [after_bind, after_note]
      have told : Inv how p co [] (noting (.resolved id r) w) :=
        ⟨⟨hi.tables, hi.ids.told hs hnew, hi.traffic.grow (.refl _) rfl rfl,
          .cons ⟨hi.alone, hi.coherent, fun t => hi.inProgress t (hf t.civil)⟩ hi.lawful,
          .cons ⟨nofun, fun _ _ e => by cases e; exact blamed, fun _ => hi.conducted⟩ hi.founded,
          hi.moves⟩, hi.fits⟩
      refine (control_keeps ih hf told hn (Nat.le_of_lt_succ hn)).mono
        (fun _ _ hk => hk.of .noting) ?_
      rintro _ w' ⟨f, rfl, -, p', co', hf', hi', hs', ht⟩
      exact ⟨fun t => Bool.noConfusion (ht t).1, ⟨f, rfl⟩, p', co', hf', hi',
        Since.noting.trans hs'⟩
    · intro w consumer k allowed _
      show After (hook (host n) (n + 1) consumer k) w _ _
      unfold hook
      rw [after_report]
      refine (answer_after allowed).mono (fun _ w' hw => hw.note) ?_
      rintro _ w' ⟨f, rfl, hf, hw⟩
      exact ⟨f, rfl, hf, hw.note⟩
    · intro w name l allowed _
      show After (attach (host n) (n + 1) name l) w _ _
      unfold attach
      rw [after_bind]
      refine (answer_after allowed).mono (fun _ w' hw => ⟨rfl, hw.note⟩) ?_
      rintro _ w' ⟨f, rfl, hf, hw⟩
      exact ⟨f, rfl, hf, hw⟩
    · intro w l _
      exact ⟨rfl, List.suffix_refl _, rfl⟩
    · intro p co w l d r hf hs hi hn
      show After (send (host n) (n + 1) l d r) w _ _
      unfold send
      rw [after_bind, after_note, after_bind, after_attempt]
      refine (control_keeps ih hf hi hn (Nat.le_of_lt_succ hn)).mono (fun _ _ hk => hk) ?_
      rintro _ w' ⟨f, rfl, hr, p', co', hf', hi', hs', ht⟩
      exact ⟨f, p', co', w', rfl, hr, hf', hi', hs', fun t => (ht t).2, rfl⟩

/-! ### Whole runs -/

variable {session : SessionId} {transactions : List TransactionId} {moves : List (Move Call)}

theorem start_inv (allowed : ∀ m ∈ moves, how.Allows m) :
    Inv how .idle none [] (start session transactions moves) := by
  refine ⟨⟨?_, ?_, ?_, .nil, .nil, allowed⟩, fun _ => .begun rfl rfl⟩
  · refine ⟨⟨{ session }, rfl, rfl, rfl, rfl, rfl, rfl⟩, ?_, ?_, ?_, ?_, ?_, ?_⟩
    · intro t y e
      cases e
    · intro l k _ hk
      cases hk
    · intro l e
      cases e
    · intro l d e
      cases e
    · intro l e
      cases e
    · intro e
      exact absurd rfl e
  · refine ⟨?_, ?_, ?_, ?_, ?_, ?_, ?_, ?_, ?_, ?_, ?_⟩ <;>
      simp [Phase.lead, Phase.request, Phase.ids, handed, resolved, start]
  · refine ⟨?_, ?_, ?_, ?_⟩ <;> simp [requests, start, Standing, Underway]

theorem run_inv (allowed : ∀ m ∈ moves, how.Allows m) :
    ∃ p co, Inv how p co [] (run session transactions moves) := by
  have kept : After (control (fun _ => true) (host (moves.length + 1)) (moves.length + 1) false)
      (start session transactions moves) (fun _ w => ∃ p co, Inv how p co [] w)
      fun _ w => ∃ p co, Inv how p co [] w := by
    have started : Inv how .idle none [] (start session transactions moves) := start_inv allowed
    have firm : how.Civil → (Phase.idle : Phase Nat).Firm := fun _ => trivial
    refine (control_keeps (host_sound _) firm started (Nat.lt_succ_self _)
      (Nat.le_succ _)).mono ?_ ?_
    · rintro _ w ⟨p, co, -, hi, -⟩
      exact ⟨p, co, hi⟩
    · rintro _ w ⟨f, -, -, p, co, -, hi, -⟩
      exact ⟨p, co, hi⟩
  exact kept.observe

/-- **Everything that is noted in a run is as it should be.** -/
theorem run_lawful (allowed : ∀ m ∈ moves, how.Allows m) :
    Lawful (Entry.Good how) (history session transactions moves) := by
  obtain ⟨p, co, hi⟩ : ∃ p co, Inv how p co [] (run session transactions moves) := run_inv allowed
  exact hi.lawful

/-- **Every request meets a phase, and whoever is told of an illegal state has asked for it.** -/
theorem run_founded (allowed : ∀ m ∈ moves, how.Allows m) :
    Lawful (Entry.Founded how) (history session transactions moves) := by
  obtain ⟨p, co, hi⟩ : ∃ p co, Inv how p co [] (run session transactions moves) := run_inv allowed
  exact hi.founded

end Transact.Adversary
