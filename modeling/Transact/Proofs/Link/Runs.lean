import Transact.Proofs.Link.Requests

/-! # Runs of a link

Whoever has control makes calls, and each call keeps the invariant; so whole runs do. Every level of
nesting takes a move, and by induction on what is left of them the surroundings are sound.

* `call_keeps`, `control_keeps`: foreign code keeps the invariant.
* `host_sound`: the surroundings are what a link relies on.
* `Inv.fits`: how a completion ends that is told.
* `run_orderly`: what is to be seen of every run. -/

namespace Transact.Link

open Run Player

variable {attaching : Prop} {hand : List Nat} {w w' : State} {id n : Nat} {h : Surroundings}

/-! ### Calls -/

section
variable (sound : Sound n h)

include sound

theorem operation_keeps {o : Operation} (hi : Inv (o = .establish) (id :: hand) w)
    (hf : Fresh o id w) (hs : Clear w.client w.outside.history) (hn : w.outside.moves.length < n) :
    Keeps False hand w (o.perform h (.client id id)) w := by
  cases o with
  | establish => exact establish_keeps sound (hi.weaken fun _ => trivial) hf hs hn
  | declare t => exact declare_keeps sound (hi.weaken nofun) hf hs hn
  | discharge t commit => exact discharge_keeps sound (hi.weaken nofun) hf hs hn

/-- **Every call keeps the invariant.** While the link is being attached only events come. -/
theorem call_keeps {c : Call} (ha : attaching → c.isEvent) (hi : Inv attaching hand w)
    (hs : Clear w.client w.outside.history) (hn : w.outside.moves.length < n) :
    Keeps attaching hand w (c.perform h) w := by
  cases c with
  | request o =>
    have back : Inv False hand w := hi.weaken fun e => Bool.noConfusion (ha e)
    obtain ⟨requested, fresh⟩ := back.requested (o := o) hs rfl
    have added : Since w (w.on (·.addCompletion)) := .of_link rfl rfl (List.suffix_refl _)
    unfold Keeps Call.perform
    simp only [after_bind, Act.after_newCompletion, after_note, after_watch]
    refine (operation_keeps sound requested fresh ⟨hs.state, not_settling (by simp)⟩ hn).mono
      (fun _ _ kept => ?_) fun _ _ => False.elim
    exact (kept.of (added.trans .noting)).weaken.returned rfl
  | signal s =>
    have noted (s : Signal) (hm : (Event.signalled s).Mute) :
        Inv attaching hand (noting (.signalled s) w) := hi.noted hm (hs.plain (by simp) (by simp) (by simp))
    unfold Keeps Call.perform
    simp only [after_bind, after_note, after_watch]
    cases s with
    | opened =>
      have stands : standing (⟨.signalled .opened, w.client⟩ :: w.outside.history) =
          if (w.client.link 0).state = .building then .opened else (w.client.link 0).state := by
        rw [hs.state]
        rfl
      exact (opened_keeps sound (noted .opened trivial) (not_settling (by simp)) stands hn).mono
        (fun _ _ kept => (kept.of .noting).returned rfl) fun _ _ => False.elim
    | closed error =>
      exact (closed_keeps sound (noted (.closed error) trivial) (not_settling (by simp)) rfl hn).mono
        (fun _ _ kept => (kept.of .noting).returned rfl) fun _ _ => False.elim
    | settled d s => exact (settled_keeps sound hi hs hn).mono (fun _ _ kept => kept) fun _ _ => False.elim
    | close =>
      have stands : standing (⟨.signalled .close, w.client⟩ :: w.outside.history) =
          if (w.client.link 0).sender.isNone then .closed else (w.client.link 0).state := by
        rw [hs.state]
        rfl
      have back : Inv False hand (noting (.signalled .close) w) :=
        (noted .close trivial).weaken fun e => Bool.noConfusion (ha e)
      exact (close_keeps sound back (not_settling (by simp)) stands hn).mono
        (fun _ _ kept => (kept.of .noting).weaken) fun _ _ => False.elim
    | name t hint =>
      have named : Inv attaching hand ((noting (.signalled (.name t hint)) w).on (·.writeHint t hint)) :=
        (noted (.name t hint) trivial).congr rfl rfl rfl (List.suffix_refl _)
      have since : Since w ((noting (.signalled (.name t hint)) w).on (·.writeHint t hint)) :=
        Since.noting.trans (.of_link rfl rfl (List.suffix_refl _))
      exact (named.kept since ⟨hs.state, not_settling (by simp)⟩).returned rfl

/-! ### Control -/

omit sound in
theorem Kept.leaving {m : Move Call} {rest : List (Move Call)} (hk : Kept attaching hand w w')
    (hm : moves w' = m :: rest) : Kept attaching hand w (leaving rest w') := by
  have unmoved : Unmoved w' (Player.leaving rest w') := ⟨rfl, rfl, (Onward.leaving hm).moves⟩
  exact ⟨hk.inv.unmoved unmoved, hk.since.trans (.of_unmoved unmoved), hk.clear⟩

/-- **Foreign code keeps the invariant.** If it raises, then before anything has happened. -/
theorem control_keeps {may : Call → Bool} {fuel : Nat} {refusing : Bool}
    (ha : attaching → ∀ c, may c → c.isEvent) (hi : Inv attaching hand w)
    (hs : Clear w.client w.outside.history) (hfuel : w.outside.moves.length < fuel)
    (hn : w.outside.moves.length ≤ n) :
    After (control may h fuel refusing) w (fun _ w' => Kept attaching hand w w')
      fun e w' => ∃ f, e = .raised f ∧ f.isReportable ∧ refusing = true ∧ Unmoved w w' := by
  have last {u : State} {m : Move Call} {rest : List (Move Call)} (hu : Inv attaching hand u)
      (hm : moves u = m :: rest) : m.Tame fun _ => True :=
    hu.tame m (by rw [show u.outside.moves = m :: rest from hm]; exact List.mem_cons_self)
  refine after_play (B := fun f v => f.isReportable ∧ refusing = true ∧ Unmoved w v)
    (fun _ _ _ kept hm => kept.leaving hm) (fun u c rest kept hm hc few => ?_)
    (fun _ f _ kept hm => (last kept.inv hm).elim)
    (fun expected f rest hm => ⟨last hi hm, expected, rfl, rfl, (Onward.leaving hm).moves⟩)
    (hi.kept (.refl w) hs) hfuel hn
  have left := kept.leaving hm
  exact (call_keeps sound (fun e => ha e c hc) left.inv left.clear few).mono
    (fun _ _ called => ⟨called.of left.since, called.since.moves⟩) fun _ _ => False.elim

end

/-! ### The surroundings -/

/-- **The surroundings are sound** as far as their depth goes. -/
theorem host_sound (n : Nat) : Sound n (host n) := by
  induction n with
  | zero => refine ⟨?_, ?_, ?_, ?_⟩ <;> intros <;> omega
  | succ n ih =>
    refine ⟨?_, ?_, ?_, ?_⟩
    · intro hand w id r hi hs hn
      show After (resume (host n) (n + 1) id r) w _ _
      unfold resume
      rw [after_bind, after_note]
      refine (control_keeps ih nofun hi ⟨hs, not_settling nofun⟩ hn (Nat.le_of_lt_succ hn)).mono
        (fun _ _ kept => kept) ?_
      rintro _ _ ⟨_, -, -, no, -⟩
      cases no
    · intro hand w name l hi hs hn
      show After (attach (host n) (n + 1) l) w _ _
      unfold attach
      rw [after_bind, after_attempt]
      refine (control_keeps ih (fun _ _ e => e) hi hs hn (Nat.le_of_lt_succ hn)).mono
        (fun _ _ kept => kept) ?_
      rintro _ v ⟨f, rfl, reportable, -, unmoved⟩
      exact ⟨f, v, rfl, reportable, unmoved, rfl⟩
    · intro hand w l hi hs hn
      show After (detach (host n) (n + 1)) w _ _
      unfold detach
      rw [after_bind]
      refine (control_keeps ih nofun hi hs hn (Nat.le_of_lt_succ hn)).mono
        (fun _ v kept => ⟨v, kept, rfl⟩) ?_
      rintro _ _ ⟨_, -, -, no, -⟩
      cases no
    · intro hand w l d r hi hs hn
      show After (send (host n) (n + 1) d r) w _ _
      unfold send
      rw [after_bind, after_note, after_bind, after_attempt]
      refine (control_keeps ih nofun hi ⟨hs, not_settling nofun⟩ hn (Nat.le_of_lt_succ hn)).mono
        (fun _ _ kept => kept) ?_
      rintro _ v ⟨f, rfl, reportable, -, unmoved⟩
      exact ⟨f, v, rfl, reportable, unmoved, rfl⟩

/-! ### Whole runs -/

variable {x : Client Nat} {past : List Entry} {name : String} {transactions : List TransactionId}
  {moves : List (Move Call)} {o : Operation}

theorem start_inv (tame : ∀ m ∈ moves, m.Tame fun _ => True) :
    Inv False [] (start name transactions moves) := by
  refine ⟨?_, ?_, .nil, tame⟩
  · refine ⟨rfl, nofun, nofun, fun _ _ => nofun, rfl, fun _ => rfl, rfl, rfl, nofun, .nil⟩
  · refine ⟨fun i => ?_, .nil, rfl, fun i => ?_, .nil⟩
    · simp [Client.Pending, start, held, Client.link]
    · simp [Client.Settled, start, told]

theorem run_inv (tame : ∀ m ∈ moves, m.Tame fun _ => True) :
    (run name transactions moves).1 = .ok () ∧ Inv False [] (run name transactions moves).2 ∧
      Clear (run name transactions moves).2.client (run name transactions moves).2.outside.history := by
  have clear : Clear (start name transactions moves).client
      (start name transactions moves).outside.history := by
    refine ⟨rfl, ?_⟩
    rintro ⟨_, _, _, _, e⟩
    cases e
  refine After.observed
    (P := fun e w => e = .ok () ∧ Inv False [] w ∧ Clear w.client w.outside.history)
    ((control_keeps (host_sound _) nofun (start_inv tame) clear (Nat.lt_succ_self _)
      (Nat.le_succ _)).mono (fun _ _ kept => ⟨rfl, kept.inv, kept.clear⟩) ?_)
  rintro _ _ ⟨_, -, -, no, -⟩
  cases no

theorem deliveries_of_lawful (h : Lawful Entry.Good past) :
    deliveries past = (sent past).map (·.delivery) := by
  have kept {x : Client Nat} {past : List Entry} :
      (shutIf x (sent past)).map (·.delivery) = (sent past).map (·.delivery) :=
    map_shutIf fun _ => rfl
  have answered {x : Client Nat} {past : List Entry} {d : Nat} {a : Answer} :
      ((shutIf x (sent past)).map (·.answered d a)).map (·.delivery) =
        (sent past).map (·.delivery) := by
    rw [List.map_map]
    exact (List.map_congr_left fun q _ => Sent.answered_keeps.1).trans kept
  induction h with
  | nil => rfl
  | @cons e past good _ ih =>
    obtain ⟨event, x⟩ := e
    cases event with
    | sent d r =>
      obtain ⟨o, id, latest, -⟩ := (good.sent d r rfl).request
      rw [deliveries, sent, latest, ih, ← kept (x := x)]
      rfl
    | refused d => exact ih.trans answered.symm
    | signalled s =>
      cases s with
      | settled d s => exact ih.trans answered.symm
      | _ => exact ih.trans kept.symm
    | _ => exact ih.trans kept.symm

/-- Outside of all foreign code the completions that were told nothing are those that wait. -/
theorem Inv.waits (hi : Inv False [] w) (ha : (o, id) ∈ asked w.outside.history) :
    id ∉ told w.outside.history ↔ Awaits w.client w.outside.history id := by
  have pending : id ∉ told w.outside.history ↔ id ∈ held (w.client.link 0) := by
    rw [hi.ids.settled, ← List.nil_append (held _), ← hi.ids.pending]
    constructor
    · exact (Client.pending_or_settled (lt_of_asked hi.ids ha)).resolve_right
    · exact Client.Pending.not_settled
  rw [pending, hi.linked.held, List.mem_append]
  constructor
  · rintro (hm | hm)
    · obtain ⟨token, ho, rfl⟩ := List.mem_map.1 hm
      obtain ⟨building, i, rfl, first⟩ := hi.linked.opening token (Option.mem_toList.1 ho)
      exact .inl ⟨building, first⟩
    · obtain ⟨q, hq, rfl⟩ := List.mem_map.1 hm
      obtain ⟨sent, waiting⟩ := answer_of_mem_live (List.mem_reverse.1 hq)
      refine .inr ⟨?_, q, sent, rfl, waiting⟩
      cases hs : (w.client.link 0).state with
      | building =>
        rw [hi.linked.unsent hs] at sent
        cases sent
      | opened => rfl
      | closed =>
        have done : q.answer.isSome := answer_shutIf hs sent
        rw [waiting] at done
        cases done
  · rintro (⟨building, first⟩ | ⟨-, q, hq, rfl, waiting⟩)
    · obtain ⟨opening, -⟩ := hi.linked.attached (fun e => e) building id first
      obtain ⟨token, ho⟩ := Option.isSome_iff_exists.1 opening
      obtain ⟨-, i, rfl, first'⟩ := hi.linked.opening token ho
      obtain rfl : i = id := Option.some.inj (first'.symm.trans first)
      exact .inl (List.mem_map.2 ⟨_, Option.mem_toList.2 ho, rfl⟩)
    · refine .inr (List.mem_map_of_mem (List.mem_reverse.2 (List.mem_filter.2 ⟨hq, ?_⟩)))
      rw [waiting]
      rfl

/-- **A completion is told what its history tells,** whatever the reason is. -/
theorem Inv.fits {id : Nat} {r : Resolution Unit} (hi : Inv attaching hand w)
    (ht : Told w.client w.outside.history id r) (ha : (o, id) ∈ asked w.outside.history) :
    r.Fits (outcome w.client w.outside.history id o) := by
  have distinct : ((asked w.outside.history).map (·.2)).Nodup := by
    rw [hi.ids.handed, List.nodup_reverse]
    exact List.nodup_range
  have same {o' : Operation} (ha' : (o', id) ∈ asked w.outside.history) : o = o' :=
    congrArg Prod.fst (List.inj_on_of_nodup_map distinct ha ha' rfl)
  have unsent (hq : ∀ q ∈ exchanges w.client w.outside.history, q.completion ≠ id) :
      (exchanges w.client w.outside.history).find? (·.completion = id) = none :=
    List.find?_eq_none.2 fun q hm => by simpa using hq q hm
  cases ht with
  | opened ho hs hr =>
    obtain rfl := same (asked_of_opener ho)
    simpa [outcome, ho, hs] using hr
  | unopened ho hs hr =>
    obtain rfl := same (asked_of_opener ho)
    simpa [outcome, ho, hs] using hr
  | attached ha' ho hs hr =>
    obtain rfl := same ha'
    simpa [outcome, ho] using hr
  | undeclared ha' hq hn hr =>
    obtain rfl := same ha'
    simpa [outcome, unsent hq, hn] using hr
  | unsent ha' ho hq hn hs hr =>
    obtain rfl := same ha'
    cases o with
    | establish => exact absurd rfl ho
    | declare t => simpa [outcome, unsent hq] using hr
    | discharge t commit => simpa [outcome, unsent hq, hn t commit rfl] using hr
  | @answered q a hq hid answer hr hint =>
    subst hid
    obtain ⟨asked_for, other⟩ := hi.linked.requested q hq
    obtain rfl := same asked_for
    have found : (exchanges w.client w.outside.history).find? (·.completion = q.completion) = some q := by
      cases e : (exchanges w.client w.outside.history).find? (·.completion = q.completion) with
      | none => exact absurd (List.find?_eq_none.1 e q hq) (by simp)
      | some q' =>
        have one : q'.completion = q.completion := by simpa using List.find?_some e
        exact congrArg some
          (List.inj_on_of_nodup_map hi.linked.single (List.mem_of_find?_eq_some e) hq one)
    cases ho : q.operation with
    | establish => exact absurd ho other
    | _ => simpa [outcome, found, answer, ho] using hr

theorem Inv.orderly (hi : Inv False [] w) (hs : Clear w.client w.outside.history) :
    Orderly w.client w.outside.history where
  state := hs.state
  distinct := by
    rw [hi.ids.handed, List.nodup_reverse]
    exact List.nodup_range
  requested q hq := (hi.linked.requested q hq).1
  single := hi.linked.single
  known id ht := by
    obtain ⟨r, hr⟩ := (hi.ids.settled id).1 ht
    have listed : id ∈ (asked w.outside.history).map (·.2) := by
      rw [hi.ids.handed, List.mem_reverse, List.mem_range]
      exact (Array.getElem?_eq_some_iff.1 hr).1
    obtain ⟨⟨o, _⟩, hm, rfl⟩ := List.mem_map.1 listed
    exact ⟨o, hm⟩
  once := hi.ids.once
  waits _ _ := hi.waits
  numbers := by
    have same : deliveries w.outside.history =
        (exchanges w.client w.outside.history).map (·.delivery) :=
      (deliveries_of_lawful hi.lawful).trans (map_shutIf fun _ => rfl).symm
    rw [same, List.length_map]
    exact hi.linked.numbers
  good later e earlier split := (split ▸ hi.lawful).good

/-- **Every request of a link is answered once, for a reason, and waits exactly while it should.** A run
comes to its end, if no continuation and no event handler raises, and the endpoint raises only what can be
reported. Since the moves of a run up to a point are a run as well, what is to be seen at the end is to be
seen whenever control is outside of all foreign code. -/
theorem run_orderly (tame : ∀ m ∈ moves, m.Tame fun _ => True) :
    (run name transactions moves).1 = .ok () ∧
      Orderly (run name transactions moves).2.client
        (run name transactions moves).2.outside.history :=
  have ⟨ends, inv, clear⟩ := run_inv tame
  ⟨ends, inv.orderly clear⟩

/-- A declare is settled while it is sent. Whoever waits for it closes the link, and asks again. -/
example : told (run "l" [default] [.call (.request .establish), .yield, .call (.signal .opened), .yield,
    .call (.request (.declare 0)), .call (.signal (.settled 0 (.declared (some ⟨[1]⟩)))),
    .call (.signal .close), .yield, .call (.request (.discharge 0 true))]).2.outside.history =
    [2, 1, 0] := by
  decide +kernel

end Transact.Link
