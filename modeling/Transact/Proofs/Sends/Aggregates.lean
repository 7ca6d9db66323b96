import Transact.Proofs.Sends.Requests

/-! # Aggregates are made and settled

The two acts that touch the table of aggregates. Each is followed by what should follow it.

* `settleSend_leads`: a send of an aggregate is settled.
* `finishAfter_leads`: an aggregate is made. -/

namespace Transact.Adversary

open Run Player

variable {own : Prop} {n : Nat} {h : Surroundings} {P : List Entry → Entry → Prop} {w v : State}
  {x : Client Nat} {past : List Entry} {a id : Nat} {failure : Option Failure} {A : Aggregate Nat}
  {info : TransactionRef} {pending : Number} {commit : Bool} {sends : Aggregation}

theorem tabled_known (h : (tabled past)[a]? = some A) :
    A.context = 0 ∧ ∃ id, A.request = .client id id := by
  induction past generalizing A with
  | nil => cases h
  | cons e past ih =>
    obtain ⟨e, x⟩ := e
    by_cases hc : e.Clear
    · rw [tabled_clear hc] at h
      exact ih h
    cases e with
    | requested o id =>
      cases o with
      | aggregate info pending commit =>
        unfold tabled at h
        split at h
        · exact ih h
        · rw [Array.getElem?_push] at h
          split at h
          · obtain rfl := Option.some.inj h
            exact ⟨rfl, id, rfl⟩
          · exact ih h
      | _ => exact ih h
    | signalled s =>
      cases s with
      | settleSend a' failure =>
        rw [tabled, Array.getElem?_modify] at h
        split at h
        · obtain ⟨B, hB, rfl⟩ := Option.map_eq_some_iff.1 h
          have known : B.context = 0 ∧ ∃ id, B.request = .client id id := ih hB
          exact known
        · exact ih h
      | _ => exact absurd trivial hc
    | _ => exact absurd trivial hc

theorem Tracked.known (h : Tracked own v) (hA : v.client.aggregates[a]? = some A) :
    A.context = 0 ∧ ∃ id, A.request = .client id id :=
  tabled_known (h.table ▸ hA)

theorem LinkFair.elapsed {l : Nat} {k : Link Nat} (h : LinkFair own v.client l k) {u : State}
    (he : Elapsed own v u) : LinkFair own u.client l k :=
  ⟨h.sender, fun o q hq => (h.opening o q hq).elapsed he o,
    fun o e hm => (h.pending o e hm).elapsed he o⟩

/-! ### A request is made -/

/-- **A begin, or a commit or a rollback, is asked for,** and what should follow that is due. -/
theorem Held.asked {o : Operation} (hv : Held own Followed w v)
    (table : tabled (⟨.requested o id, v.client⟩ :: v.outside.history) = tabled v.outside.history) :
    Held own (Owes fun hooks e => (∀ i ∈ hooks, i.event.isHook) →
      (⟨.requested o id, v.client⟩ : Entry).Follows (e :: hooks)) w (noting (.requested o id) v) := by
  have ht := hv.tracked
  refine ⟨⟨ht.context, ht.table.trans table.symm, ht.link, ht.waiting, ht.single,
    .cons ⟨ht.table, nofun, nofun⟩ ht.faithful, ht.civil, ht.moves⟩,
    ⟨hv.elapsed.moves, hv.elapsed.size, hv.elapsed.waits⟩, fun hooks e hh he hp => ?_⟩
  refine hv.history.append (t := e :: hooks) (hp hh) fun i hi => ?_
  rcases List.mem_cons.1 hi with rfl | hi
  · exact he
  · exact Event.clear_of_hook (hh i hi)

/-! ### A send is settled -/

/-- The table once a send is settled. -/
def settling (a : Nat) (failure : Option Failure) (x : Client Nat) : Client Nat :=
  { x with aggregates := x.aggregates.modify a fun A => { A with
    sends := (A.sends.settle failure).1 } }

theorem settling_some (hA : x.aggregates[a]? = some A) :
    settling a failure x = x.changeAggregate a (A.sends.settle failure).1 := by
  have same : (x.aggregates.modify a fun A => { A with sends := (A.sends.settle failure).1 }) =
      x.aggregates.modify a fun entry => { entry with sends := (A.sends.settle failure).1 } := by
    refine Array.ext_getElem? fun i => ?_
    by_cases hi : a = i
    · subst hi
      simp [Array.getElem?_modify, hA]
    · simp [Array.getElem?_modify, hi]
  exact congrArg (fun t => { x with aggregates := t }) same

theorem settling_none (hA : x.aggregates[a]? = none) : settling a failure x = x := by
  have same : (x.aggregates.modify a fun A => { A with sends := (A.sends.settle failure).1 }) =
      x.aggregates := by
    refine Array.ext_getElem? fun i => ?_
    by_cases hi : a = i
    · subst hi
      simp [Array.getElem?_modify, hA]
    · simp [Array.getElem?_modify, hi]
  exact congrArg (fun t => { x with aggregates := t }) same

theorem settling_waits {i : Nat} {A' : Aggregate Nat}
    (hA : (settling a failure x).aggregates[i]? = some A') (hc : A'.sends.isComplete = false) :
    ∃ A, x.aggregates[i]? = some A ∧ A.sends.isComplete = false ∧ A.request = A'.request := by
  rw [settling, Array.getElem?_modify] at hA
  split at hA
  · obtain ⟨B, hB, rfl⟩ := Option.map_eq_some_iff.1 hA
    exact ⟨B, hB, Aggregation.isComplete_settle hc, rfl⟩
  · exact ⟨A', hA, hc, rfl⟩

/-- **A send is settled,** and what should follow that is due. -/
theorem Held.settling (hv : Held own Followed w v) (ho : Outlook v.client v.outside.history) :
    Held own (Owes fun hooks e => ∀ A, v.client.aggregates[a]? = some A →
      Settles a A failure v.client hooks e) w
      ((noting (.signalled (.settleSend a failure)) v).on (settling a failure)) := by
  have ht := hv.tracked
  have elapsed : Elapsed own v
      ((noting (.signalled (.settleSend a failure)) v).on (Adversary.settling a failure)) :=
    ⟨List.suffix_refl _, Nat.le_refl _, fun _ _ _ hA hc => .inl (settling_waits hA hc)⟩
  refine ⟨⟨ht.context, ?_, fun l k hk => (ht.link l k hk).elapsed elapsed, fun o i A' hA hc => ?_,
    fun o i j A' B' hA hB hAc hBc same => ?_,
    .cons ⟨ht.table, fun _ _ _ e => (by cases e), ?_⟩ ht.faithful, ht.civil, ht.moves⟩,
    hv.elapsed.trans elapsed, fun hooks e hh he hp => ?_⟩
  · show (v.client.aggregates.modify a fun A => { A with sends := (A.sends.settle failure).1 }) = _
    rw [ht.table]
    rfl
  · obtain ⟨A, hA, hc, same⟩ := settling_waits hA hc
    exact same ▸ ht.waiting o i A hA hc
  · obtain ⟨A, hA, hAc, same₁⟩ := settling_waits hA hAc
    obtain ⟨B, hB, hBc, same₂⟩ := settling_waits hB hBc
    exact ht.single o i j A B hA hB hAc hBc (by rw [same₁, same₂]; exact same)
  · intro a' failure' e
    cases e
    exact ⟨ho, fun o A hA hc => ht.waiting o a A hA hc⟩
  · refine hv.history.append (t := e :: hooks) ⟨nofun, nofun, nofun, ?_⟩ fun i hi => ?_
    · intro a' failure' A hs hA
      cases hs
      exact ⟨[], e, hooks, rfl, hh, hp A hA⟩
    · rcases List.mem_cons.1 hi with rfl | hi
      · exact he
      · exact Event.clear_of_hook (hh i hi)

/-! ### An aggregate is made -/

/-- If every request has a completion of its own, `id` is one that was just added. -/
def Fresh (own : Prop) (w : State) (id : Nat) (v : State) : Prop :=
  own → ∃ v₀, v = v₀.on (·.addCompletion) ∧ id = v₀.client.completions.size ∧ Tracked own v₀ ∧
    Elapsed own w v₀

theorem addAggregate_cases {i : Nat} {A' : Aggregate Nat}
    (hA : (x.addAggregate A).aggregates[i]? = some A') : x.aggregates[i]? = some A' ∨
      (i = x.aggregates.size ∧ A' = A) := by
  rw [Client.addAggregate, Array.getElem?_push] at hA
  split at hA
  · next hi => exact .inr ⟨hi, (Option.some.inj hA).symm⟩
  · exact .inl hA

theorem Held.rejected {p : Problem} (hv : Held own Followed w v)
    (hs : Aggregation.ofSends pending commit = .error p) :
    Held own Followed w (noting (.requested (.aggregate info pending commit) id) v) := by
  have ht := hv.tracked
  refine ⟨⟨ht.context, ?_, ht.link, ht.waiting, ht.single,
    .cons ⟨ht.table, fun _ _ _ e => (by cases e), fun _ _ e => (by cases e)⟩ ht.faithful, ht.civil, ht.moves⟩,
    ⟨hv.elapsed.moves, hv.elapsed.size, hv.elapsed.waits⟩, ?_⟩
  · show v.client.aggregates = tabled (⟨.requested (.aggregate info pending commit) id,
      v.client⟩ :: v.outside.history)
    rw [tabled, hs, ht.table]
  · refine hv.history.append (t := []) ⟨nofun, nofun, ?_, nofun⟩ (by simp)
    intro info' pending' commit' id' sends' hr hs' _
    cases hr
    cases hs.symm.trans hs'

/-- **An aggregate is made,** and if it waits for sends, only that is due. -/
theorem Held.made (hv : Held own Followed w v) (fresh : Fresh own w id v)
    (hs : Aggregation.ofSends pending commit = .ok sends) :
    Held own (Owes fun hooks e => sends.isComplete = false → hooks = [] ∧
      e = ⟨.returned none, v.client.addAggregate ⟨sends, 0, info, commit, .client id id⟩⟩) w
      ((noting (.requested (.aggregate info pending commit) id) v).on
        (·.addAggregate ⟨sends, 0, info, commit, .client id id⟩)) := by
  have ht := hv.tracked
  -- Whatever waited before, and whatever no aggregate waited with, is not the new completion.
  have old (o : own) {i : Nat} {B : Aggregate Nat} (hB : v.client.aggregates[i]? = some B)
      (hc : B.sends.isComplete = false) : B.request.completion ≠ id := by
    obtain ⟨v₀, rfl, rfl, tracked, -⟩ := fresh o
    exact Nat.ne_of_lt (tracked.waiting o i B hB hc).lt
  have spare (o : own) {q : Token Nat} {v₀ : State} (hv₀ : v = v₀.on (·.addCompletion))
      (hid : id = v₀.client.completions.size) (apart : Apart v₀.client q) :
      Apart (v.client.addAggregate ⟨sends, 0, info, commit, .client id id⟩) q := by
    subst hv₀ hid
    intro i hi
    refine ⟨(apart.onCompletion i hi).lt, fun a A hA hc => ?_⟩
    rcases addAggregate_cases hA with hA | ⟨-, rfl⟩
    · exact (apart i hi).other a A hA hc
    · exact (Nat.ne_of_lt (apart i hi).lt).symm
  have link (l : Nat) (k : Link Nat) (hk : v.client.links[l]? = some k) : LinkFair own
      (v.client.addAggregate ⟨sends, 0, info, commit, .client id id⟩) l k := by
    refine ⟨(ht.link l k hk).sender, fun o q hq => ?_, fun o e he => ?_⟩
    · obtain ⟨v₀, hv₀, hid, tracked, -⟩ := fresh o
      exact spare o hv₀ hid ((tracked.link l k (by rw [hv₀] at hk; exact hk)).opening o q hq)
    · obtain ⟨v₀, hv₀, hid, tracked, -⟩ := fresh o
      exact spare o hv₀ hid ((tracked.link l k (by rw [hv₀] at hk; exact hk)).pending o e he)
  refine ⟨⟨ht.context, ?_, link, fun o i A hA hc => ?_, fun o i j A B hA hB hAc hBc same => ?_,
    .cons ⟨ht.table, fun _ _ _ e => (by cases e), fun _ _ e => (by cases e)⟩ ht.faithful, ht.civil, ht.moves⟩,
    ⟨hv.elapsed.moves, hv.elapsed.size, fun o i A hA hc => ?_⟩, fun hooks e hh he hp => ?_⟩
  · show v.client.aggregates.push _ = tabled (⟨.requested (.aggregate info pending commit) id,
      v.client⟩ :: v.outside.history)
    rw [tabled, hs, ht.table]
  · rcases addAggregate_cases hA with hA | ⟨-, rfl⟩
    · exact ht.waiting o i A hA hc
    · obtain ⟨v₀, rfl, rfl, -⟩ := fresh o
      exact Client.pending_addCompletion.2 (.inr rfl)
  · rcases addAggregate_cases hA with hA | ⟨hi, rfl⟩ <;> rcases addAggregate_cases hB with hB | ⟨hj, rfl⟩
    · exact ht.single o i j A B hA hB hAc hBc same
    · exact absurd same (old o hA hAc)
    · exact absurd same.symm (old o hB hBc)
    · rw [hi, hj]
  · rcases addAggregate_cases hA with hA | ⟨-, rfl⟩
    · exact hv.elapsed.waits o i A hA hc
    · obtain ⟨v₀, -, rfl, -, elapsed⟩ := fresh o
      exact .inr elapsed.size
  · refine hv.history.append (t := e :: hooks) ⟨nofun, nofun, ?_, nofun⟩ fun i hi => ?_
    · intro info' pending' commit' id' sends' hr hs' hc
      cases hr
      obtain rfl : sends = sends' := Except.ok.inj (hs.symm.trans hs')
      obtain ⟨rfl, rfl⟩ := hp hc
      exact ⟨[], rfl⟩
    · rcases List.mem_cons.1 hi with rfl | hi
      · exact he
      · exact Event.clear_of_hook (hh i hi)

section
variable (reliable : Reliable own n h)

include reliable

theorem decide_leads {d : Decision} (hc : A.context = 0) (hq : A.request.Plain)
    (apart : own → Apart v.client A.request) (hv : Held own (Owes P) w v)
    (hp : ∀ hooks e, Decides v.client A d hooks e → P hooks e) (hn : w.outside.moves.length < n) :
    Leads own Told w (Context.decide h A d) v := by
  unfold Leads Context.decide
  simp only [after_bind, hc, Act.after_isFailed]
  split
  · next turned =>
    simp only [after_bind, Act.after_newCompletion]
    refine finish_leads reliable (.instead (fun e => by cases e) hq) (hv.tracked.instead apart)
      hv.onCompletion (fun hooks e he => hp hooks e ?_) hn
    unfold Decides
    rw [if_pos turned]
    exact he
  · next kept =>
    refine finish_leads reliable hq apart hv (fun hooks e he => hp hooks e ?_) hn
    unfold Decides
    rw [if_neg kept]
    exact he

/-- **A send of an aggregate is settled.** -/
theorem settleSend_leads (hv : Held own Followed w v) (ho : Outlook v.client v.outside.history)
    (hn : w.outside.moves.length < n) :
    Leads own Due w (Context.settleSend h a failure)
      (noting (.signalled (.settleSend a failure)) v) := by
  have due : Held own (Owes fun hooks e => ∀ A, v.client.aggregates[a]? = some A →
      Settles a A failure v.client hooks e) w
      ((noting (.signalled (.settleSend a failure)) v).on (settling a failure)) := hv.settling ho
  unfold Leads Context.settleSend
  simp only [after_bind, Act.after_client]
  split
  · next none =>
    have hA : v.client.aggregates[a]? = .none := none
    have same : (noting (.signalled (.settleSend a failure)) v).on (settling a failure) =
        noting (.signalled (.settleSend a failure)) v := World.on_self (settling_none hA)
    rw [same] at due
    exact due.mono fun hp => hp.mono fun hooks e _ A hA' => absurd (hA'.symm.trans hA) (by simp)
  · next A some =>
    have hA : v.client.aggregates[a]? = .some A := some
    obtain ⟨hc, id, hr⟩ := hv.tracked.known hA
    obtain ⟨u, hu⟩ : ∃ u, u = (noting (.signalled (.settleSend a failure)) v).on
      (·.changeAggregate a (A.sends.settle failure).1) := ⟨_, rfl⟩
    have same : (noting (.signalled (.settleSend a failure)) v).on (settling a failure) = u := by
      rw [hu]
      exact congrArg (fun x => { noting (.signalled (.settleSend a failure)) v with client := x })
        (settling_some hA)
    have settled : Held own (Owes (Counts u.client A (A.sends.settle failure).2)) w u := by
      rw [same] at due
      refine due.mono fun hp => hp.mono fun hooks e he A' hA' => ?_
      obtain rfl := Option.some.inj (hA.symm.trans hA')
      rw [hu] at he
      exact he
    have changed : After (Act.modifyClient fun x => { x with
        aggregates := x.aggregates.modify a fun entry => { entry with
          sends := (A.sends.settle failure).1 } } : Play Unit)
        (noting (.signalled (.settleSend a failure)) v) (fun _ w' => w' = u) fun _ _ => False := hu.symm
    simp only [after_bind]
    refine changed.mono (fun _ u' hu' => ?_) fun _ _ => False.elim
    rw [hu']
    cases result : (A.sends.settle failure).2 with
    | error p =>
      rw [result] at settled
      exact ⟨_, rfl, settled.mono fun hp => hp.mono fun _ _ _ => trivial⟩
    | ok decision =>
      rw [result] at settled
      cases decision with
      | none => exact settled
      | some d =>
        refine (decide_leads reliable hc (hr ▸ .client) (fun o i hi => ?_) settled (fun _ _ he => he)
          hn).due
        -- The aggregate itself waits no longer, and no other one waits with its completion.
        obtain ⟨waiting, done, -⟩ := Aggregation.settle_decision result
        have told : A.request.completion = i := by
          rw [hr] at hi ⊢
          have hi : i = id := by simpa [Token.completions] using hi
          exact hi.symm
        subst told
        rw [← same]
        refine ⟨(hv.tracked.waiting o a A hA waiting).lt, fun a' A' hA' hc' same' => ?_⟩
        obtain ⟨B, hB, hBc, request⟩ := settling_waits hA' hc'
        obtain rfl : a = a' := hv.tracked.single o a a' A B hA hB waiting hBc (by rw [request, same'])
        have last : (settling a failure v.client).aggregates[a]? =
            .some { A with sends := (A.sends.settle failure).1 } := by
          simp [settling, Array.getElem?_modify, hA]
        obtain rfl := Option.some.inj (hA'.symm.trans last)
        exact Bool.false_ne_true (hc'.symm.trans done)

/-- **An aggregate is made,** and ends its transaction at once if there is nothing to wait for. -/
theorem finishAfter_leads (hv : Held own Followed w v) (fresh : Fresh own w id v)
    (hn : w.outside.moves.length < n) :
    Leads own Due w (discard (Context.finishAfter h 0 info pending (.client id id) commit))
      (noting (.requested (.aggregate info pending commit) id) v) := by
  unfold Leads
  rw [after_discard]
  unfold Context.finishAfter
  cases hs : Aggregation.ofSends pending commit with
  | error p => exact ⟨_, rfl, (hv.rejected hs).mono fun hp => (Followed.free hp).due⟩
  | ok sends =>
    obtain ⟨u, hu⟩ : ∃ u, u = (noting (.requested (.aggregate info pending commit) id) v).on
      (·.addAggregate ⟨sends, 0, info, commit, .client id id⟩) := ⟨_, rfl⟩
    have made : Held own (Owes fun hooks e => sends.isComplete = false → hooks = [] ∧
        e = ⟨.returned none, u.client⟩) w u := hu ▸ hv.made fresh hs
    simp only [after_bind, Act.after_newAggregate, ← hu]
    split
    · next complete =>
      have apart : own → Apart u.client (.client id id) := by
        intro o i hi
        obtain rfl : i = id := by simpa [Token.completions] using hi
        obtain ⟨v₀, rfl, rfl, tracked, -⟩ := fresh o
        rw [hu]
        refine ⟨(tracked.spare_new o).lt, fun a A hA hc => ?_⟩
        rcases addAggregate_cases hA with hA | ⟨-, rfl⟩
        · exact (tracked.spare_new o).other a A hA hc
        · exact absurd (hc.symm.trans complete) Bool.false_ne_true
      rw [after_bind]
      exact After.mono (finish_leads reliable .client apart made
        (fun _ _ _ waits => absurd (waits.symm.trans complete) Bool.false_ne_true) hn).due
        (fun _ _ hw => hw) fun _ _ he => he
    · next waits =>
      exact made.mono fun hp => hp.mono fun _ _ he _ => he

end

end Transact.Adversary
