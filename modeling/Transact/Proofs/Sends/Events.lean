import Transact.Proofs.Sends.Telling

/-! # Events on a link, with aggregates in view

Whatever the endpoint raises, whoever waits with a link is told, and no aggregate waits with one.

* `opened_leads`, `settled_leads`, `closed_leads`, `close_leads`: the invariant holds after each. -/

namespace Transact.Adversary

open Run

variable {own : Prop} {n : Nat} {h : Surroundings} {F : List Entry → Prop} {w v : State}
  {q : Token Nat} {l d : Nat} {cause : Failure}

/-! ### Who waits with a link -/

theorem Tracked.opening (ht : Tracked own v) (o : own) (hq : (v.client.link l).opening = some q) :
    Apart v.client q := by
  cases hk : v.client.links[l]? with
  | none =>
    rw [Client.link_absent hk] at hq
    cases hq
  | some k =>
    rw [Client.link_eq hk] at hq
    exact (ht.link l k hk).opening o q hq

theorem Tracked.pending (ht : Tracked own v) (o : own) {e : Nat × Exchange Nat}
    (he : e ∈ (v.client.link l).pending) : Apart v.client e.2.request := by
  cases hk : v.client.links[l]? with
  | none =>
    rw [Client.link_absent hk] at he
    cases he
  | some k =>
    rw [Client.link_eq hk] at he
    exact (ht.link l k hk).pending o e he

theorem Held.takeOut {s : List (Nat × Exchange Nat) → List (Nat × Exchange Nat)}
    (hv : Held own F w v) (hs : ∀ es, ∀ e ∈ s es, e ∈ es) :
    Held own F w (v.on (·.changeLink l fun k => { k with pending := s k.pending })) :=
  hv.onLink fun _ _ fair => ⟨fair.sender, fair.opening, fun o e he => fair.pending o e (hs _ e he)⟩

variable (reliable : Reliable own n h)

include reliable

/-! ### A link closes -/

theorem drain_leads (hv : Held own Followed w v) (hn : w.outside.moves.length < n) :
    Leads own Told w (do
      let outstanding := (← Act.link l).pending
      Act.modifyLink l fun k => { k with pending := [] }
      Link.failAll h cause outstanding) v := by
  unfold Leads
  simp only [after_bind, Act.after_link, Act.after_modifyLink]
  exact failAll_leads reliable (fun o _ he => (hv.tracked.pending o he).onLink)
    (hv.takeOut (s := fun _ => []) fun _ _ he => by cases he) hn

theorem shut_leads (hv : Held own Followed w v) (hn : w.outside.moves.length < n) :
    Leads own Told w (Link.shut h l cause) v := by
  have shut : Held own Followed w (v.on (·.changeLink l fun k => { k with
      state := .closed, opening := none })) :=
    hv.onLink fun _ _ fair => ⟨fun e => absurd rfl e, fun _ _ e => (by cases e), fair.pending⟩
  unfold Leads Link.shut
  simp only [after_bind, Act.after_link, Act.after_modifyLink]
  cases hq : (v.client.link l).opening with
  | none => exact drain_leads reliable shut hn
  | some q =>
    simp only [after_bind]
    exact After.mono (resolve_leads reliable (fun o => (hv.tracked.opening o hq).onLink)
      (shut.mono fun hp => Followed.free hp) hn) (fun _ v' hv' => drain_leads reliable hv' hn)
      fun _ _ he => he

theorem closed_leads {error : Option Condition} (hv : Held own Followed w v)
    (hn : w.outside.moves.length < n) : Leads own Told w (Link.closed h l error) v := by
  unfold Leads Link.closed
  simp only [after_bind, Act.after_link]
  split
  · exact hv
  · simp only [after_bind, Act.after_modifyLink]
    exact shut_leads reliable (hv.onLink fun _ _ fair => ⟨fair.sender, fair.opening, fair.pending⟩) hn

theorem close_leads (hv : Held own Followed w v) (hn : w.outside.moves.length < n) :
    Leads own Told w (Link.close h l) v := by
  unfold Leads Link.close
  simp only [after_bind, Act.after_link]
  split
  · exact hv
  cases (v.client.link l).sender with
  | none => exact shut_leads reliable hv hn
  | some sender =>
    simp only [after_bind]
    refine (reliable.basic.detach v sender (hv.elapsed.lt hn)).mono (fun _ v' noted => ?_)
      fun _ _ => False.elim
    exact shut_leads reliable (hv.noted_still noted trivial) hn

/-! ### A link opens -/

theorem opened_leads (hv : Held own Followed w v) (hn : w.outside.moves.length < n) :
    Leads own Told w (Link.opened h l) v := by
  unfold Leads Link.opened
  simp only [after_bind, Act.after_link]
  split
  · exact hv
  next hs =>
  have opened : Held own Followed w (v.on (·.changeLink l fun k => { k with
      state := .opened, opening := none })) := by
    refine hv.onLink fun k hk fair => ⟨fun _ => fair.sender ?_, fun _ _ e => (by cases e), fair.pending⟩
    rw [Client.link_eq hk] at hs
    rw [Decidable.not_not.1 hs]
    decide
  simp only [after_bind, Act.after_modifyLink]
  cases hq : (v.client.link l).opening with
  | none => exact opened
  | some q =>
    exact resolve_leads reliable (fun o => (hv.tracked.opening o hq).onLink)
      (opened.mono fun hp => Followed.free hp) hn

/-! ### A request is settled -/

theorem settled_leads {s : Settlement} (hv : Held own Followed w v)
    (hn : w.outside.moves.length < n) : Leads own Told w (Link.settled h l d s) v := by
  unfold Leads Link.settled
  simp only [after_bind, Act.after_link]
  cases hf : (v.client.link l).pending.find? (·.1 = d) with
  | none => exact hv
  | some e =>
    obtain ⟨d', e⟩ := e
    have taken : Held own Followed w (v.on (·.changeLink l fun k => { k with
        pending := k.pending.filter (·.1 ≠ d) })) :=
      hv.takeOut (s := List.filter (·.1 ≠ d)) fun _ _ he => (List.mem_filter.1 he).1
    have apart : own → Apart v.client e.request := fun o =>
      hv.tracked.pending o (List.mem_of_find?_eq_some hf)
    simp only [after_bind, Act.after_modifyLink, Act.after_transaction]
    have told {r : Resolution Unit} : Leads own Told w (e.request.resolve h r) (v.on
        (·.changeLink l fun k => { k with pending := k.pending.filter (·.1 ≠ d) })) :=
      resolve_leads reliable (fun o => (apart o).onLink) (taken.mono fun hp => Followed.free hp) hn
    cases e.discharge with
    | some commit => exact told
    | none =>
      cases s with
      | declared y =>
        exact resolve_leads reliable (fun o => (apart o).grow rfl (Nat.le_refl _))
          (taken.onHint.mono fun hp => Followed.free hp) hn
      | _ => exact told

end Transact.Adversary
