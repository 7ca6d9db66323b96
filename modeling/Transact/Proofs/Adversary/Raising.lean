import Transact.Proofs.Adversary.Runs

/-! # What comes out of an endpoint

The endpoint may settle a delivery while it takes it, and whoever is told of that may raise. If the
endpoint lets this through, it comes out of the send as if the request could not be sent, and so the
request is told once more, that it has failed.

What an endpoint raises becomes the cause of a report. What cannot be reported gets out, and by then the
link has let go of whoever was to be told.

* `run_told_once`: still nobody is told twice, whatever raises.
* `resolve_again`: what is told once more refuses to be.
* `transmit_settled`: so whoever has made the request gets that refusal in place of what was raised.
* `establish_cut`, `transmit_cut`: what is left where a failure of the endpoint cannot be reported. -/

namespace Transact.Adversary

open Run Player

variable {ε κ : Type} {h : Host ε κ} {w : World ε κ} {q : Token κ} {first r : Resolution Unit}

/-- **Nobody is told twice**, also if handlers, hooks and the endpoint raise. -/
theorem run_told_once {session : SessionId} {transactions : List TransactionId} {moves : List (Move Call)} :
    (resolved (history session transactions moves)).Nodup := by
  obtain ⟨p, co, hi⟩ : ∃ p co, Inv .wild p co [] (run session transactions moves) :=
    run_inv fun _ _ => trivial
  exact hi.ids.resolved_nodup

/-- The completion that a token settles before it does anything else. -/
def outermost : Token κ → Nat
  | .client id _ | .instead id _ _ | .discharging id _ _ _ | .declaring id _ _ _
  | .opening id _ _ _ _ _ => id

/-- A token that was told before refuses, and nothing changes. -/
theorem resolve_again {Q : Unit → World ε κ → Prop} {R : Halt → World ε κ → Prop}
    (hs : w.client.completions[outermost q]? = some (.settled first)) :
    After (q.resolve h r) w Q R ↔ R (.raised (Problem.alreadySettled first.word).toFailure) w := by
  cases q <;> (unfold Token.resolve; rw [after_bind]; exact Act.after_settle_again hs)

/-- **What is raised out of a send does not reach whoever has made the request,** if it can be reported and
the request was told how it ended meanwhile: the request refuses to be told that it could not be sent, and
keeps its outcome. -/
theorem transmit_settled {l sender : Nat} {k : Link κ} {request : Request} {x : Exchange κ}
    (hk : w.client.links[l]? = some k) (ho : k.state = .opened) (hl : k.sender = some sender)
    (sends : After (h.send sender k.nextDelivery request) (w.on (·.changeLink l fun k' => { k' with
        nextDelivery := k.nextDelivery + 1
        pending := k'.pending ++ [(k.nextDelivery, x)] }))
      (fun _ _ => False) fun e v => (∃ f, e = .raised f ∧ f.isReportable) ∧
        v.client.completions[outermost x.request]? = some (.settled first)) :
    After (Link.transmit h l request x fun f => x.request.resolve h (.failed f)) w (fun _ _ => False)
      fun e v => e = .raised (Problem.alreadySettled first.word).toFailure ∧
        v.client.completions[outermost x.request]? = some (.settled first) := by
  unfold Link.transmit
  rw [after_bind, Act.after_link, Client.link_eq hk]
  simp only [ho, hl]
  rw [after_bind, Act.after_modifyLink, after_bind, after_attempt]
  refine sends.mono (fun _ _ => False.elim) ?_
  rintro _ v ⟨⟨f, rfl, hf⟩, settled⟩
  obtain ⟨g, hg⟩ := Option.isSome_iff_exists.1 hf
  -- The exchange is dropped, and the request is told once more.
  simp only [after_bind, Act.after_modifyLink, convert_eq hg, after_pure]
  have still : (v.on (·.changeLink l fun k' => { k' with
      pending := k'.pending.filter (·.1 ≠ k.nextDelivery) })).client.completions[outermost x.request]? =
        some (.settled first) := settled
  exact (resolve_again still).2 ⟨rfl, settled⟩

/-- A declare is settled while it is sent, whoever has begun the transaction raises, and the endpoint lets
that through. What comes out of the opening of the link is the refusal. -/
example : ((history ⟨"c", .ofNat 1⟩ [default] [.call (.request (.begin 0) none), .yield,
    .call (.signal (.opened 0)), .call (.signal (.settled 0 0 (.declared (some ⟨[1]⟩)))),
    .throw (.general "handler"), .throw (.general "handler")]).head?.map fun e => match e.event with
      | .returned failure => failure.map fun f => (f.kind?, f.message)
      | _ => none) = some (some (some .illegalState, "Completion already succeeded")) := by
  decide +kernel

/-! ### What cannot be reported -/

/-- **A link that could not be attached is closed, and nobody is told,** if what the endpoint has raised
cannot be reported. -/
theorem establish_cut {l : Nat} {k : Link κ} {f : Failure} {v : World ε κ}
    (hk : w.client.links[l]? = some k) (building : k.state = .building) (free : k.sender = none)
    (raises : h.attach k.name l (w.on (·.changeLink l fun k' => { k' with opening := some q })) =
      .error (.raised f) v) (hf : f.toReport? = none) :
    Link.establish h l q w = .error (.raised Problem.noText.toFailure)
      (v.on (·.changeLink l fun k' => { k' with opening := none, state := .closed })) := by
  rw [← after_eq, Link.establish, after_bind, Act.after_link, Client.link_eq hk,
    if_neg (by simp [building, free])]
  simp only [after_bind, Act.after_modifyLink, after_attempt]
  unfold After
  rw [raises]
  simp only [convert_eq_refuse hf]
  rfl

/-- A value without a text comes out of the attachment of the link, and so out of the call. Whoever has
begun the transaction is not told, though the link is closed. -/
example :
    let history := history ⟨"c", .ofNat 1⟩ [default] [.call (.request (.begin 0) none),
      .refuse (.value (.record [("toString", .null)]))]
    resolved history = [] ∧ (history.head?.map fun e => ((e.client.link 0).state, match e.event with
      | .returned failure => failure.map (·.message)
      | _ => none)) = some (.closed, some "Cannot convert object to primitive value") := by
  decide +kernel

/-- **A request that could not be sent is dropped, and nobody is told,** if what the endpoint has raised
cannot be reported. -/
theorem transmit_cut {l sender : Nat} {k : Link κ} {request : Request} {x : Exchange κ}
    {fail : Failure → Act ε κ Unit} {f : Failure} {v : World ε κ}
    (hk : w.client.links[l]? = some k) (ho : k.state = .opened) (hl : k.sender = some sender)
    (raises : h.send sender k.nextDelivery request (w.on (·.changeLink l fun k' => { k' with
        nextDelivery := k.nextDelivery + 1
        pending := k'.pending ++ [(k.nextDelivery, x)] })) = .error (.raised f) v)
    (hf : f.toReport? = none) :
    Link.transmit h l request x fail w = .error (.raised Problem.noText.toFailure)
      (v.on (·.changeLink l fun k' => { k' with
        pending := k'.pending.filter (·.1 ≠ k.nextDelivery) })) := by
  rw [← after_eq, Link.transmit, after_bind, Act.after_link, Client.link_eq hk]
  simp only [ho, hl]
  simp only [after_bind, Act.after_modifyLink, after_attempt]
  unfold After
  rw [raises]
  simp only [convert_eq_refuse hf]
  rfl

end Transact.Adversary
