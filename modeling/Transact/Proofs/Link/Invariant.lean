import Transact.Proofs.Link.Ledger

/-! # The invariant of a link

What holds whenever foreign code has control: the link is as its history tells, every completion that
is still pending is held by the link or is at hand, and all that was noted so far is as it should be.
At hand are completions that the link has let go of and is about to tell.

* `Inv.tell`: one of them is told.
* `Sound`: what the link relies on. -/

namespace Transact.Link

open Player

/-! ### Exchanges and their answers -/

section
variable {x : Client Nat} {qs : List Sent} {q : Sent} {past : List Entry} {d : Nat} {a : Answer}
  {e : Event}

namespace Sent

theorem shut_of_answer (h : q.answer.isSome) : q.shut = q := by
  obtain ⟨_, _, _, answer⟩ := q
  cases answer with
  | none => cases h
  | some => rfl

theorem answered_of_answer (h : q.answer.isSome) : q.answered d a = q :=
  if_neg fun e => by simp_all

theorem answered_other (h : q.delivery ≠ d) : q.answered d a = q :=
  if_neg fun e => h e.1

theorem answered_same (h : q.delivery = d) (hn : q.answer = none) :
    q.answered d a = { q with answer := some a } := by
  rw [answered, if_pos ⟨h, by rw [hn]; rfl⟩]

theorem answered_keeps : (q.answered d a).delivery = q.delivery ∧
    (q.answered d a).operation = q.operation ∧ (q.answered d a).completion = q.completion := by
  unfold answered
  split <;> exact ⟨rfl, rfl, rfl⟩

theorem verdict_closed {o : Operation} : verdict o .closed = some .protocol := by
  cases o with
  | discharge t commit => cases commit <;> rfl
  | _ => rfl

theorem verdict_refused {o : Operation} : verdict o .refused = some .protocol := by
  cases o with
  | discharge t commit => cases commit <;> rfl
  | _ => rfl

end Sent

theorem shutIf_open (h : (x.link 0).state ≠ .closed) : shutIf x qs = qs := if_neg h

theorem answer_shutIf (h : (x.link 0).state = .closed) (hq : q ∈ shutIf x qs) : q.answer.isSome := by
  rw [shutIf, if_pos h] at hq
  obtain ⟨q, -, rfl⟩ := List.mem_map.1 hq
  rfl

theorem shutIf_of_answers (h : (x.link 0).state = .closed → ∀ q ∈ qs, q.answer.isSome) :
    shutIf x qs = qs := by
  unfold shutIf
  split
  · next hs =>
    have same : ∀ q ∈ qs, q.shut = q := fun q hq => Sent.shut_of_answer (h hs q hq)
    exact (List.map_congr_left same).trans (List.map_id' qs)
  · rfl

theorem shutIf_shutIf : shutIf x (shutIf x qs) = shutIf x qs :=
  shutIf_of_answers fun hs _ hq => answer_shutIf hs hq

theorem map_shutIf {α : Type} {f : Sent → α} (hf : ∀ q, f q.shut = f q) :
    (shutIf x qs).map f = qs.map f := by
  unfold shutIf
  split
  · rw [List.map_map]
    exact List.map_congr_left fun q _ => hf q
  · rfl

theorem mem_shutIf_of_answer (h : q ∈ qs) (ha : q.answer.isSome) : q ∈ shutIf x qs := by
  unfold shutIf
  split
  · exact List.mem_map.2 ⟨q, h, Sent.shut_of_answer ha⟩
  · exact h

/-! ### What is noted -/

/-- Events that say nothing of requests, completions and exchanges. -/
def Event.Mute : Event → Prop
  | returned .. | unattached | detached => True
  | signalled (.settled ..) => False
  | signalled _ => True
  | _ => False

theorem told_mute (h : e.Mute) : told (⟨e, x⟩ :: past) = told past := by
  cases e <;> first | rfl | cases h

theorem asked_mute (h : e.Mute) : asked (⟨e, x⟩ :: past) = asked past := by
  cases e <;> first | rfl | cases h

theorem opener_mute (h : e.Mute) : opener (⟨e, x⟩ :: past) = opener past := by
  cases e <;> first | rfl | cases h

theorem sent_mute (h : e.Mute) : sent (⟨e, x⟩ :: past) = exchanges x past := by
  cases e with
  | returned | unattached | detached => rfl
  | signalled s => cases s <;> first | rfl | cases h
  | _ => cases h

theorem exchanges_of_sent (h : sent (⟨e, x⟩ :: past) = exchanges x past) :
    exchanges x (⟨e, x⟩ :: past) = exchanges x past := by
  rw [exchanges, h]
  exact shutIf_shutIf

theorem exchanges_of_answered (h : sent (⟨e, x⟩ :: past) = (exchanges x past).map (·.answered d a)) :
    exchanges x (⟨e, x⟩ :: past) = (exchanges x past).map (·.answered d a) := by
  rw [exchanges, h]
  refine shutIf_of_answers fun hs q hq => ?_
  obtain ⟨q', hq', rfl⟩ := List.mem_map.1 hq
  have done : q'.answer.isSome := answer_shutIf hs hq'
  rw [Sent.answered_of_answer done]
  exact done

theorem exchanges_sent {r : Request} {o : Operation} {id : Nat} (h : (x.link 0).state = .opened)
    (ha : (asked past).head? = some (o, id)) :
    exchanges x (⟨.sent d r, x⟩ :: past) = ⟨d, o, id, none⟩ :: exchanges x past := by
  have open_ : (x.link 0).state ≠ .closed := by simp [h]
  rw [exchanges, shutIf_open open_, sent, ha]
  rfl

end

/-! ### What the link holds -/

/-- What the link keeps of a request that it has handed over. -/
def Operation.exchange (id : Nat) : Operation → Exchange Nat
  | establish => ⟨none, 0, .client id id⟩
  | declare t => ⟨none, t, .client id id⟩
  | discharge t commit => ⟨some commit, t, .client id id⟩

/-- How the link keeps an exchange under its delivery number. -/
def Sent.entry (q : Sent) : Nat × Exchange Nat := (q.delivery, q.operation.exchange q.completion)

/-- The exchanges that wait for their answers, the latest first. -/
def live (x : Client Nat) (past : List Entry) : List Sent :=
  (exchanges x past).filter (·.answer.isNone)

/-- The completions that a link holds. -/
def held (k : Link Nat) : List Nat :=
  k.opening.toList.map (·.completion) ++ k.pending.map (·.2.request.completion)

/-- **The link is as its history tells.** While it is `attaching`, the endpoint has not come back. -/
structure Linked (attaching : Prop) (x : Client Nat) (past : List Entry) : Prop where
  link : x.links[0]? = some (x.link 0)
  opening : ∀ token, (x.link 0).opening = some token → (x.link 0).state = .building ∧
    ∃ id, token = .client id id ∧ opener past = some id
  sender : (x.link 0).state = .building → (x.link 0).sender.isSome → (x.link 0).opening.isSome
  attached : ¬ attaching → (x.link 0).state = .building → ∀ id, opener past = some id →
    (x.link 0).opening.isSome ∧ (x.link 0).sender.isSome
  pending : (x.link 0).pending = (live x past).reverse.map Sent.entry
  unsent : (x.link 0).state = .building → exchanges x past = []
  next : (x.link 0).nextDelivery = (exchanges x past).length
  numbers : (exchanges x past).map (·.delivery) = (List.range (exchanges x past).length).reverse
  requested : ∀ q ∈ exchanges x past, (q.operation, q.completion) ∈ asked past ∧
    q.operation ≠ .establish
  single : ((exchanges x past).map (·.completion)).Nodup

/-- **Every pending completion is held by the link, or at hand.** -/
structure Ids (hand : List Nat) (x : Client Nat) (past : List Entry) : Prop where
  pending : ∀ id, x.Pending id ↔ id ∈ hand ++ held (x.link 0)
  nodup : (hand ++ held (x.link 0)).Nodup
  handed : (asked past).map (·.2) = (List.range x.completions.size).reverse
  settled : ∀ id, id ∈ told past ↔ x.Settled id
  once : (told past).Nodup

/-- **The invariant:** link, completions and history agree, and the moves to come are tame. -/
structure Inv (attaching : Prop) (hand : List Nat) (w : State) : Prop where
  linked : Linked attaching w.client w.outside.history
  ids : Ids hand w.client w.outside.history
  lawful : Lawful Entry.Good w.outside.history
  tame : ∀ m ∈ w.outside.moves, m.Tame fun _ => True

/-- The latest event is a settlement, and nothing has come of it yet. -/
def Settling (past : List Entry) : Prop :=
  ∃ d s x earlier, past = ⟨.signalled (.settled d s), x⟩ :: earlier

/-- The link is in the state in which events have left it, and nothing has still to come of a
settlement. -/
structure Clear (x : Client Nat) (past : List Entry) : Prop where
  state : (x.link 0).state = standing past
  settled : ¬ Settling past

/-- From `w` to `w'` the link went on: it did not open or build again, and no answer was taken back. -/
structure Since (w w' : State) : Prop extends Onward w w' where
  closed : (w.client.link 0).state = .closed → (w'.client.link 0).state = .closed
  building : (w'.client.link 0).state = .building → (w.client.link 0).state = .building ∧
    ((w.client.link 0).opening.isSome → (w'.client.link 0).opening.isSome)
  answers : ∀ q ∈ exchanges w.client w.outside.history, q.answer.isSome →
    q ∈ exchanges w'.client w'.outside.history

/-- The invariant holds again. -/
structure Kept (attaching : Prop) (hand : List Nat) (w w' : State) : Prop where
  inv : Inv attaching hand w'
  since : Since w w'
  clear : Clear w'.client w'.outside.history

/-- The computation `x`, started at `v`, returns, and the invariant holds again. -/
def Keeps (attaching : Prop) (hand : List Nat) (w : State) (x : Play Unit) (v : State) : Prop :=
  Run.After x v (fun _ w' => Kept attaching hand w w') fun _ _ => False

/-- Nothing happened but that moves were used up. -/
structure Unmoved (w w' : State) : Prop where
  client : w'.client = w.client
  history : w'.outside.history = w.outside.history
  moves : w'.outside.moves <:+ w.outside.moves

/-- **What the link relies on.** While it attaches the link, takes a request or lets go of the link the
endpoint may raise events; if it raises a failure, then before anything has happened, and one that can be
reported. -/
structure Sound (n : Nat) (h : Surroundings) : Prop where
  resume : ∀ {hand : List Nat} {w : State} (id : Nat) (r : Resolution Unit),
    Inv False hand (noting (.resolved id r) w) → (w.client.link 0).state = standing w.outside.history →
    w.outside.moves.length < n →
    Keeps False hand (noting (.resolved id r) w) (h.resume id r) w
  attach : ∀ {hand : List Nat} {w : State} (name : String) (l : Nat),
    Inv True hand w → Clear w.client w.outside.history → w.outside.moves.length < n →
    Run.After (h.attach name l) w (fun _ w' => Kept True hand w w')
      fun e w' => ∃ f v, e = .raised f ∧ f.isReportable ∧ Unmoved w v ∧ w' = noting .unattached v
  detach : ∀ {hand : List Nat} {w : State} (l : Nat),
    Inv False hand w → Clear w.client w.outside.history → w.outside.moves.length < n →
    Run.After (h.detach l) w (fun _ w' => ∃ v, Kept False hand w v ∧ w' = noting .detached v)
      fun _ _ => False
  send : ∀ {hand : List Nat} {w : State} (l d : Nat) (r : Request),
    Inv False hand (noting (.sent d r) w) → (w.client.link 0).state = standing w.outside.history →
    w.outside.moves.length < n →
    Run.After (h.send l d r) w (fun _ w' => Kept False hand (noting (.sent d r) w) w')
      fun e w' => ∃ f v, e = .raised f ∧ f.isReportable ∧ Unmoved (noting (.sent d r) w) v ∧
        w' = noting (.refused d) v

end Transact.Link
