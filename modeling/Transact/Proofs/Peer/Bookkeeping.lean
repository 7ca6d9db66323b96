import Transact.Proofs.Peer.Quiet

/-! # The books of a session

A session keeps books of its own: the transaction that it is in, how many sends wait to be settled,
the aggregate that waits for them, and the first send that failed. The context, the aggregates and the
loop have the same from their side. At rest both sides agree, so neither is ever surprised by the
other: nothing is settled twice, and what fails as a misuse is what the session itself refused.

* `Noted`, `Rest.noted`: what a session has noted is so.
* `Inert`: the calls that the client intercepts leave it as it is, and cannot hide a misuse.
* `history_bookkeeping`: the books are right after every step of a run, and no call of the session is
  refused as a misuse by anyone but the session itself. -/

namespace Transact.Peer

open Run

variable {α β : Type} {G : Ledger} {s : Nat} {p : Phase Waiting} {co : Option Nat} {S : Session}
  {w : State} {past : List Moment} {steps : List Step}

/-! ### What a session notes -/

/-- The transfer of a message whose sender, this session, waits to be told. -/
def Task.counts (s : Nat) : Task → Bool
  | transfer _ _ _ _ (some (.client _ (.sent s' _))) => s' = s
  | _ => false

/-- **What a session has noted is so.**

* `current`: it is in the transaction that its context has bound, if any.
* `outstanding`: so many transfers wait in the loop of which it is to be told.
* `pending`: an aggregate waits for just these.
* `failedSend`: a message that was sent in the current transaction failed so, and its sender was told. -/
structure Noted (past : List Moment) (w : State) (s : Nat) (S : Session) : Prop where
  current : ∃ C, w.client.contexts[S.context]? = some C ∧ C.current = S.current
  outstanding : S.outstanding = (tasks w).countP (·.counts s)
  pending : ∀ i, S.aggregate = some i → ∃ A, w.client.aggregates[i]? = some A ∧
    A.context = S.context ∧ A.sends.pending = .ofNat S.outstanding
  failedSend : ∀ f, S.failedSend = some f → ∃ m ∈ past, ∃ x c, m.message? = some x ∧
    S.current = some x.transaction ∧ x.presettled = false ∧ m.reply = .ok (some c) ∧
    w.client.completions[c]? = some (.settled (.failed f))

theorem Task.isTransfer_of_counts {job : Task} (h : job.counts s) : job.isTransfer := by
  unfold Task.counts at h
  split at h
  · next state _ _ _ => cases state <;> rfl
  · cases h

theorem Parcel.counts_task {x : Parcel} :
    x.task.counts s = (x.session = s && x.receipt.isSome) := by
  cases h : x.receipt <;> simp [Parcel.task, Task.counts, h]

theorem Common.countP_counts {due : Option Nat} (h : Common G due w) :
    (tasks w).countP (·.counts s) = G.unsettled s := by
  have transfers : (tasks w).countP (·.counts s) =
      ((tasks w).filter (·.isTransfer)).countP (·.counts s) := by
    rw [List.countP_filter]
    refine List.countP_congr fun job _ => ?_
    rw [Bool.and_eq_true]
    exact ⟨fun counts => ⟨counts, Task.isTransfer_of_counts counts⟩, And.left⟩
  rw [transfers, h.transfers, List.countP_map, Ledger.unsettled]
  exact List.countP_congr fun x _ => by rw [Function.comp, Parcel.counts_task]

/-- The context has bound the transaction that the session is in. -/
theorem Ledger.Stance.current {x : Client Waiting} (h : G.Stance x s S p) :
    S.current = p.bound.map (·.1) := by
  cases p with
  | idle => exact h.1.current
  | opening => exact h.1.current
  | declaring => exact h.1.current
  | active => exact h.1
  | discharging => exact h.1

/-- The aggregate of a session waits for the outstanding sends. -/
theorem Ledger.Stance.aggregate {x : Client Waiting} (h : G.Stance x s S p) {i : Nat}
    (hi : S.aggregate = some i) : ∃ A, x.aggregates[i]? = some A ∧ A.context = s ∧
      A.sends.pending = .ofNat S.outstanding := by
  have free (none : S.Free) : False := by
    cases hi.symm.trans none.aggregate
  cases p with
  | idle => exact (free h.1).elim
  | opening => exact (free h.1).elim
  | declaring => exact (free h.1).elim
  | active t y =>
    rcases h.2 with ⟨-, none, -⟩ | ⟨-, a, A, some_, hA, waits, -⟩
    · cases hi.symm.trans none
    · obtain rfl : i = a := Option.some.inj (hi.symm.trans some_)
      exact ⟨A, hA, waits.context, waits.pending⟩
  | discharging =>
    obtain ⟨-, -, none, -, -, -, counted⟩ := h
    obtain ⟨A, hA, context, pending⟩ := counted i hi
    exact ⟨A, hA, context, none ▸ pending⟩

/-- **A session at rest** has its books in order. -/
theorem Rest.noted (hr : Rest G s p co S w) (h : Recorded past G w) : Noted past w s S where
  current := by
    obtain ⟨C, hC, at_⟩ := hr.seat.tables.context
    refine ⟨C, ?_, at_.current.trans hr.stance.current.symm⟩
    rw [hr.context]
    exact hC
  outstanding := hr.count.trans h.calm.common.countP_counts.symm
  pending i hi := by
    obtain ⟨A, hA, context, pending⟩ := hr.stance.aggregate hi
    exact ⟨A, hA, context.trans hr.context.symm, pending⟩
  failedSend f hf := by
    obtain ⟨t, current, -, e, he, rfl, receipt, failed⟩ := hr.dues.failed f hf
    obtain ⟨⟨sent, c⟩, hc⟩ := Option.isSome_iff_exists.1 receipt
    obtain ⟨m, hm, message, reply⟩ :=
      h.sends e.1 (List.mem_append_left _ (List.mem_map_of_mem he)) sent c hc
    refine ⟨m, hm, e.1.message, c, message, current, by simp [Parcel.message, hc], reply, ?_⟩
    rw [← failed]
    exact h.told e he sent c hc

/-! ### Calls that the client intercepts -/

/-- The client stays as it is, and what is raised is a failure, but not of the caller's making. -/
def Inert (x : Peering α) : Prop := ∀ w, After x w (fun _ w' => w'.client = w.client)
  fun e w' => w'.client = w.client ∧ ∃ f, e = .raised f ∧ f.Legal

namespace Inert

theorem pure {a : α} : Inert (Pure.pure a : Peering α) := fun _ => rfl

theorem bind {x : Peering α} {f : α → Peering β} (h : Inert x) (hf : ∀ a, Inert (f a)) :
    Inert (x >>= f) := by
  intro w
  rw [after_bind]
  refine (h w).mono (fun a w' same => ?_) fun _ _ => id
  exact ((hf a) w').mono (fun _ _ same' => same'.trans same) fun _ _ he => ⟨he.1.trans same, he.2⟩

theorem forM {ds : List α} {f : α → Peering Unit} (hf : ∀ d, Inert (f d)) : Inert (ds.forM f) := by
  induction ds with
  | nil => exact pure
  | cons d ds ih => exact (hf d).bind fun _ => ih

theorem outside : Inert Act.outside := fun _ => rfl

theorem modifyOutside {f : Outside → Outside} : Inert (Act.modifyOutside f) := fun _ => rfl

theorem sessionAt {s : Nat} : Inert (sessionAt s) := fun _ => rfl

theorem consumerAt {c : Nat} : Inert (consumerAt c) := fun _ => rfl

theorem endpointAt {e : Nat} : Inert (endpointAt e) := fun _ => rfl

theorem context {c : Nat} : Inert (Act.context c : Peering Context) := fun _ => rfl

theorem modifyConsumer {c : Nat} {f : Consumer → Consumer} : Inert (modifyConsumer c f) := fun _ => rfl

theorem add {label : String} {task : Task} : Inert (Loop.add label task : Peering Unit) := fun _ => rfl

theorem refuse {p : Problem} (h : p.toFailure.Legal) : Inert (Run.refuse p : Peering α) :=
  fun _ => ⟨rfl, _, rfl, h⟩

theorem askBroker {f : Broker → Except Problem Broker}
    (h : ∀ b p, f b = .error p → p.toFailure.Legal) : Inert (askBroker f) := by
  refine outside.bind fun o => ?_
  cases e : f o.broker with
  | error p => exact refuse (h _ p e)
  | ok b => exact modifyOutside

end Inert

theorem Broker.takeBack_error {b : Broker} {tag : Number} {problem : Problem}
    (h : b.takeBack tag = .error problem) : problem = .unknownDelivery tag := by
  unfold takeBack at h
  split at h
  · exact (Except.error.inj h).symm
  · cases h

theorem handBack_error {state : Option DeliveryState} {d : Delivery} {b : Broker} {problem : Problem}
    (h : handBack state d b = .error problem) : problem = .unknownDelivery (.ofNat d.tag) := by
  cases ht : b.takeBack (.ofNat d.tag) with
  | error problem' =>
    obtain rfl := Broker.takeBack_error ht
    cases state <;>
      simpa [handBack, Broker.acknowledge, Broker.release, ht, bind, Except.bind, eq_comm] using h
  | ok taken =>
    cases state with
    | none => simp [handBack, Broker.release, ht, bind, Except.bind, pure, Except.pure] at h
    | some state =>
      simp only [handBack, Broker.acknowledge, ht, bind, Except.bind, pure, Except.pure] at h
      split at h <;> cases h

theorem inert_hand {state : Option DeliveryState} {ds : List Delivery} :
    Inert (Consumer.hand state ds) := by
  rw [hand_eq]
  refine .forM fun d => .askBroker fun b problem h => ?_
  rw [handBack_error h]
  exact nofun

theorem inert_hook {c : Nat} {hook : Hook} : Inert (peer.hook c hook) := by
  cases hook with
  | preCommit =>
    exact .bind .consumerAt fun _ => .bind .sessionAt fun _ => .bind .context fun _ =>
      .bind .consumerAt fun _ => inert_hand.bind fun _ => .modifyConsumer
  | postCommit => exact .modifyConsumer
  | preRollback => exact .bind .consumerAt fun _ => inert_hand.bind fun _ => .modifyConsumer
  | postRollback => exact .modifyConsumer

theorem inert_attach {name : String} {l : Nat} : Inert (peer.attach name l) := by
  refine .bind .outside fun o => .bind .modifyOutside fun _ => ?_
  split
  · exact .bind .add fun _ => .pure
  · exact .bind .add fun _ => .pure

theorem inert_send {e delivery : Nat} {request : Request} : Inert (peer.send e delivery request) := by
  refine .bind .endpointAt fun side => ?_
  split
  · exact .bind .endpointAt fun _ => .bind .modifyOutside fun _ => .add
  · exact .refuse nofun

/-! ### What a history shows -/

/-- **The books are in order.**

* `noted`: what the sessions have noted is so.
* `raised`: no call raises anything, except that a consumer cannot receive outside a transaction; then
  nothing has changed. In particular nothing is settled that has been settled already.
* `kept`: who was told an answer is not told another one.
* `returned`, `refused`: what failed as a misuse was returned to a caller whose call the session itself
  had refused, and this failure is all that came of the call. -/
structure InOrder (past : List Moment) (w : State) : Prop where
  noted : ∀ (s : Nat) (S : Session), w.outside.sessions[s]? = some S → Noted past w s S
  raised : ∀ m ∈ past, ∀ e, m.reply = .error e → Misses m.step e ∧ m.after = m.before
  kept : ∀ m ∈ past, Keeps m.after.client w.client
  returned : ∀ (c : Nat) (f : Failure), w.client.completions[c]? = some (.settled (.failed f)) → ¬ f.Legal →
    ∃ m ∈ past, m.reply = .ok (some c)
  refused : ∀ m ∈ past, ∀ (c : Nat) (f : Failure), m.reply = .ok (some c) →
    w.client.completions[c]? = some (.settled (.failed f)) → ¬ f.Legal →
    Refuses m.before m.step ∧ Declines m.before c m.after

theorem Recorded.inOrder (h : Recorded past G w) : InOrder past w where
  noted s S hS := by
    obtain ⟨_, _, S', hr⟩ := h.calm.settled s (Array.getElem?_eq_some_iff.1 hS).1
    obtain rfl : S = S' := Option.some.inj (hS.symm.trans hr.session)
    exact hr.noted h
  raised := h.raised
  kept m hm := (h.onward m hm).kept
  returned := h.blamed
  refused := h.refused

theorem play_append {steps' : List Step} : play (steps ++ steps') w =
    play steps w ++ play steps' (reach steps w) := by
  induction steps generalizing w with
  | nil => rfl
  | cons step rest ih => exact congrArg (_ :: ·) ih

/-- **The books are in order after every step of a run.** The calls that the client intercepts do not
hide anything: they cannot change the client, and raise no misuse. -/
theorem history_bookkeeping {refusesLinks : Bool} {steps : List Step}
    (hb : ∀ m ∈ history refusesLinks steps, Countable m.after) :
    (∀ done, done <+: steps →
      InOrder (history refusesLinks done) (reach done (initial refusesLinks))) ∧
    (∀ name l, Inert (peer.attach name l)) ∧ (∀ e d request, Inert (peer.send e d request)) ∧
    ∀ c hook, Inert (peer.hook c hook) := by
  refine ⟨?_, fun _ _ => inert_attach, fun _ _ _ => inert_send, fun _ _ => inert_hook⟩
  rintro done ⟨rest, rfl⟩
  have countable : ∀ m ∈ history refusesLinks done, Countable m.after := by
    intro m hm
    refine hb m ?_
    rw [history, play_append]
    exact List.mem_append_left _ hm
  obtain ⟨before, -⟩ := play_before (bounded_initial refusesLinks).countable countable
  obtain ⟨G, h⟩ := (recorded_initial refusesLinks).play before
  exact h.inOrder

/-- One of three messages fails before the commit, and the commit is asked for twice. -/
def booksSteps : List Step :=
  [.newSession ⟨"c", .ofNat 1⟩ {}, .newProducer 0 (some ⟨"q", .queue⟩), .start 0, .runOne, .runOne,
    .rejectTransfer (.ofNat 0), .send 0 "a" none, .send 0 "b" none, .send 0 "c" none, .runOne,
    .finish 0 .commit, .finish 0 .commit]

theorem history_bookkeeping_commit :
    (∀ m ∈ history false booksSteps, Countable m.after) ∧
    ((reach booksSteps (initial false)).outside.sessions[0]?.map fun S =>
      (S.current, S.outstanding, S.aggregate.isSome, S.failedSend.isSome)) =
        some (some 0, 2, true, true) ∧
    ∀ done, done <+: booksSteps → InOrder (history false done) (reach done (initial false)) := by
  have countable : ∀ m ∈ history false booksSteps, Countable m.after := by decide +kernel
  exact ⟨countable, by decide +kernel, (history_bookkeeping countable).1⟩

end Transact.Peer
