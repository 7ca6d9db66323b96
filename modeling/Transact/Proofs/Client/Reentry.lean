import Transact.Proofs.Client.Tables
import Transact.Script.Basic

/-! # Hooks that call back

Whether a transaction is being discharged already is asked before its hooks are called, and the stage says
so only after them. A hook that ends the transaction itself is therefore let through. Once it has returned,
the discharge is handed over all the same: for the transaction that was bound before, on the link that was
there before, and from whatever state the hook has left.

* `discharge_regardless`: the discharge is sent whatever the hooks have done meanwhile.
* `context_discharging`: and what is bound meanwhile is what they have left bound, if anything.
* `finish_insists`: so a transaction is discharged once more for each time that a hook calls back. -/

namespace Transact

open Run

variable {ε κ : Type} {h : Host ε κ} {w v : World ε κ} {c t l sender : Nat} {q : Token κ}
  {ending : Ending} {failure : Option Failure} {y : TxnId}

/-- The client while a request is sent on a link. -/
def Client.sending (x : Client κ) (l : Nat) (e : Exchange κ) : Client κ :=
  x.changeLink l fun k => { k with
    nextDelivery := (x.link l).nextDelivery + 1
    pending := k.pending ++ [((x.link l).nextDelivery, e)] }

theorem Link.transmit_sends {request : Request} {e : Exchange κ} {fail : Failure → Act ε κ Unit}
    {Q : Unit → World ε κ → Prop} (opened : (w.client.link l).state = .opened)
    (attached : (w.client.link l).sender = some sender)
    (sends : After (h.send sender (w.client.link l).nextDelivery request) (w.on (·.sending l e)) Q
      fun _ _ => False) :
    After (transmit h l request e fail) w Q fun _ _ => False := by
  unfold transmit
  rw [after_bind, Act.after_link]
  simp only [opened, attached]
  rw [after_bind, Act.after_modifyLink, after_bind, after_attempt]
  exact sends.mono (fun _ _ => id) fun _ _ => False.elim

namespace Context

/-- The hooks that are called before a transaction ends so. -/
def preHook : Ending → Hook
  | .commit => .preCommit
  | .rollback => .preRollback

/-- The hooks have returned, and none of them keeps the transaction from ending so. -/
theorem discharge_eq (current : (w.client.context c).current = some t)
    (coordinator : (w.client.context c).coordinator = some l)
    (hooks : notify h c (preHook ending) w = .ok failure v) (ready : ending = .commit → failure = none) :
    discharge h c ending q w = handOver h c t l (ending = .commit) q v := by
  rw [← after_eq, discharge, after_bind, Act.after_context, current, coordinator]
  cases ending with
  | rollback =>
    simp only [after_bind, after_discard]
    exact after_of_eq hooks (after_eq.2 rfl)
  | commit =>
    obtain rfl := ready rfl
    simp only [after_bind]
    exact after_of_eq hooks (after_eq.2 rfl)

/-- The client while a discharge is handed over. -/
def discharging (x : Client κ) (c : Nat) : Client κ :=
  (x.changeContext c fun k => { k with stage := .discharging }).addCompletion

/-- **A discharge that is handed over is sent,** whether or not anything is bound, if the link is open and
the transaction has its name. The stage says so from then on, and what is bound is as it was. -/
theorem handOver_sends {commit : Bool} (opened : (w.client.link l).state = .opened)
    (attached : (w.client.link l).sender = some sender) (hint : (w.client.transaction t).hint = some y)
    {Q : Unit → World ε κ → Prop}
    (sends : After (h.send sender (w.client.link l).nextDelivery (.discharge y (!commit)))
      (w.on fun x => (discharging x c).sending l
        ⟨some commit, t, .discharging x.completions.size c commit q⟩) Q fun _ _ => False) :
    After (handOver h c t l commit q) w Q fun _ _ => False := by
  unfold handOver Link.discharge
  simp only [after_bind, Act.after_modifyContext, Act.after_newCompletion, Act.after_transaction]
  have name : (((w.on (·.changeContext c fun k => { k with stage := .discharging })).on
      (·.addCompletion)).client.transaction t).hint = some y := hint
  rw [name]
  exact Link.transmit_sends opened attached sends

/-- What is bound while a discharge is handed over is what was bound before, if anything. -/
theorem context_discharging {x : Client κ} {k : Context} (hk : x.contexts[c]? = some k) :
    (discharging x c).contexts[c]? = some { k with stage := .discharging } :=
  Client.changeContext_same hk

/-- **Whatever its hooks have done, a transaction is discharged,** if the link is still open and the
transaction still has its name when they return. -/
theorem discharge_regardless (current : (w.client.context c).current = some t)
    (coordinator : (w.client.context c).coordinator = some l)
    (hooks : notify h c (preHook ending) w = .ok failure v) (ready : ending = .commit → failure = none)
    (opened : (v.client.link l).state = .opened) (attached : (v.client.link l).sender = some sender)
    (hint : (v.client.transaction t).hint = some y) {Q : Unit → World ε κ → Prop}
    (sends : After (h.send sender (v.client.link l).nextDelivery (.discharge y (ending ≠ .commit)))
      (v.on fun x => (discharging x c).sending l
        ⟨some (ending = .commit), t, .discharging x.completions.size c (ending = .commit) q⟩) Q
      fun _ _ => False) :
    After (discharge h c ending q) w Q fun _ _ => False := by
  have handed : After (handOver h c t l (ending = .commit) q) v Q fun _ _ => False := by
    refine handOver_sends opened attached hint ?_
    cases ending with
    | commit => exact sends
    | rollback => exact sends
  exact handed.congr (discharge_eq current coordinator hooks ready)

end Context

/-! ### Hooks that insist -/

namespace Client.Reentry

/-- How often the hooks will still call back, and what was sent. -/
structure Outside where
  left : Nat
  sent : List Request := []

/-- Each round of `preCommit` commits the transaction once more, as long as something is left. -/
def hook (h : Host Outside Unit) (k : Hook) : Act Outside Unit Unit := do
  match k, (← Act.outside).left with
  | .preCommit, n + 1 =>
    Act.modifyOutside fun o => { o with left := n }
    Context.finish h 0 .commit ⟨0, false⟩ (.client (← Act.newCompletion) ())
  | _, _ => return

/-- Surroundings with these hooks. The endpoint takes every request. -/
def around (hook : Nat → Hook → Act Outside Unit Unit) : Host Outside Unit where
  attach _ l := return l
  send _ _ request := Act.modifyOutside fun o => { o with sent := o.sent ++ [request] }
  detach _ := return
  hook
  resume _ _ := return

/-- The surroundings, with leave to nest so many levels of hooks. -/
def host : (depth : Nat) → Host Outside Unit
  | 0 => around fun _ _ => Run.exhausted
  | depth + 1 => around fun _ => hook (host depth)

/-- The transaction is bound on an open link, and one consumer is enrolled in it. -/
structure Bound (y : TxnId) (w : World Outside Unit) : Prop where
  current : (w.client.context 0).current = some 0
  coordinator : (w.client.context 0).coordinator = some 0
  consumer : ∃ consumer, (w.client.context 0).registry.consumers.values = [consumer]
  link : (w.client.link 0).state = .opened
  sender : ∃ sender, (w.client.link 0).sender = some sender
  name : (w.client.transaction 0).hint = some y

variable {w v : World Outside Unit} {q : Token Unit} {y : TxnId} {n depth : Nat}

theorem send_eq {sender delivery : Nat} {request : Request} :
    (host depth).send sender delivery request =
      Act.modifyOutside fun o => { o with sent := o.sent ++ [request] } := by
  cases depth <;> rfl

theorem finish_eq {h : Host Outside Unit} (hb : Bound y w)
    (active : (w.client.context 0).stage = .active) :
    Context.finish h 0 .commit ⟨0, false⟩ q w = Context.discharge h 0 .commit q w := by
  rw [← after_eq, Context.finish]
  simp only [after_bind, Act.after_transaction, Act.after_currentId, Act.after_context,
    Act.after_isFailed, hb.current, hb.coordinator, hb.link, active, Option.map_some, Option.any_some,
    ne_eq, not_true_eq_false, if_false, reduceCtorEq, decide_false, Bool.false_eq_true]
  exact after_eq.2 rfl

theorem notify_eq {h : Host Outside Unit} {k : Hook} (hb : Bound y w)
    (hooks : ∀ consumer, h.hook consumer k w = .ok () v) : Context.notify h 0 k w = .ok none v := by
  obtain ⟨consumer, listed⟩ := hb.consumer
  rw [← after_eq, Context.notify, after_bind, Act.after_context, listed]
  simp only [Context.notifyEach, after_bind, after_attempt]
  exact after_of_eq (hooks consumer) (after_eq.2 rfl)

theorem Bound.of_sending {e : Exchange Unit} {o : Outside} (hb : Bound y w) :
    Bound y ⟨(Context.discharging w.client 0).sending 0 e, o⟩ := by
  obtain ⟨k, hk⟩ : ∃ k, w.client.contexts[0]? = some k := by
    refine Option.isSome_iff_exists.1 (Option.isSome_iff_ne_none.2 fun none => ?_)
    have current := hb.current
    rw [Client.context, none] at current
    cases current
  obtain ⟨j, hj⟩ : ∃ j, w.client.links[0]? = some j := by
    refine Option.isSome_iff_exists.1 (Option.isSome_iff_ne_none.2 fun none => ?_)
    have link := hb.link
    rw [Client.link, none] at link
    cases link
  have context : ((Context.discharging w.client 0).sending 0 e).context 0 =
      { k with stage := .discharging } := Client.context_eq (Context.context_discharging hk)
  have link : ((Context.discharging w.client 0).sending 0 e).link 0 = { j with
      nextDelivery := (w.client.link 0).nextDelivery + 1
      pending := j.pending ++ [((w.client.link 0).nextDelivery, e)] } := by
    have there : (Context.discharging w.client 0).links[0]? = some j := hj
    exact Client.link_eq (Client.changeLink_same there)
  have before : w.client.context 0 = k := Client.context_eq hk
  have opened : w.client.link 0 = j := Client.link_eq hj
  refine ⟨?_, ?_, ?_, ?_, ?_, hb.name⟩
  · rw [context, ← hb.current, before]
  · rw [context, ← hb.coordinator, before]
  · rw [context, ← before]
    exact hb.consumer
  · rw [link, ← hb.link, opened]
  · rw [link, ← opened]
    exact hb.sender

theorem discharge_sends (hb : Bound y w) (hv : Bound y v)
    (hooks : ∀ consumer, (host depth).hook consumer .preCommit w = .ok () v) :
    After (Context.discharge (host depth) 0 .commit q) w
      (fun _ u => Bound y u ∧ u.outside.left = v.outside.left ∧
        u.outside.sent = v.outside.sent ++ [.discharge y false]) fun _ _ => False := by
  obtain ⟨sender, attached⟩ := hv.sender
  refine Context.discharge_regardless hb.current hb.coordinator (notify_eq hb hooks) (fun _ => rfl) hv.link
    attached hv.name ?_
  rw [send_eq]
  exact ⟨hv.of_sending, rfl, rfl⟩

/-- **The transaction is discharged as often as its hooks call back, and once more.** By induction on how
often that is: the hook finds the transaction as whoever has called it has found it. -/
theorem finish_insists (hb : Bound y w) (active : (w.client.context 0).stage = .active)
    (left : w.outside.left = n) (deep : n < depth) :
    After (Context.finish (host depth) 0 .commit ⟨0, false⟩ q) w
      (fun _ v => Bound y v ∧ v.outside.left = 0 ∧
        v.outside.sent = w.outside.sent ++ List.replicate (n + 1) (.discharge y false))
      fun _ _ => False := by
  induction n generalizing w q depth with
  | zero =>
    obtain ⟨depth, rfl⟩ : ∃ d, depth = d + 1 := ⟨depth - 1, by omega⟩
    have returns (consumer : Nat) : (host (depth + 1)).hook consumer .preCommit w = .ok () w := by
      show hook (host depth) .preCommit w = _
      rw [← after_eq, hook, after_bind, Act.after_outside, left]
      rfl
    refine ((discharge_sends hb hb returns).mono (fun _ u sent => ?_) fun _ _ => id).congr
      (finish_eq hb active)
    exact ⟨sent.1, sent.2.1.trans left, sent.2.2⟩
  | succ n ih =>
    obtain ⟨depth, rfl⟩ : ∃ d, depth = d + 1 := ⟨depth - 1, by omega⟩
    obtain ⟨u, hu⟩ : ∃ u : World Outside Unit,
        u = ⟨w.client.addCompletion, { w.outside with left := n }⟩ := ⟨_, rfl⟩
    have found : Bound y u := by
      rw [hu]
      exact ⟨hb.current, hb.coordinator, hb.consumer, hb.link, hb.sender, hb.name⟩
    have still : (u.client.context 0).stage = .active := by
      rw [hu]
      exact active
    have fewer : u.outside.left = n := by rw [hu]
    have nested : After (Context.finish (host depth) 0 .commit ⟨0, false⟩
        (.client w.client.completions.size ())) u _ _ := ih found still fewer (by omega)
    obtain ⟨_, v, returns, hv, spent, sent⟩ := nested.returns
    have returns (consumer : Nat) : (host (depth + 1)).hook consumer .preCommit w = .ok () v := by
      show hook (host depth) .preCommit w = _
      rw [← after_eq, hook, after_bind, Act.after_outside, left]
      rw [hu] at returns
      exact after_eq.2 returns
    refine ((discharge_sends hb hv returns).mono (fun _ t last => ?_) fun _ _ => id).congr
      (finish_eq hb active)
    refine ⟨last.1, last.2.1.trans spent, ?_⟩
    have before : u.outside.sent = w.outside.sent := by rw [hu]
    rw [last.2.2, sent, before, List.append_assoc, ← List.replicate_succ']

/-- A transaction has begun, and a consumer is enrolled whose hooks will call back so often. -/
def begun (n : Nat) : World Outside Unit where
  client := {
    contexts := #[{
      session := ⟨"connection", .ofNat 1⟩
      stage := .active
      current := some 0
      coordinator := some 0
      registry := ({} : Registry Nat Nat).enrolConsumer
        ⟨.consumer, ⟨"connection", .ofNat 1⟩, .ofNat 1⟩ 0 }]
    links := #[{ name := "link", state := .opened, sender := some 0 }]
    transactions := #[{ id := ⟨⟨"connection", .ofNat 1⟩, .ofNat 1⟩, hint := some ⟨[1]⟩ }] }
  outside := { left := n }

theorem begun_insists : ∃ v, Context.finish (host (n + 1)) 0 .commit ⟨0, false⟩ q (begun n) = .ok () v ∧
    v.outside.sent = List.replicate (n + 1) (.discharge ⟨[1]⟩ false) := by
  have bound : Bound ⟨[1]⟩ (begun n) := ⟨rfl, rfl, ⟨0, rfl⟩, rfl, ⟨0, rfl⟩, rfl⟩
  obtain ⟨_, v, returns, -, -, sent⟩ :=
    (finish_insists (q := q) bound rfl rfl (Nat.lt_succ_self n)).returns
  exact ⟨v, returns, sent⟩

end Client.Reentry

/-! ### Two scripts -/

namespace Script

/-- A transaction is declared, a consumer is enrolled that commits it when it is to prepare for that and then
does `more`, and it is committed from outside. -/
def committing (more : List Step) : List (Except Halt Reply × State) :=
  let commit (label : String) : Step := .request (.finish 0 .commit ⟨0, false⟩) label [] []
  let consumer : Consumer := {
    label := "consumer"
    id := ⟨.consumer, ⟨"connection", .ofNat 1⟩, .ofNat 1⟩
    scripts := fun hook => if hook = .preCommit then [commit "inner" :: more] else [] }
  play [.request (.begin 0 0) "begin" [] [], .action (.remoteOpen none),
      .action (.settle none none (.declared (some ⟨[1]⟩))), .action (.enrol 0 "consumer"), commit "outer"]
    (contextWorld ⟨"connection", .ofNat 1⟩ [default] [consumer] [])

/-- The requests that were sent. -/
def requestsOf (moments : List (Except Halt Reply × State)) : List Request :=
  moments.flatMap fun moment => moment.2.outside.log.toList.filterMap fun
    | .sent _ _ request => some request
    | _ => none

/-- The transaction is discharged twice. -/
example : requestsOf (committing []) =
    [.declare, .discharge ⟨[1]⟩ false, .discharge ⟨[1]⟩ false] := by
  decide +kernel

/-- The first discharge is settled within the hook, and the second one is sent with nothing bound. -/
example : ((committing [.action (.settle none none .accepted)]).getLast?.map fun moment =>
    ((moment.2.client.context 0).stage, (moment.2.client.context 0).current)) =
      some (.discharging, none) := by
  decide +kernel

end Script

end Transact
