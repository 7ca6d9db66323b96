import Transact.Proofs.Adversary.Control
import Transact.Proofs.Client.Reentry

/-! # The hooks of every transaction

For all foreign code, and every list of moves: which hooks a transaction calls from its begin to its end,
on whom, and in which order. And for all surroundings whose hooks do no more than return or raise: what
comes after a round of hooks comes whichever of them raise.

* `notifyEach_cut`, `resolve_discharging_cut`: where a round of hooks is cut short, and that an outcome is
  not passed on then.
* `run_hooks`: what is to be seen at every entry, and that the end of a transaction is passed on. -/

namespace Transact

section
variable {ε κ : Type} {h : Host ε κ} {w : World ε κ} {k : Hook} {c : Nat} {commit : Bool}

open Run Player

/-! ### Hooks that return or raise -/

/-- Whatever a hook does, it returns or raises what can be reported, and leaves the client as it is. -/
def Host.Contained (h : Host ε κ) : Prop :=
  ∀ (consumer : Nat) (k : Hook) (w : World ε κ),
    After (h.hook consumer k) w (fun _ w' => w'.client = w.client)
      fun e w' => (∃ f, e = .raised f ∧ f.isReportable) ∧ w'.client = w.client

/-- **What comes after hooks is not kept from coming.**

* `discharged`: the outcome of a discharge is passed on, once the transaction is forgotten and nobody is
  enrolled any more.
* `abandoned`: a transaction in doubt is forgotten in the same way.
* `discharges`: the discharge is handed over, and whoever asked for the end is to be told of it. -/
structure Host.Forwards (h : Host ε κ) : Prop where
  discharged : ∀ (id c : Nat) (commit : Bool) (q : Token κ) (r : Resolution Unit) (w : World ε κ),
    w.client.Pending id → ∃ w', w'.client =
        (w.client.write id (.settled r)).changeContext c (·.concluded) ∧
      (Token.discharging id c commit q).resolve h r w = q.resolve h r w'
  abandoned : ∀ (c : Nat) (w : World ε κ), ∃ w', w'.client = w.client.changeContext c (·.concluded) ∧
    Context.abandon h c w = .ok () w'
  discharges : ∀ (c t l : Nat) (ending : Ending) (q : Token κ) (w : World ε κ),
    (w.client.context c).current = some t → (w.client.context c).coordinator = some l →
    ∃ w', (w'.client = w.client ∧
        Context.discharge h c ending q w = Context.handOver h c t l (ending = .commit) q w') ∨
      (∃ f, ending = .commit ∧ w'.client = w.client.addCompletion ∧ Context.discharge h c ending q w =
        Context.handOver h c t l false (.instead w.client.completions.size
          (Problem.prepareFailed.toFailure (some f)) q) w')

namespace Host.Contained

theorem notifyEach (hh : h.Contained) {failure : Option Failure} {consumers : List Nat} :
    After (Context.notifyEach h k failure consumers) w (fun _ w' => w'.client = w.client)
      fun _ _ => False := by
  induction consumers generalizing w failure with
  | nil => rfl
  | cons consumer rest ih =>
    have later {failure' : Option Failure} {w' : World ε κ} (hw : w'.client = w.client) :
        After (Context.notifyEach h k failure' rest) w' (fun _ w'' => w''.client = w.client)
          fun _ _ => False :=
      ih.mono (fun _ _ hw' => hw'.trans hw) fun _ _ => id
    simp only [Context.notifyEach, after_bind, after_attempt]
    refine (hh consumer k w).mono (fun _ w' hw => later hw) ?_
    rintro _ w' ⟨⟨f, rfl, hf⟩, hw⟩
    obtain ⟨g, hg⟩ := Option.isSome_iff_exists.1 hf
    cases failure with
    | some _ => exact later hw
    | none =>
      simp only [first_none, convert_eq hg, after_pure]
      exact later hw

theorem notify (hh : h.Contained) :
    After (Context.notify h c k) w (fun _ w' => w'.client = w.client) fun _ _ => False := by
  simp only [Context.notify, after_bind, Act.after_context]
  exact hh.notifyEach

theorem conclude (hh : h.Contained) : After (Context.conclude h c commit) w
    (fun _ w' => w'.client = w.client.changeContext c (·.concluded)) fun _ _ => False := by
  simp only [Context.conclude, after_bind, Act.after_reset, after_discard, Act.after_modifyContext]
  refine hh.notify.mono (fun _ w' hw => ?_) fun _ _ => id
  show w'.client.changeContext c _ = _
  rw [hw]
  exact Client.changeContext_changeContext

theorem forwards (hh : h.Contained) : h.Forwards where
  discharged id c commit q r w pending := by
    have concludes : After (Context.conclude h c commit) (w.on (·.write id (.settled r))) _ _ :=
      hh.conclude
    obtain ⟨_, w', returns, client⟩ := concludes.returns
    refine ⟨w', client, ?_⟩
    rw [← after_eq, Token.resolve, after_bind, Act.after_settle pending, after_bind]
    exact after_of_eq returns (after_eq.2 rfl)
  abandoned c w := by
    obtain ⟨_, v, returns, hv⟩ := (hh.notify (c := c) (k := .preRollback) (w := w)).returns
    have concludes : After (Context.conclude h c false) v _ _ := hh.conclude
    obtain ⟨_, w', returns', hw⟩ := concludes.returns
    refine ⟨w', hv ▸ hw, ?_⟩
    rw [← after_eq, Context.abandon, after_bind, after_discard]
    exact after_of_eq returns (after_of_eq returns' rfl)
  discharges c t l ending q w current coordinator := by
    cases ending with
    | rollback =>
      obtain ⟨_, w', returns, client⟩ := (hh.notify (c := c) (k := .preRollback) (w := w)).returns
      exact ⟨w', .inl ⟨client, Context.discharge_eq current coordinator returns fun e => by cases e⟩⟩
    | commit =>
      obtain ⟨failure, v, returns, hv⟩ := (hh.notify (c := c) (k := .preCommit) (w := w)).returns
      cases failure with
      | none =>
        exact ⟨v, .inl ⟨hv, Context.discharge_eq current coordinator returns fun _ => rfl⟩⟩
      | some f =>
        obtain ⟨_, w', returns', hw⟩ := (hh.notify (c := c) (k := .preRollback) (w := v)).returns
        rw [hv] at hw
        refine ⟨w'.on (·.addCompletion), .inr ⟨f, rfl, congrArg Client.addCompletion hw, ?_⟩⟩
        rw [← after_eq, Context.discharge, after_bind, Act.after_context, current, coordinator]
        simp only [after_bind]
        refine after_of_eq returns ?_
        simp only [after_bind, after_discard]
        refine after_of_eq returns' ?_
        simp only [Act.after_newCompletion, hw]
        exact after_eq.2 rfl

end Host.Contained

/-! ### A round that is cut short -/

variable {earlier rest : List Nat} {failure : Option Failure} {v v' : World ε κ} {f : Failure} {e : Halt}

theorem notifyEach_append : Context.notifyEach h k failure (earlier ++ rest) = (do
    Context.notifyEach h k (← Context.notifyEach h k failure earlier) rest) := by
  induction earlier generalizing failure with
  | nil => rfl
  | cons consumer earlier ih =>
    simp only [List.cons_append, Context.notifyEach, ih, bind_assoc]
    refine bind_congr fun outcome => ?_
    cases outcome with
    | ok => rfl
    | error f => exact (bind_assoc ..).symm

/-- **A round of hooks is cut short** where the first one to raise has raised what cannot be reported. Nobody
after it is called, and the round raises in its turn. -/
theorem notifyEach_cut (before : Context.notifyEach h k none earlier w = .ok none v)
    (raises : h.hook c k v = .error (.raised f) v') (hf : f.toReport? = none) :
    Context.notifyEach h k none (earlier ++ c :: rest) w =
      .error (.raised Problem.noText.toFailure) v' := by
  rw [notifyEach_append, ← after_eq, after_bind]
  refine after_of_eq before ?_
  simp only [Context.notifyEach, after_bind, after_attempt]
  unfold After
  rw [raises]
  simp only [first_none, convert_eq_refuse hf]
  rfl

/-- A discharge whose last round of hooks raises is told to nobody, and its consumers and producers stay
enrolled. -/
theorem resolve_discharging_cut {id : Nat} {q : Token κ} {r : Resolution Unit} (hw : w.client.Pending id)
    (cut : Context.notify h c (if commit then .postCommit else .postRollback)
      (w.on fun x => (x.write id (.settled r)).changeContext c (·.cleared)) = .error e v) :
    (Token.discharging id c commit q).resolve h r w = .error e v := by
  unfold Token.resolve Context.conclude
  rw [← after_eq]
  simp only [after_bind, Act.after_settle hw, Act.after_reset, after_discard]
  show After (Context.notify h c (if commit then .postCommit else .postRollback))
    (w.on fun x => (x.write id (.settled r)).changeContext c (·.cleared)) _ _
  unfold After
  rw [cut]

end

/-! ### Every run -/

namespace Adversary

open Player

variable {session : SessionId} {transactions : List TransactionId} {moves : List (Move Call)}
  {later earlier : List Entry} {e : Entry}

/-- **A transaction that has ended has called its hooks,** each on everyone who was enrolled, in the order
in which they were first enrolled, and on what was enrolled last under each name; whichever of them have
raised. Nobody is enrolled any more when whoever asked for the end is told, and in a tame run everybody
has been told. -/
theorem run_hooks (civil : ∀ m ∈ moves, m.Civil)
    (h : history session transactions moves = later ++ e :: earlier) (ho : e.event.isOutlook) :
    (course earlier).Conducted e.client ∧
      ((∀ m ∈ moves, m.Tame Call.Tame) → (e.client.context 0).stage = .idle →
        ∀ id ∈ handed earlier, e.client.Settled id) ∧
      ∀ {ε κ : Type} (host : Host ε κ), host.Contained → host.Forwards := by
  have founded : Lawful (Entry.Founded .civil) (history session transactions moves) :=
    run_founded civil
  refine ⟨(h ▸ founded).good.conducted ho trivial, fun ht idle => ?_, fun host hh => hh.forwards⟩
  have lawful : Lawful (Entry.Good .tame) (history session transactions moves) := run_lawful ht
  obtain ⟨-, good⟩ := (h ▸ lawful).good
  have progress : InProgress e.client earlier := by
    obtain ⟨event, x⟩ := e
    cases event with
    | returned => exact (good.2 trivial).2
    | resolved => exact good.2 trivial
    | _ => cases ho
  exact (progress.resting (.inl idle)).2

/-- Two consumers are enrolled, the first one once more with another object, and the second one fails to
prepare for the commit. Later each of them raises once more. -/
example :
    let enrol (link consumer : Nat) : Move Call :=
      .call (.signal (.enrolConsumer ⟨.consumer, ⟨"c", .ofNat 1⟩, .ofNat link⟩ consumer))
    let raises : Move Call := .refuse (Problem.sendFailed.toFailure none)
    (course (history ⟨"c", .ofNat 1⟩ [default] [.call (.request (.begin 0) none), .yield,
      .call (.signal (.opened 0)), .yield, .call (.signal (.settled 0 0 (.declared (some ⟨[1]⟩)))), .yield,
      enrol 1 7, enrol 2 8, enrol 1 9, .call (.request (.finish .commit ⟨0, false⟩) none), .yield, raises,
      raises, .yield, .yield, .call (.signal (.settled 0 1 .accepted)), .yield, raises, .yield])).calls =
      [⟨.preCommit, 9, false⟩, ⟨.preCommit, 8, false⟩, ⟨.preRollback, 9, false⟩,
        ⟨.preRollback, 8, false⟩, ⟨.postRollback, 9, true⟩, ⟨.postRollback, 8, true⟩] := by
  decide +kernel

end Adversary

end Transact
