import Transact.Client.Context
import Transact.Proofs.Outcome

/-! # The tables, one change at a time

Every act of a client is made of a few changes of its tables. Each has a name here, as a function on
clients, and a rule that says what holds after it. -/

namespace Transact

variable {ε κ α : Type}

/-- The completion that a token tells in the end. -/
def Token.completion : Token κ → Nat
  | client id _ => id
  | instead _ _ request | discharging _ _ _ request | declaring _ _ _ request
  | opening _ _ _ _ _ request => request.completion

/-- A resolution is a success, or a failure of this kind. -/
def Resolution.Fits (r : Resolution Unit) : Option FailureKind → Prop
  | none => r = .succeeded ()
  | some kind => ∃ f, r = .failed f ∧ f.kind? = some kind

/-- No illegal state is reported. -/
def Failure.Legal (f : Failure) : Prop := f.kind? ≠ some .illegalState

/-- If this is a failure, it is one that the library reports. -/
def Resolution.Legal (r : Resolution Unit) : Prop := ∀ f, r = .failed f → f.Legal

namespace Link

theorem dischargeResolution_legal {tx : TransactionId} {commit : Bool} {s : Settlement} :
    (dischargeResolution tx commit s).Legal := by
  cases s with
  | accepted => exact nofun
  | rejected => cases commit <;> (rintro _ ⟨rfl⟩; exact nofun)
  | _ => rintro _ ⟨rfl⟩; exact nofun

end Link

theorem Resolution.legal_succeeded : Resolution.Legal (.succeeded ()) := nofun

theorem Failure.Legal.failed {f : Failure} (h : f.Legal) : Resolution.Legal (.failed f) := by
  rintro _ ⟨rfl⟩
  exact h

theorem Resolution.Legal.instead {r : Resolution Unit} {f : Failure} (h : r.Legal) (hf : f.Legal) :
    Resolution.Legal (.failed (r.cause?.getD f)) := by
  refine Failure.Legal.failed ?_
  cases r with
  | succeeded => exact hf
  | failed g => exact h g rfl

/-! ### Changes -/

namespace Client

variable (x : Client κ)

/-- The entry of a table, or one that says nothing. -/
def link (l : Nat) : Link κ := x.links[l]?.getD default

/-- The context of this number. -/
def context (c : Nat) : Context := x.contexts[c]?.getD default

/-- The transaction of this number. -/
def transaction (t : Nat) : Transaction := x.transactions[t]?.getD default

/-- A link is changed. -/
def changeLink (l : Nat) (f : Link κ → Link κ) : Client κ := { x with links := x.links.modify l f }

/-- A context is changed. -/
def changeContext (c : Nat) (f : Context → Context) : Client κ :=
  { x with contexts := x.contexts.modify c f }

/-- A transaction is given another name, or none. -/
def writeHint (t : Nat) (hint : Option TxnId) : Client κ :=
  { x with transactions := x.transactions.modify t fun entry => { entry with hint } }

/-- The status of a completion is replaced. -/
def write (id : Nat) (s : Status Unit) : Client κ :=
  { x with completions := x.completions.setIfInBounds id s }

/-- A completion is made. -/
def addCompletion : Client κ := { x with completions := x.completions.push .pending }

/-- A completion that is settled from the start. -/
def addSettled (r : Resolution Unit) : Client κ :=
  { x with completions := x.completions.push (.settled r) }

/-- A transaction is made. -/
def addTransaction (id : TransactionId) : Client κ :=
  { x with transactions := x.transactions.push { id } }

/-- A context is made. -/
def addContext (session : SessionId) : Client κ :=
  { x with contexts := x.contexts.push { session } }

/-- A link is made. -/
def addLink (name : String) : Client κ := { x with links := x.links.push { name } }

/-- An aggregate is made. -/
def addAggregate (a : Aggregate κ) : Client κ := { x with aggregates := x.aggregates.push a }

/-- An aggregate has counted. -/
def changeAggregate (a : Nat) (sends : Aggregation) : Client κ :=
  { x with aggregates := x.aggregates.modify a fun entry => { entry with sends } }

/-- Whether a link is there and has closed. -/
def Closed (l : Nat) : Prop := ∃ k, x.links[l]? = some k ∧ k.state = .closed

/-- The completion is there and was not settled. -/
def Pending (id : Nat) : Prop := x.completions[id]? = some .pending

/-- The completion was settled. -/
def Settled (id : Nat) : Prop := ∃ r, x.completions[id]? = some (.settled r)

variable {x}

theorem link_eq {l : Nat} {k : Link κ} (h : x.links[l]? = some k) : x.link l = k := by
  simp [link, h]

theorem context_eq {c : Nat} {k : Context} (h : x.contexts[c]? = some k) : x.context c = k := by
  simp [context, h]

theorem changeContext_same {c : Nat} {f : Context → Context} {k : Context}
    (h : x.contexts[c]? = some k) : (x.changeContext c f).contexts[c]? = some (f k) := by
  simp [changeContext, Array.getElem?_modify, h]

theorem context_changeContext {c : Nat} {f : Context → Context} (h : f default = default) :
    (x.changeContext c f).context c = f (x.context c) := by
  cases hk : x.contexts[c]? with
  | none => simp [context, changeContext, Array.getElem?_modify, hk, h]
  | some k => rw [context_eq (changeContext_same hk), context_eq hk]

theorem changeContext_changeContext {c : Nat} {f g : Context → Context} :
    (x.changeContext c f).changeContext c g = x.changeContext c fun k => g (f k) := by
  have e : (x.contexts.modify c f).modify c g = x.contexts.modify c fun k => g (f k) := by
    refine Array.ext_getElem? fun i => ?_
    by_cases hi : c = i <;> simp [Array.getElem?_modify, Function.comp_def, hi]
  simp [changeContext, e]

theorem changeLink_changeLink {l : Nat} {f g : Link κ → Link κ} :
    (x.changeLink l f).changeLink l g = x.changeLink l fun k => g (f k) := by
  have e : (x.links.modify l f).modify l g = x.links.modify l fun k => g (f k) := by
    refine Array.ext_getElem? fun i => ?_
    by_cases hi : l = i <;> simp [Array.getElem?_modify, Function.comp_def, hi]
  simp [changeLink, e]

theorem changeLink_same {l : Nat} {f : Link κ → Link κ} {k : Link κ} (h : x.links[l]? = some k) :
    (x.changeLink l f).links[l]? = some (f k) := by
  simp [changeLink, Array.getElem?_modify, h]

theorem changeLink_other {l i : Nat} {f : Link κ → Link κ} (h : i ≠ l) :
    (x.changeLink l f).links[i]? = x.links[i]? := by
  simp [changeLink, Array.getElem?_modify, Ne.symm h]

theorem addLink_new {name : String} : (x.addLink name).links[x.links.size]? = some { name } := by
  simp [addLink]

theorem addLink_old {name : String} {i : Nat} (h : i ≠ x.links.size) :
    (x.addLink name).links[i]? = x.links[i]? := by
  rw [addLink, Array.getElem?_push, if_neg h]

/-- A change that leaves the one link as it is changes nothing. -/
theorem changeLink_self {l : Nat} {f : Link κ → Link κ} (h : ∀ k, x.links[l]? = some k → f k = k) :
    x.changeLink l f = x := by
  have e : x.links.modify l f = x.links := by
    refine Array.ext_getElem? fun i => ?_
    rw [Array.getElem?_modify]
    by_cases hi : l = i
    · subst hi
      cases hk : x.links[l]? with
      | none => simp
      | some k => simp [h k hk]
    · simp [hi]
  simp [changeLink, e]

theorem link_absent {l : Nat} (h : x.links[l]? = none) : x.link l = default := by
  simp [link, h]

theorem changeLink_absent {l : Nat} {f : Link κ → Link κ} (h : x.links[l]? = none) :
    x.changeLink l f = x :=
  changeLink_self fun k e => by simp [h] at e

theorem hint_writeHint {t : Nat} {hint : Option TxnId} :
    ((x.writeHint t hint).transaction t).hint = hint ∨
      ((x.writeHint t hint).transaction t).hint = none := by
  unfold transaction writeHint
  cases h : x.transactions[t]? with
  | none =>
    refine .inr ?_
    simp only [Array.getElem?_modify, h, Option.map_none, ite_self]
    rfl
  | some entry => exact .inl (by simp [Array.getElem?_modify, h])

theorem hint_writeHint_same {t : Nat} {hint : Option TxnId} (h : t < x.transactions.size) :
    ((x.writeHint t hint).transaction t).hint = hint := by
  simp [transaction, writeHint, Array.getElem?_modify, Array.getElem?_eq_getElem h]

theorem lt_of_hint {t : Nat} {y : TxnId} (h : (x.transaction t).hint = some y) :
    t < x.transactions.size := by
  refine Nat.lt_of_not_le fun le => ?_
  rw [transaction, Array.getElem?_eq_none le] at h
  cases h

variable {id i : Nat} {r : Resolution Unit}

theorem Pending.lt (h : x.Pending id) : id < x.completions.size :=
  (Array.getElem?_eq_some_iff.1 h).1

theorem Pending.not_settled (h : x.Pending id) : ¬ x.Settled id := by
  rintro ⟨r, hr⟩
  cases h.symm.trans hr

theorem pending_or_settled (h : id < x.completions.size) : x.Pending id ∨ x.Settled id := by
  have e := Array.getElem?_eq_getElem h
  cases hs : x.completions[id] with
  | pending => exact .inl (e.trans (congrArg some hs))
  | settled r => exact .inr ⟨r, e.trans (congrArg some hs)⟩

theorem settled_write (h : id < x.completions.size) : (x.write id (.settled r)).Settled id :=
  ⟨r, by simp [write, h]⟩

theorem settled_write_iff (h : id < x.completions.size) :
    (x.write id (.settled r)).Settled i ↔ i = id ∨ x.Settled i := by
  by_cases hi : id = i
  · subst hi
    exact ⟨fun _ => .inl rfl, fun _ => settled_write h⟩
  · simp [Settled, write, hi, Ne.symm hi]

theorem pending_write : (x.write id (.settled r)).Pending i ↔ x.Pending i ∧ i ≠ id := by
  unfold Pending write
  rw [Array.getElem?_setIfInBounds]
  by_cases h : id = i
  · subst h
    by_cases hs : id < x.completions.size <;> simp [hs]
  · simp [h, Ne.symm h]

theorem pending_addCompletion :
    x.addCompletion.Pending i ↔ x.Pending i ∨ i = x.completions.size := by
  unfold Pending addCompletion
  rw [Array.getElem?_push]
  by_cases h : i = x.completions.size <;> simp [h]

theorem write_addCompletion :
    x.addCompletion.write x.completions.size (.settled r) = x.addSettled r := by
  have same : (x.completions.push .pending).setIfInBounds x.completions.size (.settled r) =
      x.completions.push (.settled r) := by
    refine Array.ext_getElem? fun i => ?_
    rw [Array.getElem?_setIfInBounds, Array.getElem?_push, Array.getElem?_push, Array.size_push]
    by_cases e : i = x.completions.size
    · subst e
      simp
    · simp [e, Ne.symm e]
  rw [write, addCompletion, same, addSettled]

theorem addSettled_new : (x.addSettled r).completions[x.completions.size]? = some (.settled r) := by
  simp [addSettled]

theorem settled_addCompletion : x.addCompletion.Settled i ↔ x.Settled i := by
  unfold Settled addCompletion
  rw [Array.getElem?_push]
  by_cases h : i = x.completions.size
  · subst h
    simp
  · simp [h]

end Client

/-! ### What never goes back -/

/-- From `x` to `x'` no settled completion became pending again, no closed link came back, and no
delivery number was taken back. -/
structure Client.Grows (x x' : Client κ) : Prop where
  settled : ∀ id, x.Settled id → x'.Settled id
  link : ∀ (l : Nat) (k : Link κ), x.links[l]? = some k → ∃ k', x'.links[l]? = some k' ∧
    (k.state = .closed → k'.state = .closed) ∧ k.nextDelivery ≤ k'.nextDelivery

namespace Client.Grows

variable {x y z : Client κ}

theorem of_eq (hc : y.completions = x.completions) (hl : y.links = x.links) : x.Grows y where
  settled id h := by unfold Settled; rw [hc]; exact h
  link l k h := ⟨k, by rw [hl]; exact h, id, Nat.le_refl _⟩

theorem refl (x : Client κ) : x.Grows x := of_eq rfl rfl

theorem trans (h : x.Grows y) (h' : y.Grows z) : x.Grows z where
  settled id hs := h'.settled id (h.settled id hs)
  link l k hk := by
    obtain ⟨k', hk', hc, hd⟩ := h.link l k hk
    obtain ⟨k'', hk'', hc', hd'⟩ := h'.link l k' hk'
    exact ⟨k'', hk'', fun e => hc' (hc e), Nat.le_trans hd hd'⟩

theorem closed (h : x.Grows y) {l : Nat} (hl : x.Closed l) : y.Closed l := by
  obtain ⟨k, hk, hc⟩ := hl
  obtain ⟨k', hk', hc', -⟩ := h.link l k hk
  exact ⟨k', hk', hc' hc⟩

theorem changeLink {l : Nat} {f : Link κ → Link κ}
    (hs : ∀ k, k.state = .closed → (f k).state = .closed)
    (hd : ∀ k, k.nextDelivery ≤ (f k).nextDelivery) : x.Grows (x.changeLink l f) where
  settled _ h := h
  link i k h := by
    by_cases hi : l = i
    · subst hi
      exact ⟨f k, by simp [Client.changeLink, Array.getElem?_modify, h], hs k, hd k⟩
    · exact ⟨k, by simp [Client.changeLink, Array.getElem?_modify, h, hi], id, Nat.le_refl _⟩

theorem write {id : Nat} {r : Resolution Unit} : x.Grows (x.write id (.settled r)) where
  settled i h := by
    obtain ⟨r', h⟩ := h
    by_cases hi : id = i
    · subst hi
      have := (Array.getElem?_eq_some_iff.1 h).1
      exact ⟨r, by simp [Client.write, this]⟩
    · exact ⟨r', by simp [Client.write, hi, h]⟩
  link l k h := ⟨k, h, fun e => e, Nat.le_refl _⟩

theorem addCompletion : x.Grows x.addCompletion where
  settled i h := by
    obtain ⟨r, h⟩ := h
    have := (Array.getElem?_eq_some_iff.1 h).1
    exact ⟨r, (Array.getElem?_push_lt this).trans ((Array.getElem?_eq_getElem this).symm.trans h)⟩
  link l k h := ⟨k, h, fun e => e, Nat.le_refl _⟩

end Client.Grows

namespace Context

/-- What a reset leaves of a context. -/
def cleared (k : Context) : Context :=
  { k with stage := .idle, current := none, accepted := none, enrolled := none }

/-- What the end of a transaction leaves of a context. -/
def concluded (k : Context) : Context := { k.cleared with registry := {} }

end Context

/-- Does something to the client of a world. -/
def World.on (w : World ε κ) (f : Client κ → Client κ) : World ε κ :=
  { w with client := f w.client }

theorem World.on_self {w : World ε κ} {f : Client κ → Client κ} (h : f w.client = w.client) :
    w.on f = w :=
  congrArg (fun c => { w with client := c }) h

/-! ### Rules -/

namespace Act

open Run

variable {w : World ε κ} {R : Halt → World ε κ → Prop}

@[simp]
theorem after_client {Q : Client κ → World ε κ → Prop} :
    After (client : Act ε κ (Client κ)) w Q R ↔ Q w.client w := Iff.rfl

@[simp]
theorem after_outside {Q : ε → World ε κ → Prop} :
    After (outside : Act ε κ ε) w Q R ↔ Q w.outside w := Iff.rfl

@[simp]
theorem after_link {l : Nat} {Q : Link κ → World ε κ → Prop} :
    After (link l : Act ε κ (Link κ)) w Q R ↔ Q (w.client.link l) w := Iff.rfl

@[simp]
theorem after_context {c : Nat} {Q : Context → World ε κ → Prop} :
    After (context c : Act ε κ Context) w Q R ↔ Q (w.client.context c) w := Iff.rfl

@[simp]
theorem after_transaction {t : Nat} {Q : Transaction → World ε κ → Prop} :
    After (transaction t : Act ε κ Transaction) w Q R ↔ Q (w.client.transaction t) w := Iff.rfl

@[simp]
theorem after_usableLink {c : Nat} {Q : Option Nat → World ε κ → Prop} :
    After (Context.usableLink c : Act ε κ (Option Nat)) w Q R ↔
      Q ((w.client.context c).coordinator.bind fun l =>
        if (w.client.link l).state = .closed then none else some l) w := by
  simp only [Context.usableLink, after_bind, after_context]
  cases (w.client.context c).coordinator <;> rfl

@[simp]
theorem after_currentId {c : Nat} {Q : Option TransactionId → World ε κ → Prop} :
    After (Context.currentId c : Act ε κ (Option TransactionId)) w Q R ↔
      Q ((w.client.context c).current.map fun t => (w.client.transaction t).id) w := by
  simp only [Context.currentId, after_bind, after_context]
  cases (w.client.context c).current <;> rfl

@[simp]
theorem after_isFailed {c : Nat} {Q : Bool → World ε κ → Prop} :
    After (Context.isFailed c : Act ε κ Bool) w Q R ↔
      Q ((w.client.context c).coordinator.any fun l => (w.client.link l).state = .closed) w := by
  simp only [Context.isFailed, after_bind, after_context]
  cases (w.client.context c).coordinator <;> rfl

variable {Q : Unit → World ε κ → Prop}

@[simp]
theorem after_modifyLink {l : Nat} {f : Link κ → Link κ} :
    After (modifyLink l f : Act ε κ Unit) w Q R ↔ Q () (w.on (·.changeLink l f)) := Iff.rfl

@[simp]
theorem after_modifyContext {c : Nat} {f : Context → Context} :
    After (modifyContext c f : Act ε κ Unit) w Q R ↔ Q () (w.on (·.changeContext c f)) := Iff.rfl

@[simp]
theorem after_reset {c : Nat} :
    After (Context.reset c : Act ε κ Unit) w Q R ↔ Q () (w.on (·.changeContext c (·.cleared))) :=
  Iff.rfl

@[simp]
theorem after_setHint {t : Nat} {hint : Option TxnId} :
    After (setHint t hint : Act ε κ Unit) w Q R ↔ Q () (w.on (·.writeHint t hint)) := Iff.rfl

@[simp]
theorem after_newCompletion {Q : Nat → World ε κ → Prop} :
    After (newCompletion : Act ε κ Nat) w Q R ↔
      Q w.client.completions.size (w.on (·.addCompletion)) := Iff.rfl

@[simp]
theorem after_newTransaction {id : TransactionId} {Q : Nat → World ε κ → Prop} :
    After (newTransaction id : Act ε κ Nat) w Q R ↔
      Q w.client.transactions.size (w.on (·.addTransaction id)) := Iff.rfl

@[simp]
theorem after_newContext {session : SessionId} {Q : Nat → World ε κ → Prop} :
    After (newContext session : Act ε κ Nat) w Q R ↔
      Q w.client.contexts.size (w.on (·.addContext session)) := Iff.rfl

@[simp]
theorem after_newLink {name : String} {Q : Nat → World ε κ → Prop} :
    After (newLink name : Act ε κ Nat) w Q R ↔
      Q w.client.links.size (w.on (·.addLink name)) := Iff.rfl

@[simp]
theorem after_newAggregate {a : Aggregate κ} {Q : Nat → World ε κ → Prop} :
    After (newAggregate a : Act ε κ Nat) w Q R ↔
      Q w.client.aggregates.size (w.on (·.addAggregate a)) := Iff.rfl

theorem after_changeAggregate {a : Nat} {sends : Aggregation} :
    After (Act.modifyClient fun x => { x with
        aggregates := x.aggregates.modify a fun entry => { entry with sends } } : Act ε κ Unit) w Q R ↔
      Q () (w.on (·.changeAggregate a sends)) := Iff.rfl

theorem after_settle_unsettled {id : Nat} {r : Resolution Unit} (h : ¬ w.client.Settled id) :
    After (settle id r : Act ε κ Unit) w Q R ↔ Q () (w.on (·.write id (.settled r))) := by
  have e : (status id : Act ε κ (Status Unit)) w = .ok .pending w := by
    show EStateM.Result.ok (w.client.completions[id]?.getD .pending) w = _
    cases hs : w.client.completions[id]? with
    | none => rfl
    | some s =>
      cases s with
      | pending => rfl
      | settled r => exact absurd ⟨r, hs⟩ h
  unfold After settle
  simp only [bind, EStateM.bind, e]
  rfl

theorem after_settle {id : Nat} {r : Resolution Unit} (h : w.client.Pending id) :
    After (settle id r : Act ε κ Unit) w Q R ↔ Q () (w.on (·.write id (.settled r))) :=
  after_settle_unsettled h.not_settled

/-- A completion that was settled before is refused, and nothing changes. -/
theorem after_settle_again {id : Nat} {r first : Resolution Unit}
    (h : w.client.completions[id]? = some (.settled first)) :
    After (settle id r : Act ε κ Unit) w Q R ↔
      R (.raised (Problem.alreadySettled first.word).toFailure) w := by
  have e : (status id : Act ε κ (Status Unit)) w = .ok (.settled first) w := by
    show EStateM.Result.ok (w.client.completions[id]?.getD .pending) w = _
    rw [h]
    rfl
  unfold After settle
  simp only [bind, EStateM.bind, e]
  rfl

theorem after_settle_settled {id : Nat} {r : Resolution Unit} (h : w.client.Settled id) :
    ∃ p : Problem, ∀ (Q : Unit → World ε κ → Prop) (R : Halt → World ε κ → Prop),
      After (settle id r : Act ε κ Unit) w Q R ↔ R (.raised p.toFailure) w := by
  obtain ⟨first, h⟩ := h
  exact ⟨.alreadySettled first.word, fun _ _ => after_settle_again h⟩

end Act

end Transact
