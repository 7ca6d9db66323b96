import Transact.Proofs.Client.Tables

/-! # Closing with exchanges outstanding

A link that closes is marked as closed first, with nothing outstanding any more, and then those who were
waiting are told one after the other. Whoever raises when told keeps those behind from being told. They
are not told later either: a link that is spent stays so, and nothing that happens to it has any effect.

* `failAll_halts_iff`: telling ends with the first who halts, whoever comes behind.
* `shut_halts`: so does the closure of a link, from either side, and leaves a spent link.
* `Spent.still`: nothing happens on a spent link.
* `Host.Respects`: if the surroundings leave a spent link as it is, so does all that a client can do. -/

namespace Transact

open Run

/-! ### What is preserved -/

namespace Run

variable {σ α β : Type} {P : σ → Prop} {x : Run σ α} {f : α → Run σ β}

/-- What holds before holds afterwards, whether it returns or halts. -/
def Preserves (P : σ → Prop) (x : Run σ α) : Prop :=
  ∀ s, P s → After x s (fun _ => P) fun _ => P

namespace Preserves

theorem pure {a : α} : Preserves P (Pure.pure a : Run σ α) := fun _ => id

theorem raise {g : Failure} : Preserves P (Run.raise g : Run σ α) := fun _ => id

theorem refuse {p : Problem} : Preserves P (Run.refuse p : Run σ α) := fun _ => id

theorem convert {g : Failure} : Preserves P (Run.convert g : Run σ Failure) := by
  unfold Run.convert
  cases g.toReport? <;> exact fun _ => id

theorem first {report : Option Failure} {g : Failure} :
    Preserves P (Run.first report g : Run σ Failure) := by
  cases report with
  | none => exact convert
  | some => exact pure

theorem exhausted : Preserves P (Run.exhausted : Run σ α) := fun _ => id

theorem bind (hx : Preserves P x) (hf : ∀ a, Preserves P (f a)) : Preserves P (x >>= f) :=
  fun s hs => after_bind.2 ((hx s hs).mono (fun a t => hf a t) fun _ _ => id)

theorem discard (hx : Preserves P x) : Preserves P (Functor.discard x) :=
  fun s hs => after_discard.2 (hx s hs)

theorem attempt (hx : Preserves P x) : Preserves P (Run.attempt x) := by
  refine fun s hs => after_attempt.2 ((hx s hs).mono (fun _ _ => id) fun e t ht => ?_)
  cases e with
  | raised => exact ht
  | exhausted => exact ht

theorem forM {xs : List β} {g : β → Run σ PUnit} (hg : ∀ b, Preserves P (g b)) :
    Preserves P (xs.forM g) := by
  induction xs with
  | nil => exact pure
  | cons b rest ih => exact (hg b).bind fun _ => ih

end Preserves

end Run

section
variable {ε κ : Type} {h : Host ε κ} {l : Nat} {cause : Failure} {w v : World ε κ}
  {rest waiting : List (Nat × Exchange κ)} {d : Nat} {e : Exchange κ} {k : Link κ} {halt : Halt}

namespace Link

/-! ### Who is told -/

theorem failAll_cons : failAll h cause ((d, e) :: rest) w =
    match e.request.resolve h (.failed cause) w with
    | .ok _ u => failAll h cause rest u
    | .error halt v => .error halt v := by
  rw [failAll]
  simp only [bind, EStateM.bind]
  cases e.request.resolve h (.failed cause) w <;> rfl

/-- **Telling ends with the first who halts.** Nothing is said to those behind, whoever they are. -/
theorem failAll_halts_iff : failAll h cause waiting w = .error halt v ↔
    ∃ before d e rest u, waiting = before ++ (d, e) :: rest ∧ failAll h cause before w = .ok () u ∧
      e.request.resolve h (.failed cause) u = .error halt v := by
  induction waiting generalizing w with
  | nil => exact ⟨nofun, fun ⟨_, _, _, _, _, no, _⟩ => absurd no (by simp)⟩
  | cons x waiting ih =>
    obtain ⟨d, e⟩ := x
    rw [failAll_cons]
    cases first : e.request.resolve h (.failed cause) w with
    | error halt' v' =>
      constructor
      · intro same
        exact ⟨[], d, e, waiting, w, rfl, rfl, first.trans same⟩
      · rintro ⟨before, d', e', rest, u, split, told, halts⟩
        cases before with
        | nil =>
          cases told
          cases split
          exact first.symm.trans halts
        | cons y before =>
          cases split
          rw [failAll_cons, first] at told
          cases told
    | ok _ u₀ =>
      show failAll h cause waiting u₀ = .error halt v ↔ _
      rw [ih]
      constructor
      · rintro ⟨before, d', e', rest, u, rfl, told, halts⟩
        refine ⟨(d, e) :: before, d', e', rest, u, rfl, ?_, halts⟩
        rw [failAll_cons, first]
        exact told
      · rintro ⟨before, d', e', rest, u, split, told, halts⟩
        cases before with
        | nil =>
          cases told
          cases split
          cases first.symm.trans halts
        | cons y before =>
          cases split
          rw [failAll_cons, first] at told
          exact ⟨before, d', e', rest, u, rfl, told, halts⟩

/-! ### The closure of a link -/

/-- What the closure of a link leaves of it. -/
def emptied (k : Link κ) : Link κ := { k with state := .closed, opening := none, pending := [] }

theorem shut_eq (hk : w.client.links[l]? = some k) (opened : k.opening = none) :
    shut h l cause w = failAll h cause k.pending (w.on (·.changeLink l emptied)) := by
  have closed : (w.on (·.changeLink l fun k => { k with state := .closed, opening := none })).client.link l =
      { k with state := .closed, opening := none } := Client.link_eq (Client.changeLink_same hk)
  have merged : (w.on (·.changeLink l fun k => { k with state := .closed, opening := none })).on
      (·.changeLink l fun k => { k with pending := [] }) = w.on (·.changeLink l emptied) := by
    have client : (w.client.changeLink l fun k => { k with state := .closed, opening := none }).changeLink l
        (fun k => { k with pending := [] }) = w.client.changeLink l emptied := Client.changeLink_changeLink
    exact congrArg (fun client : Client κ => { w with client }) client
  rw [← after_eq, shut, after_bind, Act.after_link, Client.link_eq hk, opened]
  simp only [after_bind, Act.after_modifyLink, Act.after_link, closed, merged]
  exact after_eq.2 rfl

/-! ### Spent links -/

/-- A link has closed, and nothing is outstanding on it. -/
def Spent (l : Nat) (w : World ε κ) : Prop :=
  ∃ k, w.client.links[l]? = some k ∧ k.state = .closed ∧ k.pending = []

theorem spent_emptied (hk : w.client.links[l]? = some k) : Spent l (w.on (·.changeLink l emptied)) :=
  ⟨emptied k, Client.changeLink_same hk, rfl, rfl⟩

/-- **Nothing happens on a spent link.** It has no more events, and closing it again does nothing. -/
theorem Spent.still {error : Option Condition} {settlement : Settlement} (hs : Spent l w) :
    opened h l w = .ok () w ∧ closed h l error w = .ok () w ∧ close h l w = .ok () w ∧
      settled h l d settlement w = .ok () w := by
  obtain ⟨k, hk, state, pending⟩ := hs
  have link : w.client.link l = k := Client.link_eq hk
  refine ⟨?_, ?_, ?_, ?_⟩
  · rw [← after_eq, Link.opened, after_bind, Act.after_link, link, if_pos (by rw [state]; exact nofun)]
    rfl
  · rw [← after_eq, Link.closed, after_bind, Act.after_link, link, if_pos state]
    rfl
  · rw [← after_eq, close, after_bind, Act.after_link, link, if_pos state]
    rfl
  · rw [← after_eq, settled, after_bind, Act.after_link, link, pending]
    rfl

theorem Spent.changeLink {i : Nat} {g : Link κ → Link κ} (hs : Spent l w)
    (hg : ∀ k, k.state = .closed → k.pending = [] → (g k).state = .closed ∧ (g k).pending = []) :
    Spent l (w.on (·.changeLink i g)) := by
  obtain ⟨k, hk, state, pending⟩ := hs
  by_cases hi : l = i
  · subst hi
    exact ⟨g k, Client.changeLink_same hk, hg k state pending⟩
  · exact ⟨k, (Client.changeLink_other hi).trans hk, state, pending⟩

theorem Spent.ne_of_open {i : Nat} (hs : Spent l w) (open_ : (w.client.link i).state ≠ .closed) :
    i ≠ l := by
  rintro rfl
  obtain ⟨k, hk, state, -⟩ := hs
  exact open_ (by rw [Client.link_eq hk, state])

end Link

/-! ### What foreign code does to a spent link -/

open Link

/-- The surroundings leave a spent link as it is. -/
structure Host.Respects (h : Host ε κ) (l : Nat) : Prop where
  attach : ∀ name i, Preserves (Spent l) (h.attach name i)
  send : ∀ sender delivery request, Preserves (Spent l) (h.send sender delivery request)
  detach : ∀ sender, Preserves (Spent l) (h.detach sender)
  hook : ∀ consumer hook, Preserves (Spent l) (h.hook consumer hook)
  resume : ∀ continuation r, Preserves (Spent l) (h.resume continuation r)

namespace Link

theorem preserves_modifyLink {i : Nat} {g : Link κ → Link κ}
    (hg : ∀ k, k.state = .closed → k.pending = [] → (g k).state = .closed ∧ (g k).pending = []) :
    Preserves (Spent l) (Act.modifyLink i g : Act ε κ Unit) := fun _ hs => hs.changeLink hg

theorem preserves_settle {id : Nat} {r : Resolution Unit} :
    Preserves (Spent l) (Act.settle id r : Act ε κ Unit) := by
  unfold Act.settle
  refine .bind (fun _ hs => hs) fun status => ?_
  cases status.settle r with
  | error p => exact .refuse
  | ok s => exact fun _ hs => hs

theorem preserves_newLink {name : String} : Preserves (Spent l) (Act.newLink name : Act ε κ Nat) := by
  rintro w ⟨k, hk, closed⟩
  have old : l ≠ w.client.links.size := by
    rintro rfl
    simp at hk
  exact ⟨k, (Client.addLink_old old).trans hk, closed⟩

theorem dropped {i : Nat} (k : Link κ) (state : k.state = .closed) (pending : k.pending = []) :
    ({ k with pending := k.pending.filter (·.1 ≠ i) } : Link κ).state = .closed ∧
      ({ k with pending := k.pending.filter (·.1 ≠ i) } : Link κ).pending = [] :=
  ⟨state, by rw [pending]; rfl⟩

variable (respects : h.Respects l)

include respects

theorem transmit_preserves {i : Nat} {request : Request} {fail : Failure → Act ε κ Unit}
    (hf : ∀ f, Preserves (Spent l) (fail f)) : Preserves (Spent l) (transmit h i request e fail) := by
  intro w hs
  unfold transmit
  rw [after_bind, Act.after_link]
  split
  · next sender state _ =>
    -- The link on which it is sent is open, so that it is another one.
    have other : i ≠ l := hs.ne_of_open (by rw [state]; exact nofun)
    have sent : Spent l (w.on (·.changeLink i fun k => { k with
        nextDelivery := (w.client.link i).nextDelivery + 1
        pending := k.pending ++ [((w.client.link i).nextDelivery, e)] })) := by
      obtain ⟨k, hk, closed⟩ := hs
      exact ⟨k, (Client.changeLink_other (Ne.symm other)).trans hk, closed⟩
    rw [after_bind, Act.after_modifyLink]
    refine Preserves.bind (Preserves.attempt (respects.send _ _ _)) (fun result => ?_) _ sent
    cases result with
    | ok => exact .pure
    | error => exact .bind (preserves_modifyLink dropped) fun _ => .bind .convert fun _ => hf _
  · exact hf _ w hs

end Link

namespace Context

variable {c : Nat}

variable (respects : h.Respects l)

include respects

theorem notify_preserves {k : Hook} : Preserves (Spent l) (notify h c k) := by
  have each (failure : Option Failure) (consumers : List Nat) :
      Preserves (Spent l) (notifyEach h k failure consumers) := by
    induction consumers generalizing failure with
    | nil => exact .pure
    | cons consumer rest ih =>
      refine .bind (.attempt (respects.hook _ _)) fun result => ?_
      cases result with
      | ok => exact ih _
      | error => exact .bind .first fun _ => ih _
  exact .bind (fun _ hs => hs) fun _ => each _ _

theorem conclude_preserves {commit : Bool} : Preserves (Spent l) (conclude h c commit) :=
  .bind (fun _ hs => hs) fun _ => .bind (.discard (notify_preserves respects)) fun _ _ hs => hs

end Context

theorem Token.resolve_preserves (respects : h.Respects l) {q : Token κ} {r : Resolution Unit} :
    Preserves (Spent l) (q.resolve h r) := by
  induction q generalizing r with
  | client => exact preserves_settle.bind fun _ => respects.resume _ _
  | «instead» _ _ _ ih => exact preserves_settle.bind fun _ => ih
  | discharging _ _ _ _ ih =>
    exact preserves_settle.bind fun _ => (Context.conclude_preserves respects).bind fun _ => ih
  | declaring id c t request ih =>
    unfold resolve
    refine preserves_settle.bind fun _ => ?_
    cases r with
    | failed => exact .bind (fun _ hs => hs) fun _ => ih
    | succeeded =>
      refine .bind (fun _ hs => hs) fun transaction => ?_
      cases transaction.hint with
      | none => exact .bind (fun _ hs => hs) fun _ => ih
      | some => exact .bind (fun _ hs => hs) fun _ => ih
  | opening id c t i next request ihn ihr =>
    unfold resolve
    refine preserves_settle.bind fun _ => ?_
    cases r with
    | failed => exact .bind (fun _ hs => hs) fun _ => ihr
    | succeeded => exact .bind (fun _ hs => hs) fun _ => transmit_preserves respects fun _ => ihn

namespace Link

variable {i t : Nat} {q : Token κ}

variable (respects : h.Respects l)

include respects

theorem establish_preserves : Preserves (Spent l) (establish h i q) := by
  refine .bind (fun _ hs => hs) fun link => ?_
  split
  · exact q.resolve_preserves respects
  refine .bind (preserves_modifyLink fun _ state pending => ⟨state, pending⟩) fun _ =>
    .bind (.attempt (respects.attach _ _)) fun result => ?_
  cases result with
  | ok => exact preserves_modifyLink fun _ state pending => ⟨state, pending⟩
  | error =>
    exact .bind (preserves_modifyLink fun _ _ pending => ⟨rfl, pending⟩) fun _ =>
      .bind .convert fun _ => q.resolve_preserves respects

theorem declare_preserves : Preserves (Spent l) (declare h i t q) :=
  transmit_preserves respects fun _ => q.resolve_preserves respects

theorem discharge_preserves {commit : Bool} : Preserves (Spent l) (discharge h i t q commit) := by
  refine .bind (fun _ hs => hs) fun transaction => ?_
  cases transaction.hint with
  | none => exact q.resolve_preserves respects
  | some => exact transmit_preserves respects fun _ => q.resolve_preserves respects

theorem failAll_preserves : Preserves (Spent l) (failAll h cause waiting) := by
  induction waiting with
  | nil => exact .pure
  | cons x rest ih => exact .bind (x.2.request.resolve_preserves respects) fun _ => ih

theorem shut_preserves : Preserves (Spent l) (shut h i cause) := by
  refine .bind (fun _ hs => hs) fun link =>
    .bind (preserves_modifyLink fun _ _ pending => ⟨rfl, pending⟩) fun _ => ?_
  have emptying : Preserves (Spent l) (do
      let outstanding := (← Act.link i).pending
      Act.modifyLink i fun k => { k with pending := [] }
      failAll h cause outstanding) :=
    .bind (fun _ hs => hs) fun _ => .bind (preserves_modifyLink fun _ state _ => ⟨state, rfl⟩) fun _ =>
      failAll_preserves respects
  cases link.opening with
  | none => exact emptying
  | some token => exact .bind (token.resolve_preserves respects) fun _ => emptying

/-- **The closure of a link ends with the first who halts.** Those behind are not told, whoever they are,
and nothing that happens on the link later tells them. -/
theorem shut_halts (hk : w.client.links[l]? = some k) (opened : k.opening = none)
    (halts : shut h l cause w = .error halt v) :
    (∃ before d e rest u, k.pending = before ++ (d, e) :: rest ∧
      failAll h cause before (w.on (·.changeLink l emptied)) = .ok () u ∧
      e.request.resolve h (.failed cause) u = .error halt v) ∧ Spent l v := by
  rw [shut_eq hk opened] at halts
  refine ⟨failAll_halts_iff.1 halts, ?_⟩
  have telling : Preserves (Spent l) (failAll h cause k.pending) := failAll_preserves respects
  have spent := telling _ (spent_emptied hk)
  unfold After at spent
  rw [halts] at spent
  exact spent

theorem close_preserves : Preserves (Spent l) (close h i) := by
  refine .bind (fun _ hs => hs) fun link => ?_
  split
  · exact .pure
  cases link.sender with
  | none => exact shut_preserves respects
  | some sender => exact .bind (respects.detach sender) fun _ => shut_preserves respects

theorem closed_preserves {error : Option Condition} : Preserves (Spent l) (closed h i error) := by
  refine .bind (fun _ hs => hs) fun link => ?_
  split
  · exact .pure
  · exact .bind (preserves_modifyLink fun _ state pending => ⟨state, pending⟩) fun _ =>
      shut_preserves respects

theorem opened_preserves : Preserves (Spent l) (opened h i) := by
  intro w hs
  unfold opened
  rw [after_bind, Act.after_link]
  split
  · exact hs
  next building =>
  have other : i ≠ l := hs.ne_of_open (by rw [Decidable.not_not.1 building]; exact nofun)
  have opened : Spent l (w.on (·.changeLink i fun k => { k with state := .opened, opening := none })) := by
    obtain ⟨k, hk, closed⟩ := hs
    exact ⟨k, (Client.changeLink_other (Ne.symm other)).trans hk, closed⟩
  rw [after_bind, Act.after_modifyLink]
  cases (w.client.link i).opening with
  | none => exact opened
  | some token => exact token.resolve_preserves respects _ opened

theorem settled_preserves {settlement : Settlement} :
    Preserves (Spent l) (settled h i d settlement) := by
  refine .bind (fun _ hs => hs) fun link => ?_
  cases link.pending.find? (·.1 = d) with
  | none => exact .pure
  | some x =>
    obtain ⟨_, exchange⟩ := x
    refine .bind (preserves_modifyLink dropped) fun _ => .bind (fun _ hs => hs) fun transaction => ?_
    cases exchange.discharge with
    | some => exact exchange.request.resolve_preserves respects
    | none =>
      cases settlement with
      | declared => exact .bind (fun _ hs => hs) fun _ => exchange.request.resolve_preserves respects
      | _ => exact exchange.request.resolve_preserves respects

end Link

namespace Context

variable {c t : Nat} {q : Token κ} {ending : Ending} {info : TransactionRef}

variable (respects : h.Respects l)

include respects

theorem begin_preserves : Preserves (Spent l) (begin h c t q) := by
  refine .bind (fun _ hs => hs) fun context => ?_
  show Preserves _ (if context.stage ≠ .idle then _ else _)
  split
  · exact q.resolve_preserves respects
  refine .bind (fun _ hs => hs) fun _ => .bind (fun _ hs => hs) fun id =>
    .bind (fun w hs => Act.after_usableLink.2 hs) fun usable => ?_
  cases usable with
  | some l => exact declare_preserves respects
  | none =>
    exact .bind (fun _ hs => hs) fun _ => .bind (fun _ hs => hs) fun context =>
      .bind preserves_newLink fun l => .bind (fun _ hs => hs) fun id => establish_preserves respects

theorem handOver_preserves {i : Nat} {commit : Bool} :
    Preserves (Spent l) (handOver h c t i commit q) :=
  .bind (fun _ hs => hs) fun _ => .bind (fun _ hs => hs) fun _ => Link.discharge_preserves respects

theorem discharge_preserves : Preserves (Spent l) (discharge h c ending q) := by
  refine .bind (fun _ hs => hs) fun context => ?_
  cases context.current with
  | none => exact q.resolve_preserves respects
  | some t =>
    cases context.coordinator with
    | none => exact q.resolve_preserves respects
    | some i =>
      cases ending with
      | rollback =>
        exact .bind (.discard (notify_preserves respects)) fun _ => handOver_preserves respects
      | commit =>
        refine .bind (notify_preserves respects) fun failure => ?_
        cases failure with
        | none => exact handOver_preserves respects
        | some f =>
          exact .bind (.discard (notify_preserves respects)) fun _ => .bind (fun _ hs => hs) fun _ =>
            handOver_preserves respects

theorem abandon_preserves : Preserves (Spent l) (abandon h c) :=
  .bind (.discard (notify_preserves respects)) fun _ => conclude_preserves respects

theorem finish_preserves : Preserves (Spent l) (finish h c ending info q) := by
  refine .bind (fun _ hs => hs) fun named => .bind (fun _ hs => Act.after_currentId.2 hs) fun current => ?_
  split
  · exact q.resolve_preserves respects
  refine .bind (fun _ hs => hs) fun context => ?_
  split
  · exact q.resolve_preserves respects
  refine .bind (fun _ hs => Act.after_isFailed.2 hs) fun failed => ?_
  split
  · cases ending with
    | rollback => exact .bind (abandon_preserves respects) fun _ => q.resolve_preserves respects
    | commit =>
      show Preserves _ (if _ then _ else _)
      split
      · exact .bind (abandon_preserves respects) fun _ => q.resolve_preserves respects
      · exact q.resolve_preserves respects
  · exact discharge_preserves respects

theorem decide_preserves {a : Aggregate κ} {decision : Decision} :
    Preserves (Spent l) (decide h a decision) := by
  refine .bind (fun _ hs => Act.after_isFailed.2 hs) fun failed => ?_
  split
  · exact .bind (fun _ hs => hs) fun _ => finish_preserves respects
  · exact finish_preserves respects

theorem finishAfter_preserves {pending : Number} {commit : Bool} :
    Preserves (Spent l) (finishAfter h c info pending q commit) := by
  unfold finishAfter
  cases Aggregation.ofSends pending commit with
  | error => exact .refuse
  | ok sends =>
    refine .bind (fun _ hs => hs) fun a => ?_
    show Preserves _ (if _ then _ else _)
    split
    · exact .bind (finish_preserves respects) fun _ => .pure
    · exact .pure

theorem settleSend_preserves {a : Nat} {failure : Option Failure} :
    Preserves (Spent l) (settleSend h a failure) := by
  intro w hs
  unfold settleSend
  simp only [after_bind, Act.after_client]
  cases w.client.aggregates[a]? with
  | none => exact hs
  | some aggregate =>
    obtain ⟨⟨sends, result⟩, hr⟩ : ∃ r, r = aggregate.sends.settle failure := ⟨_, rfl⟩
    simp only [← hr]
    refine Preserves.bind (fun _ hs => hs) (fun _ => ?_) w hs
    rcases result with _ | (_ | decision)
    · exact .refuse
    · exact .pure
    · exact decide_preserves respects

end Context

end

end Transact
