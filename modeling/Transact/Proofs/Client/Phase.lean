import Transact.Proofs.Client.Tables

/-! # Phases of a context

A context is always in one of five phases. The phase says all at once: the stage and the bound
transaction, what is outstanding and on which link, and who waits for it. `At f p co x` says that the
tables of the client `x` are as they are in the phase `p` with the coordinator link `co`. What was
outstanding may also have been taken out of the tables, while whoever waits for it is being told: the
phase is loose then.

* `At.shut`: a link closes; what was outstanding there is loose.
* `At.takeOut`: so is an exchange that is taken from its link.
* `At.relabel`: the phase changes while nothing is outstanding on any link.
* `At.handOver`: an exchange is recorded on the coordinator link.
* `At.build`: a link is built, or the endpoint refuses it. -/

namespace Transact

variable {κ : Type}

/-- **The phases.** `opening` has a link that is building, `declaring` and `discharging` have one
exchange, named by its link and delivery number; all three are loose without it. The numbers of the
internal completions come before the request that is told in the end. -/
inductive Phase (κ : Type) where
  | idle
  | opening (link : Option Nat) (transaction openId declareId : Nat) (request : Token κ)
  | declaring (slot : Option (Nat × Nat)) (transaction id : Nat) (request : Token κ)
  | active (transaction : Nat) (txnId : TxnId)
  | discharging (slot : Option (Nat × Nat)) (transaction : Nat) (txnId : TxnId) (id : Nat)
      (commit : Bool) (request : Token κ)

namespace Phase

/-- The stage that a context shows in this phase. -/
def stage : Phase κ → Stage
  | idle => .idle
  | opening .. | declaring .. => .declaring
  | active .. => .active
  | discharging .. => .discharging

/-- The bound transaction, with its name at the coordinator. -/
def bound : Phase κ → Option (Nat × TxnId)
  | active t y | discharging _ t y .. => some (t, y)
  | _ => none

/-- The link that is building. -/
def building : Phase κ → Option Nat
  | opening link .. => link
  | _ => none

/-- The link and the delivery number of the outstanding exchange. -/
def slot : Phase κ → Option (Nat × Nat)
  | declaring slot .. | discharging slot .. => slot
  | _ => none

/-- The phase without what is outstanding. -/
def loose : Phase κ → Phase κ
  | opening _ t openId declareId request => opening none t openId declareId request
  | declaring _ t id request => declaring none t id request
  | discharging _ t y id commit request => discharging none t y id commit request
  | p => p

/-- Nothing is outstanding on any link. -/
def Still (p : Phase κ) : Prop := p.building = none ∧ p.slot = none

/-- Whoever waits for something waits for something that is outstanding. -/
def Firm : Phase κ → Prop
  | opening none .. | declaring none .. | discharging none .. => False
  | _ => True

/-- Who waits for the link `l` to open. -/
def openingAt (c l : Nat) : Phase κ → Option (Token κ)
  | opening link t openId declareId request =>
    if link = some l then
      some (.opening openId c t l (.declaring declareId c t request) request)
    else none
  | _ => none

/-- The exchange, outstanding or taken out. -/
def exchange (c : Nat) : Phase κ → Option (Exchange κ)
  | declaring _ t id request => some ⟨none, t, .declaring id c t request⟩
  | discharging _ t _ id commit request =>
    some ⟨some commit, t, .discharging id c commit request⟩
  | _ => none

/-- The exchanges outstanding on the link `l`. -/
def pendingAt (c l : Nat) : Phase κ → List (Nat × Exchange κ)
  | declaring (some (l', d)) t id request =>
    if l' = l then [(d, ⟨none, t, .declaring id c t request⟩)] else []
  | discharging (some (l', d)) t _ id commit request =>
    if l' = l then [(d, ⟨some commit, t, .discharging id c commit request⟩)] else []
  | _ => []

/-- The internal completions of the operation in progress. -/
def lead : Phase κ → List Nat
  | opening _ _ openId declareId _ => [openId, declareId]
  | declaring _ _ id _ | discharging _ _ _ id .. => [id]
  | _ => []

/-- Who is told how the operation in progress ended. -/
def request : Phase κ → Option (Token κ)
  | opening _ _ _ _ request | declaring _ _ _ request | discharging _ _ _ _ _ request =>
    some request
  | _ => none

/-- The internal completion that waits for an exchange. -/
def ticket : Phase κ → Option Nat
  | declaring _ _ id _ | discharging _ _ _ id .. => some id
  | _ => none

variable {p : Phase κ} {c l : Nat}

theorem loose_still : p.loose.Still := by
  cases p <;> exact ⟨rfl, rfl⟩

theorem loose_bound : p.loose.bound = p.bound := by
  cases p <;> rfl

theorem loose_lead : p.loose.lead = p.lead := by
  cases p <;> rfl

theorem loose_request : p.loose.request = p.request := by
  cases p <;> rfl

theorem loose_ticket : p.loose.ticket = p.ticket := by
  cases p <;> rfl

theorem loose_loose : p.loose.loose = p.loose := by
  cases p <;> rfl

theorem slot_eq_none_of_building (h : p.building = some l) : p.slot = none := by
  cases p <;> first | rfl | cases h

theorem building_eq_none_of_slot {s : Nat × Nat} (h : p.slot = some s) : p.building = none := by
  cases p <;> first | rfl | cases h

theorem openingAt_of_ne (h : p.building ≠ some l) : p.openingAt c l = none := by
  cases p with
  | opening => exact if_neg h
  | _ => rfl

theorem pendingAt_of_ne (h : ∀ d, p.slot ≠ some (l, d)) : p.pendingAt c l = [] := by
  cases p with
  | declaring slot =>
    rcases slot with _ | ⟨l', d⟩
    · rfl
    · rw [pendingAt, if_neg]
      rintro rfl
      exact h d rfl
  | discharging slot =>
    rcases slot with _ | ⟨l', d⟩
    · rfl
    · rw [pendingAt, if_neg]
      rintro rfl
      exact h d rfl
  | _ => rfl

theorem pendingAt_slot {d : Nat} (h : p.slot = some (l, d)) :
    ∃ e, p.exchange c = some e ∧ p.pendingAt c l = [(d, e)] := by
  cases p with
  | declaring =>
    cases h
    exact ⟨_, rfl, if_pos rfl⟩
  | discharging =>
    cases h
    exact ⟨_, rfl, if_pos rfl⟩
  | _ => cases h

theorem filter_pendingAt {d : Nat} (h : p.slot ≠ some (l, d)) :
    (p.pendingAt c l).filter (·.1 ≠ d) = p.pendingAt c l := by
  by_cases hl : ∃ d', p.slot = some (l, d')
  · obtain ⟨d', hd⟩ := hl
    obtain ⟨e, -, he⟩ := pendingAt_slot (c := c) hd
    have ne : d' ≠ d := by
      rintro rfl
      exact h hd
    simp [he, ne]
  · rw [pendingAt_of_ne fun d' hd => hl ⟨d', hd⟩]
    rfl

theorem Still.openingAt (h : p.Still) : p.openingAt c l = none :=
  openingAt_of_ne (by simp [h.1])

theorem Still.pendingAt (h : p.Still) : p.pendingAt c l = [] :=
  pendingAt_of_ne (by simp [h.2])

end Phase

/-- Where a context is to be found: its number, the links that are its own, and the endpoint's side
of each link. -/
structure Frame where
  context : Nat
  own : Nat → Prop
  side : Nat → Nat → Prop

/-- The frame `f'` has the link `l` besides those of `f`. -/
structure Frame.Adds (f : Frame) (l : Nat) (f' : Frame) : Prop where
  context : f'.context = f.context
  own : ∀ i, f'.own i ↔ f.own i ∨ i = l

variable {f f' : Frame} {p p' : Phase κ} {co : Option Nat} {x x' : Client κ}

/-- The context is as the phase has it. -/
structure ContextAt (p : Phase κ) (co : Option Nat) (k : Context) : Prop where
  stage : k.stage = p.stage
  current : k.current = p.bound.map (·.1)
  accepted : k.accepted = p.bound.map fun b => .acknowledging b.2
  enrolled : k.enrolled = p.bound.map fun b => .enrolling b.2
  coordinator : k.coordinator = co

theorem ContextAt.loose {k : Context} (h : ContextAt p co k) : ContextAt p.loose co k := by
  cases p <;> exact ⟨h.stage, h.current, h.accepted, h.enrolled, h.coordinator⟩

theorem ContextAt.cleared {k : Context} (h : ContextAt p co k) :
    ContextAt (.idle : Phase κ) co k.cleared :=
  ⟨rfl, rfl, rfl, rfl, h.coordinator⟩

theorem ContextAt.concluded {k : Context} (h : ContextAt p co k) :
    ContextAt (.idle : Phase κ) co k.concluded :=
  ⟨rfl, rfl, rfl, rfl, h.coordinator⟩

/-- The link holds what the phase has outstanding on it. -/
structure LinkAt (f : Frame) (p : Phase κ) (co : Option Nat) (l : Nat) (k : Link κ) : Prop where
  opening : k.opening = p.openingAt f.context l
  pending : k.pending = p.pendingAt f.context l
  building : k.state = .building → p.building = some l
  opened : k.state = .opened → co = some l
  sender : k.state ≠ .closed → ∃ e, k.sender = some e ∧ f.side l e

/-- **The tables of a client in a phase.** -/
structure At (f : Frame) (p : Phase κ) (co : Option Nat) (x : Client κ) : Prop where
  context : ∃ k, x.contexts[f.context]? = some k ∧ ContextAt p co k
  hint : ∀ t y, p.bound = some (t, y) → (x.transaction t).hint = some y
  link : ∀ l k, f.own l → x.links[l]? = some k → LinkAt f p co l k
  coordinator : ∀ l, co = some l → f.own l ∧ ∃ k, x.links[l]? = some k ∧ k.state ≠ .building
  slot : ∀ l d, p.slot = some (l, d) → co = some l ∧
    ∃ k, x.links[l]? = some k ∧ k.state = .opened ∧ d < k.nextDelivery
  building : ∀ l, p.building = some l → f.own l ∧
    (∃ k, x.links[l]? = some k ∧ k.state = .building) ∧ ∀ l', co = some l' → x.Closed l'
  bound : p.bound ≠ none → co ≠ none

/-- The client `x'` has the link `m'` for `m` at `l`, and all other links of `x`. -/
structure Client.Relinks (x x' : Client κ) (l : Nat) (m m' : Link κ) : Prop where
  before : x.links[l]? = some m
  after : x'.links[l]? = some m'
  others : ∀ i, i ≠ l → x'.links[i]? = x.links[i]?

namespace At

theorem congr (h : At f p co x) (hc : x'.contexts = x.contexts) (hl : x'.links = x.links)
    (ht : x'.transactions = x.transactions) : At f p co x' := by
  obtain ⟨_, _, _, _, _⟩ := x
  obtain ⟨_, _, _, _, _⟩ := x'
  subst hc hl ht
  exact ⟨h.context, h.hint, h.link, h.coordinator, h.slot, h.building, h.bound⟩

theorem spared (h : At f p co x) (hc : x'.contexts[f.context]? = x.contexts[f.context]?)
    (hl : ∀ l, f.own l → x'.links[l]? = x.links[l]?)
    (ht : ∀ t y, p.bound = some (t, y) → (x'.transaction t).hint = some y) : At f p co x' where
  context := by
    obtain ⟨k, hk, hk'⟩ := h.context
    exact ⟨k, hc.trans hk, hk'⟩
  hint := ht
  link l k ho hk := h.link l k ho ((hl l ho).symm.trans hk)
  coordinator l e := by
    obtain ⟨ho, k, hk, hn⟩ := h.coordinator l e
    exact ⟨ho, k, (hl l ho).trans hk, hn⟩
  slot l d e := by
    obtain ⟨hco, k, hk, hk'⟩ := h.slot l d e
    exact ⟨hco, k, (hl l (h.coordinator l hco).1).trans hk, hk'⟩
  building l e := by
    obtain ⟨ho, ⟨k, hk, hb⟩, hcl⟩ := h.building l e
    refine ⟨ho, ⟨k, (hl l ho).trans hk, hb⟩, fun i hi => ?_⟩
    obtain ⟨m, hm, hc⟩ := hcl i hi
    exact ⟨m, (hl i (h.coordinator i hi).1).trans hm, hc⟩
  bound := h.bound

theorem recontext (h : At f p co x) {k : Context} (hk : x'.contexts[f.context]? = some k)
    (hk' : ContextAt p co k) (hl : x'.links = x.links) (ht : x'.transactions = x.transactions) :
    At f p co x' := by
  obtain ⟨_, _, _, _, _⟩ := x
  obtain ⟨_, _, _, _, _⟩ := x'
  subst hl ht
  exact ⟨⟨k, hk, hk'⟩, h.hint, h.link, h.coordinator, h.slot, h.building, h.bound⟩

theorem touch (h : At f p co x) {l : Nat} {g : Link κ → Link κ}
    (hs : ∀ k, (g k).state = k.state) (ho : ∀ k, (g k).opening = k.opening)
    (hp : ∀ k, (g k).pending = k.pending) (he : ∀ k, (g k).sender = k.sender)
    (hd : ∀ k, (g k).nextDelivery = k.nextDelivery) : At f p co (x.changeLink l g) := by
  have entry {i : Nat} {k : Link κ} (hk : x.links[i]? = some k) :
      ∃ k', (x.changeLink l g).links[i]? = some k' ∧ k'.state = k.state ∧
        k'.nextDelivery = k.nextDelivery := by
    by_cases hi : i = l
    · exact ⟨g k, hi ▸ Client.changeLink_same (hi ▸ hk), hs k, hd k⟩
    · exact ⟨k, (Client.changeLink_other hi).trans hk, rfl, rfl⟩
  refine ⟨h.context, h.hint, fun i k' hi hk' => ?_, fun i e => ?_, fun i d e => ?_, fun i e => ?_,
    h.bound⟩
  · by_cases hil : i = l
    · subst hil
      cases hk : x.links[i]? with
      | none => simp [Client.changeLink, Array.getElem?_modify, hk] at hk'
      | some k =>
        obtain rfl : g k = k' := Option.some.inj ((Client.changeLink_same hk).symm.trans hk')
        have o := h.link i k hi hk
        refine ⟨(ho k).trans o.opening, (hp k).trans o.pending, ?_, ?_, ?_⟩
        · rw [hs k]
          exact o.building
        · rw [hs k]
          exact o.opened
        · rw [hs k, he k]
          exact o.sender
    · exact h.link i k' hi ((Client.changeLink_other hil).symm.trans hk')
  · obtain ⟨hi, k, hk, hn⟩ := h.coordinator i e
    obtain ⟨k', hk', hs', -⟩ := entry hk
    exact ⟨hi, k', hk', by rw [hs']; exact hn⟩
  · obtain ⟨hco, k, hk, hopen, hkd⟩ := h.slot i d e
    obtain ⟨k', hk', hs', hd'⟩ := entry hk
    exact ⟨hco, k', hk', hs'.trans hopen, by omega⟩
  · obtain ⟨hi, ⟨k, hk, hb⟩, hcl⟩ := h.building i e
    obtain ⟨k', hk', hs', -⟩ := entry hk
    refine ⟨hi, ⟨k', hk', hs'.trans hb⟩, fun j hj => ?_⟩
    obtain ⟨m, hm, hmc⟩ := hcl j hj
    obtain ⟨m', hm', hs'', -⟩ := entry hm
    exact ⟨m', hm', hs''.trans hmc⟩

/-- A link of the context that has not closed is the coordinator or the one that is building. -/
theorem open_or_building (h : At f p co x) {l : Nat} {k : Link κ} (ho : f.own l)
    (hk : x.links[l]? = some k) (hn : k.state ≠ .closed) :
    (k.state = .opened ∧ co = some l) ∨ (k.state = .building ∧ p.building = some l) := by
  cases hs : k.state with
  | building => exact .inr ⟨rfl, (h.link l k ho hk).building hs⟩
  | opened => exact .inl ⟨rfl, (h.link l k ho hk).opened hs⟩
  | closed => exact absurd hs hn

theorem closed_of_ne (h : At f p co x) {l : Nat} {k : Link κ} (ho : f.own l)
    (hk : x.links[l]? = some k) (hp : p.building ≠ some l) (hne : co ≠ some l ∨ x.Closed l) :
    k.state = .closed := by
  refine Decidable.byContradiction fun hn => ?_
  rcases h.open_or_building ho hk hn with ⟨hs, e⟩ | ⟨-, e⟩
  · rcases hne with hne | ⟨k', hk', hc⟩
    · exact hne e
    · obtain rfl : k = k' := Option.some.inj (hk.symm.trans hk')
      exact hn hc
  · exact hp e

/-- **A context has at most one link that is not closed.** -/
theorem alone (h : At f p co x) {l l' : Nat} {k k' : Link κ} (ho : f.own l) (ho' : f.own l')
    (hk : x.links[l]? = some k) (hk' : x.links[l']? = some k') (hn : k.state ≠ .closed)
    (hn' : k'.state ≠ .closed) : l = l' := by
  have building {i j : Nat} {m : Link κ} (hi : p.building = some i) (hj : co = some j)
      (hm : x.links[j]? = some m) (hs : m.state = .opened) : False := by
    obtain ⟨m', hm', hc⟩ := (h.building i hi).2.2 j hj
    obtain rfl : m = m' := Option.some.inj (hm.symm.trans hm')
    exact absurd (hs.symm.trans hc) (by decide)
  rcases h.open_or_building ho hk hn with ⟨s, e⟩ | ⟨s, e⟩ <;>
    rcases h.open_or_building ho' hk' hn' with ⟨s', e'⟩ | ⟨s', e'⟩
  · exact Option.some.inj (e.symm.trans e')
  · exact (building e' e hk s).elim
  · exact (building e e' hk' s').elim
  · exact Option.some.inj (e.symm.trans e')

/-! ### How a phase changes -/

/-- The phase changes while nothing is outstanding, and no link changes. -/
theorem relabel (h : At f p co x) (hp : p.Still) (hp' : p'.Still) {k : Context}
    (hk : x'.contexts[f.context]? = some k) (hk' : ContextAt p' co k) (hl : x'.links = x.links)
    (ht : ∀ t y, p'.bound = some (t, y) → (x'.transaction t).hint = some y)
    (hb : p'.bound ≠ none → co ≠ none) : At f p' co x' where
  context := ⟨k, hk, hk'⟩
  hint := ht
  link l k ho hk := by
    have o := h.link l k ho (hl ▸ hk)
    refine ⟨?_, ?_, fun hs => ?_, o.opened, o.sender⟩
    · rw [o.opening, hp.openingAt, hp'.openingAt]
    · rw [o.pending, hp.pendingAt, hp'.pendingAt]
    · simpa [hp.1] using o.building hs
  coordinator l e := by rw [hl]; exact h.coordinator l e
  slot l d e := by simp [hp'.2] at e
  building l e := by simp [hp'.1] at e
  bound := hb

/-- **A link closes.** Whatever was outstanding was outstanding there. -/
theorem shut (h : At f p co x) {l : Nat} {m m' : Link κ} (hm : x.Relinks x' l m m')
    (hb : ∀ i, p.building = some i → i = l) (hs : ∀ i d, p.slot = some (i, d) → i = l)
    (hc : m'.state = .closed) (ho : m'.opening = none) (hp : m'.pending = [])
    (hx : x'.contexts = x.contexts) (ht : x'.transactions = x.transactions) :
    At f p.loose co x' where
  context := by
    obtain ⟨k, hk, hc⟩ := h.context
    exact ⟨k, by rw [hx]; exact hk, hc.loose⟩
  hint t y e := by
    rw [Phase.loose_bound] at e
    rw [Client.transaction, ht]
    exact h.hint t y e
  link i n hi hn := by
    by_cases hil : i = l
    · subst hil
      obtain rfl : m' = n := Option.some.inj (hm.after.symm.trans hn)
      exact ⟨by rw [ho, Phase.loose_still.openingAt], by rw [hp, Phase.loose_still.pendingAt],
        by simp [hc], by simp [hc], by simp [hc]⟩
    · have o := h.link i n hi ((hm.others i hil).symm.trans hn)
      refine ⟨?_, ?_, fun e => ?_, o.opened, o.sender⟩
      · rw [o.opening, Phase.loose_still.openingAt, Phase.openingAt_of_ne fun e => hil (hb i e)]
      · rw [o.pending, Phase.loose_still.pendingAt, Phase.pendingAt_of_ne fun d e => hil (hs i d e)]
      · exact absurd (hb i (o.building e)) hil
  coordinator i e := by
    obtain ⟨hi, n, hn, hns⟩ := h.coordinator i e
    refine ⟨hi, ?_⟩
    by_cases hil : i = l
    · exact ⟨m', hil ▸ hm.after, by simp [hc]⟩
    · exact ⟨n, (hm.others i hil).trans hn, hns⟩
  slot i d e := by simp [Phase.loose_still.2] at e
  building i e := by simp [Phase.loose_still.1] at e
  bound := by rw [Phase.loose_bound]; exact h.bound

/-- **The outstanding exchange is taken from its link,** and nothing else changes there. -/
theorem takeOut (h : At f p co x) {l d : Nat} {m m' : Link κ} (hs : p.slot = some (l, d))
    (hm : x.Relinks x' l m m') (he : m' = { m with pending := m.pending.filter (·.1 ≠ d) })
    (hx : x'.contexts = x.contexts) (ht : x'.transactions = x.transactions) :
    At f p.loose co x' where
  context := by
    obtain ⟨k, hk, hc⟩ := h.context
    exact ⟨k, by rw [hx]; exact hk, hc.loose⟩
  hint t y e := by
    rw [Phase.loose_bound] at e
    rw [Client.transaction, ht]
    exact h.hint t y e
  link i n hi hn := by
    have nobuilding := Phase.building_eq_none_of_slot hs
    by_cases hil : i = l
    · subst hil
      obtain rfl : m' = n := Option.some.inj (hm.after.symm.trans hn)
      have o := h.link i m hi hm.before
      obtain ⟨e, -, hpe⟩ := Phase.pendingAt_slot (c := f.context) hs
      subst he
      refine ⟨?_, ?_, fun e => ?_, o.opened, o.sender⟩
      · rw [Phase.loose_still.openingAt, ← Phase.openingAt_of_ne (p := p) (by simp [nobuilding])]
        exact o.opening
      · simp [o.pending, hpe, Phase.loose_still.pendingAt]
      · simpa [nobuilding] using o.building e
    · have o := h.link i n hi ((hm.others i hil).symm.trans hn)
      refine ⟨?_, ?_, fun e => ?_, o.opened, o.sender⟩
      · rw [o.opening, Phase.loose_still.openingAt, Phase.openingAt_of_ne (by simp [nobuilding])]
      · rw [o.pending, Phase.loose_still.pendingAt, Phase.pendingAt_of_ne]
        intro d' e
        exact hil (by simpa using congrArg (·.map (·.1)) (e.symm.trans hs))
      · simpa [nobuilding] using o.building e
  coordinator i e := by
    obtain ⟨hi, n, hn, hns⟩ := h.coordinator i e
    refine ⟨hi, ?_⟩
    by_cases hil : i = l
    · subst hil
      obtain rfl : m = n := Option.some.inj (hm.before.symm.trans hn)
      exact ⟨m', hm.after, by subst he; exact hns⟩
    · exact ⟨n, (hm.others i hil).trans hn, hns⟩
  slot i d e := by simp [Phase.loose_still.2] at e
  building i e := by simp [Phase.loose_still.1] at e
  bound := by rw [Phase.loose_bound]; exact h.bound

/-- **An exchange is recorded** on the link `l`, which is the coordinator from then on. -/
theorem handOver (h : At f p co x) {l d : Nat} {m m' : Link κ} (hs : p.slot = none)
    (hb : ∀ i, p.building = some i → i = l) (hco : ∀ i, co = some i → i = l ∨ x.Closed i)
    (hp' : p'.slot = some (l, d)) (ho : f.own l) (hm : x.Relinks x' l m m')
    (hn : m.state ≠ .closed) (hms : m'.state = .opened) (hmo : m'.opening = none)
    (hmp : m'.pending = p'.pendingAt f.context l) (hmd : d < m'.nextDelivery)
    (hme : m'.sender = m.sender) {k : Context} (hk : x'.contexts[f.context]? = some k)
    (hk' : ContextAt p' (some l) k)
    (ht : ∀ t y, p'.bound = some (t, y) → (x'.transaction t).hint = some y) :
    At f p' (some l) x' where
  context := ⟨k, hk, hk'⟩
  hint := ht
  link i n hi hin := by
    have nobuilding := Phase.building_eq_none_of_slot hp'
    by_cases hil : i = l
    · subst hil
      obtain rfl : m' = n := Option.some.inj (hm.after.symm.trans hin)
      refine ⟨?_, hmp, fun e => ?_, fun _ => rfl, fun _ => ?_⟩
      · rw [hmo, Phase.openingAt_of_ne (by simp [nobuilding])]
      · exact absurd (hms.symm.trans e) (by decide)
      · rw [hme]
        exact (h.link i m hi hm.before).sender hn
    · have hin' := (hm.others i hil).symm.trans hin
      have o := h.link i n hi hin'
      have closed : n.state = .closed :=
        h.closed_of_ne hi hin' (fun e => hil (hb i e)) <| by
          by_cases e : co = some i
          · exact .inr ((hco i e).resolve_left hil)
          · exact .inl e
      refine ⟨?_, ?_, by simp [closed], by simp [closed], by simp [closed]⟩
      · rw [o.opening, Phase.openingAt_of_ne fun e => hil (hb i e),
          Phase.openingAt_of_ne (by simp [nobuilding])]
      · rw [o.pending, Phase.pendingAt_of_ne (by simp [hs]), Phase.pendingAt_of_ne]
        intro d' e
        exact hil (by simpa using congrArg (·.map (·.1)) (e.symm.trans hp'))
  coordinator i e := by
    obtain rfl := Option.some.inj e
    exact ⟨ho, m', hm.after, by simp [hms]⟩
  slot i d' e := by
    obtain ⟨rfl, rfl⟩ : l = i ∧ d = d' := by simpa using hp'.symm.trans e
    exact ⟨rfl, m', hm.after, hms, hmd⟩
  building i e := by simp [Phase.building_eq_none_of_slot hp'] at e
  bound _ := by simp

/-- **A link is added** while the other links are closed: it is building, or was refused. -/
theorem build (h : At f p co x) {l : Nat} {m : Link κ} (hp : p.Still)
    (hco : ∀ i, co = some i → x.Closed i) (hf : f.Adds l f') (hs : p'.slot = none)
    (hb : ∀ i, p'.building = some i → i = l ∧ m.state = .building) (hb' : p'.bound = none)
    (hnew : x'.links[l]? = some m) (hold : ∀ i, i ≠ l → x'.links[i]? = x.links[i]?)
    (hm : LinkAt f' p' co l m) (hne : co ≠ some l)
    {k : Context} (hk : x'.contexts[f.context]? = some k) (hk' : ContextAt p' co k) :
    At f' p' co x' where
  context := ⟨k, hf.context ▸ hk, hk'⟩
  hint t y e := by simp [hb'] at e
  link i n ho hn := by
    by_cases hi : i = l
    · subst hi
      obtain rfl : m = n := Option.some.inj (hnew.symm.trans hn)
      exact hm
    · have hn' := (hold i hi).symm.trans hn
      have hoi : f.own i := ((hf.own i).1 ho).resolve_right hi
      have o := h.link i n hoi hn'
      have closed : n.state = .closed :=
        h.closed_of_ne hoi hn' (by simp [hp.1]) <| by
          by_cases e : co = some i
          · exact .inr (hco i e)
          · exact .inl e
      refine ⟨?_, ?_, by simp [closed], by simp [closed], by simp [closed]⟩
      · rw [o.opening, hp.openingAt, Phase.openingAt_of_ne fun e => hi (hb i e).1]
      · rw [o.pending, hp.pendingAt, Phase.pendingAt_of_ne (by simp [hs])]
  coordinator i e := by
    obtain ⟨ho, n, hn, hs⟩ := h.coordinator i e
    have hi : i ≠ l := by
      rintro rfl
      exact hne e
    exact ⟨(hf.own i).2 (.inl ho), n, (hold i hi).trans hn, hs⟩
  slot i d e := by simp [hs] at e
  building i e := by
    obtain ⟨rfl, hs⟩ := hb i e
    refine ⟨(hf.own i).2 (.inr rfl), ⟨m, hnew, hs⟩, fun j hj => ?_⟩
    have hji : j ≠ i := by
      rintro rfl
      exact hne hj
    obtain ⟨n, hn, hc⟩ := hco j hj
    exact ⟨n, (hold j hji).trans hn, hc⟩
  bound e := absurd hb' e

end At

end Transact
