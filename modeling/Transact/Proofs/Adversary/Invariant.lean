import Transact.Proofs.Adversary.Completions
import Transact.Proofs.Adversary.Course
import Transact.Proofs.Adversary.Traffic

/-! # The invariant

What holds whenever foreign code has control: the tables are as in some phase, the completions that
somebody waits for are pending, the phase fits the requests that were handed over, and all that was
noted so far is as it should be.

`Keeps how p w x v` says that the computation `x`, started at `v`, leads from the phase `p` at `w`
to a phase in which the invariant holds again, and halts at most by raising a failure, where handlers
may raise. `Sound how n h` says of the surroundings `h` what a client relies on, as long as they have
fewer than `n` moves to make.

What is raised and cannot be reported cuts short whatever the client was about to do. So of foreign code
that is wild less is known: who is enrolled need not fit what is bound, and an operation may stay in
progress though nothing is outstanding any more. -/

namespace Transact.Adversary

open Player

/-! ### The invariant -/

/-- The one context of a run has all links, and the endpoint numbers them in the same way. -/
def whole : Frame := ⟨0, fun _ => True, fun l e => e = l⟩

/-- What a request meets, who is told of an illegal state, and which hooks were called. -/
structure Entry.Founded (how : Manners) (e : Entry) (past : List Entry) : Prop where
  phase : ∀ o id, e.event = .requested o id → ∃ p co, At whole p co e.client
  blamed : ∀ id r, e.event = .resolved id r → Blamed id r past
  conducted : e.event.isOutlook = true → how.Civil → (course past).Conducted e.client

/-- The part of the invariant for which hooks do not matter. In the history every request meets a phase,
nobody is told of an illegal state without cause, and hooks are called as they should be. -/
structure Ground (how : Manners) (p : Phase Nat) (co : Option Nat) (hand : List Nat) (w : State) :
    Prop where
  tables : At whole p co w.client
  ids : Ids how.Tame p hand w.client w.outside.history
  traffic : Traffic p co w.client w.outside.history
  lawful : Lawful (Entry.Good how) w.outside.history
  founded : Lawful (Entry.Founded how) w.outside.history
  moves : ∀ m ∈ w.outside.moves, how.Allows m

/-- **The invariant** in the phase `p`, with these completions at hand. -/
structure Inv (how : Manners) (p : Phase Nat) (co : Option Nat) (hand : List Nat) (w : State) : Prop
    extends Ground how p co hand w where
  fits : how.Civil → (course w.outside.history).Fits co w.client p

/-- Events at which no more is to be seen than that at most one link is not closed. -/
def Event.Mute : Event → Prop
  | sent .. | returned _ | requested .. | resolved .. => False
  | _ => True

/-- From `w` to `w'` nothing but quiet events was noted, at moments with at most one link. -/
structure Quietly (w w' : State) : Prop where
  moves : w'.outside.moves <:+ w.outside.moves
  history : ∃ new, w'.outside.history = new ++ w.outside.history ∧
    ∀ e ∈ new, e.event.Quiet ∧ e.event.Mute ∧ Alone e.client

/-- From `w` to `w'` these events were noted, the latest first, and the client did nothing. -/
structure Noted (es : List Event) (w w' : State) : Prop where
  client : w'.client = w.client
  moves : w'.outside.moves <:+ w.outside.moves
  history : w'.outside.history = es.map (⟨·, w.client⟩) ++ w.outside.history

variable {how : Manners} {p p' p'' : Phase Nat} {co co' : Option Nat} {hand hand' : List Nat}
  {w w' w'' : State} {x : Client Nat} {past : List Entry} {es es' : List Event} {e : Event}

theorem alone_of_at (h : At whole p co x) : Alone x :=
  fun _ _ _ _ hk hk' hn hn' => h.alone trivial trivial hk hk' hn hn'

theorem good_of_mute {i : Entry} (hm : i.event.Mute) (ha : Alone i.client) : i.Good how past := by
  refine ⟨ha, ?_⟩
  split
  · next he => simp [he, Event.Mute] at hm
  · next he => simp [he, Event.Mute] at hm
  · next he => simp [he, Event.Mute] at hm
  · trivial

/-! ### Histories with a cause -/

/-- Events that are not requests, and at which nobody sees the context. -/
theorem Entry.Founded.other {i : Entry} (hr : ∀ o id, i.event ≠ .requested o id)
    (ho : i.event.isOutlook = false) : i.Founded how past :=
  ⟨fun o id e => absurd e (hr o id), fun _ _ e => absurd (e ▸ ho) nofun,
    fun e => absurd (e.symm.trans ho) nofun⟩

theorem Entry.Founded.mute {i : Entry} (hm : i.event.Mute) : i.Founded how past := by
  refine .other (fun o id e => ?_) ?_
  · simp [e, Event.Mute] at hm
  · obtain ⟨event, x⟩ := i
    cases event <;> first | rfl | exact hm.elim

/-! ### Quiet events -/

namespace Quietly

theorem refl (w : State) : Quietly w w := ⟨List.suffix_refl _, [], rfl, by simp⟩

theorem trans (h : Quietly w w') (h' : Quietly w' w'') : Quietly w w'' := by
  obtain ⟨new, e, hq⟩ := h.history
  obtain ⟨new', e', hq'⟩ := h'.history
  refine ⟨h'.moves.trans h.moves, new' ++ new, by rw [e', e, List.append_assoc], fun i hi => ?_⟩
  rcases List.mem_append.1 hi with hi | hi
  · exact hq' i hi
  · exact hq i hi

theorem on (h : Quietly w w') (f : Client Nat → Client Nat) : Quietly w (w'.on f) :=
  ⟨h.moves, h.history⟩

/-- What is read off a history without regard to quiet events stays the same. -/
theorem same {α : Type} (h : Quietly w w') {f : List Entry → α}
    (hf : ∀ e past, e.event.Quiet → f (e :: past) = f past) :
    f w'.outside.history = f w.outside.history := by
  obtain ⟨new, e, hq⟩ := h.history
  rw [e]
  clear e
  induction new with
  | nil => rfl
  | cons i new ih =>
    rw [List.cons_append, hf i _ (hq i (by simp)).1]
    exact ih fun j hj => hq j (by simp [hj])

theorem requests (h : Quietly w w') : requests w'.outside.history = requests w.outside.history :=
  h.same fun _ _ => requests_quiet

theorem begun (h : Quietly w w') : begun w'.outside.history = begun w.outside.history :=
  h.same fun _ _ => begun_quiet

theorem handed (h : Quietly w w') : handed w'.outside.history = handed w.outside.history :=
  h.same fun _ _ => handed_quiet

theorem resolved (h : Quietly w w') : resolved w'.outside.history = resolved w.outside.history :=
  h.same fun _ _ => resolved_quiet

/-- A history stays lawful if quiet events are as they should be. -/
theorem lawful {Good : Entry → List Entry → Prop} (h : Quietly w w')
    (mute : ∀ i past, i.event.Mute → Alone i.client → Good i past)
    (hl : Lawful Good w.outside.history) : Lawful Good w'.outside.history := by
  obtain ⟨new, e, hq⟩ := h.history
  rw [e]
  clear e
  induction new with
  | nil => exact hl
  | cons i new ih =>
    obtain ⟨-, hm, ha⟩ := hq i (by simp)
    exact .cons (mute _ _ hm ha) (ih fun j hj => hq j (by simp [hj]))

end Quietly

/-- **The tables change, and nothing but quiet events is noted.** -/
theorem Ground.step (h : Ground how p co hand w) (hq : Quietly w w')
    (ht : At whole p' co' w'.client) (hi : Ids how.Tame p' hand' w'.client w.outside.history)
    (hf : Traffic p' co' w'.client w.outside.history) : Ground how p' co' hand' w' where
  tables := ht
  ids := hi.congr rfl rfl rfl rfl hq.handed hq.resolved
  traffic := hf.grow (.refl _) hq.requests hq.begun
  lawful := hq.lawful (fun _ _ => good_of_mute) h.lawful
  founded := hq.lawful (fun _ _ hm _ => .mute hm) h.founded
  moves m hm := h.moves m (hq.moves.subset hm)

theorem Ground.quietly (h : Ground how p co hand w) (hq : Quietly w w') (hc : w'.client = w.client) :
    Ground how p co hand w' :=
  h.step hq (hc ▸ h.tables) (hc ▸ h.ids) (hc ▸ h.traffic)

/-- Nobody is enrolled or has left, and the course of the transaction is the same. -/
structure Steady (w w' : State) : Prop where
  course : course w'.outside.history = course w.outside.history
  registry : (w'.client.context 0).registry = (w.client.context 0).registry

theorem Inv.steady (h : Inv how p co hand w) (hs : Steady w w') (hg : w.client.Grows w'.client)
    (hc : how.Civil) : (course w'.outside.history).Fits co w'.client p := by
  rw [hs.course]
  exact (h.fits hc).congr hs.registry fun _ closed => hg.closed closed

/-- **The same, with the course of the transaction.** -/
theorem Inv.step (h : Inv how p co hand w) (hq : Quietly w w')
    (ht : At whole p' co' w'.client) (hi : Ids how.Tame p' hand' w'.client w.outside.history)
    (hf : Traffic p' co' w'.client w.outside.history)
    (hc : how.Civil → (course w'.outside.history).Fits co' w'.client p') :
    Inv how p' co' hand' w' :=
  ⟨h.toGround.step hq ht hi hf, hc⟩

theorem Inv.quietly (h : Inv how p co hand w) (hq : Quietly w w') (hc : w'.client = w.client)
    (hs : course w'.outside.history = course w.outside.history) :
    Inv how p co hand w' :=
  ⟨h.toGround.quietly hq hc, h.steady ⟨hs, by rw [hc]⟩ (hc ▸ .refl _)⟩

namespace Noted

theorem trans (h : Noted es w w') (h' : Noted es' w' w'') : Noted (es' ++ es) w w'' := by
  refine ⟨h'.client.trans h.client, h'.moves.trans h.moves, ?_⟩
  rw [h'.history, h.history, h.client, List.map_append, List.append_assoc]

theorem quietly (h : Noted es w w') (ha : Alone w.client)
    (hq : ∀ e ∈ es, e.Quiet ∧ e.Mute) : Quietly w w' := by
  refine ⟨h.moves, _, h.history, fun i hi => ?_⟩
  obtain ⟨e, he, rfl⟩ := List.mem_map.1 hi
  exact ⟨(hq e he).1, (hq e he).2, ha⟩

end Noted

/-- A round of hooks was cut short, by what was raised and could not be reported. -/
structure Cut (how : Manners) (w : State) (e : Halt) (w' : State) : Prop where
  wild : ¬ how.Civil
  raised : ∃ f, e = .raised f
  noted : ∃ es, Noted es w w' ∧ ∀ e ∈ es, e.Quiet ∧ e.Mute

namespace Cut

variable {halt : Halt}

theorem of (h : Cut how w' halt w'') (hw : Noted es w w') (hq : ∀ e ∈ es, e.Quiet ∧ e.Mute) :
    Cut how w halt w'' := by
  obtain ⟨new, hn, hq'⟩ := h.noted
  refine ⟨h.wild, h.raised, _, hw.trans hn, fun e he => ?_⟩
  exact (List.mem_append.1 he).elim (hq' e) (hq e)

theorem client (h : Cut how w halt w') : w'.client = w.client := by
  obtain ⟨_, hn, -⟩ := h.noted
  exact hn.client

theorem quietly (h : Cut how w halt w') (ha : Alone w.client) : Quietly w w' := by
  obtain ⟨_, hn, hq⟩ := h.noted
  exact hn.quietly ha hq

end Cut

/-! ### Progress -/

/-- **From the phase `p` at `w` to the phase `p'` at `w'`.** Either the phase is still the same, or
what was outstanding has been taken out, or whoever waited for an exchange has been told. A new
exchange has a new delivery number. -/
structure Since (p : Phase Nat) (w : State) (p' : Phase Nat) (w' : State) : Prop where
  moves : w'.outside.moves <:+ w.outside.moves
  grows : w.client.Grows w'.client
  spent : p' = p ∨ p' = p.loose ∨ ∀ id, p.ticket = some id → w'.client.Settled id
  fresh : ∀ l d, p'.slot = some (l, d) → p' = p ∨
    ∀ k, w.client.links[l]? = some k → k.nextDelivery ≤ d

namespace Since

theorem same (hm : w'.outside.moves <:+ w.outside.moves) (hg : w.client.Grows w'.client) :
    Since p w p w' :=
  ⟨hm, hg, .inl rfl, fun _ _ _ => .inl rfl⟩

theorem refl : Since p w p w := same (List.suffix_refl _) (.refl _)

theorem loose (hm : w'.outside.moves <:+ w.outside.moves) (hg : w.client.Grows w'.client) :
    Since p w p.loose w' :=
  ⟨hm, hg, .inr (.inl rfl), fun l d hs => by simp [Phase.loose_still.2] at hs⟩

theorem still (hm : w'.outside.moves <:+ w.outside.moves) (hg : w.client.Grows w'.client)
    (hp : ∀ id, p.ticket = some id → w'.client.Settled id) (hs : p'.slot = none) :
    Since p w p' w' :=
  ⟨hm, hg, .inr (.inr hp), fun l d e => by simp [hs] at e⟩

theorem trans (h : Since p w p' w') (h' : Since p' w' p'' w'') : Since p w p'' w'' := by
  refine ⟨h'.moves.trans h.moves, h.grows.trans h'.grows, ?_, fun l d hs => ?_⟩
  · rcases h.spent with rfl | rfl | hp
    · exact h'.spent
    · rcases h'.spent with rfl | rfl | hp
      · exact .inr (.inl rfl)
      · exact .inr (.inl Phase.loose_loose)
      · exact .inr (.inr fun id e => hp id (Phase.loose_ticket.trans e))
    · exact .inr (.inr fun id e => h'.grows.settled id (hp id e))
  · rcases h'.fresh l d hs with rfl | hd
    · exact h.fresh l d hs
    · refine .inr fun k hk => ?_
      obtain ⟨k', hk', -, hle⟩ := h.grows.link l k hk
      exact Nat.le_trans hle (hd k' hk')

end Since

/-- The invariant holds again, in some phase that was reached from `p` at `w`. -/
def Kept (how : Manners) (p : Phase Nat) (w w' : State) : Prop :=
  ∃ p' co', (how.Civil → p'.Firm) ∧ Inv how p' co' [] w' ∧ Since p w p' w'

/-- A failure was raised, where handlers may raise. -/
def Broken (how : Manners) (p : Phase Nat) (w : State) (e : Halt) (w' : State) : Prop :=
  ¬ how.Tame ∧ (∃ f, e = .raised f) ∧ Kept how p w w'

/-- The computation `x`, started at `v`, ends as it should, and the invariant holds again. -/
def Keeps (how : Manners) (p : Phase Nat) (w : State) (x : Play Unit) (v : State) : Prop :=
  Run.After x v (fun _ w' => Kept how p w w') (Broken how p w)

variable {y : Play Unit} {v : State}

theorem Kept.of (h : Kept how p w v) (hs : Since p' w' p w) : Kept how p' w' v := by
  obtain ⟨q, co, hf, hi, hq⟩ := h
  exact ⟨q, co, hf, hi, hs.trans hq⟩

/-- What was kept from a later phase is kept from an earlier one. -/
theorem Keeps.of (h : Keeps how p w y v) (hs : Since p' w' p w) : Keeps how p' w' y v :=
  h.mono (fun _ _ hk => hk.of hs) fun _ _ hb => ⟨hb.1, hb.2.1, hb.2.2.of hs⟩

/-! ### Sound surroundings -/

/-- **What a client relies on.** Hooks and the endpoint's `attach` come back without a call. While it
takes a request the endpoint may raise events; if it raises a failure in a tame run, then before
anything has happened. -/
structure Sound (how : Manners) (n : Nat) (h : Surroundings) : Prop where
  resume : ∀ {p : Phase Nat} {co : Option Nat} {w : State} (id : Nat) (r : Resolution Unit),
    (how.Civil → p.Firm) → Inv how p co [] w → w.outside.moves.length < n → w.client.Settled id →
    id ∉ resolved w.outside.history → Blamed id r w.outside.history →
    Keeps how p w (h.resume id r) w
  hook : ∀ (w : State) (consumer : Nat) (k : Hook), (∀ m ∈ w.outside.moves, how.Allows m) →
    w.outside.moves.length < n →
    Run.After (h.hook consumer k) w (fun _ w' => Noted [.hooked consumer k none] w w')
      fun e w' => ∃ f, e = .raised f ∧ (how.Civil → f.isReportable) ∧
        Noted [.hooked consumer k (some f)] w w'
  attach : ∀ (w : State) (name : String) (l : Nat), (∀ m ∈ w.outside.moves, how.Allows m) →
    w.outside.moves.length < n →
    Run.After (h.attach name l) w (fun a w' => a = l ∧ Noted [.attached l name] w w')
      fun e w' => ∃ f, e = .raised f ∧ (how.Civil → f.isReportable) ∧ Noted [] w w'
  detach : ∀ (w : State) (l : Nat), w.outside.moves.length < n →
    Run.After (h.detach l) w (fun _ w' => Noted [.detached l] w w') fun _ _ => False
  send : ∀ {p : Phase Nat} {co : Option Nat} {w : State} (l d : Nat) (r : Request),
    (how.Civil → p.Firm) → p.slot = some (l, d) → Inv how p co [] (noting (.sent l d r) w) →
    w.outside.moves.length < n →
    Run.After (h.send l d r) w (fun _ w' => Kept how p (noting (.sent l d r) w) w')
      fun e w' => ∃ f p₂ co₂ w₂, e = .raised f ∧ (how.Civil → f.isReportable) ∧
        (how.Civil → p₂.Firm) ∧ Inv how p₂ co₂ [] w₂ ∧ Since p (noting (.sent l d r) w) p₂ w₂ ∧
        (how.Tame → p₂ = p) ∧ w' = noting (.refused l d f) w₂

end Transact.Adversary
