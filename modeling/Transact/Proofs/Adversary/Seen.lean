import Transact.Proofs.Adversary.Invariant

/-! # What is seen when control comes back

In every phase the tables are coherent, the hooks were called that go with it, and what is outstanding
belongs to the operation in progress.

* `Inv.coherent`, `Inv.conducted`, `Inv.inProgress`: what is to be seen. -/

namespace Transact.Adversary

variable {how : Manners} {p : Phase Nat} {co : Option Nat} {hand : List Nat} {w : State}
  {x : Client Nat} {l d : Nat}

/-! ### The bound transaction -/

theorem protocolId_eq {t : Nat} {y : TxnId} {o : Outside} (hc : (x.context 0).current = some t)
    (hy : (x.transaction t).hint = some y) :
    Context.protocolId 0 ⟨x, o⟩ = .ok (some y) (⟨x, o⟩ : State) := by
  have current : (Act.context 0 : Play Context) ⟨x, o⟩ = .ok (x.context 0) ⟨x, o⟩ := rfl
  have named : (Act.transaction t : Play Transaction) ⟨x, o⟩ = .ok (x.transaction t) ⟨x, o⟩ := rfl
  unfold Context.protocolId
  simp only [bind, EStateM.bind, current, hc, named, hy]
  rfl

theorem Inv.coherent (hi : Inv how p co hand w) (civil : how.Civil) :
    Coherent w.client w.outside.history := by
  obtain ⟨k, hk, hk'⟩ := hi.tables.context
  have e : w.client.context 0 = k := Client.context_eq hk
  constructor
  · rw [e, hk'.current, hk'.accepted]
    simp
  · rw [e, hk'.current, hk'.enrolled]
    simp
  · rw [e, hk'.current, hk'.stage]
    cases p <;> simp [Phase.bound, Phase.stage]
  · rw [e, hk'.current]
    intro hr
    cases hb : p.bound with
    | none =>
      rw [← e, (hi.fits civil).registry hb] at hr
      exact absurd hr (by decide)
    | some b => rfl
  · intro t ht
    have current := (congrArg (·.current) e).trans hk'.current
    rw [e, hk'.current] at ht
    rw [e, hk'.accepted, hk'.enrolled]
    have hint := hi.tables.hint
    have begun := hi.traffic.underway
    cases p with
    | active t' y =>
      cases ht
      obtain ⟨declare, hb⟩ := begun
      exact ⟨declare, y, hb, rfl, rfl, fun _ => protocolId_eq current (hint _ _ rfl)⟩
    | discharging slot t' y =>
      cases ht
      obtain ⟨declare, hb⟩ := begun
      exact ⟨declare, y, hb, rfl, rfl, fun _ => protocolId_eq current (hint _ _ rfl)⟩
    | _ => cases ht

/-! ### Hooks -/

/-- **The hooks were called that go with the stage.** -/
theorem Inv.conducted (hi : Inv how p co hand w) (civil : how.Civil) :
    (course w.outside.history).Conducted w.client := by
  obtain ⟨k, hk, hk'⟩ := hi.tables.context
  have e : w.client.context 0 = k := Client.context_eq hk
  have fits := hi.fits civil
  constructor
  · intro unbound
    cases p with
    | idle => exact fits.unbound unbound
    | opening | declaring => exact congrArg (·.calls) fits.1
    | active => exact absurd (fits.1.bound.symm.trans unbound) nofun
    | discharging => exact absurd (fits.1.bound.symm.trans unbound) nofun
  all_goals
    rw [e, hk'.stage]
    intro hs
    cases p <;> try cases hs
  case declaring.opening => exact fits.1
  case declaring.declaring => exact fits.1
  case active.active => exact ⟨fits.1, fits.2.1⟩
  case discharging.discharging =>
    obtain ⟨opened, calls, discharge, rollback⟩ := fits
    refine ⟨opened, calls, by simp [discharge], fun hu => ?_⟩
    rw [discharge, rollback hu]
    rfl
  case ended.idle =>
    intro bound
    obtain ⟨calls, unprepared, doubt⟩ := fits.bound bound
    refine ⟨calls, e ▸ Course.Rested.registry fits, fun hd => ?_, unprepared⟩
    obtain ⟨l, rfl, m, hm, closed⟩ := doubt hd
    rw [failed, e, hk'.coordinator, Option.any_some, Client.link_eq hm, closed]
    rfl

/-! ### What is outstanding -/

theorem flatMap_range_single {α : Type} {n : Nat} {g : Nat → List α} {a : α} (hl : l < n)
    (hg : g l = [a]) (hn : ∀ i, i < n → i ≠ l → g i = []) : (List.range n).flatMap g = [a] := by
  induction n with
  | zero => cases hl
  | succ n ih =>
    rw [List.range_succ, List.flatMap_append, List.flatMap_cons, List.flatMap_nil, List.append_nil]
    by_cases h : l = n
    · subst h
      have before : (List.range l).flatMap g = [] :=
        List.flatMap_eq_nil_iff.2 fun i hi => hn i (by have := List.mem_range.1 hi; omega)
          (Nat.ne_of_lt (List.mem_range.1 hi))
      rw [before, hg, List.nil_append]
    · rw [ih (by omega) fun i hi => hn i (by omega), hn n (by omega) (Ne.symm h), List.append_nil]

theorem outstanding_link (h : At whole p co x) {i : Nat} (hi : i < x.links.size) :
    ((if (x.link i).state = .building then [Outstanding.building i] else []) ++
      (x.link i).pending.map fun e => .exchange i e.1 e.2) =
    (if p.building = some i then [.building i] else []) ++
      (p.pendingAt 0 i).map fun e => .exchange i e.1 e.2 := by
  have hk := Array.getElem?_eq_getElem hi
  have o := h.link i _ trivial hk
  have iff : (x.link i).state = .building ↔ p.building = some i := by
    rw [Client.link_eq hk]
    refine ⟨o.building, fun e => ?_⟩
    obtain ⟨-, ⟨k, hk', hs⟩, -⟩ := h.building i e
    obtain rfl := Option.some.inj (hk.symm.trans hk')
    exact hs
  simp only [iff]
  rw [Client.link_eq hk, o.pending]
  rfl

theorem outstanding_still (h : At whole p co x) (hp : p.Still) : outstanding x = [] := by
  refine List.flatMap_eq_nil_iff.2 fun i hi => ?_
  rw [outstanding_link h (List.mem_range.1 hi), hp.pendingAt, hp.1]
  rfl

theorem outstanding_building (h : At whole p co x) (hb : p.building = some l) :
    outstanding x = [.building l] := by
  obtain ⟨-, ⟨k, hk, -⟩, -⟩ := h.building l hb
  have lt := (Array.getElem?_eq_some_iff.1 hk).1
  have none (i : Nat) : p.pendingAt 0 i = [] :=
    Phase.pendingAt_of_ne (by simp [Phase.slot_eq_none_of_building hb])
  refine flatMap_range_single lt ?_ fun i hi hne => ?_
  · rw [outstanding_link h lt, none, if_pos hb]
    rfl
  · rw [outstanding_link h hi, none, hb, if_neg fun e => hne (Option.some.inj e).symm]
    rfl

theorem outstanding_exchange (h : At whole p co x) (hs : p.slot = some (l, d)) {e : Exchange Nat}
    (he : p.exchange 0 = some e) : outstanding x = [.exchange l d e] := by
  obtain ⟨-, k, hk, -, -⟩ := h.slot l d hs
  obtain ⟨e', he', hpe⟩ := Phase.pendingAt_slot (c := 0) hs
  obtain rfl := Option.some.inj (he.symm.trans he')
  have lt := (Array.getElem?_eq_some_iff.1 hk).1
  refine flatMap_range_single lt ?_ fun i hi hne => ?_
  · rw [outstanding_link h lt, hpe, Phase.building_eq_none_of_slot hs]
    rfl
  · rw [outstanding_link h hi, Phase.building_eq_none_of_slot hs, Phase.pendingAt_of_ne]
    · rfl
    · intro d' e'
      exact hne (congrArg Prod.fst (Option.some.inj (e'.symm.trans hs)))

theorem outstanding_request (h : At whole p co x) (hf : p.Firm) {q : Token Nat}
    (hr : p.request = some q) : ∃ o, outstanding x = [o] ∧ o.completion x = some q.completion := by
  cases p with
  | opening link =>
    cases hr
    cases link with
    | none => exact hf.elim
    | some l =>
      obtain ⟨-, ⟨k, hk, -⟩, -⟩ := h.building l rfl
      refine ⟨_, outstanding_building h rfl, ?_⟩
      rw [Outstanding.completion, Client.link_eq hk, (h.link l k trivial hk).opening]
      simp only [Phase.openingAt, if_true]
      rfl
  | declaring slot =>
    cases hr
    rcases slot with _ | ⟨l, d⟩
    · exact hf.elim
    · exact ⟨_, outstanding_exchange h rfl rfl, rfl⟩
  | discharging slot =>
    cases hr
    rcases slot with _ | ⟨l, d⟩
    · exact hf.elim
    · exact ⟨_, outstanding_exchange h rfl rfl, rfl⟩
  | _ => cases hr

theorem Inv.inProgress (ht : how.Tame) (hf : p.Firm) (hi : Inv how p co [] w) :
    InProgress w.client w.outside.history := by
  have h := hi.tables
  obtain ⟨c, hc, hc'⟩ := h.context
  have e : w.client.context 0 = c := Client.context_eq hc
  have opened {l d : Nat} (hs : p.slot = some (l, d)) :
      c.coordinator = some l ∧ (w.client.link l).state = .opened := by
    obtain ⟨hco, k, hk, ho, -⟩ := h.slot l d hs
    exact ⟨hc'.coordinator.trans hco, by rw [Client.link_eq hk]; exact ho⟩
  constructor
  · rw [e, hc'.stage]
    intro hs
    cases p with
    | opening link =>
      cases link with
      | none => exact hf.elim
      | some l =>
        obtain ⟨-, ⟨k, hk, hb⟩, -⟩ := h.building l rfl
        obtain ⟨s, hsender, -⟩ := (h.link l k trivial hk).sender (by simp [hb])
        refine .inl ⟨l, outstanding_building h rfl, ?_⟩
        rw [Client.link_eq hk, hsender]
        rfl
    | declaring slot =>
      rcases slot with _ | ⟨l, d⟩
      · exact hf.elim
      · exact .inr ⟨l, d, _, outstanding_exchange h rfl rfl, rfl, opened rfl⟩
    | _ => cases hs
  · rw [e, hc'.stage, hc'.current]
    intro hs
    cases p with
    | discharging slot =>
      rcases slot with _ | ⟨l, d⟩
      · exact hf.elim
      · exact ⟨l, d, _, outstanding_exchange h rfl rfl, rfl, rfl, opened rfl⟩
    | _ => cases hs
  · rw [e, hc'.stage]
    intro hs
    obtain ⟨still, ids⟩ : p.Still ∧ p.ids = [] := by
      cases p with
      | idle | active => exact ⟨⟨rfl, rfl⟩, rfl⟩
      | _ => rcases hs with hs | hs <;> cases hs
    refine ⟨outstanding_still h still, fun id hid => ?_⟩
    refine (Client.pending_or_settled (hi.ids.handed_lt id hid)).resolve_left fun hp => ?_
    have := hi.ids.rest ht id hid hp
    rw [ids] at this
    cases this
  · intro id hid hp
    have := hi.ids.rest ht id hid hp
    rw [List.append_nil, Phase.ids, List.mem_append] at this
    rcases this with hl | hr
    · exact absurd hid (hi.ids.lead id hl).2
    · cases hq : p.request with
      | none => simp [hq] at hr
      | some q =>
        rw [hq] at hr
        obtain rfl := ((hi.ids.request q hq).2 id hr).2 hid
        exact outstanding_request h hf hq

end Transact.Adversary
