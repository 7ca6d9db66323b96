import Transact.Proofs.Adversary.Ledger

/-! # The requests in a phase

All requests are answered but the one that is outstanding, and those whose link has closed. The
latest request and the latest begin tell how the phase came about.

* `Traffic.grow`, `Traffic.loosen`: the tables change, and the history does not.
* `Traffic.other`, `Traffic.takeOut`, `Traffic.declared`: a request is answered.
* `Traffic.sent`: a request is handed over. -/

namespace Transact.Adversary

/-! ### Events -/

/-- Events that say nothing of requests, of begins or of completions. -/
def Event.Quiet : Event → Prop
  | requested .. | resolved .. | sent .. | refused .. | signalled (.settled ..) => False
  | _ => True

/-- From `past` to `past'` the delivery `d` on the link `l` was answered by `a`, and nothing else
has happened. -/
structure Answered (l d : Nat) (a : Answer) (past past' : List Entry) : Prop where
  requests : requests past' = (requests past).map (·.answered l d a)
  begun : begun past' = begun past ∨ ∃ s, begun past' = (begun past).map (·.answered l d s)
  handed : handed past' = handed past
  resolved : resolved past' = resolved past

variable {l d : Nat} {e : Entry} {x x' : Client Nat} {past past' : List Entry} {a : Answer}

theorem answered_settled {s : Settlement} :
    Answered l d (.settled s) past (⟨.signalled (.settled l d s), x⟩ :: past) :=
  ⟨rfl, .inr ⟨s, rfl⟩, rfl, rfl⟩

theorem answered_refused {f : Failure} :
    Answered l d .refused past (⟨.refused l d f, x⟩ :: past) :=
  ⟨rfl, .inl rfl, rfl, rfl⟩

theorem requests_quiet (h : e.event.Quiet) : requests (e :: past) = requests past := by
  obtain ⟨e, x⟩ := e
  cases e with
  | signalled s =>
    cases s with
    | settled => exact h.elim
    | _ => rfl
  | sent => exact h.elim
  | refused => exact h.elim
  | _ => rfl

theorem begun_quiet (h : e.event.Quiet) : begun (e :: past) = begun past := by
  obtain ⟨e, x⟩ := e
  cases e with
  | signalled s =>
    cases s with
    | settled => exact h.elim
    | _ => rfl
  | requested => exact h.elim
  | sent => exact h.elim
  | _ => rfl

theorem handed_quiet (h : e.event.Quiet) : handed (e :: past) = handed past := by
  obtain ⟨e, x⟩ := e
  cases e with
  | requested => exact h.elim
  | _ => rfl

theorem resolved_quiet (h : e.event.Quiet) : resolved (e :: past) = resolved past := by
  obtain ⟨e, x⟩ := e
  cases e with
  | resolved => exact h.elim
  | _ => rfl

/-! ### Answers -/

variable {q : Sent} {b : Begun}

@[simp]
theorem Sent.answered_link : (q.answered l d a).link = q.link := by
  unfold answered
  split <;> rfl

@[simp]
theorem Sent.answered_delivery : (q.answered l d a).delivery = q.delivery := by
  unfold answered
  split <;> rfl

@[simp]
theorem Sent.answered_request : (q.answered l d a).request = q.request := by
  unfold answered
  split <;> rfl

theorem Sent.answered_of_isSome (h : q.answer.isSome) : q.answered l d a = q :=
  if_neg fun hc => by simp [Option.isNone_iff_eq_none.1 hc.2.2] at h

theorem Sent.answered_of_ne (h : (q.link, q.delivery) ≠ (l, d)) : q.answered l d a = q :=
  if_neg fun hc => h (by rw [hc.1, hc.2.1])

theorem Sent.answered_none (h : (q.answered l d a).answer = none) :
    q.answer = none ∧ (q.link, q.delivery) ≠ (l, d) := by
  unfold answered at h
  split at h
  · simp at h
  · next hc =>
    refine ⟨h, fun e => hc ?_⟩
    obtain ⟨hl, hd⟩ := Prod.mk.inj e
    exact ⟨hl, hd, by simp [h]⟩

@[simp]
theorem Begun.answered_transaction {s : Settlement} :
    (b.answered l d s).transaction = b.transaction := by
  unfold answered
  split <;> rfl

theorem Begun.answered_of_isSome {s : Settlement} (h : b.answer.isSome) : b.answered l d s = b :=
  if_neg fun hc => by simp [Option.isNone_iff_eq_none.1 hc.2] at h

theorem Begun.answered_of_ne {s : Settlement} (h : b.declare ≠ some (l, d)) :
    b.answered l d s = b :=
  if_neg fun hc => h hc.1

/-! ### The invariant -/

/-- How the latest requests fit the phase. -/
def Standing : Phase Nat → Option Nat → List Sent → Prop
  | .declaring (some (l, d)) .., _, R => R.head? = some ⟨l, d, .declare, none⟩
  | .active _ y, co, R => ∃ l d, co = some l ∧
    R.head? = some ⟨l, d, .declare, some (.settled (.declared (some y)))⟩
  | _, _, _ => True

/-- How the latest begin fits the phase. -/
def Underway : Phase Nat → Option Begun → Prop
  | .idle, _ => True
  | .opening _ t .., b => b.map (·.transaction) = some t
  | .declaring (some s) t .., b => b = some ⟨t, some s, none⟩
  | .declaring none t .., b => b.map (·.transaction) = some t
  | .active t y, b | .discharging _ t y .., b =>
    ∃ declare, b = some ⟨t, some declare, some (.declared (some y))⟩

/-- **The requests in a phase.** All are answered but the one that is outstanding, and those whose
link has closed. -/
structure Traffic (p : Phase Nat) (co : Option Nat) (x : Client Nat) (past : List Entry) : Prop where
  answered : ∀ q ∈ requests past, q.answer = none →
    p.slot = some (q.link, q.delivery) ∨ x.Closed q.link
  counted : ∀ q ∈ requests past, ∃ k, x.links[q.link]? = some k ∧ q.delivery < k.nextDelivery
  standing : Standing p co (requests past)
  underway : Underway p (begun past)

variable {p p' : Phase Nat} {co co' : Option Nat}

theorem Standing.loose {R : List Sent} (h : Standing p co R) : Standing p.loose co R := by
  cases p with
  | active => exact h
  | _ => trivial

theorem Underway.loose {b : Option Begun} (h : Underway p b) : Underway p.loose b := by
  cases p with
  | declaring slot =>
    cases slot with
    | none => exact h
    | some s =>
      obtain rfl := h
      rfl
  | _ => exact h

/-- A settlement of another delivery is of no account. -/
theorem Underway.other {b : Option Begun} {s : Settlement} (h : Underway p b)
    (hs : p.slot ≠ some (l, d)) : Underway p (b.map (·.answered l d s)) := by
  cases p with
  | idle => trivial
  | opening => simpa [Underway, Function.comp_def] using h
  | declaring slot =>
    cases slot with
    | none => simpa [Underway, Function.comp_def] using h
    | some s' =>
      obtain rfl := h
      exact congrArg some (Begun.answered_of_ne hs)
  | active =>
    obtain ⟨declare, rfl⟩ := h
    exact ⟨declare, congrArg some (Begun.answered_of_isSome rfl)⟩
  | discharging =>
    obtain ⟨declare, rfl⟩ := h
    exact ⟨declare, congrArg some (Begun.answered_of_isSome rfl)⟩

theorem Standing.other {R : List Sent} (h : Standing p co R) (hs : p.slot ≠ some (l, d)) :
    Standing p co (R.map (·.answered l d a)) := by
  cases p with
  | declaring slot =>
    cases slot with
    | none => trivial
    | some s =>
      show (R.map _).head? = _
      rw [List.head?_map, show R.head? = _ from h]
      exact congrArg some (Sent.answered_of_ne fun e => hs (congrArg some e))
  | active =>
    obtain ⟨i, j, hco, hR⟩ := h
    refine ⟨i, j, hco, ?_⟩
    rw [List.head?_map, hR]
    exact congrArg some (Sent.answered_of_isSome rfl)
  | _ => trivial

namespace Traffic

/-! ### The tables change -/

theorem grow (h : Traffic p co x past) (hg : x.Grows x') (hr : requests past' = requests past)
    (hb : begun past' = begun past) : Traffic p co x' past' := by
  refine ⟨fun q hq ha => ?_, fun q hq => ?_, hr ▸ h.standing, hb ▸ h.underway⟩
  · exact (h.answered q (hr ▸ hq) ha).imp id hg.closed
  · obtain ⟨k, hk, hd⟩ := h.counted q (hr ▸ hq)
    obtain ⟨k', hk', -, hd'⟩ := hg.link q.link k hk
    exact ⟨k', hk', Nat.lt_of_lt_of_le hd hd'⟩

theorem relabel (p' : Phase Nat) (h : Traffic p co x past) (hs : p.slot = none)
    (hst : Standing p' co' (requests past)) (hu : Underway p' (begun past)) :
    Traffic p' co' x past :=
  ⟨fun q hq ha => .inr ((h.answered q hq ha).resolve_left (by simp [hs])), h.counted, hst, hu⟩

/-- The link with the outstanding exchange has closed. -/
theorem loosen (h : Traffic p co x past) (hg : x.Grows x')
    (hc : ∀ l d, p.slot = some (l, d) → x'.Closed l) : Traffic p.loose co x' past := by
  refine ⟨fun q hq ha => .inr ?_, (h.grow hg rfl rfl).counted, h.standing.loose, h.underway.loose⟩
  rcases h.answered q hq ha with hs | hs
  · exact hc _ _ hs
  · exact hg.closed hs

/-! ### The history grows -/

/-- A request is made. It begins a transaction at most while the context is idle. -/
theorem requested {o : Operation} {id : Nat} {y : Client Nat} (h : Traffic p co x past)
    (hs : (y.context 0).stage = p.stage) : Traffic p co x (⟨.requested o id, y⟩ :: past) := by
  refine ⟨h.answered, h.counted, h.standing, ?_⟩
  cases o with
  | begin t =>
    show Underway p (if (y.context 0).stage = .idle then _ else _)
    cases p with
    | idle => trivial
    | _ =>
      rw [if_neg (by rw [hs]; exact Stage.noConfusion)]
      exact h.underway
  | _ => exact h.underway

theorem other (h : Traffic p co x past) (ha : Answered l d a past past')
    (hs : p.slot ≠ some (l, d)) : Traffic p co x past' := by
  refine ⟨fun q hq hn => ?_, fun q hq => ?_, ?_, ?_⟩
  · obtain ⟨q', hq', rfl⟩ := List.mem_map.1 (ha.requests ▸ hq)
    simpa using h.answered q' hq' (Sent.answered_none hn).1
  · obtain ⟨q', hq', rfl⟩ := List.mem_map.1 (ha.requests ▸ hq)
    simpa using h.counted q' hq'
  · rw [ha.requests]
    exact h.standing.other hs
  · rcases ha.begun with e | ⟨s, e⟩
    · rw [e]
      exact h.underway
    · rw [e]
      exact h.underway.other hs

/-- The outstanding exchange is answered. -/
theorem takeOut (h : Traffic p co x past) (hg : x.Grows x') (ha : Answered l d a past past')
    (hs : p.slot = some (l, d)) : Traffic p.loose co x' past' := by
  have loose : p.loose.slot ≠ some (l, d) := by simp [Phase.loose_still.2]
  refine ⟨fun q hq hn => .inr ?_, fun q hq => ?_, ?_, ?_⟩
  · obtain ⟨q', hq', rfl⟩ := List.mem_map.1 (ha.requests ▸ hq)
    obtain ⟨hn, hne⟩ := Sent.answered_none hn
    rw [Sent.answered_link]
    refine hg.closed ((h.answered q' hq' hn).resolve_left fun e => hne ?_)
    exact Option.some.inj (e.symm.trans hs)
  · obtain ⟨q', hq', rfl⟩ := List.mem_map.1 (ha.requests ▸ hq)
    simpa using (h.grow hg rfl rfl).counted q' hq'
  · rw [ha.requests]
    exact h.standing.loose.other loose
  · rcases ha.begun with e | ⟨s, e⟩
    · rw [e]
      exact h.underway.loose
    · rw [e]
      exact h.underway.loose.other loose

/-- The outstanding declare is answered with a name. -/
theorem declared {t id : Nat} {request : Token Nat} {y : TxnId} {z : Client Nat}
    (h : Traffic (.declaring (some (l, d)) t id request) (some l) x past) (hg : x.Grows x') :
    Traffic (.active t y) (some l) x'
      (⟨.signalled (.settled l d (.declared (some y))), z⟩ :: past) := by
  have loose := h.takeOut hg (answered_settled (s := .declared (some y)) (x := z)) rfl
  refine loose.relabel _ rfl ⟨l, d, rfl, ?_⟩ ⟨(l, d), ?_⟩
  · show ((requests past).map _).head? = _
    rw [List.head?_map, show (requests past).head? = _ from h.standing]
    exact congrArg some (if_pos ⟨rfl, rfl, rfl⟩)
  · show (begun past).map _ = _
    rw [show begun past = _ from h.underway]
    exact congrArg some (if_pos ⟨rfl, rfl⟩)

/-- A request is handed over. -/
theorem sent {r : Request} (h : Traffic p co x past) (hg : x.Grows x') (hs : p.slot = none)
    (hs' : p'.slot = some (l, d)) (hd : ∃ k, x'.links[l]? = some k ∧ d < k.nextDelivery)
    (hst : Standing p' co' (⟨l, d, r, none⟩ :: requests past))
    (hu : Underway p' (begun (⟨.sent l d r, x'⟩ :: past))) :
    Traffic p' co' x' (⟨.sent l d r, x'⟩ :: past) := by
  have grown := h.grow hg rfl rfl
  refine ⟨fun q hq hn => ?_, fun q hq => ?_, hst, hu⟩
  · rcases List.mem_cons.1 hq with rfl | hq
    · exact .inl hs'
    · exact .inr ((grown.answered q hq hn).resolve_left (by simp [hs]))
  · rcases List.mem_cons.1 hq with rfl | hq
    · exact hd
    · exact grown.counted q hq

end Traffic

end Transact.Adversary
