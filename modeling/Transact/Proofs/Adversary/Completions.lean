import Transact.Proofs.Adversary.Ledger

/-! # The completions in a phase

In every phase the internal completions of the operation in progress are pending, and nobody else
knows them. The completions `hand` are those of a request that has been taken up and not been told
anything yet. In a `tame` run they, and those of the request in progress, are pending, and nothing
else that was ever handed over is.

* `Ids.fresh`, `Ids.again`: a request is made.
* `Ids.add`, `Ids.takeUp`, `Ids.advance`: an operation is started, and goes on.
* `Ids.finish`, `Ids.settle`: it is over, and whoever asked for it is told. -/

namespace Transact

/-- What the surroundings wait with: a completion of their own, perhaps behind some that report a
failure in place of a success. -/
inductive Token.Plain : Token Nat → Prop
  | client {id : Nat} : Plain (.client id id)
  | instead {id : Nat} {f : Failure} {request : Token Nat} : f.Legal → Plain request →
      Plain (.instead id f request)

/-- The completions of a plain token. -/
def Token.ids {κ : Type} : Token κ → List Nat
  | client id _ => [id]
  | instead id _ request => id :: request.ids
  | _ => []

/-- What a token tells in the end. -/
def Token.outcome : Token Nat → Resolution Unit → Resolution Unit
  | instead _ f request, r => request.outcome (.failed (r.cause?.getD f))
  | _, r => r

theorem Token.Plain.legal {q : Token Nat} {r : Resolution Unit} (hq : q.Plain) (hr : r.Legal) :
    (q.outcome r).Legal := by
  induction hq generalizing r with
  | client => exact hr
  | instead hf _ ih => exact ih (hr.instead hf)

/-- All completions of the operation in progress. -/
def Phase.ids (p : Phase Nat) : List Nat := p.lead ++ (p.request.map Token.ids).getD []

namespace Adversary

/-- An aggregate of the one context waits with a completion that was handed over, and commits at most
if it was asked to. -/
structure Owned (past : List Entry) (a : Aggregate Nat) : Prop where
  context : a.context = 0
  request : ∃ id ∈ handed past, a.request = .client id id
  commit : a.sends.commit = true → a.commit = true

/-- **The completions in a phase.** -/
structure Ids (tame : Prop) (p : Phase Nat) (hand : List Nat) (x : Client Nat)
    (past : List Entry) : Prop where
  lead : ∀ id ∈ p.lead, x.Pending id ∧ id ∉ handed past
  lead_nodup : p.lead.Nodup
  request : ∀ r, p.request = some r → r.Plain ∧
    ∀ id ∈ r.ids, id < x.completions.size ∧ (id ∈ handed past → id = r.completion)
  hand_own : ∀ id ∈ hand, id < x.completions.size ∧ id ∉ p.lead
  handed_lt : ∀ id ∈ handed past, id < x.completions.size
  aggregates : ∀ a ∈ x.aggregates, Owned past a
  resolved_settled : ∀ id ∈ resolved past, x.Settled id
  resolved_nodup : (resolved past).Nodup
  nodup : tame → (p.ids ++ hand).Nodup
  pending : tame → ∀ id ∈ p.ids ++ hand, x.Pending id
  rest : tame → ∀ id ∈ handed past, x.Pending id → id ∈ p.ids ++ hand

variable {tame : Prop} {p p' : Phase Nat} {hand : List Nat} {x x' : Client Nat}
  {past past' : List Entry} {id : Nat} {r : Resolution Unit}

namespace Ids

/-! ### What does not matter -/

/-- Only completions and aggregates matter, of the phase only who waits, and of the past only what
was handed over and told. -/
theorem congr (h : Ids tame p hand x past) (hl : p'.lead = p.lead) (hr : p'.request = p.request)
    (hc : x'.completions = x.completions) (ha : x'.aggregates = x.aggregates)
    (hh : handed past' = handed past) (ht : resolved past' = resolved past) :
    Ids tame p' hand x' past' := by
  obtain ⟨_, _, _, _, _⟩ := x
  obtain ⟨_, _, _, _, _⟩ := x'
  subst hc ha
  have hi : p'.ids = p.ids := by simp [Phase.ids, hl, hr]
  constructor
  · rw [hl, hh]
    exact h.lead
  · rw [hl]
    exact h.lead_nodup
  · rw [hr, hh]
    exact h.request
  · rw [hl]
    exact h.hand_own
  · rw [hh]
    exact h.handed_lt
  · intro a ha
    have known := h.aggregates a ha
    exact ⟨known.context, hh ▸ known.request, known.commit⟩
  · rw [ht]
    exact h.resolved_settled
  · rw [ht]
    exact h.resolved_nodup
  · rw [hi]
    exact h.nodup
  · rw [hi]
    exact h.pending
  · rw [hi, hh]
    exact h.rest

/-- Where a handler may raise, nothing is said of a request that has been taken up. -/
theorem drop (ht : ¬ tame) (h : Ids tame p hand x past) : Ids tame p [] x past :=
  ⟨h.lead, h.lead_nodup, h.request, by simp, h.handed_lt, h.aggregates, h.resolved_settled,
    h.resolved_nodup, fun t => absurd t ht, fun t => absurd t ht, fun t => absurd t ht⟩

theorem pick (ht : ¬ tame) (h : Ids tame p [] x past) (hi : id ∈ handed past) :
    Ids tame p [id] x past := by
  refine ⟨h.lead, h.lead_nodup, h.request, fun i hm => ?_, h.handed_lt, h.aggregates,
    h.resolved_settled, h.resolved_nodup, fun t => absurd t ht, fun t => absurd t ht,
    fun t => absurd t ht⟩
  obtain rfl := List.mem_singleton.1 hm
  exact ⟨h.handed_lt i hi, fun hl => (h.lead i hl).2 hi⟩

/-! ### New completions -/

/-- A new completion is at hand. -/
theorem add (h : Ids tame p hand x past) :
    Ids tame p (x.completions.size :: hand) x.addCompletion past := by
  have size : x.addCompletion.completions.size = x.completions.size + 1 := Array.size_push _
  have keep {i : Nat} (hi : x.Pending i) : x.addCompletion.Pending i :=
    Client.pending_addCompletion.2 (.inl hi)
  have fresh {i : Nat} (hi : x.Pending i) : i ≠ x.completions.size := Nat.ne_of_lt hi.lt
  refine ⟨fun i hi => ⟨keep (h.lead i hi).1, (h.lead i hi).2⟩, h.lead_nodup, fun r hr => ?_,
    fun i hi => ?_, fun i hi => ?_, h.aggregates, fun i hi => ?_, h.resolved_nodup, fun t => ?_,
    fun t i hi => ?_, fun t i hi hp => ?_⟩
  · refine ⟨(h.request r hr).1, fun i hi => ?_⟩
    have := (h.request r hr).2 i hi
    exact ⟨by omega, this.2⟩
  · rcases List.mem_cons.1 hi with rfl | hi
    · exact ⟨by omega, fun hl => fresh (h.lead _ hl).1 rfl⟩
    · exact ⟨by have := (h.hand_own i hi).1; omega, (h.hand_own i hi).2⟩
  · have := h.handed_lt i hi
    omega
  · exact Client.Grows.addCompletion.settled i (h.resolved_settled i hi)
  · refine (List.perm_middle.nodup_iff).2 (List.nodup_cons.2 ⟨fun hm => ?_, h.nodup t⟩)
    exact fresh (h.pending t _ hm) rfl
  · rcases List.mem_cons.1 (List.perm_middle.mem_iff.1 hi) with rfl | hi
    · exact Client.pending_addCompletion.2 (.inr rfl)
    · exact keep (h.pending t i hi)
  · refine List.perm_middle.mem_iff.2 (List.mem_cons.2 ?_)
    rcases Client.pending_addCompletion.1 hp with hp | rfl
    · exact .inr (h.rest t i hi hp)
    · exact .inl rfl

theorem requested {o : Operation} {y : Client Nat} (h : Ids tame p [id] x past)
    (hr : ∀ r, p.request = some r → id ∈ r.ids → id = r.completion) :
    Ids tame p [id] x (⟨.requested o id, y⟩ :: past) := by
  have own := h.hand_own id (by simp)
  refine ⟨fun i hi => ⟨(h.lead i hi).1, fun hm => ?_⟩, h.lead_nodup, fun r e => ⟨(h.request r e).1,
    fun i hi => ⟨((h.request r e).2 i hi).1, fun hm => ?_⟩⟩, h.hand_own, fun i hi => ?_,
    fun a ha => ?_, h.resolved_settled, h.resolved_nodup, h.nodup, h.pending, fun t i hi hp => ?_⟩
  · rcases List.mem_cons.1 hm with rfl | hm
    · exact own.2 hi
    · exact (h.lead i hi).2 hm
  · rcases List.mem_cons.1 hm with rfl | hm
    · exact hr r e hi
    · exact ((h.request r e).2 i hi).2 hm
  · rcases List.mem_cons.1 hi with rfl | hi
    · exact own.1
    · exact h.handed_lt i hi
  · obtain ⟨hc, ⟨i, hi, e⟩, hs⟩ := h.aggregates a ha
    exact ⟨hc, ⟨i, List.mem_cons_of_mem _ hi, e⟩, hs⟩
  · rcases List.mem_cons.1 hi with rfl | hi
    · simp
    · exact h.rest t i hi hp

/-- A request is made with a new completion. -/
theorem fresh {o : Operation} {y : Client Nat} (h : Ids tame p [] x past) :
    Ids tame p [x.completions.size] x.addCompletion
      (⟨.requested o x.completions.size, y⟩ :: past) := by
  refine h.add.requested fun r hr hi => ?_
  have := ((h.request r hr).2 _ hi).1
  omega

/-- A request is made with a completion that was handed over before. -/
theorem again {o : Operation} {y : Client Nat} (ht : ¬ tame) (h : Ids tame p [] x past)
    (hi : id ∈ handed past) : Ids tame p [id] x (⟨.requested o id, y⟩ :: past) :=
  (h.pick ht hi).requested fun r hr hm => ((h.request r hr).2 id hm).2 hi

/-! ### Aggregates -/

theorem addAggregate {a : Aggregate Nat} (h : Ids tame p hand x past) (ha : Owned past a) :
    Ids tame p hand (x.addAggregate a) past := by
  refine ⟨h.lead, h.lead_nodup, h.request, h.hand_own, h.handed_lt, fun b hb => ?_,
    h.resolved_settled, h.resolved_nodup, h.nodup, h.pending, h.rest⟩
  rcases Array.mem_push.1 hb with hb | rfl
  · exact h.aggregates b hb
  · exact ha

theorem changeAggregate {i : Nat} {a : Aggregate Nat} {sends : Aggregation}
    (h : Ids tame p hand x past) (ha : x.aggregates[i]? = some a)
    (hc : sends.commit = true → a.sends.commit = true) :
    Ids tame p hand (x.changeAggregate i sends) past := by
  refine ⟨h.lead, h.lead_nodup, h.request, h.hand_own, h.handed_lt, fun b hb => ?_,
    h.resolved_settled, h.resolved_nodup, h.nodup, h.pending, h.rest⟩
  obtain ⟨j, hj⟩ := Array.mem_iff_getElem?.1 hb
  have known := h.aggregates a (Array.mem_of_getElem? ha)
  simp only [Client.changeAggregate, Array.getElem?_modify] at hj
  by_cases hij : i = j
  · subst hij
    simp only [if_true, ha, Option.map_some, Option.some.injEq] at hj
    subst hj
    exact ⟨known.context, known.request, fun e => known.commit (hc e)⟩
  · rw [if_neg hij] at hj
    exact h.aggregates b (Array.mem_of_getElem? hj)

/-! ### The operation in progress -/

/-- New completions at hand become the internal ones of an operation, and what else is at hand is the
request that it carries. -/
theorem takeUp (ns : List Nat) {q : Token Nat} (h : Ids tame p (ns ++ q.ids) x past)
    (hl : p.lead = []) (hr : p.request = none) (hl' : p'.lead = ns) (hr' : p'.request = some q)
    (hq : q.Plain) (hh : ∀ i ∈ q.ids, i ∈ handed past → i = q.completion) (hn : ns.Nodup)
    (hp : ∀ i ∈ ns, x.Pending i ∧ i ∉ handed past) : Ids tame p' [] x past := by
  have hi : p.ids = [] := by simp [Phase.ids, hl, hr]
  have hi' : p'.ids = ns ++ q.ids := by simp [Phase.ids, hl', hr']
  have e : p'.ids ++ [] = p.ids ++ (ns ++ q.ids) := by simp [hi, hi']
  refine ⟨hl' ▸ hp, hl' ▸ hn, fun r hr => ?_, by simp, h.handed_lt, h.aggregates,
    h.resolved_settled, h.resolved_nodup, e ▸ h.nodup, e ▸ h.pending, e ▸ h.rest⟩
  obtain rfl : q = r := Option.some.inj (hr'.symm.trans hr)
  exact ⟨hq, fun i hi => ⟨(h.hand_own i (by simp [hi])).1, hh i hi⟩⟩

/-- The first internal completion is settled, and the operation goes on. -/
theorem advance (p' : Phase Nat) (h : Ids tame p [] x past) (hl : p.lead = id :: p'.lead)
    (hr : p'.request = p.request) : Ids tame p' [] (x.write id (.settled r)) past := by
  have size : (x.write id (.settled r)).completions.size = x.completions.size :=
    Array.size_setIfInBounds
  have hi : p.ids = id :: p'.ids := by simp [Phase.ids, hl, hr]
  have sub {i : Nat} (hm : i ∈ p'.ids) : i ∈ p.ids ++ [] := by simp [hi, hm]
  have nd := List.nodup_cons.1 (hl ▸ h.lead_nodup)
  refine ⟨fun i hm => ?_, nd.2, fun r e => ?_, by simp, fun i hm => ?_, h.aggregates, fun i hm => ?_,
    h.resolved_nodup, fun t => ?_, fun t i hm => ?_, fun t i hh hp => ?_⟩
  · have := h.lead i (by simp [hl, hm])
    refine ⟨Client.pending_write.2 ⟨this.1, ?_⟩, this.2⟩
    rintro rfl
    exact nd.1 hm
  · rw [size]
    exact h.request r (hr ▸ e)
  · rw [size]
    exact h.handed_lt i hm
  · exact Client.Grows.write.settled i (h.resolved_settled i hm)
  · have := h.nodup t
    rw [hi, List.append_nil] at this
    simpa using (List.nodup_cons.1 this).2
  · rw [List.append_nil] at hm
    refine Client.pending_write.2 ⟨h.pending t i (sub hm), ?_⟩
    rintro rfl
    have := h.nodup t
    rw [hi, List.append_nil] at this
    exact (List.nodup_cons.1 this).1 hm
  · obtain ⟨hp, hne⟩ := Client.pending_write.1 hp
    have := h.rest t i hh hp
    rw [hi, List.append_nil] at this
    simpa using (List.mem_cons.1 this).resolve_left hne

/-- An internal completion is settled, and with it the operation is over: its request is at hand. -/
theorem finish {q : Token Nat} (h : Ids tame p [] x past) (hm : id ∈ p.lead)
    (hr : p.request = some q) (hl' : p'.lead = []) (hr' : p'.request = none) :
    Ids tame p' q.ids (x.write id (.settled r)) past := by
  have size : (x.write id (.settled r)).completions.size = x.completions.size :=
    Array.size_setIfInBounds
  have hi : p.ids ++ [] = p.lead ++ q.ids := by simp [Phase.ids, hr]
  have hi' : p'.ids = [] := by simp [Phase.ids, hl', hr']
  refine ⟨by simp [hl'], by simp [hl'], by simp [hr'], fun i hq => ?_, fun i hi => ?_,
    h.aggregates, fun i hi => ?_, h.resolved_nodup, fun t => ?_, fun t i hq => ?_,
    fun t i hh hp => ?_⟩
  · exact ⟨by rw [size]; exact ((h.request q hr).2 i hq).1, by simp [hl']⟩
  · rw [size]
    exact h.handed_lt i hi
  · exact Client.Grows.write.settled i (h.resolved_settled i hi)
  · have := h.nodup t
    rw [hi] at this
    rw [hi', List.nil_append]
    exact (List.nodup_append.1 this).2.1
  · rw [hi', List.nil_append] at hq
    have nd := h.nodup t
    rw [hi] at nd
    refine Client.pending_write.2 ⟨h.pending t i (by rw [hi]; simp [hq]), ?_⟩
    rintro rfl
    exact (List.nodup_append.1 nd).2.2 _ hm _ hq rfl
  · obtain ⟨hp, -⟩ := Client.pending_write.1 hp
    have := h.rest t i hh hp
    rw [hi, List.mem_append] at this
    rw [hi', List.nil_append]
    exact this.resolve_left fun hl => (h.lead i hl).2 hh

/-! ### Telling -/

/-- A completion at hand is settled. -/
theorem settle (h : Ids tame p (id :: hand) x past) :
    Ids tame p hand (x.write id (.settled r)) past := by
  have size : (x.write id (.settled r)).completions.size = x.completions.size :=
    Array.size_setIfInBounds
  have own := h.hand_own id (by simp)
  refine ⟨fun i hi => ?_, h.lead_nodup, fun r hr => ?_, fun i hi => ?_, fun i hi => ?_,
    h.aggregates, fun i hi => ?_, h.resolved_nodup, fun t => ?_, fun t i hi => ?_,
    fun t i hi hp => ?_⟩
  · refine ⟨Client.pending_write.2 ⟨(h.lead i hi).1, ?_⟩, (h.lead i hi).2⟩
    rintro rfl
    exact own.2 hi
  · rw [size]
    exact h.request r hr
  · rw [size]
    exact h.hand_own i (by simp [hi])
  · rw [size]
    exact h.handed_lt i hi
  · exact Client.Grows.write.settled i (h.resolved_settled i hi)
  · exact (List.nodup_cons.1 (List.perm_middle.nodup_iff.1 (h.nodup t))).2
  · have nd := (List.nodup_cons.1 (List.perm_middle.nodup_iff.1 (h.nodup t))).1
    refine Client.pending_write.2 ⟨h.pending t i (List.perm_middle.mem_iff.2 (by simp [hi])), ?_⟩
    rintro rfl
    exact nd hi
  · obtain ⟨hp, hne⟩ := Client.pending_write.1 hp
    have := List.mem_cons.1 (List.perm_middle.mem_iff.1 (h.rest t i hi hp))
    exact this.resolve_left hne

/-- A completion that was settled is told of. -/
theorem told {y : Client Nat} (h : Ids tame p hand x past) (hs : x.Settled id)
    (hn : id ∉ resolved past) : Ids tame p hand x (⟨.resolved id r, y⟩ :: past) := by
  have owned (a : Aggregate Nat) (ha : a ∈ x.aggregates) :
      Owned (⟨.resolved id r, y⟩ :: past) a := by
    obtain ⟨hc, hr, hs⟩ := h.aggregates a ha
    exact ⟨hc, hr, hs⟩
  refine ⟨h.lead, h.lead_nodup, h.request, h.hand_own, h.handed_lt, owned, fun i hi => ?_,
    List.nodup_cons.2 ⟨hn, h.resolved_nodup⟩, h.nodup, h.pending, h.rest⟩
  rcases List.mem_cons.1 hi with rfl | hi
  · exact hs
  · exact h.resolved_settled i hi

end Ids

end Adversary

end Transact
