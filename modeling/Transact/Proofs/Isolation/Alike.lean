import Transact.Proofs.Isolation.Brokers

/-! # Two computations alike

A computation of a session that shares its peer, and the same computation of the session alone: in
states that mirror each other they end in the same way, in states that mirror each other again. What
others have is left as it was, and what is scheduled on both sides is the same.

`Alike` says so, with a relation between what the two return. The rules below follow the way in which
computations are put together, so that two programs of the same shape are stepped through at once. -/

namespace Transact.Peer.Isolation.Pairing

open Run

variable {ρ ρ' ρ'' : Pairing} {w v w' v' w'' v'' : State} {k k' : Kind} {a b : Nat}

/-- Pairs two numbers besides. -/
def withNumber (ρ : Pairing) (k : Kind) (a b : Nat) : Pairing :=
  { ρ with numbers := fun k' x y => ρ.numbers k' x y ∨ (k' = k ∧ x = a ∧ y = b) }

theorem grows_withNumber : ρ.Grows (ρ.withNumber k a b) := ⟨.inl, id, id, rfl⟩

/-! ### States -/

/-- The state that a session shares holds for it what its own state holds. -/
structure Mirrors (ρ : Pairing) (w v : State) : Prop where
  broker : ρ.Brokers w.outside.broker v.outside.broker
  entries : ∀ k a b, ρ.numbers k a b →
    ∃ x y, (k.table w)[a]? = some x ∧ (k.table v)[b]? = some y ∧ ρ.Entries k x y
  linked : ∀ e ∈ w.outside.broker.transactions.entries, e.2.link < w.outside.endpoints.size
  opens : w.outside.refusesLinks = false ∧ v.outside.refusesLinks = false

/-- Nothing was done to what belongs to others. -/
structure Spares (ρ : Pairing) (w w' : State) : Prop where
  entries : ∀ k a, (∀ b, ¬ ρ.numbers k a b) → (k.table w')[a]? = (k.table w)[a]?
  size : ∀ k : Kind, (k.table w).size ≤ (k.table w').size
  broker : ρ.SparesBroker w.outside.broker w'.outside.broker

/-- What is paired besides was not there yet. -/
structure Fresh (ρ ρ' : Pairing) (w : State) : Prop where
  numbers : ∀ k a b, ρ'.numbers k a b → ρ.numbers k a b ∨ (k.table w).size ≤ a
  names : ∀ t u, ρ'.names t u → ρ.names t u ∨ ¬ Given w.outside.broker.txnCounter t
  tags : ∀ m n, ρ'.tags m n → ρ.tags m n ∨ w.outside.broker.tagCounter ≤ m

/-- From two states that mirror each other, two others were reached that do. New links are paired in
their order, and so are the tasks that were scheduled. -/
structure Follows (ρ ρ' : Pairing) (w v w' v' : State) : Prop where
  grows : ρ.Grows ρ'
  fresh : ρ.Fresh ρ' w
  mirrors : ρ'.Mirrors w' v'
  spares : ρ'.Spares w w'
  links : ∃ n, w'.client.links.size = w.client.links.size + n ∧
    v'.client.links.size = v.client.links.size + n ∧
    ∀ i < n, ρ'.numbers .link (w.client.links.size + i) (v.client.links.size + i)
  scheduled : ∃ ts us, tasks w' = tasks w ++ ts ∧ tasks v' = tasks v ++ us ∧
    List.Forall₂ ρ'.Tasks ts us

theorem SparesBroker.mono {b b' : Broker} (h : ρ.SparesBroker b b') (hg : ρ.Grows ρ') :
    ρ'.SparesBroker b b' where
  queues a ha := h.queues a (hg.mine ▸ ha)
  records P hP := h.records P fun e he => by
    obtain ⟨f, hf⟩ := owns_iff.1 he
    exact hP e (owns_of (hg.numbers hf))
  inflight m hm := h.inflight m fun n hn => hm n (hg.tags hn)
  txnCounter := h.txnCounter
  tagCounter := h.tagCounter

theorem Spares.refl : ρ.Spares w w := ⟨fun _ _ _ => rfl, fun _ => Nat.le_refl _, .refl⟩

theorem Spares.mono (h : ρ.Spares w w') (hg : ρ.Grows ρ') : ρ'.Spares w w' :=
  ⟨fun k a ha => h.entries k a fun b hb => ha b (hg.numbers hb), h.size, h.broker.mono hg⟩

theorem Spares.trans (h : ρ.Spares w w') (h' : ρ.Spares w' w'') : ρ.Spares w w'' :=
  ⟨fun k a ha => (h'.entries k a ha).trans (h.entries k a ha),
    fun k => Nat.le_trans (h.size k) (h'.size k), h.broker.trans h'.broker⟩

theorem Fresh.refl : ρ.Fresh ρ w := ⟨fun _ _ _ => .inl, fun _ _ => .inl, fun _ _ => .inl⟩

theorem Fresh.trans (h : ρ.Fresh ρ' w) (hs : ρ'.Spares w w') (h' : ρ'.Fresh ρ'' w') :
    ρ.Fresh ρ'' w where
  numbers k a b hab := by
    rcases h'.numbers k a b hab with hab | le
    · exact h.numbers k a b hab
    · exact .inr (Nat.le_trans (hs.size k) le)
  names t u ht := by
    rcases h'.names t u ht with ht | new
    · exact h.names t u ht
    · exact .inr fun old => new (old.mono hs.broker.txnCounter)
  tags m n hm := by
    rcases h'.tags m n hm with hm | le
    · exact h.tags m n hm
    · exact .inr (Nat.le_trans hs.broker.tagCounter le)

theorem Follows.of_same (hg : ρ.Grows ρ') (hf : ρ.Fresh ρ' w) (hm : ρ'.Mirrors w' v')
    (hs : ρ'.Spares w w') (hl : w'.client.links.size = w.client.links.size)
    (hl' : v'.client.links.size = v.client.links.size) (ht : tasks w' = tasks w)
    (ht' : tasks v' = tasks v) : ρ.Follows ρ' w v w' v' where
  grows := hg
  fresh := hf
  mirrors := hm
  spares := hs
  links := ⟨0, hl, hl', fun i hi => absurd hi (Nat.not_lt_zero i)⟩
  scheduled := ⟨[], [], by simpa using ht, by simpa using ht', .nil⟩

theorem Mirrors.follows_self (h : ρ.Mirrors w v) : ρ.Follows ρ w v w v :=
  .of_same (.refl ρ) .refl h .refl rfl rfl rfl rfl

theorem Follows.trans (h : ρ.Follows ρ' w v w' v') (h' : ρ'.Follows ρ'' w' v' w'' v'') :
    ρ.Follows ρ'' w v w'' v'' where
  grows := h.grows.trans h'.grows
  fresh := h.fresh.trans h.spares h'.fresh
  mirrors := h'.mirrors
  spares := (h.spares.mono h'.grows).trans h'.spares
  links := by
    obtain ⟨n, hw, hv, paired⟩ := h.links
    obtain ⟨n', hw', hv', paired'⟩ := h'.links
    refine ⟨n + n', by omega, by omega, fun i hi => ?_⟩
    by_cases hin : i < n
    · exact h'.grows.numbers (paired i hin)
    · have := paired' (i - n) (by omega)
      have e : w'.client.links.size + (i - n) = w.client.links.size + i := by omega
      have e' : v'.client.links.size + (i - n) = v.client.links.size + i := by omega
      rwa [e, e'] at this
  scheduled := by
    obtain ⟨ts, us, hw, hv, paired⟩ := h.scheduled
    obtain ⟨ts', us', hw', hv', paired'⟩ := h'.scheduled
    refine ⟨ts ++ ts', us ++ us', ?_, ?_, ?_⟩
    · rw [hw', hw, List.append_assoc]
    · rw [hv', hv, List.append_assoc]
    · exact List.rel_append (paired.imp fun _ _ => Tasks.mono h'.grows) paired'

/-! ### Changes of tables -/

theorem Mirrors.found (h : ρ.Mirrors w v) (hab : ρ.numbers k a b) {d e : k.Entry} :
    ρ.Entries k ((k.table w)[a]?.getD d) ((k.table v)[b]?.getD e) := by
  obtain ⟨x, y, hx, hy, paired⟩ := h.entries k a b hab
  rw [hx, hy]
  exact paired

theorem Mirrors.lt (h : ρ.Mirrors w v) (hab : ρ.numbers k a b) :
    a < (k.table w).size ∧ b < (k.table v).size := by
  obtain ⟨x, y, hx, hy, -⟩ := h.entries k a b hab
  exact ⟨(Array.getElem?_eq_some_iff.1 hx).1, (Array.getElem?_eq_some_iff.1 hy).1⟩

theorem size_alter (k' : Kind) {f : k.Entry → k.Entry} :
    (k'.table (k.alter a f w)).size = (k'.table w).size := by
  by_cases e : k' = k
  · subst e
    rw [Kind.alter, Kind.table_withTable, Array.size_modify]
  · rw [Kind.alter, Kind.table_withTable_other e]

theorem getElem?_alter_other {f : k.Entry → k.Entry} {i : Nat} (h : ¬ (k' = k ∧ i = a)) :
    (k'.table (k.alter a f w))[i]? = (k'.table w)[i]? := by
  by_cases e : k' = k
  · subst e
    rw [Kind.alter, Kind.table_withTable, Array.getElem?_modify, if_neg fun ia => h ⟨rfl, ia.symm⟩]
  · rw [Kind.alter, Kind.table_withTable_other e]

theorem getElem?_alter_same {f : k.Entry → k.Entry} :
    (k.table (k.alter a f w))[a]? = (k.table w)[a]?.map f := by
  rw [Kind.alter, Kind.table_withTable, Array.getElem?_modify, if_pos rfl]

theorem Mirrors.alter (h : ρ.Mirrors w v) (hab : ρ.numbers k a b) {f g : k.Entry → k.Entry}
    (hfg : ∀ x y, ρ.Entries k x y → ρ.Entries k (f x) (g y)) :
    ρ.Follows ρ w v (k.alter a f w) (k.alter b g v) := by
  refine .of_same (.refl ρ) .refl ⟨?_, fun k' i j hij => ?_, fun e he => ?_, ?_⟩
    ⟨fun k' i hi => ?_, fun k' => ?_, ?_⟩ ?_ ?_ ?_ ?_
  · unfold Kind.alter
    rw [Kind.broker_withTable, Kind.broker_withTable]
    exact h.broker
  · obtain ⟨x, y, hx, hy, paired⟩ := h.entries k' i j hij
    by_cases e : k' = k
    · subst e
      have same : i = a ↔ j = b := Relator.rel_eq (h.broker.faithful.numbers _) hij hab
      by_cases hi : i = a
      · obtain rfl := hi
        obtain rfl := same.1 rfl
        exact ⟨f x, g y, by rw [getElem?_alter_same, hx]; rfl, by rw [getElem?_alter_same, hy]; rfl,
          hfg x y paired⟩
      · exact ⟨x, y, by rw [getElem?_alter_other fun e => hi e.2, hx],
          by rw [getElem?_alter_other fun e => hi (same.2 e.2), hy], paired⟩
    · exact ⟨x, y, by rw [getElem?_alter_other fun h => e h.1, hx],
        by rw [getElem?_alter_other fun h => e h.1, hy], paired⟩
  · rw [Kind.alter, Kind.broker_withTable] at he
    have size : (k.alter a f w).outside.endpoints.size = w.outside.endpoints.size :=
      size_alter .endpoint
    rw [size]
    exact h.linked e he
  · unfold Kind.alter
    rw [Kind.refusesLinks_withTable, Kind.refusesLinks_withTable]
    exact h.opens
  · refine getElem?_alter_other ?_
    rintro ⟨rfl, rfl⟩
    exact hi b hab
  · exact Nat.le_of_eq (size_alter _).symm
  · rw [Kind.alter, Kind.broker_withTable]
    exact .refl
  · exact size_alter .link
  · exact size_alter .link
  · exact Kind.tasks_withTable
  · exact Kind.tasks_withTable

theorem getElem?_extend_old {x : k.Entry} {i : Nat} (h : ¬ (k' = k ∧ i = (k.table w).size)) :
    (k'.table (k.extend x w))[i]? = (k'.table w)[i]? := by
  by_cases e : k' = k
  · subst e
    rw [Kind.extend, Kind.table_withTable, Array.getElem?_push, if_neg fun ia => h ⟨rfl, ia⟩]
  · rw [Kind.extend, Kind.table_withTable_other e]

theorem getElem?_extend_new {x : k.Entry} :
    (k.table (k.extend x w))[(k.table w).size]? = some x := by
  rw [Kind.extend, Kind.table_withTable, Array.getElem?_push, if_pos rfl]

theorem size_extend {x : k.Entry} : (k.table (k.extend x w)).size = (k.table w).size + 1 := by
  rw [Kind.extend, Kind.table_withTable, Array.size_push]

theorem size_extend_other {x : k.Entry} (h : k' ≠ k) :
    (k'.table (k.extend x w)).size = (k'.table w).size := by
  rw [Kind.extend, Kind.table_withTable_other h]

theorem size_le_extend (k' : Kind) {x : k.Entry} :
    (k'.table w).size ≤ (k'.table (k.extend x w)).size := by
  by_cases e : k' = k
  · subst e
    rw [size_extend]
    exact Nat.le_succ _
  · rw [size_extend_other e]

theorem Mirrors.faithful_withNumber (h : ρ.Mirrors w v) :
    (ρ.withNumber k (k.table w).size (k.table v).size).Faithful where
  numbers k' := by
    by_cases e : k' = k
    · subst e
      have old := biUnique_insert (h.broker.faithful.numbers k')
        (fun b hb => Nat.lt_irrefl _ (h.lt hb).1) (fun a ha => Nat.lt_irrefl _ (h.lt ha).2)
      simpa only [withNumber, true_and] using old
    · simpa only [withNumber, e, false_and, or_false] using h.broker.faithful.numbers k'
  names := h.broker.faithful.names
  tags := h.broker.faithful.tags

theorem Mirrors.extend (h : ρ.Mirrors w v) {x y : k.Entry} (hxy : ρ.Entries k x y) :
    ρ.Follows (ρ.withNumber k (k.table w).size (k.table v).size) w v (k.extend x w)
      (k.extend y v) where
  grows := grows_withNumber
  fresh := by
    refine ⟨fun k' i j hij => ?_, fun _ _ => .inl, fun _ _ => .inl⟩
    rcases hij with hij | ⟨rfl, rfl, rfl⟩
    · exact .inl hij
    · exact .inr (Nat.le_refl _)
  mirrors := by
    refine ⟨?_, fun k' i j hij => ?_, fun e he => ?_, ?_⟩
    · unfold Kind.extend
      rw [Kind.broker_withTable, Kind.broker_withTable]
      refine h.broker.grow grows_withNumber h.faithful_withNumber rfl rfl fun e he => ?_
      have old := h.linked e he
      rw [Bool.eq_iff_iff, owns_iff, owns_iff]
      refine ⟨?_, fun ⟨f, hf⟩ => ⟨f, .inl hf⟩⟩
      rintro ⟨f, hf | ⟨rfl, el, -⟩⟩
      · exact ⟨f, hf⟩
      · exact absurd el (Nat.ne_of_lt old)
    · rcases hij with hij | ⟨rfl, rfl, rfl⟩
      · obtain ⟨x', y', hx, hy, paired⟩ := h.entries k' i j hij
        have lt := h.lt hij
        refine ⟨x', y', ?_, ?_, paired.mono grows_withNumber⟩
        · rw [getElem?_extend_old, hx]
          rintro ⟨rfl, rfl⟩
          exact Nat.lt_irrefl _ lt.1
        · rw [getElem?_extend_old, hy]
          rintro ⟨rfl, rfl⟩
          exact Nat.lt_irrefl _ lt.2
      · exact ⟨x, y, getElem?_extend_new, getElem?_extend_new, hxy.mono grows_withNumber⟩
    · rw [Kind.extend, Kind.broker_withTable] at he
      exact Nat.lt_of_lt_of_le (h.linked e he) (size_le_extend .endpoint)
    · unfold Kind.extend
      rw [Kind.refusesLinks_withTable, Kind.refusesLinks_withTable]
      exact h.opens
  spares := by
    refine ⟨fun k' i hi => getElem?_extend_old ?_, fun k' => size_le_extend k', ?_⟩
    · rintro ⟨rfl, rfl⟩
      exact hi _ (.inr ⟨rfl, rfl, rfl⟩)
    · rw [Kind.extend, Kind.broker_withTable]
      exact .refl
  links := by
    by_cases e : k = .link
    · subst e
      refine ⟨1, size_extend, size_extend, fun i hi => ?_⟩
      obtain rfl : i = 0 := by omega
      exact .inr ⟨rfl, rfl, rfl⟩
    · exact ⟨0, size_extend_other (Ne.symm e), size_extend_other (Ne.symm e),
        fun i hi => absurd hi (Nat.not_lt_zero i)⟩
  scheduled := ⟨[], [], by rw [Kind.extend, Kind.tasks_withTable, List.append_nil],
    by rw [Kind.extend, Kind.tasks_withTable, List.append_nil], .nil⟩

/-! ### Other changes -/

/-- The tables, the broker and whether it opens links are as before. -/
structure Kept (w w' : State) : Prop where
  tables : ∀ k : Kind, k.table w' = k.table w
  broker : w'.outside.broker = w.outside.broker
  refusesLinks : w'.outside.refusesLinks = w.outside.refusesLinks

theorem Mirrors.kept (h : ρ.Mirrors w v) (hw : Kept w w') (hv : Kept v v') : ρ.Mirrors w' v' where
  broker := by
    rw [hw.broker, hv.broker]
    exact h.broker
  entries k a b hab := by
    rw [hw.tables, hv.tables]
    exact h.entries k a b hab
  linked e he := by
    have size : w'.outside.endpoints.size = w.outside.endpoints.size :=
      congrArg Array.size (hw.tables .endpoint)
    rw [hw.broker] at he
    rw [size]
    exact h.linked e he
  opens := by
    rw [hw.refusesLinks, hv.refusesLinks]
    exact h.opens

theorem Kept.spares (hw : Kept w w') : ρ.Spares w w' where
  entries k a _ := by rw [hw.tables]
  size k := by rw [hw.tables]
  broker := by
    rw [hw.broker]
    exact .refl

/-- Something is scheduled, or nothing, and otherwise nothing has changed. -/
theorem Mirrors.schedules (h : ρ.Mirrors w v) (hw : Kept w w') (hv : Kept v v') {ts us : List Task}
    (ht : tasks w' = tasks w ++ ts) (hu : tasks v' = tasks v ++ us)
    (paired : List.Forall₂ ρ.Tasks ts us) : ρ.Follows ρ w v w' v' where
  grows := .refl ρ
  fresh := .refl
  mirrors := h.kept hw hv
  spares := hw.spares
  links := ⟨0, congrArg Array.size (hw.tables .link), congrArg Array.size (hv.tables .link),
    fun i hi => absurd hi (Nat.not_lt_zero i)⟩
  scheduled := ⟨ts, us, ht, hu, paired⟩

theorem Mirrors.changeBroker (h : ρ.Mirrors w v) {f g : Broker → Broker} (hg : ρ.Grows ρ')
    (hf : ρ.Fresh ρ' w) (hn : ρ'.numbers = ρ.numbers)
    (hs : ρ'.Serves w.outside.broker v.outside.broker (f w.outside.broker) (g v.outside.broker)) :
    ρ.Follows ρ' w v (w.out (·.changeBroker f)) (v.out (·.changeBroker g)) := by
  have tables (f : Broker → Broker) (w : State) (k : Kind) :
      k.table (w.out (·.changeBroker f)) = k.table w := by cases k <;> rfl
  refine .of_same hg hf ⟨hs.both, fun k a b hab => ?_, fun e he => ?_, h.opens⟩
    ⟨fun k a _ => by rw [tables], fun k => by rw [tables], hs.spares⟩ rfl rfl rfl rfl
  · rw [tables, tables]
    obtain ⟨x, y, hx, hy, paired⟩ := h.entries k a b (hn ▸ hab)
    exact ⟨x, y, hx, hy, paired.mono hg⟩
  · cases own : ρ'.owns e.2.link with
    | true =>
      obtain ⟨f, hf⟩ := owns_iff.1 own
      rw [hn] at hf
      exact (h.lt hf).1
    | false =>
      -- the records on this link are those that were there
      have same := hs.spares.records (fun l => decide (l = e.2.link)) fun l hl => by
        refine decide_eq_false ?_
        rintro rfl
        rw [own] at hl
        cases hl
      have there : e ∈ (f w.outside.broker).transactions.entries.filter
          fun p => decide (p.2.link = e.2.link) := List.mem_filter.2 ⟨he, decide_eq_true rfl⟩
      rw [same] at there
      exact h.linked e (List.mem_filter.1 there).1

/-! ### Computations -/

variable {α β γ δ : Type} {R : Pairing → α → β → Prop} {S : Pairing → γ → δ → Prop}
  {x : Peering α} {y : Peering β} {f : α → Peering γ} {g : β → Peering δ}

/-- Two computations have ended in the same way, in states that mirror each other. -/
inductive Ends (ρ : Pairing) (R : Pairing → α → β → Prop) (w v : State) :
    EStateM.Result Halt State α → EStateM.Result Halt State β → Prop
  | returned {ρ' : Pairing} {a : α} {b : β} {w' v' : State} : ρ.Follows ρ' w v w' v' → R ρ' a b →
    Ends ρ R w v (.ok a w') (.ok b v')
  | raised {ρ' : Pairing} {f g : Failure} {w' v' : State} : ρ.Follows ρ' w v w' v' → f.Akin g →
    Ends ρ R w v (.error (.raised f) w') (.error (.raised g) v')
  | exhausted {ρ' : Pairing} {w' v' : State} : ρ.Follows ρ' w v w' v' →
    Ends ρ R w v (.error .exhausted w') (.error .exhausted v')

/-- **Two computations are alike:** from states that mirror each other they end in the same way. -/
def Alike (ρ : Pairing) (R : Pairing → α → β → Prop) (x : Peering α) (y : Peering β) : Prop :=
  ∀ w v, ρ.Mirrors w v → ρ.Ends R w v (x w) (y v)

/-- Both return the same. -/
def Same : Pairing → α → α → Prop := fun _ a b => a = b

/-- Both return numbers that are paired. -/
def Both (k : Kind) : Pairing → Nat → Nat → Prop := fun ρ => ρ.numbers k

/-- Both return something that is paired, or nothing. -/
def Perhaps (R : Pairing → α → β → Prop) : Pairing → Option α → Option β → Prop :=
  fun ρ => Option.Rel (R ρ)

/-- Both have returned, or both have raised. -/
inductive Attempted (R : Pairing → α → β → Prop) (ρ : Pairing) :
    Except Failure α → Except Failure β → Prop
  | ok {a : α} {b : β} : R ρ a b → Attempted R ρ (.ok a) (.ok b)
  | error {f g : Failure} : f.Akin g → Attempted R ρ (.error f) (.error g)

theorem Ends.of {r : EStateM.Result Halt State α} {s : EStateM.Result Halt State β}
    (h : ρ.Follows ρ' w v w' v') (e : ρ'.Ends R w' v' r s) : ρ.Ends R w v r s := by
  cases e with
  | returned h' ret => exact .returned (h.trans h') ret
  | raised h' akin => exact .raised (h.trans h') akin
  | exhausted h' => exact .exhausted (h.trans h')

theorem Ends.bind (h : ρ.Ends R w v (x w) (y v))
    (next : ∀ ρ' w' v' a b, ρ.Follows ρ' w v w' v' → R ρ' a b →
      ρ'.Ends S w' v' (f a w') (g b v')) :
    ρ.Ends S w v ((x >>= f) w) ((y >>= g) v) := by
  simp only [Bind.bind, EStateM.bind]
  generalize x w = r, y v = s at h
  cases h with
  | returned h ret => exact (next _ _ _ _ _ h ret).of h
  | raised h akin => exact .raised h akin
  | exhausted h => exact .exhausted h

theorem Ends.look {a : α} {b : β} (hx : x w = .ok a w) (hy : y v = .ok b v)
    (h : ρ.Ends S w v (f a w) (g b v)) : ρ.Ends S w v ((x >>= f) w) ((y >>= g) v) := by
  simp only [Bind.bind, EStateM.bind, hx, hy]
  exact h

namespace Alike

theorem bind (h : ρ.Alike R x y)
    (next : ∀ ρ', ρ.Grows ρ' → ∀ a b, R ρ' a b → ρ'.Alike S (f a) (g b)) :
    ρ.Alike S (x >>= f) (y >>= g) :=
  fun w v hm => (h w v hm).bind fun ρ' w' v' a b hf ret =>
    next ρ' hf.grows a b ret w' v' hf.mirrors

theorem next {x' : Peering γ} {y' : Peering δ} (h : ρ.Alike R x y)
    (next : ∀ ρ', ρ.Grows ρ' → ρ'.Alike S x' y') :
    ρ.Alike S (x >>= fun _ => x') (y >>= fun _ => y') :=
  h.bind fun ρ' hg _ _ _ => next ρ' hg

theorem attempt (h : ρ.Alike R x y) : ρ.Alike (Attempted R) (Run.attempt x) (Run.attempt y) := by
  intro w v hm
  have e := h w v hm
  unfold Run.attempt
  generalize x w = r, y v = s at e
  cases e with
  | returned h ret => exact .returned h (.ok ret)
  | raised h akin => exact .returned h (.error akin)
  | exhausted h => exact .exhausted h

theorem discard (h : ρ.Alike R x y) : ρ.Alike Same (discard x) (discard y) := by
  intro w v hm
  have e := h w v hm
  show ρ.Ends Same w v (EStateM.map _ x w) (EStateM.map _ y v)
  unfold EStateM.map
  generalize x w = r, y v = s at e
  cases e with
  | returned h _ => exact .returned h rfl
  | raised h akin => exact .raised h akin
  | exhausted h => exact .exhausted h

theorem ite {c d : Prop} [Decidable c] [Decidable d] {x' : Peering α} {y' : Peering β} (hcd : c ↔ d)
    (h : c → ρ.Alike R x y) (h' : ¬ c → ρ.Alike R x' y') :
    ρ.Alike R (if c then x else x') (if d then y else y') := by
  by_cases hc : c
  · rw [if_pos hc, if_pos (hcd.1 hc)]
    exact h hc
  · rw [if_neg hc, if_neg fun hd => hc (hcd.2 hd)]
    exact h' hc

end Alike

theorem alike_pure {a : α} {b : β} (h : R ρ a b) : ρ.Alike R (pure a) (pure b) :=
  fun _ _ hm => .returned hm.follows_self h

theorem alike_raise {f g : Failure} (h : f.Akin g) : ρ.Alike R (raise f) (raise g) :=
  fun _ _ hm => .raised hm.follows_self h

theorem alike_refuse {p q : Problem} (h : p.kind = q.kind) : ρ.Alike R (refuse p) (refuse q) :=
  alike_raise (.of_kind h)

theorem alike_exhausted : ρ.Alike R exhausted exhausted :=
  fun _ _ hm => .exhausted hm.follows_self

theorem alike_convert {f g : Failure} (h : f.Akin g) :
    ρ.Alike (fun _ => Failure.Akin) (convert f) (convert g) := by
  cases h
  exact alike_pure (.report _)

theorem alike_first {f g : Failure} {report report' : Option Failure} (h : f.Akin g)
    (hr : Option.Rel Failure.Akin report report') :
    ρ.Alike (fun _ => Failure.Akin) (first report f) (first report' g) := by
  cases hr with
  | none => exact alike_convert h
  | some akin => exact alike_pure akin

theorem alike_read {f : State → α} {g : State → β} (h : ∀ w v, ρ.Mirrors w v → R ρ (f w) (g v)) :
    ρ.Alike R (fun w => .ok (f w) w) (fun v => .ok (g v) v) :=
  fun w v hm => .returned hm.follows_self (h w v hm)

end Transact.Peer.Isolation.Pairing
