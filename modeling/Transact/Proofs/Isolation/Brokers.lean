import Transact.Proofs.Isolation.Pairing
import Transact.Proofs.Peer.Consumers

/-! # One broker for many sessions

The broker that a session shares and the broker that it has for itself: what the first holds for the
session is what the second holds. Whatever the broker is asked for by the session keeps this so, and
leaves everything else as it was.

* `Brokers`: the two hold the same for the session.
* `Spares`: nothing was done to what belongs to others.
* `Serves`: the two brokers did the same for the session, and nothing else. -/

namespace Transact.Peer.Isolation

/-! ### Names -/

/-- A name that a counter has given before it came this far. -/
def Given (n : Nat) (t : TxnId) : Prop := ∃ i, 0 < i ∧ i < n ∧ t = .ofCounter i

theorem Given.mono {n n' : Nat} {t : TxnId} (h : Given n t) (hn : n ≤ n') : Given n' t := by
  obtain ⟨i, pos, lt, eq⟩ := h
  exact ⟨i, pos, Nat.lt_of_lt_of_le lt hn, eq⟩

theorem given_succ {n : Nat} (h : 0 < n) : Given (n + 1) (.ofCounter n) :=
  ⟨n, h, Nat.lt_succ_self n, rfl⟩

/-- The counter starts at one, so that also the name that comes just before it wraps is new. -/
theorem not_given {n : Nat} (h : n ≤ 0x100000000) : ¬ Given n (.ofCounter n) := by
  rintro ⟨i, pos, lt, eq⟩
  have := TxnId.mod_eq_of_ofCounter eq
  omega

/-- The broker rejects nothing. -/
def Willing (b : Broker) : Prop :=
  b.declaresToReject = 0 ∧ b.dischargesToReject = 0 ∧ b.transfersToFail = []

/-! ### Pairing more -/

theorem biUnique_insert {α β : Type} {R : α → β → Prop} (h : Relator.BiUnique R) {x : α} {y : β}
    (hx : ∀ b, ¬ R x b) (hy : ∀ a, ¬ R a y) :
    Relator.BiUnique fun a b => R a b ∨ (a = x ∧ b = y) := by
  constructor
  · rintro a a' b (hab | ⟨rfl, rfl⟩) (hab' | ⟨rfl, e⟩)
    · exact h.1 hab hab'
    · exact absurd (e ▸ hab) (hy _)
    · exact absurd hab' (hy _)
    · rfl
  · rintro a b b' (hab | ⟨rfl, rfl⟩) (hab' | ⟨e, rfl⟩)
    · exact h.2 hab hab'
    · exact absurd (e ▸ hab) (hx _)
    · exact absurd hab' (hx _)
    · rfl

namespace Pairing

/-- Pairs two names besides. -/
def withName (ρ : Pairing) (t u : TxnId) : Pairing :=
  { ρ with names := fun x y => ρ.names x y ∨ (x = t ∧ y = u) }

/-- Pairs two tags besides. -/
def withTag (ρ : Pairing) (m n : Nat) : Pairing :=
  { ρ with tags := fun x y => ρ.tags x y ∨ (x = m ∧ y = n) }

theorem grows_withName {ρ : Pairing} {t u : TxnId} : ρ.Grows (ρ.withName t u) :=
  ⟨id, .inl, id, rfl⟩

theorem grows_withTag {ρ : Pairing} {m n : Nat} : ρ.Grows (ρ.withTag m n) := ⟨id, id, .inl, rfl⟩

/-! ### Live transactions -/

/-- A live transaction under its name. -/
def Named (ρ : Pairing) (e f : TxnId × Record) : Prop := ρ.names e.1 f.1 ∧ ρ.Records e.2 f.2

open Classical in
/-- Whether a link is one of the session. -/
noncomputable def owns (ρ : Pairing) (e : Nat) : Bool := decide (∃ f, ρ.numbers .endpoint e f)

/-- The live transactions on the links of the session are paired in their order, and no other one has
a name of the session. -/
structure Live (ρ : Pairing) (es fs : List (TxnId × Record)) : Prop where
  paired : List.Forall₂ ρ.Named (es.filter fun e => ρ.owns e.2.link) fs
  strange : ∀ e ∈ es, ρ.owns e.2.link = false → ∀ u, ¬ ρ.names e.1 u

/-- The live transactions on other links are the same as before. -/
def Spared (ρ : Pairing) (es es' : List (TxnId × Record)) : Prop :=
  ∀ P : Nat → Bool, (∀ e, ρ.owns e = true → P e = false) →
    es'.filter (fun e => P e.2.link) = es.filter fun e => P e.2.link

variable {ρ ρ' : Pairing} {es es' fs : List (TxnId × Record)} {t u : TxnId} {x y : Record} {e f : Nat}

theorem owns_iff : ρ.owns e = true ↔ ∃ f, ρ.numbers .endpoint e f := by simp [owns]

theorem owns_of (h : ρ.numbers .endpoint e f) : ρ.owns e = true := owns_iff.2 ⟨f, h⟩

theorem Named.put (hf : ρ.Faithful) (h : List.Forall₂ ρ.Named es fs) (hn : ρ.names t u)
    (hr : ρ.Records x y) : List.Forall₂ ρ.Named (Roll.putInto t x es) (Roll.putInto u y fs) :=
  h.putInto (fun _ _ hef => Relator.rel_eq hf.names hef.1 hn) ⟨hn, hr⟩

theorem Named.get? (hf : ρ.Faithful) (h : List.Forall₂ ρ.Named es fs) (hn : ρ.names t u) :
    Option.Rel ρ.Records ((⟨es⟩ : Roll TxnId Record).get? t) ((⟨fs⟩ : Roll TxnId Record).get? u) := by
  have found := h.find? (p := (·.1 = t)) (q := (·.1 = u)) fun e f hef => by
    have same : e.1 = t ↔ f.1 = u := Relator.rel_eq hf.names hef.1 hn
    exact decide_eq_decide.2 same
  unfold Roll.get?
  rcases found.none_or_some with ⟨e, e'⟩ | ⟨e, f, he, hf, hef⟩
  · rw [e, e']
    exact .none
  · rw [he, hf]
    exact .some hef.2

theorem filter_putInto {P : Nat → Bool} (hs : ∀ e ∈ es, P e.2.link = false → e.1 ≠ t)
    (hx : P x.link = true) :
    (Roll.putInto t x es).filter (fun e => P e.2.link) =
      Roll.putInto t x (es.filter fun e => P e.2.link) := by
  induction es with
  | nil => simp [Roll.putInto, hx]
  | cons e es ih =>
    have ih := ih fun e he => hs e (List.mem_cons_of_mem _ he)
    by_cases he : e.1 = t
    · have own : P e.2.link = true := by
        by_contra h
        exact hs e List.mem_cons_self (by simpa using h) he
      simp [Roll.putInto, he, hx, own]
    · cases own : P e.2.link <;> simp [Roll.putInto, he, own, ih]

theorem filter_putInto_other {P : Nat → Bool} (hs : ∀ e ∈ es, P e.2.link = true → e.1 ≠ t)
    (hx : P x.link = false) :
    (Roll.putInto t x es).filter (fun e => P e.2.link) = es.filter fun e => P e.2.link := by
  induction es with
  | nil => simp [Roll.putInto, hx]
  | cons e es ih =>
    have ih := ih fun e he => hs e (List.mem_cons_of_mem _ he)
    by_cases he : e.1 = t
    · have other : P e.2.link = false := by
        by_contra h
        exact hs e List.mem_cons_self (by simpa using h) he
      simp [Roll.putInto, he, hx, other]
    · cases own : P e.2.link <;> simp [Roll.putInto, he, own, ih]

theorem get?_filter_own (hs : ∀ e ∈ es, ρ.owns e.2.link = false → e.1 ≠ t) :
    (⟨es.filter fun e => ρ.owns e.2.link⟩ : Roll TxnId Record).get? t =
      (⟨es⟩ : Roll TxnId Record).get? t := by
  unfold Roll.get?
  induction es with
  | nil => rfl
  | cons e es ih =>
    have ih := ih fun e he => hs e (List.mem_cons_of_mem _ he)
    cases own : ρ.owns e.2.link with
    | true => by_cases he : e.1 = t <;> simp_all
    | false => simp_all

namespace Live

variable (h : ρ.Live es fs) (hf : ρ.Faithful)

include h in
theorem ne_of_strange (hn : ρ.names t u) {e : TxnId × Record} (he : e ∈ es)
    (hs : ρ.owns e.2.link = false) : e.1 ≠ t :=
  fun et => h.strange e he hs u (et ▸ hn)

include h hf

theorem put (hn : ρ.names t u) (hr : ρ.Records x y) :
    ρ.Live (Roll.putInto t x es) (Roll.putInto u y fs) := by
  refine ⟨?_, fun e he hs v hv => ?_⟩
  · rw [filter_putInto (fun _ he => h.ne_of_strange hn he) (owns_of hr.link)]
    exact Named.put hf h.paired hn hr
  · rcases Roll.mem_putInto he with ⟨-, er⟩ | he
    · rw [er, owns_of hr.link] at hs
      cases hs
    · exact h.strange _ he hs v hv

/-- What is found under a name of the session is the same on both sides. -/
theorem get? (hn : ρ.names t u) :
    Option.Rel ρ.Records ((⟨es⟩ : Roll TxnId Record).get? t) ((⟨fs⟩ : Roll TxnId Record).get? u) := by
  rw [← get?_filter_own fun _ he => h.ne_of_strange hn he]
  exact Named.get? hf h.paired hn

omit hf in
theorem filter {p q : TxnId × Record → Bool} (hpq : ∀ e f, ρ.Named e f → (p e ↔ q f)) :
    ρ.Live (es.filter p) (fs.filter q) := by
  refine ⟨?_, fun e he => h.strange e (List.mem_filter.1 he).1⟩
  have comm : (es.filter p).filter (fun e => ρ.owns e.2.link) =
      (es.filter fun e => ρ.owns e.2.link).filter p := by
    simp only [List.filter_filter, Bool.and_comm]
  rw [comm]
  exact List.rel_filter (fun e f hef => hpq e f hef) h.paired

theorem erase (hn : ρ.names t u) :
    ρ.Live (es.filter (·.1 ≠ t)) (fs.filter (·.1 ≠ u)) := by
  refine h.filter fun e f hef => ?_
  have same : e.1 = t ↔ f.1 = u := Relator.rel_eq hf.names hef.1 hn
  simp [same]

end Live

namespace Spared

theorem refl : ρ.Spared es es := fun _ _ => rfl

theorem trans {es'' : List (TxnId × Record)} (h : ρ.Spared es es') (h' : ρ.Spared es' es'') :
    ρ.Spared es es'' :=
  fun P hP => (h' P hP).trans (h P hP)

theorem put (h : ρ.Live es fs) (hn : ρ.names t u) (hr : ρ.owns x.link = true) :
    ρ.Spared es (Roll.putInto t x es) := by
  refine fun P hP => filter_putInto_other (fun e he hp => h.ne_of_strange hn he ?_) (hP _ hr)
  by_contra own
  simp [hP _ (by simpa using own)] at hp

theorem filter {p : TxnId × Record → Bool} (hp : ∀ e ∈ es, ρ.owns e.2.link = false → p e = true) :
    ρ.Spared es (es.filter p) := by
  intro P hP
  rw [List.filter_filter]
  refine List.filter_congr fun e he => ?_
  cases own : ρ.owns e.2.link with
  | true => simp [hP _ own]
  | false => simp [hp e he own]

end Spared

/-! ### Brokers -/

/-- The two brokers hold the same for the session. -/
structure Brokers (ρ : Pairing) (b c : Broker) : Prop where
  faithful : ρ.Faithful
  live : ρ.Live b.transactions.entries c.transactions.entries
  queues : ∀ a, ρ.mine a → List.Forall₂ ρ.Deliveries (b.queue a).toList (c.queue a).toList
  inflight : ∀ m n, ρ.tags m n → Option.Rel ρ.Deliveries (b.inflight.get? m) (c.inflight.get? n)
  named : ∀ t u, ρ.names t u → Given b.txnCounter t ∧ Given c.txnCounter u
  tagged : ∀ m n, ρ.tags m n → (m < b.tagCounter ∧ m ≤ Number.countLimit) ∧
    n < c.tagCounter ∧ n ≤ Number.countLimit
  given : ∀ e ∈ b.transactions.entries, Given b.txnCounter e.1
  unused : (∀ m, b.tagCounter ≤ m → b.inflight.get? m = none) ∧
    ∀ n, c.tagCounter ≤ n → c.inflight.get? n = none
  txnCounter : 0 < c.txnCounter ∧ c.txnCounter ≤ b.txnCounter
  tagCounter : c.tagCounter ≤ b.tagCounter
  willing : Willing b ∧ Willing c

/-- Nothing was done to what belongs to others. -/
structure SparesBroker (ρ : Pairing) (b b' : Broker) : Prop where
  queues : ∀ a, ¬ ρ.mine a → b'.queue a = b.queue a
  records : ρ.Spared b.transactions.entries b'.transactions.entries
  inflight : ∀ m, (∀ n, ¬ ρ.tags m n) → b'.inflight.get? m = b.inflight.get? m
  txnCounter : b.txnCounter ≤ b'.txnCounter
  tagCounter : b.tagCounter ≤ b'.tagCounter

/-- The two brokers did the same for the session, and nothing else. -/
structure Serves (ρ : Pairing) (b c b' c' : Broker) : Prop where
  both : ρ.Brokers b' c'
  spares : ρ.SparesBroker b b'

variable {b c b' c' b'' c'' : Broker} {d d' : Delivery} {ds ds' : List Delivery} {m n : Nat}
  {a : String}

theorem Deliveries.pushBack {q r : Queue Delivery} (hd : ρ.Deliveries d d')
    (hq : List.Forall₂ ρ.Deliveries q.toList r.toList) :
    List.Forall₂ ρ.Deliveries (q.pushBack d).toList (r.pushBack d').toList := by
  rw [Queue.toList_pushBack, Queue.toList_pushBack]
  exact List.rel_append hq (.cons hd .nil)

theorem SparesBroker.refl : ρ.SparesBroker b b :=
  ⟨fun _ _ => rfl, .refl, fun _ _ => rfl, Nat.le_refl _, Nat.le_refl _⟩

theorem SparesBroker.trans (h : ρ.SparesBroker b b') (h' : ρ.SparesBroker b' b'') :
    ρ.SparesBroker b b'' where
  queues a ha := (h'.queues a ha).trans (h.queues a ha)
  records := h.records.trans h'.records
  inflight m hm := (h'.inflight m hm).trans (h.inflight m hm)
  txnCounter := Nat.le_trans h.txnCounter h'.txnCounter
  tagCounter := Nat.le_trans h.tagCounter h'.tagCounter

theorem Serves.trans (h : ρ.Serves b c b' c') (h' : ρ.Serves b' c' b'' c'') :
    ρ.Serves b c b'' c'' :=
  ⟨h'.both, h.spares.trans h'.spares⟩

namespace Brokers

variable (h : ρ.Brokers b c)

include h

theorem serves_self : ρ.Serves b c b c := ⟨h, .refl⟩

/-! ### Queues -/

theorem setQueue (ha : ρ.mine a) {q r : Queue Delivery}
    (hq : List.Forall₂ ρ.Deliveries q.toList r.toList) :
    ρ.Serves b c (b.setQueue a q) (c.setQueue a r) where
  both := { h with
    queues := fun a' ha' => by
      rw [Broker.queue_setQueue, Broker.queue_setQueue]
      split
      · exact hq
      · exact h.queues a' ha' }
  spares := { SparesBroker.refl with
    queues := fun a' ha' => by
      rw [Broker.queue_setQueue, if_neg]
      rintro rfl
      exact ha' ha }

theorem giveBack (hd : ρ.Deliveries d d') : ρ.Serves b c (b.giveBack d) (c.giveBack d') := by
  unfold Broker.giveBack
  rw [← hd.address]
  refine h.setQueue hd.mine ?_
  rw [Queue.toList_pushFront, Queue.toList_pushFront]
  exact .cons hd (h.queues _ hd.mine)

theorem publish (hd : ρ.Deliveries d d') : ρ.Serves b c (b.publish d) (c.publish d') := by
  unfold Broker.publish
  rw [← hd.address]
  exact h.setQueue hd.mine (hd.pushBack (h.queues _ hd.mine))

theorem publishAll (hd : List.Forall₂ ρ.Deliveries ds ds') :
    ρ.Serves b c (ds.foldl Broker.publish b) (ds'.foldl Broker.publish c) := by
  induction hd generalizing b c with
  | nil => exact h.serves_self
  | cons hd _ ih =>
    have first := h.publish hd
    exact first.trans (ih first.both)

theorem rollBack (hr : ρ.Records x y) : ρ.Serves b c (b.rollBack x) (c.rollBack y) := by
  unfold Broker.rollBack
  have given := hr.acknowledged
  generalize x.acknowledged = ds, y.acknowledged = ds' at given
  induction given with
  | nil => exact h.serves_self
  | cons hd _ ih => exact ih.trans (ih.both.giveBack hd)

theorem rollBackAll {xs ys : List Record} (hr : List.Forall₂ ρ.Records xs ys) :
    ρ.Serves b c (xs.foldl (fun b r => b.rollBack r) b) (ys.foldl (fun b r => b.rollBack r) c) := by
  induction hr generalizing b c with
  | nil => exact h.serves_self
  | cons hr _ ih =>
    have first := h.rollBack hr
    exact first.trans (ih first.both)

/-! ### Live transactions -/

theorem withTransactions {r s : Roll TxnId Record} (live : ρ.Live r.entries s.entries)
    (given : ∀ e ∈ r.entries, Given b.txnCounter e.1)
    (records : ρ.Spared b.transactions.entries r.entries) :
    ρ.Serves b c { b with transactions := r } { c with transactions := s } where
  both := { h with live, given }
  spares := { SparesBroker.refl with records }

theorem put (hn : ρ.names t u) (hr : ρ.Records x y) :
    ρ.Serves b c { b with transactions := b.transactions.put t x }
      { c with transactions := c.transactions.put u y } := by
  refine h.withTransactions (h.live.put h.faithful hn hr) (fun e he => ?_)
    (.put h.live hn (owns_of hr.link))
  rcases Roll.mem_putInto he with ⟨et, -⟩ | he
  · rw [et]
    exact (h.named t u hn).1
  · exact h.given e he

theorem erase (hn : ρ.names t u) :
    ρ.Serves b c { b with transactions := b.transactions.erase t }
      { c with transactions := c.transactions.erase u } := by
  refine h.withTransactions (h.live.erase h.faithful hn) (fun e he => ?_) (.filter fun e he hs => ?_)
  · exact h.given e (List.mem_filter.1 he).1
  · simpa using h.live.ne_of_strange hn he hs

theorem forgetLink (he : ρ.numbers .endpoint e f) :
    ρ.Serves b c (b.forgetLink e) (c.forgetLink f) := by
  have same : ∀ p q, ρ.Named p q → (p.2.link = e ↔ q.2.link = f) := fun p q hpq =>
    Relator.rel_eq (h.faithful.numbers _) hpq.2.link he
  have gone : List.Forall₂ ρ.Records (b.transactions.values.filter (·.link = e))
      (c.transactions.values.filter (·.link = f)) := by
    have own : (b.transactions.entries.filter fun p => p.2.link = e) =
        (b.transactions.entries.filter fun p => ρ.owns p.2.link).filter fun p => p.2.link = e := by
      rw [List.filter_filter]
      refine List.filter_congr fun p _ => ?_
      by_cases hp : p.2.link = e
      · simp [hp, owns_of he]
      · simp [hp]
    have paired : List.Forall₂ ρ.Named (b.transactions.entries.filter fun p => p.2.link = e)
        (c.transactions.entries.filter fun p => p.2.link = f) := by
      rw [own]
      exact List.rel_filter (fun p q hpq => by simpa using same p q hpq) h.live.paired
    unfold Roll.values
    rw [List.filter_map, List.filter_map]
    exact List.rel_map (fun p q hpq => hpq.2) paired
  have left := h.withTransactions (r := ⟨b.transactions.entries.filter (·.2.link ≠ e)⟩)
    (s := ⟨c.transactions.entries.filter (·.2.link ≠ f)⟩)
    (h.live.filter fun p q hpq => by simpa using not_congr (same p q hpq))
    (fun p hp => h.given p (List.mem_filter.1 hp).1)
    (.filter fun p _ hs => by
      have : p.2.link ≠ e := by
        rintro rfl
        simp [owns_of he] at hs
      simpa using this)
  exact left.trans (left.both.rollBackAll gone)

theorem discharge (hn : ρ.names t u) (fail : Bool) :
    ρ.Settlements (b.discharge t fail).1 (c.discharge u fail).1 ∧
      ρ.Serves b c (b.discharge t fail).2 (c.discharge u fail).2 := by
  have found := h.live.get? h.faithful hn
  unfold Broker.discharge
  rcases found.none_or_some with ⟨e, e'⟩ | ⟨x, y, e, e', hr⟩
  · simp only [e, e']
    exact ⟨.rejected, h.serves_self⟩
  · have accepts : ¬ 0 < b.dischargesToReject := h.willing.1.2.1 ▸ Nat.lt_irrefl 0
    have accepts' : ¬ 0 < c.dischargesToReject := h.willing.2.2.1 ▸ Nat.lt_irrefl 0
    simp only [e, e', if_neg accepts, if_neg accepts']
    have gone := h.erase hn
    cases fail with
    | true => exact ⟨.accepted, gone.trans (gone.both.rollBack hr)⟩
    | false => exact ⟨.accepted, gone.trans (gone.both.publishAll hr.staged)⟩

/-! ### Messages handed out -/

theorem withInflight {r s : Roll Nat Delivery}
    (paired : ∀ m n, ρ.tags m n → Option.Rel ρ.Deliveries (r.get? m) (s.get? n))
    (other : ∀ m, (∀ n, ¬ ρ.tags m n) → r.get? m = b.inflight.get? m)
    (unused : ∀ n, c.tagCounter ≤ n → s.get? n = none) :
    ρ.Serves b c { b with inflight := r } { c with inflight := s } where
  both := { h with
    inflight := paired
    unused := by
      refine ⟨fun m hm => ?_, unused⟩
      have free : ∀ n, ¬ ρ.tags m n := fun n hn => Nat.not_lt.2 hm (h.tagged m n hn).1.1
      exact (other m free).trans (h.unused.1 m hm) }
  spares := { SparesBroker.refl with inflight := other }

theorem handOut (hd : ρ.Deliveries d d') :
    ρ.Serves b c { b with inflight := b.inflight.put d.tag d }
      { c with inflight := c.inflight.put d'.tag d' } := by
  refine h.withInflight (fun m n hm => ?_) (fun m hm => ?_) (fun n hn => ?_)
  · have same : m = d.tag ↔ n = d'.tag := Relator.rel_eq h.faithful.tags hm hd.tag
    rw [Roll.get?_put, Roll.get?_put]
    by_cases e : m = d.tag
    · rw [if_pos e, if_pos (same.1 e)]
      exact .some hd
    · rw [if_neg e, if_neg fun e' => e (same.2 e')]
      exact h.inflight m n hm
  · rw [Roll.get?_put, if_neg]
    rintro rfl
    exact hm _ hd.tag
  · have old := (h.tagged _ _ hd.tag).2.1
    rw [Roll.get?_put, if_neg (by omega)]
    exact h.unused.2 n hn

theorem takeIn (hd : ρ.Deliveries d d') :
    ρ.Serves b c { b with inflight := b.inflight.erase d.tag }
      { c with inflight := c.inflight.erase d'.tag } := by
  refine h.withInflight (fun m n hm => ?_) (fun m hm => ?_) (fun n hn => ?_)
  · have same : m = d.tag ↔ n = d'.tag := Relator.rel_eq h.faithful.tags hm hd.tag
    rw [Roll.get?_erase, Roll.get?_erase]
    by_cases e : m = d.tag
    · rw [if_pos e, if_pos (same.1 e)]
      exact .none
    · rw [if_neg e, if_neg fun e' => e (same.2 e')]
      exact h.inflight m n hm
  · rw [Roll.get?_erase, if_neg]
    rintro rfl
    exact hm _ hd.tag
  · rw [Roll.get?_erase]
    split
    · rfl
    · exact h.unused.2 n hn

theorem fetch (ha : ρ.mine a) :
    Option.Rel ρ.Deliveries (b.fetch a).1 (c.fetch a).1 ∧
      ρ.Serves b c (b.fetch a).2 (c.fetch a).2 := by
  have waiting := h.queues a ha
  unfold Broker.fetch
  cases e : (b.queue a).popFront? with
  | none =>
    rw [Queue.popFront?_eq_none e, List.forall₂_nil_left_iff] at waiting
    cases e' : (c.queue a).popFront? with
    | none => exact ⟨.none, h.serves_self⟩
    | some p => simp [Queue.popFront?_eq_some e'] at waiting
  | some p =>
    obtain ⟨d, rest⟩ := p
    rw [Queue.popFront?_eq_some e] at waiting
    cases e' : (c.queue a).popFront? with
    | none => simp [Queue.popFront?_eq_none e'] at waiting
    | some p' =>
      obtain ⟨d', rest'⟩ := p'
      rw [Queue.popFront?_eq_some e', List.forall₂_cons] at waiting
      have taken := h.setQueue ha waiting.2
      exact ⟨.some waiting.1, taken.trans (taken.both.handOut waiting.1)⟩

end Brokers

/-- Two brokers that were asked for something have both refused it, or have both done the same. -/
inductive Asked (ρ : Pairing) (b c : Broker) : Except Problem Broker → Except Problem Broker → Prop
  | done {b' c' : Broker} : ρ.Serves b c b' c' → Asked ρ b c (.ok b') (.ok c')
  | refused {p q : Problem} : p.kind = q.kind → Asked ρ b c (.error p) (.error q)

namespace Brokers

variable (h : ρ.Brokers b c)

include h

theorem takeBack (ht : ρ.tags m n) :
    (∃ p q : Problem, b.takeBack (.ofNat m) = .error p ∧ c.takeBack (.ofNat n) = .error q ∧
      p.kind = q.kind) ∨
    ∃ d d' b' c', b.takeBack (.ofNat m) = .ok (d, b') ∧ c.takeBack (.ofNat n) = .ok (d', c') ∧
      ρ.Deliveries d d' ∧ ρ.Serves b c b' c' := by
  obtain ⟨⟨-, hm⟩, -, hn⟩ := h.tagged m n ht
  unfold Broker.takeBack
  rw [Number.toNat?_ofNat hm, Number.toNat?_ofNat hn, Option.bind_some, Option.bind_some]
  rcases (h.inflight m n ht).none_or_some with ⟨e, e'⟩ | ⟨d, d', e, e', hd⟩
  · rw [e, e']
    exact .inl ⟨_, _, rfl, rfl, rfl⟩
  · rw [e, e']
    exact .inr ⟨d, d', _, _, rfl, rfl, hd, h.takeIn hd⟩

theorem release (ht : ρ.tags m n) :
    ρ.Asked b c (b.release (.ofNat m)) (c.release (.ofNat n)) := by
  unfold Broker.release
  rcases h.takeBack ht with ⟨p, q, e, e', hk⟩ | ⟨d, d', b', c', e, e', hd, taken⟩
  · rw [e, e']
    exact .refused hk
  · rw [e, e']
    exact .done (taken.trans (taken.both.giveBack hd))

theorem acknowledge (ht : ρ.tags m n) {x y : DeliveryState} (hs : ρ.DeliveryStates x y) :
    ρ.Asked b c (b.acknowledge (.ofNat m) x) (c.acknowledge (.ofNat n) y) := by
  unfold Broker.acknowledge
  rcases h.takeBack ht with ⟨p, q, e, e', hk⟩ | ⟨d, d', b', c', e, e', hd, taken⟩
  · rw [e, e']
    exact .refused hk
  · rw [e, e']
    have back : ρ.Serves b c (b'.giveBack d) (c'.giveBack d') :=
      taken.trans (taken.both.giveBack hd)
    have found := taken.both.live.get? taken.both.faithful hs.txnId
    simp only [bind, Except.bind, hs.outcome]
    rcases found.none_or_some with ⟨e, e'⟩ | ⟨r, r', e, e', hr⟩
    · simp only [e, e']
      exact .done back
    · simp only [e, e']
      rcases y.outcome with _ | _ | _
      · exact .done back
      · refine .done (taken.trans (taken.both.put hs.txnId ⟨hr.link, hr.staged, ?_⟩))
        exact List.rel_append hr.acknowledged (.cons hd .nil)
      · exact .done back

/-! ### What is new -/

/-- More numbers are paired, and none of them is the link of a live transaction. -/
theorem grow (hg : ρ.Grows ρ') (hf : ρ'.Faithful) (names : ρ'.names = ρ.names)
    (tags : ρ'.tags = ρ.tags)
    (owns : ∀ e ∈ b.transactions.entries, ρ'.owns e.2.link = ρ.owns e.2.link) : ρ'.Brokers b c where
  faithful := hf
  live := by
    refine ⟨?_, fun e he hs u => ?_⟩
    · rw [List.filter_congr owns]
      exact h.live.paired.imp fun _ _ hn => ⟨hg.names hn.1, hn.2.mono hg⟩
    · rw [names]
      exact h.live.strange e he (owns e he ▸ hs) u
  queues a ha := (h.queues a (hg.mine ▸ ha)).imp fun _ _ => Deliveries.mono hg
  inflight m n hm := (h.inflight m n (tags ▸ hm)).imp fun _ _ => Deliveries.mono hg
  named t u hn := h.named t u (names ▸ hn)
  tagged m n hm := h.tagged m n (tags ▸ hm)
  given := h.given
  unused := h.unused
  txnCounter := h.txnCounter
  tagCounter := h.tagCounter
  willing := h.willing

theorem withName (room : b.txnCounter ≤ 0x100000000) :
    (ρ.withName (.ofCounter b.txnCounter) (.ofCounter c.txnCounter)).Brokers
      { b with txnCounter := b.txnCounter + 1 } { c with txnCounter := c.txnCounter + 1 } := by
  have hg : ρ.Grows (ρ.withName (.ofCounter b.txnCounter) (.ofCounter c.txnCounter)) := grows_withName
  obtain ⟨pos, le⟩ := h.txnCounter
  have new := not_given room
  have new' := not_given (Nat.le_trans le room)
  have older : ∀ {n : Nat} {t : TxnId}, Given n t → Given (n + 1) t := fun ht => ht.mono (Nat.le_succ _)
  exact {
    faithful := ⟨h.faithful.numbers, biUnique_insert h.faithful.names
      (fun u hu => new (h.named _ _ hu).1) (fun t ht => new' (h.named _ _ ht).2), h.faithful.tags⟩
    live := by
      refine ⟨h.live.paired.imp fun _ _ hn => ⟨hg.names hn.1, hn.2.mono hg⟩, fun e he hs u hu => ?_⟩
      rcases hu with hu | ⟨et, -⟩
      · exact h.live.strange e he hs u hu
      · exact new (et ▸ h.given e he)
    queues := fun a ha => (h.queues a ha).imp fun _ _ => Deliveries.mono hg
    inflight := fun m n hm => (h.inflight m n hm).imp fun _ _ => Deliveries.mono hg
    named := by
      rintro t u (hn | ⟨rfl, rfl⟩)
      · exact ⟨older (h.named t u hn).1, older (h.named t u hn).2⟩
      · exact ⟨given_succ (Nat.lt_of_lt_of_le pos le), given_succ pos⟩
    tagged := h.tagged
    given := fun e he => older (h.given e he)
    unused := h.unused
    txnCounter := ⟨Nat.succ_pos _, Nat.succ_le_succ le⟩
    tagCounter := h.tagCounter
    willing := h.willing }

theorem declare (room : b.txnCounter ≤ 0x100000000) (he : ρ.numbers .endpoint e f) :
    (ρ.withName (.ofCounter b.txnCounter) (.ofCounter c.txnCounter)).Settlements
        (b.declare e).1 (c.declare f).1 ∧
      (ρ.withName (.ofCounter b.txnCounter) (.ofCounter c.txnCounter)).Serves b c
        (b.declare e).2 (c.declare f).2 := by
  have accepts : ¬ 0 < b.declaresToReject := h.willing.1.1 ▸ Nat.lt_irrefl 0
  have accepts' : ¬ 0 < c.declaresToReject := h.willing.2.1 ▸ Nat.lt_irrefl 0
  unfold Broker.declare
  rw [if_neg accepts, if_neg accepts']
  have named := h.withName room
  have put := named.put (.inr ⟨rfl, rfl⟩) (x := { link := e }) (y := { link := f }) ⟨he, .nil, .nil⟩
  have counted : (ρ.withName (.ofCounter b.txnCounter) (.ofCounter c.txnCounter)).SparesBroker b
      { b with txnCounter := b.txnCounter + 1 } :=
    { SparesBroker.refl with txnCounter := Nat.le_succ _ }
  exact ⟨.declared (.inr ⟨rfl, rfl⟩), put.both, counted.trans put.spares⟩

theorem withTag (room : b.tagCounter ≤ Number.countLimit) :
    (ρ.withTag b.tagCounter c.tagCounter).Brokers
      { b with tagCounter := b.tagCounter + 1 } { c with tagCounter := c.tagCounter + 1 } := by
  have hg : ρ.Grows (ρ.withTag b.tagCounter c.tagCounter) := grows_withTag
  exact {
    faithful := ⟨h.faithful.numbers, h.faithful.names, biUnique_insert h.faithful.tags
      (fun n hn => Nat.lt_irrefl _ (h.tagged _ _ hn).1.1)
      (fun m hm => Nat.lt_irrefl _ (h.tagged _ _ hm).2.1)⟩
    live := ⟨h.live.paired.imp fun _ _ hn => ⟨hg.names hn.1, hn.2.mono hg⟩, h.live.strange⟩
    queues := fun a ha => (h.queues a ha).imp fun _ _ => Deliveries.mono hg
    inflight := by
      rintro m n (hm | ⟨rfl, rfl⟩)
      · exact (h.inflight m n hm).imp fun _ _ => Deliveries.mono hg
      · rw [h.unused.1 _ (Nat.le_refl _), h.unused.2 _ (Nat.le_refl _)]
        exact .none
    named := h.named
    tagged := by
      rintro m n (hm | ⟨rfl, rfl⟩)
      · obtain ⟨⟨lt, le⟩, lt', le'⟩ := h.tagged m n hm
        exact ⟨⟨Nat.lt_succ_of_lt lt, le⟩, Nat.lt_succ_of_lt lt', le'⟩
      · exact ⟨⟨Nat.lt_succ_self _, room⟩, Nat.lt_succ_self _, Nat.le_trans h.tagCounter room⟩
    given := h.given
    unused := ⟨fun m hm => h.unused.1 m (Nat.le_of_succ_le hm),
      fun n hn => h.unused.2 n (Nat.le_of_succ_le hn)⟩
    txnCounter := h.txnCounter
    tagCounter := Nat.succ_le_succ h.tagCounter
    willing := h.willing }

theorem transfer (room : b.tagCounter ≤ Number.countLimit) (ha : ρ.mine a) {x y : DeliveryState}
    (hs : ρ.DeliveryStates x y) (i j : Nat) (body : String) :
    (b.transfer i a body (some x)).1.Akin (c.transfer j a body (some y)).1 ∧
      (ρ.withTag b.tagCounter c.tagCounter).Serves b c
        (b.transfer i a body (some x)).2 (c.transfer j a body (some y)).2 := by
  have tagged := h.withTag room
  have counted : (ρ.withTag b.tagCounter c.tagCounter).SparesBroker b
      { b with tagCounter := b.tagCounter + 1 } :=
    { SparesBroker.refl with tagCounter := Nat.le_succ _ }
  have found := tagged.live.get? tagged.faithful hs.txnId
  have passes : b.transfersToFail.contains (.ofNat i) = false := by rw [h.willing.1.2.2]; rfl
  have passes' : c.transfersToFail.contains (.ofNat j) = false := by rw [h.willing.2.2.2]; rfl
  unfold Broker.transfer
  simp only [passes, passes', Bool.false_eq_true, if_false]
  rcases found.none_or_some with ⟨e, e'⟩ | ⟨r, r', e, e', hr⟩
  · simp only [e, e']
    exact ⟨.failed (.of_kind (by rfl)), tagged, counted⟩
  · simp only [e, e']
    have message : (ρ.withTag b.tagCounter c.tagCounter).Deliveries ⟨b.tagCounter, a, body⟩
        ⟨c.tagCounter, a, body⟩ := ⟨.inr ⟨rfl, rfl⟩, rfl, rfl, ha⟩
    have put := tagged.put hs.txnId (x := { r with staged := r.staged.pushBack _ })
      (y := { r' with staged := r'.staged.pushBack _ })
      ⟨hr.link, message.pushBack hr.staged, hr.acknowledged⟩
    exact ⟨.succeeded, put.both, counted.trans put.spares⟩

end Brokers

end Pairing

end Transact.Peer.Isolation
