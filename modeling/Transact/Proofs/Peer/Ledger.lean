import Transact.Proofs.Peer.Steps
import Transact.Proofs.Peer.Tables

/-! # What is known of a run

The tables of a client and its surroundings do not say what a completion is for, which session a
transaction or a link belongs to, or which message a transfer carries. A `Ledger` says so. It is
written along with a run and never taken back: it grows at the ends of its lists, and the messages
that wait are taken in one after the other. -/

namespace Transact.Peer

/-! ### Tasks -/

namespace Task

/-- Whether this is a transfer of a session. -/
def isTransfer : Task → Bool
  | transfer _ _ _ none none => false
  | transfer .. => true
  | _ => false

/-- The number of a transfer that belongs to no session. -/
def deposit? : Task → Option Nat
  | transfer index _ _ none none => some index
  | _ => none

/-- Whether this is a declare that waits for its answer. -/
def isDeclare : Task → Bool
  | answer _ _ .declare => true
  | _ => false

/-- The request on this link that waits for its answer. -/
def asks (l : Nat) : Task → Option (Number × Request)
  | answer e delivery request => if e = l then some (delivery, request) else none
  | _ => none

/-- The link that the task is about. -/
def link? : Task → Option Nat
  | openLink e | refuseLink e | closeLink e _ | answer e .. => some e
  | transfer .. => none

/-- The link that is to be opened, or refused. -/
def opens? : Task → Option Nat
  | openLink e | refuseLink e => some e
  | _ => none

/-- A transfer in the transaction of this name. -/
def Carries (y : TxnId) : Task → Prop
  | transfer _ _ _ (some state) _ => state.txnId = y
  | _ => False

end Task

/-- The requests on a link that wait for their answers. -/
def asked (l : Nat) (ts : List Task) : List (Number × Request) := ts.filterMap (·.asks l)

/-- No transfer in the transaction of this name comes after the oldest request on the link. -/
def Sealed (l : Nat) (y : TxnId) (ts : List Task) : Prop :=
  ∀ task ∈ ts.dropWhile fun task => (task.asks l).isNone, ¬ task.Carries y

variable {l : Nat} {y : TxnId} {ts : List Task} {job : Task}

theorem Task.asks_eq_none (h : job.link? ≠ some l) : job.asks l = none := by
  cases job with
  | answer e =>
    refine if_neg ?_
    rintro rfl
    exact h rfl
  | _ => rfl

theorem asked_append (h : job.asks l = none) : asked l (ts ++ [job]) = asked l ts := by
  simp [asked, h]

theorem Sealed.append (h : Sealed l y ts) (ht : ¬ job.Carries y) : Sealed l y (ts ++ [job]) := by
  intro x hx
  rw [List.dropWhile_append] at hx
  split at hx
  · have := List.dropWhile_subset _ hx
    rwa [List.mem_singleton.1 this]
  · rcases List.mem_append.1 hx with hx | hx
    · exact h x hx
    · rwa [List.mem_singleton.1 hx]

theorem Sealed.of_empty (h : asked l ts = []) (hj : ¬ job.Carries y) : Sealed l y (ts ++ [job]) := by
  refine Sealed.append ?_ hj
  induction ts with
  | nil => exact fun x hx => by cases hx
  | cons a ts ih =>
    obtain ⟨ha, hts⟩ : a.asks l = none ∧ asked l ts = [] := by
      simpa [asked] using h
    intro x hx
    rw [List.dropWhile_cons, if_pos (by simp [ha])] at hx
    exact ih hts x hx

theorem Sealed.tail (h : Sealed l y (job :: ts)) : Sealed l y ts := by
  intro x hx
  refine h x ?_
  rw [List.dropWhile_cons]
  split
  · exact hx
  · exact List.mem_cons_of_mem _ (List.dropWhile_subset _ hx)

/-- Neither a request nor a transfer of a session. -/
structure Task.Idle (job : Task) : Prop where
  transfer : job.isTransfer = false
  declare : job.isDeclare = false
  asks : ∀ l, job.asks l = none
  carries : ∀ y, ¬ job.Carries y

theorem idle_openLink : (Task.openLink l).Idle := ⟨rfl, rfl, fun _ => rfl, fun _ => id⟩

theorem idle_refuseLink : (Task.refuseLink l).Idle := ⟨rfl, rfl, fun _ => rfl, fun _ => id⟩

theorem idle_closeLink {error : Option Condition} : (Task.closeLink l error).Idle :=
  ⟨rfl, rfl, fun _ => rfl, fun _ => id⟩

/-! ### Messages -/

/-- A message on its way, with the two completions that are told of it, unless it is presettled. -/
structure Parcel where
  index : Nat
  session : Nat
  transaction : Nat
  txnId : TxnId
  address : String
  body : String
  receipt : Option (Nat × Nat)

/-- The message, as a history shows it. -/
def Parcel.message (x : Parcel) : Message :=
  ⟨x.index, x.transaction, x.address, x.body, x.receipt.isNone⟩

/-- The task by which the message waits in the loop. -/
def Parcel.task (x : Parcel) : Task :=
  .transfer x.index x.address x.body (some (.enrolling x.txnId))
    (x.receipt.map fun r => .client r.1 (.sent x.session r.2))

/-- What became of a message: its transfer was made to fail, found its transaction gone, or was
staged. -/
inductive Fate where
  | failed
  | lost (d : Delivery)
  | staged (d : Delivery)

namespace Fate

/-- The delivery that the message has become. -/
def delivery? : Fate → Option Delivery
  | failed => none
  | lost d | staged d => some d

/-- The delivery, if it was staged. -/
def staged? : Fate → Option Delivery
  | staged d => some d
  | _ => none

/-- What the sender of the message is told. -/
def resolution (x : Parcel) : Fate → Resolution Unit
  | failed => .failed (Problem.transferRejected x.index x.address).toFailure
  | lost _ => .failed (Problem.transferUnknown x.index x.txnId).toFailure
  | staged _ => .succeeded ()

theorem resolution_legal {x : Parcel} {fate : Fate} : (fate.resolution x).Legal := by
  cases fate with
  | staged => exact nofun
  | _ =>
    rintro _ ⟨rfl⟩
    exact nofun

end Fate

/-! ### Completions that were settled -/

/-- What was settled in `x` is settled in `x'`, and in the same way. -/
def Keeps (x x' : Client Waiting) : Prop :=
  ∀ (id : Nat) (r : Resolution Unit), x.completions[id]? = some (.settled r) →
    x'.completions[id]? = some (.settled r)

namespace Keeps

variable {x y z : Client Waiting}

theorem trans (h : Keeps x y) (h' : Keeps y z) : Keeps x z := fun id r e => h' id r (h id r e)

theorem of_eq (h : y.completions = x.completions) : Keeps x y := fun _ _ e => h ▸ e

theorem addCompletion : Keeps x x.addCompletion := fun _ _ e =>
  (Array.getElem?_push_lt (Array.getElem?_eq_some_iff.1 e).1).trans
    ((Array.getElem?_eq_getElem _).symm.trans e)

theorem write {id : Nat} {r : Resolution Unit} (h : x.Pending id) :
    Keeps x (x.write id (.settled r)) := by
  intro i r' e
  have : id ≠ i := by
    rintro rfl
    cases h.symm.trans e
  simpa [Client.write, this] using e

end Keeps

/-- What has failed in `x'` as a misuse by the caller had failed so in `x`. -/
def Lawful (x x' : Client Waiting) : Prop :=
  ∀ (id : Nat) (f : Failure), x'.completions[id]? = some (.settled (.failed f)) → ¬ f.Legal →
    x.completions[id]? = some (.settled (.failed f))

namespace Lawful

variable {x y z : Client Waiting}

theorem trans (h : Lawful x y) (h' : Lawful y z) : Lawful x z := fun id f e hf =>
  h id f (h' id f e hf) hf

theorem of_eq (h : y.completions = x.completions) : Lawful x y := fun _ _ e _ => h ▸ e

theorem addCompletion : Lawful x x.addCompletion := by
  intro id f e _
  rw [Client.addCompletion, Array.getElem?_push] at e
  split at e
  · cases e
  · exact e

theorem write {id : Nat} {r : Resolution Unit} (h : r.Legal) : Lawful x (x.write id (.settled r)) := by
  intro i f e hf
  rw [Client.write, Array.getElem?_setIfInBounds] at e
  split at e
  · split at e
    · obtain rfl : r = .failed f := by simpa using e
      exact absurd (h f rfl) hf
    · cases e
  · exact e

end Lawful

/-! ### The ledger -/

/-- What a completion is for. Each kind is about one transaction, the last two about a transfer.

* `begun`, `declared`, `opened`: the begin, and what it waits for.
* `outcome`, `report`: what the client and its caller are told of the end.
* `swapped`, `discharged`: what the end waits for. -/
inductive Purpose where
  | other
  | begun
  | declared
  | opened
  | outcome
  | report (ending : Ending)
  | swapped
  | discharged
  | sent
  | told
deriving DecidableEq

/-- Whether completions of this kind are about a transaction. -/
def Purpose.ofTransaction : Purpose → Bool
  | other | sent | told => false
  | _ => true

/-- Whether callers wait for completions of this kind, and they are about a transaction. -/
def Purpose.ofCaller : Purpose → Bool
  | begun | report _ => true
  | _ => false

/-- What is known of a run. -/
structure Ledger where
  /-- What the completions are for, and the transaction or transfer. -/
  purposes : List (Purpose × Nat) := []
  /-- The sessions of the transactions. -/
  homes : List Nat := []
  /-- The sessions of the links. -/
  owners : List Nat := []
  taken : List (Parcel × Fate) := []
  waiting : List Parcel := []

namespace Ledger

variable (G : Ledger)

/-- A completion is made for this purpose. -/
def addPurpose (a : Purpose) (n : Nat) : Ledger := { G with purposes := G.purposes ++ [(a, n)] }

/-- A transaction of this session is made. -/
def addHome (s : Nat) : Ledger := { G with homes := G.homes ++ [s] }

/-- A link of this session is made. -/
def addOwner (s : Nat) : Ledger := { G with owners := G.owners ++ [s] }

/-- All messages, in the order in which they were sent. -/
def parcels : List Parcel := G.taken.map (·.1) ++ G.waiting

/-- What is staged in a transaction, in the order in which it was sent. -/
def staged (t : Nat) : List Delivery :=
  G.taken.filterMap fun e => if e.1.transaction = t then e.2.staged? else none

/-- How many sends of a session wait for their settlement. -/
def unsettled (s : Nat) : Nat :=
  G.waiting.countP fun x => x.session = s && x.receipt.isSome

/-- A message of the transaction was taken in under this tag. -/
def Tagged (n t : Nat) : Prop :=
  ∃ e ∈ G.taken, e.1.transaction = t ∧ ∃ d, e.2.delivery? = some d ∧ d.tag = n

/-- Among the first `n` transfers, this one belongs to no session. -/
def Stray (n i : Nat) : Prop := i < n ∧ ∀ x ∈ G.parcels, x.index ≠ i

/-- No settled send of the transaction has failed. -/
def Clean (t : Nat) : Prop :=
  ∀ e ∈ G.taken, e.1.transaction = t → e.1.receipt.isSome → ∃ d, e.2 = .staged d

/-- A settled send of the transaction has failed so. -/
def Fails (t : Nat) (f : Failure) : Prop :=
  ∃ e ∈ G.taken, e.1.transaction = t ∧ e.1.receipt.isSome ∧ e.2.resolution e.1 = .failed f

/-- No transfer in the transaction has found it gone. -/
def Known (t : Nat) : Prop :=
  ∀ e ∈ G.taken, e.1.transaction = t → ∀ d, e.2 ≠ .lost d

/-- The pending completion is for this. -/
def Live (x : Client Waiting) (id : Nat) (a : Purpose) (n : Nat) : Prop :=
  G.purposes[id]? = some (a, n) ∧ x.Pending id

/-- The caller of a commit was told that the transaction has been committed. -/
def Concluded (x : Client Waiting) (t : Nat) : Prop :=
  ∃ c : Nat, G.purposes[c]? = some (.report .commit, t) ∧
    x.completions[c]? = some (.settled (.succeeded ()))

/-- The completion was returned to a caller: it is settled, or it is known what it waits for. -/
def Promised (x : Client Waiting) (c : Nat) : Prop :=
  x.Settled c ∨ (∃ a t, G.purposes[c]? = some (a, t) ∧ a.ofCaller) ∨
    ∃ p ∈ G.waiting, ∃ sent, p.receipt = some (sent, c)

variable {G} {x : Client Waiting} {id i n m t : Nat} {a b : Purpose} {r : Resolution Unit}

/-- What is known of a transaction's messages is read off those messages. -/
theorem staged_eq : G.staged t =
    (G.taken.filter (·.1.transaction = t)).filterMap (·.2.staged?) := by
  rw [List.filterMap_filter]
  simp [staged]

theorem tag_ext (h : (G.taken.filterMap (·.2.delivery?)).Pairwise (·.tag < ·.tag))
    {a b : Parcel × Fate} {d d' : Delivery} (ha : a ∈ G.taken) (hb : b ∈ G.taken)
    (hd : a.2.delivery? = some d) (hd' : b.2.delivery? = some d') (e : d.tag = d'.tag) : a = b := by
  obtain ⟨i, hi⟩ := List.mem_iff_getElem?.1 ha
  obtain ⟨j, hj⟩ := List.mem_iff_getElem?.1 hb
  have ordered := List.pairwise_filterMap.1 h
  have apart {i j : Nat} {a b : Parcel × Fate} {d d' : Delivery} (hi : G.taken[i]? = some a)
      (hj : G.taken[j]? = some b) (hd : a.2.delivery? = some d) (hd' : b.2.delivery? = some d')
      (lt : i < j) : d.tag < d'.tag := by
    obtain ⟨hi', rfl⟩ := List.getElem?_eq_some_iff.1 hi
    obtain ⟨hj', rfl⟩ := List.getElem?_eq_some_iff.1 hj
    exact List.pairwise_iff_getElem.1 ordered i j hi' hj' lt d hd d' hd'
  rcases Nat.lt_trichotomy i j with lt | rfl | lt
  · have := apart hi hj hd hd' lt
    omega
  · exact Option.some.inj (hi.symm.trans hj)
  · have := apart hj hi hd' hd lt
    omega

theorem Tagged.unique (h : (G.taken.filterMap (·.2.delivery?)).Pairwise (·.tag < ·.tag)) {t' : Nat}
    (ht : G.Tagged n t) (ht' : G.Tagged n t') : t = t' := by
  obtain ⟨a, ha, rfl, d, hd, e⟩ := ht
  obtain ⟨b, hb, rfl, d', hd', e'⟩ := ht'
  rw [tag_ext h ha hb hd hd' (e.trans e'.symm)]

theorem tagged_of_staged {d : Delivery} (h : d ∈ G.staged t) : G.Tagged d.tag t := by
  obtain ⟨e, he, staged⟩ := List.mem_filterMap.1 h
  split at staged
  · next het =>
    refine ⟨e, he, het, d, ?_, rfl⟩
    cases fate : e.2 with
    | staged => rw [fate] at staged; exact staged
    | _ => rw [fate] at staged; cases staged
  · cases staged

theorem unsettled_eq {s : Nat} :
    G.unsettled s = (G.waiting.filter (·.session = s)).countP (·.receipt.isSome) := by
  rw [List.countP_filter, unsettled]
  simp [Bool.and_comm]

theorem purposes_old (h : G.purposes[i]? = some (a, n)) :
    (G.addPurpose b m).purposes[i]? = some (a, n) := by
  rw [addPurpose, List.getElem?_append_left (List.getElem?_eq_some_iff.1 h).1, h]

theorem purposes_new (h : G.purposes.length = i) :
    (G.addPurpose b m).purposes[i]? = some (b, m) := by
  simp [addPurpose, ← h]

theorem purposes_cases (h : (G.addPurpose b m).purposes[i]? = some (a, n)) :
    G.purposes[i]? = some (a, n) ∨ i = G.purposes.length ∧ a = b ∧ n = m := by
  by_cases hi : i < G.purposes.length
  · rw [addPurpose, List.getElem?_append_left hi] at h
    exact .inl h
  · have lt := (List.getElem?_eq_some_iff.1 h).1
    simp only [addPurpose, List.length_append, List.length_singleton] at lt
    obtain rfl : i = G.purposes.length := by omega
    rw [purposes_new rfl] at h
    exact .inr ⟨rfl, by simpa [eq_comm] using h⟩

/-! ### Live completions -/

theorem Live.congr {G' : Ledger} {x' : Client Waiting} (h : G.Live x id a n)
    (hG : G'.purposes = G.purposes) (hx : x'.completions = x.completions) : G'.Live x' id a n :=
  ⟨by rw [hG]; exact h.1, by rw [Client.Pending, hx]; exact h.2⟩

/-- Settling a completion leaves those pending that are for something else. -/
theorem Live.write (h : G.Live x i a n) (hid : G.purposes[id]? = some (b, m))
    (hne : (b, m) ≠ (a, n)) : G.Live (x.write id (.settled r)) i a n := by
  refine ⟨h.1, Client.pending_write.2 ⟨h.2, ?_⟩⟩
  rintro rfl
  exact hne (Option.some.inj (hid.symm.trans h.1))

theorem Live.addCompletion (h : G.Live x i a n) :
    (G.addPurpose b m).Live x.addCompletion i a n :=
  ⟨purposes_old h.1, Client.pending_addCompletion.2 (.inl h.2)⟩

theorem live_new (h : G.purposes.length = x.completions.size) :
    (G.addPurpose b m).Live x.addCompletion x.completions.size b m :=
  ⟨purposes_new h, Client.pending_addCompletion.2 (.inr rfl)⟩

theorem live_cases (hp : G.purposes.length = x.completions.size)
    (h : (G.addPurpose b m).Live x.addCompletion i a n) :
    G.Live x i a n ∨ i = x.completions.size ∧ a = b ∧ n = m := by
  rcases purposes_cases h.1 with old | ⟨rfl, same⟩
  · refine .inl ⟨old, (Client.pending_addCompletion.1 h.2).resolve_right ?_⟩
    have := (List.getElem?_eq_some_iff.1 old).1
    omega
  · exact .inr ⟨hp, same⟩

/-- What is pending after another one was settled was pending before. -/
theorem Live.before (h : G.Live (x.write id (.settled r)) i a n) : G.Live x i a n :=
  ⟨h.1, (Client.pending_write.1 h.2).1⟩

/-! ### Concluded transactions -/

theorem concluded_addCompletion (h : G.purposes.length = x.completions.size) :
    (G.addPurpose b m).Concluded x.addCompletion t ↔ G.Concluded x t := by
  constructor
  · rintro ⟨c, hc, hs⟩
    have lt : c < x.completions.size := by
      have := (Array.getElem?_eq_some_iff.1 hs).1
      simp only [Client.addCompletion, Array.size_push] at this
      refine Nat.lt_of_le_of_ne (by omega) ?_
      rintro rfl
      simp [Client.addCompletion] at hs
    refine ⟨c, (purposes_cases hc).resolve_right (by omega), ?_⟩
    simpa [Client.addCompletion, Array.getElem?_push, Nat.ne_of_lt lt] using hs
  · rintro ⟨c, hc, hs⟩
    refine ⟨c, purposes_old hc, ?_⟩
    have := (Array.getElem?_eq_some_iff.1 hs).1
    simpa [Client.addCompletion, Array.getElem?_push, Nat.ne_of_lt this] using hs

/-- A completion that is settled concludes a transaction if it reports a commit. -/
theorem concluded_write (h : G.Live x id a n) :
    G.Concluded (x.write id (.settled r)) t ↔
      G.Concluded x t ∨ (a = .report .commit ∧ n = t ∧ r = .succeeded ()) := by
  constructor
  · rintro ⟨c, hc, hs⟩
    by_cases e : id = c
    · subst e
      obtain ⟨rfl, rfl⟩ : a = .report .commit ∧ n = t := by simpa using h.1.symm.trans hc
      refine .inr ⟨rfl, rfl, ?_⟩
      simpa [Client.write, h.2.lt] using hs
    · exact .inl ⟨c, hc, by simpa [Client.write, e] using hs⟩
  · rintro (⟨c, hc, hs⟩ | ⟨rfl, rfl, rfl⟩)
    · refine ⟨c, hc, ?_⟩
      have : id ≠ c := by
        rintro rfl
        cases h.2.symm.trans hs
      simpa [Client.write, this] using hs
    · exact ⟨id, h.1, by simp [Client.write, h.2.lt]⟩

end Ledger

end Transact.Peer
