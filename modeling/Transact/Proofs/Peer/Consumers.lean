import Transact.Proofs.Client.Counting
import Transact.Proofs.Peer.Stock
import Transact.Proofs.Peer.Tables

/-! # Consumers

A consumer keeps what it received until its transaction ends, and then hands it back to the broker,
one delivery after the other. The broker knows a delivery by its tag, and a consumer is enrolled under
the text of its name: both can be told apart as long as numbers are exact.

* `Roster`: the consumers of a session have different names.
* `Serves`: consumers of one session are called, and may give up what they have received.
* `after_hand`: what was handed out is taken back. -/

namespace Transact

/-! ### Names -/

theorem Number.toNat?_ofNat {n : Nat} (h : n ≤ countLimit) : (ofNat n).toNat? = some n := by
  rw [ofNat_of_le h]
  exact toNat?_ofIndex n

theorem Number.text_inj {i j : Nat} (hi : i ≤ countLimit) (hj : j ≤ countLimit)
    (h : (ofNat i).text = (ofNat j).text) : i = j := by
  rw [text_ofNat hi, text_ofNat hj, Nat.repr_eq_ofList_toDigits, Nat.repr_eq_ofList_toDigits,
    String.ofList_inj] at h
  have digits := congrArg (Nat.ofDigitChars 10 · 0) h
  have base : 1 < 10 ∧ 10 ≤ 10 := by decide
  simpa only [Nat.ofDigitChars_toDigits base.1 base.2] using digits

theorem MemberId.text_number {kind : MemberKind} {s : SessionId} {m n : Number}
    (h : (MemberId.mk kind s m).text = (MemberId.mk kind s n).text) : m.text = n.text := by
  have h := congrArg String.toList h
  exact String.toList_inj.1 (by simpa [MemberId.text, toString] using h)

namespace Peer

open Run

variable {s c c' : Nat} {k k' : Consumer} {sessions sessions' : Array Session}
  {table table' table'' : Array Consumer} {S : Session}

/-- **The consumers of a session** are numbered from one on. -/
structure Roster (sessions : Array Session) (consumers : Array Consumer) : Prop where
  named : ∀ (c : Nat) (k : Consumer), consumers[c]? = some k →
    ∃ S n, sessions[k.session]? = some S ∧ n < S.consumerNumber ∧ k.id = ⟨.consumer, S.id, .ofNat n⟩
  few : ∀ (s : Nat) (S : Session), sessions[s]? = some S → S.consumerNumber ≤ consumers.size + 1
  distinct : consumers.size < Number.countLimit → ∀ (c c' : Nat) (k k' : Consumer),
    consumers[c]? = some k → consumers[c']? = some k' → k.session = k'.session →
    k.id.text = k'.id.text → c = c'

namespace Roster

theorem sessions_eq (h : Roster sessions table) (hs : ∀ s : Nat,
    sessions'[s]?.map (fun S => (S.id, S.consumerNumber)) =
      sessions[s]?.map fun S => (S.id, S.consumerNumber)) : Roster sessions' table where
  named c k hk := by
    obtain ⟨S, n, hS, hn, hid⟩ := h.named c k hk
    have same := hs k.session
    rw [hS, Option.map_some, Option.map_eq_some_iff] at same
    obtain ⟨S', hS', e⟩ := same
    obtain ⟨e₁, e₂⟩ := Prod.mk.inj e
    exact ⟨S', n, hS', e₂ ▸ hn, e₁ ▸ hid⟩
  few s S' hS' := by
    have same := hs s
    rw [hS', Option.map_some, eq_comm, Option.map_eq_some_iff] at same
    obtain ⟨S, hS, e⟩ := same
    exact (Prod.mk.inj e).2 ▸ h.few s S hS
  distinct := h.distinct

theorem modify (h : Roster sessions table) {f : Session → Session}
    (hf : ∀ S, (f S).id = S.id ∧ (f S).consumerNumber = S.consumerNumber) :
    Roster (sessions.modify s f) table := by
  refine h.sessions_eq fun i => ?_
  rw [Array.getElem?_modify]
  split
  · rw [Option.map_map]
    congr 1
    funext S
    simp [hf S]
  · rfl

theorem addSession (h : Roster sessions table) (hn : S.consumerNumber = 1) :
    Roster (sessions.push S) table where
  named c k hk := by
    obtain ⟨S', n, hS', hn, hid⟩ := h.named c k hk
    have lt := (Array.getElem?_eq_some_iff.1 hS').1
    exact ⟨S', n, by rw [Array.getElem?_push, if_neg (Nat.ne_of_lt lt), hS'], hn, hid⟩
  few s S' hS' := by
    rw [Array.getElem?_push] at hS'
    split at hS'
    · rw [← Option.some.inj hS', hn]
      exact Nat.le_add_left ..
    · exact h.few s S' hS'
  distinct := h.distinct

theorem addConsumer (h : Roster sessions table) (hS : sessions[s]? = some S)
    {destination : Destination} :
    Roster (sessions.modify s fun x => { x with consumerNumber := x.consumerNumber + 1 })
      (table.push { session := s, id := ⟨.consumer, S.id, .ofNat S.consumerNumber⟩, destination }) := by
  have entry {c : Nat} {k : Consumer} (hk : (table.push { session := s
                                                          id := ⟨.consumer, S.id, .ofNat S.consumerNumber⟩
                                                          destination : Consumer })[c]? = some k) :
      table[c]? = some k ∨ c = table.size ∧ k.session = s ∧
        k.id = ⟨.consumer, S.id, .ofNat S.consumerNumber⟩ := by
    rw [Array.getElem?_push] at hk
    split at hk
    · next e => exact .inr ⟨e, by rw [← Option.some.inj hk], by rw [← Option.some.inj hk]⟩
    · exact .inl hk
  have session {i : Nat} {S' : Session} (hS' : sessions[i]? = some S') :
      ∃ S'', (sessions.modify s fun x => { x with consumerNumber := x.consumerNumber + 1 })[i]? =
        some S'' ∧ S''.id = S'.id ∧ S'.consumerNumber ≤ S''.consumerNumber ∧
        (i = s → S''.consumerNumber = S'.consumerNumber + 1) := by
    rw [Array.getElem?_modify, hS']
    split
    · exact ⟨_, rfl, rfl, Nat.le_succ _, fun _ => rfl⟩
    · next hi => exact ⟨_, rfl, rfl, Nat.le_refl _, fun e => absurd e.symm hi⟩
  have bound := h.few s S hS
  -- An older consumer of the session has a smaller number.
  have older {c : Nat} {k : Consumer} (hk : table[c]? = some k) (hs : k.session = s)
      (hlt : table.size + 1 < Number.countLimit) :
      k.id.text ≠ (MemberId.mk .consumer S.id (.ofNat S.consumerNumber)).text := by
    obtain ⟨S', n, hS', hn, hid⟩ := h.named c k hk
    obtain rfl := Option.some.inj ((hs ▸ hS').symm.trans hS)
    intro e
    rw [hid] at e
    have := Number.text_inj (by omega) (by omega) (MemberId.text_number e)
    omega
  refine ⟨fun c k hk => ?_, fun i S' hS' => ?_, fun hlt c c' k k' hk hk' hs he => ?_⟩
  · rcases entry hk with hk | ⟨-, rfl, hid⟩
    · obtain ⟨S', n, hS', hn, hid⟩ := h.named c k hk
      obtain ⟨S'', hS'', hid', hle, -⟩ := session hS'
      exact ⟨S'', n, hS'', Nat.lt_of_lt_of_le hn hle, by rw [hid', hid]⟩
    · obtain ⟨S'', hS'', hid', -, hn⟩ := session hS
      exact ⟨S'', _, hS'', by rw [hn rfl]; exact Nat.lt_succ_self _, by rw [hid', hid]⟩
  · rw [Array.size_push]
    rw [Array.getElem?_modify] at hS'
    split at hS'
    · next e =>
      subst e
      rw [hS] at hS'
      obtain rfl := Option.some.inj hS'
      exact Nat.succ_le_succ bound
    · exact Nat.le_succ_of_le (h.few i S' hS')
  · rw [Array.size_push] at hlt
    rcases entry hk with hk | ⟨rfl, hks, hid⟩ <;> rcases entry hk' with hk' | ⟨rfl, hks', hid'⟩
    · exact h.distinct (by omega) c c' k k' hk hk' hs he
    · exact absurd (he.trans (congrArg _ hid')) (older hk (hs.trans hks') hlt)
    · exact absurd (he.symm.trans (congrArg _ hid)) (older hk' (hs.symm.trans hks) hlt)
    · rfl

end Roster

/-! ### What consumers hold -/

/-- What the consumers have received and not handed back, all together. -/
def buffered (table : Array Consumer) : Multiset Delivery :=
  (table.toList.map fun k => (k.received : Multiset Delivery)).sum

theorem buffered_modify {f : Consumer → Consumer} (hk : table[c]? = some k) :
    buffered (table.modify c f) + k.received = buffered table + (f k).received := by
  obtain ⟨xs⟩ := table
  simp only [buffered, Array.toList_modify]
  rw [List.getElem?_toArray] at hk
  induction xs generalizing c with
  | nil => simp at hk
  | cons x xs ih =>
    cases c with
    | zero =>
      obtain rfl : x = k := by simpa using hk
      simp only [List.modify_zero_cons, List.map_cons, List.sum_cons]
      abel
    | succ c =>
      have := ih (by simpa using hk)
      simp only [List.modify_succ_cons, List.map_cons, List.sum_cons]
      rw [add_assoc, this, add_assoc]

theorem buffered_push : buffered (table.push k) = buffered table + k.received := by
  simp [buffered]

theorem le_buffered (hk : table[c]? = some k) : (k.received : Multiset Delivery) ≤ buffered table := by
  obtain ⟨before, rest, e⟩ := List.append_of_mem (Array.mem_toList_iff.2 (Array.mem_of_getElem? hk))
  rw [buffered, e, List.map_append, List.sum_append, List.map_cons, List.sum_cons]
  exact (Multiset.le_add_right _ _).trans (Multiset.le_add_left _ _)

/-- Consumers of a session are called, and keep their names. -/
structure Calls (s : Nat) (table table' : Array Consumer) : Prop where
  size : table'.size = table.size
  entry : ∀ (c : Nat) (k' : Consumer), table'[c]? = some k' → ∃ k, table[c]? = some k ∧
    k'.session = k.session ∧ k'.id = k.id ∧ (k.session ≠ s → k' = k)

namespace Calls

theorem trans (h : Calls s table table') (h' : Calls s table' table'') : Calls s table table'' where
  size := h'.size.trans h.size
  entry c k'' hk'' := by
    obtain ⟨k', hk', hs', hid', ho'⟩ := h'.entry c k'' hk''
    obtain ⟨k, hk, hs, hid, ho⟩ := h.entry c k' hk'
    refine ⟨k, hk, hs'.trans hs, hid'.trans hid, fun e => ?_⟩
    obtain rfl := ho e
    exact ho' e

theorem modify {f : Consumer → Consumer} (hc : ∀ k, table[c]? = some k → k.session = s)
    (hf : ∀ k, (f k).session = k.session ∧ (f k).id = k.id) : Calls s table (table.modify c f) where
  size := Array.size_modify ..
  entry i k' hk' := by
    rw [Array.getElem?_modify] at hk'
    split at hk'
    · next e =>
      obtain ⟨k, hk, rfl⟩ := Option.map_eq_some_iff.1 hk'
      exact ⟨k, hk, (hf k).1, (hf k).2, fun ne => absurd (hc k (e ▸ hk)) ne⟩
    · exact ⟨k', hk', rfl, rfl, fun _ => rfl⟩

theorem still (h : Calls s table table') (hk : table[c]? = some k) :
    ∃ k', table'[c]? = some k' ∧ k'.session = k.session ∧ k'.id = k.id ∧ (k.session ≠ s → k' = k) := by
  have lt : c < table'.size := h.size ▸ (Array.getElem?_eq_some_iff.1 hk).1
  obtain ⟨k₀, hk₀, rest⟩ := h.entry c _ (Array.getElem?_eq_getElem lt)
  obtain rfl := Option.some.inj (hk₀.symm.trans hk)
  exact ⟨_, Array.getElem?_eq_getElem lt, rest⟩

/-- The consumers of other sessions stay as they are. -/
theorem other (h : Calls s table table') (hs : k.session ≠ s) :
    table'[c]? = some k ↔ table[c]? = some k := by
  refine ⟨fun hk => ?_, fun hk => ?_⟩
  · obtain ⟨k₀, hk₀, e, -, same⟩ := h.entry c k hk
    rw [same (e ▸ hs), hk₀]
  · obtain ⟨k', hk', -, -, same⟩ := h.still hk
    rw [hk', same hs]

theorem roster (h : Calls s table table') (hr : Roster sessions table) :
    Roster sessions table' where
  named c k' hk' := by
    obtain ⟨k, hk, hs, hid, -⟩ := h.entry c k' hk'
    rw [hs, hid]
    exact hr.named c k hk
  few := h.size ▸ hr.few
  distinct hlt c c' k k' hk hk' hs he := by
    obtain ⟨k₁, hk₁, hs₁, hid₁, -⟩ := h.entry c k hk
    obtain ⟨k₂, hk₂, hs₂, hid₂, -⟩ := h.entry c' k' hk'
    exact hr.distinct (h.size ▸ hlt) c c' k₁ k₂ hk₁ hk₂ (hs₁ ▸ hs₂ ▸ hs) (hid₁ ▸ hid₂ ▸ he)

end Calls

/-- The same, and each keeps or gives up what it has received. -/
structure Serves (s : Nat) (table table' : Array Consumer) : Prop extends Calls s table table' where
  received : ∀ (c : Nat) (k k' : Consumer), table[c]? = some k → table'[c]? = some k' →
    k'.received = k.received ∨ k'.received = []

namespace Serves

theorem refl : Serves s table table where
  size := rfl
  entry _ k hk := ⟨k, hk, rfl, rfl, fun _ => rfl⟩
  received _ _ _ hk hk' := .inl (by rw [Option.some.inj (hk.symm.trans hk')])

theorem trans (h : Serves s table table') (h' : Serves s table' table'') : Serves s table table'' :=
  { h.toCalls.trans h'.toCalls with
    received := by
      intro c k k'' hk hk''
      obtain ⟨k', hk', -⟩ := h.still hk
      rcases h'.received c k' k'' hk' hk'' with e | e
      · rw [e]
        exact h.received c k k' hk hk'
      · exact .inr e }

theorem modify {f : Consumer → Consumer} (hc : ∀ k, table[c]? = some k → k.session = s)
    (hf : ∀ k, (f k).session = k.session ∧ (f k).id = k.id ∧
      ((f k).received = k.received ∨ (f k).received = [])) : Serves s table (table.modify c f) :=
  { Calls.modify hc fun k => ⟨(hf k).1, (hf k).2.1⟩ with
    received := by
      intro i k k' hk hk'
      rw [Array.getElem?_modify, hk] at hk'
      split at hk'
      · rw [← Option.some.inj hk']
        exact (hf k).2.2
      · rw [Option.some.inj hk']
        exact .inl rfl }

end Serves

/-! ### Handing back -/

variable {w : State} {state : Option DeliveryState} {ds : List Delivery} {b b' : Broker}

/-- What a consumer asks of the broker for one delivery. -/
def handBack (state : Option DeliveryState) (d : Delivery) (b : Broker) : Except Problem Broker :=
  match state with
  | some s => b.acknowledge (.ofNat d.tag) s
  | none => b.release (.ofNat d.tag)

/-- The broker has lent these deliveries, and knows their tags. -/
structure Lends (b : Broker) (ds : Multiset Delivery) : Prop where
  le : ds ≤ b.lent
  exact : ∀ d ∈ ds, d.tag ≤ Number.countLimit

/-- Messages have changed their places. -/
structure Shift (b b' : Broker) : Prop where
  trade : b.Sound → Broker.Trade 0 0 b b'
  moves : Broker.Moves (fun _ => False) [] b b'

theorem Shift.refl (b : Broker) : Shift b b := ⟨fun h => .refl h.toShaped, .refl b⟩

theorem Shift.trans {b'' : Broker} (h : Shift b b') (h' : Shift b' b'') : Shift b b'' where
  trade hb := by simpa using (h.trade hb).trans (h'.trade ((h.trade hb).sound hb))
  moves := h.moves.trans h'.moves

theorem shift_fetch {address : String} : Shift b (b.fetch address).2 where
  trade hb := by
    rcases Broker.fetch_cases hb address with ⟨-, same⟩ | ⟨d, -, trade, -⟩
    · rw [same]
      exact .refl hb.toShaped
    · exact trade
  moves := Broker.moves_fetch

theorem Broker.takeBack_lent {d : Delivery} (h : b.Shaped) (hd : d ∈ b.lent)
    (ht : d.tag ≤ Number.countLimit) : ∃ c, b.takeBack (.ofNat d.tag) = .ok (d, c) := by
  obtain ⟨e, he, hde⟩ := Roll.mem_total.1 hd
  obtain rfl := Multiset.mem_singleton.1 hde
  have got : b.inflight.get? e.2.tag = some e.2 :=
    h.tagged e he ▸ Roll.get?_of_mem h.inflight (k := e.1) (a := e.2) he
  refine ⟨{ b with inflight := b.inflight.erase e.2.tag }, ?_⟩
  unfold takeBack
  rw [Number.toNat?_ofNat ht, Option.bind_some, got]

/-- The first delivery is lent, and once it was given back the others still are. -/
theorem Lends.head {d : Delivery} (h : Lends b ↑(d :: ds)) : Lends b {d} :=
  ⟨(Multiset.singleton_le.2 (by simp)).trans h.le, fun e he => h.exact e (by
    rw [Multiset.mem_singleton.1 he]
    simp)⟩

theorem Lends.rest {d : Delivery} (h : Lends b ↑(d :: ds)) (hl : b'.lent + {d} = b.lent) :
    Lends b' ds := by
  refine ⟨?_, fun e he => h.exact e (by simpa using .inr he)⟩
  have le := h.le
  rw [← hl, ← Multiset.cons_coe, ← Multiset.singleton_add, add_comm] at le
  exact Multiset.le_of_add_le_add_right le

theorem handBack_cases (state : Option DeliveryState) (d : Delivery) (b : Broker) :
    (∃ b', handBack state d b = .ok b' ∧ Shift b b' ∧
      (b.Shaped → Lends b {d} → b'.lent + {d} = b.lent)) ∨
    ∃ p, handBack state d b = .error p ∧ (b.Shaped → ¬ Lends b {d}) := by
  cases ht : b.takeBack (.ofNat d.tag) with
  | error p =>
    refine .inr ⟨p, ?_, fun hb hl => ?_⟩
    · cases state <;> simp [handBack, Broker.acknowledge, Broker.release, ht, bind, Except.bind]
    · obtain ⟨c, hc⟩ := Broker.takeBack_lent hb (Multiset.singleton_le.1 hl.le)
        (hl.exact d (Multiset.mem_singleton_self d))
      cases ht.symm.trans hc
  | ok x =>
    obtain ⟨e, c⟩ := x
    have same (hb : b.Shaped) (hl : Lends b {d}) : e = d := by
      obtain ⟨c', hc⟩ := Broker.takeBack_lent hb (Multiset.singleton_le.1 hl.le)
        (hl.exact d (Multiset.mem_singleton_self d))
      cases ht.symm.trans hc
      rfl
    cases state with
    | none =>
      have ok : b.release (.ofNat d.tag) = .ok (c.giveBack e) := by
        simp [Broker.release, ht, bind, Except.bind, pure, Except.pure]
      refine .inl ⟨_, ok, ⟨fun hb => (Broker.returns_release hb.toShaped ht).2.trade,
        Broker.moves_release ok⟩, fun hb hl => ?_⟩
      rw [← same hb hl]
      exact (Broker.returns_release hb ht).2.lent
    | some state =>
      obtain ⟨b', ok⟩ : ∃ b', b.acknowledge (.ofNat d.tag) state = .ok b' := by
        simp only [Broker.acknowledge, ht, bind, Except.bind, pure, Except.pure]
        split <;> exact ⟨_, rfl⟩
      have returns (hb : b.Shaped) : Broker.Returns e b b' := by
        obtain ⟨b'', ok', returns⟩ := Broker.returns_acknowledge hb state ht
        cases ok.symm.trans ok'
        exact returns
      refine .inl ⟨_, ok, ⟨fun hb => (returns hb.toShaped).trade, Broker.moves_acknowledge ok⟩,
        fun hb hl => ?_⟩
      rw [← same hb hl]
      exact (returns hb).lent

theorem hand_eq : Consumer.hand state ds = ds.forM fun d => askBroker (handBack state d) := by
  cases state <;> rfl

/-- **Deliveries are handed back.** This fails only if one of them was not lent. -/
theorem after_hand (state : Option DeliveryState) (ds : List Delivery) (hb : w.outside.broker.Sound) :
    After (Consumer.hand state ds) w
      (fun _ w' => ∃ b', w' = w.out (·.changeBroker fun _ => b') ∧ Shift w.outside.broker b' ∧
        (Lends w.outside.broker ds → b'.lent + ds = w.outside.broker.lent))
      fun e w' => (∃ p : Problem, e = .raised p.toFailure) ∧ ∃ b', w' = w.out (·.changeBroker fun _ => b') ∧
        Shift w.outside.broker b' ∧ ¬ Lends w.outside.broker ds := by
  rw [hand_eq]
  induction ds generalizing w with
  | nil => exact ⟨w.outside.broker, rfl, .refl _, fun _ => add_zero _⟩
  | cons d ds ih =>
    simp only [List.forM, after_bind]
    rw [askBroker, after_bind, Act.after_outside]
    rcases handBack_cases state d w.outside.broker with ⟨b, ok, shift, less⟩ | ⟨p, error, none⟩
    · rw [ok]
      have sound := (shift.trade hb).sound hb
      have less (h : Lends w.outside.broker ↑(d :: ds)) : b.lent + {d} = w.outside.broker.lent :=
        less hb.toShaped h.head
      refine (ih (w := w.out (·.changeBroker fun _ => b)) sound).mono (fun _ w' hw => ?_)
        fun e w' hw => ?_
      · obtain ⟨b', rfl, shift', less'⟩ := hw
        refine ⟨b', rfl, shift.trans shift', fun h => ?_⟩
        have all : b'.lent + ds = b.lent := less' (h.rest (less h))
        rw [← less h, ← all, ← Multiset.cons_coe, ← Multiset.singleton_add]
        abel
      · obtain ⟨raised, b', rfl, shift', none⟩ := hw
        exact ⟨raised, b', rfl, shift.trans shift', fun h => none (h.rest (less h))⟩
    · rw [error]
      exact ⟨⟨_, rfl⟩, w.outside.broker, rfl, .refl _, fun h => none hb.toShaped h.head⟩

end Peer

end Transact
