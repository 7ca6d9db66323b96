import Transact.Proofs.Sends.Ledger

/-! # The invariant of aggregates

What holds of aggregates whenever foreign code has control, in every run: they are as the history tells,
no token but their own has the completions that they wait with, and what was noted so far is as it should
be. It does not depend on the phase of the context.

`Leads own G w y v` says that the computation `y`, started at `v`, returns or raises, and that the
invariant holds then; `G` says how far the history is complete. An entry may still be due that is to
follow another one: `Owes` says what it may be. -/

namespace Transact.Adversary

open Run Player

/-! ### Completions of their own -/

/-- A request is made with a new completion. -/
def Call.Own : Call → Prop
  | request _ again => again = none
  | signal _ => True

/-- No aggregate waits with this completion. -/
structure Spare (x : Client Nat) (i : Nat) : Prop where
  lt : i < x.completions.size
  other : ∀ (a : Nat) (A : Aggregate Nat), x.aggregates[a]? = some A → A.sends.isComplete = false →
    A.request.completion ≠ i

/-- No aggregate waits with a completion of this token. -/
def Apart (x : Client Nat) (q : Token Nat) : Prop := ∀ i ∈ q.completions, Spare x i

/-- A link that is not closed was attached, and its tokens are not those of aggregates. -/
structure LinkFair (own : Prop) (x : Client Nat) (l : Nat) (k : Link Nat) : Prop where
  sender : k.state ≠ .closed → k.sender = some l
  opening : own → ∀ q, k.opening = some q → Apart x q
  pending : own → ∀ e ∈ k.pending, Apart x e.2.request

/-! ### The invariant -/

/-- **What aggregates wait for** is told by the history. -/
structure Tracked (own : Prop) (w : State) : Prop where
  context : ∃ k, w.client.contexts[0]? = some k
  table : w.client.aggregates = tabled w.outside.history
  link : ∀ (l : Nat) (k : Link Nat), w.client.links[l]? = some k → LinkFair own w.client l k
  waiting : own → ∀ (a : Nat) (A : Aggregate Nat), w.client.aggregates[a]? = some A →
    A.sends.isComplete = false → w.client.Pending A.request.completion
  single : own → ∀ (a a' : Nat) (A A' : Aggregate Nat), w.client.aggregates[a]? = some A →
    w.client.aggregates[a']? = some A' → A.sends.isComplete = false → A'.sends.isComplete = false →
    A.request.completion = A'.request.completion → a = a'
  faithful : Lawful (Entry.Fair own) w.outside.history
  civil : ∀ m ∈ w.outside.moves, m.Civil
  moves : own → ∀ m ∈ w.outside.moves, m.Calls Call.Own

/-- From `w` to `w'` no move was added, and an aggregate that waits was waiting before, or has a new
completion. -/
structure Elapsed (own : Prop) (w w' : State) : Prop where
  moves : w'.outside.moves <:+ w.outside.moves
  size : w.client.completions.size ≤ w'.client.completions.size
  waits : own → ∀ (a : Nat) (A' : Aggregate Nat), w'.client.aggregates[a]? = some A' →
    A'.sends.isComplete = false → (∃ A, w.client.aggregates[a]? = some A ∧
      A.sends.isComplete = false ∧ A.request = A'.request) ∨
      w.client.completions.size ≤ A'.request.completion

/-- The invariant holds at `v`, which was reached from `w`, and `F` of the history. -/
structure Held (own : Prop) (F : List Entry → Prop) (w v : State) : Prop where
  tracked : Tracked own v
  elapsed : Elapsed own w v
  history : F v.outside.history

/-! ### What is due -/

/-- Events after which nothing is due. -/
def Event.Clear : Event → Prop
  | requested .. | signalled (.settleSend ..) => False
  | _ => True

/-- Events that may be noted at any time. -/
def Event.Still : Event → Prop
  | requested .. | signalled (.settleSend ..) | resolved .. => False
  | _ => True

/-- Once some hooks are noted, and an entry for which `P` holds, nothing is due any more. -/
def Owes (P : List Entry → Entry → Prop) (past : List Entry) : Prop :=
  ∀ hooks e, (∀ i ∈ hooks, i.event.isHook) → e.event.Clear → P hooks e → Followed (e :: (hooks ++ past))

/-- Whatever is noted next, nothing is due any more. -/
def Free (past : List Entry) : Prop := Owes (fun _ _ => True) past

/-- It only remains to note that the call is over. -/
def Due (failure : Option Failure) (x : Client Nat) (past : List Entry) : Prop :=
  Owes (fun hooks e => hooks = [] ∧ e = ⟨.returned failure, x⟩) past

/-- The computation `y`, started at `v`, returns or raises; the invariant holds again, and `G` of the
history. -/
def Leads (own : Prop) (G : Option Failure → Client Nat → List Entry → Prop) (w : State)
    (y : Play Unit) (v : State) : Prop :=
  After y v (fun _ w' => Held own (G none w'.client) w w')
    fun e w' => ∃ f, e = .raised f ∧ Held own (G (some f) w'.client) w w'

/-- Nothing is due. -/
def Clean (_ : Option Failure) (_ : Client Nat) : List Entry → Prop := Followed

/-- Nothing is due unless a failure was raised. -/
def Told : Option Failure → Client Nat → List Entry → Prop
  | none, _ => Followed
  | some f, x => Due (some f) x

/-- What foreign code does for the invariant. Whatever the endpoint raises can be reported. -/
structure Reliable (own : Prop) (n : Nat) (h : Surroundings) : Prop where
  basic : Sound .civil n h
  resume : ∀ {w : State} (id : Nat) (r : Resolution Unit),
    Held own Followed w (noting (.resolved id r) w) → w.outside.moves.length < n →
    Leads own Clean w (h.resume id r) w
  send : ∀ {w : State} (l d : Nat) (r : Request),
    Held own Followed w (noting (.sent l d r) w) → w.outside.moves.length < n →
    After (h.send l d r) w (fun _ w' => Held own Followed w w')
      fun e w' => ∃ f, e = .raised f ∧ f.isReportable ∧ Held own Followed w w'

variable {own : Prop} {F F' : List Entry → Prop} {P P' : List Entry → Entry → Prop}
  {G G' : Option Failure → Client Nat → List Entry → Prop} {w w' v v' : State}
  {x x' : Client Nat} {past t : List Entry} {e : Event} {i : Nat} {q : Token Nat} {l : Nat}
  {k : Link Nat} {f : Option Failure} {y : Play Unit}

/-! ### Tokens -/

theorem Spare.grow (h : Spare x i) (ha : x'.aggregates = x.aggregates)
    (hs : x.completions.size ≤ x'.completions.size) : Spare x' i :=
  ⟨Nat.lt_of_lt_of_le h.lt hs, ha ▸ h.other⟩

theorem Spare.write {id : Nat} {s : Status Unit} (h : Spare x i) : Spare (x.write id s) i :=
  h.grow rfl (Nat.le_of_eq Array.size_setIfInBounds.symm)

theorem Apart.grow (h : Apart x q) (ha : x'.aggregates = x.aggregates)
    (hs : x.completions.size ≤ x'.completions.size) : Apart x' q :=
  fun i hi => (h i hi).grow ha hs

theorem Apart.onLink {g : Link Nat → Link Nat} (h : Apart x q) : Apart (x.changeLink l g) q :=
  h.grow rfl (Nat.le_refl _)

theorem Apart.onContext {c : Nat} {g : Context → Context} (h : Apart x q) :
    Apart (x.changeContext c g) q :=
  h.grow rfl (Nat.le_refl _)

theorem Apart.onCompletion (h : Apart x q) : Apart x.addCompletion q :=
  h.grow rfl (Nat.le_trans (Nat.le_succ _) (Nat.le_of_eq (Array.size_push _).symm))

theorem Apart.inner {q' : Token Nat} (h : Apart x q)
    (hq : ∀ i ∈ q'.completions, i ∈ q.completions) : Apart x q' :=
  fun i hi => h i (hq i hi)

theorem LinkFair.grow (h : LinkFair own x l k) (ha : x'.aggregates = x.aggregates)
    (hs : x.completions.size ≤ x'.completions.size) : LinkFair own x' l k :=
  ⟨h.sender, fun o q hq => (h.opening o q hq).grow ha hs,
    fun o e he => (h.pending o e he).grow ha hs⟩

theorem Spare.elapsed (h : Spare w.client i) (he : Elapsed own w v) (o : own) : Spare v.client i := by
  refine ⟨Nat.lt_of_lt_of_le h.lt he.size, fun a A' ha hc e => ?_⟩
  rcases he.waits o a A' ha hc with ⟨A, hA, hAc, same⟩ | new
  · exact h.other a A hA hAc (same ▸ e)
  · exact absurd h.lt (Nat.not_lt_of_le (e ▸ new))

theorem Apart.elapsed (h : Apart w.client q) (he : Elapsed own w v) (o : own) : Apart v.client q :=
  fun i hi => (h i hi).elapsed he o

/-- What aggregates wait with is pending, so that a new completion is spare. -/
theorem Tracked.spare_new (h : Tracked own w) (o : own) :
    Spare w.client.addCompletion w.client.completions.size := by
  refine ⟨by simp [Client.addCompletion], fun _ A ha hc e => ?_⟩
  exact Nat.lt_irrefl _ (e ▸ (h.waiting o _ A ha hc).lt)

theorem Tracked.instead (h : Tracked own w) {f : Failure} (apart : own → Apart w.client q) :
    own → Apart w.client.addCompletion (.instead w.client.completions.size f q) := by
  intro o i hi
  rcases List.mem_cons.1 hi with rfl | hi
  · exact h.spare_new o
  · exact (apart o).onCompletion i hi

/-! ### Progress -/

namespace Elapsed

theorem of_client (hm : v.outside.moves <:+ w.outside.moves)
    (ha : v.client.aggregates = w.client.aggregates)
    (hs : w.client.completions.size ≤ v.client.completions.size) : Elapsed own w v :=
  ⟨hm, hs, fun _ _ A h hc => .inl ⟨A, ha ▸ h, hc, rfl⟩⟩

theorem refl (w : State) : Elapsed own w w := of_client (List.suffix_refl _) rfl (Nat.le_refl _)

theorem trans (h : Elapsed own w v) (h' : Elapsed own v w') : Elapsed own w w' := by
  refine ⟨h'.moves.trans h.moves, Nat.le_trans h.size h'.size, fun o a A hA hc => ?_⟩
  rcases h'.waits o a A hA hc with ⟨B, hB, hBc, same⟩ | new
  · rcases h.waits o a B hB hBc with ⟨C, hC, hCc, same'⟩ | new
    · exact .inl ⟨C, hC, hCc, same'.trans same⟩
    · exact .inr (same ▸ new)
  · exact .inr (Nat.le_trans h.size new)

theorem lt {n : Nat} (h : Elapsed own w v) (hn : w.outside.moves.length < n) :
    v.outside.moves.length < n :=
  Nat.lt_of_le_of_lt h.moves.length_le hn

end Elapsed

/-! ### Histories -/

theorem Event.clear_of_hook (h : e.isHook) : e.Clear := by
  cases e <;> trivial

theorem Event.still_of_hook (h : e.isHook) : e.Still := by
  cases e <;> trivial

theorem Event.Still.clear (h : e.Still) : e.Clear := by
  cases e with
  | requested => exact h
  | signalled s => cases s <;> trivial
  | _ => trivial

theorem Event.Still.not_resolved {r : Resolution Unit} (h : e.Still) : e ≠ .resolved i r := by
  rintro rfl
  exact h

theorem tabled_clear (h : e.Clear) : tabled (⟨e, x⟩ :: past) = tabled past := by
  cases e with
  | requested => exact h.elim
  | signalled s => cases s <;> first | rfl | cases h
  | _ => rfl

theorem tabled_append (h : ∀ i ∈ t, i.event.Clear) : tabled (t ++ past) = tabled past := by
  induction t with
  | nil => rfl
  | cons i t ih =>
    exact (tabled_clear (h i List.mem_cons_self)).trans (ih fun j hj => h j (List.mem_cons_of_mem _ hj))

theorem fair_append (h : Lawful (Entry.Fair own) past) (hc : ∀ i ∈ t, i.event.Clear)
    (ht : ∀ i ∈ t, i.client.aggregates = tabled past)
    (hs : own → ∀ i ∈ t, ∀ id r, i.event = .resolved id r → Spare i.client id) :
    Lawful (Entry.Fair own) (t ++ past) := by
  induction t with
  | nil => exact h
  | cons i t ih =>
    have rest {j : Entry} (hj : j ∈ t) : j ∈ i :: t := List.mem_cons_of_mem _ hj
    refine .cons ⟨?_, fun o id r he => ?_, fun a failure he => ?_⟩
      (ih (fun j hj => hc j (rest hj)) (fun j hj => ht j (rest hj)) fun o j hj => hs o j (rest hj))
    · rw [ht i List.mem_cons_self]
      exact (tabled_append fun j hj => hc j (rest hj)).symm
    · exact (hs o i List.mem_cons_self id r he).other
    · have clear := hc i List.mem_cons_self
      rw [he] at clear
      cases clear

theorem Entry.Follows.append {e : Entry} {later : List Entry} (h : e.Follows later) :
    e.Follows (t ++ later) := by
  refine ⟨fun hb => ?_, fun he => ?_, fun hm hs hc => ?_, fun hs hA => ?_⟩
  · obtain ⟨more, after, hooks, rfl, rest⟩ := h.begun hb
    exact ⟨t ++ more, after, hooks, (List.append_assoc ..).symm, rest⟩
  · obtain ⟨more, after, hooks, rfl, rest⟩ := h.ended he
    exact ⟨t ++ more, after, hooks, (List.append_assoc ..).symm, rest⟩
  · obtain ⟨more, rfl⟩ := h.made hm hs hc
    exact ⟨t ++ more, (List.append_assoc ..).symm⟩
  · obtain ⟨more, after, hooks, rfl, rest⟩ := h.settled hs hA
    exact ⟨t ++ more, after, hooks, (List.append_assoc ..).symm, rest⟩

theorem Entry.follows_of_clear {e : Entry} {later : List Entry} (h : e.event.Clear) :
    e.Follows later := by
  refine ⟨fun he => ?_, fun he => ?_, fun he => ?_, fun he => ?_⟩ <;>
    (rw [he] at h; cases h)

theorem followed_nil : Followed [] :=
  fun _ _ _ h => absurd h (by simp)

/-- An entry that was due is followed by what should follow it, and that by clear entries. -/
theorem Followed.append {i : Entry} (h : Followed past) (hi : i.Follows t)
    (hn : ∀ e ∈ t, e.event.Clear) : Followed (t ++ i :: past) := by
  intro later e earlier split
  rcases List.append_eq_append_iff.1 split with ⟨mid, rfl, hmid⟩ | ⟨mid, hnew, hmid⟩
  · cases mid with
    | nil =>
      obtain ⟨rfl, rfl⟩ := List.cons.inj hmid
      simpa using hi
    | cons j rest =>
      obtain ⟨rfl, hpast⟩ := List.cons.inj hmid
      have next : (e.Follows rest) := h rest e earlier hpast
      rw [show t ++ i :: rest = (t ++ [i]) ++ rest by simp]
      exact next.append
  · cases mid with
    | nil =>
      obtain ⟨rfl, rfl⟩ := List.cons.inj hmid
      rw [List.append_nil] at hnew
      exact hnew ▸ hi
    | cons j rest =>
      obtain ⟨rfl, -⟩ := List.cons.inj hmid
      exact Entry.follows_of_clear (hn _ (by simp [hnew]))

theorem Followed.cons {i : Entry} (h : Followed past) (hi : i.event.Clear) : Followed (i :: past) :=
  h.append (t := []) (Entry.follows_of_clear hi) (by simp)

theorem Followed.owes (h : Followed past) : Owes P past := by
  intro hooks e hh he hp
  refine Followed.cons ?_ he
  clear he hp
  induction hooks with
  | nil => exact h
  | cons i rest ih =>
    exact (ih fun j hj => hh j (List.mem_cons_of_mem _ hj)).cons
      (Event.clear_of_hook (hh i List.mem_cons_self))

theorem Owes.mono (h : Owes P past) (hp : ∀ hooks i, P' hooks i → P hooks i) : Owes P' past :=
  fun hooks i hh hi hq => h hooks i hh hi (hp hooks i hq)

theorem Owes.hooks (h : Owes P past) (hh : ∀ i ∈ t, i.event.isHook) :
    Owes (fun hooks j => P (hooks ++ t) j) (t ++ past) := by
  intro hooks j hk hj hp
  have done := h (hooks ++ t) j (fun i hi => ?_) hj hp
  · rw [List.append_assoc] at done
    exact done
  · rcases List.mem_append.1 hi with hi | hi
    · exact hk i hi
    · exact hh i hi

theorem Free.due (h : Free past) : Due f x past := h.mono fun _ _ _ => trivial

theorem Followed.free (h : Followed past) : Free past := h.owes

theorem Followed.told (h : Followed past) : Told f x past := by
  cases f with
  | none => exact h
  | some f => exact Followed.owes (P := fun hooks e => hooks = [] ∧ e = ⟨.returned (some f), x⟩) h

theorem Told.due (h : Told f x past) : Due f x past := by
  cases f with
  | none => exact Followed.owes (P := fun hooks e => hooks = [] ∧ e = ⟨.returned none, x⟩) h
  | some f => exact h

/-! ### What is kept -/

namespace Held

theorem mono (h : Held own F w v) (hf : F v.outside.history → F' v.outside.history) :
    Held own F' w v :=
  ⟨h.tracked, h.elapsed, hf h.history⟩

theorem of (h : Held own F v w') (he : Elapsed own w v) : Held own F w w' :=
  ⟨h.tracked, he.trans h.elapsed, h.history⟩

theorem here (h : Held own F w v) : Held own F v v := ⟨h.tracked, .refl v, h.history⟩

/-- **Tables change, and clear entries are noted.** The aggregates stay as they are, and a completion
that one of them waits with stays pending. -/
theorem move (h : Held own F w v) (hm : v'.outside.moves <:+ v.outside.moves)
    (hp : v'.outside.history = t ++ v.outside.history) (hn : ∀ i ∈ t, i.event.Clear)
    (ht : ∀ i ∈ t, i.client.aggregates = v.client.aggregates)
    (hr : own → ∀ i ∈ t, ∀ id r, i.event = .resolved id r → Spare i.client id)
    (hc : ∃ k, v'.client.contexts[0]? = some k) (ha : v'.client.aggregates = v.client.aggregates)
    (hs : v.client.completions.size ≤ v'.client.completions.size)
    (hw : own → ∀ i, ¬ Spare v.client i → v.client.Pending i → v'.client.Pending i)
    (hl : ∀ (l : Nat) (k : Link Nat), v'.client.links[l]? = some k → LinkFair own v'.client l k)
    (hf : F' v'.outside.history) : Held own F' w v' := by
  have table := h.tracked.table
  refine ⟨⟨hc, ?_, hl, fun o a A hA hAc => ?_, fun o a a' A A' hA hA' => ?_, ?_,
    fun m hm' => h.tracked.civil m (hm.subset hm'), fun o m hm' => ?_⟩,
    h.elapsed.trans (.of_client hm ha hs), hf⟩
  · rw [ha, hp, table]
    exact (tabled_append hn).symm
  · rw [ha] at hA
    exact hw o _ (fun hsp => hsp.other a A hA hAc rfl) (h.tracked.waiting o a A hA hAc)
  · rw [ha] at hA hA'
    exact h.tracked.single o a a' A A' hA hA'
  · rw [hp]
    exact fair_append h.tracked.faithful hn (fun i hi => (ht i hi).trans table) hr
  · exact h.tracked.moves o m (hm.subset hm')

/-- Only tables change. -/
theorem still (h : Held own F w v) (ho : v'.outside = v.outside)
    (hc : ∃ k, v'.client.contexts[0]? = some k) (ha : v'.client.aggregates = v.client.aggregates)
    (hs : v.client.completions.size ≤ v'.client.completions.size)
    (hw : own → ∀ i, ¬ Spare v.client i → v.client.Pending i → v'.client.Pending i)
    (hl : ∀ (l : Nat) (k : Link Nat), v'.client.links[l]? = some k → LinkFair own v'.client l k) :
    Held own F w v' :=
  h.move (t := []) (ho ▸ List.suffix_refl _) (ho ▸ rfl) (by simp) (by simp) (by simp) hc ha hs hw hl
    (ho ▸ h.history)

/-- Tables change, but no link and no completion that somebody waits with. -/
theorem change (h : Held own F w v) {g : Client Nat → Client Nat}
    (hc : ∀ k, v.client.contexts[0]? = some k → ∃ k', (g v.client).contexts[0]? = some k')
    (ha : (g v.client).aggregates = v.client.aggregates)
    (hs : v.client.completions.size ≤ (g v.client).completions.size)
    (hw : own → ∀ i, ¬ Spare v.client i → v.client.Pending i → (g v.client).Pending i)
    (hl : (g v.client).links = v.client.links) : Held own F w (v.on g) := by
  obtain ⟨k, hk⟩ := h.tracked.context
  refine h.still rfl (hc k hk) ha hs hw fun l k hk => ?_
  have hk : (g v.client).links[l]? = some k := hk
  rw [hl] at hk
  exact (h.tracked.link l k hk).grow ha hs

theorem onContext (h : Held own F w v) {c : Nat} (g : Context → Context) :
    Held own F w (v.on (·.changeContext c g)) := by
  refine h.change (fun k hk => ?_) rfl (Nat.le_refl _) (fun _ _ _ hp => hp) rfl
  by_cases hc : c = 0
  · subst hc
    exact ⟨_, Client.changeContext_same hk⟩
  · exact ⟨k, by simp [Client.changeContext, Array.getElem?_modify, hc, hk]⟩

theorem onHint (h : Held own F w v) {t : Nat} {hint : Option TxnId} :
    Held own F w (v.on (·.writeHint t hint)) :=
  h.change (fun k hk => ⟨k, hk⟩) rfl (Nat.le_refl _) (fun _ _ _ hp => hp) rfl

theorem onCompletion (h : Held own F w v) : Held own F w (v.on (·.addCompletion)) :=
  h.change (fun k hk => ⟨k, hk⟩) rfl (by simp [Client.addCompletion])
    (fun _ _ _ hp => Client.pending_addCompletion.2 (.inl hp)) rfl

theorem onWrite (h : Held own F w v) {r : Resolution Unit} (hi : own → Spare v.client i) :
    Held own F w (v.on (·.write i (.settled r))) := by
  refine h.change (fun k hk => ⟨k, hk⟩) rfl (Nat.le_of_eq Array.size_setIfInBounds.symm)
    (fun o j hj hp => Client.pending_write.2 ⟨hp, ?_⟩) rfl
  rintro rfl
  exact hj (hi o)

theorem onLink (h : Held own F w v) {g : Link Nat → Link Nat}
    (hg : ∀ k, v.client.links[l]? = some k → LinkFair own v.client l k → LinkFair own v.client l (g k)) :
    Held own F w (v.on (·.changeLink l g)) := by
  refine h.still rfl h.tracked.context rfl (Nat.le_refl _) (fun _ _ _ hp => hp) fun i m hm => ?_
  have hm : (v.client.changeLink l g).links[i]? = some m := hm
  have fair : LinkFair own v.client i m := by
    by_cases hil : i = l
    · subst hil
      cases hk : v.client.links[i]? with
      | none =>
        rw [Client.changeLink_absent hk, hk] at hm
        cases hm
      | some k =>
        obtain rfl := Option.some.inj ((Client.changeLink_same hk).symm.trans hm)
        exact hg k hk (h.tracked.link i k hk)
    · rw [Client.changeLink_other hil] at hm
      exact h.tracked.link i m hm
  exact fair.grow rfl (Nat.le_refl _)

/-- Some events are noted, and nothing else happens. -/
theorem noted {E : List Event} (h : Held own F w v) (hn : Noted E v v') (he : ∀ e ∈ E, e.Clear)
    (hr : own → ∀ e ∈ E, ∀ id r, e = .resolved id r → Spare v.client id)
    (hf : F' (E.map (⟨·, v.client⟩) ++ v.outside.history)) : Held own F' w v' := by
  refine h.move hn.moves hn.history (fun i hi => ?_) (fun i hi => ?_) (fun o i hi => ?_)
    (hn.client ▸ h.tracked.context) (by rw [hn.client]) (Nat.le_of_eq (by rw [hn.client]))
    (fun _ _ _ hp => hn.client ▸ hp) (hn.client ▸ h.tracked.link) (hn.history ▸ hf)
  · obtain ⟨e, hm, rfl⟩ := List.mem_map.1 hi
    exact he e hm
  · obtain ⟨e, -, rfl⟩ := List.mem_map.1 hi
    rfl
  · obtain ⟨e, hm, rfl⟩ := List.mem_map.1 hi
    exact hr o e hm

theorem note (h : Held own F w v) (he : e.Still) (hf : F' (⟨e, v.client⟩ :: v.outside.history)) :
    Held own F' w (noting e v) := by
  have one {i : Event} (hi : i ∈ [e]) : i = e := List.mem_singleton.1 hi
  exact h.noted (E := [e]) ⟨rfl, List.suffix_refl _, rfl⟩ (fun i hi => one hi ▸ he.clear)
    (fun _ i hi id r hr => absurd (one hi ▸ hr) he.not_resolved) hf

theorem noted_still (h : Held own Followed w v) (hn : Noted [e] v v') (he : e.Still) :
    Held own Followed w v' := by
  have one {i : Event} (hi : i ∈ [e]) : i = e := List.mem_singleton.1 hi
  exact h.noted hn (fun i hi => one hi ▸ he.clear)
    (fun _ i hi id r hr => absurd (one hi ▸ hr) he.not_resolved) (h.history.cons he.clear)

theorem settle (h : Held own (Owes P) w v) (he : e.Still) (hp : P [] ⟨e, v.client⟩) :
    Held own Followed w (noting e v) :=
  h.note he (h.history [] _ (by simp) he.clear hp)

/-- Somebody is told, and no aggregate waits with that completion. -/
theorem tell {r : Resolution Unit} (h : Held own (Owes P) w v) (hi : own → Spare v.client i)
    (hp : P [] ⟨.resolved i r, v.client⟩) : Held own Followed w (noting (.resolved i r) v) := by
  refine h.noted (E := [.resolved i r]) ⟨rfl, List.suffix_refl _, rfl⟩ (by simp [Event.Clear])
    (fun o e he id r' hr => ?_) (h.history [] _ (by simp) trivial hp)
  obtain rfl := List.mem_singleton.1 he
  obtain ⟨rfl, -⟩ := Event.resolved.inj hr
  exact hi o

theorem hooks {es : List Event} (h : Held own (Owes P) w v) (hn : Noted es v v')
    (he : ∀ e ∈ es, e.isHook) :
    Held own (Owes fun hooks i => P (hooks ++ es.map (⟨·, v.client⟩)) i) w v' := by
  refine h.noted hn (fun e hm => Event.clear_of_hook (he e hm))
    (fun _ e hm id r hr => absurd hr (Event.still_of_hook (he e hm)).not_resolved)
    (h.history.hooks fun i hi => ?_)
  obtain ⟨e, hm, rfl⟩ := List.mem_map.1 hi
  exact he e hm

end Held

namespace Leads

theorem of (h : Leads own G v y v') (he : Elapsed own w v) : Leads own G w y v' := by
  refine After.mono h (fun _ _ hw => hw.of he) ?_
  rintro _ w' ⟨f, rfl, hw⟩
  exact ⟨f, rfl, hw.of he⟩

theorem mono (h : Leads own G w y v)
    (hg : ∀ {failure x past}, G failure x past → G' failure x past) : Leads own G' w y v := by
  refine After.mono h (fun _ _ hw => hw.mono hg) ?_
  rintro _ w' ⟨f, rfl, hw⟩
  exact ⟨f, rfl, hw.mono hg⟩

theorem told (h : Leads own Clean w y v) : Leads own Told w y v :=
  h.mono fun hp => Followed.told hp

theorem due (h : Leads own Told w y v) : Leads own Due w y v :=
  h.mono Told.due

end Leads

end Transact.Adversary
