import Transact.Proofs.Scenario.Ending
import Transact.Proofs.Scenario.Staging

/-! # A session alone with its broker: messages are taken in

The loop runs the transfers one after the other. Each is told to the session. While no end was asked for,
the session remembers the first failure; later on an aggregate counts the transfers down, and with the
last one the transaction is discharged.

* `Taking.take`: what every transfer does.
* `Collecting.settles`: all transfers, before an end is asked for.
* `Awaiting.settles`: all transfers, where the end waits for them. -/

namespace Transact.Scenario

open Run Peer

variable {o : Options} {n j e m top : Nat} {rest : List Task} {S S' : Session} {v w w' : State}
  {id : TransactionId} {t l b : Nat} {y : TxnId} {commit : Bool}

theorem Bound.congr (h : Bound S id t l y w) (session : w'.outside.sessions[0]? = some S')
    (own : S'.context = 0) (contexts : w'.client.contexts = w.client.contexts)
    (links : w'.client.links = w.client.links)
    (transactions : w'.client.transactions = w.client.transactions)
    (endpoints : w'.outside.endpoints = w.outside.endpoints)
    (refuses : w'.outside.refusesLinks = w.outside.refusesLinks) : Bound S' id t l y w' where
  scene := by
    obtain ⟨C, scene, rest⟩ := h.scene
    refine ⟨C, ⟨session, contexts ▸ scene.context, own, scene.consumers, ?_, ?_⟩, rest⟩
    · exact refuses.trans scene.accepts
    · rw [endpoints, links]
      exact scene.ends
  link := by
    obtain ⟨k, joined, still⟩ := h.link
    exact ⟨k, joined.congr links endpoints, still⟩
  transaction := transactions ▸ h.transaction

theorem Bound.started (h : Bound S id t l y w) (hv : Started w v rest) : Bound S id t l y v where
  scene := by
    obtain ⟨C, scene, active⟩ := h.scene
    exact ⟨C, scene.started hv, active⟩
  link := by
    obtain ⟨k, joined, still⟩ := h.link
    exact ⟨k, joined.started hv, still⟩
  transaction := hv.client ▸ h.transaction

/-- Of `n` messages the broker has taken in the first `j`; the others wait, and after them the tasks
`rest`. All completions below `top` are there, and those of the messages that wait are pending, with
all that come after. -/
structure Taking (o : Options) (n j e : Nat) (rest : List Task) (top : Nat) (S : Session) (w : State) :
    Prop where
  bound : Bound S firstId 0 0 firstName w
  tasks : tasks w = (List.range' j (n - j)).map o.transfer ++ rest
  size : w.client.completions.size = top
  pending : ∀ i, receipt j ≤ i → i < top → w.client.Pending i
  staged : Staged o n j e w.outside.broker
  discharges : dischargesOf w.outside.requests.toList = []

/-- **The next message is taken in,** and the session is told of it. -/
theorem Taking.take (h : Taking o n j e rest top S w) (lt : j < n) (small : n ≤ Number.countLimit)
    (above : receipt n ≤ top) {Q : Bool → State → Prop} {R : Halt → State → Prop}
    (hQ : ∀ v r, Taking o n (j + 1) e rest top S v → v.client.Pending (receipt j) →
      v.client.aggregates = w.client.aggregates → (r.cause?.isSome ↔ o.Rejects j) →
      After (do
        Session.countSettled (surroundings m) 0 r.cause?
        Act.settle (receipt j) r) v (fun _ w' => Q true w') R) :
    After (Loop.runOne (exec (surroundings (m + 1)))) w Q R := by
  have waits : Peer.tasks w =
      o.transfer j :: ((List.range' (j + 1) (n - (j + 1))).map o.transfer ++ rest) := by
    have one : n - j = n - (j + 1) + 1 := by omega
    rw [h.tasks, one, List.range'_succ, List.map_cons, List.cons_append]
  have told : receipt j + 1 < top := by
    unfold receipt at above ⊢
    omega
  refine after_runOne_cons waits fun label v hv => ?_
  obtain ⟨staged, rejects⟩ := h.staged.take lt small
  rw [← hv.broker] at staged rejects
  have pending (i : Nat) (le : receipt j ≤ i) (below : i < top) : v.client.Pending i :=
    hv.client ▸ h.pending i le below
  have bound := h.bound.started hv
  obtain ⟨C, scene, -⟩ := bound.scene
  have aggregates : v.client.aggregates = w.client.aggregates := congrArg _ hv.client
  have discharges : dischargesOf v.outside.requests.toList = [] := by
    rw [hv.outside]
    exact h.discharges
  show After (exec _ label (.transfer ..)) _ _ _
  unfold exec
  simp only [after_bind, after_withBroker]
  unfold Token.resolve
  rw [after_bind, Act.after_settle (by exact pending _ (Nat.le_succ _) told)]
  refine hQ _ _ {
    bound := bound.congr scene.session scene.own rfl rfl rfl rfl rfl
    tasks := hv.tasks
    size := ?_
    pending := fun i le below => Client.pending_write.2 ⟨pending i ?_ below, ?_⟩
    staged := staged
    discharges := discharges } (Client.pending_write.2 ⟨pending _ (Nat.le_refl _) (by omega), by omega⟩)
    aggregates rejects
  · rw [← h.size, ← hv.client]
    exact Array.size_setIfInBounds
  · unfold receipt at le ⊢
    omega
  · unfold receipt at le ⊢
    omega

/-! ### No end was asked for yet -/

/-- The session remembers whether one of the messages has failed. -/
structure Collecting (o : Options) (n j : Nat) (rest : List Task) (w : State) : Prop where
  taking : ∃ failed : Option Failure, (failed.isSome ↔ o.Fails j) ∧ Taking o n j 0 rest (receipt n)
    { member with outstanding := n - j, failedSend := failed } w
  aggregates : w.client.aggregates = #[]

theorem Collecting.take (h : Collecting o n j rest w) (lt : j < n) (small : n ≤ Number.countLimit) :
    After (Loop.runOne (exec (surroundings (m + 1)))) w
      (fun started w' => started = true ∧ Collecting o n (j + 1) rest w') fun _ _ => False := by
  obtain ⟨failed, fails, taking⟩ := h.taking
  refine taking.take lt small (Nat.le_refl _) fun v r next pending same rejects => ?_
  obtain ⟨C, scene, -⟩ := next.bound.scene
  have told : (v.out (·.changeSession 0 fun x => { x with outstanding := x.outstanding - 1 })).outside
      |>.sessions[0]? = some { member with outstanding := n - j - 1, failedSend := failed } :=
    Outside.changeSession_same scene.session
  have session := Outside.session_eq told
  have kept := Outside.changeSession_same
    (f := fun x => { x with failedSend := x.failedSend <|> r.cause? }) told
  unfold Session.countSettled
  simp only [after_bind, after_modifySession, after_sessionAt, session, member]
  rw [Act.after_settle (by exact pending)]
  refine ⟨trivial, ⟨⟨failed <|> r.cause?, ?_, {
    bound := next.bound.congr kept rfl rfl rfl rfl rfl rfl
    tasks := next.tasks
    size := Array.size_setIfInBounds.trans next.size
    pending := fun i le below => Client.pending_write.2 ⟨next.pending i le below, ?_⟩
    staged := next.staged
    discharges := next.discharges }⟩, same.trans h.aggregates⟩⟩
  · rw [Options.fails_succ, ← fails, ← rejects]
    cases failed <;> simp
  · unfold receipt at le ⊢
    omega

/-- **By induction on the messages that are left:** all are taken in. -/
theorem Collecting.settles {P : State → Prop} {k : Nat} (h : Collecting o n j rest w) (le : j ≤ n)
    (small : n ≤ Number.countLimit)
    (hP : ∀ v, Collecting o n n rest v → Loop.Settles (exec (surroundings (m + 1))) P k v) :
    Loop.Settles (exec (surroundings (m + 1))) P (n - j + k) w := by
  obtain ⟨left, hl⟩ : ∃ left, left = n - j := ⟨_, rfl⟩
  rw [← hl]
  induction left generalizing j w with
  | zero =>
    obtain rfl : j = n := by omega
    rw [Nat.zero_add]
    exact hP w h
  | succ left ih =>
    rw [Nat.succ_add]
    refine (h.take (by omega) small).mono (fun started v hv => ?_) fun _ _ => id
    exact ⟨hv.1, ih hv.2 (by omega) (by omega)⟩

/-! ### The end waits for the messages -/

/-- What the caller is told: where a rollback takes the place of a commit, that a message has failed. -/
def telling (cause : Option Failure) (replaced : Bool) (r : Resolution Unit) : Resolution Unit :=
  if replaced then .failed (r.cause?.getD (Problem.sendFailed.toFailure cause)) else r

/-- The session while its transaction ends, once all its messages are taken in. -/
def leaving : Session := { member with discharging := true, aggregate := some 0 }

/-- All messages are taken in, and the discharge waits for its answer. A commit turns into a rollback if
a message has failed. -/
structure Closing (o : Options) (n e : Nat) (commit : Bool) (w : State) : Prop where
  discharging : ∃ cause, Discharging leaving firstId 0 0 (receipt n) firstName
    (commit && !decide (o.Fails n)) (receipt n) (telling cause (commit && decide (o.Fails n))) w
  staged : Staged o n n e w.outside.broker
  discharges : dischargesOf w.outside.requests.toList = [!(commit && !decide (o.Fails n))]

/-- The end of the transaction waits for the messages. -/
structure Awaiting (o : Options) (n j e : Nat) (commit : Bool) (w : State) : Prop where
  taking : Taking o n j e [] (receipt n + 2) { leaving with outstanding := n - j } w
  aggregate : ∃ sends : Aggregation, w.client.aggregates[0]? = some {
      sends, context := 0, info := ⟨0, false⟩, commit
      request := .client (receipt n + 1) (.ended 0 (receipt n)) } ∧
    sends.pending = .ofNat (n - j) ∧ (sends.commit = true ↔ commit = true ∧ ¬ o.Fails j)

theorem Discharging.write {completed i : Nat} {tell : Resolution Unit → Resolution Unit}
    {r : Resolution Unit} (h : Discharging S id t l b y commit completed tell w) (lt : i < b) :
    Discharging S id t l b y commit completed tell (w.on (·.write i (.settled r))) where
  scene := by
    obtain ⟨C, scene, coordinator⟩ := h.scene
    exact ⟨C, ⟨scene.session, scene.context, scene.own, scene.consumers, scene.accepts, scene.ends⟩,
      coordinator⟩
  link := by
    obtain ⟨k, d, x, q, joined, outstanding, waits, pending, le, reports⟩ := h.link
    refine ⟨k, d, x, q, joined.congr rfl rfl, outstanding, waits, ?_, le, fun r' => ?_⟩
    · exact Client.pending_write.2 ⟨pending, by omega⟩
    · refine (reports r').mono fun c above live => ?_
      obtain ⟨still, apart⟩ := Client.pending_write.1 live
      exact Client.pending_write.2 ⟨Client.pending_write.2 ⟨still, by omega⟩, apart⟩
  transaction := h.transaction

/-- The session has something else to remember while the discharge waits. -/
theorem Discharging.changeSession {completed : Nat} {tell : Resolution Unit → Resolution Unit}
    {f : Session → Session} (h : Discharging S id t l b y commit completed tell w)
    (own : (f S).context = 0) :
    Discharging (f S) id t l b y commit completed tell (w.out (·.changeSession 0 f)) where
  scene := by
    obtain ⟨C, scene, coordinator⟩ := h.scene
    exact ⟨C, ⟨Outside.changeSession_same scene.session, scene.context, own, scene.consumers,
      scene.accepts, scene.ends⟩, coordinator⟩
  link := by
    obtain ⟨k, d, x, q, joined, rest⟩ := h.link
    exact ⟨k, d, x, q, joined.congr rfl rfl, rest⟩
  transaction := h.transaction

/-- **All messages are settled:** the aggregate decides, and the transaction is discharged. -/
theorem Taking.ends (h : Taking o n n e [] (receipt n + 2) leaving w) {A : Aggregate Waiting}
    {d : Decision} (context : A.context = 0) (info : A.info = ⟨0, false⟩) (asked : A.commit = commit)
    (request : A.request = .client (receipt n + 1) (.ended 0 (receipt n)))
    (decided : d.commit = (commit && !decide (o.Fails n))) :
    After (Context.decide (surroundings (m + 1)) A d) w (fun _ w' => Closing o n e commit w' ∧
      ∀ c, w.client.Pending c → w'.client.Pending c) fun _ _ => False := by
  obtain ⟨C, scene, active, current, coordinator, -⟩ := h.bound.scene
  obtain ⟨k, joined, still⟩ := h.bound.link
  have empty : Peer.tasks w = [] := by simp [h.tasks]
  have first : w.client.Pending (receipt n) := h.pending _ (Nat.le_refl _) (by omega)
  have second : w.client.Pending (receipt n + 1) := h.pending _ (Nat.le_succ _) (by omega)
  unfold Context.decide
  simp only [after_bind, context, info, asked, request, decided, Act.after_isFailed,
    Client.context_eq scene.context, coordinator, Option.any_some, Client.link_eq joined.link,
    joined.opened, reduceCtorEq, decide_false, Bool.or_self]
  by_cases hf : o.Fails n ∧ commit = true
  · obtain ⟨fails, rfl⟩ := hf
    simp only [fails, decide_true, Bool.not_true, Bool.and_false, Bool.not_false, Bool.and_self, if_true,
      after_bind, Act.after_newCompletion]
    have bound : Bound leaving firstId 0 0 firstName (w.on (·.addCompletion)) :=
      h.bound.congr scene.session rfl rfl rfl rfl rfl rfl
    have old {c : Nat} (pending : w.client.Pending c) : (w.on (·.addCompletion)).client.Pending c :=
      Client.pending_addCompletion.2 (.inl pending)
    have size := h.size
    refine (bound.finish false empty (.instead (b := receipt n)
      (Client.pending_addCompletion.2 (.inr rfl)) (old second) (old first) (by omega) (by omega)
      (by omega) (by omega) (by omega) (Nat.le_refl _))).mono (fun _ w' hw => ?_) fun _ _ => id
    refine ⟨⟨⟨d.earliestFailure, ?_⟩, ?_, ?_⟩, fun c pending => hw.pending c (old pending)⟩
    · simp only [fails, decide_true, Bool.not_true, Bool.and_false, Bool.and_self]
      exact hw.waits
    · exact hw.broker ▸ h.staged
    · rw [hw.discharges]
      show dischargesOf w.outside.requests.toList ++ _ = _
      rw [h.discharges]
      simp [fails]
  · have same : (commit && !(commit && !decide (o.Fails n))) = false := by
      cases commit <;> simp_all
    have spared : (commit && decide (o.Fails n)) = false := by
      cases commit <;> simp_all
    rw [same, if_neg Bool.false_ne_true]
    refine (h.bound.finish _ empty (.plain (b := receipt n) second first (by omega) (by omega)
      (Nat.le_refl _))).mono (fun _ w' hw => ?_) fun _ _ => id
    refine ⟨⟨⟨none, ?_⟩, hw.broker ▸ h.staged, ?_⟩, hw.pending⟩
    · rw [spared]
      exact hw.waits
    · rw [hw.discharges, h.discharges]
      rfl

theorem Awaiting.take (h : Awaiting o n j e commit w) (lt : j < n) (small : n ≤ Number.countLimit) :
    After (Loop.runOne (exec (surroundings (m + 2)))) w (fun started w' => started = true ∧
      if j + 1 = n then Closing o n e commit w' else Awaiting o n (j + 1) e commit w')
      fun _ _ => False := by
  obtain ⟨sends, aggregate, count, commits⟩ := h.aggregate
  refine h.taking.take lt small (by omega) fun v r next pending same rejects => ?_
  obtain ⟨C, scene, -⟩ := next.bound.scene
  have told : (v.out (·.changeSession 0 fun x => { x with outstanding := x.outstanding - 1 })).outside
      |>.sessions[0]? = some { leaving with outstanding := n - (j + 1) } := by
    exact Outside.changeSession_same scene.session
  have found : v.client.aggregates[0]? = some {
      sends, context := 0, info := ⟨0, false⟩, commit
      request := .client (receipt n + 1) (.ended 0 (receipt n)) } := same ▸ aggregate
  have left : n - j = n - (j + 1) + 1 := by omega
  rw [left] at count
  have noted : (sends.note r.cause?).commit = (commit && !decide (o.Fails (j + 1))) := by
    rw [Bool.eq_iff_iff, Aggregation.note_commit, commits]
    simp only [Options.fails_succ, ← rejects, Bool.and_eq_true, Bool.not_eq_true', decide_eq_false_iff_not,
      not_or, Bool.not_eq_true, Option.isSome_eq_false_iff, Option.isNone_iff_eq_none, and_assoc]
  obtain ⟨u, hu⟩ : ∃ u : State, u = (v.out (·.changeSession 0 fun x => { x with
      outstanding := x.outstanding - 1 })).on (·.changeAggregate 0 { sends.note r.cause? with
        pending := .ofNat (n - (j + 1)) }) := ⟨_, rfl⟩
  have taking : Taking o n (j + 1) e [] (receipt n + 2) { leaving with outstanding := n - (j + 1) } u := by
    subst hu
    exact {
      bound := next.bound.congr told rfl rfl rfl rfl rfl rfl
      tasks := next.tasks
      size := next.size
      pending := next.pending
      staged := next.staged
      discharges := next.discharges }
  have pending : u.client.Pending (receipt j) := hu ▸ pending
  unfold Session.countSettled
  simp only [after_bind, after_modifySession, after_sessionAt, Outside.session_eq told, leaving]
  unfold Context.settleSend
  simp only [after_bind, Act.after_client]
  split
  · next none => cases found.symm.trans none
  next A some_ =>
  obtain rfl := Option.some.inj (found.symm.trans some_)
  rw [Aggregation.settle_eq count (by omega)]
  simp only [after_bind, Act.after_changeAggregate]
  by_cases last : j + 1 = n
  · subst last
    simp only [Nat.sub_self, if_true]
    rw [Nat.sub_self] at taking hu
    rw [← hu]
    refine (Taking.ends taking rfl rfl rfl rfl noted).mono (fun _ w' hw => ?_) fun _ _ => id
    rw [Act.after_settle (by exact hw.2 _ pending)]
    obtain ⟨⟨⟨cause, discharging⟩, staged, discharges⟩, -⟩ := hw
    exact ⟨trivial, ⟨cause, discharging.write (by unfold receipt; omega)⟩, staged, discharges⟩
  · have more : n - (j + 1) ≠ 0 := by omega
    simp only [more, last, if_false, after_pure]
    obtain ⟨C', scene', -⟩ := taking.bound.scene
    have changed : u.client.aggregates[0]? = some {
        sends := { sends.note r.cause? with pending := .ofNat (n - (j + 1)) }
        context := 0, info := ⟨0, false⟩, commit
        request := .client (receipt n + 1) (.ended 0 (receipt n)) } := by
      rw [hu]
      show (v.client.changeAggregate 0 _).aggregates[0]? = _
      simp [Client.changeAggregate, Array.getElem?_modify, found]
    rw [← hu, Act.after_settle pending]
    refine ⟨trivial, {
      taking := ?_
      aggregate := ?_ }⟩
    · exact {
        bound := taking.bound.congr scene'.session rfl rfl rfl rfl rfl rfl
        tasks := taking.tasks
        size := Array.size_setIfInBounds.trans taking.size
        pending := fun i le below => Client.pending_write.2 ⟨taking.pending i le below, by
          unfold receipt at le ⊢
          omega⟩
        staged := taking.staged
        discharges := taking.discharges }
    · refine ⟨_, changed, rfl, ?_⟩
      rw [noted, Bool.and_eq_true, Bool.not_eq_true', decide_eq_false_iff_not]

/-- **By induction on the messages that are left:** all are taken in, and with the last one the
transaction is discharged. -/
theorem Awaiting.settles {P : State → Prop} {k : Nat} (h : Awaiting o n j e commit w) (lt : j < n)
    (small : n ≤ Number.countLimit)
    (hP : ∀ v, Closing o n e commit v → Loop.Settles (exec (surroundings (m + 2))) P k v) :
    Loop.Settles (exec (surroundings (m + 2))) P (n - j + k) w := by
  obtain ⟨left, hl⟩ : ∃ left, left = n - j - 1 := ⟨_, rfl⟩
  have one : n - j + k = left + k + 1 := by omega
  rw [one]
  induction left generalizing j w with
  | zero =>
    have last : j + 1 = n := by omega
    refine (h.take lt small).mono (fun started v hv => ?_) fun _ _ => id
    rw [if_pos last] at hv
    rw [Nat.zero_add]
    exact ⟨hv.1, hP v hv.2⟩
  | succ left ih =>
    have more : j + 1 ≠ n := by omega
    refine (h.take lt small).mono (fun started v hv => ?_) fun _ _ => id
    rw [if_neg more] at hv
    rw [Nat.succ_add]
    exact ⟨hv.1, ih hv.2 (by omega) (by omega) (by omega)⟩

/-- **What comes of the discharge:** two tasks are left to run. -/
theorem Closing.settles (h : Closing o n e commit w) :
    Loop.Settles (exec (surroundings (m + 2))) (fun w' => ∃ cause, MovedOn member (receipt n)
      (telling cause (commit && decide (o.Fails n))
        (Link.dischargeResolution firstId (commit && !decide (o.Fails n))
          (w.outside.broker.discharge firstName (!(commit && !decide (o.Fails n)))).1))
      (w.outside.broker.discharge firstName (!(commit && !decide (o.Fails n)))).2
      [!(commit && !decide (o.Fails n))] w') 2 w := by
  obtain ⟨cause, discharging⟩ := h.discharging
  have accepted : (w.outside.broker.discharge firstName
      (!(commit && !decide (o.Fails n)))).2.declaresToReject = 0 := h.staged.discharge.2.1
  refine (discharging.answered (m := m + 1) accepted).mono (fun started v hv => ?_) fun _ _ => id
  refine ⟨hv.1, hv.2.mono fun w' moved => ⟨cause, ?_⟩⟩
  rw [h.discharges] at moved
  exact ⟨moved.completed, moved.next, moved.queued, moved.discharges⟩

end Transact.Scenario
