import Transact.Completion.Script
import Transact.Proofs.History
import Transact.Proofs.Player

/-! # A completion on its own

One completion, and foreign code on both sides of it: whoever settles it or asks for its outcome, and
its handlers. All of it plays one list of moves. So a handler may settle the completion that it serves
once more, ask for its outcome, catch what comes of that, and raise.

Every call, every promise that is kept and every call of a handler is noted together with the completion
as it was then.

* `tellAll_tells`: those who wait are told in the order in which they asked.
* `settle_keeps`, `ask_keeps`: what one call does.
* `code_keeps`: foreign code keeps the invariant.
* `run_fixed`: what is to be seen of every run. -/

namespace Transact.Completion.Settling

open Run Player

variable {ν : Type}

/-! ### Moves -/

/-- A call settles the completion or asks for its outcome. -/
inductive Call (ν : Type) where
  | settle (r : Resolution ν)
  | ask

/-- What happens, as far as it is noted. -/
inductive Event (ν : Type) where
  /-- The completion is about to be settled. -/
  | called (r : Resolution ν)
  /-- A settlement is over, and has raised or not. -/
  | returned (failure : Option Failure)
  /-- A promise of this number is handed out. -/
  | asked (promise : Nat)
  | told (promise : Nat) (r : Resolution ν)
  /-- A handler was called. -/
  | handled (r : Resolution ν)

/-- An event, with the completion as it was then. -/
structure Entry (ν : Type) where
  event : Event ν
  completion : Completion ν

/-- The completion, how many promises were handed out, and what is played with it. -/
structure State (ν : Type) extends Part (Call ν) (Entry ν) where
  completion : Completion ν := {}
  promises : Nat := 0

instance : Plays (State ν) (Call ν) (Event ν) (Entry ν) where
  part := State.toPart
  setPart part w := { w with toPart := part }
  entry e w := ⟨e, w.completion⟩
  part_setPart _ _ := rfl

/-- What happens between the completion and foreign code. -/
abbrev Play (ν : Type) := Run (State ν)

/-- Which handlers there are. -/
structure Handlers where
  onSuccess : Bool
  onFailure : Bool

/-- Whether there is a handler for this outcome. -/
def Handlers.for (h : Handlers) : Resolution ν → Bool
  | .succeeded _ => h.onSuccess
  | .failed _ => h.onFailure

/-- The state with another completion. -/
def write (completion : Completion ν) (w : State ν) : State ν := { w with completion }

/-- A promise is kept. -/
def tell (r : Resolution ν) (n : Nat) : Play ν Unit := note (.told n r)

/-- Makes a call. A settlement is noted from its beginning to what it raised; who asks for the outcome
gets a promise. -/
def Call.perform (handler : Resolution ν → Option (Play ν Unit)) : Call ν → Play ν Unit
  | .settle r => do
    note (.called r)
    watch .returned (Completion.resolveIn State.completion write tell handler r)
  | .ask => do
    let n := (← get).promises
    modify fun w => { w with promises := n + 1 }
    note (.asked n)
    Completion.askIn State.completion write tell n

/-- Foreign code, with the handlers of the completion. -/
def code (handler : Resolution ν → Option (Play ν Unit)) (fuel : Nat) : Play ν Unit :=
  play (fun _ => true) (Call.perform handler) fuel false

/-- The code of a handler. Only one handler has leave to be called. -/
def handle (fuel : Nat) (r : Resolution ν) : Play ν Unit := do
  note (.handled r)
  code (fun _ => some exhausted) fuel

/-- The handlers that there are. -/
def serve (h : Handlers) (fuel : Nat) (r : Resolution ν) : Option (Play ν Unit) :=
  if h.for r then some (handle fuel r) else none

/-- What a list of moves leads to, for a new completion with these handlers. -/
def run (h : Handlers) (moves : List (Move (Call ν))) : Except Halt Unit × State ν :=
  let fuel := moves.length + 1
  (code (serve h fuel) fuel).observe { moves }

/-! ### What is seen -/

/-- The first settlement. -/
def outcome : List (Entry ν) → Option (Resolution ν)
  | [] => none
  | ⟨.called r, _⟩ :: past => (outcome past).or (some r)
  | _ :: past => outcome past

/-- The promises that were handed out, the earliest first. -/
def promised : List (Entry ν) → List Nat
  | [] => []
  | ⟨.asked n, _⟩ :: past => promised past ++ [n]
  | _ :: past => promised past

/-- The promises that were kept, the earliest first, each with what was told. -/
def kept : List (Entry ν) → List (Nat × Resolution ν)
  | [] => []
  | ⟨.told n r, _⟩ :: past => kept past ++ [(n, r)]
  | _ :: past => kept past

/-- What handlers were called with, the earliest call first. -/
def served : List (Entry ν) → List (Resolution ν)
  | [] => []
  | ⟨.handled r, _⟩ :: past => served past ++ [r]
  | _ :: past => served past

/-- The status that a first settlement leaves. -/
def statusOf : Option (Resolution ν) → Status ν
  | none => .pending
  | some r => .settled r

/-- Whether foreign code has control next. -/
def Event.isOutlook : Event ν → Bool
  | .returned _ | .handled _ => true
  | _ => false

/-- **What is to be seen of a completion** whenever foreign code has control.

* `status`: the first settlement has fixed the outcome.
* `kept`: all promises were kept with it, each of them once, in the order in which they were handed out.
* `served`: the handler for it was called, if there is one, and no other.
* `promised`: no promise was handed out twice. -/
structure Fixed (h : Handlers) (c : Completion ν) (past : List (Entry ν)) : Prop where
  status : c.status = statusOf (outcome past)
  kept : kept past = (outcome past).elim [] fun r => (promised past).map (·, r)
  served : served past = ((outcome past).filter h.for).toList
  promised : promised past = List.range (promised past).length

/-- What is to be seen of a run.

* `status`: at each moment the outcome is that of the first settlement before it.
* `outlook`: nobody has control before all promises were kept.
* `refused`: a later settlement changes nothing: what comes next is that it is over, and has raised that
  the completion is settled already. -/
structure Conclusive (h : Handlers) (history : List (Entry ν)) : Prop where
  status : ∀ later e earlier, history = later ++ e :: earlier →
    e.completion.status = statusOf (outcome earlier)
  outlook : ∀ later e earlier, history = later ++ e :: earlier → e.event.isOutlook = true →
    Fixed h e.completion (e :: earlier)
  refused : ∀ later r c earlier first, history = later ++ ⟨.called r, c⟩ :: earlier →
    outcome earlier = some first → ∃ later', later =
      later' ++ [⟨.returned (some (Problem.alreadySettled first.word).toFailure), c⟩]

/-! ### The invariant -/

variable {h : Handlers} {c : Completion ν} {e : Entry ν} {past past' past'' : List (Entry ν)}
  {w w' v : State ν} {r first : Resolution ν} {m fuel : Nat} {failure : Option Failure}
  {handler : Resolution ν → Option (Play ν Unit)}

/-- An event of a history is as it should be after what came before. -/
structure Entry.Good (h : Handlers) (e : Entry ν) (past : List (Entry ν)) : Prop where
  status : e.completion.status = statusOf (outcome past)
  outlook : e.event.isOutlook = true → Fixed h e.completion (e :: past)
  refused : ∀ r c earlier first, past = ⟨.called r, c⟩ :: earlier → outcome earlier = some first →
    e = ⟨.returned (some (Problem.alreadySettled first.word).toFailure), c⟩

/-- No settlement is about to be refused. -/
def Quiet (past : List (Entry ν)) : Prop :=
  ∀ r c earlier, past = ⟨.called r, c⟩ :: earlier → outcome earlier = none

/-- What holds whenever foreign code has control. While the completion is pending, everybody who has
asked is waiting. -/
structure Inv (h : Handlers) (w : State ν) : Prop where
  fixed : Fixed h w.completion w.history
  waiters : w.completion.waiters = (outcome w.history).elim (promised w.history) fun _ => []
  promises : w.promises = (promised w.history).length
  lawful : Lawful (Entry.Good h) w.history
  quiet : Quiet w.history

theorem outcome_mono (h : past <:+ past') (known : outcome past = some r) : outcome past' = some r := by
  obtain ⟨later, rfl⟩ := h
  induction later with
  | nil => exact known
  | cons e later ih =>
    obtain ⟨event, c⟩ := e
    cases event with
    | called r' =>
      rw [List.cons_append, outcome, ih]
      rfl
    | _ => exact ih

theorem Inv.pending (hi : Inv h w) (known : outcome w.history = none) :
    w.completion.status = .pending := by
  rw [hi.fixed.status, known]
  rfl

theorem Inv.settled (hi : Inv h w) (known : outcome w.history = some first) :
    w.completion.status = .settled first := by
  rw [hi.fixed.status, known]
  rfl

/-- Unless a settlement is about to be refused, anything may come next. -/
theorem Quiet.refused (quiet : Quiet past) : ∀ r c earlier first,
    past = ⟨.called r, c⟩ :: earlier → outcome earlier = some first →
    e = ⟨.returned (some (Problem.alreadySettled first.word).toFailure), c⟩ := by
  intro r c earlier first latest known
  rw [quiet r c earlier latest] at known
  cases known

/-! ### What does not matter -/

/-- Two histories that tell the same of the completion. -/
structure Same (past past' : List (Entry ν)) : Prop where
  first : outcome past' = outcome past
  asked : promised past' = promised past
  told : kept past' = kept past
  handled : served past' = served past

theorem Same.returned : Same past (⟨.returned failure, c⟩ :: past) := ⟨rfl, rfl, rfl, rfl⟩

theorem Same.called (known : outcome past = some first) : Same past (⟨.called r, c⟩ :: past) := by
  refine ⟨?_, rfl, rfl, rfl⟩
  rw [outcome, known]
  rfl

theorem Same.trans (one : Same past past') (two : Same past' past'') : Same past past'' :=
  ⟨two.first.trans one.first, two.asked.trans one.asked, two.told.trans one.told,
    two.handled.trans one.handled⟩

theorem Fixed.same (hf : Fixed h c past) (same : Same past past') : Fixed h c past' := by
  constructor
  · rw [same.first]
    exact hf.status
  · rw [same.told, same.first, same.asked]
    exact hf.kept
  · rw [same.handled, same.first]
    exact hf.served
  · rw [same.asked]
    exact hf.promised

/-- The invariant depends on what the history tells, and on its being lawful. -/
theorem Inv.same (hi : Inv h w) (same : Same w.history past) (lawful : Lawful (Entry.Good h) past)
    (quiet : Quiet past) : Inv h { w with history := past } := by
  refine ⟨hi.fixed.same same, ?_, ?_, lawful, quiet⟩
  · show w.completion.waiters = (outcome past).elim (promised past) _
    rw [same.first, same.asked]
    exact hi.waiters
  · show w.promises = (promised past).length
    rw [same.asked]
    exact hi.promises

/-! ### Telling -/

/-- The completion has just been settled for the first time, and these promises were kept. -/
structure Telling (h : Handlers) (r : Resolution ν) (done : List Nat) (w : State ν) : Prop where
  completion : w.completion = { status := .settled r }
  first : outcome w.history = some r
  asked : promised w.history = List.range w.promises
  told : kept w.history = done.map (·, r)
  unserved : served w.history = []
  lawful : Lawful (Entry.Good h) w.history
  quiet : Quiet w.history

theorem Telling.status {done : List Nat} (ht : Telling h r done w) :
    w.completion.status = statusOf (outcome w.history) := by
  rw [ht.first, ht.completion]
  rfl

theorem Telling.tell {done : List Nat} {n : Nat} (ht : Telling h r done w) :
    Telling h r (done ++ [n]) (noting (.told n r) w) where
  completion := ht.completion
  first := ht.first
  asked := ht.asked
  told := by
    show kept w.history ++ [(n, r)] = _
    rw [ht.told, List.map_append, List.map_singleton]
  unserved := ht.unserved
  lawful := .cons ⟨ht.status, nofun, ht.quiet.refused⟩ ht.lawful
  quiet := nofun

/-- **Those who wait are told,** in the order in which they asked. -/
theorem tellAll_tells {done ns : List Nat} (ht : Telling h r done w) :
    After (ns.forM (tell r)) w (fun _ w' => Telling h r (done ++ ns) w' ∧ Onward w w' ∧
      promised w'.history = promised w.history) fun _ _ => False := by
  induction ns generalizing done w with
  | nil =>
    refine ⟨?_, .refl w, rfl⟩
    rw [List.append_nil]
    exact ht
  | cons n ns ih =>
    simp only [List.forM, after_bind]
    unfold tell
    rw [after_note]
    refine (ih ht.tell).mono (fun _ w' rest => ?_) fun _ _ => id
    obtain ⟨told, onward, same⟩ := rest
    rw [List.append_assoc] at told
    exact ⟨told, Onward.noting.trans onward, same⟩

/-- Everybody was told. The completion is as it should be with one more entry that tells nothing new but
that the handler is called, if there is one. -/
theorem Telling.inv {e : Event ν} (ht : Telling h r (promised w.history) w)
    (first : outcome (noting e w).history = outcome w.history)
    (asked : promised (noting e w).history = promised w.history)
    (told : kept (noting e w).history = kept w.history)
    (handled : served (noting e w).history = ((some r).filter h.for).toList)
    (quiet : Quiet (noting e w).history) : Inv h (noting e w) := by
  have seen : Fixed h w.completion (noting e w).history := by
    constructor
    · rw [first]
      exact ht.status
    · rw [told, first, asked, ht.told, ht.first]
      rfl
    · rw [handled, first, ht.first]
    · rw [asked, ht.asked, List.length_range]
  refine ⟨seen, ?_, ?_, .cons ⟨ht.status, fun _ => seen, ht.quiet.refused⟩ ht.lawful, quiet⟩
  · show w.completion.waiters = _
    rw [first, ht.first, ht.completion]
    rfl
  · show w.promises = _
    rw [asked, ht.asked, List.length_range]

theorem Telling.handled (ht : Telling h r (promised w.history) w) (there : h.for r = true) :
    Inv h (noting (.handled r) w) := by
  refine ht.inv rfl rfl rfl ?_ nofun
  show served w.history ++ [r] = _
  rw [ht.unserved, Option.filter_some, if_pos there]
  rfl

/-- There is no handler to be called, and the settlement is over. -/
theorem Telling.returned (ht : Telling h r (promised w.history) w) (absent : h.for r = false) :
    Inv h (noting (.returned failure) w) := by
  refine ht.inv rfl rfl rfl ?_ nofun
  show served w.history = _
  rw [ht.unserved, Option.filter_some, absent]
  rfl

/-! ### One settlement -/

theorem after_resolveIn {Q : Unit → State ν → Prop} {R : Halt → State ν → Prop} :
    After (Completion.resolveIn State.completion write tell handler r) w Q R ↔
      match w.completion.settle r with
      | .error p => R (.raised p.toFailure) w
      | .ok (c, waiters) => After (waiters.forM (tell r)) (write c w)
        (fun _ v => match handler r with
          | none => Q () v
          | some code => After code v Q R) R := by
  unfold Completion.resolveIn
  rw [after_bind, after_get]
  rcases w.completion.settle r with p | ⟨c, waiters⟩
  · exact after_refuse
  · show After (modify (write c) >>= fun _ => _) w Q R ↔ _
    rw [after_bind, after_modify, after_bind]
    cases handler r <;> exact Iff.rfl

theorem Inv.returned (hi : Inv h w) : Inv h (noting (.returned failure) w) :=
  hi.same .returned
    (.cons ⟨hi.fixed.status, fun _ => hi.fixed.same .returned, hi.quiet.refused⟩ hi.lawful) nofun

/-- **A later settlement is refused** and changes nothing. -/
theorem settle_refused (hi : Inv h w) (known : outcome w.history = some first) :
    After (Call.perform handler (.settle r)) w (fun _ w' => Kept (Inv h) w w') fun _ _ => False := by
  have refused : (noting (.called r) w).completion.settle r = .error (.alreadySettled first.word) :=
    Completion.settle_settled (hi.settled known)
  have called : Same w.history (⟨.called r, w.completion⟩ :: w.history) := .called known
  have begun : Entry.Good h ⟨.called r, w.completion⟩ w.history :=
    ⟨hi.fixed.status, nofun, hi.quiet.refused⟩
  have answer : Entry.Good h ⟨.returned (some (Problem.alreadySettled first.word).toFailure),
      w.completion⟩ (⟨.called r, w.completion⟩ :: w.history) := by
    refine ⟨?_, fun _ => hi.fixed.same (called.trans .returned), ?_⟩
    · rw [called.first]
      exact hi.fixed.status
    · rintro _ _ _ first' ⟨⟩ known'
      rw [known] at known'
      cases known'
      rfl
  unfold Call.perform
  rw [after_bind, after_note, after_watch, after_resolveIn, refused]
  exact ⟨Onward.noting.trans .noting,
    hi.same (called.trans .returned) (.cons answer (.cons begun hi.lawful)) nofun⟩

/-- The handlers do as they like, with so many moves, once everybody was told. -/
def Serves (h : Handlers) (m : Nat) (handler : Resolution ν → Option (Play ν Unit)) : Prop :=
  ∀ w r, Telling h r (promised w.history) w → (moves w).length ≤ m →
    match handler r with
    | none => h.for r = false
    | some code => After code w (fun _ w' => Kept (Inv h) w w')
      fun e w' => ∃ f, e = .raised f ∧ Kept (Inv h) w w'

/-- The completion is settled for the first time. -/
theorem Inv.settle (hi : Inv h w) (pending : outcome w.history = none) :
    Telling h r [] (write { status := .settled r } (noting (.called r) w)) where
  completion := rfl
  first := by
    show (outcome w.history).or (some r) = some r
    rw [pending]
    rfl
  asked := by
    show promised w.history = List.range w.promises
    rw [hi.promises]
    exact hi.fixed.promised
  told := by
    show kept w.history = _
    rw [hi.fixed.kept, pending]
    rfl
  unserved := by
    show served w.history = _
    rw [hi.fixed.served, pending]
    rfl
  lawful := .cons ⟨hi.fixed.status, nofun, hi.quiet.refused⟩ hi.lawful
  quiet := by
    rintro _ _ _ ⟨⟩
    exact pending

/-- **The first settlement:** everybody is told, and then the handler is called. -/
theorem settle_first (hi : Inv h w) (pending : outcome w.history = none) (hh : Serves h m handler)
    (hm : (moves w).length ≤ m) :
    After (Call.perform handler (.settle r)) w (fun _ w' => Kept (Inv h) w w') fun _ _ => False := by
  have settles : (noting (.called r) w).completion.settle r =
      .ok ({ status := .settled r }, promised w.history) := by
    have waiting : w.completion.waiters = promised w.history := by
      rw [hi.waiters, pending]
      rfl
    rw [← waiting]
    exact Completion.settle_pending (hi.pending pending)
  have begun : Onward w (write { status := .settled r } (noting (.called r) w)) :=
    ⟨List.suffix_refl _, List.suffix_cons _ _⟩
  unfold Call.perform
  rw [after_bind, after_note, after_watch, after_resolveIn, settles]
  refine (tellAll_tells (hi.settle pending)).mono (fun _ v hv => ?_) fun _ _ => False.elim
  obtain ⟨all, onward, same⟩ := hv
  have asked : promised v.history = promised w.history := same
  rw [List.nil_append, ← asked] at all
  have onward : Onward w v := begun.trans onward
  have serves := hh v r all (Nat.le_trans onward.fewer hm)
  cases code : handler r with
  | none =>
    rw [code] at serves
    exact ⟨onward.trans .noting, all.returned serves⟩
  | some code' =>
    rw [code] at serves
    refine After.mono serves (fun _ u kept => (kept.of onward).noted kept.inv.returned) ?_
    rintro _ u ⟨f, rfl, kept⟩
    exact (kept.of onward).noted kept.inv.returned

/-- **What one settlement does.** -/
theorem settle_keeps (hi : Inv h w) (hh : outcome w.history = none → Serves h m handler)
    (hm : (moves w).length ≤ m) :
    After (Call.perform handler (.settle r)) w (fun _ w' => Kept (Inv h) w w') fun _ _ => False := by
  cases known : outcome w.history with
  | none => exact settle_first hi known (hh known) hm
  | some first => exact settle_refused hi known

/-! ### One question -/

theorem after_askIn {n : Nat} {Q : Unit → State ν → Prop} {R : Halt → State ν → Prop} :
    After (Completion.askIn State.completion write tell n) w Q R ↔
      match w.completion.ask n with
      | (c, none) => Q () (write c w)
      | (c, some r) => Q () (noting (.told n r) (write c w)) := by
  unfold Completion.askIn
  rw [after_bind, after_get]
  rcases w.completion.ask n with ⟨c, _ | r⟩ <;> exact Iff.rfl

/-- A promise is handed out. -/
def State.asking (w : State ν) : State ν :=
  { w with promises := w.promises + 1, history := ⟨.asked w.promises, w.completion⟩ :: w.history }

theorem Inv.numbered (hi : Inv h w) :
    promised w.history ++ [w.promises] = List.range (w.promises + 1) := by
  rw [hi.fixed.promised, ← hi.promises, List.range_succ]

theorem Inv.asking (hi : Inv h w) : Lawful (Entry.Good h) w.asking.history :=
  .cons ⟨hi.fixed.status, nofun, hi.quiet.refused⟩ hi.lawful

theorem Inv.waits (hi : Inv h w) (pending : outcome w.history = none) :
    Inv h (write { w.completion with waiters := w.completion.waiters ++ [w.promises] } w.asking) := by
  refine ⟨⟨hi.fixed.status, ?_, hi.fixed.served, ?_⟩, ?_, ?_, hi.asking, nofun⟩
  · show kept w.history = (outcome w.history).elim [] _
    rw [hi.fixed.kept, pending]
    rfl
  · show promised w.history ++ [w.promises] = List.range (promised w.history ++ [w.promises]).length
    rw [hi.numbered, List.length_range]
  · show w.completion.waiters ++ [w.promises] =
      (outcome w.history).elim (promised w.history ++ [w.promises]) _
    rw [hi.waiters, pending]
    rfl
  · show w.promises + 1 = (promised w.history ++ [w.promises]).length
    rw [hi.numbered, List.length_range]

theorem Inv.tells (hi : Inv h w) (known : outcome w.history = some r) :
    Inv h (noting (.told w.promises r) w.asking) := by
  have good : Entry.Good h ⟨.told w.promises r, w.completion⟩ w.asking.history :=
    ⟨hi.fixed.status, nofun, nofun⟩
  refine ⟨⟨hi.fixed.status, ?_, hi.fixed.served, ?_⟩, ?_, ?_, .cons good hi.asking, nofun⟩
  · show kept w.history ++ [(w.promises, r)] =
      (outcome w.history).elim [] fun r => (promised w.history ++ [w.promises]).map (·, r)
    rw [hi.fixed.kept, known, Option.elim_some, Option.elim_some, List.map_append, List.map_singleton]
  · show promised w.history ++ [w.promises] = List.range (promised w.history ++ [w.promises]).length
    rw [hi.numbered, List.length_range]
  · show w.completion.waiters = (outcome w.history).elim (promised w.history ++ [w.promises]) _
    rw [hi.waiters, known]
    rfl
  · show w.promises + 1 = (promised w.history ++ [w.promises]).length
    rw [hi.numbered, List.length_range]

/-- **Who asks gets a promise,** and waits, or is told at once. -/
theorem ask_keeps (hi : Inv h w) :
    After (Call.perform handler .ask) w (fun _ w' => Kept (Inv h) w w') fun _ _ => False := by
  have asked (c : Completion ν) : Onward w (write c w.asking) :=
    ⟨List.suffix_refl _, List.suffix_cons _ _⟩
  unfold Call.perform
  rw [after_bind, after_get, after_bind, after_modify, after_bind, after_note]
  show After _ w.asking _ _
  rw [after_askIn]
  cases known : outcome w.history with
  | none =>
    have pending : w.asking.completion.status = .pending := hi.pending known
    rw [Completion.ask_pending pending]
    exact ⟨asked _, hi.waits known⟩
  | some r =>
    have settled : w.asking.completion.status = .settled r := hi.settled known
    rw [Completion.ask_settled settled]
    exact ⟨(asked w.completion).trans .noting, hi.tells known⟩

/-! ### Control -/

/-- **Foreign code keeps the invariant**, whatever moves it makes. -/
theorem code_keeps (hi : Inv h w) (hh : outcome w.history = none → Serves h m handler)
    (hf : (moves w).length < fuel) (hm : (moves w).length ≤ m) :
    After (code handler fuel) w (fun _ w' => Kept (Inv h) w w')
      fun e w' => ∃ f, e = .raised f ∧ Kept (Inv h) w w' := by
  refine play_keeps (fun _ _ hi => ⟨hi.fixed, hi.waiters, hi.promises, hi.lawful, hi.quiet⟩)
    (fun u c onward hi _ few => ?_) hi hf hm
  -- What was settled before stays so.
  have ready (none : outcome u.history = none) : Serves h m handler := by
    refine hh (Option.eq_none_iff_forall_ne_some.2 fun r known => ?_)
    have still : outcome u.history = some r := outcome_mono onward.history known
    cases none.symm.trans still
  cases c with
  | settle r => exact settle_keeps hi ready (Nat.le_of_lt few)
  | ask => exact ask_keeps hi

theorem serve_serves (hf : m < fuel) : Serves h m (serve (ν := ν) h fuel) := by
  intro w r all hm
  unfold serve
  by_cases there : h.for r = true
  · rw [if_pos there]
    have inv : Inv h (noting (.handled r) w) := all.handled there
    have known : outcome (noting (.handled r) w).history = some r := all.first
    show After (handle fuel r) w _ _
    unfold handle
    rw [after_bind, after_note]
    refine (code_keeps inv (fun none => ?_) (Nat.lt_of_le_of_lt hm hf) hm).mono
      (fun _ _ kept => kept.of .noting) ?_
    · cases none.symm.trans known
    · rintro _ w' ⟨f, rfl, kept⟩
      exact ⟨f, rfl, kept.of .noting⟩
  · rw [if_neg there]
    exact Bool.eq_false_iff.2 there

/-! ### Whole runs -/

theorem Inv.conclusive (hi : Inv h w) : Conclusive h w.history where
  status later e earlier split := (split ▸ hi.lawful).good.status
  outlook later e earlier split := (split ▸ hi.lawful).good.outlook
  refused later r c earlier first split known := by
    have lawful : Lawful (Entry.Good h) (later ++ ⟨.called r, c⟩ :: earlier) := split ▸ hi.lawful
    rcases lawful.next with rfl | ⟨later', e, rfl, good⟩
    · cases (hi.quiet r c earlier split).symm.trans known
    · exact ⟨later', by rw [good.refused r c earlier first rfl known]⟩

/-- **A completion is settled once.** Whatever is made of it from outside and by its handlers, a run comes
to its end, with the completion as its first settlement has left it; so it was at every moment before. -/
theorem run_fixed {moves : List (Move (Call ν))} : (run h moves).1 ≠ .error .exhausted ∧
    Fixed h (run h moves).2.completion (run h moves).2.history ∧
    Conclusive h (run h moves).2.history := by
  have fresh : Inv h ({ moves } : State ν) := ⟨⟨rfl, rfl, rfl, rfl⟩, rfl, rfl, .nil, nofun⟩
  obtain ⟨ends, hi⟩ : (run h moves).1 ≠ .error .exhausted ∧ Inv h (run h moves).2 := by
    refine After.observed (P := fun r w => r ≠ .error .exhausted ∧ Inv h w)
      ((code_keeps fresh (fun _ => serve_serves (Nat.lt_succ_self _)) (Nat.lt_succ_self _)
        (Nat.le_refl _)).mono (fun _ _ kept => ⟨nofun, kept.inv⟩) ?_)
    rintro _ w ⟨f, rfl, kept⟩
    exact ⟨nofun, kept.inv⟩
  exact ⟨ends, hi.fixed, hi.conclusive⟩

/-- One promise is handed out before the settlement, one by the handler and one after it. The handler
settles the completion once more and raises, and so does whoever has settled it first. -/
example : (kept (run ⟨true, true⟩ [.call .ask,
    .call (.settle (.succeeded 7)), .call .ask, .call (.settle (.failed (.general "late"))),
    .throw (.general "handler"), .call .ask, .throw (.general "caller")]).2.history).map
      (fun (n, r) => (n, r.value?)) =
      [(0, some 7), (1, some 7), (2, some 7)] := by
  decide +kernel

end Transact.Completion.Settling
