import Transact.Aggregation.Script
import Transact.Proofs.Client.Counting
import Transact.Proofs.History
import Transact.Proofs.Player
import Mathlib.Data.List.Induction

/-! # An aggregation on its own

One aggregation, and foreign code on both sides of it: whoever settles its sends, and the code that
takes its decision. All of it plays one list of moves. So the code that takes the decision may settle
sends as well, and it may raise.

Every call, every decision and every return is noted together with the aggregation as it was then.

* `left_surplus`: what a call too many leaves.
* `call_keeps`: what one call does, whatever becomes of a decision.
* `code_keeps`: foreign code keeps the invariant.
* `run_counted`: what is to be seen of every run for no more than `countLimit` sends. -/

namespace Transact.Aggregation.Count

open Run Player

/-! ### Moves -/

/-- What a failed send is reported with: anything but the value that stands for nothing. -/
abbrev Cause := { f : Failure // f.isAbsent = false }

/-- A call settles a send, which has failed or not. -/
abbrev Call := Option Cause

/-- What happens, as far as it is noted. -/
inductive Event where
  /-- A send is about to be settled. -/
  | called (failure : Option Cause)
  | decided (d : Decision)
  /-- The call is over, and has raised or not. -/
  | returned (failure : Option Failure)

/-- An event, with the aggregation as it was then. -/
structure Entry where
  event : Event
  aggregation : Aggregation

/-- The aggregation, and what is played with it. -/
structure State extends Part Call Entry where
  aggregation : Aggregation

instance : Plays State Call Event Entry where
  part := State.toPart
  setPart part w := { w with toPart := part }
  entry e w := ⟨e, w.aggregation⟩
  part_setPart _ _ := rfl

/-- What happens between the aggregation and foreign code. -/
abbrev Play := Run State

/-- One call, from its beginning to what it raised. -/
def call (handler : Decision → Play Unit) (failure : Call) : Play Unit := do
  Player.note (.called failure)
  watch .returned (Aggregation.settleIn State.aggregation (fun aggregation w => { w with aggregation })
    handler (failure.map (·.1)))

/-- Foreign code, with the code that takes the decision. -/
def code (handler : Decision → Play Unit) (fuel : Nat) : Play Unit :=
  play (fun _ => true) (call handler) fuel false

/-- The code that takes the decision. Only one decision has leave to be taken. -/
def take (fuel : Nat) (d : Decision) : Play Unit := do
  Player.note (.decided d)
  code (fun _ => exhausted) fuel

/-- What a list of moves leads to, for an aggregation of so many sends. -/
def run (n : Nat) (commit : Bool) (moves : List (Move Call)) :
    Except Problem (Except Halt Unit × State) := do
  let aggregation ← Aggregation.ofSends (.ofNat n) commit
  let fuel := moves.length + 1
  return (code (take fuel) fuel).observe { aggregation, moves }

/-! ### What is seen -/

/-- How the sends were settled, the earliest first. -/
def calls : List Entry → List (Option Cause)
  | [] => []
  | ⟨.called failure, _⟩ :: past => calls past ++ [failure]
  | _ :: past => calls past

/-- The decisions so far, the latest first. -/
def decisions : List Entry → List Decision
  | [] => []
  | ⟨.decided d, _⟩ :: past => d :: decisions past
  | _ :: past => decisions past

/-- What the latest of these calls leads to: one that leaves sends outstanding returns, the last one leads
to the decision, and one that is too many is refused as a misuse. -/
def Reply (n : Nat) (commit : Bool) (calls : List (Option Cause)) : Event → Prop
  | .called _ => False
  | .decided d => calls.length = n ∧
    (d.commit = true ↔ commit = true ∧ ∀ failure ∈ calls, failure = none) ∧
    d.earliestFailure = (calls.findSome? id).map (·.1)
  | .returned none => calls.length < n
  | .returned (some f) => n < calls.length ∧ f = Problem.sendsSettled.toFailure ∧
    f.kind? = some .illegalState

/-- What is to be seen of a run for `n` sends.

* `counted`: at each moment the count is what the calls so far have left of it.
* `answered`: what a call leads to comes next.
* `decided`: a decision comes of a call, as what it leads to.
* `once`: it is taken once all sends are settled, and never again. -/
structure Counted (n : Nat) (commit : Bool) (history : List Entry) : Prop where
  counted : ∀ later e earlier, history = later ++ e :: earlier →
    e.aggregation.pending = .ofNat (n - (calls earlier).length) ∧
      (e.aggregation.isComplete = true ↔ n - (calls earlier).length = 0)
  answered : ∀ later failure a earlier, history = later ++ ⟨.called failure, a⟩ :: earlier →
    ∃ later' e, later = later' ++ [e] ∧ Reply n commit (calls earlier ++ [failure]) e.event
  decided : ∀ later d a earlier, history = later ++ ⟨.decided d, a⟩ :: earlier →
    ∃ failure b past, earlier = ⟨.called failure, b⟩ :: past
  once : (decisions history).length = if 1 ≤ n ∧ n ≤ (calls history).length then 1 else 0

/-! ### The count -/

variable {n m k fuel : Nat} {commit : Bool} {cs : List (Option Cause)} {failure : Option Cause}
  {handler : Decision → Play Unit} {w w' : State} {e : Entry} {past : List Entry}

/-- What these calls leave of an aggregation of `n` sends. -/
def left (n : Nat) (commit : Bool) (cs : List (Option Cause)) : Aggregation :=
  ({ pending := .ofNat n, commit } : Aggregation).settled (cs.map (Option.map (·.1)))

theorem left_append :
    left n commit (cs ++ [failure]) = ((left n commit cs).settle (failure.map (·.1))).1 := by
  unfold left
  rw [List.map_append]
  exact Aggregation.settled_append

theorem left_pending (hn : n ≤ Number.countLimit) :
    (left n commit cs).pending = .ofNat (n - cs.length) := by
  have start : ({ pending := .ofNat n, commit } : Aggregation).pending = .ofIndex n :=
    Number.ofNat_of_le hn
  obtain ⟨m, pending, count, -⟩ : ∃ m, (left n commit cs).pending = .ofIndex m ∧
      (n ≤ Number.countLimit → m = n - (cs.map (Option.map (·.1))).length) ∧
      (Number.countLimit < n → Number.countLimit ≤ m + (cs.map (Option.map (·.1))).length) :=
    Aggregation.settled_pending start
  have rest : m = n - cs.length := by
    rw [count hn, List.length_map]
  have small : n - cs.length ≤ Number.countLimit := by omega
  rw [pending, rest, Number.ofNat_of_le small]
  rfl

theorem left_isComplete (hn : n ≤ Number.countLimit) :
    (left n commit cs).isComplete = decide (n - cs.length = 0) :=
  Aggregation.isComplete_eq (left_pending hn) (by omega)

theorem left_commit : (left n commit cs).commit = true ↔
    commit = true ∧ ∀ failure ∈ cs, failure = none := by
  rw [left, Aggregation.settled_commit]
  simp only [List.forall_mem_map, Option.map_eq_none_iff]

theorem left_earliest : (left n commit cs).earliestFailure = (cs.findSome? id).map (·.1) := by
  induction cs using List.reverseRecOn with
  | nil => rfl
  | append_singleton rest c ih =>
    have same : (left n commit (rest ++ [c])).earliestFailure =
        ((left n commit rest).note (c.map (·.1))).earliestFailure := by
      rw [left_append, Aggregation.settle_earliestFailure]
    have found : (rest ++ [c]).findSome? id = (rest.findSome? id).or c := by
      rw [List.findSome?_append]
      cases c <;> rfl
    rw [same, found]
    cases c with
    | none => rw [Option.or_none, ← ih]; rfl
    | some c =>
      show (if (left n commit rest).earliestFailure.any (!·.isAbsent) then _ else some c.1) = _
      rw [ih]
      cases rest.findSome? id with
      | none => rfl
      | some f =>
        have known : (!f.1.isAbsent) = true := congrArg (!·) f.2
        exact if_pos known

theorem left_settle (hn : n ≤ Number.countLimit) :
    ((left n commit cs).settle (failure.map (·.1))).2 =
      if n ≤ cs.length then .error .sendsSettled
      else .ok (if cs.length + 1 = n then some ⟨(left n commit (cs ++ [failure])).commit,
        (left n commit (cs ++ [failure])).earliestFailure⟩ else none) := by
  have before : (left n commit cs).isComplete = decide (n - cs.length = 0) := left_isComplete hn
  have after : (left n commit (cs ++ [failure])).isComplete = decide (n - (cs.length + 1) = 0) := by
    rw [left_isComplete hn, List.length_append, List.length_singleton]
  by_cases done : n ≤ cs.length
  · have complete : (left n commit cs).isComplete = true := by
      rw [before, decide_eq_true_eq]
      omega
    rw [if_pos done, Aggregation.settle_complete complete]
  · have incomplete : (left n commit cs).isComplete = false := by
      rw [before, decide_eq_false_iff_not]
      omega
    have last : n - (cs.length + 1) = 0 ↔ cs.length + 1 = n := by omega
    rw [if_neg done, Aggregation.settle_result incomplete, ← left_append, after]
    simp only [decide_eq_true_eq, last]

theorem note_left_iff : (left n commit cs).note (failure.map (·.1)) = left n commit cs ↔
    failure = none ∨ ∃ earlier ∈ cs, earlier.isSome := by
  cases failure with
  | none => exact ⟨fun _ => .inl rfl, fun _ => rfl⟩
  | some f =>
    constructor
    · intro same
      refine .inr (Decidable.byContradiction fun no => ?_)
      have fresh : (left n commit cs).earliestFailure = none := by
        have found : cs.findSome? id = none := List.findSome?_eq_none_iff.2 fun c mem =>
          Option.not_isSome_iff_eq_none.1 fun is_some => no ⟨c, mem, is_some⟩
        rw [left_earliest, found]
        rfl
      have noted : ((left n commit cs).note (some f.1)).earliestFailure = some f.1 := by
        simp [Aggregation.note, fresh]
      have old : some f.1 = none := noted.symm.trans ((congrArg (·.earliestFailure) same).trans fresh)
      cases old
    · rintro (no | ⟨earlier, mem, is_some⟩)
      · cases no
      have failed : (left n commit cs).commit = false := by
        refine Bool.eq_false_iff.2 fun yes => ?_
        rw [(left_commit.1 yes).2 earlier mem] at is_some
        cases is_some
      obtain ⟨g, first⟩ : ∃ g, cs.findSome? id = some g :=
        Option.isSome_iff_exists.1 (List.findSome?_isSome_iff.2 ⟨earlier, mem, is_some⟩)
      have remembered : (left n commit cs).earliestFailure = some g.1 := by
        rw [left_earliest, first]
        rfl
      have known : (left n commit cs).earliestFailure.any (!·.isAbsent) = true := by
        rw [remembered]
        exact congrArg (!·) g.2
      exact Aggregation.note_failed failed known

/-- **A call too many is refused, but takes note of its failure first.** The count stays as it is, and so
does the rest unless this is the first failure of all. -/
theorem left_surplus (hn : n ≤ Number.countLimit) (full : n ≤ cs.length) :
    (left n commit cs).settle (failure.map (·.1)) = (left n commit (cs ++ [failure]), .error .sendsSettled) ∧
      (left n commit (cs ++ [failure])).pending = (left n commit cs).pending ∧
      (left n commit (cs ++ [failure]) = left n commit cs ↔
        failure = none ∨ ∃ earlier ∈ cs, earlier.isSome) := by
  have complete : (left n commit cs).isComplete = true := by
    rw [left_isComplete hn, decide_eq_true_eq]
    omega
  have noted : left n commit (cs ++ [failure]) = (left n commit cs).note (failure.map (·.1)) := by
    rw [left_append, Aggregation.settle_complete complete]
  refine ⟨by rw [Aggregation.settle_complete complete, noted], ?_, ?_⟩
  · rw [noted]
    exact Aggregation.note_pending
  · rw [noted]
    exact note_left_iff

/-- An aggregation that has decided to commit says otherwise after a late failure. -/
example : (left 1 true [none]).commit = true ∧ (left 1 true [none]).isComplete = true ∧
    (left 1 true [none, some ⟨.general "late", rfl⟩]).commit = false := by
  decide +kernel

/-! ### One call -/

theorem after_settleIn {σ : Type} {read : σ → Aggregation} {write : Aggregation → σ → σ}
    {handler : Decision → Run σ Unit} {f : Option Failure} {s : σ} {Q : Unit → σ → Prop}
    {R : Halt → σ → Prop} :
    After (Aggregation.settleIn read write handler f) s Q R ↔
      match ((read s).settle f).2 with
      | .error p => R (.raised p.toFailure) (write ((read s).settle f).1 s)
      | .ok none => Q () (write ((read s).settle f).1 s)
      | .ok (some d) => After (handler d) (write ((read s).settle f).1 s) Q R := by
  unfold Aggregation.settleIn
  rw [after_bind, after_get, after_bind, after_modify]
  rcases ((read s).settle f).2 with p | (_ | d)
  · exact after_refuse
  · exact after_pure
  · exact Iff.rfl

theorem after_settleIn_surplus {σ : Type} {read : σ → Aggregation} {write : Aggregation → σ → σ}
    {handler : Decision → Run σ Unit} {s : σ} {Q : Unit → σ → Prop} {R : Halt → σ → Prop}
    (hn : n ≤ Number.countLimit) (full : n ≤ cs.length) (hs : read s = left n commit cs) :
    After (Aggregation.settleIn read write handler (failure.map (·.1))) s Q R ↔
      R (.raised Problem.sendsSettled.toFailure) (write (left n commit (cs ++ [failure])) s) := by
  rw [after_settleIn, hs, (left_surplus hn full).1]

/-- An event of a history is as it should be after what came before: the aggregation is what the calls have
left of it, a call is followed by what it leads to, and a decision comes of a call. -/
structure Good (n : Nat) (commit : Bool) (e : Entry) (past : List Entry) : Prop where
  seen : e.aggregation = left n commit (calls past)
  reply : ∀ failure a earlier, past = ⟨.called failure, a⟩ :: earlier →
    Reply n commit (calls past) e.event
  decided : ∀ d, e.event = .decided d → ∃ failure a earlier, past = ⟨.called failure, a⟩ :: earlier

/-- No call has just begun. -/
def Quiet (past : List Entry) : Prop := ∀ failure a earlier, past ≠ ⟨.called failure, a⟩ :: earlier

/-- What holds whenever foreign code has control. -/
structure Inv (n : Nat) (commit : Bool) (w : State) : Prop where
  aggregation : w.aggregation = left n commit (calls w.history)
  lawful : Lawful (Good n commit) w.history
  quiet : Quiet w.history

theorem length_calls_le {past' : List Entry} (h : past <:+ past') :
    (calls past).length ≤ (calls past').length := by
  obtain ⟨later, rfl⟩ := h
  induction later with
  | nil => exact Nat.le_refl _
  | cons e later ih =>
    obtain ⟨event, a⟩ := e
    cases event with
    | called failure =>
      rw [List.cons_append, calls, List.length_append]
      exact Nat.le_add_right_of_le ih
    | _ => exact ih

/-- A decision is about to be taken: this is what the latest call leads to. -/
structure Due (n : Nat) (commit : Bool) (d : Decision) (w : State) : Prop where
  aggregation : w.aggregation = left n commit (calls w.history)
  lawful : Lawful (Good n commit) w.history
  called : ∃ failure a earlier, w.history = ⟨.called failure, a⟩ :: earlier
  reply : Reply n commit (calls w.history) (.decided d)

/-- A handler may do as it likes, with so many moves. -/
def Handles (n : Nat) (commit : Bool) (m : Nat) (handler : Decision → Play Unit) : Prop :=
  ∀ w d, Due n commit d w → (moves w).length ≤ m →
    After (handler d) w (fun _ w' => Kept (Inv n commit) w w')
      fun e w' => ∃ f, e = .raised f ∧ Kept (Inv n commit) w w'

theorem Inv.returned {f : Option Failure} (hi : Inv n commit w) :
    Inv n commit (noting (.returned f) w) :=
  ⟨hi.aggregation, .cons ⟨hi.aggregation, fun _ _ _ h => absurd h (hi.quiet _ _ _), nofun⟩ hi.lawful,
    nofun⟩

/-- **What one call does.** It is counted, it leads to what it should, and then it is over. -/
theorem call_keeps (hn : n ≤ Number.countLimit) (hi : Inv n commit w)
    (hh : (calls w.history).length < n → Handles n commit m handler) (hm : (moves w).length ≤ m) :
    After (call handler failure) w (fun _ w' => Kept (Inv n commit) w w') fun _ _ => False := by
  obtain ⟨v, hv⟩ : ∃ v : State, v = { noting (.called failure) w with
    aggregation := (w.aggregation.settle (failure.map (·.1))).1 } := ⟨_, rfl⟩
  have history : v.history = ⟨.called failure, w.aggregation⟩ :: w.history := by
    rw [hv]
    rfl
  have counted : calls v.history = calls w.history ++ [failure] := by rw [history, calls]
  have length : (calls v.history).length = (calls w.history).length + 1 := by
    rw [counted, List.length_append, List.length_singleton]
  have aggregation : v.aggregation = left n commit (calls v.history) := by
    rw [counted, left_append, ← hi.aggregation, hv]
  have lawful : Lawful (Good n commit) v.history := by
    rw [history]
    exact .cons ⟨hi.aggregation, fun _ _ _ h => absurd h (hi.quiet _ _ _), nofun⟩ hi.lawful
  have onward : Onward w v := by
    rw [hv]
    exact ⟨List.suffix_refl _, List.suffix_cons _ _⟩
  -- Where the call returns or raises at once, that is noted next.
  have finished {r : Option Failure} (reply : Reply n commit (calls v.history) (.returned r)) :
      Kept (Inv n commit) w (noting (.returned r) v) :=
    ⟨onward.trans .noting, aggregation, .cons ⟨aggregation, fun _ _ _ _ => reply, nofun⟩ lawful, nofun⟩
  unfold call
  rw [after_bind, after_note, after_watch, after_settleIn]
  have settled : (noting (.called failure) w).aggregation = left n commit (calls w.history) :=
    hi.aggregation
  simp only [settled, left_settle hn]
  simp only [← hi.aggregation, ← hv]
  by_cases many : n ≤ (calls w.history).length
  · rw [if_pos many]
    refine finished (r := some Problem.sendsSettled.toFailure) ⟨?_, rfl, rfl⟩
    omega
  rw [if_neg many]
  by_cases last : (calls w.history).length + 1 = n
  · rw [if_pos last]
    have due : Due n commit ⟨(left n commit (calls w.history ++ [failure])).commit,
        (left n commit (calls w.history ++ [failure])).earliestFailure⟩ v := by
      refine ⟨aggregation, lawful, ⟨_, _, _, history⟩, length.trans last, ?_, ?_⟩
      · rw [counted]
        exact left_commit
      · rw [counted]
        exact left_earliest
    have ready : Handles n commit m handler := hh (by omega)
    refine (ready v _ due (Nat.le_trans onward.fewer hm)).mono (fun _ u kept => ?_) ?_
    · exact (kept.of onward).noted kept.inv.returned
    · rintro _ u ⟨f, rfl, kept⟩
      exact (kept.of onward).noted kept.inv.returned
  · rw [if_neg last]
    refine finished (r := none) ?_
    show (calls v.history).length < n
    omega

/-- **Foreign code keeps the invariant**, whatever moves it makes. -/
theorem code_keeps (hn : n ≤ Number.countLimit) (hi : Inv n commit w)
    (hh : (calls w.history).length < n → Handles n commit m handler)
    (hf : (moves w).length < fuel) (hm : (moves w).length ≤ m) :
    After (code handler fuel) w (fun _ w' => Kept (Inv n commit) w w')
      fun e w' => ∃ f, e = .raised f ∧ Kept (Inv n commit) w w' := by
  refine play_keeps (fun _ _ hi => ⟨hi.aggregation, hi.lawful, hi.quiet⟩)
    (fun u failure onward hi _ few => ?_) hi hf hm
  have more : (calls w.history).length ≤ (calls u.history).length := length_calls_le onward.history
  exact call_keeps hn hi (fun h => hh (Nat.lt_of_le_of_lt more h)) (Nat.le_of_lt few)

theorem take_handles (hn : n ≤ Number.countLimit) (hf : m < fuel) :
    Handles n commit m (take fuel) := by
  intro w d due hm
  have inv : Inv n commit (noting (.decided d) w) :=
    ⟨due.aggregation, .cons ⟨due.aggregation, fun _ _ _ _ => due.reply, fun _ _ => due.called⟩ due.lawful,
      nofun⟩
  have full : (calls (noting (.decided d) w).history).length = n := due.reply.1
  unfold take
  rw [after_bind, after_note]
  refine (code_keeps hn inv (fun h => absurd full (Nat.ne_of_lt h)) (Nat.lt_of_le_of_lt hm hf) hm).mono
    (fun _ _ kept => kept.of .noting) ?_
  rintro _ v ⟨f, rfl, kept⟩
  exact ⟨f, rfl, kept.of .noting⟩

/-! ### Whole runs -/

/-- How many calls have led to something. -/
def answered : List Entry → Nat
  | ⟨.called _, _⟩ :: past => (calls past).length
  | history => (calls history).length

theorem answered_of_quiet (h : Quiet past) : answered past = (calls past).length := by
  unfold answered
  split
  · next failure a earlier => exact absurd rfl (h failure a earlier)
  · rfl

theorem once_of_lawful (h : Lawful (Good n commit) past) :
    (decisions past).length = if 1 ≤ n ∧ n ≤ answered past then 1 else 0 := by
  induction h with
  | nil =>
    have none_yet : ¬ (1 ≤ n ∧ n ≤ 0) := by omega
    exact (if_neg none_yet).symm
  | @cons e past good rest ih =>
    obtain ⟨event, a⟩ := e
    by_cases quiet : Quiet past
    · rw [answered_of_quiet quiet] at ih
      cases event with
      | called failure => exact ih
      | returned r => exact ih
      | decided d =>
        obtain ⟨failure, a, earlier, rfl⟩ := good.decided d rfl
        exact absurd rfl (quiet failure a earlier)
    · -- The latest call, and what it leads to.
      obtain ⟨failure, b, earlier, rfl⟩ : ∃ failure b earlier,
          past = ⟨.called failure, b⟩ :: earlier := by
        unfold Quiet at quiet
        push Not at quiet
        exact quiet
      have grown : (calls (⟨.called failure, b⟩ :: earlier)).length = (calls earlier).length + 1 :=
        List.length_append
      have before : answered (⟨.called failure, b⟩ :: earlier) = (calls earlier).length := rfl
      have reply := good.reply _ _ _ rfl
      rw [before] at ih
      cases event with
      | called failure => exact reply.elim
      | decided d =>
        have last : (calls earlier).length + 1 = n := grown.symm.trans reply.1
        have not_yet : ¬ (1 ≤ n ∧ n ≤ (calls earlier).length) := by omega
        have now : 1 ≤ n ∧ n ≤ answered (⟨.decided d, a⟩ :: ⟨.called failure, b⟩ :: earlier) := by
          show 1 ≤ n ∧ n ≤ (calls (⟨.called failure, b⟩ :: earlier)).length
          omega
        rw [if_neg not_yet] at ih
        rw [if_pos now, decisions, List.length_cons, ih]
      | returned r =>
        have other : (calls earlier).length + 1 ≠ n := by
          cases r with
          | none =>
            have few : (calls (⟨.called failure, b⟩ :: earlier)).length < n := reply
            omega
          | some f =>
            have many : n < (calls (⟨.called failure, b⟩ :: earlier)).length := reply.1
            omega
        have same : (1 ≤ n ∧ n ≤ answered (⟨.returned r, a⟩ :: ⟨.called failure, b⟩ :: earlier)) ↔
            (1 ≤ n ∧ n ≤ (calls earlier).length) := by
          show (1 ≤ n ∧ n ≤ (calls (⟨.called failure, b⟩ :: earlier)).length) ↔ _
          omega
        rw [if_congr same rfl rfl]
        exact ih

theorem Inv.counted (hn : n ≤ Number.countLimit) (hi : Inv n commit w) :
    Counted n commit w.history where
  counted later e earlier split := by
    have good : Good n commit e earlier := (split ▸ hi.lawful).good
    rw [good.seen, left_isComplete hn, decide_eq_true_eq]
    exact ⟨left_pending hn, Iff.rfl⟩
  answered later failure a earlier split := by
    have lawful : Lawful (Good n commit) (later ++ ⟨.called failure, a⟩ :: earlier) :=
      split ▸ hi.lawful
    rcases lawful.next with rfl | ⟨later', e, rfl, good⟩
    · exact absurd split (hi.quiet failure a earlier)
    · exact ⟨later', e, rfl, good.reply _ _ _ rfl⟩
  decided later d a earlier split := (split ▸ hi.lawful).good.decided d rfl
  once := by
    rw [once_of_lawful hi.lawful, answered_of_quiet hi.quiet]

/-- **An aggregation counts its sends and decides once.** For up to `countLimit` sends, whatever is made
of it from outside and by the code that takes the decision, the run comes to an end, and its history is
as it should be. -/
theorem run_counted {moves : List (Move Call)} (hn : n ≤ Number.countLimit) :
    ∃ r w, run n commit moves = .ok (r, w) ∧ r ≠ .error .exhausted ∧
      w.aggregation.pending = .ofNat (n - (calls w.history).length) ∧
      (w.aggregation.isComplete = true ↔ n - (calls w.history).length = 0) ∧
      Counted n commit w.history := by
  obtain ⟨start, hs⟩ : ∃ start : State,
      start = { aggregation := { pending := .ofNat n, commit }, moves } := ⟨_, rfl⟩
  have fresh : Inv n commit start := by
    rw [hs]
    exact ⟨rfl, .nil, nofun⟩
  have few : (Player.moves start).length < moves.length + 1 := by
    rw [hs]
    exact Nat.lt_succ_self _
  have ends : run n commit moves =
      .ok ((code (take (moves.length + 1)) (moves.length + 1)).observe start) := by
    rw [run, Aggregation.ofSends_ofNat hn, hs]
    rfl
  obtain ⟨⟨r, w⟩, he⟩ : ∃ answer,
      (code (take (moves.length + 1)) (moves.length + 1)).observe start = answer := ⟨_, rfl⟩
  rw [he] at ends
  obtain ⟨known, hi⟩ : r ≠ .error .exhausted ∧ Inv n commit w := by
    have kept := After.observed (P := fun r w => r ≠ .error .exhausted ∧ Inv n commit w)
      ((code_keeps hn fresh (fun _ => take_handles hn (Nat.lt_succ_self _)) few
        (Nat.le_of_lt_succ few)).mono (fun _ _ kept => ⟨nofun, kept.inv⟩)
        fun _ _ ⟨_, e, kept⟩ => ⟨e ▸ nofun, kept.inv⟩)
    rw [he] at kept
    exact kept
  refine ⟨r, w, ends, known, ?_, ?_, hi.counted hn⟩
  · rw [hi.aggregation]
    exact left_pending hn
  · rw [hi.aggregation, left_isComplete hn, decide_eq_true_eq]

/-- Two sends, the first of which fails. The code that takes the decision settles another one, is refused,
and raises; so does whoever goes on. -/
theorem run_counted_two : 2 ≤ Number.countLimit ∧ ∃ r w,
    run 2 true [.call (some ⟨.general "lost", rfl⟩), .call none, .call none,
      .throw (.general "decision"), .call none] = .ok (r, w) ∧
    r ≠ .error .exhausted ∧ w.aggregation.pending = .ofNat (2 - (calls w.history).length) ∧
      (w.aggregation.isComplete = true ↔ 2 - (calls w.history).length = 0) ∧
      Counted 2 true w.history :=
  ⟨by decide, run_counted (by decide)⟩

/-- Beyond `countLimit` a count may be rounded, and is then off by one. -/
theorem run_rounded :
    ((run (Number.countLimit + 2) true [.call none, .call none]).toOption.map
      fun (_, w) => ((calls w.history).length, w.aggregation.pending)) =
        some (2, .ofNat (Number.countLimit - 1)) ∧
      Number.ofNat (Number.countLimit - 1) ≠ .ofNat (Number.countLimit + 2 - 2) := by
  decide +kernel

end Transact.Aggregation.Count
