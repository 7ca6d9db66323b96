import Mathlib.Data.List.Infix
import Transact.Proofs.Outcome

/-! # Foreign code that does as it likes

Foreign code may do anything at any time. In a run it has done one thing after the other; so it is
enough that it plays a list of moves. Whatever gets control takes the next move, and the one after it,
until a move gives control back. A call that it makes may give control to other foreign code, which goes
on with the same list. So a list of moves is a run, with everything nested as deep as the moves have it,
and any run is such a list: the code may look at whatever it likes before it moves, but in the run it has
moved.

What happens is noted together with what there was to be seen then.

* `Onward`: moves are only used up, and what was noted stays.
* `after_play`: how foreign code ends, if it is known what its calls do.
* `play_keeps`: it keeps what its calls keep. -/

namespace Transact.Player

open Run

/-- A move of whoever has control.

* `call`: makes a call, catches what it raises, and goes on.
* `yield`: gives control back.
* `refuse`: raises, if that is expected at this point and nothing was done yet, and else gives control
  back.
* `throw`: raises, at any time. -/
inductive Move (κ : Type) where
  | call (c : κ)
  | yield
  | refuse (f : Failure)
  | throw (f : Failure)

namespace Move

variable {κ : Type}

/-- Whatever is raised can be reported. -/
def Civil : Move κ → Prop
  | refuse f | throw f => f.isReportable
  | _ => True

/-- A call is as `P` says. -/
def Calls (P : κ → Prop) : Move κ → Prop
  | call c => P c
  | _ => True

/-- Nothing is raised but where it is expected, and that can be reported; and a call is as `P` says. -/
def Tame (P : κ → Prop) : Move κ → Prop
  | call c => P c
  | throw _ => False
  | m => m.Civil

variable {P : κ → Prop} {m : Move κ}

theorem Tame.civil (h : m.Tame P) : m.Civil := by
  cases m with
  | throw f => exact h.elim
  | refuse f => exact h
  | _ => trivial

end Move

/-- The moves still to come, and what happened so far, the latest first. -/
structure Part (κ ε : Type) where
  moves : List (Move κ)
  history : List ε := []

/-- States in which calls of `κ` are played and events of `η` are noted as entries of `ε`. -/
class Plays (σ : Type) (κ η ε : outParam Type) where
  part : σ → Part κ ε
  setPart : Part κ ε → σ → σ
  /-- The entry for an event, with what there is to be seen now. -/
  entry : η → σ → ε
  part_setPart : ∀ p w, part (setPart p w) = p

variable {σ κ η ε : Type} [Plays σ κ η ε]

/-- The moves that a state has left. -/
def moves (w : σ) : List (Move κ) := (Plays.part w).moves

/-- What was noted so far, the latest first. -/
def history (w : σ) : List ε := (Plays.part w).history

/-- The state with these moves left. -/
def leaving (rest : List (Move κ)) (w : σ) : σ :=
  Plays.setPart { Plays.part w with moves := rest } w

/-- The state with one more entry. -/
def noting (e : η) (w : σ) : σ :=
  Plays.setPart { Plays.part w with history := Plays.entry e w :: (Plays.part w).history } w

/-- Notes an event. -/
def note (e : η) : Run σ Unit := modify (noting e)

/-- The next move; when there is none left, control goes back. -/
def next : Run σ (Move κ) := modifyGet fun w => match moves w with
  | [] => (.yield, w)
  | m :: rest => (m, leaving rest w)

/-- Catches what a computation raises, and notes how it ended. -/
def watch (ended : Option Failure → η) (x : Run σ Unit) : Run σ Unit := do
  match ← attempt x with
  | .ok () => note (ended none)
  | .error f => note (ended (some f))

/-- Notes how a computation ended, and passes on what it raises. -/
def report (ended : Option Failure → η) (x : Run σ Unit) : Run σ Unit := do
  match ← attempt x with
  | .ok () => note (ended none)
  | .error f =>
    note (ended (some f))
    raise f

/-- Plays moves until one gives control back. Only the calls that `may` allows are made; another one
gives control back. `refusing`: it is expected that this may raise, and nothing was done yet. -/
def play (may : κ → Bool) (perform : κ → Run σ Unit) : (fuel : Nat) → (refusing : Bool) → Run σ Unit
  | 0, _ => exhausted
  | fuel + 1, refusing => do
    match ← next with
    | .yield => return
    | .refuse f => if refusing then raise f
    | .throw f => raise f
    | .call c =>
      if may c then
        perform c
        play may perform fuel false

/-! ### Going on -/

variable {w w' v : σ} {e : η} {rest : List (Move κ)}

@[simp]
theorem moves_leaving : moves (leaving rest w) = rest := by
  simp [moves, leaving, Plays.part_setPart]

@[simp]
theorem history_leaving : history (leaving rest w) = history w := by
  simp [history, leaving, Plays.part_setPart]

@[simp]
theorem moves_noting : moves (noting e w) = moves w := by
  simp [moves, noting, Plays.part_setPart]

@[simp]
theorem history_noting : history (noting e w) = Plays.entry e w :: history w := by
  simp [history, noting, Plays.part_setPart]

/-- From `w` to `w'` moves were used up, and events noted. -/
structure Onward (w w' : σ) : Prop where
  moves : Player.moves w' <:+ Player.moves w
  history : Player.history w <:+ Player.history w'

namespace Onward

theorem refl (w : σ) : Onward w w := ⟨List.suffix_refl _, List.suffix_refl _⟩

theorem trans (h : Onward w v) (h' : Onward v w') : Onward w w' :=
  ⟨h'.moves.trans h.moves, h.history.trans h'.history⟩

theorem noting : Onward w (noting e w) := by
  refine ⟨by rw [moves_noting], ?_⟩
  rw [history_noting]
  exact List.suffix_cons _ _

theorem leaving {m : Move κ} (h : Player.moves w = m :: rest) : Onward w (leaving rest w) := by
  refine ⟨?_, by rw [history_leaving]⟩
  rw [moves_leaving, h]
  exact List.suffix_cons _ _

theorem fewer (h : Onward w w') : (Player.moves w').length ≤ (Player.moves w).length :=
  h.moves.length_le

end Onward

/-- An invariant holds again. -/
structure Kept (I : σ → Prop) (w w' : σ) : Prop extends Onward w w' where
  inv : I w'

namespace Kept

variable {I J : σ → Prop}

theorem refl (h : I w) : Kept I w w := ⟨.refl w, h⟩

theorem of (h : Kept I v w') (on : Onward w v) : Kept I w w' := ⟨on.trans h.toOnward, h.inv⟩

theorem trans (h : Kept J w v) (h' : Kept I v w') : Kept I w w' := h'.of h.toOnward

theorem noted (h : Kept J w v) (hi : I (noting e v)) : Kept I w (noting e v) :=
  ⟨h.toOnward.trans .noting, hi⟩

end Kept

/-! ### How it ends -/

variable {Q : Unit → σ → Prop} {R : Halt → σ → Prop} {x : Run σ Unit} {ended : Option Failure → η}

theorem after_note : After (note e) w Q R ↔ Q () (noting e w) := Iff.rfl

theorem after_watch : After (watch ended x) w Q R ↔
    After x w (fun _ v => Q () (noting (ended none) v)) fun e v => match e with
      | .raised f => Q () (noting (ended (some f)) v)
      | .exhausted => R .exhausted v := by
  unfold watch
  rw [after_bind, after_attempt]
  rfl

theorem after_report : After (report ended x) w Q R ↔
    After x w (fun _ v => Q () (noting (ended none) v)) fun e v => match e with
      | .raised f => R (.raised f) (noting (ended (some f)) v)
      | .exhausted => R .exhausted v := by
  unfold report
  rw [after_bind, after_attempt]
  rfl

variable {may : κ → Bool} {perform : κ → Run σ Unit} {fuel n : Nat} {refusing : Bool}

/-- **How foreign code ends.** `G` holds of whatever it has done so far, if it does not depend on the
moves that are left and every call keeps it; and where a move raises, `B` follows from that. -/
theorem after_play {G : σ → Prop} {B : Failure → σ → Prop}
    (left : ∀ u m rest, G u → moves u = m :: rest → G (leaving rest u))
    (called : ∀ u c rest, G u → moves u = .call c :: rest → may c = true → rest.length < n →
      After (perform c) (leaving rest u) (fun _ v => G v ∧ moves v <:+ rest) fun _ _ => False)
    (thrown : ∀ u f rest, G u → moves u = .throw f :: rest → B f (leaving rest u))
    (refused : refusing = true → ∀ f rest, moves w = .refuse f :: rest → B f (leaving rest w))
    (start : G w) (enough : (moves w).length < fuel) (few : (moves w).length ≤ n) :
    After (play may perform fuel refusing) w (fun _ v => G v)
      fun e v => ∃ f, e = .raised f ∧ B f v := by
  induction fuel generalizing w refusing with
  | zero => cases enough
  | succ fuel ih =>
    unfold play next
    rw [after_bind, after_modifyGet]
    cases hm : moves w with
    | nil => exact start
    | cons m rest =>
      have go := left w m rest start hm
      have fewer : rest.length < (moves w).length := by
        rw [hm]
        exact Nat.lt_succ_self _
      cases m with
      | yield => exact go
      | throw f => exact ⟨f, rfl, thrown w f rest start hm⟩
      | refuse f =>
        cases refusing with
        | true => exact ⟨f, rfl, refused rfl f rest hm⟩
        | false => exact go
      | call c =>
        simp only
        by_cases hc : may c = true
        · rw [if_pos hc, after_bind]
          refine (called w c rest start hm hc (by omega)).mono (fun _ u hu => ?_) fun _ _ => False.elim
          have fewer' := hu.2.length_le
          exact ih nofun hu.1 (by omega) (by omega)
        · rw [if_neg hc]
          exact go

/-- **Foreign code keeps what its calls keep,** also if it raises. -/
theorem play_keeps {I : σ → Prop} (left : ∀ u rest, I u → I (leaving rest u))
    (called : ∀ u c, Onward w u → I u → may c = true → (moves u).length < n →
      After (perform c) u (fun _ v => Kept I u v) fun _ _ => False)
    (start : I w) (enough : (moves w).length < fuel) (few : (moves w).length ≤ n) :
    After (play may perform fuel refusing) w (fun _ v => Kept I w v)
      fun e v => ∃ f, e = .raised f ∧ Kept I w v := by
  have left' : ∀ u m rest, Kept I w u → moves u = m :: rest → Kept I w (leaving rest u) :=
    fun u m rest h hm => ⟨h.toOnward.trans (.leaving hm), left u rest h.inv⟩
  refine after_play (B := fun _ v => Kept I w v) left' (fun u c rest h hm hc hn => ?_)
    (fun u f rest h hm => left' u _ rest h hm) (fun _ f rest hm => left' w _ rest (.refl start) hm)
    (.refl start) enough few
  have go := left' u _ rest h hm
  have few : (moves (leaving rest u)).length < n := by rwa [moves_leaving]
  refine (called _ c go.toOnward go.inv hc few).mono (fun _ v hv => ⟨go.trans hv, ?_⟩) fun _ _ => id
  have fewer := hv.moves
  rwa [moves_leaving] at fewer

end Transact.Player
