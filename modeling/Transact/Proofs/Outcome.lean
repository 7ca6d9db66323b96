import Transact.Run

/-! # What holds after a computation

`After x s Q R` says of the computation `x` in the state `s` that it ends as it should: `Q` holds of
the value and the state if it returns, and `R` of the reason and the state if it halts. The rules
below follow the way a computation is put together, so that it is stepped through from its start. -/

namespace Transact.Run

variable {σ α β : Type}

/-- What holds at the end of a computation. -/
def After (x : Run σ α) (s : σ) (Q : α → σ → Prop) (R : Halt → σ → Prop) : Prop :=
  match x s with
  | .ok a t => Q a t
  | .error e t => R e t

variable {x : Run σ α} {f : α → Run σ β} {s : σ} {Q Q' : α → σ → Prop} {R R' : Halt → σ → Prop}

@[simp]
theorem after_pure {a : α} : After (pure a : Run σ α) s Q R ↔ Q a s := Iff.rfl

@[simp]
theorem after_bind {Q : β → σ → Prop} :
    After (x >>= f) s Q R ↔ After x s (fun a t => After (f a) t Q R) R := by
  unfold After
  simp only [bind, EStateM.bind]
  cases x s <;> rfl

@[simp]
theorem after_get {Q : σ → σ → Prop} : After (get : Run σ σ) s Q R ↔ Q s s := Iff.rfl

@[simp]
theorem after_modify {g : σ → σ} {Q : Unit → σ → Prop} :
    After (modify g : Run σ PUnit) s Q R ↔ Q () (g s) := Iff.rfl

@[simp]
theorem after_modifyGet {g : σ → α × σ} :
    After (modifyGet g : Run σ α) s Q R ↔ Q (g s).1 (g s).2 := Iff.rfl

@[simp]
theorem after_raise {g : Failure} : After (raise g : Run σ α) s Q R ↔ R (.raised g) s := Iff.rfl

@[simp]
theorem after_refuse {p : Problem} :
    After (refuse p : Run σ α) s Q R ↔ R (.raised p.toFailure) s := Iff.rfl

@[simp]
theorem after_convert {g : Failure} {Q : Failure → σ → Prop} : After (convert g) s Q R ↔
    g.toReport?.elim (R (.raised Problem.noText.toFailure) s) (Q · s) := by
  unfold convert
  cases g.toReport? <;> rfl

@[simp]
theorem first_none {g : Failure} : (first none g : Run σ Failure) = convert g := rfl

@[simp]
theorem first_some {report g : Failure} : (first (some report) g : Run σ Failure) = pure report := rfl

@[simp]
theorem first_toFailure {report : Option Failure} {p : Problem} {cause : Option Failure} :
    (first report (p.toFailure cause) : Run σ Failure) = pure (report.getD (p.toFailure cause)) := by
  cases report <;> rfl

@[simp]
theorem after_discard {Q : PUnit → σ → Prop} :
    After (discard x) s Q R ↔ After x s (fun _ t => Q () t) R := by
  unfold After
  simp only [discard, Functor.mapConst, EStateM.map, Function.comp]
  cases x s <;> rfl

@[simp]
theorem after_attempt {Q : Except Failure α → σ → Prop} :
    After (attempt x) s Q R ↔ After x s (fun a t => Q (.ok a) t)
      (fun e t => match e with
        | .raised g => Q (.error g) t
        | .exhausted => R .exhausted t) := by
  unfold After attempt
  rcases x s with _ | ⟨_ | _⟩ <;> rfl

theorem After.mono (h : After x s Q R) (hQ : ∀ a t, Q a t → Q' a t) (hR : ∀ e t, R e t → R' e t) :
    After x s Q' R' := by
  unfold After at h ⊢
  split at h
  · exact hQ _ _ h
  · exact hR _ _ h

/-- Computations that end alike, from wherever they start, are followed by the same. -/
theorem After.congr {y : Run σ α} {t : σ} (h : After x s Q R) (same : y t = x s) : After y t Q R := by
  unfold After at h ⊢
  rw [same]
  exact h

theorem after_of_eq {a : α} {t : σ} (h : x s = .ok a t) (hQ : Q a t) : After x s Q R := by
  unfold After
  rw [h]
  exact hQ

/-- A computation that never halts returns. -/
theorem After.returns (h : After x s Q fun _ _ => False) : ∃ a t, x s = .ok a t ∧ Q a t := by
  unfold After at h
  split at h
  · next a t e => exact ⟨a, t, e, h⟩
  · exact h.elim

theorem after_eq {y : EStateM.Result Halt σ α} :
    After x s (fun a t => .ok a t = y) (fun e t => .error e t = y) ↔ x s = y := by
  unfold After
  cases x s <;> rfl

/-- What holds afterwards in every case holds of the state that is kept. -/
theorem After.observe {P : σ → Prop} (h : After x s (fun _ t => P t) fun _ t => P t) :
    P (observe x s).2 := by
  unfold After at h
  unfold Run.observe
  split at h
  · next e => simpa only [e] using h
  · next e => simpa only [e] using h

/-- What holds afterwards of what was returned, or of why nothing was, holds of what is observed. -/
theorem After.observed {P : Except Halt α → σ → Prop}
    (h : After x s (fun a t => P (.ok a) t) fun e t => P (.error e) t) :
    P (Run.observe x s).1 (Run.observe x s).2 := by
  unfold After at h
  unfold Run.observe
  split at h
  · next e => simpa only [e] using h
  · next e => simpa only [e] using h

end Transact.Run
