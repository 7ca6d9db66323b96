/-! # Queues

A queue that grows at its back and shrinks at its front, each in a constant number of steps on
average. `toList` is the view through which everything about it is said.

* `toList_pushBack`, `toList_pushFront`: where an element goes.
* `popFront?_eq`: the element that comes out is the first one. -/

namespace Transact

/-- A queue in two parts: what is to be taken out next, and the latest at the head of the other. -/
structure Queue (α : Type) where
  front : List α := []
  /-- The elements at the back, the last one first. -/
  back : List α := []
deriving Inhabited

namespace Queue

variable {α : Type}

/-- What is in a queue, the head first. -/
def toList (q : Queue α) : List α := q.front ++ q.back.reverse

/-- A queue of this, the head first. -/
def ofList (xs : List α) : Queue α := ⟨xs, []⟩

/-- How much is in a queue. -/
def size (q : Queue α) : Nat := q.front.length + q.back.length

/-- Whether nothing is in a queue. -/
def isEmpty (q : Queue α) : Bool := q.front.isEmpty && q.back.isEmpty

/-- Adds at the tail. -/
def pushBack (a : α) (q : Queue α) : Queue α := { q with back := a :: q.back }

/-- Adds at the head. -/
def pushFront (a : α) (q : Queue α) : Queue α := { q with front := a :: q.front }

/-- The first element and the queue behind it. -/
def popFront? (q : Queue α) : Option (α × Queue α) :=
  match q.front with
  | a :: front => some (a, { q with front })
  | [] => match q.back.reverse with
    | [] => none
    | a :: front => some (a, ⟨front, []⟩)

/-- What is at the head. -/
def head? (q : Queue α) : Option α := q.popFront?.map (·.1)

variable {a : α} {q : Queue α}

@[simp]
theorem toList_empty : ({} : Queue α).toList = [] := rfl

@[simp]
theorem toList_ofList {xs : List α} : (ofList xs).toList = xs := by simp [ofList, toList]

@[simp]
theorem toList_pushBack : (q.pushBack a).toList = q.toList ++ [a] := by simp [toList, pushBack]

@[simp]
theorem toList_pushFront : (q.pushFront a).toList = a :: q.toList := by simp [toList, pushFront]

theorem size_eq : q.size = q.toList.length := by simp [size, toList]

theorem popFront?_eq_none (h : q.popFront? = none) : q.toList = [] := by
  rcases q with ⟨front, back⟩
  cases front with
  | nil =>
    cases hb : back.reverse with
    | nil => simp [toList, hb]
    | cons b bs => simp [popFront?, hb] at h
  | cons b bs => simp [popFront?] at h

theorem popFront?_eq_some {rest : Queue α} (h : q.popFront? = some (a, rest)) :
    q.toList = a :: rest.toList := by
  rcases q with ⟨front, back⟩
  cases front with
  | nil =>
    cases hb : back.reverse with
    | nil => simp [popFront?, hb] at h
    | cons b bs =>
      simp only [popFront?, hb, Option.some.injEq, Prod.mk.injEq] at h
      obtain ⟨rfl, rfl⟩ := h
      simp [toList, hb]
  | cons b bs =>
    simp only [popFront?, Option.some.injEq, Prod.mk.injEq] at h
    obtain ⟨rfl, rfl⟩ := h
    simp [toList]

theorem head?_eq : q.head? = q.toList.head? := by
  cases h : q.popFront? with
  | none => simp [head?, h, popFront?_eq_none h]
  | some x => simp [head?, h, popFront?_eq_some h]

end Queue

end Transact
