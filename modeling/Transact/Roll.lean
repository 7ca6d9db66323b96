/-! # Rolls

A roll holds values under distinct keys, in the order in which the keys were first put.

* `get?_put`: a put is seen under its key and nowhere else.
* `keys_put`: a key that is put again keeps its place; a new one goes to the end.
* `nodup_keys_put`: no key is there twice. -/

namespace Transact

/-- Values under keys, oldest key first. -/
structure Roll (κ α : Type) where
  entries : List (κ × α) := []
deriving Inhabited

namespace Roll

variable {κ α : Type} [DecidableEq κ]

/-- The keys, the oldest one first. -/
def keys (r : Roll κ α) : List κ := r.entries.map (·.1)

/-- The values, in the order of their keys. -/
def values (r : Roll κ α) : List α := r.entries.map (·.2)

/-- Whether there is a value under this key. -/
def has (k : κ) (r : Roll κ α) : Bool := r.entries.any (·.1 = k)

/-- The value under this key. -/
def get? (k : κ) (r : Roll κ α) : Option α := (r.entries.find? (·.1 = k)).map (·.2)

/-- Replaces the entry of a key, or adds one at the end. -/
def putInto (k : κ) (a : α) : List (κ × α) → List (κ × α)
  | [] => [(k, a)]
  | e :: rest => if e.1 = k then (k, a) :: rest else e :: putInto k a rest

/-- Puts a value under a key, in the place of the value that was there, or else at the end. -/
def put (k : κ) (a : α) (r : Roll κ α) : Roll κ α := ⟨putInto k a r.entries⟩

/-- Takes out the value under a key. -/
def erase (k : κ) (r : Roll κ α) : Roll κ α := ⟨r.entries.filter (·.1 ≠ k)⟩

/-- How many keys there are. -/
def size (r : Roll κ α) : Nat := r.entries.length

/-- Whether there is no key. -/
def isEmpty (r : Roll κ α) : Bool := r.entries.isEmpty

variable {k l : κ} {a : α} {r : Roll κ α}

theorem has_iff_mem_keys : r.has k ↔ k ∈ r.keys := by
  simp [has, keys]

theorem keys_put : (r.put k a).keys = if r.has k then r.keys else r.keys ++ [k] := by
  obtain ⟨es⟩ := r
  induction es with
  | nil => rfl
  | cons e es ih =>
    by_cases h : e.1 = k
    · simp [put, putInto, keys, has, h]
    · simp only [put, keys, has] at ih
      simp only [put, putInto, keys, has, h, if_false, List.map_cons, List.any_cons, decide_false,
        Bool.false_or, ih]
      split <;> simp_all

theorem nodup_keys_put (h : r.keys.Nodup) : (r.put k a).keys.Nodup := by
  rw [keys_put]
  split
  · exact h
  · next hk =>
    rw [has_iff_mem_keys] at hk
    exact List.nodup_append.2 ⟨h, by simp, fun x hx y hy => by
      rintro rfl
      exact hk (by simpa using (List.mem_singleton.1 hy) ▸ hx)⟩

theorem get?_put : (r.put k a).get? l = if l = k then some a else r.get? l := by
  obtain ⟨es⟩ := r
  induction es with
  | nil =>
    by_cases h : l = k
    · simp [put, putInto, get?, h]
    · simp [put, putInto, get?, h, Ne.symm h]
  | cons e es ih =>
    simp only [put, get?] at ih
    by_cases h : e.1 = k
    · by_cases hl : l = k
      · simp [put, putInto, get?, h, hl]
      · simp [put, putInto, get?, h, hl, Ne.symm hl]
    · by_cases hl : e.1 = l
      · have : ¬ l = k := fun x => h (hl.trans x)
        simp [put, putInto, get?, hl, this]
      · simp [put, putInto, get?, h, hl, ih]

end Roll

end Transact
