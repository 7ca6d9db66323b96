import Mathlib.Data.List.Basic
import Mathlib.Data.List.Induction
import Transact.Roll

/-! # What is in a roll

What is found in a roll after entries were put, taken out or left out, and what is in one that was
filled by putting entries one after the other.

* `get?_put`, `get?_erase`, `get?_filter`: what is found under a key.
* `values_ofList`: the keys stand in the order in which they were first put, each with what was put
  last under it.
* `ofList_map`: other names for the keys make no difference, as long as they tell the keys apart. -/

namespace Transact.Roll

variable {ι κ α : Type} {a b : α}

/-! ### Entries -/

section
variable [DecidableEq κ] {k l : κ} {r : Roll κ α}

theorem mem_of_get? (h : r.get? k = some a) : (k, a) ∈ r.entries := by
  simp only [get?, Option.map_eq_some_iff] at h
  obtain ⟨⟨k', a'⟩, hf, rfl⟩ := h
  have hk : k' = k := by simpa using List.find?_some hf
  rw [← hk]
  exact List.mem_of_find?_eq_some hf

theorem get?_eq_none : r.get? k = none ↔ k ∉ r.keys := by
  rw [get?, Option.map_eq_none_iff, List.find?_eq_none, keys]
  simp only [decide_eq_true_eq, List.mem_map, not_exists, not_and]

theorem get?_of_mem (hn : r.keys.Nodup) (h : (k, a) ∈ r.entries) : r.get? k = some a := by
  obtain ⟨es⟩ := r
  induction es with
  | nil => cases h
  | cons e es ih =>
    obtain ⟨hne, hn⟩ := List.nodup_cons.1 hn
    rcases List.mem_cons.1 h with rfl | h
    · simp [get?]
    · have other : e.1 ≠ k := by
        rintro rfl
        exact hne (List.mem_map.2 ⟨_, h, rfl⟩)
      rw [← ih hn h]
      simp [get?, other]

theorem some_values (h : r.keys.Nodup) : r.values.map some = r.keys.map (r.get? ·) := by
  have found : ∀ e ∈ r.entries, some e.2 = r.get? e.1 := fun e he => (get?_of_mem h he).symm
  simp only [values, keys, List.map_map]
  exact List.map_congr_left found

/-! ### Putting -/

theorem mem_putInto {es : List (κ × α)} (h : (l, b) ∈ putInto k a es) :
    (l = k ∧ b = a) ∨ (l, b) ∈ es := by
  induction es with
  | nil => simpa [putInto] using h
  | cons e es ih =>
    unfold putInto at h
    split at h
    · rcases List.mem_cons.1 h with h | h
      · exact .inl (by simpa using h)
      · exact .inr (List.mem_cons_of_mem _ h)
    · rcases List.mem_cons.1 h with h | h
      · exact .inr (h ▸ List.mem_cons_self)
      · exact (ih h).imp_right (List.mem_cons_of_mem _)

theorem mem_put (h : (l, b) ∈ (r.put k a).entries) : (l = k ∧ b = a) ∨ (l, b) ∈ r.entries :=
  mem_putInto h

theorem mem_put_of_mem (h : (l, b) ∈ r.entries) (hl : l ≠ k) : (l, b) ∈ (r.put k a).entries := by
  obtain ⟨es⟩ := r
  induction es with
  | nil => cases h
  | cons e es ih =>
    by_cases he : e.1 = k
    · have : (l, b) ∈ es := (List.mem_cons.1 h).resolve_left (by rintro rfl; exact hl he)
      simp [put, putInto, he, this]
    · rcases List.mem_cons.1 h with rfl | h
      · simp [put, putInto, he]
      · have := ih h
        simp only [put] at this
        simp [put, putInto, he, this]

/-! ### Taking out -/

omit [DecidableEq κ] in
theorem nodup_keys_filter {p : κ × α → Bool} (h : r.keys.Nodup) :
    (⟨r.entries.filter p⟩ : Roll κ α).keys.Nodup :=
  h.sublist (List.filter_sublist.map _)

theorem nodup_keys_erase (h : r.keys.Nodup) : (r.erase k).keys.Nodup := nodup_keys_filter h

/-- A value is found in a part of a roll that it belongs to. -/
theorem get?_filter {p : κ × α → Bool} (h : r.get? k = some a) (hp : p (k, a)) :
    (⟨r.entries.filter p⟩ : Roll κ α).get? k = some a := by
  obtain ⟨es⟩ := r
  induction es with
  | nil => simp [get?] at h
  | cons e es ih =>
    by_cases he : e.1 = k
    · obtain ⟨k', a'⟩ := e
      obtain rfl : k' = k := he
      obtain rfl : a' = a := by simpa [get?] using h
      simp [get?, hp]
    · have h' : (⟨es⟩ : Roll κ α).get? k = some a := by simpa [get?, he] using h
      rw [← ih h']
      by_cases hpe : p e <;> simp [get?, hpe, he]

theorem erase_eq_self (h : r.get? k = none) : r.erase k = r := by
  have absent : k ∉ r.keys := get?_eq_none.1 h
  have all : ∀ e ∈ r.entries, decide (e.1 ≠ k) = true := by
    intro e he
    refine decide_eq_true fun same => ?_
    exact absent (List.mem_map.2 ⟨e, he, same⟩)
  rw [erase, List.filter_eq_self.2 all]

/-- What is put in new and taken out again has left no trace. -/
theorem get?_erase : (r.erase k).get? l = if l = k then none else r.get? l := by
  obtain ⟨es⟩ := r
  induction es with
  | nil => simp [erase, get?]
  | cons e es ih =>
    simp only [erase, get?] at ih ⊢
    by_cases he : e.1 = k
    · by_cases hl : l = k
      · simp [hl]
      · have : ¬ k = l := fun e' => hl e'.symm
        simpa [he, hl, this] using ih
    · by_cases hl : l = k
      · simp [hl]
      · by_cases hel : e.1 = l
        · simp [hl, hel]
        · simpa [he, hl, hel] using ih

end

/-! ### One entry after the other -/

/-- The keys of these entries, in the order in which each comes first. -/
def firsts [DecidableEq κ] (es : List (κ × α)) : List κ := (es.map (·.1)).eraseDups

/-- The roll in which these entries were put one after the other. -/
def ofList [DecidableEq κ] (es : List (κ × α)) : Roll κ α := es.foldl (fun r e => r.put e.1 e.2) {}

/-- The roll with other names for its keys. -/
def mapKeys (f : ι → κ) (r : Roll ι α) : Roll κ α := ⟨r.entries.map (Prod.map f id)⟩

section
variable [DecidableEq κ] {k : κ} {es : List (κ × α)} {e : κ × α}

theorem ofList_append : ofList (es ++ [e]) = (ofList es).put e.1 e.2 := List.foldl_append

theorem keys_ofList : (ofList es).keys = firsts es := by
  induction es using List.reverseRecOn with
  | nil => rfl
  | append_singleton es e ih =>
    have known : (ofList es).has e.1 = true ↔ e.1 ∈ es.map (·.1) := by
      rw [has_iff_mem_keys, ih, firsts, List.mem_eraseDups]
    rw [ofList_append, keys_put, ih, firsts, firsts, List.map_append, List.eraseDups_append]
    by_cases h : e.1 ∈ es.map (·.1)
    · simp [known.2 h, List.removeAll, h]
    · rw [if_neg fun hk => h (known.1 hk)]
      simp [List.removeAll, h]
      rfl

theorem mem_keys_ofList : k ∈ (ofList es).keys ↔ k ∈ es.map (·.1) := by
  rw [keys_ofList, firsts, List.mem_eraseDups]

theorem nodup_keys_ofList : (ofList es).keys.Nodup := by
  induction es using List.reverseRecOn with
  | nil => exact List.nodup_nil
  | append_singleton es e ih =>
    rw [ofList_append]
    exact nodup_keys_put ih

theorem get?_ofList : (ofList es).get? k = es.reverse.lookup k := by
  induction es using List.reverseRecOn with
  | nil => rfl
  | append_singleton es e ih =>
    obtain ⟨l, a⟩ := e
    rw [ofList_append, get?_put, ih, List.reverse_append]
    by_cases h : k = l
    · simp [h]
    · simp [h, List.lookup_cons, beq_false_of_ne h]

/-- **What was put last under each key,** in the order in which the keys were first put. -/
theorem values_ofList : (ofList es).values.map some = (firsts es).map (es.reverse.lookup ·) := by
  rw [some_values nodup_keys_ofList, keys_ofList]
  exact List.map_congr_left fun _ _ => get?_ofList

end

/-! ### Other names -/

section
variable {f : ι → κ} {k : ι} {es : List (ι × α)} {r : Roll ι α}

theorem values_mapKeys : (r.mapKeys f).values = r.values := by
  simp [mapKeys, values, Function.comp_def]

theorem keys_mapKeys : (r.mapKeys f).keys = r.keys.map f := by
  simp [mapKeys, keys, Function.comp_def]

variable [DecidableEq ι] [DecidableEq κ]

theorem putInto_map (h : ∀ l ∈ es.map (·.1), f l = f k → l = k) :
    putInto (f k) a (es.map (Prod.map f id)) = (putInto k a es).map (Prod.map f id) := by
  induction es with
  | nil => rfl
  | cons e es ih =>
    rw [List.map_cons, List.forall_mem_cons] at h
    obtain ⟨here, rest⟩ := h
    by_cases he : e.1 = k
    · simp [putInto, he]
    · have other : f e.1 ≠ f k := fun same => he (here same)
      simp [putInto, he, other, ih rest]

/-- **Names that tell the keys apart** are as good as the keys. -/
theorem ofList_map (h : ∀ k ∈ es.map (·.1), ∀ l ∈ es.map (·.1), f k = f l → k = l) :
    ofList (es.map (Prod.map f id)) = (ofList es).mapKeys f := by
  induction es using List.reverseRecOn with
  | nil => rfl
  | append_singleton es e ih =>
    simp only [List.map_append, List.mem_append] at h
    have last : e.1 ∈ [e].map (·.1) := List.mem_cons_self
    have apart : ∀ l ∈ (ofList es).entries.map (·.1), f l = f e.1 → l = e.1 := fun l hl =>
      h l (.inl (mem_keys_ofList.1 hl)) e.1 (.inr last)
    rw [List.map_append, List.map_singleton, ofList_append, ofList_append,
      ih fun k hk l hl => h k (.inl hk) l (.inl hl)]
    exact congrArg Roll.mk (putInto_map apart)

end

end Transact.Roll
