import Mathlib.Data.List.Basic
import Mathlib.Data.List.Perm.Basic
import Transact.Presettling

/-! # Switches set from properties

A property names a switch if its key is the qualifier followed by the name of the switch, and its value
should then be a flag. Properties with different keys set what they name, whatever their order, and all
others are returned, but for one: what stands under `reservedKey` is lost without a word.

* `flag?_eq_some`: a flag is its word in any case, between blanks.
* `configure_ok`, `configure_error`: what is set and returned if all is well, and where it stops if not.
* `configure_ok_iff`: it succeeds if every property that names a switch has a flag for its value.
* `configure_perm`: the order of the properties makes no difference to the switches.
* `configure_loses`: what stands under the reserved key is not returned. -/

namespace Transact

/-! ### Trimming -/

namespace Text

variable {c : Char} {before word after : List Char}

theorem toLower_of_isBlank (h : isBlank c = true) : c.toLower = c := by
  refine dif_neg fun upper => ?_
  have upper : 65 ≤ c.toNat ∧ c.toNat ≤ 90 := upper
  simp only [isBlank, blankRuns, List.any_cons, List.any_nil, Bool.or_false, Bool.or_eq_true,
    Bool.and_eq_true, decide_eq_true_eq] at h
  omega

theorem trim_eq (hb : ∀ c ∈ before, isBlank c = true) (ha : ∀ c ∈ after, isBlank c = true)
    (hw : ∀ c ∈ word, isBlank c = false) (hn : word ≠ []) : trim (before ++ word ++ after) = word := by
  have start {w : List Char} (rest : List Char) (hw : ∀ c ∈ w, isBlank c = false) (hn : w ≠ []) :
      (w ++ rest).dropWhile isBlank = w ++ rest := by
    cases w with
    | nil => exact absurd rfl hn
    | cons c w => exact List.dropWhile_cons_of_neg (by simp [hw c List.mem_cons_self])
  have front : (before ++ word ++ after).dropWhile isBlank = word ++ after := by
    rw [List.append_assoc, List.dropWhile_append_of_pos hb, start _ hw hn]
  have back : (after.reverse ++ word.reverse).dropWhile isBlank = word.reverse := by
    rw [List.dropWhile_append_of_pos fun c hc => ha c (List.mem_reverse.1 hc)]
    have reversed := start [] (fun c hc => hw c (List.mem_reverse.1 hc))
      (fun e => hn (List.reverse_eq_nil_iff.1 e))
    rwa [List.append_nil] at reversed
  rw [trim, front, List.reverse_append, back, List.reverse_reverse]

theorem exists_trim (cs : List Char) : ∃ before after, cs = before ++ trim cs ++ after ∧
    (∀ c ∈ before, isBlank c = true) ∧ ∀ c ∈ after, isBlank c = true := by
  have blank {l : List Char} : ∀ c ∈ l.takeWhile isBlank, isBlank c = true :=
    List.all_eq_true.1 List.all_takeWhile
  have parts (l : List Char) : l = (l.reverse.dropWhile isBlank).reverse ++
      (l.reverse.takeWhile isBlank).reverse := by
    rw [← List.reverse_append, List.takeWhile_append_dropWhile, List.reverse_reverse]
  refine ⟨cs.takeWhile isBlank, ((cs.dropWhile isBlank).reverse.takeWhile isBlank).reverse, ?_, blank,
    fun c hc => blank c (List.mem_reverse.1 hc)⟩
  rw [trim, List.append_assoc, ← parts, List.takeWhile_append_dropWhile]

end Text

namespace Presettling

variable {q : String} {s s' : Switch} {b : Bool} {x : String × String} {p p' : Presettling}
  {properties others before after : List (String × String)}

/-! ### Keys -/

theorem Switch.ofName?_name : ofName? s.name = some s := by
  cases s <;> decide +kernel

theorem Switch.name_inj : s.name = s'.name ↔ s = s' := by
  refine ⟨fun same => ?_, congrArg name⟩
  have found : some s = some s' := by rw [← ofName?_name, ← ofName?_name, same]
  exact Option.some.inj found

/-- **A key names a switch** if it is the qualifier followed by the name. -/
theorem Switch.ofKey?_eq_some {key : String} : ofKey? q key = some s ↔ key = q ++ s.name := by
  constructor
  · intro found
    have same : (q ++ s.name = key) := by simpa using List.find?_some found
    exact same.symm
  · rintro rfl
    have same : (fun t : Switch => decide (q ++ t.name = q ++ s.name)) =
        fun t => decide (t.name = s.name) := by
      funext t
      exact decide_eq_decide.2 (String.append_right_inj q)
    rw [ofKey?, same]
    exact ofName?_name

theorem Switch.ofKey?_eq_none {key : String} : ofKey? q key = none ↔ ∀ s : Switch, key ≠ q ++ s.name := by
  rw [Option.eq_none_iff_forall_ne_some]
  exact forall_congr' fun s => not_congr ofKey?_eq_some

/-! ### Flags -/

/-- The word for a flag. -/
def word : Bool → String
  | true => "true"
  | false => "false"

theorem flag?_eq_some_word {text : String} :
    flag? text = some b ↔ String.ofList ((Text.trim text.toList).map Char.toLower) = word b := by
  unfold flag?
  split
  · next same =>
    rw [same]
    cases b <;> decide
  · next same =>
    rw [same]
    cases b <;> decide
  · next other other' =>
    cases b with
    | true => exact iff_of_false (fun e => by cases e) other
    | false => exact iff_of_false (fun e => by cases e) other'

/-- **A flag is its word in any case,** with any blanks around it. -/
theorem flag?_eq_some {text : String} : flag? text = some b ↔ ∃ before letters after,
    text.toList = before ++ letters ++ after ∧ (∀ c ∈ before, Text.isBlank c = true) ∧
      (∀ c ∈ after, Text.isBlank c = true) ∧ letters.map Char.toLower = (word b).toList := by
  rw [flag?_eq_some_word, ← String.toList_inj, String.toList_ofList]
  constructor
  · intro same
    obtain ⟨before, after, parts, hb, ha⟩ := Text.exists_trim text.toList
    exact ⟨before, _, after, parts, hb, ha, same⟩
  · rintro ⟨before, letters, after, parts, hb, ha, same⟩
    have full : (word b).toList.all (! Text.isBlank ·) = true := by
      cases b <;> decide
    have letter : ∀ c ∈ letters, Text.isBlank c = false := by
      intro c hc
      have lower : (! Text.isBlank c.toLower) = true :=
        List.all_eq_true.1 full _ (same ▸ List.mem_map_of_mem hc)
      refine Bool.eq_false_iff.2 fun blank => ?_
      rw [Text.toLower_of_isBlank blank, blank] at lower
      cases lower
    have letters_ne : letters ≠ [] := by
      rintro rfl
      cases b <;> cases same
    rw [parts, Text.trim_eq hb ha letter letters_ne, same]

/-! ### Properties -/

/-- The property names a switch. -/
def Names (q : String) (x : String × String) : Prop := ∃ s : Switch, x.1 = q ++ s.name

/-- The property names a switch, and its value is no flag. -/
def Faulty (q : String) (x : String × String) : Prop := Names q x ∧ flag? x.2 = none

theorem isSome_ofKey? : (Switch.ofKey? q x.1).isSome = true ↔ Names q x := by
  rw [Option.isSome_iff_exists]
  exact exists_congr fun s => Switch.ofKey?_eq_some

instance : Decidable (Names q x) := decidable_of_iff _ isSome_ofKey?

instance : Decidable (Faulty q x) := inferInstanceAs (Decidable (_ ∧ _))

/-- The properties that name no switch, without the one under the reserved key. -/
def unused (q : String) (properties : List (String × String)) : List (String × String) :=
  properties.filter fun x => (Switch.ofKey? q x.1).isNone && x.1 ≠ reservedKey

/-- What these properties name is set as they say, and all other switches are as before. -/
structure Sets (q : String) (properties : List (String × String)) (p p' : Presettling) : Prop where
  named : ∀ s b v, (q ++ s.name, v) ∈ properties → flag? v = some b → p'.isOn s = b
  others : ∀ s, (∀ v, (q ++ s.name, v) ∉ properties) → p'.isOn s = p.isOn s

theorem mem_unused : x ∈ unused q properties ↔
    x ∈ properties ∧ ¬ Names q x ∧ x.1 ≠ reservedKey := by
  have unnamed : (Switch.ofKey? q x.1).isNone = true ↔ ¬ Names q x := by
    rw [Option.isNone_iff_eq_none, ← Option.not_isSome_iff_eq_none, isSome_ofKey?]
  rw [unused, List.mem_filter, Bool.and_eq_true, unnamed, decide_eq_true_eq]

theorem unused_cons_named (h : Switch.ofKey? q x.1 = some s) :
    unused q (x :: properties) = unused q properties := by
  rw [unused, List.filter_cons_of_neg (by simp [h])]
  rfl

theorem unused_cons_other (h : Switch.ofKey? q x.1 = none) : unused q (x :: properties) =
    if x.1 = reservedKey then unused q properties else x :: unused q properties := by
  rw [unused, List.filter_cons]
  by_cases reserved : x.1 = reservedKey
  · simp [reserved, unused]
  · simp [h, reserved, unused]

theorem Sets.cons_named (h : Sets q properties (p.set s b) p') (hs : Switch.ofKey? q x.1 = some s)
    (hb : flag? x.2 = some b) (hx : x.1 ∉ properties.map (·.1)) : Sets q (x :: properties) p p' := by
  have key : x.1 = q ++ s.name := Switch.ofKey?_eq_some.1 hs
  -- The key does not come again, so nothing else is set under this name.
  have once : ∀ v, (q ++ s.name, v) ∉ properties := fun v hv =>
    hx (key ▸ List.mem_map_of_mem (f := (·.1)) hv)
  constructor
  · intro s' b' v hv flag
    rcases List.mem_cons.1 hv with same | hv
    · obtain rfl : s' = s := by
        rw [← same] at key
        exact Switch.name_inj.1 ((String.append_right_inj q).1 key)
      have state : p'.isOn s' = (p.set s' b).isOn s' := h.others s' once
      rw [← same, flag] at hb
      rw [state, Option.some.inj hb]
      exact if_pos rfl
    · exact h.named s' b' v hv flag
  · intro s' hv
    have other : s' ≠ s := by
      rintro rfl
      exact hv x.2 (List.mem_cons.2 (.inl (Prod.ext key.symm rfl)))
    have state : p'.isOn s' = (p.set s b).isOn s' :=
      h.others s' fun v hm => hv v (List.mem_cons_of_mem _ hm)
    exact state.trans (if_neg other)

theorem Sets.cons_other (h : Sets q properties p p') (hx : Switch.ofKey? q x.1 = none) :
    Sets q (x :: properties) p p' := by
  have other : ∀ (s : Switch) v, (q ++ s.name, v) ≠ x := fun s v e =>
    Switch.ofKey?_eq_none.1 hx s (congrArg Prod.fst e).symm
  constructor
  · intro s b v hv
    exact h.named s b v ((List.mem_cons.1 hv).resolve_left (other s v))
  · intro s hv
    exact h.others s fun v hm => hv v (List.mem_cons_of_mem _ hm)

/-- **Properties without a fault** set what they name, and then the others have their turn. -/
theorem configure_append (hk : (properties.map (·.1)).Nodup) (h : ∀ x ∈ properties, ¬ Faulty q x) :
    ∃ p', Sets q properties p p' ∧ ∀ others, configure q (properties ++ others) p =
      ((configure q others p').1.map (unused q properties ++ ·), (configure q others p').2) := by
  -- What is set on the way is in `p`, so the induction is for all of them.
  induction properties generalizing p with
  | nil =>
    have sets : Sets q [] p p := {
      named := fun _ _ _ hv => absurd hv List.not_mem_nil
      others := fun _ _ => rfl }
    refine ⟨p, sets, fun others => ?_⟩
    rw [List.nil_append]
    cases e : (configure q others p).1 <;> exact Prod.ext e rfl
  | cons x properties ih =>
    obtain ⟨fresh, distinct⟩ := List.nodup_cons.1 hk
    obtain ⟨here, rest⟩ := List.forall_mem_cons.1 h
    cases hs : Switch.ofKey? q x.1 with
    | none =>
      obtain ⟨p', sets, after⟩ := ih (p := p) distinct rest
      refine ⟨p', sets.cons_other hs, fun others => ?_⟩
      rw [List.cons_append, configure]
      simp only [hs, after, unused_cons_other hs]
      cases (configure q others p').1 with
      | error => rfl
      | ok result => by_cases reserved : x.1 = reservedKey <;> simp [reserved, Except.map]
    | some s =>
      obtain ⟨b, hb⟩ : ∃ b, flag? x.2 = some b := by
        cases hb : flag? x.2 with
        | none => exact absurd ⟨⟨s, Switch.ofKey?_eq_some.1 hs⟩, hb⟩ here
        | some b => exact ⟨b, rfl⟩
      obtain ⟨p', sets, after⟩ := ih (p := p.set s b) distinct rest
      refine ⟨p', sets.cons_named hs hb fresh, fun others => ?_⟩
      rw [List.cons_append, configure]
      simp only [hs, hb, after, unused_cons_named hs]

/-- Without a fault all is set, and what names no switch is returned, the reserved key apart. -/
theorem configure_ok (hk : (properties.map (·.1)).Nodup) (h : ∀ x ∈ properties, ¬ Faulty q x) :
    ∃ p', configure q properties p = (.ok (unused q properties), p') ∧ Sets q properties p p' := by
  obtain ⟨p', sets, result⟩ := configure_append (p := p) hk h
  refine ⟨p', ?_, sets⟩
  have result := result []
  rw [List.append_nil] at result
  rw [result, configure]
  simp [Except.map]

/-- **The first fault is the one that is told,** and what comes before it is set. -/
theorem configure_error (hk : (before.map (·.1)).Nodup) (h : ∀ x ∈ before, ¬ Faulty q x)
    (hx : Faulty q x) :
    ∃ p', configure q (before ++ x :: after) p = (.error (.flagExpected x.1 x.2), p') ∧
      Sets q before p p' := by
  obtain ⟨p', sets, result⟩ := configure_append (p := p) hk h
  refine ⟨p', ?_, sets⟩
  obtain ⟨⟨s, key⟩, flag⟩ := hx
  have named : Switch.ofKey? q x.1 = some s := Switch.ofKey?_eq_some.2 key
  rw [result, configure]
  simp only [named, flag]
  rfl

theorem first_faulty (q : String) (properties : List (String × String)) :
    (∀ x ∈ properties, ¬ Faulty q x) ∨ ∃ before x after,
      properties = before ++ x :: after ∧ (∀ y ∈ before, ¬ Faulty q y) ∧ Faulty q x := by
  cases found : properties.find? (fun x => decide (Faulty q x)) with
  | none =>
    left
    intro x hx fault
    exact List.find?_eq_none.1 found x hx (decide_eq_true fault)
  | some x =>
    right
    obtain ⟨fault, before, after, parts, earlier⟩ := List.find?_eq_some_iff_append.1 found
    refine ⟨before, x, after, parts, fun y hy => ?_, of_decide_eq_true fault⟩
    have free := earlier y hy
    rw [Bool.not_eq_true', decide_eq_false_iff_not] at free
    exact free

/-- **It succeeds if there is no fault,** and only then. -/
theorem configure_ok_iff (hk : (properties.map (·.1)).Nodup) {result : List (String × String)} :
    (configure q properties p).1 = .ok result ↔
      (∀ x ∈ properties, ¬ Faulty q x) ∧ result = unused q properties := by
  rcases first_faulty q properties with h | ⟨before, x, after, rfl, h, fault⟩
  · obtain ⟨p', all, -⟩ := configure_ok (p := p) hk h
    rw [all, Except.ok.injEq]
    constructor
    · intro same
      exact ⟨h, same.symm⟩
    · intro same
      exact same.2.symm
  · have distinct : (before.map (·.1)).Nodup := by
      rw [List.map_append] at hk
      exact (List.nodup_append.1 hk).1
    obtain ⟨p', stops, -⟩ : ∃ p', configure q (before ++ x :: after) p = (_, p') ∧ _ :=
      configure_error distinct h fault
    rw [stops]
    constructor
    · intro same
      cases same
    · rintro ⟨all, -⟩
      exact absurd fault (all x (List.mem_append_right _ List.mem_cons_self))

/-- What properties without a fault set is determined by which they are. -/
theorem Sets.unique {p₁ p₂ : Presettling} (h₁ : Sets q properties p p₁) (h₂ : Sets q properties p p₂)
    (h : ∀ x ∈ properties, ¬ Faulty q x) : p₁ = p₂ := by
  obtain ⟨on₁⟩ := p₁
  obtain ⟨on₂⟩ := p₂
  congr 1
  funext s
  by_cases named : ∃ v, (q ++ s.name, v) ∈ properties
  · obtain ⟨v, hv⟩ := named
    cases flag : flag? v with
    | none => exact absurd ⟨⟨s, rfl⟩, flag⟩ (h _ hv)
    | some b => exact (h₁.named s b v hv flag).trans (h₂.named s b v hv flag).symm
  · have free : ∀ v, (q ++ s.name, v) ∉ properties := fun v hv => named ⟨v, hv⟩
    exact (h₁.others s free).trans (h₂.others s free).symm

theorem Sets.perm (h : Sets q properties p p') (hp : properties.Perm others) : Sets q others p p' := by
  constructor
  · intro s b v hv
    exact h.named s b v (hp.mem_iff.2 hv)
  · intro s hv
    exact h.others s fun v hm => hv v (hp.mem_iff.1 hm)

/-- **The order of the properties makes no difference** to what they set. -/
theorem configure_perm (hk : (properties.map (·.1)).Nodup) (h : ∀ x ∈ properties, ¬ Faulty q x)
    (hp : properties.Perm others) : (configure q properties p).2 = (configure q others p).2 := by
  have hk' : (others.map (·.1)).Nodup := (hp.map (·.1)).nodup_iff.1 hk
  have h' : ∀ x ∈ others, ¬ Faulty q x := fun x hx => h x (hp.mem_iff.2 hx)
  obtain ⟨p₁, first, sets₁⟩ := configure_ok (p := p) hk h
  obtain ⟨p₂, second, sets₂⟩ := configure_ok (p := p) hk' h'
  have same : p₁ = p₂ := (sets₁.perm hp).unique sets₂ h'
  rw [first, second, same]

/-- **What stands under the reserved key is lost:** all other properties that name no switch are returned,
this one never. -/
theorem configure_loses (hk : (properties.map (·.1)).Nodup) {result : List (String × String)}
    (h : (configure q properties p).1 = .ok result) :
    x ∈ result ↔ x ∈ properties ∧ ¬ Names q x ∧ x.1 ≠ reservedKey := by
  obtain ⟨-, rfl⟩ := (configure_ok_iff hk).1 h
  exact mem_unused

example : (configure qualifier [(reservedKey, "x"), ("other", "1")] {}).1.toOption =
    some [("other", "1")] := by
  decide +kernel

end Presettling

end Transact
