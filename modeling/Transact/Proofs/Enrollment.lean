import Mathlib.Data.List.DropRight
import Mathlib.Data.Set.Function
import Transact.Enrollment
import Transact.Proofs.Roll

/-! # Who is enrolled

A registry knows its members by the texts of their names, and a connection may have any name, also one
with colons in it. All the same it holds its members by their identity: in the text of a name the
numbers come last, and no number has a colon in its text. What it takes is that numbers have texts that
tell them apart.

* `colon_notMem_text`: the text of a number has no colon in it.
* `eq_of_text`: members of one kind that have the same text are the same.
* `run_shows`: what is seen of a registry after any enrolments and clearings. -/

namespace Transact

/-! ### Texts of numbers -/

namespace Number

variable {n : Nat} {digits : List Char} {point : Int} {q : Rat}

/-- What the text of a number is made of. -/
def IsFigure (c : Char) : Prop := c.isDigit = true ∨ c ∈ ['.', 'e', '+', '-']

theorem isFigure_repr : ∀ c ∈ n.repr.toList, IsFigure c := by
  intro c hc
  rw [Nat.toList_repr] at hc
  exact .inl (Nat.isDigit_of_mem_toDigits (by decide) (by decide) hc)

theorem isFigure_layout (h : ∀ c ∈ digits, IsFigure c) : ∀ c ∈ layout digits point, IsFigure c := by
  have mark : ∀ c ∈ ['.', 'e', '+', '-'], IsFigure c := fun _ hc => .inr hc
  have zeros (k : Nat) : ∀ c ∈ List.replicate k '0', IsFigure c := by
    intro c hc
    rw [(List.mem_replicate.1 hc).2]
    exact .inl rfl
  have exponent (power : Int) :
      ∀ c ∈ 'e' :: (if power < 0 then '-' else '+') :: power.natAbs.repr.toList, IsFigure c := by
    intro c hc
    rcases List.mem_cons.1 hc with rfl | hc
    · exact mark _ (by decide)
    · rcases List.mem_cons.1 hc with rfl | hc
      · split <;> exact mark _ (by decide)
      · exact isFigure_repr c hc
  unfold layout
  simp only
  split
  · exact List.forall_mem_append.2 ⟨h, zeros _⟩
  · split
    · refine List.forall_mem_append.2 ⟨fun c hc => h c (List.mem_of_mem_take hc), ?_⟩
      exact List.forall_mem_cons.2 ⟨mark _ (by decide), fun c hc => h c (List.mem_of_mem_drop hc)⟩
    · split
      · refine List.forall_mem_append.2 ⟨?_, h⟩
        exact List.forall_mem_cons.2 ⟨.inl rfl, List.forall_mem_cons.2 ⟨mark _ (by decide), zeros _⟩⟩
      · split
        · exact exponent _
        · exact List.forall_mem_cons.2 ⟨h _ List.mem_cons_self, exponent _⟩
        · obtain ⟨first, rest⟩ := List.forall_mem_cons.1 h
          refine List.forall_mem_cons.2 ⟨first, List.forall_mem_cons.2 ⟨mark _ (by decide), ?_⟩⟩
          exact List.forall_mem_append.2 ⟨rest, exponent _⟩

theorem isFigure_positiveText : ∀ c ∈ (positiveText q).toList, IsFigure c := by
  unfold positiveText
  rw [String.toList_ofList]
  refine isFigure_layout fun c hc => ?_
  have part : (significant (shortest q).digits.repr.toList).Sublist (shortest q).digits.repr.toList := by
    unfold significant
    exact List.reverse_sublist.1 ((List.reverse_reverse _).symm ▸ List.dropWhile_sublist _)
  exact isFigure_repr c (part.subset hc)

theorem isFigure_text {n : Number} : ∀ c ∈ n.text.toList, IsFigure c := by
  have negative {t : String} (h : ∀ c ∈ t.toList, IsFigure c) : ∀ c ∈ s!"-{t}".toList, IsFigure c := by
    have same : s!"-{t}".toList = '-' :: t.toList := String.toList_append
    rw [same]
    exact List.forall_mem_cons.2 ⟨.inr (by decide), h⟩
  unfold text
  split
  · split
    · exact negative isFigure_repr
    · exact isFigure_repr
  · split
    · exact negative isFigure_positiveText
    · exact isFigure_positiveText

/-- **No number has a colon in its text.** -/
theorem colon_notMem_text {n : Number} : ':' ∉ n.text.toList := by
  intro h
  rcases isFigure_text _ h with digit | mark
  · exact absurd digit (by decide)
  · exact absurd mark (by decide)

/-- The numbers that are counts. -/
def counts : Set Number := {n | ∃ k ≤ countLimit, n = ofNat k}

theorem injOn_counts : Set.InjOn text counts := by
  rintro _ ⟨i, hi, rfl⟩ _ ⟨j, hj, rfl⟩ same
  rw [text_ofNat hi, text_ofNat hj] at same
  have back (k : Nat) : Nat.ofDigitChars 10 k.repr.toList 0 = k := by
    rw [Nat.toList_repr, Nat.ofDigitChars_ten_toDigits]
  rw [← back i, same, back]

end Number

/-! ### Texts of names -/

theorem split_last_colon {before before' after after' : List Char} (ha : ':' ∉ after) (ha' : ':' ∉ after')
    (h : before ++ ':' :: after = before' ++ ':' :: after') : before = before' ∧ after = after' := by
  have one {xs ys zs : List Char} (hy : ':' ∉ ys) (e : ':' :: ys = xs ++ ':' :: zs) : xs = [] := by
    cases xs with
    | nil => rfl
    | cons x xs =>
      obtain ⟨-, e⟩ := List.cons.inj e
      exact absurd (e ▸ List.mem_append_right _ List.mem_cons_self) hy
  rcases List.append_eq_append_iff.1 h with ⟨xs, rfl, e⟩ | ⟨xs, rfl, e⟩
  · obtain rfl := one ha e
    exact ⟨(List.append_nil _).symm, (List.cons.inj e).2⟩
  · obtain rfl := one ha' e
    exact ⟨List.append_nil _, (List.cons.inj e).2.symm⟩

theorem SessionId.toList_text {s : SessionId} :
    s.text.toList = s.connection.toList ++ ':' :: s.number.text.toList := by
  show (s.connection ++ ":" ++ s.number.text).toList = _
  simp [String.toList_append]

namespace MemberId

variable {ns : Set Number} {m m' : MemberId}

theorem toList_text :
    m.text.toList = m.session.text.toList ++ ':' :: (m.kind.mark ++ m.number.text).toList := by
  show (m.session.text ++ ":" ++ m.kind.mark ++ m.number.text).toList = _
  simp [String.toList_append]

/-- The numbers in a name are among these. -/
def Within (ns : Set Number) (m : MemberId) : Prop := m.session.number ∈ ns ∧ m.number ∈ ns

/-- **The text of a name tells who it is,** among the consumers and among the producers. -/
theorem eq_of_text (apart : Set.InjOn Number.text ns) (hm : m.Within ns) (hm' : m'.Within ns)
    (hk : m.kind = m'.kind) (h : m.text = m'.text) : m = m' := by
  have plain (m : MemberId) : ':' ∉ (m.kind.mark ++ m.number.text).toList := by
    rw [String.toList_append, List.mem_append]
    rintro (mark | number)
    · cases e : m.kind <;> simp [e, MemberKind.mark] at mark
    · exact Number.colon_notMem_text number
  have split : m.session.text.toList ++ ':' :: (m.kind.mark ++ m.number.text).toList =
      m'.session.text.toList ++ ':' :: (m'.kind.mark ++ m'.number.text).toList := by
    rw [← toList_text, ← toList_text, h]
  obtain ⟨session, own⟩ := split_last_colon (plain m) (plain m') split
  rw [SessionId.toList_text, SessionId.toList_text] at session
  obtain ⟨connection, number⟩ :=
    split_last_colon Number.colon_notMem_text Number.colon_notMem_text session
  have own : m.number.text = m'.number.text := by
    rw [hk, String.toList_append, String.toList_append] at own
    exact String.toList_inj.1 (List.append_cancel_left own)
  obtain ⟨kind, ⟨c, s⟩, n⟩ := m
  obtain ⟨kind', ⟨c', s'⟩, n'⟩ := m'
  obtain rfl : c = c' := String.toList_inj.1 connection
  obtain rfl : s = s' := apart hm.1 hm'.1 (String.toList_inj.1 number)
  obtain rfl : n = n' := apart hm.2 hm'.2 own
  obtain rfl : kind = kind' := hk
  rfl

end MemberId

namespace Registry

/-! ### Moves -/

/-- What is done with a registry. -/
inductive Move (γ π : Type) where
  | enrolConsumer (session : SessionId) (number : Number) (c : γ)
  | enrolProducer (session : SessionId) (number : Number) (p : π)
  | clear

variable {γ π : Type}

namespace Move

/-- Makes a move. -/
def perform : Move γ π → Registry γ π → Registry γ π
  | enrolConsumer s n c, r => r.enrolConsumer ⟨.consumer, s, n⟩ c
  | enrolProducer s n p, r => r.enrolProducer ⟨.producer, s, n⟩ p
  | clear, _ => {}

/-- The consumer that is enrolled, with its name. -/
def consumer? : Move γ π → Option (MemberId × γ)
  | enrolConsumer s n c => some (⟨.consumer, s, n⟩, c)
  | _ => none

/-- The producer that is enrolled, with its name. -/
def producer? : Move γ π → Option (MemberId × π)
  | enrolProducer s n p => some (⟨.producer, s, n⟩, p)
  | _ => none

/-- Who is enrolled. -/
def member? : Move γ π → Option MemberId
  | enrolConsumer s n _ => some ⟨.consumer, s, n⟩
  | enrolProducer s n _ => some ⟨.producer, s, n⟩
  | clear => none

end Move

/-- What a list of moves leads to. -/
def run (moves : List (Move γ π)) : Registry γ π := moves.foldl (fun r m => m.perform r) {}

/-- The moves since the last clearing. -/
def recent (moves : List (Move γ π)) : List (Move γ π) := moves.rtakeWhile (·.member?.isSome)

/-- The consumers that were enrolled since then, some of them more than once. -/
def consumersOf (moves : List (Move γ π)) : List (MemberId × γ) := (recent moves).filterMap (·.consumer?)

/-- The producers that were enrolled since then, some of them more than once. -/
def producersOf (moves : List (Move γ π)) : List (MemberId × π) := (recent moves).filterMap (·.producer?)

/-- **What is seen of a registry:** who was enrolled since it was cleared last.

* `has`: exactly these are found.
* `consumers`, `producers`: for each identity, in the order of the first enrolments, there is what was
  enrolled last.
* `isEmpty`: it is empty when nobody is listed. -/
structure Shows (ns : Set Number) (moves : List (Move γ π)) (r : Registry γ π) : Prop where
  has : ∀ who : MemberId, who.Within ns →
    (r.has who = true ↔ ∃ m ∈ recent moves, m.member? = some who)
  consumers : r.consumers.values.map some =
    (Roll.firsts (consumersOf moves)).map ((consumersOf moves).reverse.lookup ·)
  producers : r.producers.values.map some =
    (Roll.firsts (producersOf moves)).map ((producersOf moves).reverse.lookup ·)
  isEmpty : r.isEmpty = true ↔ r.consumers.values = [] ∧ r.producers.values = []

/-! ### Runs -/

variable {moves : List (Move γ π)} {m : Move γ π} {ns : Set Number} {who : MemberId}

theorem run_append : run (moves ++ [m]) = m.perform (run moves) := List.foldl_append

/-- The entries under the texts of the names. -/
def texts {α : Type} (es : List (MemberId × α)) : List (String × α) := es.map (Prod.map MemberId.text id)

theorem ofList_texts_append {α : Type} {es : List (MemberId × α)} {e : MemberId × α} :
    Roll.ofList (texts (es ++ [e])) = (Roll.ofList (texts es)).put e.1.text e.2 := by
  rw [texts, List.map_append]
  exact Roll.ofList_append

theorem filterMap_recent {α : Type} {f : Move γ π → Option α} : (recent (moves ++ [m])).filterMap f =
    if m.member?.isSome then (recent moves).filterMap f ++ (f m).toList else [] := by
  rw [recent, List.rtakeWhile_concat]
  split
  · rw [List.filterMap_append, recent]
    cases e : f m <;> simp [e]
  · rfl

theorem run_eq : run moves =
    ⟨.ofList (texts (consumersOf moves)), .ofList (texts (producersOf moves))⟩ := by
  induction moves using List.reverseRecOn with
  | nil => rfl
  | append_singleton moves m ih =>
    rw [run_append, ih]
    cases m with
    | clear =>
      have consumers : consumersOf (moves ++ [.clear]) = [] := filterMap_recent
      have producers : producersOf (moves ++ [.clear]) = [] := filterMap_recent
      rw [consumers, producers]
      rfl
    | enrolConsumer s n c =>
      have consumers : consumersOf (moves ++ [.enrolConsumer s n c]) =
          consumersOf moves ++ [(⟨.consumer, s, n⟩, c)] := filterMap_recent
      have producers : producersOf (moves ++ [.enrolConsumer s n c]) = producersOf moves :=
        filterMap_recent.trans (List.append_nil _)
      rw [consumers, producers, ofList_texts_append]
      rfl
    | enrolProducer s n p =>
      have consumers : consumersOf (moves ++ [.enrolProducer s n p]) = consumersOf moves :=
        filterMap_recent.trans (List.append_nil _)
      have producers : producersOf (moves ++ [.enrolProducer s n p]) =
          producersOf moves ++ [(⟨.producer, s, n⟩, p)] := filterMap_recent
      rw [consumers, producers, ofList_texts_append]
      rfl

/-! ### Members of one kind -/

section
variable {α : Type} {es : List (MemberId × α)} {kind : MemberKind}

/-- **Under their texts the members of one kind are as well told apart** as by who they are. -/
theorem ofList_texts (apart : Set.InjOn Number.text ns)
    (hes : ∀ who ∈ es.map (·.1), who.kind = kind ∧ who.Within ns) :
    Roll.ofList (texts es) = (Roll.ofList es).mapKeys MemberId.text :=
  Roll.ofList_map fun who hw who' hw' same =>
    MemberId.eq_of_text apart (hes who hw).2 (hes who' hw').2 ((hes who hw).1.trans (hes who' hw').1.symm)
      same

theorem has_texts (apart : Set.InjOn Number.text ns)
    (hes : ∀ who ∈ es.map (·.1), who.kind = kind ∧ who.Within ns) (hk : who.kind = kind)
    (hw : who.Within ns) :
    (Roll.ofList (texts es)).has who.text = true ↔ who ∈ es.map (·.1) := by
  rw [Roll.has_iff_mem_keys, ofList_texts apart hes, Roll.keys_mapKeys, List.mem_map]
  constructor
  · rintro ⟨other, ho, same⟩
    have listed : other ∈ es.map (·.1) := Roll.mem_keys_ofList.1 ho
    obtain ⟨kind', within⟩ := hes other listed
    have : other = who := MemberId.eq_of_text apart within hw (kind'.trans hk.symm) same
    exact this ▸ listed
  · intro listed
    exact ⟨who, Roll.mem_keys_ofList.2 listed, rfl⟩

theorem values_texts (apart : Set.InjOn Number.text ns)
    (hes : ∀ who ∈ es.map (·.1), who.kind = kind ∧ who.Within ns) :
    (Roll.ofList (texts es)).values.map some = (Roll.firsts es).map (es.reverse.lookup ·) := by
  rw [ofList_texts apart hes, Roll.values_mapKeys]
  exact Roll.values_ofList

end

theorem mem_enrolled {α : Type} {f : Move γ π → Option (MemberId × α)} {kind : MemberKind}
    (hf : ∀ m, (f m).map (·.1) = m.member?.filter (·.kind = kind)) :
    who ∈ ((recent moves).filterMap f).map (·.1) ↔
      who.kind = kind ∧ ∃ m ∈ recent moves, m.member? = some who := by
  rw [List.map_filterMap, List.mem_filterMap]
  simp only [hf, Option.filter_eq_some_iff, decide_eq_true_eq]
  constructor
  · rintro ⟨m, hm, he, hk⟩
    exact ⟨hk, m, hm, he⟩
  · rintro ⟨hk, m, hm, he⟩
    exact ⟨m, hm, he, hk⟩

theorem mem_consumersOf : who ∈ (consumersOf moves).map (·.1) ↔
    who.kind = .consumer ∧ ∃ m ∈ recent moves, m.member? = some who :=
  mem_enrolled fun m => by cases m <;> rfl

theorem mem_producersOf : who ∈ (producersOf moves).map (·.1) ↔
    who.kind = .producer ∧ ∃ m ∈ recent moves, m.member? = some who :=
  mem_enrolled fun m => by cases m <;> rfl

theorem values_eq_nil {α : Type} {r : Roll String α} : r.isEmpty = true ↔ r.values = [] := by
  rw [Roll.isEmpty, Roll.values, List.map_eq_nil_iff, List.isEmpty_iff]

/-- **A registry shows who was enrolled since it was cleared last,** whatever the connections are called,
as long as the numbers in use have texts that tell them apart. -/
theorem run_shows (apart : Set.InjOn Number.text ns)
    (hm : ∀ m ∈ moves, ∀ who, m.member? = some who → who.Within ns) : Shows ns moves (run moves) := by
  have within : ∀ who, (∃ m ∈ recent moves, m.member? = some who) → who.Within ns := by
    rintro who ⟨m, hr, he⟩
    exact hm m ((List.rtakeWhile_suffix _ _).subset hr) who he
  have consumers : ∀ who ∈ (consumersOf moves).map (·.1), who.kind = .consumer ∧ who.Within ns := by
    intro who hw
    obtain ⟨kind, enrolled⟩ := mem_consumersOf.1 hw
    exact ⟨kind, within who enrolled⟩
  have producers : ∀ who ∈ (producersOf moves).map (·.1), who.kind = .producer ∧ who.Within ns := by
    intro who hw
    obtain ⟨kind, enrolled⟩ := mem_producersOf.1 hw
    exact ⟨kind, within who enrolled⟩
  rw [run_eq]
  refine ⟨fun who hw => ?_, values_texts apart consumers, values_texts apart producers, ?_⟩
  · cases hk : who.kind with
    | consumer =>
      rw [has, hk]
      exact (has_texts apart consumers hk hw).trans (mem_consumersOf.trans (and_iff_right hk))
    | producer =>
      rw [has, hk]
      exact (has_texts apart producers hk hw).trans (mem_producersOf.trans (and_iff_right hk))
  · rw [isEmpty, Bool.and_eq_true]
    exact and_congr values_eq_nil values_eq_nil

/-- Before the clearing one consumer enrols. After it there are two, on connections with a colon in their
names, and the first of them enrols once more. -/
def crowd : List (Move String String) :=
  [.enrolConsumer ⟨"a", .ofNat 1⟩ (.ofNat 2) "cleared", .clear,
    .enrolConsumer ⟨"a:1", .ofNat 1⟩ (.ofNat 2) "first",
    .enrolConsumer ⟨"a:1:c2", .ofNat 1⟩ (.ofNat 2) "second",
    .enrolProducer ⟨"a:1", .ofNat 1⟩ (.ofNat 2) "producer",
    .enrolConsumer ⟨"a:1", .ofNat 1⟩ (.ofNat 2) "again"]

theorem run_shows_crowd :
    Set.InjOn Number.text Number.counts ∧
    (∀ m ∈ crowd, ∀ who, m.member? = some who → who.Within Number.counts) ∧
    (run crowd).has ⟨.consumer, ⟨"a:1", .ofNat 1⟩, .ofNat 2⟩ = true ∧
    (run crowd).has ⟨.consumer, ⟨"a", .ofNat 1⟩, .ofNat 2⟩ = false ∧
    (run crowd).consumers.values.map some = [some "again", some "second"] ∧
    (run crowd).producers.values.map some = [some "producer"] := by
  have one : Number.ofNat 1 ∈ Number.counts := ⟨1, by decide, rfl⟩
  have two : Number.ofNat 2 ∈ Number.counts := ⟨2, by decide, rfl⟩
  have within : ∀ m ∈ crowd, ∀ who, m.member? = some who → who.Within Number.counts := by
    have all : ∀ m ∈ crowd, ∀ who ∈ m.member?, who.session.number = .ofNat 1 ∧ who.number = .ofNat 2 := by
      decide +kernel
    intro m hm who he
    obtain ⟨session, own⟩ := all m hm who he
    exact ⟨session ▸ one, own ▸ two⟩
  have shown := run_shows Number.injOn_counts within
  have absent : ¬ ∃ m ∈ recent crowd, m.member? = some ⟨.consumer, ⟨"a", .ofNat 1⟩, .ofNat 2⟩ := by
    decide +kernel
  refine ⟨Number.injOn_counts, within, (shown.has _ ⟨one, two⟩).2 (by decide +kernel),
    Bool.eq_false_iff.2 fun found => absent ((shown.has _ ⟨one, two⟩).1 found),
    shown.consumers.trans (by decide +kernel), shown.producers.trans (by decide +kernel)⟩

end Registry

end Transact
