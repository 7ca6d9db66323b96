import Mathlib.Data.List.Nodup
import Transact.Proofs.Link.Changes

/-! # Answers

An exchange gets its answer, by a settlement or because it could not be sent, and the link lets go of
it. An answer that no exchange waits for changes nothing.

* `Inv.answer`, `Inv.ignored`: the two cases.
* `fits_declare`, `fits_discharge`: how the answer ends the request. -/

namespace Transact.Link

open Player

variable {attaching : Prop} {hand : List Nat} {w : State} {x x' : Client Nat} {past : List Entry}
  {e : Event} {d : Nat} {q : Sent} {a : Answer}

/-! ### Exchanges -/

theorem exchanges_congr (h : (x'.link 0).state = (x.link 0).state) :
    exchanges x' past = exchanges x past := by
  rw [exchanges, exchanges, shutIf, shutIf, h]

theorem live_answered {qs : List Sent} : (qs.map (·.answered d a)).filter (·.answer.isNone) =
    (qs.filter (·.answer.isNone)).filter (·.delivery ≠ d) := by
  induction qs with
  | nil => rfl
  | cons q qs ih =>
    rw [List.map_cons, List.filter_cons, ih, List.filter_cons]
    by_cases ha : q.answer.isSome
    · have answered : q.answer.isNone = false := by
        rw [Option.isSome_iff_exists] at ha
        obtain ⟨a, e⟩ := ha
        rw [e]
        rfl
      rw [Sent.answered_of_answer ha, answered]
      rfl
    · have waiting : q.answer = none := by simpa using ha
      by_cases hd : q.delivery = d
      · rw [Sent.answered_same hd waiting, waiting]
        simp [hd]
      · rw [Sent.answered_other hd, waiting]
        simp [hd]

theorem perm_of_mem {qs : List Sent} (hn : (qs.map (·.delivery)).Nodup) (hq : q ∈ qs) :
    qs.Perm (q :: qs.filter (·.delivery ≠ q.delivery)) := by
  obtain ⟨before, after, rfl⟩ := List.append_of_mem hq
  rw [List.map_append, List.map_cons, List.nodup_middle, List.nodup_cons] at hn
  have other (q' : Sent) (hq' : q' ∈ before ++ after) : q'.delivery ≠ q.delivery := by
    intro e
    refine hn.1 ?_
    rw [← List.map_append, ← e]
    exact List.mem_map_of_mem hq'
  have rest : (before ++ after).filter (·.delivery ≠ q.delivery) = before ++ after :=
    List.filter_eq_self.2 fun q' hq' => by simpa using other q' hq'
  rw [List.filter_append, List.filter_cons, if_neg (by simp), ← List.filter_append, rest]
  exact List.perm_middle

theorem find_entry {qs : List Sent} : (qs.map Sent.entry).find? (·.1 = d) =
    (qs.find? (·.delivery = d)).map Sent.entry := List.find?_map

theorem Linked.numbered (h : Linked attaching x past) :
    ((live x past).map (·.delivery)).Nodup := by
  refine List.Nodup.sublist (List.filter_sublist.map _) ?_
  rw [h.numbers, List.nodup_reverse]
  exact List.nodup_range

/-! ### The two cases -/

/-- Drops an exchange. -/
def drop (d : Nat) (k : Link Nat) : Link Nat :=
  { k with pending := k.pending.filter (·.1 ≠ d) }

/-- The event is the answer `a` to the exchange with this delivery number, and tells nothing else. -/
structure Answers (e : Event) (d : Nat) (a : Answer) : Prop where
  sent : ∀ x past, sent (⟨e, x⟩ :: past) = (exchanges x past).map (·.answered d a)
  asked : ∀ x past, asked (⟨e, x⟩ :: past) = asked past
  told : ∀ x past, told (⟨e, x⟩ :: past) = told past
  opener : ∀ x past, opener (⟨e, x⟩ :: past) = opener past
  plain : (∀ c failure, e ≠ .returned c failure) ∧ (∀ d r, e ≠ .sent d r) ∧ ∀ id r, e ≠ .resolved id r

theorem Answers.good (ha : Answers e d a) (hc : Clear x past) : Entry.Good ⟨e, x⟩ past :=
  hc.plain (fun c failure he => absurd he (ha.plain.1 c failure)) ha.plain.2.1 ha.plain.2.2

theorem answers_settled {s : Settlement} :
    Answers (.signalled (.settled d s)) d (.settled s) :=
  ⟨fun _ _ => rfl, fun _ _ => rfl, fun _ _ => rfl, fun _ _ => rfl, nofun, nofun, nofun⟩

theorem answers_refused : Answers (.refused d) d .refused :=
  ⟨fun _ _ => rfl, fun _ _ => rfl, fun _ _ => rfl, fun _ _ => rfl, nofun, nofun, nofun⟩

theorem state_drop : ((x.changeLink 0 (drop d)).link 0).state = (x.link 0).state :=
  state_changeLink fun _ => rfl

theorem exchanges_drop (ha : Answers e d a) : exchanges (x.changeLink 0 (drop d)) (⟨e, x⟩ :: past) =
    (exchanges x past).map (·.answered d a) :=
  (exchanges_congr state_drop).trans (exchanges_of_answered (ha.sent _ _))

theorem mem_answered (hq : q ∈ live x past) (ha : Answers e q.delivery a) :
    { q with answer := some a } ∈
      exchanges (x.changeLink 0 (drop q.delivery)) (⟨e, x⟩ :: past) := by
  obtain ⟨hq, waiting⟩ := answer_of_mem_live hq
  rw [exchanges_drop ha]
  exact List.mem_map.2 ⟨q, hq, Sent.answered_same rfl waiting⟩

/-- **An exchange gets its answer,** and the link lets go of it. -/
theorem Inv.answer (h : Inv attaching hand w) (hs : Clear w.client w.outside.history)
    (hq : q ∈ live w.client w.outside.history) (ha : Answers e q.delivery a) :
    Inv attaching (q.completion :: hand) ((noting e w).on (·.changeLink 0 (drop q.delivery))) := by
  obtain ⟨k, hk⟩ : ∃ k, w.client.links[0]? = some k := ⟨_, h.linked.link⟩
  have before : w.client.link 0 = k := Client.link_eq hk
  have after : (w.client.changeLink 0 (drop q.delivery)).link 0 = drop q.delivery k :=
    Client.link_eq (Client.changeLink_same hk)
  have all : exchanges (w.client.changeLink 0 (drop q.delivery)) (⟨e, w.client⟩ ::
      w.outside.history) = (exchanges w.client w.outside.history).map (·.answered q.delivery a) :=
    exchanges_drop ha
  have left : live (w.client.changeLink 0 (drop q.delivery)) (⟨e, w.client⟩ :: w.outside.history) =
      (live w.client w.outside.history).filter (·.delivery ≠ q.delivery) := by
    rw [live, all, live_answered]
    rfl
  have dropped : (drop q.delivery k).pending = ((live w.client w.outside.history).filter
      (·.delivery ≠ q.delivery)).reverse.map Sent.entry := by
    rw [drop, ← before, h.linked.pending, List.filter_map, ← List.filter_reverse]
    rfl
  have same {α : Type} {g : Sent → α} (hg : ∀ q' : Sent, g (q'.answered q.delivery a) = g q') :
      ((exchanges w.client w.outside.history).map (·.answered q.delivery a)).map g =
        (exchanges w.client w.outside.history).map g := by
    rw [List.map_map]
    exact List.map_congr_left fun q' _ => hg q'
  have linked : Linked attaching (w.client.changeLink 0 (drop q.delivery))
      (⟨e, w.client⟩ :: w.outside.history) := by
    constructor
    · rw [after]
      exact Client.changeLink_same hk
    · rw [after, ha.opener]
      exact before ▸ h.linked.opening
    · rw [after]
      exact before ▸ h.linked.sender
    · rw [after, ha.opener]
      exact before ▸ h.linked.attached
    · rw [after, left]
      exact dropped
    · rw [state_drop, all]
      intro hb
      rw [h.linked.unsent hb]
      rfl
    · rw [after, all, List.length_map, ← h.linked.next, before]
      rfl
    · rw [all, same fun q' => Sent.answered_keeps.1, List.length_map]
      exact h.linked.numbers
    · rw [all, ha.asked]
      intro q' hq'
      obtain ⟨q'', hq'', rfl⟩ := List.mem_map.1 hq'
      obtain ⟨-, operation, completion⟩ := Sent.answered_keeps (q := q'') (d := q.delivery) (a := a)
      rw [operation, completion]
      exact h.linked.requested q'' hq''
    · rw [all, same fun q' => Sent.answered_keeps.2.2]
      exact h.linked.single
  have moved : (q.completion :: hand ++ held ((w.client.changeLink 0 (drop q.delivery)).link 0)).Perm
      (hand ++ held (w.client.link 0)) := by
    rw [linked.held, h.linked.held, left, after, before]
    have one : ((live w.client w.outside.history).map (·.completion)).Perm (q.completion ::
        ((live w.client w.outside.history).filter (·.delivery ≠ q.delivery)).map (·.completion)) :=
      (perm_of_mem h.linked.numbered hq).map (·.completion)
    rw [List.cons_append, List.map_reverse, List.map_reverse]
    have reversed := ((List.reverse_perm _).trans one).trans
      ((List.reverse_perm (((live w.client w.outside.history).filter
        (·.delivery ≠ q.delivery)).map (·.completion))).symm.cons _)
    have openings : (drop q.delivery k).opening = k.opening := rfl
    rw [openings, ← List.append_assoc, ← List.append_assoc]
    exact List.perm_middle.symm.trans (reversed.symm.append_left _)
  have ids : Ids (q.completion :: hand) (w.client.changeLink 0 (drop q.delivery)) w.outside.history :=
    h.ids.relink rfl moved
  exact ⟨linked, ids.congr (ha.asked _ _) (ha.told _ _), .cons (ha.good hs) h.lawful, h.tame⟩

/-- **An answer that no exchange waits for** changes nothing. -/
theorem Inv.ignored (h : Inv attaching hand w) (hs : Clear w.client w.outside.history)
    (hq : ∀ q ∈ live w.client w.outside.history, q.delivery ≠ d) (ha : Answers e d a) :
    Inv attaching hand (noting e w) := by
  have same : (exchanges w.client w.outside.history).map (·.answered d a) =
      exchanges w.client w.outside.history := by
    refine (List.map_congr_left fun q hm => ?_).trans (List.map_id' _)
    by_cases done : q.answer.isSome
    · exact Sent.answered_of_answer done
    · have waiting : q ∈ live w.client w.outside.history :=
        List.mem_filter.2 ⟨hm, by simpa using done⟩
      exact Sent.answered_other (hq q waiting)
  refine ⟨h.linked.congr rfl ((exchanges_of_answered (ha.sent _ _)).trans same) (ha.opener _ _) ?_,
    h.ids.congr (ha.asked _ _) (ha.told _ _), .cons (ha.good hs) h.lawful, h.tame⟩
  exact fun p hp => (congrArg (p ∈ ·) (ha.asked w.client _)).mpr hp

/-! ### How it ends the request -/

theorem fits_declare {tx : TransactionId} {t : Nat} {s : Settlement} :
    (Link.declareResolution tx s).Fits (Sent.verdict (.declare t) (.settled s)) := by
  cases s with
  | declared => rfl
  | _ => exact ⟨_, rfl, rfl⟩

theorem fits_discharge {tx : TransactionId} {t : Nat} {commit : Bool} {s : Settlement} :
    (Link.dischargeResolution tx commit s).Fits
      (Sent.verdict (.discharge t commit) (.settled s)) := by
  cases s with
  | accepted => cases commit <;> rfl
  | _ => cases commit <;> exact ⟨_, rfl, rfl⟩

end Transact.Link
