import Transact.Proofs.Client.Closing
import Transact.Script.Basic

/-! # Spent links in scripts

Whatever a script does, with calls nested as deep as it likes, and whatever raises in it: a link that has
closed with nothing outstanding stays so.

* `host_respects`: the surroundings that follow a script leave a spent link as it is.
* `play_spent`: so it is at every later moment of the script. -/

namespace Transact

open Run

namespace Script

open Link (Spent)

variable {l : Nat} {inner : Host Outside Waiter}

theorem attachment_preserves {number : Option Number} : Preserves (Spent l) (attachment? number) := by
  refine .bind (fun _ hs => hs) fun o => ?_
  cases number <;> exact .pure

theorem sendsReply_preserves {a : Nat} : Preserves (Spent l) (sendsReply a) := by
  refine .bind (fun _ hs => hs) fun client => ?_
  cases client.aggregates[a]? <;> exact .pure

theorem enrol_preserves {c : Nat} {member : String} : Preserves (Spent l) (enrol c member) :=
  .bind (fun _ hs => hs) fun _ => .bind (.forM fun _ _ hs => hs) fun _ => .forM fun _ _ hs => hs

theorem takeScript_preserves {consumer : Nat} {hook : Hook} :
    Preserves (Spent l) (takeScript consumer hook) := by
  refine .bind (fun _ hs => hs) fun o => ?_
  split
  · exact .bind (fun _ hs => hs) fun _ => .pure
  · exact .pure

theorem glance_preserves : Preserves (Spent l) glance := by
  refine .bind (fun _ hs => hs) fun o => ?_
  cases o.subject with
  | link => exact .bind (fun _ hs => hs) fun _ => .pure
  | context =>
    exact .bind (fun _ hs => hs) fun _ => .bind (fun _ hs => Act.after_currentId.2 hs) fun _ => .pure

section
variable (respects : inner.Respects l)

include respects

theorem settleDelivery_preserves {i : Nat} {delivery : Number} {settlement : Settlement} :
    Preserves (Spent l) (settleDelivery inner i delivery settlement) := by
  unfold settleDelivery
  cases delivery.toNat? with
  | none => exact .pure
  | some => exact Link.settled_preserves respects

theorem act_preserves {a : Action} : Preserves (Spent l) (act inner a) := by
  cases a with
  | remoteOpen =>
    refine .bind attachment_preserves fun attachment => ?_
    cases attachment with
    | none => exact .pure
    | some => exact .bind (Link.opened_preserves respects) fun _ => .pure
  | remoteClose =>
    refine .bind attachment_preserves fun attachment => ?_
    cases attachment with
    | none => exact .pure
    | some => exact .bind (Link.closed_preserves respects) fun _ => .pure
  | settle number delivery =>
    refine .bind attachment_preserves fun attachment => ?_
    cases attachment with
    | none => exact .pure
    | some a =>
      dsimp only
      split
      · exact .pure
      · exact .bind (settleDelivery_preserves respects) fun _ => .pure
  | raise => exact .raise
  | close => exact .bind (Link.close_preserves respects) fun _ => .pure
  | opened => exact .bind (Link.opened_preserves respects) fun _ => .pure
  | closed => exact .bind (Link.closed_preserves respects) fun _ => .pure
  | settled => exact .bind (settleDelivery_preserves respects) fun _ => .pure
  | settleSend name =>
    refine .bind (fun _ hs => hs) fun o => ?_
    cases o.aggregates.lookup name with
    | none => exact .pure
    | some => exact .bind (Context.settleSend_preserves respects) fun _ => sendsReply_preserves
  | enrol => exact .bind enrol_preserves fun _ => .pure
  | closeCoordinator =>
    refine .bind (fun _ hs => hs) fun context => ?_
    cases context.coordinator with
    | none => exact .pure
    | some => exact .bind (Link.close_preserves respects) fun _ => .pure
  | _ => exact .bind (fun _ hs => hs) fun _ => .pure

theorem request_preserves {token : Token Waiter} {operation : Operation} :
    Preserves (Spent l) (request inner token operation) := by
  cases operation with
  | establish => exact .bind (Link.establish_preserves respects) fun _ => .pure
  | declare => exact .bind (Link.declare_preserves respects) fun _ => .pure
  | discharge => exact .bind (Link.discharge_preserves respects) fun _ => .pure
  | begin => exact .bind (Context.begin_preserves respects) fun _ => .pure
  | finish => exact .bind (Context.finish_preserves respects) fun _ => .pure
  | aggregate =>
    exact .bind (Context.finishAfter_preserves respects) fun _ => .bind (fun _ hs => hs) fun _ =>
      sendsReply_preserves

theorem perform_preserves {s : Step} : Preserves (Spent l) (perform inner s) := by
  cases s with
  | action => exact act_preserves respects
  | request => exact .bind (fun _ hs => hs) fun _ => request_preserves respects

theorem follow_preserves {script : List Step} : Preserves (Spent l) (follow inner script) :=
  .forM fun _ => .bind (perform_preserves respects) fun _ _ hs => hs

theorem send_preserves {sender delivery : Nat} {r : Request} :
    Preserves (Spent l) (send inner sender delivery r) := by
  refine .bind (fun _ hs => hs) fun _ => .bind (fun _ hs => hs) fun o => ?_
  cases o.sendFailure with
  | some => exact .raise
  | none =>
    refine .bind (fun _ hs => hs) fun _ => ?_
    split
    · exact Link.settled_preserves respects
    · exact .pure

theorem callHook_preserves {consumer : Nat} {hook : Hook} :
    Preserves (Spent l) (callHook inner consumer hook) :=
  .bind (fun _ hs => hs) fun _ => .bind glance_preserves fun _ => .bind (fun _ hs => hs) fun _ =>
    .bind takeScript_preserves fun _ => follow_preserves respects

theorem resume_preserves {waiter : Waiter} {r : Resolution Unit} :
    Preserves (Spent l) (resume inner waiter r) :=
  .bind glance_preserves fun _ => .bind (fun _ hs => hs) fun _ => follow_preserves respects

end

/-- **In every script a spent link stays so,** however deep its calls nest. -/
theorem host_respects {depth : Nat} : (host depth).Respects l := by
  induction depth with
  | zero =>
    exact ⟨fun _ _ => .exhausted, fun _ _ _ => .exhausted, fun _ => .exhausted, fun _ _ => .exhausted,
      fun _ _ => .exhausted⟩
  | succ depth ih =>
    refine ⟨fun name i => ?_, fun _ _ _ => send_preserves ih, fun _ _ hs => hs,
      fun _ _ => callHook_preserves ih, fun _ _ => resume_preserves ih⟩
    refine .bind (fun _ hs => hs) fun o => ?_
    cases o.attachFailure with
    | some => exact .raise
    | none => exact .bind (fun _ hs => hs) fun _ => .bind (fun _ hs => hs) fun _ => .pure

theorem trace_spent {depth : Nat} {script : List Step} {w : State} (hs : Spent l w) :
    ∀ x ∈ Run.trace (step depth) script w, Spent l x.2 := by
  induction script generalizing w with
  | nil => exact fun _ no => absurd no List.not_mem_nil
  | cons s rest ih =>
    have spent : Spent l (step depth s w).2 :=
      After.observe (perform_preserves host_respects _ hs)
    intro x mem
    rcases List.mem_cons.1 mem with rfl | mem
    · exact spent
    · exact ih spent x mem

theorem play_spent {script : List Step} {w : State} (hs : Spent l w) :
    ∀ x ∈ play script w, Spent l x.2 :=
  trace_spent hs

/-- Two declares are outstanding when the link closes, and whoever waits for the first one raises. The
other one is not told, and closing the link once more does not help. -/
example : (play [.request (.establish 0) "open" [] [], .action (.remoteOpen none),
    .request (.declare 0 0) "first" [] [.action (.raise (.general "handler"))],
    .request (.declare 0 1) "second" [] [], .action (.remoteClose none none),
    .action (.close 0)] (linkWorld "link" [default, default])).getLast?.map
      (fun x => x.2.client.completions.toList.map (·.isSettled)) = some [true, true, false] := by
  decide +kernel

end Script

end Transact
