import Transact.Identity
import Transact.Roll

/-! # Enrolment

The consumers and producers that took part in a transaction, in the order of their first enrolment.
A member is known by the text of its name: one that enrols again keeps its place, but what is held
for it is replaced. -/

namespace Transact

/-- The consumers and producers enrolled in the current transaction. -/
structure Registry (γ π : Type) where
  consumers : Roll String γ := {}
  producers : Roll String π := {}
deriving Inhabited

namespace Registry

variable {γ π : Type}

/-- Enrols a consumer under the text of its name. -/
def enrolConsumer (id : MemberId) (c : γ) (r : Registry γ π) : Registry γ π :=
  { r with consumers := r.consumers.put id.text c }

/-- Enrols a producer under the text of its name. -/
def enrolProducer (id : MemberId) (p : π) (r : Registry γ π) : Registry γ π :=
  { r with producers := r.producers.put id.text p }

/-- Whether a member of this name and kind is enrolled. -/
def has (id : MemberId) (r : Registry γ π) : Bool :=
  match id.kind with
  | .consumer => r.consumers.has id.text
  | .producer => r.producers.has id.text

/-- Whether nobody is enrolled. -/
def isEmpty (r : Registry γ π) : Bool := r.consumers.isEmpty && r.producers.isEmpty

end Registry

end Transact
