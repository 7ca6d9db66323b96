import Transact.Problem
import Transact.Text.Blank

/-! # Presettling

When a producer sends without waiting for an acknowledgement, and when a consumer asks for
deliveries that need none. Each case has a switch, which can be set by name, alone or from a list
of properties whose keys carry a qualifier. -/

namespace Transact

/-! ## Destinations -/

/-- The kinds of destinations. -/
inductive DestinationKind where
  | queue
  | topic
deriving DecidableEq, Inhabited

/-- Where messages are sent to or received from. -/
structure Destination where
  name : String
  kind : DestinationKind := .queue
deriving DecidableEq, Inhabited

namespace Presettling

/-! ## Switches -/

/-- The cases in which messages may be presettled. -/
inductive Switch where
  | all
  | producers
  | topicProducers
  | queueProducers
  | transactedProducers
  | consumers
  | topicConsumers
  | queueConsumers
deriving DecidableEq, Inhabited

namespace Switch

/-- All switches in the order in which they are listed. -/
def list : List Switch :=
  [all, producers, topicProducers, queueProducers, transactedProducers, consumers, topicConsumers,
    queueConsumers]

/-- The name of a switch among the properties. -/
def name : Switch → String
  | all => "presettleAll"
  | producers => "presettleProducers"
  | topicProducers => "presettleTopicProducers"
  | queueProducers => "presettleQueueProducers"
  | transactedProducers => "presettleTransactedProducers"
  | consumers => "presettleConsumers"
  | topicConsumers => "presettleTopicConsumers"
  | queueConsumers => "presettleQueueConsumers"

/-- The switch of this name. -/
def ofName? (name : String) : Option Switch := list.find? (·.name = name)

/-- The switch that a property names: its key is the qualifier followed by the name. -/
def ofKey? (qualifier key : String) : Option Switch := list.find? (qualifier ++ ·.name = key)

end Switch

/-- The value of a flag: the word in any case, with blanks around it. No letter beyond ASCII has a
letter of the two words for its lower case. -/
def flag? (text : String) : Option Bool :=
  match String.ofList ((Text.trim text.toList).map Char.toLower) with
  | "true" => some true
  | "false" => some false
  | _ => none

end Presettling

/-! ## Policies -/

/-- A policy is the set of switches that are on. -/
structure Presettling where
  isOn : Presettling.Switch → Bool := fun _ => false

namespace Presettling

instance : Inhabited Presettling := ⟨{}⟩

/-- Sets one switch. -/
def set (s : Switch) (b : Bool) (p : Presettling) : Presettling :=
  ⟨fun x => if x = s then b else p.isOn x⟩

/-- The switches that are on, in the order of the list of switches. -/
def switches (p : Presettling) : List Switch := Switch.list.filter p.isOn

/-- The switch for queues or the switch for topics, whichever the destination is. -/
def isOnFor (p : Presettling) (queue topic : Switch) : Option Destination → Bool
  | none => false
  | some d => match d.kind with
    | .queue => p.isOn queue
    | .topic => p.isOn topic

/-- Whether a producer sends presettled: to a destination, if it has one, in a session that is
transacted or not. -/
def forProducer (p : Presettling) (destination : Option Destination) (transacted : Bool) : Bool :=
  p.isOn .all || p.isOn .producers || (transacted && p.isOn .transactedProducers) ||
    p.isOnFor .queueProducers .topicProducers destination

/-- Whether a consumer asks for presettled deliveries. **A transacted session never does.** -/
def forConsumer (p : Presettling) (destination : Option Destination) (transacted : Bool) : Bool :=
  !transacted && (p.isOn .all || p.isOn .consumers ||
    p.isOnFor .queueConsumers .topicConsumers destination)

/-! ## Properties -/

/-- The qualifier of the properties that concern presettling, unless another one is given. -/
def qualifier : String := "presettlePolicy."

/-- The key under which nothing can be kept in a set of properties. -/
def reservedKey : String := "__proto__"

/-- Sets the switches that the properties name, in order, and returns the properties that name none.
It stops at the first flag that is neither true nor false; what was set before stays set. -/
def configure (qualifier : String) :
    List (String × String) → Presettling →
      Except Problem (List (String × String)) × Presettling
  | [], p => (.ok [], p)
  | (key, value) :: rest, p =>
    match Switch.ofKey? qualifier key with
    | some s => match flag? value with
      | some b => configure qualifier rest (p.set s b)
      | none => (.error (.flagExpected key value), p)
    | none =>
      let (result, p) := configure qualifier rest p
      (result.map fun unused => if key = reservedKey then unused else (key, value) :: unused, p)

end Presettling

end Transact
