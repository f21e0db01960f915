import Shipstream.Protobuf.Varint

/-! What the consumer client hands to a poll loop. -/
namespace Shipstream.Kafka
open Protobuf

/-- A record read back from a partition; a tombstone has no value. -/
structure Message where
  partition : Nat
  offset : Nat
  value : Option Bytes
  deriving DecidableEq, Repr

/-- The outcomes of one `consumer.poll(timeout)`. -/
inductive Polled where
  | timeout
  | eof (partition : Nat)
  | error (text : String)
  | message (m : Message)
  deriving DecidableEq, Repr

namespace Polled

/-- The partition a poll result speaks of. -/
def partition? : Polled → Option Nat
  | .eof p => some p
  | .message m => some m.partition
  | _ => none

def message? : Polled → Option Message
  | .message m => some m
  | _ => none

end Polled

/-- The messages among poll results, in order. -/
def messages (polls : List Polled) : List Message := polls.filterMap Polled.message?

/-- The partitions reported at their end among poll results. -/
def eofs (polls : List Polled) : Finset Nat := (polls.filterMap fun
  | .eof p => some p
  | _ => none).toFinset

@[simp] theorem messages_append (xs ys : List Polled) : messages (xs ++ ys) = messages xs ++ messages ys :=
  List.filterMap_append

@[simp] theorem mem_eofs {polls : List Polled} {p : Nat} : p ∈ eofs polls ↔ .eof p ∈ polls := by
  simp only [eofs, List.mem_toFinset, List.mem_filterMap]
  constructor
  · rintro ⟨polled, hm, he⟩
    cases polled <;> simp at he
    exact he ▸ hm
  · intro h
    exact ⟨_, h, rfl⟩

/-- Taking the messages of one partition commutes with taking its poll results. -/
theorem messages_filter (polls : List Polled) (p : Nat) :
    messages (polls.filter fun polled => polled.partition? = some p) =
      (messages polls).filter fun m => m.partition = p := by
  rw [messages, messages, List.filterMap_filter, List.filter_filterMap]
  congr 1
  funext polled
  cases polled <;> simp [Polled.message?, Polled.partition?, Option.filter]

/-- Where a group resumes: the committed offset, or `auto.offset.reset = earliest`. -/
def resumeAt (committed : Option Nat) : Nat := committed.getD 0

/-- `deserializer(value, ctx)`: raises with a text, or returns an object or None. -/
abbrev Deserializer (α : Type) := Option Bytes → Except String (Option α)

end Shipstream.Kafka
