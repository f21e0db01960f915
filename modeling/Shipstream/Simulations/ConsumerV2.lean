import Shipstream.Kafka.Poll
import Shipstream.Orders.Schema

/-! simulations/consumer_v2.py: ten Orders read with version 2 of the schema. -/
namespace Shipstream.Simulations.ConsumerV2
open Kafka Orders

/-- The columns of a printed order. -/
structure OrderRow where
  partition : Nat
  offset : Nat
  id : String
  customerId : String
  item : String
  amount : BitVec 64
  status : String
  deriving DecidableEq, Repr

def orderRow (m : Message) (order : V2.Order) : OrderRow where
  partition := m.partition
  offset := m.offset
  id := String.ofList (order.id.toList.take 8)
  customerId := order.customerId
  item := order.item
  amount := order.amount
  status := (statusName order.status).getD "UNKNOWN"

inductive Line where
  | error (text : String)
  | order (row : OrderRow)
  deriving DecidableEq, Repr

/-- The printed text. `money` is Python's two-decimal format of a double. -/
def Line.text (money : BitVec 64 → String) : Line → String
  | .error text => "[ERROR] " ++ text
  | .order row =>
    "partition=" ++ toString row.partition ++ " offset=" ++ toString row.offset ++ " | id=" ++ row.id ++
      "... customer=" ++ row.customerId ++ " item='" ++ row.item ++ "' amount=$" ++ money row.amount ++
      " status=" ++ row.status

/-- The line after the loop. -/
def closingLine (read : Nat) : String :=
  "\n[v2-consumer] Done — " ++ toString read ++ " messages read. No errors despite region bytes in old messages."

/-- Where the loop stands at the end of a finite trace. -/
inductive Ending where
  | polling
  | done (closing : String)
  | raised (error : String)
  deriving DecidableEq, Repr

structure Output where
  lines : List Line
  ending : Ending
  deriving DecidableEq, Repr

def Output.print (line : Line) (output : Output) : Output := { output with lines := line :: output.lines }

/-- `while read < 10`. Neither the deserializer nor the use of its result is guarded. -/
def pollLoop (deserializer : Deserializer V2.Order) (read : Nat) : List Polled → Output
  | [] => ⟨[], if read < 10 then .polling else .done (closingLine read)⟩
  | polled :: rest =>
    if read < 10 then
      match polled with
      | .timeout => pollLoop deserializer read rest
      | .eof _ => pollLoop deserializer read rest
      | .error text => (pollLoop deserializer read rest).print (.error text)
      | .message m =>
        match deserializer m.value with
        | .error text => ⟨[], .raised text⟩
        | .ok none => ⟨[], .raised "'NoneType' object has no attribute 'id'"⟩
        | .ok (some order) => (pollLoop deserializer (read + 1) rest).print (.order (orderRow m order))
    else ⟨[], .done (closingLine read)⟩

def main (deserializer : Deserializer V2.Order) (trace : List Polled) : Output := pollLoop deserializer 0 trace

def Line.row? : Line → Option OrderRow
  | .order row => some row
  | _ => none

/-- The order rows among the printed lines. -/
def Output.rows (output : Output) : List OrderRow := output.lines.filterMap Line.row?

end Shipstream.Simulations.ConsumerV2
