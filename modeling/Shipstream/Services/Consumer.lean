import Shipstream.Kafka.Poll
import Shipstream.Orders.Schema

/-! services/consumer.py: what one iteration of the poll loop prints. -/
namespace Shipstream.Services
open Kafka Orders

/-- The columns of a printed order; the region is shown when it is not empty. -/
structure OrderRow where
  partition : Nat
  offset : Nat
  id : String
  customerId : String
  item : String
  amount : BitVec 64
  status : String
  region : String
  deriving DecidableEq, Repr

def orderRow (m : Message) (order : V1.Order) : OrderRow where
  partition := m.partition
  offset := m.offset
  id := String.ofList (order.id.toList.take 8)
  customerId := order.customerId
  item := order.item
  amount := order.amount
  status := (statusName order.status).getD "UNKNOWN"
  region := order.region

inductive Line where
  | eof (partition : Nat)
  | error (text : String)
  | noneValue
  | undecodable (text : String)
  | order (row : OrderRow)
  deriving DecidableEq, Repr

/-- `TAG` of the process started with the given CONSUMER_ID. -/
def consumerTag (consumerId : String) : String := "[Consumer-" ++ consumerId ++ "]"

/-- The printed text. `money` is Python's two-decimal format of a double. -/
def Line.text (consumerId : String) (money : BitVec 64 → String) (line : Line) : String :=
  let tag := consumerTag consumerId
  match line with
  | .eof partition => tag ++ " [EOF] partition " ++ toString partition
  | .error text => tag ++ " [ERROR] " ++ text
  | .noneValue => tag ++ " [WARN] None value, skipping"
  | .undecodable text => tag ++ " [ERROR] Failed to deserialize: " ++ text
  | .order row =>
    tag ++ " partition=" ++ toString row.partition ++ " offset=" ++ toString row.offset ++ " | id=" ++
      row.id ++ "... customer=" ++ row.customerId ++ " item='" ++ row.item ++ "' amount=$" ++
      money row.amount ++ " status=" ++ row.status ++
      if row.region = "" then "" else " region=" ++ row.region

/-- How an iteration of the loop ends. -/
inductive Iteration where
  | silent
  | printed (line : Line)
  | raised (error : String)
  deriving DecidableEq, Repr

/-- The body of `while True` after `consumer.poll`. Only the deserializer call is
guarded by `except Exception`. -/
def iteration (deserializer : Deserializer V1.Order) : Polled → Iteration
  | .timeout => .silent
  | .eof partition => .printed (.eof partition)
  | .error text => .printed (.error text)
  | .message m =>
    match m.value with
    | none => .printed .noneValue
    | some raw =>
      match deserializer (some raw) with
      | .error text => .printed (.undecodable text)
      | .ok none => .raised "'NoneType' object has no attribute 'region'"
      | .ok (some order) => .printed (.order (orderRow m order))

/-- What a run of `main` over a finite trace has printed, and the exception that ended it. -/
structure Output where
  lines : List Line
  raised : Option String
  deriving DecidableEq, Repr

/-- `while True` over a trace of poll results. -/
def pollLoop (deserializer : Deserializer V1.Order) : List Polled → Output
  | [] => ⟨[], none⟩
  | polled :: rest =>
    match iteration deserializer polled with
    | .silent => pollLoop deserializer rest
    | .printed line =>
      let output := pollLoop deserializer rest
      ⟨line :: output.lines, output.raised⟩
    | .raised error => ⟨[], some error⟩

def Line.row? : Line → Option OrderRow
  | .order row => some row
  | _ => none

/-- The order rows among the printed lines. -/
def Output.rows (output : Output) : List OrderRow := output.lines.filterMap Line.row?

end Shipstream.Services
