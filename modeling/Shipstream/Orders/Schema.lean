import Shipstream.Protobuf.Evolution

/-! The two published versions of the Order message, as descriptors and as the
typed objects the generated classes present. Version 2 deletes field 7 and reserves its number. -/
namespace Shipstream.Orders
open Protobuf

/-- google.protobuf.Timestamp. -/
def timestamp : FieldType :=
  .message ⟨[1, 2], by decide, by decide⟩ fun
    | 1 => .int64   -- seconds
    | _ => .int32   -- nanos

/-- order/v1/order.proto -/
def orderV1 : Schema where
  declared := ⟨[1, 2, 3, 4, 5, 6, 7], by decide, by decide⟩
  type
    | 1 => .string   -- id
    | 2 => .string   -- customer_id
    | 3 => .string   -- item
    | 4 => .double   -- amount
    | 5 => .enum     -- status
    | 6 => timestamp -- created_at
    | _ => .string   -- region

/-- order/v2/order.proto: `reserved 7`, so the number stays undeclared. -/
def orderV2 : Schema where
  declared := ⟨[1, 2, 3, 4, 5, 6], by decide, by decide⟩
  type
    | 1 => .string   -- id
    | 2 => .string   -- customer_id
    | 3 => .string   -- item
    | 4 => .double   -- amount
    | 5 => .enum     -- status
    | _ => timestamp -- created_at

structure Timestamp where
  seconds : BitVec 64
  nanos : BitVec 32
  deriving DecidableEq, Repr

/-- `OrderStatus` in both versions; an Order may carry any other int32 as well. -/
inductive OrderStatus where
  | unspecified
  | created
  | paid
  | fulfilled
  | cancelled
  deriving DecidableEq, Repr

def OrderStatus.name : OrderStatus → String
  | .unspecified => "ORDER_STATUS_UNSPECIFIED"
  | .created => "ORDER_STATUS_CREATED"
  | .paid => "ORDER_STATUS_PAID"
  | .fulfilled => "ORDER_STATUS_FULFILLED"
  | .cancelled => "ORDER_STATUS_CANCELLED"

/-- The map `{v: k for k, v in OrderStatus.items()}` of every reader, as a lookup. -/
def statusName (status : BitVec 32) : Option String :=
  match status.toNat with
  | 0 => some OrderStatus.unspecified.name
  | 1 => some OrderStatus.created.name
  | 2 => some OrderStatus.paid.name
  | 3 => some OrderStatus.fulfilled.name
  | 4 => some OrderStatus.cancelled.name
  | _ => none

namespace V2

/-- order.v2.Order. The amount is the bit pattern of its double. -/
structure Order where
  id : String
  customerId : String
  item : String
  amount : BitVec 64
  status : BitVec 32
  createdAt : Option Timestamp
  deriving DecidableEq, Repr

end V2

namespace V1

/-- order.v1.Order: the fields of version 2 and the region. -/
structure Order extends V2.Order where
  region : String
  deriving DecidableEq, Repr

end V1

/-! Reading an absent field yields its default; `created_at` alone may be unset. -/

def stringField (m : Message) (n : Nat) : String :=
  match m.fields n with
  | some (.string s) => s
  | _ => ""

def doubleField (m : Message) (n : Nat) : BitVec 64 :=
  match m.fields n with
  | some (.double bits) => bits
  | _ => 0

def enumField (m : Message) (n : Nat) : BitVec 32 :=
  match m.fields n with
  | some (.enum k) => k
  | _ => 0

def Timestamp.ofFields (fields : Nat → Option Value) : Timestamp where
  seconds := match fields 1 with
    | some (.int64 k) => k
    | _ => 0
  nanos := match fields 2 with
    | some (.int32 k) => k
    | _ => 0

def timestampField (m : Message) (n : Nat) : Option Timestamp :=
  match m.fields n with
  | some (.message fields _) => some (.ofFields fields)
  | _ => none

def Timestamp.fields (t : Timestamp) : Nat → Option Value
  | 1 => (Value.int64 t.seconds).stored
  | 2 => (Value.int32 t.nanos).stored
  | _ => none

def Timestamp.toValue (t : Timestamp) : Value := .message t.fields []

def V2.Order.ofMessage (m : Message) : V2.Order where
  id := stringField m 1
  customerId := stringField m 2
  item := stringField m 3
  amount := doubleField m 4
  status := enumField m 5
  createdAt := timestampField m 6

def V1.Order.ofMessage (m : Message) : V1.Order where
  toOrder := V2.Order.ofMessage m
  region := stringField m 7

/-- The message of an Order built in Python: no unknown fields. -/
def V2.Order.toMessage (o : V2.Order) : Message where
  fields
    | 1 => (Value.string o.id).stored
    | 2 => (Value.string o.customerId).stored
    | 3 => (Value.string o.item).stored
    | 4 => (Value.double o.amount).stored
    | 5 => (Value.enum o.status).stored
    | 6 => o.createdAt.map Timestamp.toValue
    | _ => none
  unknown := []

end Shipstream.Orders
