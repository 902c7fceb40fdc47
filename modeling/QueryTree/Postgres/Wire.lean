import QueryTree.Json.Basic
import QueryTree.Postgres.Type
import QueryTree.Value.Text

/-!
# Binary parameters and cells

A value is bound in two steps. `Bound.ofValue` chooses the form in which it travels, given the type
of the parameter; `Bound.encode` writes that form, if the type takes it. In the other direction
`PgType.decode` reads a cell, and what cannot be read becomes NULL.

Numbers are big-endian. Dates count days and timestamps count microseconds from 2000-01-01; a time
counts microseconds from midnight. A fraction of a microsecond is cut off toward zero.
-/

namespace QueryTree

/-! ## Bytes -/

namespace Bytes

/-- The last `width` bytes of a number, the most significant first. -/
def ofNat : Nat → Nat → List UInt8
  | 0, _ => []
  | width + 1, n => ofNat width (n / 256) ++ [UInt8.ofNat (n % 256)]

/-- The number that bytes stand for, the most significant first. -/
def toNat (data : List UInt8) : Nat := data.foldl (fun n b => n * 256 + b.toNat) 0

/-- Two's complement in `width` bytes. -/
def ofInt (width : Nat) (n : Int) : List UInt8 := ofNat width (n % Nat.pow 256 width).toNat

/-- The signed number that the bytes are the two's complement of. -/
def toInt (data : List UInt8) : Int := Int.bmod (toNat data) (Nat.pow 256 data.length)

/-- The bytes of a text in UTF-8. -/
def ofText (s : String) : List UInt8 := s.toUTF8.toList

/-- Text, when the bytes are valid UTF-8. -/
def toText? (data : List UInt8) : Option String := String.fromUTF8? (ByteArray.mk data.toArray)

end Bytes

/-! ## Binding -/

/-- The forms in which a parameter travels. -/
inductive WireForm where
  | bool | int2 | int4 | int8 | float4 | float8 | text | bytea | date | time | timestamp
  | timestamptz
deriving DecidableEq, Repr

/-- The types that take a form: text goes into several, every other form into its own. -/
def WireForm.accepts (form : WireForm) (t : PgType) : Bool :=
  match form with
  | bool => t == .bool
  | int2 => t == .int2
  | int4 => t == .int4
  | int8 => t == .int8
  | float4 => t == .float4
  | float8 => t == .float8
  | text => t == .varchar || t == .text || t == .bpchar || t == .name || t == .unknown
  | bytea => t == .bytea
  | date => t == .date
  | time => t == .time
  | timestamp => t == .timestamp
  | timestamptz => t == .timestamptz

/-- A value in the form in which it travels. -/
inductive Bound where
  | null (form : WireForm)
  | bool (b : Bool)
  | int2 (n : Int16)
  | int4 (n : Int32)
  | int8 (n : Int64)
  | float4 (x : Float32)
  | float8 (x : Float)
  | text (s : String)
  | bytea (data : List UInt8)
  | date (d : Date)
  | time (t : Time)
  | timestamp (dt : DateTime)
  | timestamptz (dt : DateTime)

namespace Bound

/-- The form in which a bound value is sent. -/
def form : Bound → WireForm
  | null f => f
  | bool _ => .bool
  | int2 _ => .int2
  | int4 _ => .int4
  | int8 _ => .int8
  | float4 _ => .float4
  | float8 _ => .float8
  | text _ => .text
  | bytea _ => .bytea
  | date _ => .date
  | time _ => .time
  | timestamp _ => .timestamp
  | timestamptz _ => .timestamptz

/-- The form of a NULL: that of the type, or text where the type has none of its own. -/
def nullForm : PgType → WireForm
  | .bool => .bool
  | .int2 => .int2
  | .int4 => .int4
  | .int8 => .int8
  | .float4 => .float4
  | .float8 => .float8
  | .bytea => .bytea
  | .date => .date
  | .time => .time
  | .timestamp => .timestamp
  | .timestamptz => .timestamptz
  | _ => .text

/-- An integer within bounds, or the fault that says on which side it lies. -/
def narrow (low high : Int) (n : Int64) : Except Fault Int :=
  if high < n.toInt then .error (.other "number too large to fit in target type")
  else if n.toInt < low then .error (.other "number too small to fit in target type")
  else .ok n.toInt

/-- The form in which a value travels to a parameter of a type. Numbers follow the type where it has
a narrower form; everything else keeps its own form. -/
def ofValue (v : Value) (t : PgType) : Except Fault Bound :=
  match v with
  | .null => .ok (null (nullForm t))
  | .bool b => .ok (bool b)
  | .int n =>
    match t with
    | .int2 => do return int2 (Int16.ofInt (← narrow Int16.minValue.toInt Int16.maxValue.toInt n))
    | .int4 => do return int4 (Int32.ofInt (← narrow Int32.minValue.toInt Int32.maxValue.toInt n))
    | .float4 => .ok (float4 n.toFloat32)
    | .float8 => .ok (float8 (Float.ofInt n.toInt))
    | _ => .ok (int8 n)
  | .float x =>
    match t with
    | .float4 => .ok (float4 x.toFloat32)
    | _ => .ok (float8 x)
  | .text s => .ok (text s)
  | .bytes data => .ok (bytea data)
  | .date d => .ok (date d)
  | .time c => .ok (time c)
  | .dateTime dt =>
    match t with
    | .timestamptz => .ok (timestamptz dt)
    | _ => .ok (timestamp dt)
  | .record _ | .list _ | .rows _ | .source _ | .provider _ =>
    .error (.other s!"cannot bind {v.display} as a {t.typeName} parameter")

end Bound

/-! ## Encoding -/

/-- Why a bound value cannot be sent. -/
inductive EncodeError where
  /-- The type does not take the form. -/
  | rejected
  /-- The value is outside the range of the encoding. -/
  | tooLarge
deriving DecidableEq, Repr

namespace DateTime

/-- Nanoseconds since 2000-01-01, a leap second included. -/
def nanoseconds (dt : DateTime) : Int := dt.date.day * 86400000000000 + dt.time.nanoseconds

/-- Microseconds since 2000-01-01, cut off toward zero. -/
def microseconds (dt : DateTime) : Int := dt.nanoseconds.tdiv 1000

/-- The instant a number of microseconds after 2000-01-01, when its date is in range. -/
def ofMicroseconds? (n : Int) : Option DateTime := do
  let date ← Date.ofDay? (n.fdiv 86400000000)
  let rest := (n.fmod 86400000000).toNat
  let time ← Time.of? (rest / 1000000) (rest % 1000000 * 1000)
  return ⟨date, time⟩

end DateTime

/-- The time a number of microseconds after midnight, on a clock that goes round. -/
def Time.ofMicroseconds? (n : Int) : Option Time :=
  let rest := (n.fmod 86400000000).toNat
  Time.of? (rest / 1000000) (rest % 1000000 * 1000)

namespace Bound

/-- A timestamp as its microseconds, if these have 64 bits. -/
def encodeTimestamp (dt : DateTime) : Except EncodeError (Option (List UInt8)) :=
  if Int64.minValue.toInt ≤ dt.microseconds ∧ dt.microseconds ≤ Int64.maxValue.toInt then
    .ok (some (Bytes.ofInt 8 dt.microseconds))
  else .error .tooLarge

/-- The bytes of a bound value, or none for NULL. -/
def encode (b : Bound) (t : PgType) : Except EncodeError (Option (List UInt8)) :=
  if b.form.accepts t then
    match b with
    | null _ => .ok none
    | bool b => .ok (some [if b then 1 else 0])
    | int2 n => .ok (some (Bytes.ofInt 2 n.toInt))
    | int4 n => .ok (some (Bytes.ofInt 4 n.toInt))
    | int8 n => .ok (some (Bytes.ofInt 8 n.toInt))
    | float4 x => .ok (some (Bytes.ofNat 4 x.toBits.toNat))
    | float8 x => .ok (some (Bytes.ofNat 8 x.toBits.toNat))
    | text s => .ok (some (Bytes.ofText s))
    | bytea data => .ok (some data)
    | date d => .ok (some (Bytes.ofInt 4 d.day))
    | time c => .ok (some (Bytes.ofInt 8 (c.nanoseconds / 1000)))
    | timestamp dt => encodeTimestamp dt
    | timestamptz dt => encodeTimestamp dt
  else .error .rejected

end Bound

/-! ## Decoding -/

namespace PgType

/-- Bytes of exactly this length. -/
def ofLength (n : Nat) (data : List UInt8) : Option (List UInt8) :=
  if data.length = n then some data else none

/-- JSON text in its compact form. -/
def decodeJson? (data : List UInt8) : Option Value := do
  let text ← Bytes.toText? data
  let j ← Json.parse? text
  return .text j.render

/-- The value of a cell, when it can be read. -/
def decode? (t : PgType) (data : List UInt8) : Option Value :=
  match t with
  | .bool => do return .bool (Bytes.toNat (← ofLength 1 data) ≠ 0)
  | .int2 => do return .int (Int64.ofInt (Bytes.toInt (← ofLength 2 data)))
  | .int4 => do return .int (Int64.ofInt (Bytes.toInt (← ofLength 4 data)))
  | .int8 => do return .int (Int64.ofInt (Bytes.toInt (← ofLength 8 data)))
  | .float4 => do
    return .float (Float32.ofBits (UInt32.ofNat (Bytes.toNat (← ofLength 4 data)))).toFloat
  | .float8 => do return .float (Float.ofBits (UInt64.ofNat (Bytes.toNat (← ofLength 8 data))))
  | .bytea => some (.bytes data)
  | .date => do return .date (← Date.ofDay? (Bytes.toInt (← ofLength 4 data)))
  | .time => do return .time (← Time.ofMicroseconds? (Bytes.toInt (← ofLength 8 data)))
  | .timestamp | .timestamptz => do
    return .dateTime (← DateTime.ofMicroseconds? (Bytes.toInt (← ofLength 8 data)))
  | .json => decodeJson? data
  | .jsonb =>
    match data with
    | 1 :: data => decodeJson? data
    | _ => none
  | .text | .varchar | .bpchar | .name | .unknown => (Bytes.toText? data).map Value.text
  | .numeric | .money | .uuid | .other _ => none

/-- The value of a cell; an absent cell and one that cannot be read are NULL. -/
def decode (t : PgType) (cell : Option (List UInt8)) : Value :=
  ((cell.bind t.decode?)).getD .null

end PgType

end QueryTree
