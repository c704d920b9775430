import Couchnode.Lib.Assoc
import Mathlib.Algebra.Group.Int.Defs
import Mathlib.Algebra.Group.Nat.Defs
import Mathlib.Data.List.Sort

/-!
# The JavaScript values the binding sees

Every entry point of the binding takes JavaScript values and hands JavaScript values back.
This module is the part of V8 the sources rely on: the kinds of value they test for
(`IsString`, `IsNumber`, `IsObject`, ...), truthiness, integer conversion, named
properties, and the UTF-8 image of a string.

An empty `Handle<Value>` is `none : Option Value`; it is not the value `undefined`.
Finite numbers are exact rationals. A string is a well-formed Unicode string, so its UTF-8
image is the string's own byte array. The properties of an object are listed in the order
an enumeration meets them: V8 lists the names that are array indices first (`objectLiteral`).

`Runtime` holds what V8 and libcouchbase compute and the sources only pass on: the decimal
form of a number, the decoding of bytes into a string, `JSON.parse` and `JSON.stringify`,
and the text of an error code.
-/

set_option autoImplicit false

namespace Couchnode

/-- A JavaScript number. -/
inductive Num where
  | nan
  | inf (negative : Bool)
  | fin (q : Rat)
  deriving DecidableEq

namespace Num

/-- `q` without its fraction. -/
def truncate (q : Rat) : Int := q.num.tdiv q.den

/-- `static_cast<int64_t>` of a double: the truncated value, and the indefinite integer
    where that is no 64-bit value. -/
def integerValue : Num → Int
  | fin q =>
    if -2 ^ 63 ≤ truncate q ∧ truncate q < 2 ^ 63 then truncate q else -2 ^ 63
  | _ => -2 ^ 63

/-- `ToUint32`. -/
def uint32Value : Num → Nat
  | fin q => (truncate q % 2 ^ 32).toNat
  | _ => 0

/-- A number is false when it is zero or not a number. -/
def truthy : Num → Bool
  | nan => false
  | inf _ => true
  | fin q => q ≠ 0

end Num

/-- The element types of an external array. -/
inductive ExternalArrayType where
  | byte | unsignedByte | short | unsignedShort | int | unsignedInt | float | double | pixel
  deriving DecidableEq

/-- Bytes in one element. -/
def ExternalArrayType.elementSize : ExternalArrayType → Nat
  | .byte | .unsignedByte | .pixel => 1
  | .short | .unsignedShort => 2
  | .int | .unsignedInt | .float => 4
  | .double => 8

/-- A JavaScript value, as far as the binding can tell values apart. -/
inductive Value where
  | undefined
  | null
  | bool (b : Bool)
  | number (n : Num)
  | string (s : String)
  | function (id : Nat)
  | array (elems : List Value)
  | object (props : List (String × Value))
  /-- An `Error` with its message and the properties set on it. -/
  | error (message : String) (props : List (String × Value))
  /-- A node `Buffer`. -/
  | buffer (bytes : List UInt8)
  /-- An object backed by an external array over `data`. -/
  | external (type : ExternalArrayType) (data : List UInt8)

/-- The properties of a plain object, in enumeration order. -/
abbrev Props := List (String × Value)

/-- What V8 and libcouchbase compute and the binding passes on. -/
class Runtime where
  /-- `ToString` of a number. -/
  numberToString : Num → String
  /-- `ToString` of an object. -/
  objectToString : Value → String
  /-- `ToNumber` of a value that is no number. -/
  toNumber : Value → Num
  /-- The double nearest to a 64-bit counter. -/
  ofUInt64 : Nat → Num
  /-- `String::New(bytes, n)`. -/
  stringNew : List UInt8 → String
  /-- One element of an external array, from its bytes. -/
  elementValue : ExternalArrayType → List UInt8 → Value
  /-- `JSON.stringify`, an error being the exception it throws. -/
  jsonStringify : Value → Except Value Value
  /-- `JSON.parse` of a string, an error being the exception it throws. -/
  jsonParse : String → Except Value Value
  /-- `lcb_strerror`. -/
  lcbStrerror : Int → String

/-- The bytes `WriteUtf8` produces for a string. -/
def utf8 (s : String) : List UInt8 := s.toByteArray.data.toList

/-- `String::Utf8Length`. -/
def utf8Length (s : String) : Nat := (utf8 s).length

/-- The properties every plain object inherits. -/
def objectPrototype : List String :=
  ["constructor", "toString", "toLocaleString", "valueOf", "hasOwnProperty",
   "isPrototypeOf", "propertyIsEnumerable", "__defineGetter__", "__lookupGetter__",
   "__defineSetter__", "__lookupSetter__"]

/-- Inherited properties are built-in functions. -/
def inheritedProperty (name : String) : Option Value :=
  if name ∈ objectPrototype then some (.function 0) else none

/-- What `Has` and `Get` find beside the own properties of an object: the inherited ones, and
    `__proto__`, which is no real property. -/
def prototypeHas (name : String) : Bool := name ∈ objectPrototype || name = "__proto__"

/-- Elements under their index names. -/
def indexed (elems : List Value) : Props :=
  elems.zipIdx.map fun p => (toString p.2, p.1)

namespace Value

def isUndefined : Value → Bool
  | undefined => true
  | _ => false

def isNull : Value → Bool
  | null => true
  | _ => false

def isFalse : Value → Bool
  | bool b => !b
  | _ => false

def isNumber : Value → Bool
  | number _ => true
  | _ => false

def isString : Value → Bool
  | string _ => true
  | _ => false

def isFunction : Value → Bool
  | function _ => true
  | _ => false

def isArray : Value → Bool
  | array _ => true
  | _ => false

/-- `IsObject`: everything with properties, functions and arrays included. -/
def isObject : Value → Bool
  | undefined | null | bool _ | number _ | string _ => false
  | _ => true

/-- `BooleanValue`. -/
def truthy : Value → Bool
  | undefined | null => false
  | bool b => b
  | number n => n.truthy
  | string s => s ≠ ""
  | _ => true

/-- `node::Buffer::HasInstance`. -/
def isBuffer : Value → Bool
  | buffer _ => true
  | _ => false

section

variable [Runtime]

/-- `ToString`; it is also the name a value turns into when it is used as a property. -/
def toName : Value → String
  | undefined => "undefined"
  | null => "null"
  | bool true => "true"
  | bool false => "false"
  | number n => Runtime.numberToString n
  | string s => s
  | v => Runtime.objectToString v

/-- `ToNumber`, `NumberValue`. -/
def toNum : Value → Num
  | number n => n
  | v => Runtime.toNumber v

/-- `Uint32Value`. -/
def uint32Value : Value → Nat
  | number n => n.uint32Value
  | v => (Runtime.toNumber v).uint32Value

/-- The elements of an external array, cut from its bytes; `fuel` bounds their number. -/
def elementsOf (type : ExternalArrayType) : Nat → List UInt8 → List Value
  | 0, _ => []
  | fuel + 1, data =>
    if data.length < type.elementSize then []
    else Runtime.elementValue type (data.take type.elementSize) ::
      elementsOf type fuel (data.drop type.elementSize)

/-- The enumerable properties with their values: what `GetPropertyNames` lists and `Get`
    reads. -/
def entries : Value → Props
  | object ps => ps
  | error _ ps => ps
  | array vs => indexed vs
  | buffer bs => indexed (bs.map fun b => number (.fin b.toNat))
  | external t bs => indexed (elementsOf t bs.length bs)
  | _ => []

/-- `GetPropertyNames`. -/
def propertyNames (v : Value) : List String := v.entries.map Prod.fst

/-- `Get` on an own property; an absent one reads as `undefined`. -/
def getProperty (v : Value) (name : String) : Value := (v.entries.lookup name).getD undefined

/-- `GetRealNamedProperty`: own first, then inherited. -/
def getRealNamedProperty (v : Value) (name : String) : Option Value :=
  (v.entries.lookup name).or (inheritedProperty name)

end

/-- The external array behind a value, if it has one: a `Buffer` is backed by bytes. -/
def externalArray : Value → Option (ExternalArrayType × List UInt8)
  | external t bs => some (t, bs)
  | buffer bs => some (.unsignedByte, bs)
  | _ => none

/-- `GetIndexedPropertiesExternalArrayDataLength`, in elements; -1 without external data. -/
def externalArrayDataLength (v : Value) : Int :=
  match v.externalArray with
  | some (t, bs) => (bs.length / t.elementSize : Nat)
  | none => -1

end Value

/-- A decimal numeral read as a number. -/
def numeral (digits : List Char) : Nat := digits.foldl (fun n c => 10 * n + (c.toNat - '0'.toNat)) 0

/-- The names V8 enumerates first, in ascending order: decimal numerals without leading zeros. -/
def isArrayIndex (name : String) : Bool :=
  match name.toList with
  | [] => false
  | c :: cs => (c :: cs).all Char.isDigit && (c ≠ '0' || cs.isEmpty) && numeral (c :: cs) < 2 ^ 32 - 1

/-- An object with these properties set on it one after the other. -/
def objectLiteral (ps : Props) : Value :=
  let ps := Assoc.writes ps []
  .object ((ps.filter fun p => isArrayIndex p.1).insertionSort
      (fun p q => numeral p.1.toList ≤ numeral q.1.toList) ++
    ps.filter fun p => !isArrayIndex p.1)

/-- A property dictionary after `ForceSet`. -/
abbrev forceSet (name : String) (v : Value) (ps : Props) : Props := Assoc.set name v ps

end Couchnode
