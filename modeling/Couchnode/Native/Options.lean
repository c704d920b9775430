import Couchnode.Native.Exception

/-!
# Option slots

`ParamSlot` and the slot types built on it: how one option is read from an options object,
judged and stored. A record of options is parsed by a list of `ParamSlot`s over that record,
in the order the source lists them; parsing stops at the first option that is wrong.

A slot is a status and a value. `undefined`, `null` and `false` are not errors for the
numeric, CAS and callback slots: they leave the value alone with status `falseVal`, which
counts as not found.
-/

set_option autoImplicit false

namespace Couchnode

/-! ## Names -/

namespace NameMap

def expiry : String := "expiry"
def cas : String := "cas"
def initial : String := "initial"
def locktime : String := "locktime"
def flags : String := "flags"
def value : String := "value"
def arithOffset : String := "offset"
def persistTo : String := "persist_to"
def replicateTo : String := "replicate_to"
def timeout : String := "timeout"
def spooled : String := "spooled"
def err : String := "error"
def isDelete : String := "is_delete"
def obsTtp : String := "ttp"
def obsTtr : String := "ttr"
def obsCode : String := "status"
def obsIsMaster : String := "from_master"
def durPersistedMaster : String := "persisted_master"
def durFoundMaster : String := "found_master"
def durNPersisted : String := "persisted"
def durNReplicated : String := "replicated"
def httpPath : String := "path"
def httpContent : String := "data"
def httpContentType : String := "content_type"
def httpMethod : String := "method"
def httpType : String := "lcb_http_type"
def httpStatus : String := "status"
def fmtJson : String := "json"
def fmtRaw : String := "raw"
def fmtUtf8 : String := "utf8"
def fmtAuto : String := "auto"
def fmtType : String := "format"
def hashkey : String := "hashkey"

end NameMap

/-! ## CAS objects -/

namespace Cas

/-- The eight bytes of a 64-bit value, least significant first. -/
def toBytes (cas : Nat) : List UInt8 :=
  (List.range 8).map fun i => UInt8.ofNat (cas / 256 ^ i)

def ofBytes (bs : List UInt8) : Nat :=
  bs.foldr (fun b acc => b.toNat + 256 * acc) 0

@[simp] theorem toBytes_length (cas : Nat) : (toBytes cas).length = 8 := by simp [toBytes]

/-- `CreateCas`: an object over the value, as two 32-bit elements. -/
def createCas (cas : Nat) : Value := .external .unsignedInt (toBytes cas)

/-- How `GetCas` ends. -/
inductive Got where
  | notCas
  | cas (c : Nat)
  /-- Eight bytes were read where the object has fewer. -/
  | overread

/-- `GetCas`: the number of elements is checked, their size is not. -/
def getCas (v : Value) : Got :=
  if !v.isObject then .notCas
  else if v.externalArrayDataLength ≠ 2 then .notCas
  else
    match v.externalArray with
    | some (_, bs) => if bs.length < 8 then .overread else .cas (ofBytes (bs.take 8))
    | none => .notCas

end Cas

/-! ## Slots -/

inductive ParseStatus where
  | empty | error | found | falseVal
  deriving DecidableEq

/-- One option: its status and its value. -/
structure Slot (α : Type) where
  status : ParseStatus := .empty
  v : α

namespace Slot

variable {α : Type}

def isFound (s : Slot α) : Bool := s.status = .found

def forceIsFound (s : Slot α) : Slot α := { s with status := .found }

end Slot

/-- What parsing leaves: the parsed object, or the object so far with the complaint that
    stopped it. -/
inductive Parsed (α : Type) where
  | ok (a : α)
  | bad (a : α) (c : Complaint)
  | fault

/-- The integer types of the numeric slots. -/
inductive IntType where
  | int32 | uint32 | int64 | uint64
  deriving DecidableEq

namespace IntType

/-- `(T)tmp` for a 64-bit `tmp`. -/
def cast : IntType → Int → Int
  | int32, t => t.bmod (2 ^ 32)
  | uint32, t => t % 2 ^ 32
  | int64, t => t.bmod (2 ^ 64)
  | uint64, t => t % 2 ^ 64

/-- `(int64_t)v` for a value of the type. -/
def toInt64 (_ : IntType) (v : Int) : Int := v.bmod (2 ^ 64)

end IntType

/-- `maybeSetFalse`. -/
def maybeSetFalse (v : Value) : Bool := v.isUndefined || v.isNull || v.isFalse

namespace NumericSlot

/-- `NumericSlot<T>::parseValue`. -/
def parseValue (t : IntType) (value : Value) (s : Slot Int) : Parsed (Slot Int) :=
  if maybeSetFalse value then .ok { s with status := .falseVal }
  else
    match value with
    | .number n =>
      let tmp := n.integerValue
      let v := t.cast tmp
      if t.toInt64 v ≠ tmp then
        .bad { v := v, status := .error } (.eArguments "Overflow detected" (some value))
      else .ok { v := v, status := .found }
    | _ => .bad { s with status := .error } (.eArguments "Not a number" (some value))

end NumericSlot

/-- `CasSlot::parseValue`. -/
def CasSlot.parseValue (value : Value) (s : Slot Nat) : Parsed (Slot Nat) :=
  if maybeSetFalse value then .ok { s with status := .falseVal }
  else
    match Cas.getCas value with
    | .notCas => .bad s (.eArguments "Bad CAS" (some value))
    | .overread => .fault
    | .cas c => .ok { v := c, status := .found }

def BooleanOption.parseValue (value : Value) (_ : Slot Bool) : Parsed (Slot Bool) :=
  .ok { v := value.truthy, status := .found }

def CallableOption.parseValue (value : Value) (s : Slot (Option Value)) :
    Parsed (Slot (Option Value)) :=
  if maybeSetFalse value then .ok { s with status := .falseVal }
  else if !value.isFunction then
    .bad { s with status := .error } (.eArguments "Expected callback" (some value))
  else .ok { v := some value, status := .found }

def V8ValueOption.parseValue (value : Value) (_ : Slot (Option Value)) :
    Parsed (Slot (Option Value)) :=
  .ok { v := some value, status := .found }

def StringOption.parseValue [Runtime] (value : Value) (s : Slot (Option Value)) :
    Parsed (Slot (Option Value)) :=
  if value.isNumber = false && value.isString = false then
    .bad { s with status := .error }
      (.eArguments "String option must be number or string" (some value))
  else .ok { v := some (.string value.toName), status := .found }

/-! ## Parsing an options object -/

/-- One named slot of an options record `O`. -/
structure ParamSlot (O : Type) where
  name : String
  parseValue : Value → O → Parsed O

namespace ParamSlot

variable {O α : Type}

/-- The slot `name` of `O`, kept in one field of the record. -/
def field (name : String) (get : O → Slot α) (set : O → Slot α → O)
    (parse : Value → Slot α → Parsed (Slot α)) : ParamSlot O where
  name := name
  parseValue := fun v o =>
    match parse v (get o) with
    | .ok s => .ok (set o s)
    | .bad s c => .bad (set o s) c
    | .fault => .fault

variable [Runtime]

/-- The loop of `parseAll`. -/
def parseSpecs (dict : Value) : List (ParamSlot O) → O → Parsed O
  | [], o => .ok o
  | cur :: specs, o =>
    match dict.getRealNamedProperty cur.name with
    | none => parseSpecs dict specs o
    | some val =>
      match cur.parseValue val o with
      | .ok o' => parseSpecs dict specs o'
      | .bad o' c => .bad o' c
      | .fault => .fault

/-- `ParamSlot::parseAll`: a missing, falsy or empty options object has no options. -/
def parseAll (dict : Option Value) (specs : List (ParamSlot O)) (o : O) : Parsed O :=
  match dict with
  | none => .ok o
  | some d =>
    if !d.isObject then
      if d.truthy then .bad o (.eArguments "Value passed is not an object" (some d)) else .ok o
    else if d.propertyNames.isEmpty then .ok o
    else parseSpecs d specs o

section Parse

variable {dict val : Value} {cur : ParamSlot O} {specs : List (ParamSlot O)} {o o' : O}

/-- An object with properties is searched. -/
theorem parseAll_object {p : String × Value} {ps : Props} :
    parseAll (some (.object (p :: ps))) specs o = parseSpecs (.object (p :: ps)) specs o := rfl

/-- An option that is there is read. -/
theorem parseSpecs_ok (hget : dict.getRealNamedProperty cur.name = some val)
    (hparse : cur.parseValue val o = .ok o') :
    parseSpecs dict (cur :: specs) o = parseSpecs dict specs o' := by
  rw [parseSpecs]
  simp only [hget, hparse]

/-- One that is not there is passed over. -/
theorem parseSpecs_none (hget : dict.getRealNamedProperty cur.name = none) :
    parseSpecs dict (cur :: specs) o = parseSpecs dict specs o := by
  rw [parseSpecs]
  simp only [hget]

omit [Runtime] in
/-- The slot `field` builds takes what its own parser takes. -/
theorem field_ok {name : String} {get : O → Slot α} {set : O → Slot α → O}
    {parse : Value → Slot α → Parsed (Slot α)} {slot : Slot α}
    (h : parse val (get o) = .ok slot) :
    (field name get set parse).parseValue val o = .ok (set o slot) := by
  simp only [field, h]

end Parse

end ParamSlot

end Couchnode
