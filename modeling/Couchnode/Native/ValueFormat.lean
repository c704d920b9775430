import Couchnode.Lib.Prog
import Couchnode.Native.CommandList
import Couchnode.Native.Options

/-!
# `ValueFormat` — values to bytes and back

The state every validator of a command works on (`PState`: the process heap and the members
of the command that change while it is lowered), the primitive steps on it, and the codec
built from them: `toSpec`, `getAutoSpec`, `encode` and `decode`.

`PState.recorded` is a ghost: the errors reported so far, in order. The source keeps only
`err`. The branches the source has for a `WriteUtf8` that writes less than `Utf8Length`
bytes are left out: the buffer is always that long and the strings are well formed.
-/

set_option autoImplicit false

namespace Couchnode

/-- The heap and the members of a command that `initialize` and `process` write. -/
structure PState where
  heap : Heap := []
  bufs : BufferList := {}
  commands : CommandList
  err : CBExc := {}
  recorded : List Complaint := []
  cookieKeyOptions : Option Props := none
  htType : Int := 0

variable [Runtime]

namespace PState

/-- Report an error and go on. -/
def record (c : Complaint) : Prog PState Unit :=
  Prog.modify fun s => { s with err := s.err.record c, recorded := s.recorded ++ [c] }

/-- Report the error a helper ended with, if it did. -/
def recordIf : Option Complaint → Prog PState Unit
  | some c => record c
  | none => pure ()

/-- Report an error and return `false`. -/
def fail {α : Type} (c : Complaint) : Prog PState α := do
  record c
  Prog.refuse

/-- The result of parsing an option or an options object. -/
def liftParsed {α : Type} : Parsed α → Prog PState α
  | .ok a => pure a
  | .bad _ c => fail c
  | .fault => Prog.fault

/-- `bufs.getBuffer(len)`. -/
def getBuffer (len : Nat) : Prog PState CharPtr := fun s =>
  match s.bufs.getBuffer len s.heap with
  | some (p, h, b) => .done p { s with heap := h, bufs := b }
  | none => .fault

/-- `WriteUtf8` and `memcpy` into a buffer. -/
def writeBytes (p : CharPtr) (bs : List UInt8) : Prog PState Unit := fun s =>
  match s.heap.writeBytes p bs with
  | some h => .done () { s with heap := h }
  | none => .fault

/-- `commands.getAt(ix)`. -/
def getAt (ix : Nat) : Prog PState CmdPtr := fun s =>
  match s.commands.getAt ix s.heap with
  | some (p, h) => .done p { s with heap := h }
  | none => .fault

/-- Assignments through the pointer `getAt` returned. -/
def assign (p : CmdPtr) (f : LcbCmd → LcbCmd) : Prog PState Unit := fun s =>
  match s.commands.update p f s.heap with
  | some (h, l) => .done () { s with heap := h, commands := l }
  | none => .fault

end PState

namespace ValueFormat

inductive Spec where
  | invalid | json | utf16 | raw | utf8 | auto
  deriving DecidableEq

def Spec.toInt : Spec → Int
  | invalid => -1
  | json => 0x00
  | utf16 => 0x01
  | raw => 0x02
  | utf8 => 0x04
  | auto => 0x777777

/-- The flags word a format is stored under. -/
def Spec.flags (s : Spec) : Nat := s.toInt.toNat

/-- `toSpec`, with the error it reports. -/
def toSpec (input : Option Value) : Spec × Option Complaint :=
  match input with
  | none => (.auto, none)
  | some (.string s) =>
    if s = NameMap.fmtAuto then (.auto, none)
    else if s = NameMap.fmtRaw then (.raw, none)
    else if s = NameMap.fmtJson then (.json, none)
    else if s = NameMap.fmtUtf8 then (.utf8, none)
    else (.invalid, some (.eArguments "Invalid format specifier" input))
  | some (.number n) =>
    let i := n.integerValue
    if i = Spec.auto.toInt then (.auto, none)
    else if i = Spec.json.toInt then (.json, none)
    else if i = Spec.utf8.toInt then (.utf8, none)
    else if i = Spec.utf16.toInt then (.utf16, none)
    else if i = Spec.raw.toInt then (.raw, none)
    else (.invalid, some (.eArguments "Unknown format specifier" input))
  | some v =>
    if !v.truthy then (.auto, none)
    else (.invalid, some (.eArguments "Specifier must be constant or string" none))

/-- `decode` -/
def decode (bytes : List UInt8) (flags : Nat) : Value :=
  if flags = Spec.utf8.flags then .string (Runtime.stringNew bytes)
  else if flags = Spec.raw.flags then .buffer bytes
  else if flags = Spec.json.flags then
    match Runtime.jsonParse (Runtime.stringNew bytes) with
    | .ok v => v
    | .error _ => .buffer bytes
  else .buffer bytes

def getAutoSpec (input : Value) : Spec :=
  if input.isString then .utf8
  else if input.isNumber || input.isArray then .json
  else if input.isObject then
    if input.isBuffer then .raw else .json
  else .utf8

/-- What `encode` hands back: `*flags`, `*k` and `*n`. -/
structure Encoded where
  flags : Nat
  ptr : CharPtr
  n : Nat

/-- The `UTF8` branch of `encode`, which the other formats call themselves. -/
def encodeUtf8 (input : Value) : Prog PState Encoded :=
  match input with
  | .string s =>
    let n := utf8Length s
    -- `returnEmptyString`: no buffer is asked for
    if n = 0 then pure { flags := Spec.utf8.flags, ptr := .lit "", n := 0 }
    else do
      let k ← PState.getBuffer n
      if k = .null then PState.fail (.eMemory "")
      else
        PState.writeBytes k (utf8 s)
        pure { flags := Spec.utf8.flags, ptr := k, n := n }
  | _ => PState.fail (.eArguments "Input not a string" (some input))

/-- `encodeNodeBuffer`; the test for an empty buffer has an empty body in the source. -/
def encodeNodeBuffer (bytes : List UInt8) : Prog PState Encoded := do
  let n := bytes.length
  let k ← PState.getBuffer n
  if k = .null then PState.fail (.eMemory "")
  else
    PState.writeBytes k bytes
    pure { flags := Spec.raw.flags, ptr := k, n := n }

/-- The branches of `encode`, for a format that is no longer automatic. -/
def encodeAs (v : Value) : Spec → Prog PState Encoded
  | .utf8 => encodeUtf8 v
  | .raw =>
    match v with
    | .buffer bytes => encodeNodeBuffer bytes
    | _ => do
      let e ← encodeUtf8 v
      pure { e with flags := Spec.raw.flags }
  | .json =>
    match Runtime.jsonStringify v with
    | .error ex => PState.fail (.eArguments "Couldn't convert to JSON" (some ex))
    | .ok ret => do
      let e ← encodeUtf8 ret
      pure { e with flags := Spec.json.flags }
  | _ => PState.fail (.eArguments "Can't parse spec" none)

/-- `encode`; an empty handle is dereferenced by every branch but the last one. -/
def encode (input : Option Value) (spec : Spec) : Prog PState Encoded :=
  if spec = .invalid then PState.fail (.eArguments "Passed an invalid specifier" none)
  else
    match input with
    | none => if spec = .utf16 then PState.fail (.eArguments "Can't parse spec" none) else Prog.fault
    | some v => encodeAs v (if spec = .auto then getAutoSpec v else spec)

end ValueFormat

end Couchnode
