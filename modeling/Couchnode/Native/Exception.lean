import Couchnode.V8.Value

/-!
# `CBExc` — the error a request carries

A request owns one `CBExc`. Every validator that rejects it calls one of the `e*` methods,
and the methods leave an exception that is already set alone, so the object ends up holding
the *first* error however many are reported after it. `Complaint` names the calls, so that
a run can be read as the list of errors it reported; `CBExc.record_set` is the latch.
-/

set_option autoImplicit false

namespace Couchnode

namespace ErrorCode

def BEGIN : Int := 0x1000
def MEMORY : Int := 0x1001
def ARGUMENTS : Int := 0x1002
def INTERNAL : Int := 0x1003
def CHECK_RESULTS : Int := 0x1005
def DURABILITY_FAILED : Int := 0x1007

end ErrorCode

/-- `LCB_SUCCESS`; every other `lcb_error_t` is a failure. -/
def LCB_SUCCESS : Int := 0

structure CBExc where
  message : String := ""
  code : Int := 0
  isSet : Bool := false
  atObject : Option Value := none

namespace CBExc

/-- A code below `BEGIN` is libcouchbase's own. -/
def isLcbError (cc : Int) : Bool := cc < ErrorCode.BEGIN

def setMessage (msg : String) (v : Option Value) (ex : CBExc) : CBExc :=
  { ex with message := msg, atObject := v }

variable [Runtime]

def assign (cc : Int) (msg : String) (ex : CBExc) : CBExc :=
  if ex.isSet then ex
  else
    { ex with
      message := if msg = "" && isLcbError cc then Runtime.lcbStrerror cc else msg
      code := cc
      isSet := true }

def eArguments (msg : String) (at_ : Option Value) (ex : CBExc) : CBExc :=
  if ex.isSet then ex else (ex.assign ErrorCode.ARGUMENTS "").setMessage msg at_

def eMemory (msg : String) (ex : CBExc) : CBExc := ex.assign ErrorCode.MEMORY msg

def eInternal (msg : String) (ex : CBExc) : CBExc := ex.assign ErrorCode.INTERNAL msg

def eLcb (err : Int) (ex : CBExc) : CBExc := ex.assign err ""

/-- The JavaScript error: the message, its `code`, and the offending value under `at`. -/
def asValue (ex : CBExc) : Value :=
  .error ex.message <| ("code", .number (.fin ex.code)) ::
    match ex.atObject with
    | some v => [("at", v)]
    | none => []

end CBExc

/-- One call of a `CBExc` method by a validator. -/
inductive Complaint where
  | eArguments (msg : String) (at_ : Option Value)
  | eMemory (msg : String)
  | eInternal (msg : String)

variable [Runtime]

def CBExc.record (ex : CBExc) : Complaint → CBExc
  | .eArguments msg at_ => ex.eArguments msg at_
  | .eMemory msg => ex.eMemory msg
  | .eInternal msg => ex.eInternal msg

/-- The exception a complaint makes on its own. -/
def Complaint.exc (c : Complaint) : CBExc := CBExc.record {} c

/-- An exception that is set keeps its first error. -/
theorem CBExc.record_set {ex : CBExc} (h : ex.isSet = true) (c : Complaint) :
    ex.record c = ex := by
  cases c with
  | eArguments msg at_ => simp [record, eArguments, h]
  | eMemory msg => simp [record, eMemory, assign, h]
  | eInternal msg => simp [record, eInternal, assign, h]

theorem Complaint.exc_isSet (c : Complaint) : c.exc.isSet = true := by
  cases c with
  | eArguments msg at_ => simp [exc, CBExc.record, CBExc.eArguments, CBExc.assign, CBExc.setMessage]
  | eMemory msg => simp [exc, CBExc.record, CBExc.eMemory, CBExc.assign]
  | eInternal msg => simp [exc, CBExc.record, CBExc.eInternal, CBExc.assign]

/-- The exception after a list of complaints, in the order they were made. -/
def firstError : List Complaint → CBExc
  | [] => {}
  | c :: _ => c.exc

/-- Recording one more complaint keeps the exception the first one's. -/
theorem firstError_record (cs : List Complaint) (c : Complaint) :
    (firstError cs).record c = firstError (cs ++ [c]) := by
  cases cs with
  | nil => rfl
  | cons c₀ cs => exact CBExc.record_set c₀.exc_isSet c

theorem firstError_isSet {cs : List Complaint} (h : cs ≠ []) :
    (firstError cs).isSet = true := by
  cases cs with
  | nil => exact absurd rfl h
  | cons c cs => exact c.exc_isSet

end Couchnode
