import Couchnode.Lib.Double
import Couchnode.Native.Cookie

/-!
# `_Control` — the settings of a libcouchbase instance

`_Control` reads or changes one setting. A timeout is milliseconds to the application and a 32-bit
count of microseconds to libcouchbase: it is multiplied as a double on the way in, and divided as
an integer on the way out.

What libcouchbase does with a setting is an `Lcb`. The numbers of the modes are not modelled:
`_ctl` passes the constants the native side compares with.
-/

set_option autoImplicit false

namespace Couchnode

inductive CntlMode where
  | configurationTimeout | viewTimeout | httpTimeout | durabilityInterval | durabilityTimeout
  | opTimeout | wbufsize | rbufsize | vbmap | libcouchbaseVersion | clnodes | resturi | other
  deriving DecidableEq

/-- The modes that share the branch for timeouts. -/
def CntlMode.isTimeout : CntlMode → Bool
  | configurationTimeout | viewTimeout | httpTimeout | durabilityInterval | durabilityTimeout
  | opTimeout => true
  | _ => false

/-- `LCB_CNTL_GET` and `LCB_CNTL_SET`. -/
inductive CntlOption where
  | get | set | other
  deriving DecidableEq

/-- An instance of libcouchbase, as far as its settings go: `lcb_cntl` on a number, and what it
    and its siblings tell about the cluster. -/
structure Lcb (σ : Type) where
  set : CntlMode → Nat → σ → Int × σ
  get : CntlMode → σ → Int × Nat
  vbmap : Value → σ → Except Int Value
  info : CntlMode → σ → Value

/-- `n * 1000`, as doubles. -/
def Num.timesThousand : Num → Num
  | .fin q =>
    match Double.round (q * 1000) with
    | some r => .fin r
    | none => .inf (q < 0)
  | n => n

variable [Runtime] {σ : Type}

namespace Control

/-- `return exc.eArguments(msg).throwV8()` -/
def badArguments (msg : String) : Except Value Value :=
  .error (CBExc.eArguments msg none {}).asValue

/-- What is returned for a number libcouchbase was asked for. -/
def read (r : Int × Nat) (number : Nat → Nat) : Except Value Value :=
  if r.1 ≠ LCB_SUCCESS then .error (lcbError r.1) else .ok (ResponseInfo.number (number r.2))

/-- The end of a mode that was set. -/
def written (r : Int × σ) : Except Value Value × σ :=
  (if r.1 = LCB_SUCCESS then .ok (.bool true) else .error (lcbError r.1), r.2)

end Control

open Control in
/-- `_Control` -/
def control (lcb : Lcb σ) (mode : CntlMode) (option : CntlOption) (optVal : Value) (s : σ) :
    Except Value Value × σ :=
  if option = .other then (badArguments "Invalid option mode", s)
  else
    match mode with
    | .configurationTimeout | .viewTimeout | .httpTimeout | .durabilityInterval
    | .durabilityTimeout | .opTimeout =>
      if option = .get then (read (lcb.get mode s) (· / 1000), s)
      else written (lcb.set mode optVal.toNum.timesThousand.uint32Value s)
    | .wbufsize | .rbufsize =>
      if option = .get then (read (lcb.get mode s) id, s)
      else written (lcb.set mode optVal.uint32Value s)
    | .vbmap =>
      match lcb.vbmap optVal s with
      | .ok arr => (.ok arr, s)
      | .error err => (.error (lcbError err), s)
    | .libcouchbaseVersion | .clnodes | .resturi => (.ok (lcb.info mode s), s)
    | .other => (badArguments "Not supported yet", s)

/-! ## `lib/couchbase.js` -/

namespace Connection

/-- `_ctl` -/
def ctl (lcb : Lcb σ) (cc : CntlMode) (value : Value) : σ → Except Value Value × σ :=
  if !value.isUndefined then control lcb cc .set value else control lcb cc .get .undefined

/-- The accessors of a setting: `operationTimeout`, `connectionTimeout` and their like. -/
def setting (lcb : Lcb σ) (cc : CntlMode) (s : σ) : Except Value Value :=
  (ctl lcb cc .undefined s).1

/-- An assignment: an error is what it throws. -/
def assignSetting (lcb : Lcb σ) (cc : CntlMode) (val : Value) (s : σ) : Except Value σ :=
  match ctl lcb cc val s with
  | (.ok _, s) => .ok s
  | (.error e, _) => .error e

end Connection

end Couchnode
