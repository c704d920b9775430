import Couchnode.Native.Command

/-!
# The command classes

The options record, the handler and the class of each of the eleven operations, in the
order of the source. `Kind` names them; `Kind.cls` is the class of a kind.
-/

set_option autoImplicit false

namespace Couchnode

variable [Runtime]

open PState (liftParsed fail recordIf getAt assign)
open ParamSlot (field parseAll)

abbrev uint32 := NumericSlot.parseValue .uint32
abbrev int32 := NumericSlot.parseValue .int32

/-! ## Get and lock -/

structure GetOptions where
  expTime : Slot Int := { v := 0 }
  lockTime : Slot Int := { v := 0 }
  format : Slot (Option Value) := { v := none }

namespace GetOptions

def specs : List (ParamSlot GetOptions) :=
  [field NameMap.expiry (·.expTime) (fun o s => { o with expTime := s }) uint32,
   field NameMap.locktime (·.lockTime) (fun o s => { o with lockTime := s }) uint32,
   field NameMap.fmtType (·.format) (fun o s => { o with format := s })
     V8ValueOption.parseValue]

def merge (o other : GetOptions) : GetOptions where
  lockTime := if o.lockTime.isFound then o.lockTime else other.lockTime
  expTime := if o.expTime.isFound then o.expTime else other.expTime
  format := if o.format.isFound then o.format else other.format

end GetOptions

/-- `setCookieKeyOption` -/
def setCookieKeyOption (key option : Value) : Prog PState Unit :=
  Prog.modify fun s =>
    { s with cookieKeyOptions := some (forceSet key.toName option (s.cookieKeyOptions.getD [])) }

/-- The per-key options of a get: only an object is parsed. -/
def GetCommand.keyOptions (params : Option Value) : Prog PState GetOptions :=
  match params with
  | some p =>
    if p.isObject then liftParsed (parseAll (some p) GetOptions.specs {}) else pure {}
  | none => pure {}

/-- The tail of the get handler: a format other than auto is kept for the response. -/
def GetCommand.keepFormat (ki : CommandKey) (format : Slot (Option Value)) :
    Prog PState Unit :=
  if format.isFound then do
    let spec := ValueFormat.toSpec format.v
    recordIf spec.2
    if spec.1 = .auto then pure ()
    else setCookieKeyOption ki.object (.number (.fin spec.1.toInt))
  else pure ()

def GetCommand.handleSingle (hd : Header GetOptions) (ki : CommandKey)
    (params : Option Value) (ix : Nat) : Prog PState Unit := do
  let kOptions ← GetCommand.keyOptions params
  let kOptions := kOptions.merge hd.globalOptions
  let cmd ← getAt ix
  assign cmd ki.setKeyV0
  if kOptions.lockTime.isFound then
    assign cmd fun c =>
      { c with nums := { c.nums with exptime := kOptions.lockTime.v.toNat, lock := 1 } }
  else
    assign cmd fun c =>
      { c with nums := { c.nums with exptime := kOptions.lockTime.v.toNat } }
  GetCommand.keepFormat ki kOptions.format

def GetCommand : CommandClass GetOptions where
  defaults := {}
  params := some GetOptions.specs
  handleSingle := GetCommand.handleSingle
  entry := fun _ _ => .get

/-- `LockCommand`: a get whose lock time counts as given. -/
def LockCommand : CommandClass GetOptions :=
  { GetCommand with afterInit := fun o => { o with lockTime := o.lockTime.forceIsFound } }

/-! ## Store -/

structure StoreOptions where
  cas : Slot Nat := { v := 0 }
  exp : Slot Int := { v := 0 }
  value : Slot (Option Value) := { v := none }
  flags : Slot Int := { v := 0 }
  format : Slot (Option Value) := { v := none }

def StoreOptions.specs : List (ParamSlot StoreOptions) :=
  [field NameMap.cas (·.cas) (fun o s => { o with cas := s }) CasSlot.parseValue,
   field NameMap.expiry (·.exp) (fun o s => { o with exp := s }) uint32,
   field NameMap.fmtType (·.format) (fun o s => { o with format := s })
     V8ValueOption.parseValue,
   field NameMap.value (·.value) (fun o s => { o with value := s }) V8ValueOption.parseValue,
   field NameMap.flags (·.flags) (fun o s => { o with flags := s }) uint32]

/-- The format specifier of one key: its own, else the global one. -/
def StoreCommand.specObj (kOptions glob : StoreOptions) : Option Value :=
  if kOptions.format.isFound then kOptions.format.v else glob.format.v

/-- That specifier judged. -/
def StoreCommand.spec (kOptions glob : StoreOptions) : Prog PState ValueFormat.Spec := do
  let spec := ValueFormat.toSpec (StoreCommand.specObj kOptions glob)
  recordIf spec.2
  if spec.1 = .invalid then Prog.refuse else pure spec.1

/-- The numbers of a store command, flags override included. -/
def StoreCommand.nums (op : StorageOp) (kOptions glob : StoreOptions) (flags : Nat)
    (n : LcbNumbers) : LcbNumbers :=
  { n with
    cas := kOptions.cas.v
    exptime := if kOptions.exp.isFound then kOptions.exp.v.toNat else glob.exp.v.toNat
    flags := if kOptions.flags.isFound then kOptions.flags.v.toNat else flags
    operation := some op }

def StoreCommand.handleSingle (op : StorageOp) (hd : Header StoreOptions) (ki : CommandKey)
    (params : Option Value) (ix : Nat) : Prog PState Unit := do
  let cmd ← getAt ix
  match params with
  | none => fail (.eArguments "Must have options for set" none)
  | some p => do
    let kOptions ← liftParsed (parseAll (some p) StoreOptions.specs {})
    assign cmd ki.setKeyV0
    let spec ← StoreCommand.spec kOptions hd.globalOptions
    let e ← ValueFormat.encode kOptions.value.v spec
    assign cmd fun c =>
      { c with
        bytes := { ptr := e.ptr, len := e.n }
        nums := StoreCommand.nums op kOptions hd.globalOptions e.flags c.nums }

def StoreCommand (op : StorageOp) : CommandClass StoreOptions where
  defaults := {}
  params := some StoreOptions.specs
  handleSingle := StoreCommand.handleSingle op
  entry := fun _ _ => .store

/-! ## Arithmetic -/

structure ArithmeticOptions where
  exp : Slot Int := { v := 0 }
  initial : Slot Int := { v := 0 }
  delta : Slot Int := { v := 0 }

namespace ArithmeticOptions

def specs : List (ParamSlot ArithmeticOptions) :=
  [field NameMap.expiry (·.exp) (fun o s => { o with exp := s }) uint32,
   field NameMap.initial (·.initial) (fun o s => { o with initial := s })
     (NumericSlot.parseValue .uint64),
   field NameMap.arithOffset (·.delta) (fun o s => { o with delta := s })
     (NumericSlot.parseValue .int64)]

def merge (o other : ArithmeticOptions) : ArithmeticOptions where
  exp := if o.exp.isFound then o.exp else other.exp
  initial := if o.initial.isFound then o.initial else other.initial
  delta := if o.delta.isFound then o.delta else other.delta

end ArithmeticOptions

def ArithmeticCommand.handleSingle (hd : Header ArithmeticOptions) (ki : CommandKey)
    (params : Option Value) (ix : Nat) : Prog PState Unit := do
  let cmd ← getAt ix
  let kOptions ← liftParsed (parseAll params ArithmeticOptions.specs {})
  let kOptions := kOptions.merge hd.globalOptions
  assign cmd ki.setKeyV0
  assign cmd fun c =>
    { c with nums :=
      { c.nums with
        delta := kOptions.delta.v
        initial := kOptions.initial.v.toNat
        create := if kOptions.initial.isFound then 1 else c.nums.create
        exptime := kOptions.exp.v.toNat } }

def ArithmeticCommand : CommandClass ArithmeticOptions where
  defaults := {}
  params := some ArithmeticOptions.specs
  handleSingle := ArithmeticCommand.handleSingle
  entry := fun _ _ => .arithmetic

/-! ## Delete, unlock, touch, observe -/

/-- `UnlockOptions`, and `DeleteOptions` which is the same record. -/
structure UnlockOptions where
  cas : Slot Nat := { v := 0 }

def UnlockOptions.specs : List (ParamSlot UnlockOptions) :=
  [field NameMap.cas (·.cas) (fun o s => { o with cas := s }) CasSlot.parseValue]

def DeleteCommand.handleSingle (hd : Header UnlockOptions) (ki : CommandKey)
    (params : Option Value) (ix : Nat) : Prog PState Unit := do
  let kOptions ← liftParsed (parseAll params UnlockOptions.specs {})
  let effectiveOptions := if params.isSome then kOptions else hd.globalOptions
  let cmd ← getAt ix
  assign cmd ki.setKeyV0
  assign cmd fun c => { c with nums := { c.nums with cas := effectiveOptions.cas.v } }

def DeleteCommand : CommandClass UnlockOptions where
  defaults := {}
  params := some UnlockOptions.specs
  handleSingle := DeleteCommand.handleSingle
  entry := fun _ _ => .remove

def UnlockCommand.handleSingle (_ : Header UnlockOptions) (ki : CommandKey)
    (params : Option Value) (ix : Nat) : Prog PState Unit :=
  match params with
  | none => fail (.eArguments "Unlock must have CAS" none)
  | some p => do
    let kOptions ← liftParsed (parseAll (some p) UnlockOptions.specs {})
    if !kOptions.cas.isFound then fail (.eArguments "Unlock must have CAS" none)
    else
      let cmd ← getAt ix
      assign cmd ki.setKeyV0
      assign cmd fun c => { c with nums := { c.nums with cas := kOptions.cas.v } }

def UnlockCommand : CommandClass UnlockOptions where
  defaults := {}
  params := some UnlockOptions.specs
  handleSingle := UnlockCommand.handleSingle
  entry := fun _ _ => .unlock

structure TouchOptions where
  exp : Slot Int := { v := 0 }

def TouchOptions.specs : List (ParamSlot TouchOptions) :=
  [field NameMap.expiry (·.exp) (fun o s => { o with exp := s }) uint32]

def TouchCommand.handleSingle (hd : Header TouchOptions) (ki : CommandKey)
    (params : Option Value) (ix : Nat) : Prog PState Unit := do
  let kOptions ← liftParsed (parseAll params TouchOptions.specs {})
  let kOptions := if params.isSome then kOptions else { exp := hd.globalOptions.exp }
  let cmd ← getAt ix
  assign cmd ki.setKeyV0
  assign cmd fun c => { c with nums := { c.nums with exptime := kOptions.exp.v.toNat } }

def TouchCommand : CommandClass TouchOptions where
  defaults := {}
  params := some TouchOptions.specs
  handleSingle := TouchCommand.handleSingle
  entry := fun _ _ => .touch

def ObserveCommand.handleSingle (_ : Header Unit) (ki : CommandKey)
    (_ : Option Value) (ix : Nat) : Prog PState Unit := do
  let cmd ← getAt ix
  assign cmd ki.setKeyV0

def ObserveCommand : CommandClass Unit where
  defaults := ()
  params := none
  handleSingle := ObserveCommand.handleSingle
  entry := fun _ _ => .observe
  cookieKind := .observe

/-! ## Endure -/

structure DurabilityOptions where
  persistTo : Slot Int := { v := 0 }
  replicateTo : Slot Int := { v := 0 }
  isDelete : Slot Bool := { v := false }
  timeout : Slot Int := { v := 0 }

def DurabilityOptions.specs : List (ParamSlot DurabilityOptions) :=
  [field NameMap.persistTo (·.persistTo) (fun o s => { o with persistTo := s }) int32,
   field NameMap.replicateTo (·.replicateTo) (fun o s => { o with replicateTo := s }) int32,
   field NameMap.isDelete (·.isDelete) (fun o s => { o with isDelete := s })
     BooleanOption.parseValue,
   field NameMap.timeout (·.timeout) (fun o s => { o with timeout := s }) uint32]

/-- The one slot the endure handler parses. -/
def EndureCommand.casSlots : List (ParamSlot (Slot Nat)) :=
  [field NameMap.cas id (fun _ s => s) CasSlot.parseValue]

def EndureCommand.handleSingle (_ : Header DurabilityOptions) (ki : CommandKey)
    (params : Option Value) (ix : Nat) : Prog PState Unit := do
  let cmd ← getAt ix
  assign cmd ki.setKeyV0
  let casSlot ← liftParsed (parseAll params EndureCommand.casSlots { v := 0 })
  if casSlot.isFound then
    assign cmd fun c => { c with nums := { c.nums with cas := casSlot.v } }
  else pure ()

def EndureCommand.dopts (o : DurabilityOptions) : DurabilityOpts where
  checkDelete := o.isDelete.v
  persistTo := o.persistTo.v
  replicateTo := o.replicateTo.v
  capMax := o.persistTo.v < 1 || o.replicateTo.v < 1

def EndureCommand : CommandClass DurabilityOptions where
  defaults := {}
  params := some DurabilityOptions.specs
  handleSingle := EndureCommand.handleSingle
  entry := fun o _ => .durability (EndureCommand.dopts o)

/-! ## Stats -/

def StatsCommand.handleSingle (_ : Header Unit) (ki : CommandKey)
    (_ : Option Value) (ix : Nat) : Prog PState Unit :=
  if ix ≠ 0 then fail (.eArguments "Too many keys in stats" none)
  else do
    let cmd ← getAt ix
    assign cmd fun c => { c with key := ki.key }

def StatsCommand : CommandClass Unit where
  defaults := ()
  params := none
  listSize := fun _ => 1
  getDefaultString := some ""
  handleSingle := StatsCommand.handleSingle
  entry := fun _ _ => .stats
  cookieKind := .stats

/-! ## HTTP -/

/-- `LCB_HTTP_METHOD_GET` -/
def LCB_HTTP_METHOD_GET : Int := 0

/-- `LCB_HTTP_METHOD_MAX`: after GET, POST, PUT and DELETE. -/
def LCB_HTTP_METHOD_MAX : Int := 4

/-- `LCB_HTTP_TYPE_MAX`: after VIEW, MANAGEMENT and RAW. -/
def LCB_HTTP_TYPE_MAX : Int := 3

structure HttpOptions where
  path : Slot (Option Value) := { v := none }
  content : Slot (Option Value) := { v := none }
  contentType : Slot (Option Value) := { v := none }
  httpMethod : Slot Int := { v := 0 }
  httpType : Slot Int := { v := 0 }

def HttpOptions.specs : List (ParamSlot HttpOptions) :=
  [field NameMap.httpPath (·.path) (fun o s => { o with path := s }) StringOption.parseValue,
   field NameMap.httpContent (·.content) (fun o s => { o with content := s })
     StringOption.parseValue,
   field NameMap.httpContentType (·.contentType) (fun o s => { o with contentType := s })
     StringOption.parseValue,
   field NameMap.httpMethod (·.httpMethod) (fun o s => { o with httpMethod := s }) int32,
   field NameMap.httpType (·.httpType) (fun o s => { o with httpType := s }) int32]

/-- A string option that is there and not empty. -/
def HttpCommand.given (s : Slot (Option Value)) : Bool :=
  s.isFound && (s.v.map Value.truthy).getD false

/-- The request method: absent is GET. -/
def HttpCommand.method (o : HttpOptions) (cmd : CmdPtr) : Prog PState Unit :=
  if !o.httpMethod.isFound then
    assign cmd fun c => { c with nums := { c.nums with method := LCB_HTTP_METHOD_GET } }
  else if o.httpMethod.v > LCB_HTTP_METHOD_MAX then
    fail (.eArguments "Invalid HTTP method option" none)
  else assign cmd fun c => { c with nums := { c.nums with method := o.httpMethod.v } }

def HttpCommand.type (o : HttpOptions) : Prog PState Unit :=
  if !o.httpType.isFound then fail (.eArguments "Need HTTP type" none)
  else if o.httpType.v > LCB_HTTP_TYPE_MAX then
    fail (.eArguments "Invalid LCB HTTP type" none)
  else Prog.modify fun s => { s with htType := o.httpType.v }

/-- One string of the request: into a buffer, and its pointer into the command. -/
def HttpCommand.string (v : Option Value) (addNul : Bool) (cmd : CmdPtr)
    (f : Span → LcbCmd → LcbCmd) : Prog PState Unit := do
  let sp ← Command.getBufBackedString (some "") v addNul
  assign cmd (f sp)

/-- The path, the content type and the body, in this order. -/
def HttpCommand.strings (o : HttpOptions) (cmd : CmdPtr) : Prog PState Unit :=
  if HttpCommand.given o.path then do
    HttpCommand.string o.path.v false cmd fun sp c => { c with path := sp }
    Prog.when (HttpCommand.given o.contentType)
      (HttpCommand.string o.contentType.v true cmd fun sp c => { c with contentType := sp.ptr })
    Prog.when (HttpCommand.given o.content)
      (HttpCommand.string o.content.v false cmd fun sp c => { c with bytes := sp })
  else fail (.eArguments "Invalid path" o.path.v)

def HttpCommand.handleSingle (hd : Header HttpOptions) (_ : CommandKey)
    (_ : Option Value) (ix : Nat) : Prog PState Unit :=
  if ix ≠ 0 then fail (.eArguments "Too many items in HTTP request" none)
  else do
    let cmd ← getAt ix
    -- a missing path is reported and the process aborts
    if !hd.globalOptions.path.isFound then Prog.fault
    else
      HttpCommand.method hd.globalOptions cmd
      HttpCommand.type hd.globalOptions
      HttpCommand.strings hd.globalOptions cmd

def HttpCommand : CommandClass HttpOptions where
  defaults := {}
  params := some HttpOptions.specs
  listSize := fun _ => 1
  getDefaultString := some ""
  handleSingle := HttpCommand.handleSingle
  entry := fun _ htType => .http htType
  cookieKind := .http

/-! ## All of them -/

inductive Kind where
  | get | lock | store (op : StorageOp) | unlock | touch | arithmetic | delete
  | observe | endure | stats | http
  deriving DecidableEq

namespace Kind

/-- The options record of a kind. -/
def Opts : Kind → Type
  | get | lock => GetOptions
  | store _ => StoreOptions
  | unlock | delete => UnlockOptions
  | touch => TouchOptions
  | arithmetic => ArithmeticOptions
  | endure => DurabilityOptions
  | http => HttpOptions
  | observe | stats => Unit

def cls : (k : Kind) → CommandClass k.Opts
  | get => GetCommand
  | lock => LockCommand
  | store op => StoreCommand op
  | unlock => UnlockCommand
  | touch => TouchCommand
  | arithmetic => ArithmeticCommand
  | delete => DeleteCommand
  | observe => ObserveCommand
  | endure => EndureCommand
  | stats => StatsCommand
  | http => HttpCommand

end Kind

end Couchnode
