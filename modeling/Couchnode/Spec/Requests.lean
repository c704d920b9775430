import Couchnode.Native.Operation

/-!
# What a request asks for

The purpose of lowering, without its memory: each class turns one key, its hashkey and its
options into one `LcbReq`, or turns it down. `Kind.request` is that function for every class,
and `Command.requests` the whole list for the key collection of a call. `Command.header` is
`initialize` in the same way, and `Command.call` the two together.

These definitions know nothing of buffers, command arrays or the order in which a handler
fills a command. That the handlers compute them is proved, handler by handler, in
`Proof.Handlers`.
-/

set_option autoImplicit false

namespace Couchnode

abbrev Bytes := List UInt8

namespace LcbReq

/-- A command nobody has written. -/
def empty : LcbReq :=
  { key := none, hashkey := none, bytes := none, path := none, contentType := none, nums := {} }

def keyed (key hashkey : Option Bytes) (nums : LcbNumbers) : LcbReq :=
  { empty with key := key, hashkey := hashkey, nums := nums }

end LcbReq

/-- What a finished parse leaves. -/
def Parsed.toOption {α : Type} : Parsed α → Option α
  | .ok a => some a
  | _ => none

variable [Runtime]

/-- The bytes `getBufBackedString` stands for: those of a string or number that has some,
    else those of the class's default string. -/
def backedString (dflt : Option String) (v : Option Value) : Option Bytes :=
  match v with
  | some v =>
    if (v.isString || v.isNumber) && utf8 v.toName ≠ [] then some (utf8 v.toName)
    else dflt.map utf8
  | none => dflt.map utf8

namespace ValueFormat

/-- The `UTF8` encoding: strings only. -/
def encodingUtf8 : Value → Option Bytes
  | .string s => some (utf8 s)
  | _ => none

/-- The flags and bytes of a value in a format that is not automatic. An empty `Buffer` has
    none: there is no buffer of no bytes. -/
def encodingAs (v : Value) : Spec → Option (Nat × Bytes)
  | .utf8 => (encodingUtf8 v).map fun bs => (Spec.utf8.flags, bs)
  | .raw =>
    match v with
    | .buffer bs => if bs = [] then none else some (Spec.raw.flags, bs)
    | _ => (encodingUtf8 v).map fun bs => (Spec.raw.flags, bs)
  | .json =>
    match Runtime.jsonStringify v with
    | .ok ret => (encodingUtf8 ret).map fun bs => (Spec.json.flags, bs)
    | .error _ => none
  | _ => none

/-- The flags and bytes of a value in a format, as a function. -/
def encoding (v : Value) (spec : Spec) : Option (Nat × Bytes) :=
  encodingAs v (if spec = .auto then getAutoSpec v else spec)

end ValueFormat

/-! ## One key, class by class -/

/-- What a class asks for one key: from the global options, the key, the hashkey and the
    key's own options. -/
abbrev Requester (O : Type) := O → Option Bytes → Option Bytes → Option Value → Option LcbReq

open ParamSlot (parseAll)

/-- The effective options of a get. -/
def GetCommand.options (glob : GetOptions) (params : Option Value) : Option GetOptions :=
  match params with
  | some p =>
    if p.isObject then
      (parseAll (some p) GetOptions.specs {}).toOption.map (·.merge glob)
    else some (GetOptions.merge {} glob)
  | none => some (GetOptions.merge {} glob)

def GetCommand.request : Requester GetOptions := fun glob key hashkey params =>
  (GetCommand.options glob params).map fun o =>
    .keyed key hashkey
      { exptime := o.lockTime.v.toNat, lock := if o.lockTime.isFound then 1 else 0 }

/-- The format of one key of a store, if the specifier is one. -/
def StoreCommand.format (kOptions glob : StoreOptions) : Option ValueFormat.Spec :=
  let spec := (ValueFormat.toSpec (StoreCommand.specObj kOptions glob)).1
  if spec = .invalid then none else some spec

def StoreCommand.request (op : StorageOp) : Requester StoreOptions :=
  fun glob key hashkey params => do
    let p ← params
    let kOptions ← (parseAll (some p) StoreOptions.specs {}).toOption
    let spec ← StoreCommand.format kOptions glob
    let v ← kOptions.value.v
    let (flags, bytes) ← ValueFormat.encoding v spec
    pure { LcbReq.keyed key hashkey (StoreCommand.nums op kOptions glob flags {}) with
      bytes := some bytes }

def ArithmeticCommand.request : Requester ArithmeticOptions := fun glob key hashkey params =>
  (parseAll params ArithmeticOptions.specs {}).toOption.map fun kOptions =>
    let o := kOptions.merge glob
    .keyed key hashkey
      { delta := o.delta.v, initial := o.initial.v.toNat
        create := if o.initial.isFound then 1 else 0, exptime := o.exp.v.toNat }

def DeleteCommand.request : Requester UnlockOptions := fun glob key hashkey params =>
  (parseAll params UnlockOptions.specs {}).toOption.map fun kOptions =>
    .keyed key hashkey { cas := (if params.isSome then kOptions else glob).cas.v }

def UnlockCommand.request : Requester UnlockOptions := fun _ key hashkey params => do
  let p ← params
  let kOptions ← (parseAll (some p) UnlockOptions.specs {}).toOption
  if kOptions.cas.isFound then some (.keyed key hashkey { cas := kOptions.cas.v }) else none

def TouchCommand.request : Requester TouchOptions := fun glob key hashkey params =>
  (parseAll params TouchOptions.specs {}).toOption.map fun kOptions =>
    .keyed key hashkey
      { exptime := (if params.isSome then kOptions else { exp := glob.exp }).exp.v.toNat }

def ObserveCommand.request : Requester Unit := fun _ key hashkey _ =>
  some (.keyed key hashkey {})

def EndureCommand.request : Requester DurabilityOptions := fun _ key hashkey params =>
  (parseAll params EndureCommand.casSlots { v := 0 }).toOption.map fun casSlot =>
    .keyed key hashkey { cas := if casSlot.isFound then casSlot.v else 0 }

def StatsCommand.request : Requester Unit := fun _ key _ _ => some (.keyed key none {})

namespace HttpCommand

/-- A string option of an HTTP request that may be absent. -/
def text (s : Slot (Option Value)) : Option Bytes :=
  if given s then backedString (some "") s.v else none

def methodOf (o : HttpOptions) : Int :=
  if o.httpMethod.isFound then o.httpMethod.v else LCB_HTTP_METHOD_GET

/-- The type, the path and the method are in order. -/
def valid (o : HttpOptions) : Bool :=
  given o.path && o.httpType.isFound && o.httpType.v ≤ LCB_HTTP_TYPE_MAX &&
    (!o.httpMethod.isFound || o.httpMethod.v ≤ LCB_HTTP_METHOD_MAX)

def request : Requester HttpOptions := fun glob _ _ _ =>
  if valid glob then
    some { LcbReq.empty with
      path := text glob.path
      contentType := (text glob.contentType).map (·.takeWhile (· ≠ 0))
      bytes := text glob.content
      nums := { method := methodOf glob } }
  else none

end HttpCommand

def Kind.request : (k : Kind) → Requester k.Opts
  | .get | .lock => GetCommand.request
  | .store op => StoreCommand.request op
  | .unlock => UnlockCommand.request
  | .touch => TouchCommand.request
  | .arithmetic => ArithmeticCommand.request
  | .delete => DeleteCommand.request
  | .observe => ObserveCommand.request
  | .endure => EndureCommand.request
  | .stats => StatsCommand.request
  | .http => HttpCommand.request

/-! ## The whole collection -/

/-- The keys of a call with the options of each, in order. -/
def KeysInfo.items (k : KeysInfo) : List (Option Value × Option Value) :=
  match k.kcollType with
  | .singleKey => [(k.keys, none)]
  | .arrayKeys => (elements k.keys).map fun v => (some v, none)
  | .objectKeys =>
    let obj := k.keys.getD .undefined
    obj.propertyNames.map fun name => (some (.string name), some (obj.getProperty name))

namespace Command

variable {O : Type}

/-- The hashkey of one key: its own option, else the global one, else none. -/
def hashkeyText (cls : CommandClass O) (hd : Header O) (options : Option Value) :
    Option (Option Bytes) := do
  let hkOpt ← (parseAll options hashkeySlots { v := none }).toOption
  if hkOpt.isFound then (backedString cls.getDefaultString hkOpt.v).map some
  else if hd.globalHashkey.isFound then
    (backedString cls.getDefaultString hd.globalHashkey.v).map some
  else some none

/-- The request of one key with its options. -/
def itemRequest (cls : CommandClass O) (request : Requester O) (hd : Header O)
    (item : Option Value × Option Value) : Option LcbReq := do
  let hashkey ← hashkeyText cls hd item.2
  let key ← backedString cls.getDefaultString item.1
  request hd.globalOptions (some key) hashkey item.2

/-- The requests of a call, one for each key. -/
def requests (k : Kind) (hd : Header k.Opts) : Option (List LcbReq) :=
  hd.keys.items.mapM (itemRequest k.cls k.request hd)

/-- The options record of a call, from the options object of its arguments. -/
def callOptions (cls : CommandClass O) (args : List Value) : Option O :=
  match cls.params with
  | some specs => (parseAll (some (arg args 1)) specs cls.defaults).toOption
  | none => some cls.defaults

/-- What `initialize` reads off the arguments, if they are in order. -/
def header (cls : CommandClass O) (args : List Value) : Option (Header O) := do
  let opts ← callOptions cls args
  let callback ← (CallableOption.parseValue (lastArg args) { v := none }).toOption
  let common ← (parseAll (some (arg args 1)) commonSlots {}).toOption
  if callback.isFound then
    some { apiArgs := args, isSpooled := common.isSpooled, callback := callback,
           globalHashkey := common.globalHashkey, keys := KeysInfo.setKeys (arg args 0),
           globalOptions := cls.afterInit opts }
  else none

/-- The call of libcouchbase a request for some keys comes to. -/
def call (k : Kind) (args : List Value) : Option LcbCall := do
  let hd ← header k.cls args
  let reqs ← requests k hd
  if hd.keys.ncmds = 0 then none
  else some { entry := k.cls.entry hd.globalOptions 0, cmds := reqs }

end Command

end Couchnode
