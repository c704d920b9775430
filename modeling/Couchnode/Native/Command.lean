import Couchnode.Native.Cookie

/-!
# `Command` — from call arguments to libcouchbase commands

`initialize` reads the arguments shared by all keys, `process` lowers the key collection
key by key, and the class's handler fills the command of one key. What `initialize` settles
is the `Header`; the rest of the object is the `PState` that processing works on. A class
is a `CommandClass`: its options record, how that is parsed, how many commands it needs and
its handler.

`Command` is the whole object again once it is accepted: what `createCookie`, `execute`,
the copy constructor and the destructor see.
-/

set_option autoImplicit false

namespace Couchnode

/-! ## Keys -/

inductive KeysType where
  | arrayKeys | objectKeys | singleKey
  deriving DecidableEq

structure KeysInfo where
  keys : Option Value := none
  kcollType : KeysType := .singleKey
  isPersistent : Bool := false
  ncmds : Nat := 0

namespace KeysInfo

variable [Runtime]

def setKeys (k : Value) : KeysInfo :=
  match k with
  | .array vs => { keys := some k, kcollType := .arrayKeys, ncmds := vs.length }
  | _ =>
    if k.isObject then
      { keys := some k, kcollType := .objectKeys, ncmds := k.propertyNames.length }
    else { keys := some k, kcollType := .singleKey, ncmds := 1 }

/-- The elements of an array handle. -/
def elements : Option Value → List Value
  | some (.array vs) => vs
  | _ => []

/-- The property names of an object handle, as values. -/
def names : Option Value → List Value
  | some v => v.propertyNames.map .string
  | none => []

def getSafeKeysArray (k : KeysInfo) : List Value :=
  match k.kcollType with
  | .arrayKeys => elements k.keys
  | .objectKeys => names k.keys
  | .singleKey => [k.keys.getD .undefined]

/-- `makePersistent`: a persistent handle to the same keys. -/
def makePersistent (k : KeysInfo) : KeysInfo := { k with isPersistent := true }

end KeysInfo

/-- The lowered key of one command. -/
structure CommandKey where
  object : Value
  key : Span
  hashkey : Span

/-- `setKeyV0` -/
def CommandKey.setKeyV0 (ki : CommandKey) (cmd : LcbCmd) : LcbCmd :=
  { cmd with key := ki.key, hashkey := ki.hashkey }

/-! ## Classes -/

/-- The members `initialize` settles. -/
structure Header (O : Type) where
  apiArgs : List Value
  isSpooled : Slot Bool := { v := false }
  callback : Slot (Option Value) := { v := none }
  globalHashkey : Slot (Option Value) := { v := none }
  keys : KeysInfo
  globalOptions : O

/-- `lcb_durability_opts_t` as `EndureCommand::execute` fills it. -/
structure DurabilityOpts where
  checkDelete : Bool
  persistTo : Int
  replicateTo : Int
  capMax : Bool
  deriving DecidableEq

/-- The libcouchbase entry point a command calls, with what it passes besides commands. -/
inductive LcbEntry where
  | get | store | unlock | touch | arithmetic | remove | observe | stats
  | durability (opts : DurabilityOpts)
  | http (type : Int)
  deriving DecidableEq

structure CommandClass (O : Type) where
  /-- The options record as its constructors leave it. -/
  defaults : O
  /-- `getParams`: the slots of the options record, for a class that has one. -/
  params : Option (List (ParamSlot O))
  /-- What an `initialize` of the class's own does after the base one. -/
  afterInit : O → O := id
  /-- How many commands `initCommandList` asks for. -/
  listSize : KeysInfo → Nat := KeysInfo.ncmds
  getDefaultString : Option String := none
  handleSingle : Header O → CommandKey → Option Value → Nat → Prog PState Unit
  /-- What `execute` calls, given the global options and `htType`. -/
  entry : O → Int → LcbEntry
  cookieKind : CookieKind := .plain

variable [Runtime]

namespace Command

/-- `handleBadString`: the class's default string, or an error. -/
def handleBadString (dflt : Option String) (msg : String) : Prog PState Span :=
  match dflt with
  | some d => pure { ptr := .lit d, len := utf8Length d }
  | none => PState.fail (.eInternal msg)

/-- `p + n` -/
def offset (p : CharPtr) (n : Nat) : CharPtr :=
  match p with
  | .inBlock b off => .inBlock b (off + n)
  | p => p

/-- `getBufBackedString` -/
def getBufBackedString (dflt : Option String) (v : Option Value) (addNul : Bool) :
    Prog PState Span :=
  match v with
  | none => handleBadString dflt "IsEmpty returns true"
  | some v =>
    if !v.isString && !v.isNumber then handleBadString dflt "key is not a string"
    else
      let s := v.toName
      let n := utf8Length s
      if n = 0 then handleBadString dflt "string is empty"
      else do
        let k ← PState.getBuffer (if addNul then n + 1 else n)
        Prog.when (k = .null) (PState.record (.eMemory "Couldn't get buffer"))
        PState.writeBytes k (utf8 s)
        Prog.when addNul (PState.writeBytes (offset k n) [0])
        pure { ptr := k, len := n }

/-- The slots `parseCommonOptions` reads from the options object. -/
structure CommonOptions where
  isSpooled : Slot Bool := { v := false }
  globalHashkey : Slot (Option Value) := { v := none }

def commonSlots : List (ParamSlot CommonOptions) :=
  [.field NameMap.spooled (·.isSpooled) (fun o s => { o with isSpooled := s })
      BooleanOption.parseValue,
   .field NameMap.hashkey (·.globalHashkey) (fun o s => { o with globalHashkey := s })
      StringOption.parseValue]

/-- `args[i]`; an argument that was not passed is `undefined`. -/
def arg (args : List Value) (i : Nat) : Value := args.getD i .undefined

/-- `args[args.Length() - 1]`. -/
def lastArg (args : List Value) : Value := args.getLastD .undefined

/-- `callback.parseValue(...)` as `parseCommonOptions` calls it: the status it returns is an
    enumerator other than 0, so the test on it never stops anything. -/
def parseCallback (v : Value) : Prog PState (Slot (Option Value)) :=
  match CallableOption.parseValue v { v := none } with
  | .ok s => pure s
  | .bad s c => do
    PState.record c
    pure s
  | .fault => Prog.fault

/-- `parseCommonOptions` -/
def parseCommonOptions (args : List Value) (obj : Value) :
    Prog PState (Slot (Option Value) × CommonOptions) := do
  let callback ← parseCallback (lastArg args)
  let common ← PState.liftParsed (ParamSlot.parseAll (some obj) commonSlots {})
  if !callback.isFound then PState.fail (.eArguments "Missing callback" none)
  else pure (callback, common)

/-- `initCommandList` -/
def initCommandList (n : Nat) : Prog PState Unit := fun s =>
  match s.commands.initializeList n s.heap with
  | (true, h, l) => .done () { s with heap := h, commands := l }
  | (false, h, l) =>
    PState.fail (.eMemory "Command list") { s with heap := h, commands := l }

variable {O : Type}

/-- `params->parseObject(objParams, err)` for a class that has parameters. -/
def parseParams (cls : CommandClass O) (obj : Value) : Prog PState O :=
  match cls.params with
  | some specs => PState.liftParsed (ParamSlot.parseAll (some obj) specs cls.defaults)
  | none => pure cls.defaults

/-- `initialize` -/
def initializeCommand (cls : CommandClass O) (args : List Value) : Prog PState (Header O) := do
  let keys := KeysInfo.setKeys (arg args 0)
  initCommandList (cls.listSize keys)
  let opts ← parseParams cls (arg args 1)
  let (callback, common) ← parseCommonOptions args (arg args 1)
  pure { apiArgs := args, isSpooled := common.isSpooled, callback := callback,
         globalHashkey := common.globalHashkey, keys := keys,
         globalOptions := cls.afterInit opts }

/-- The per-key `hashkey` option. -/
def hashkeySlots : List (ParamSlot (Slot (Option Value))) :=
  [.field NameMap.hashkey id (fun _ s => s) StringOption.parseValue]

/-- The hashkey of one key: its own option, else the global one, else none. -/
def processHashkey (cls : CommandClass O) (hd : Header O) (options : Option Value) :
    Prog PState Span := do
  let hkOpt ← PState.liftParsed (ParamSlot.parseAll options hashkeySlots { v := none })
  if hkOpt.isFound then getBufBackedString cls.getDefaultString hkOpt.v false
  else if hd.globalHashkey.isFound then
    getBufBackedString cls.getDefaultString hd.globalHashkey.v false
  else pure {}

/-- `processSingle` -/
def processSingle (cls : CommandClass O) (hd : Header O) (single : Option Value)
    (options : Option Value) (ix : Nat) : Prog PState Unit := do
  let hashkey ← processHashkey cls hd options
  let key ← getBufBackedString cls.getDefaultString single false
  let ck : CommandKey := { object := single.getD .undefined, key := key, hashkey := hashkey }
  cls.handleSingle hd ck options ix

/-- `processArray` -/
def processArray (cls : CommandClass O) (hd : Header O) (arry : List Value) :
    Prog PState Unit :=
  Prog.each (fun ii cur => processSingle cls hd (some cur) none ii) 0 arry

/-- `processObject` -/
def processObject (cls : CommandClass O) (hd : Header O) (obj : Value) : Prog PState Unit :=
  Prog.each (fun ii name =>
    processSingle cls hd (some (.string name)) (some (obj.getProperty name)) ii)
    0 obj.propertyNames

/-- `process` -/
def process (cls : CommandClass O) (hd : Header O) : Prog PState Unit :=
  match hd.keys.kcollType with
  | .singleKey => processSingle cls hd hd.keys.keys none 0
  | .arrayKeys => processArray cls hd (KeysInfo.elements hd.keys.keys)
  | .objectKeys => processObject cls hd (hd.keys.keys.getD .undefined)

end Command

end Couchnode
