import Couchnode.Native.Commands

/-!
# A command object's life

`Command` is the object `initialize` and `process` leave behind. This module gives it the
rest of its life: the cookie it creates, the copy `makePersistent` makes when it has to
wait, its destructor, and `execute`, which is what libcouchbase reads through the pointers
the object hands it. A pointer to memory that is gone makes `execute` fault (`none`).

`Command.accept` is `initialize` and `process` on a fresh stack object.
-/

set_option autoImplicit false

namespace Couchnode

/-- One command as libcouchbase reads it: every pointer followed, a null one being no
    data. -/
structure LcbReq where
  key : Option (List UInt8)
  hashkey : Option (List UInt8)
  bytes : Option (List UInt8)
  path : Option (List UInt8)
  contentType : Option (List UInt8)
  nums : LcbNumbers
  deriving DecidableEq

/-- Follow the pointers of a command. -/
def LcbCmd.read (h : Heap) (c : LcbCmd) : Option LcbReq := do
  let key ← h.readSpan c.key
  let hashkey ← h.readSpan c.hashkey
  let bytes ← h.readSpan c.bytes
  let path ← h.readSpan c.path
  let contentType ← h.readOptCString c.contentType
  pure { key, hashkey, bytes, path, contentType, nums := c.nums }

/-- A call of libcouchbase: which function, and the commands in order. -/
structure LcbCall where
  entry : LcbEntry
  cmds : List LcbReq
  deriving DecidableEq

/-- A command object. -/
structure Command (O : Type) extends Header O where
  err : CBExc := {}
  recorded : List Complaint := []
  cookie : Option Cookie := none
  bufs : BufferList := {}
  commands : CommandList
  cookieKeyOptions : Option Props := none
  htType : Int := 0

variable [Runtime] {O : Type}

namespace Command

/-- The object, from what `initialize` settled and what processing left. -/
def ofState (hd : Header O) (s : PState) : Command O :=
  { hd with
    err := s.err, recorded := s.recorded, bufs := s.bufs, commands := s.commands
    cookieKeyOptions := s.cookieKeyOptions, htType := s.htType }

/-- A fresh object on the stack. -/
def start (h : Heap) : PState := { heap := h, commands := { addr := .stack } }

/-- `initialize` and then `process`, on a fresh object. -/
def accept (cls : CommandClass O) (args : List Value) : Prog PState (Header O) := do
  let hd ← initializeCommand cls args
  process cls hd
  pure hd

/-- `getKeyList` -/
def getKeyList (c : Command O) : List Value := c.keys.getSafeKeysArray

/-- `initCookie`: mode, per-key options and callback. -/
def initCookie (c : Command O) (cookie : Cookie) : Cookie :=
  let mode : CallbackMode := if c.isSpooled.isFound && c.isSpooled.v then .spooled else .single
  { cookie with keyOptions := c.cookieKeyOptions }.setCallback
    (c.callback.v.getD .undefined) mode

/-- `createCookie`, by class. -/
def createCookie (cls : CommandClass O) (c : Command O) : Cookie :=
  match c.cookie with
  | some cookie => cookie
  | none =>
    match cls.cookieKind with
    | .plain => c.initCookie (Cookie.create .plain c.keys.ncmds)
    | .observe => c.initCookie (Cookie.create .observe c.commands.ncmds)
    | .stats => (Cookie.create .stats 0).setCallback (c.callback.v.getD .undefined) .spooled
    | .http => (Cookie.create .http 0).setCallback (c.callback.v.getD .undefined) .single

/-- `Command(Command &other)` with the copy constructors the subclasses get implicitly: the
    base copies the arguments, the cookie and the buffers, the subclass its commands,
    options and HTTP type; every other member is default-constructed. -/
def copy (other : Command O) (addr : ObjAddr) : Command O × Command O :=
  let (bufs, otherBufs) := other.bufs.copy
  let (commands, otherCommands) := other.commands.copy addr
  ({ apiArgs := other.apiArgs, cookie := other.cookie, bufs := bufs, commands := commands
     globalOptions := other.globalOptions, htType := other.htType, keys := {} },
   { other with bufs := otherBufs, commands := otherCommands })

/-- `makePersistent`: the heap with the new object in it, the copy, and the original
    without its cookie. -/
def makePersistent (h : Heap) (c : Command O) : Heap × Command O × Command O :=
  let (ret, other) := c.copy (.heap h.length)
  (h.alloc .object, { ret with keys := ret.keys.makePersistent }, { other with cookie := none })

/-- `~Command`: the command arrays and the buffers go. -/
def destroy (c : Command O) (h : Heap) : Heap := c.bufs.destroy (c.commands.destroy h)

/-- `delete p` for a command made by `new`. -/
def deleteObject (c : Command O) (h : Heap) : Heap :=
  match c.commands.addr with
  | .heap b => (c.destroy h).free b
  | .stack => c.destroy h

/-- The commands `execute` passes: `getAt(0)` for HTTP, the list otherwise. -/
def pointers (cls : CommandClass O) (h : Heap) (c : Command O) : Option (List CmdPtr) :=
  match cls.cookieKind with
  | .http => (c.commands.getAt 0 h).map fun p => [p.1]
  | _ => c.commands.getList h

/-- `execute`: the call libcouchbase sees. -/
def execute (cls : CommandClass O) (h : Heap) (c : Command O) : Option LcbCall := do
  let ptrs ← c.pointers cls h
  let cmds ← ptrs.mapM fun p => do
    let cmd ← c.commands.deref p h
    cmd.read h
  pure { entry := cls.entry c.globalOptions c.htType, cmds := cmds }

end Command

/-! ## Rejection -/

/-- How a request was reported to the application without an operation. -/
inductive Report where
  | invoked (i : Invocation)
  | thrown (e : Value)

/-- `throwV8`, with its two assertions. -/
def CBExc.throwV8 (ex : CBExc) : Option Report :=
  if ex.isSet && !(ex.message = "" && ex.code ≠ 0) then some (.thrown ex.asValue) else none

/-- `bailOut` -/
def bailOut (args : List Value) (ex : CBExc) : Option Report :=
  let cb := Command.lastArg args
  if args.length = 0 || !cb.isFunction then
    (ex.eArguments "No callback provided. Bailing out" none).throwV8
  else some (.invoked { fn := cb, args := [ex.asValue] })

end Couchnode
