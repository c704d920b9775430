import Couchnode.Native.Commands

/-!
# `lib/couchbase.js` — the methods an application calls

The helpers that turn a call of `Connection` into one call of the native object: `_mergeParams`,
`_invokeStorage`, `_argHelper2`, `_argHelperMerge2`, `_argHelperRemove`, `_arithHelper` and
`_multiHelper`; and `_interceptEndure`, which puts itself in front of the application's callback
when durability is asked for and calls `endureMulti` for what succeeded.

A call is the list of its arguments (`arguments`). What it does is a `NativeCall`: the native
method, its arguments, and the callback that goes last. `Callback.submit` is what that callback
does when it is called, and `Callback.reports` what it tells the application when `endureMulti` has
answered. A property named `__proto__` is not a property of its object; nothing here is about that
name.
-/

set_option autoImplicit false

namespace Couchnode

namespace Num

/-- Multiplication by 1 or -1. -/
def scale (dfl : Int) : Num → Num
  | nan => nan
  | inf negative => inf (if dfl < 0 then !negative else negative)
  | fin q => fin (q * dfl)

end Num

/-- A call of `endureMulti`. -/
structure EndureCall where
  kv : Props
  options : Props

/-- The callback a native method is given. -/
inductive Callback where
  | user (callback : Value)
  /-- The function `_interceptEndure` returns, with what it closes over. -/
  | interceptor (key : Value) (globalOptions : Value) (endureOptions : Props) (callback : Value)

structure NativeCall where
  target : Kind
  args : List Value
  callback : Callback

variable [Runtime]

namespace Connection

open Command (arg)

/-- The loop of `_mergeParams`: every option but `value`. -/
def mergeInto (kParams : Props) (gParams : Value) : Props :=
  Assoc.writes (gParams.entries.filter fun p => p.1 ≠ NameMap.value) kParams

/-- `_mergeParams` -/
def mergeParams (key : Value) (kParams : Props) (gParams : Value) : Props :=
  [(key.toName, .object (mergeInto kParams gParams))]

/-- `_interceptEndure` -/
def interceptEndure (key options globalOptions : Value) (isDelete : Bool) (callback : Value) :
    Callback :=
  let options := if options.isUndefined then .object [] else options
  let globalOptions := if globalOptions.isUndefined then .object [] else globalOptions
  let globalOptions :=
    if key.truthy && !options.isNull then options.getProperty key.toName else globalOptions
  if !(globalOptions.getProperty NameMap.persistTo).truthy &&
      !(globalOptions.getProperty NameMap.replicateTo).truthy then
    .user callback
  else
    .interceptor key globalOptions
      [(NameMap.persistTo, globalOptions.getProperty NameMap.persistTo),
       (NameMap.replicateTo, globalOptions.getProperty NameMap.replicateTo),
       (NameMap.spooled, globalOptions.getProperty NameMap.spooled),
       (NameMap.isDelete, .bool isDelete)]
      callback

/-- `endure_kv` of a spooled call: the results without an error, with their CAS. -/
def endureKv (results : Value) : Props :=
  Assoc.writes (results.propertyNames.filterMap fun resultKey =>
    let result := results.getProperty resultKey
    if (result.getProperty NameMap.err).truthy then none
    else some (resultKey, .object [(NameMap.cas, result.getProperty NameMap.cas)])) []

end Connection

/-- What a callback submits to `endureMulti` when it is called. The interceptor has a way out
    for a negative count of results, which is never taken. -/
def Callback.submit (err results : Value) : Callback → Option EndureCall
  | .user _ => none
  | .interceptor key globalOptions endureOptions _ =>
    if (globalOptions.getProperty NameMap.spooled).truthy then
      some { kv := Connection.endureKv results, options := endureOptions }
    else if err.truthy then none
    else some { kv := [(key.toName, results)], options := endureOptions }

/-- What it submits over the life of a call. -/
def Callback.submissions (callback : Callback) (calls : List Invocation) : List EndureCall :=
  calls.filterMap fun i => callback.submit (Command.arg i.args 0) (Command.arg i.args 1)

namespace Connection

open Command (arg)

/-- `_endureError` -/
def endureError (innerError : Value) : Value :=
  .error "Durability requirements failed"
    [("code", .number (.fin ErrorCode.DURABILITY_FAILED)), ("innerError", innerError)]

/-- The loop of the callback of a spooled `endureMulti`: what failed there gets its error into the
    results. The results are plain objects; where there is none for a key, the loop throws. -/
def copyErrors (endureResults : Value) : List String → Props → Option Props
  | [], results => some results
  | endureKey :: keys, results =>
    let error := (endureResults.getProperty endureKey).getProperty NameMap.err
    if error.truthy then
      match results.lookup endureKey with
      | some (.object result) =>
        copyErrors endureResults keys
          (forceSet endureKey (.object (forceSet NameMap.err error result)) results)
      | _ => none
    else copyErrors endureResults keys results

/-- `a || b` -/
def either (a b : Value) : Value := if a.truthy then a else b

end Connection

/-- What the application is told, call by call, when the callback has been given `err` and
    `results`, and `endureMulti` has called back. `none` is an exception. `endureMulti` makes one
    call; were there a second, it would find the results changed. -/
def Callback.reports (err results : Value) (answers : List Invocation) :
    Callback → List (Option (Value × Value))
  | .user _ => [some (err, results)]
  | .interceptor _ globalOptions _ _ =>
    if (globalOptions.getProperty NameMap.spooled).truthy then
      answers.map fun answer =>
        let endureErr := Command.arg answer.args 0
        let endureResults := Command.arg answer.args 1
        (Connection.copyErrors endureResults endureResults.propertyNames results.entries).map
          fun results => (Connection.either err endureErr, .object results)
    else if err.truthy then [some (err, results)]
    else
      answers.map fun answer =>
        let endureErr := Command.arg answer.args 0
        if endureErr.truthy then some (Connection.endureError endureErr, results)
        else some (err, results)

namespace Connection

open Command (arg)

/-- `_invokeStorage` -/
def invokeStorage (op : StorageOp) (argList : List Value) : NativeCall :=
  let key := arg argList 0
  let kParams := [(NameMap.value, arg argList 1)]
  let (meta_, callback) :=
    if argList.length = 3 then ([(key.toName, Value.object kParams)], arg argList 2)
    else (mergeParams key kParams (arg argList 2), arg argList 3)
  { target := .store op, args := [.object meta_, .null]
    callback := interceptEndure key (.object meta_) (.object []) false callback }

/-- `_argHelper2` -/
def argHelper2 (target : Kind) (argList : List Value) : NativeCall :=
  if argList.length = 2 then
    { target := target, args := [.array [arg argList 0], .null]
      callback := .user (arg argList 1) }
  else
    { target := target, args := [.array [arg argList 0], arg argList 1]
      callback := .user (arg argList 2) }

/-- `_argHelperMerge2`: with options, the native method gets no second argument of its own. -/
def argHelperMerge2 (target : Kind) (argList : List Value) : NativeCall :=
  if argList.length = 2 then
    { target := target, args := [.array [arg argList 0], .null]
      callback := .user (arg argList 1) }
  else
    { target := target
      args := [.object (mergeParams (arg argList 0) [] (arg argList 1))]
      callback := .user (arg argList 2) }

/-- `_argHelperRemove`: with options, the native method gets no second argument of its own. -/
def argHelperRemove (argList : List Value) : NativeCall :=
  let key := arg argList 0
  if argList.length = 2 then
    { target := .delete, args := [.array [key], .null], callback := .user (arg argList 1) }
  else
    let options := mergeParams key [] (arg argList 1)
    { target := .delete, args := [.object options]
      callback := interceptEndure key (.object options) (.object []) true (arg argList 2) }

/-- The options of one counter: its offset times `dfl`, or `dfl`. -/
def arithParams (dfl : Int) (gParams : Value) : Props :=
  let kParams := mergeInto [] gParams
  let offset := (Value.object kParams).getProperty NameMap.arithOffset
  forceSet NameMap.arithOffset
    (.number (if offset.isUndefined then .fin dfl else offset.toNum.scale dfl)) kParams

/-- `_arithHelper` -/
def arithHelper (dfl : Int) (argList : List Value) : NativeCall :=
  let key := arg argList 0
  let (kdict, callback) :=
    if argList.length = 2 then
      ([(key.toName, Value.object [(NameMap.arithOffset, .number (.fin dfl))])], arg argList 1)
    else ([(key.toName, .object (arithParams dfl (arg argList 1)))], arg argList 2)
  { target := .arithmetic, args := [.object kdict, .null]
    callback := interceptEndure key (.object kdict) (.object []) false callback }

/-- The options of a multi call: spooled unless they say otherwise. Truthy options are an object;
    `in` throws a `TypeError` at any others. -/
def multiOptions (options : Value) : Value :=
  if !options.truthy then .object [(NameMap.spooled, .bool true)]
  else if (options.getRealNamedProperty NameMap.spooled).isNone then
    .object (Assoc.writes options.entries [(NameMap.spooled, .bool true)])
  else options

/-- `_multiHelper` -/
def multiHelper (target : Kind) (argList : List Value) : NativeCall :=
  let options := multiOptions (arg argList 1)
  { target := target, args := [arg argList 0, options]
    callback := interceptEndure .null (arg argList 0) options false (arg argList 2) }

end Connection

/-- The methods of `Connection` that change documents and know of durability. -/
inductive Mutation where
  | set | add | replace | append | prepend | incr | decr | remove
  | setMulti | addMulti | replaceMulti | appendMulti | prependMulti | removeMulti
  deriving DecidableEq

namespace Mutation

/-- The methods, as they are defined. -/
def invoke : Mutation → List Value → NativeCall
  | set => Connection.invokeStorage .set
  | add => Connection.invokeStorage .add
  | replace => Connection.invokeStorage .replace
  | append => Connection.invokeStorage .append
  | prepend => Connection.invokeStorage .prepend
  | incr => Connection.arithHelper 1
  | decr => Connection.arithHelper (-1)
  | remove => Connection.argHelperRemove
  | setMulti => Connection.multiHelper (.store .set)
  | addMulti => Connection.multiHelper (.store .add)
  | replaceMulti => Connection.multiHelper (.store .replace)
  | appendMulti => Connection.multiHelper (.store .append)
  | prependMulti => Connection.multiHelper (.store .prepend)
  | removeMulti => Connection.multiHelper .delete

def isMulti : Mutation → Bool
  | setMulti | addMulti | replaceMulti | appendMulti | prependMulti | removeMulti => true
  | _ => false

def isRemoval : Mutation → Bool
  | remove | removeMulti => true
  | _ => false

/-- The arguments of a call with options: the key or the `kv` object, the value of a storage
    method, the options and the callback. -/
def argList (m : Mutation) (subject value options callback : Value) : List Value :=
  match m with
  | set | add | replace | append | prepend => [subject, value, options, callback]
  | _ => [subject, options, callback]

end Mutation

/-- The methods of `Connection` that leave a document's value alone. -/
inductive Access where
  | get | touch | lock | unlock | observe
  | getMulti | lockMulti | unlockMulti | observeMulti
  deriving DecidableEq

/-- The methods, as they are defined. -/
def Access.invoke : Access → List Value → NativeCall
  | get => Connection.argHelper2 .get
  | touch => Connection.argHelper2 .touch
  | lock => Connection.argHelper2 .lock
  | unlock => Connection.argHelperMerge2 .unlock
  | observe => Connection.argHelperMerge2 .observe
  | getMulti => Connection.multiHelper .get
  | lockMulti => Connection.multiHelper .lock
  | unlockMulti => Connection.multiHelper .unlock
  | observeMulti => Connection.multiHelper .observe

end Couchnode
