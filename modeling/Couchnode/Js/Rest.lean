import Couchnode.Js.ViewQuery
import Couchnode.Lib.Prog
import Couchnode.Native.Operation

/-!
# `lib/http.js` — the callback of a REST request

`makeRestHandler` makes the function an HTTP request calls back, out of the callback of the
application. It is a program here that finishes or throws (a refusal), and its state is what it
did so far: the calls of the inner callback, which outlive a throw, and what was logged.

A body is what `JSON.parse` returns, so its objects have no prototype but the built-in one and
none of their properties is a function. What is read of a body is never inherited.
-/

set_option autoImplicit false

namespace Couchnode

/-- The code units of a string. One half of a surrogate pair is no character; it is written as
    the replacement character. -/
def utf16Units (s : String) : List String :=
  s.toList.flatMap fun c =>
    if c.toNat < 0x10000 then [String.singleton c] else ["\uFFFD", "\uFFFD"]

namespace Value

mutual

/-- `"" + v` returns: an object in `v` with a `toString` of its own has no text, as that is no
    function. -/
def hasText : Value → Bool
  | array elems => haveText elems
  | object props => (props.lookup "toString").isNone
  | _ => true

def haveText : List Value → Bool
  | [] => true
  | v :: vs => hasText v && haveText vs

end

variable [Runtime]

/-- `v[i]` -/
def item (v : Value) (i : Nat) : Value :=
  match v with
  | string s => ((utf16Units s)[i]?.map string).getD undefined
  | array elems => elems[i]?.getD undefined
  | v => v.getProperty (toString i)

/-- `v.length` -/
def lengthOf : Value → Value
  | string s => number (.fin (utf16Units s).length)
  | array elems => number (.fin elems.length)
  | v => v.getProperty "length"

/-- How many items there are at most. -/
def itemCount : Value → Nat
  | string s => (utf16Units s).length
  | v => v.entries.length

end Value

/-! ## What the native layer delivers -/

/-- What calls the function `makeRestHandler` makes: `bailOut`, or `HttpCookie::update` with a
    response or without. -/
inductive Delivery where
  | rejected (ex : CBExc)
  | cancelled (err : Int)
  | answered (err : Int) (resp : HttpResp)

variable [Runtime]

/-- The arguments of the call. -/
def Delivery.args : Delivery → List Value
  | rejected ex => [ex.asValue]
  | cancelled err => [errorObject err]
  | answered err resp => [errorObject err, .object (Cookie.httpPayload err resp)]

theorem bailOut_args {args : List Value} {ex : CBExc} {i : Invocation}
    (h : bailOut args ex = some (.invoked i)) : i.args = (Delivery.rejected ex).args := by
  unfold bailOut at h
  simp only at h
  split at h
  · unfold CBExc.throwV8 at h
    split at h <;> cases h
  · cases h
    rfl

theorem httpUpdate_args (err : Int) (resp : Option HttpResp) (c : Cookie) :
    c.httpUpdate err resp =
      (c.invoke (resp.elim (.cancelled err) (.answered err) : Delivery).args).delete := by
  cases resp <;> rfl

/-! ## The handler -/

namespace Rest

/-- What a handler has done: `calls` are the arguments of the inner callback. -/
structure State where
  calls : List (Value × Value) := []
  logged : List Value := []

/-- `innerCallback(error, result)` -/
def innerCallback (error result : Value) : Prog State Unit :=
  Prog.modify fun s => { s with calls := s.calls ++ [(error, result)] }

/-- `console.log` -/
def log (v : Value) : Prog State Unit := Prog.modify fun s => { s with logged := s.logged ++ [v] }

/-- `v.name` -/
def read (v : Value) (name : String) : Prog State Value :=
  if v.isNullish then Prog.refuse else pure (v.getProperty name)

/-- `"" + v` -/
def text (v : Value) : Prog State String := if v.hasText then pure v.toName else Prog.refuse

/-- The error of an HTTP status that is no success. Nothing reads it. -/
def httpError (error response : Value) : Prog State Value := do
  let status ← read response NameMap.httpStatus
  if error.truthy && status.toNum.lt (.fin 200) || (Num.fin 299).lt status.toNum then
    pure (.error ("HTTP error " ++ status.toName) [])
  else pure error

/-- The body: `undefined` if it is no JSON, which is reported first. -/
def parse (response : Value) : Prog State Value := do
  let data ← read response NameMap.httpContent
  match Runtime.jsonParse data.toName with
  | .ok body => pure body
  | .error parseError => do
    innerCallback parseError .null
    pure .undefined

/-- An error with a text and, if `of` has one, the reason. -/
def restError (what of : Value) : Prog State Value := do
  let text ← text what
  let reason ← read of "reason"
  pure (.error ("REST error " ++ text)
    (("code", .number (.fin 9999)) :: if reason.truthy then [("reason", reason)] else []))

/-- The indices the loop over `body.errors` goes through, out of the first `n`. -/
def indices (errors : Value) (n : Nat) : List Nat :=
  (List.range n).takeWhile fun i => (Num.fin i).lt errors.lengthOf.toNum

/-- The errors at some indices. -/
def collect (errors : Value) : List Nat → Prog State (List Value)
  | [] => pure []
  | i :: is => do
    let e ← restError (errors.item i) (errors.item i)
    let es ← collect errors is
    pure (e :: es)

/-- The loop over `body.errors`. The first index without an item throws, so it ends at the item
    after the last one at the latest (`collect_indices`). -/
def errorList (errors : Value) : Prog State Value := do
  let _ ← text errors.lengthOf
  let es ← collect errors (indices errors (errors.itemCount + 1))
  pure (.array es)

/-- `errObj` after the test of `body.error`. -/
def singleError (body : Value) : Prog State Value := do
  let error ← read body "error"
  if body.truthy && error.truthy then restError error body else pure .null

/-- `errObj` -/
def errorOf (body : Value) : Prog State Value := do
  let errObj ← singleError body
  let errors ← read body "errors"
  if body.truthy && errors.truthy then errorList errors else pure errObj

/-- What is passed on of a body. -/
def resultsOf (body : Value) : Prog State Value := do
  let rows ← read body "rows"
  let results ← read body "results"
  let views ← read body "views"
  if rows.truthy then pure rows
  else if results.truthy then pure results
  else if views.truthy then pure body
  else pure .null

/-- The handler after the body was parsed. -/
def answer (body : Value) : Prog State Unit := do
  let debugInfo ← read body "debug_info"
  Prog.when debugInfo.truthy (log debugInfo)
  let errObj ← errorOf body
  let results ← resultsOf body
  innerCallback errObj results

end Rest

/-- The function `makeRestHandler` makes. -/
def makeRestHandler (args : List Value) : Prog Rest.State Unit := do
  let _ ← Rest.httpError (Command.arg args 0) (Command.arg args 1)
  let body ← Rest.parse (Command.arg args 1)
  Rest.answer body

end Couchnode
