import Couchnode.Js.Connection

/-!
# `lib/viewQuery.js` — queries of a view, and a paginator over its rows

A `ViewQuery` keeps the normalised parameters of a view. A query or a page is one HTTP request,
whose parameters are written by `qs.stringify`; `escape`, which the server undoes, is left out, so
a request has a path and a list of names with their texts. Strings are well formed here: at an
unpaired surrogate `escape` throws a `URIError`, and no request is made.

A page is asked for in one step and delivered in another, when the answer is there: `Move` is what a
method of the paginator does at once, and `Paginator.resume` what its callback does with the
answer. The results are an array of rows, which are objects, or something that has no `length`.
The paginator's stack of earlier pages is a list with the last one pushed at its head.
-/

set_option autoImplicit false

namespace Couchnode

namespace Num

/-- `n + 1` -/
def succ : Num → Num
  | fin q => fin (q + 1)
  | n => n

/-- `<` -/
def lt : Num → Num → Bool
  | nan, _ | _, nan => false
  | fin p, fin q => p < q
  | fin _, inf negative => !negative
  | inf negative, fin _ => negative
  | inf p, inf q => p && !q

/-- `<=` -/
def le : Num → Num → Bool
  | nan, _ | _, nan => false
  | p, q => !q.lt p

end Num

variable [Runtime]

namespace Value

/-- `v == null` -/
def isNullish (v : Value) : Bool := v.isNull || v.isUndefined

/-- `v += 1` -/
def addOne : Value → Value
  | .string s => .string (s ++ "1")
  | v => if v.isObject then .string (v.toName ++ "1") else .number v.toNum.succ

/-- The rows of some results. -/
def rows : Value → List Value
  | .array rows => rows
  | _ => []

/-- `results.length` -/
def rowCount : Value → Num
  | .array rows => .fin rows.length
  | _ => .nan

end Value

/-! ## Parameters -/

/-- The parameters of a request, as the server reads them. -/
abbrev Params := List (String × String)

namespace Qs

def stringifyPrimitive : Value → String
  | .string s => s
  | .bool b => if b then "true" else "false"
  | .number (.fin q) => Runtime.numberToString (.fin q)
  | _ => ""

/-- The texts of one property, whose strings are well formed: an array has one for each element. -/
def texts : Value → List String
  | .array vs => vs.map stringifyPrimitive
  | v => [stringifyPrimitive v]

def stringify (q : Props) : Params := q.flatMap fun p => (texts p.2).map fun text => (p.1, text)

end Qs

def extend (dest src : Props) : Props := Assoc.writes src dest

def viewFields : List String :=
  ["descending", "endkey", "endkey_docid", "full_set", "group", "group_level", "inclusive_end",
   "include_docs", "key", "keys", "limit", "on_error", "reduce", "skip", "stale", "startkey",
   "startkey_docid"]

def jsonFields : List String := ["endkey", "key", "keys", "startkey"]

/-- `normalizeQuery`: the fields of a view, JSON where they hold keys. An error is what
    `JSON.stringify` threw. -/
def normalizeQuery : Props → Except Value Props
  | [] => .ok []
  | (q, v) :: query =>
    if q ∉ viewFields then normalizeQuery query
    else if q ∈ jsonFields then do
      let text ← Runtime.jsonStringify v
      let query ← normalizeQuery query
      pure ((q, text) :: query)
    else do
      let query ← normalizeQuery query
      pure ((q, v) :: query)

/-! ## Queries -/

structure ViewQuery where
  ddoc : String
  name : String
  q : Props

/-- An HTTP request for a view. -/
structure ViewRequest where
  path : String
  params : Params

/-- What a callback is given. -/
structure Delivered where
  err : Value
  results : Value

namespace ViewQuery

def defaultLimit : Value := .number (.fin 10)

def new (ddoc name : String) (params : Props) : Except Value ViewQuery := do
  let q ← normalizeQuery params
  pure { ddoc := ddoc, name := name, q := q }

/-- `_request`; it throws where `qs.stringify` does, which well-formed strings leave out. -/
def request (vq : ViewQuery) (q : Props) : ViewRequest :=
  { path := "_design/" ++ vq.ddoc ++ "/_view/" ++ vq.name, params := Qs.stringify q }

def query (vq : ViewQuery) (q : Props) : Except Value ViewRequest := do
  let q ← normalizeQuery q
  pure (vq.request (extend (extend [] vq.q) q))

def clone (vq : ViewQuery) (cparams : Props) : Except Value ViewQuery := do
  let newq ← new vq.ddoc vq.name []
  let cparams ← normalizeQuery cparams
  pure { newq with q := extend (extend [] vq.q) cparams }

end ViewQuery

/-- `q.limit` -/
def limitOf (q : Props) : Value := (Value.object q).getProperty "limit"

/-- `q.limit += 1` -/
def incLimit (q : Props) : Props := forceSet "limit" (limitOf q).addOne q

/-! ## The paginator -/

structure Paginator where
  prevkey : Value := .null
  nextkey : Value := .null
  prevkeyDocid : Value := .null
  nextkeyDocid : Value := .null
  prevpages : List (Value × Value) := []

/-- The callback a request of the paginator waits for. `startPage` closes over the limit of its
    request. -/
inductive Waiting where
  | startPage (limit : Value)
  | next
  | prev

/-- A callback that has run: the paginator and what the application was given. An error is
    what was thrown instead. -/
abbrev Page := Except Value (Paginator × Delivered)

/-- What a method of the paginator does at once. -/
inductive Move where
  | request (p : Paginator) (q : Props) (waiting : Waiting)
  | done (page : Page)

namespace Paginator

/-- The end of `startPage` and of `_paginate`: the row too many is taken off the results, and is
    where the next page starts. -/
def takeNext (more : Bool) (results : Value) (p : Paginator) :
    Except Value (Paginator × Value) :=
  if more then
    match results.rows.getLast? with
    | some x =>
      .ok ({ p with nextkey := x.getProperty "key", nextkeyDocid := x.getProperty "id" },
        .array results.rows.dropLast)
    | none => .error (.error "TypeError" [])
  else .ok ({ p with nextkey := .null, nextkeyDocid := .null }, results)

/-- `startPage` -/
def startPage (limit err results : Value) (p : Paginator) : Page :=
  if results.truthy then do
    let p :=
      match results.rows with
      | [] => p
      | row :: _ =>
        { p with prevkey := row.getProperty "key", prevkeyDocid := row.getProperty "id" }
    let (p, results) ← p.takeNext (limit.toNum.le results.rowCount) results
    pure (p, { err := err, results := results })
  else .ok (p, { err := err, results := results })

/-- The page that is left goes onto the stack. -/
def push (p : Paginator) : Paginator :=
  if !p.prevkey.isNullish && !p.prevkeyDocid.isNullish then
    { p with prevpages := (p.prevkey, p.prevkeyDocid) :: p.prevpages }
  else p

/-- `_paginate` -/
def paginate (qobj : ViewQuery) (err results : Value) (p : Paginator) : Page :=
  if results.truthy then do
    let p :=
      match results.rows with
      | [] => p
      | row :: _ =>
        { p.push with prevkey := row.getProperty "key", prevkeyDocid := row.getProperty "id" }
    let (p, results) ← p.takeNext ((limitOf qobj.q).toNum.lt results.rowCount) results
    pure (p, { err := err, results := results })
  else .ok (p, { err := err, results := if results.isNullish then .array [] else results })

def hasNext (p : Paginator) : Bool := !p.nextkey.isNullish

/-- The query for the page that starts at a key. -/
def pageQuery (qobj : ViewQuery) (startkey startkeyDocid : Value) : Props :=
  incLimit (extend (extend [] qobj.q)
    [("startkey", startkey), ("startkey_docid", startkeyDocid)])

def next (qobj : ViewQuery) (p : Paginator) : Move :=
  if p.nextkey.truthy && p.nextkeyDocid.truthy then
    .request p (pageQuery qobj p.nextkey p.nextkeyDocid) .next
  else .done (p.paginate qobj .null (.array []))

def prev (qobj : ViewQuery) (p : Paginator) : Move :=
  match p.prevpages with
  | [] => .done (p.paginate qobj .null .null)
  | nk :: prevpages => .request { p with prevpages := prevpages } (pageQuery qobj nk.1 nk.2) .prev

/-- The callback of a request. -/
def resume (qobj : ViewQuery) (answer : Delivered) (p : Paginator) : Waiting → Page
  | .startPage limit => p.startPage limit answer.err answer.results
  | .next => p.paginate qobj answer.err answer.results
  | .prev => { p with prevkey := .null, prevkeyDocid := .null }.paginate qobj answer.err answer.results

end Paginator

/-- `firstPage`: the view query, whose limit may have been set, and the request. -/
def ViewQuery.firstPage (vq : ViewQuery) (q : Props) : Except Value (ViewQuery × Move) := do
  let q ← normalizeQuery q
  let q := extend (extend [] vq.q) q
  let (vq, q) :=
    if (limitOf q).isNullish then
      ({ vq with q := forceSet "limit" defaultLimit vq.q }, forceSet "limit" defaultLimit q)
    else (vq, q)
  let q := incLimit q
  pure (vq, .request {} q (.startPage (limitOf q)))

end Couchnode
