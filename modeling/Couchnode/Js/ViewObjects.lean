import Couchnode.Js.ViewQuery
import Couchnode.Lib.Blocks
import Couchnode.Lib.Prog

/-!
# `lib/viewQuery.js` — the objects behind a query

`Js/ViewQuery` has parameters as values. Here they are what they are in JavaScript, objects known
by reference: `normalizeQuery` changes the object it is given and returns it, a view keeps that
object itself, and `firstPage` writes to the one its query object keeps. A program refuses when
`JSON.stringify` throws, and what it did to the objects until then stays.

An application that passes no parameters has a fresh object made for it.
-/

set_option autoImplicit false

namespace Couchnode

/-- An object known by reference: it has no property twice. -/
@[ext] structure JsObject where
  props : Props
  nodup : (Assoc.keys props).Nodup

namespace JsObject

/-- `{}` -/
def empty : JsObject := ⟨[], List.nodup_nil⟩

/-- `o[name] = v` -/
def set (name : String) (v : Value) (o : JsObject) : JsObject :=
  ⟨forceSet name v o.props, Assoc.nodup_keys_set o.nodup⟩

/-- `delete o[name]` -/
def delete (name : String) (o : JsObject) : JsObject :=
  ⟨o.props.filter fun p => p.1 ≠ name, Assoc.nodup_keys_filter o.nodup⟩

/-- `extend(dest, src)`, for the properties there are. -/
def extend (dest src : JsObject) : JsObject :=
  ⟨Couchnode.extend dest.props src.props, Assoc.nodup_keys_writes dest.nodup⟩

end JsObject

/-- The objects there are. -/
abbrev Objects := Blocks JsObject

/-- A reference to one of them. -/
abbrev Ref := Nat

/-- A query object: its parameters are the object behind `q`. -/
structure QueryObject where
  ddoc : String
  name : String
  q : Ref

/-- The value a query object is, when these are its parameters. -/
def QueryObject.at (vq : QueryObject) (params : Props) : ViewQuery :=
  { ddoc := vq.ddoc, name := vq.name, q := params }

namespace Objects

/-- Read an object. A program has no reference to an object that is not there. -/
def load (r : Ref) : Prog Objects JsObject := fun h =>
  match h.read r with
  | some o => .done o h
  | none => .fault

/-- Change an object. -/
def update (r : Ref) (f : JsObject → JsObject) : Prog Objects Unit := fun h =>
  match h.read r with
  | some o => .done () (h.put r (f o))
  | none => .fault

/-- Make an empty object. -/
def new : Prog Objects Ref := fun h => .done h.length (h.alloc .empty)

/-- `extend` -/
def extend (dest src : Ref) : Prog Objects Ref := do
  let s ← load src
  update dest fun d => d.extend s
  pure dest

variable [Runtime]

/-- One turn of the loop in `normalizeQuery`. -/
def normalizeField (query : Ref) (q : String) : Prog Objects Unit :=
  if q ∉ viewFields then update query (JsObject.delete q)
  else if q ∈ jsonFields then do
    let o ← load query
    match Runtime.jsonStringify ((Value.object o.props).getProperty q) with
    | .ok text => update query (JsObject.set q text)
    | .error _ => Prog.refuse
  else pure ()

/-- `normalizeQuery` -/
def normalizeQuery (query : Ref) : Prog Objects Ref := do
  let o ← load query
  Prog.each (fun _ q => normalizeField query q) 0 (Assoc.keys o.props)
  pure query

/-- `extend(extend({}, base), normalizeQuery(q))` -/
def override (base q : Ref) : Prog Objects Ref := do
  let dest ← new
  let dest ← extend dest base
  let q ← normalizeQuery q
  extend dest q

/-- `q.limit` -/
def limit (q : Ref) : Prog Objects Value := do
  let o ← load q
  pure (limitOf o.props)

end Objects

namespace QueryObject

open Objects

variable [Runtime]

/-- `new ViewQuery` -/
def create (ddoc name : String) (params : Ref) : Prog Objects QueryObject := do
  let q ← Objects.normalizeQuery params
  pure { ddoc := ddoc, name := name, q := q }

/-- `view` of `lib/http.js` -/
def view (ddoc name : String) (query : Ref) : Prog Objects QueryObject := create ddoc name query

/-- `_request` -/
def request (vq : QueryObject) (q : Ref) : Prog Objects ViewRequest := do
  let o ← load q
  pure { path := "_design/" ++ vq.ddoc ++ "/_view/" ++ vq.name, params := Qs.stringify o.props }

def query (vq : QueryObject) (q : Ref) : Prog Objects ViewRequest := do
  let q ← override vq.q q
  vq.request q

def clone (vq : QueryObject) (cparams : Ref) : Prog Objects QueryObject := do
  let params ← new
  let newq ← create vq.ddoc vq.name params
  let q ← override vq.q cparams
  pure { newq with q := q }

/-- `if (q.limit == undefined) this.q.limit = q.limit = DEFAULT_LIMIT` -/
def setLimit (vq : QueryObject) (q : Ref) : Prog Objects Unit := do
  let l ← limit q
  Prog.when l.isNullish (do
    update q (JsObject.set "limit" ViewQuery.defaultLimit)
    update vq.q (JsObject.set "limit" ViewQuery.defaultLimit))

/-- `firstPage`, up to its request. -/
def firstPage (vq : QueryObject) (q : Ref) : Prog Objects ViewRequest := do
  let q ← override vq.q q
  vq.setLimit q
  let l ← limit q
  update q (JsObject.set "limit" l.addOne)
  vq.request q

end QueryObject

/-- A call that is given parameters. -/
inductive ViewCall where
  | view (ddoc name : String)
  | clone (vq : QueryObject)
  | query (vq : QueryObject)
  | firstPage (vq : QueryObject)

namespace ViewCall

/-- What a call returns or sends. -/
inductive Result where
  | made (vq : QueryObject)
  | sent (r : ViewRequest)

/-- The query object a method is called on. -/
def receiver : ViewCall → Option QueryObject
  | view _ _ => none
  | clone vq | query vq | firstPage vq => some vq

/-- The call with the object `p`. -/
def run [Runtime] (p : Ref) : ViewCall → Prog Objects Result
  | view ddoc name => do
    let vq ← QueryObject.view ddoc name p
    pure (.made vq)
  | clone vq => do
    let newq ← vq.clone p
    pure (.made newq)
  | query vq => do
    let r ← vq.query p
    pure (.sent r)
  | firstPage vq => do
    let r ← vq.firstPage p
    pure (.sent r)

end ViewCall

end Couchnode
