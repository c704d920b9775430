import Couchnode.Js.ViewQuery
import Couchnode.Lib.Paging

/-!
# What a view answers, and what a session with a paginator delivers

The server keeps the rows of a view in a strict order of their positions, a position being the
key of a row and the name of its document. A request for `m` rows from a position is answered with
the first `m` rows at or after it (`Serves`); the position is read off the texts of the request,
the start key being JSON.

A session is a first page and then one call after the other, each made when the one before it has
been answered.
-/

set_option autoImplicit false

namespace Couchnode

variable [Runtime]

/-- A row of a view. `fields` are its value and whatever else it comes with. -/
structure Row where
  key : Value
  id : String
  fields : Props

namespace Row

def toValue (row : Row) : Value :=
  .object (("id", .string row.id) :: ("key", row.key) :: row.fields)

theorem toValue_key (row : Row) : row.toValue.getProperty "key" = row.key := rfl

theorem toValue_id (row : Row) : row.toValue.getProperty "id" = .string row.id := rfl

/-- The position of a row: its key, and the name of its document. -/
def position (row : Row) : Value × String := (row.key, row.id)

end Row

/-- The order a server keeps rows in. -/
structure Collation where
  before : Value × String → Value × String → Bool
  irrefl : ∀ p, before p p = false
  trans : ∀ p q r, before p q = true → before q r = true → before p r = true

omit [Runtime] in
theorem Collation.asymm (c : Collation) (p q : Value × String) (h : c.before p q = true) :
    c.before q p = false := by
  by_contra hq
  have hp := c.trans p q p h (Bool.eq_true_of_not_eq_false hq)
  rw [c.irrefl p] at hp
  cases hp

/-- The rows of a view, strictly ordered. -/
def Collation.Sorted (c : Collation) (rows : List Row) : Prop :=
  rows.Pairwise fun x y => c.before x.position y.position = true

/-! ## The server -/

/-- The texts a request has under a name. -/
def Params.texts (params : Params) (name : String) : List String :=
  (params.filter fun p => p.1 = name).map Prod.snd

/-- The one text of a parameter is JSON for a value. -/
def Params.Denotes (params : Params) (name : String) (v : Value) : Prop :=
  ∃ text, params.texts name = [text] ∧ Runtime.jsonParse text = .ok v

/-- A request for `m` rows of a view, from a position or from where the view query starts. -/
structure Asks (vq : ViewQuery) (r : ViewRequest) (m : Nat) (start : Option (Value × String)) :
    Prop where
  path : r.path = (vq.request vq.q).path
  limit : r.params.texts "limit" = [Runtime.numberToString (.fin m)]
  skip : r.params.texts "skip" = []
  start : match start with
    | none => ∀ name ∈ ["startkey", "startkey_docid"],
        r.params.texts name = (vq.request vq.q).params.texts name
    | some (key, id) => r.params.Denotes "startkey" key ∧ r.params.texts "startkey_docid" = [id]
  others : ∀ name ∉ ["limit", "startkey", "startkey_docid"],
    r.params.texts name = (vq.request vq.q).params.texts name

/-- The first `m` rows from a position on. -/
def Collation.rowsFrom (c : Collation) (rows : List Row) (m : Nat) :
    Option (Value × String) → List Row
  | none => rows.take m
  | some p => (rows.filter fun row => !c.before row.position p).take m

/-- The results an application is given for some rows. -/
def pageOf (rows : List Row) : Delivered :=
  { err := .null, results := .array (rows.map Row.toValue) }

/-- The server has these rows for a view query, and answers every request for them. -/
def Serves (c : Collation) (server : ViewRequest → Delivered) (vq : ViewQuery) (rows : List Row) :
    Prop :=
  ∀ r m start, Asks vq r m start → server r = pageOf (c.rowsFrom rows m start)

/-! ## A session -/

/-- A method that was called, with its request answered. -/
def Move.perform (server : ViewRequest → Delivered) (vq : ViewQuery) : Move → Page
  | .request p q waiting => p.resume vq (server (vq.request q)) waiting
  | .done page => page

theorem Move.perform_request (server : ViewRequest → Delivered) (vq : ViewQuery) (p : Paginator)
    (q : Props) (waiting : Waiting) : (Move.request p q waiting).perform server vq =
      p.resume vq (server (vq.request q)) waiting := rfl

/-- One call of a paginator. -/
def Paginator.turn (server : ViewRequest → Delivered) (vq : ViewQuery) (p : Paginator) :
    Paging.Turn → Page
  | .next => (p.next vq).perform server vq
  | .prev => (p.prev vq).perform server vq

theorem Paginator.turn_next (server : ViewRequest → Delivered) (vq : ViewQuery) (p : Paginator) :
    p.turn server vq .next = (p.next vq).perform server vq := rfl

theorem Paginator.turn_prev (server : ViewRequest → Delivered) (vq : ViewQuery) (p : Paginator) :
    p.turn server vq .prev = (p.prev vq).perform server vq := rfl

/-- Some calls, one after the other: what they deliver. -/
def Paginator.run (server : ViewRequest → Delivered) (vq : ViewQuery) :
    Paginator → List Paging.Turn → Except Value (List Delivered)
  | _, [] => .ok []
  | p, t :: ts => do
    let (p, page) ← p.turn server vq t
    let pages ← run server vq p ts
    pure (page :: pages)

/-- `next()` as long as `hasNext()`: what it delivers when it comes to an end. -/
inductive Forward (server : ViewRequest → Delivered) (vq : ViewQuery) :
    Paginator → List Delivered → Prop
  | done {p : Paginator} : p.hasNext = false → Forward server vq p []
  | next {p p' : Paginator} {page : Delivered} {pages : List Delivered} :
      p.hasNext = true → p.turn server vq .next = .ok (p', page) → Forward server vq p' pages →
      Forward server vq p (page :: pages)

/-- The first page: the view query, the paginator and the page. -/
def firstPage (server : ViewRequest → Delivered) (vq : ViewQuery) :
    Except Value (ViewQuery × Paginator × Delivered) := do
  let (vq, move) ← vq.firstPage []
  let (p, page) ← move.perform server vq
  pure (vq, p, page)

/-- **Forward paging enumerates the view**: it ends, the pages together are the rows, and every
    page but the last has the length of the limit. -/
def Enumerates (server : ViewRequest → Delivered) (vq : ViewQuery) (limit : Nat)
    (rows : List Row) : Prop :=
  ∃ vq' p first pages, firstPage server vq = .ok (vq', p, first) ∧ Forward server vq' p pages ∧
    (first :: pages).flatMap (fun page => page.results.rows) = rows.map Row.toValue ∧
    ∀ page ∈ (first :: pages).dropLast, page.results.rows.length = limit

end Couchnode
