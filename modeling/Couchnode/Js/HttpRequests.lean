import Couchnode.Js.Connection
import Couchnode.Js.Rest
import Couchnode.Lib.FormEncoding

/-!
# The HTTP requests of the library

A query of a view and the three methods for design documents end in `cb.httpRequest(null, options,
handler)`, where the handler is a function `makeRestHandler` has made. A `RestRequest` is one of
them; `invoke` is what it does, an error being what `JSON.stringify` threw before anything was
requested.

`Qs.stringify` has the parameters of a query as pairs of texts; `Qs.text` is the text they make.
-/

set_option autoImplicit false

namespace Couchnode

/-- `LCB_HTTP_TYPE_VIEW` -/
def LCB_HTTP_TYPE_VIEW : Int := 0

/-- `LCB_HTTP_METHOD_PUT` -/
def LCB_HTTP_METHOD_PUT : Int := 2

/-- `LCB_HTTP_METHOD_DELETE` -/
def LCB_HTTP_METHOD_DELETE : Int := 3

variable [Runtime]

/-- What `stringify` of `querystring` returns: a group of pairs for each property. An empty array
    has none, but its place between two `&` is kept. The strings are well formed; at one that is not
    it throws a `URIError`. -/
def Qs.text (q : Props) : String :=
  .ofList (FormEncoding.join (q.map fun p => (texts p.2).map fun text => (utf8 p.1, utf8 text)))

/-- `cb.httpRequest(null, options, handler)` -/
def httpRequest (options : Props) (handler : Value) : NativeCall :=
  { target := .http, args := [.null, .object options], callback := .user handler }

/-- The request `_request` makes. -/
def ViewQuery.send (vq : ViewQuery) (q : Props) (handler : Value) : NativeCall :=
  httpRequest
    [(NameMap.httpPath, .string ((vq.request q).path ++ "?" ++ Qs.text q)),
     (NameMap.httpType, .number (.fin LCB_HTTP_TYPE_VIEW)),
     (NameMap.httpMethod, .number (.fin LCB_HTTP_METHOD_GET))] handler

/-- `makeDoc` -/
def makeDoc (doc : Value) : Except Value Value :=
  if doc.isString then .ok doc else Runtime.jsonStringify doc

/-- `setDesignDoc` -/
def setDesignDoc (name : String) (data handler : Value) : Except Value NativeCall := do
  let data ← makeDoc data
  pure (httpRequest
    [(NameMap.httpPath, .string ("_design/" ++ name)),
     (NameMap.httpContent, data),
     (NameMap.httpMethod, .number (.fin LCB_HTTP_METHOD_PUT)),
     (NameMap.httpContentType, .string "application/json"),
     (NameMap.httpType, .number (.fin LCB_HTTP_TYPE_VIEW))] handler)

/-- `getDesignDoc` -/
def getDesignDoc (name : String) (handler : Value) : NativeCall :=
  httpRequest
    [(NameMap.httpPath, .string ("_design/" ++ name)),
     (NameMap.httpMethod, .number (.fin LCB_HTTP_METHOD_GET)),
     (NameMap.httpType, .number (.fin LCB_HTTP_TYPE_VIEW))] handler

/-- `removeDesignDoc` -/
def removeDesignDoc (name : String) (handler : Value) : NativeCall :=
  httpRequest
    [(NameMap.httpPath, .string ("_design/" ++ name)),
     (NameMap.httpMethod, .number (.fin LCB_HTTP_METHOD_DELETE)),
     (NameMap.httpType, .number (.fin LCB_HTTP_TYPE_VIEW))] handler

/-- The requests of the library. A view is queried with the parameters `q`, wherever they come
    from: `query`, `firstPage`, `next` or `prev`. -/
inductive RestRequest where
  | view (vq : ViewQuery) (q : Props)
  | setDesignDoc (name : String) (data : Value)
  | getDesignDoc (name : String)
  | removeDesignDoc (name : String)

namespace RestRequest

/-- What a request does. -/
def invoke (handler : Value) : RestRequest → Except Value NativeCall
  | view vq q => .ok (vq.send q handler)
  | setDesignDoc name data => Couchnode.setDesignDoc name data handler
  | getDesignDoc name => .ok (Couchnode.getDesignDoc name handler)
  | removeDesignDoc name => .ok (Couchnode.removeDesignDoc name handler)

end RestRequest

end Couchnode
