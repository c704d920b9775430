import Couchnode.Js.HttpRequests
import Couchnode.Proof.Batch
import Couchnode.Proof.HttpRequest

/-!
# What libcouchbase is called with for an HTTP request of the library

The native layer takes every request `lib/http.js` and `lib/viewQuery.js` make, and libcouchbase
gets one command for it: its path, its method, its body and its content type. The one exception is a
design document that has no JSON, which is turned down before anything is sent (`rest_carried`).

The path of a query has its parameters in it. Whoever reads them there gets the names and values
they had, whatever characters these are made of, unless a name before them has a `?`
(`url_read_iff`).
-/

set_option autoImplicit false

namespace Couchnode

namespace Proof

open Prog Command ParamSlot

variable [Runtime]

/-! ## Any options -/

section Options

variable {ps : Props} {i : Nat} {h : Heap}

/-- A string option that was read is sent as its bytes. -/
theorem slotText_sent {slot : Slot (Option Value)} {t : Option String} (hs : SlotText slot t) :
    HttpCommand.text slot = t.map utf8 := by
  unfold HttpCommand.text
  rw [hs.given]
  cases t with
  | none => rfl
  | some x =>
    obtain ⟨hv, hne⟩ := hs.text x rfl
    have hbytes : utf8 x ≠ [] := List.length_pos_iff.mp (utf8_pos hne)
    rw [hv]
    simp [backedString, Value.isString, Value.toName, hbytes]

/-- The command for some options. -/
def httpCommand (ps : Props) : LcbReq :=
  { LcbReq.empty with
    path := (textOf ps NameMap.httpPath).map utf8
    contentType := ((textOf ps NameMap.httpContentType).map utf8).map (·.takeWhile (· ≠ 0))
    bytes := (textOf ps NameMap.httpContent).map utf8
    nums := { method := (integerOf ps NameMap.httpMethod).getD LCB_HTTP_METHOD_GET } }

theorem httpRequest_sent {o : HttpOptions} {key hashkey : Option Bytes} {params : Option Value}
    (hvalid : HttpCommand.valid o = true) (ho : HttpRead ps o) :
    Kind.http.request o key hashkey params = some (httpCommand ps) := by
  show HttpCommand.request o key hashkey params = _
  unfold HttpCommand.request httpCommand
  rw [if_pos hvalid, slotText_sent ho.path, slotText_sent ho.contentType, slotText_sent ho.content,
    methodOf_eq ho]

/-- **Admissible options are sent as they are.** -/
theorem http_lower (hps : StringsOf ps) (ha : Admissible ps) {t : Int}
    (ht : integerOf ps NameMap.httpType = some t) :
    lower .http (httpArgs .null ps i) h = some { entry := .http t, cmds := [httpCommand ps] } := by
  obtain ⟨o, hparse⟩ := (http_parses_iff hps).mpr ha.numeric
  have ho := http_read hps hparse
  have hfound : o.path.isFound = true := by
    have hpath := ha.path
    unfold textOf at hpath
    rw [ho.found]
    cases hl : ps.lookup NameMap.httpPath with
    | none =>
      rw [hl] at hpath
      cases hpath
    | some v => rfl
  have hnull : Value.null.isObject = false := rfl
  obtain ⟨hd, st, hacc, hc⟩ := (http_runs hnull hps hparse).2.2 hfound (ha.taken ho)
  have hacc : accept Kind.http.cls (httpArgs .null ps i) (Command.start h) = .done hd st := hacc
  have hglob : hd.globalOptions = o := by
    obtain ⟨o', ho', hglob⟩ := header_options (accept_header hacc)
    have hsame : callOptions HttpCommand (httpArgs .null ps i) = some o :=
      congrArg Parsed.toOption hparse
    cases hsame.symm.trans ho'
    exact hglob
  obtain ⟨reqs, hreqs, hlen, _, hready⟩ := accept_ready hacc none
  have hitems : hd.keys.items = [(some .null, none)] := by
    rw [header_keys (accept_header hacc)]
    rfl
  have hreq : reqs = [httpCommand ps] := by
    unfold Command.requests itemRequest at hreqs
    rw [hitems, List.mapM_cons, List.mapM_nil] at hreqs
    simp only [Option.bind_eq_bind, Option.bind_eq_some_iff, Option.pure_def,
      Option.some.injEq] at hreqs
    obtain ⟨req, ⟨hashkey, _, key, _, hreq⟩, _, rfl, rfl⟩ := hreqs
    rw [hglob, httpRequest_sent (ha.taken ho) ho] at hreq
    rw [← Option.some.inj hreq]
  have hexec : (ofState hd st).execute HttpCommand st.heap = _ :=
    execute_ready hready fun _ => hlen
  unfold lower
  rw [hacc]
  show (ofState hd st).execute HttpCommand st.heap = _
  have htype : (ofState hd st).htType = t := Option.some.inj (hc.type.symm.trans ht)
  rw [hexec, hreq, htype]
  rfl

/-- A call of libcouchbase for a view or a design document. -/
def sent (method : Int) (path : String) (contentType body : Option String) : LcbCall :=
  { entry := .http LCB_HTTP_TYPE_VIEW
    cmds := [{ LcbReq.empty with
      path := some (utf8 path), contentType := contentType.map utf8, bytes := body.map utf8
      nums := { method := method } }] }

omit [Runtime] in
theorem textOf_string {name t : String} (hl : ps.lookup name = some (.string t)) :
    textOf ps name = if t = "" then none else some t := by
  unfold textOf
  rw [hl]

omit [Runtime] in
theorem textOf_none {name : String} (hl : ps.lookup name = none) : textOf ps name = none := by
  unfold textOf
  rw [hl]

/-- The options of a request of the library, by name. -/
structure LibraryOptions (ps : Props) (method : Int) (path : String)
    (contentType body : Option String) : Prop where
  path : ps.lookup NameMap.httpPath = some (.string path)
  method : integerOf ps NameMap.httpMethod = some method
  type : integerOf ps NameMap.httpType = some LCB_HTTP_TYPE_VIEW
  contentType : ps.lookup NameMap.httpContentType = contentType.map .string
  body : ps.lookup NameMap.httpContent = body.map .string
  hashkey : ps.lookup NameMap.hashkey = none

omit [Runtime] in
/-- An empty text is none. -/
theorem filter_text (t : String) :
    (some t).filter (· ≠ "") = if t = "" then none else some t := by
  by_cases ht : t = "" <;> simp [Option.filter, ht]

/-- **A request of the library is sent as it is.** -/
theorem library_lower {method : Int} {path : String} {contentType body : Option String}
    (ho : LibraryOptions ps method path contentType body) (hpath : path ≠ "")
    (hmethod : 0 ≤ method ∧ method < LCB_HTTP_METHOD_MAX)
    (hct : ∀ t, contentType = some t → t ≠ "" ∧ (utf8 t).takeWhile (· ≠ 0) = utf8 t) :
    lower .http (httpArgs .null ps i) h =
      some (sent method path contentType (body.filter (· ≠ ""))) := by
  have htext := textOf_string ho.path
  rw [if_neg hpath] at htext
  have hstrings : StringsOf ps := by
    intro name hname v hv
    simp only [List.mem_cons, List.not_mem_nil, or_false] at hname
    rcases hname with rfl | rfl | rfl | rfl
    · exact ⟨path, Option.some.inj (hv.symm.trans ho.path)⟩
    · obtain ⟨t, _, ht⟩ := Option.map_eq_some_iff.mp (ho.body.symm.trans hv)
      exact ⟨t, ht.symm⟩
    · obtain ⟨t, _, ht⟩ := Option.map_eq_some_iff.mp (ho.contentType.symm.trans hv)
      exact ⟨t, ht.symm⟩
    · cases ho.hashkey.symm.trans hv
  have hadmissible : Admissible ps :=
    ⟨by rw [htext]; rfl, ⟨_, ho.type, by decide, by decide⟩, .inr ⟨method, ho.method, hmethod⟩⟩
  have hbody : textOf ps NameMap.httpContent = body.filter (· ≠ "") := by
    cases hb : body with
    | none =>
      rw [textOf_none (ho.body.trans (by rw [hb]; rfl))]
      rfl
    | some t =>
      rw [textOf_string (ho.body.trans (by rw [hb]; rfl)), filter_text]
  have htype : (((textOf ps NameMap.httpContentType).map utf8).map (·.takeWhile (· ≠ 0))) =
      contentType.map utf8 := by
    cases hc : contentType with
    | none =>
      rw [textOf_none (ho.contentType.trans (by rw [hc]; rfl))]
      rfl
    | some t =>
      obtain ⟨hne, hnul⟩ := hct t hc
      rw [textOf_string (ho.contentType.trans (by rw [hc]; rfl)), if_neg hne]
      exact congrArg some hnul
  rw [http_lower hstrings hadmissible ho.type]
  unfold httpCommand sent
  rw [htext, hbody, htype, ho.method]
  rfl

end Options

/-! ## The requests -/

section Requests

variable {handler : Value} {i : Nat} {h : Heap}

/-- The call of libcouchbase a request is for, if `doc` is the text of its document. -/
def callFor (doc : String) : RestRequest → LcbCall
  | .view vq q => sent LCB_HTTP_METHOD_GET ((vq.request q).path ++ "?" ++ Qs.text q) none none
  | .setDesignDoc name _ =>
    sent LCB_HTTP_METHOD_PUT ("_design/" ++ name) (some "application/json")
      (if doc = "" then none else some doc)
  | .getDesignDoc name => sent LCB_HTTP_METHOD_GET ("_design/" ++ name) none none
  | .removeDesignDoc name => sent LCB_HTTP_METHOD_DELETE ("_design/" ++ name) none none

/-- The text of the document of a request. -/
def HasDocument (r : RestRequest) (doc : String) : Prop :=
  ∀ name data, r = .setDesignDoc name data → makeDoc data = .ok (.string doc)

omit [Runtime] in
theorem append_ne_empty {s : String} (hs : s ≠ "") (t : String) : s ++ t ≠ "" := by
  intro h
  exact hs (String.append_eq_empty_iff.mp h).1

/-- The options of `setDesignDoc`. -/
def putOptions (name : String) (data : Value) : Props :=
  [(NameMap.httpPath, .string ("_design/" ++ name)),
   (NameMap.httpContent, data),
   (NameMap.httpMethod, .number (.fin LCB_HTTP_METHOD_PUT)),
   (NameMap.httpContentType, .string "application/json"),
   (NameMap.httpType, .number (.fin LCB_HTTP_TYPE_VIEW))]

theorem setDesignDoc_done {name : String} {data doc : Value} (hdoc : makeDoc data = .ok doc) :
    (RestRequest.setDesignDoc name data).invoke handler =
      .ok (httpRequest (putOptions name doc) handler) := by
  show setDesignDoc name data handler = _
  unfold setDesignDoc
  rw [hdoc]
  rfl

/-- **A request whose document has a text is sent**, with this text. -/
theorem request_sent {r : RestRequest} {doc : String} (hdoc : HasDocument r doc) :
    ∃ call, r.invoke handler = .ok call ∧ requested call i h = some (callFor doc r) := by
  have hdesign (name : String) : "_design/" ++ name ≠ "" := append_ne_empty (by decide) name
  cases r with
  | view vq q =>
    have hpath : (vq.request q).path ++ "?" ++ Qs.text q ≠ "" := by
      unfold ViewQuery.request
      exact append_ne_empty (append_ne_empty (append_ne_empty (append_ne_empty (hdesign vq.ddoc) _)
        vq.name) _) _
    exact ⟨_, rfl, @library_lower _ _ i h LCB_HTTP_METHOD_GET _ none none
      ⟨rfl, rfl, rfl, rfl, rfl, rfl⟩ hpath (by decide) (by simp)⟩
  | setDesignDoc name data =>
    have hjson : ∀ t, some "application/json" = some t →
        t ≠ "" ∧ (utf8 t).takeWhile (· ≠ 0) = utf8 t := by
      intro t ht
      cases ht
      exact ⟨by decide, by decide +kernel⟩
    have hcall : callFor doc (.setDesignDoc name data) =
        sent LCB_HTTP_METHOD_PUT ("_design/" ++ name) (some "application/json")
          ((some doc).filter (· ≠ "")) := by
      rw [filter_text]
      rfl
    refine ⟨_, setDesignDoc_done (hdoc name data rfl), ?_⟩
    rw [hcall]
    exact @library_lower _ _ i h LCB_HTTP_METHOD_PUT _ (some "application/json") (some doc)
      ⟨rfl, rfl, rfl, rfl, rfl, rfl⟩ (hdesign name) (by decide) hjson
  | getDesignDoc name =>
    exact ⟨_, rfl, @library_lower _ _ i h LCB_HTTP_METHOD_GET _ none none
      ⟨rfl, rfl, rfl, rfl, rfl, rfl⟩ (hdesign name) (by decide) (by simp)⟩
  | removeDesignDoc name =>
    exact ⟨_, rfl, @library_lower _ _ i h LCB_HTTP_METHOD_DELETE _ none none
      ⟨rfl, rfl, rfl, rfl, rfl, rfl⟩ (hdesign name) (by decide) (by simp)⟩

/-- A document that has no JSON, as a function has none, is turned down. -/
theorem request_refused {name : String} {data : Value} (hdoc : makeDoc data = .ok .undefined) :
    ∃ call st, (RestRequest.setDesignDoc name data).invoke handler = .ok call ∧
      accept call.target.cls (call.args ++ [.function i]) (Command.start h) = .refused st := by
  have hbad (o : HttpOptions) :
      parseAll (some (.object (putOptions name .undefined))) HttpOptions.specs {} ≠ .ok o := by
    intro hparse
    rw [http_parseAll] at hparse
    obtain ⟨_, hcontent, _⟩ := http_parsed.mp hparse
    cases hcontent
  have hrefused : ∃ st, accept HttpCommand
      (httpArgs .null (putOptions name .undefined) i) (Command.start h) = .refused st :=
    http_unparsed hbad
  obtain ⟨st, hst⟩ := hrefused
  exact ⟨_, st, setDesignDoc_done hdoc, hst⟩

theorem request_throws {name : String} {data e : Value} (hdoc : makeDoc data = .error e) :
    (RestRequest.setDesignDoc name data).invoke handler = .error e := by
  show setDesignDoc name data handler = _
  unfold setDesignDoc
  rw [hdoc]
  rfl

/-- **Every HTTP request of the library is sent as it is meant**: one command with its path, its
    method, its content type and the text of its document. A document without JSON is turned down,
    and one `JSON.stringify` throws at is not asked for. -/
theorem rest_carried (r : RestRequest) (handler : Value) (i : Nat) (h : Heap) :
    (∀ doc, HasDocument r doc →
      ∃ call, r.invoke handler = .ok call ∧ requested call i h = some (callFor doc r)) ∧
    ∀ name data, r = .setDesignDoc name data →
      (makeDoc data = .ok .undefined → ∃ call st, r.invoke handler = .ok call ∧
        accept call.target.cls (call.args ++ [.function i]) (Command.start h) = .refused st) ∧
      ∀ e, makeDoc data = .error e → r.invoke handler = .error e := by
  refine ⟨fun doc hdoc => request_sent hdoc, ?_⟩
  rintro name data rfl
  exact ⟨request_refused, fun e => request_throws⟩

/-! ## The URL of a query -/

/-- The pairs of a text are the parameters it was made of. -/
theorem text_pairs (q : Props) :
    (q.map fun p => (Qs.texts p.2).map fun text => (utf8 p.1, utf8 text)).flatten =
      (Qs.stringify q).map fun p => (utf8 p.1, utf8 p.2) := by
  unfold Qs.stringify
  rw [List.map_flatMap, ← List.flatMap_def]
  apply List.flatMap_congr
  intro p _
  rw [List.map_map]
  rfl

theorem question_path (vq : ViewQuery) (q : Props) :
    '?' ∉ (vq.request q).path.toList ↔ '?' ∉ vq.ddoc.toList ∧ '?' ∉ vq.name.toList := by
  unfold ViewQuery.request
  simp only [String.toList_append, List.mem_append, not_or]
  constructor
  · rintro ⟨⟨⟨_, hddoc⟩, _⟩, hname⟩
    exact ⟨hddoc, hname⟩
  · rintro ⟨hddoc, hname⟩
    exact ⟨⟨⟨by decide, hddoc⟩, by decide⟩, hname⟩

/-- **The URL of a query is read as it is meant**, whatever characters its parameters are made of,
    exactly when there is no `?` in the names of the design document and the view. -/
theorem url_read_iff (vq : ViewQuery) (q : Props) (handler : Value) (i : Nat) (h : Heap) :
    ∃ url, requested (vq.send q handler) i h = some (sent LCB_HTTP_METHOD_GET url none none) ∧
      (FormEncoding.readUrl url.toList =
          some ((vq.request q).path.toList,
            (vq.request q).params.map fun p => (utf8 p.1, utf8 p.2)) ↔
        '?' ∉ vq.ddoc.toList ∧ '?' ∉ vq.name.toList) := by
  have hdoc : HasDocument (.view vq q) "" := by
    intro name data he
    cases he
  obtain ⟨call, hcall, hsent⟩ := @request_sent _ handler i h _ _ hdoc
  cases hcall
  refine ⟨(vq.request q).path ++ "?" ++ Qs.text q, hsent, ?_⟩
  rw [← question_path vq q]
  constructor
  · exact FormEncoding.readUrl_path
  · intro hpath
    have hurl : ((vq.request q).path ++ "?" ++ Qs.text q).toList =
        (vq.request q).path.toList ++ '?' :: FormEncoding.join
          (q.map fun p => (Qs.texts p.2).map fun text => (utf8 p.1, utf8 text)) := by
      unfold Qs.text
      simp only [String.toList_append, String.toList_ofList, List.append_assoc]
      rfl
    rw [hurl, FormEncoding.readUrl_join hpath, text_pairs]
    rfl

end Requests

end Proof

end Couchnode
