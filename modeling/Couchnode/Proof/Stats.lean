import Couchnode.Lib.Grouped
import Couchnode.Proof.Answers

/-!
# What a stats request hears

The servers of a cluster answer a stats request together: one response for each statistic of each
server, in whatever order they arrive, and a response without an endpoint at the end.
`StatsCookie::update` files them under their server and their key, and keeps the first error.

What is filed is a dictionary of dictionaries (`stats_run`), so the results do not show how the
answers of the servers were mixed. `Has` also finds what every object inherits; a server of such
a name would be lost. A server is named by its host and its port, and such names are not inherited
(`fromServer_own`).
-/

set_option autoImplicit false

namespace Couchnode

/-- A statistic as it arrives, with the status of its response. -/
structure Stat where
  err : Int
  endpoint : List UInt8
  key : List UInt8
  bytes : List UInt8

namespace Stat

def resp (r : Stat) : StatResp :=
  { serverEndpoint := some r.endpoint, key := r.key, bytes := r.bytes }

def event (r : Stat) : Int × Option StatResp := (r.err, some r.resp)

variable [Runtime]

def server (r : Stat) : String := Runtime.stringNew r.endpoint

def name (r : Stat) : String := Runtime.stringNew r.key

def value (r : Stat) : Value := .string (Runtime.stringNew r.bytes)

/-- What is filed for it. -/
def binding (r : Stat) : String × String × Value := (r.server, r.name, r.value)

/-- libcouchbase names a server by its host and its port. -/
def FromServer (r : Stat) : Prop := ∃ host port, r.server = host ++ ":" ++ port

/-- The last value a server gave for a key. -/
def lastValue (rs : List Stat) (server key : String) : Option Value :=
  (rs.filter fun r => r.server = server ∧ r.name = key).getLast?.map value

/-- What one server answered, in its order. -/
def stream (rs : List Stat) (server : String) : List (String × Value) :=
  (rs.filter fun r => r.server = server).map fun r => (r.name, r.value)

end Stat

/-- The end of the answers: no response, or one without an endpoint. -/
def EndsStats (last : Int × Option StatResp) : Prop :=
  ∀ resp, last.2 = some resp → resp.serverEndpoint = none

/-- The first status that is no success. -/
def firstFailure (statuses : List Int) : Int :=
  (statuses.find? fun status => status ≠ LCB_SUCCESS).getD LCB_SUCCESS

namespace Proof

open Command Stat

/-! ## The first error -/

/-- `lastError` after a response: the first failure stays. -/
def latch (e status : Int) : Int :=
  if status ≠ LCB_SUCCESS && e = LCB_SUCCESS then status else e

theorem firstFailure_cons (status : Int) (statuses : List Int) :
    firstFailure (status :: statuses) =
      if status ≠ LCB_SUCCESS then status else firstFailure statuses := by
  unfold firstFailure
  by_cases h : status = LCB_SUCCESS <;> simp [h]

/-- Latching finds the first failure. -/
theorem foldl_latch (e : Int) (statuses : List Int) :
    statuses.foldl latch e = firstFailure (e :: statuses) := by
  induction statuses generalizing e with
  | nil => by_cases h : e = LCB_SUCCESS <;> simp [firstFailure, h]
  | cons status statuses ih =>
    rw [List.foldl_cons, ih, firstFailure_cons, firstFailure_cons, firstFailure_cons]
    by_cases h : e = LCB_SUCCESS
    · by_cases hs : status = LCB_SUCCESS <;> simp [latch, h, hs]
    · simp [latch, h]

theorem firstFailure_success {statuses : List Int} :
    firstFailure statuses = LCB_SUCCESS ↔ ∀ status ∈ statuses, status = LCB_SUCCESS := by
  induction statuses with
  | nil => simp [firstFailure]
  | cons status statuses ih =>
    rw [firstFailure_cons, List.forall_mem_cons, ← ih]
    by_cases h : status = LCB_SUCCESS <;> simp [h]

variable [Runtime]

/-! ## One response -/

/-- The results object over a dictionary of statistics. -/
def serverObjects (d : List (String × Props)) : Props := Assoc.mapValues Value.object d

section Step

variable {c : Cookie} {r : Stat} {d : List (String × Props)}

omit [Runtime] in
/-- An endpoint has a colon, and nothing inherited has one. -/
theorem inherited_colon {host port : String} : prototypeHas (host ++ ":" ++ port) = false := by
  have hcolon : ':' ∈ (host ++ ":" ++ port).toList := by simp
  have hnone : ∀ name ∈ objectPrototype, ':' ∉ name.toList := by decide
  unfold prototypeHas
  rw [Bool.or_eq_false_iff, decide_eq_false_iff_not, decide_eq_false_iff_not]
  constructor
  · intro hmem
    exact hnone _ hmem hcolon
  · intro hproto
    rw [hproto] at hcolon
    exact absurd hcolon (by decide)

theorem fromServer_own (h : r.FromServer) : prototypeHas r.server = false := by
  obtain ⟨host, port, hname⟩ := h
  rw [hname]
  exact inherited_colon

omit [Runtime] in
theorem latchError_eq (hlive : c.deletes = 0) (err : Int) :
    c.latchError err = { c with lastError := latch c.lastError err } := by
  have htouch : c.touch = c := if_pos hlive
  unfold Cookie.latchError latch
  dsimp only
  rw [htouch]
  split
  · rfl
  · rfl

theorem addStat_eq (hlive : c.deletes = 0) (hinfo : c.spooledInfo = some (serverObjects d))
    (hown : prototypeHas r.server = false) :
    c.addStat r.endpoint r.resp =
      { c with spooledInfo := some (serverObjects (Grouped.file r.binding d)) } := by
  have htouch : c.touch = c := if_pos hlive
  have hget : (serverObjects d).lookup r.server = (d.lookup r.server).map Value.object :=
    Assoc.lookup_mapValues _ d r.server
  have hfile (stats : Props) :
      forceSet r.server (.object (forceSet r.name r.value stats)) (serverObjects d) =
        serverObjects (Assoc.set r.server (Assoc.set r.name r.value stats) d) :=
    Assoc.set_mapValues Value.object r.server _ d
  unfold Stat.server at hget hown
  unfold Cookie.addStat Grouped.file Stat.binding
  dsimp only
  rw [htouch, hinfo, Option.getD_some, Stat.resp, hget, hown]
  unfold Stat.server
  cases d.lookup (Runtime.stringNew r.endpoint) with
  | none => exact congrArg (fun ps => { c with spooledInfo := some ps }) (hfile [])
  | some stats => exact congrArg (fun ps => { c with spooledInfo := some ps }) (hfile stats)

/-- A server with an inherited name would be lost: the value is set on what is inherited. -/
theorem addStat_inherited (hlive : c.deletes = 0)
    (hinfo : c.spooledInfo = some (serverObjects d)) (hnew : d.lookup r.server = none)
    (hin : prototypeHas r.server = true) : c.addStat r.endpoint r.resp = c := by
  have htouch : c.touch = c := if_pos hlive
  have hget : (serverObjects d).lookup r.server = none := by
    rw [serverObjects, Assoc.lookup_mapValues, hnew]
    rfl
  unfold Stat.server at hget hin
  unfold Cookie.addStat
  dsimp only
  rw [htouch, hinfo, Option.getD_some, hget]
  exact if_pos hin

/-- **One response**: it is filed under its server and its key. -/
theorem statsUpdate_stat (hlive : c.deletes = 0) (hinfo : c.spooledInfo = some (serverObjects d))
    (hown : prototypeHas r.server = false) :
    c.statsUpdate r.event =
      { c with
        lastError := latch c.lastError r.err
        spooledInfo := some (serverObjects (Grouped.file r.binding d)) } := by
  show (c.latchError r.err).addStat r.endpoint r.resp = _
  rw [latchError_eq hlive]
  exact addStat_eq hlive hinfo hown

/-- The end: the one call, and the end of the cookie. -/
theorem statsUpdate_end {last : Int × Option StatResp} (hlive : c.deletes = 0)
    (hend : EndsStats last) :
    c.statsUpdate last =
      { c with
        lastError := latch c.lastError last.1
        calls := c.calls ++ [{
          fn := c.callback
          args := [errorObject (latch c.lastError last.1), .object (c.spooledInfo.getD [])] }]
        deletes := 1 } := by
  have hinvoke : c.statsUpdate last =
      (c.latchError last.1).statsInvoke (c.latchError last.1).lastError := by
    obtain ⟨err, resp⟩ := last
    unfold Cookie.statsUpdate
    cases resp with
    | none => rfl
    | some resp =>
      have hnone : resp.serverEndpoint = none := hend resp rfl
      simp only [hnone]
  rw [hinvoke, latchError_eq hlive]
  simp [Cookie.statsInvoke, Cookie.invoke, Cookie.delete, Cookie.touch, hlive]

end Step

/-! ## All of them -/

section Run

variable {c : Cookie} {rs : List Stat}

/-- **A run of responses**: everything is filed, and the first error latched. -/
theorem stats_run (hlive : c.deletes = 0) {d : List (String × Props)}
    (hinfo : c.spooledInfo = some (serverObjects d))
    (hown : ∀ r ∈ rs, prototypeHas r.server = false) :
    Cookie.statsAll (rs.map Stat.event) c =
      { c with
        lastError := (rs.map Stat.err).foldl latch c.lastError
        spooledInfo := some (serverObjects (Grouped.fileAll (rs.map Stat.binding) d)) } := by
  induction rs generalizing c d with
  | nil =>
    cases c
    cases hinfo
    rfl
  | cons r rs ih =>
    have hstep := statsUpdate_stat hlive hinfo (hown r List.mem_cons_self)
    have hrest := ih (c := { c with
        lastError := latch c.lastError r.err
        spooledInfo := some (serverObjects (Grouped.file r.binding d)) })
      hlive rfl fun r' hr' => hown r' (List.mem_cons_of_mem _ hr')
    show Cookie.statsAll (rs.map Stat.event) (c.statsUpdate r.event) = _
    rw [hstep, hrest]
    rfl

end Run

/-! ## The results -/

section Results

variable {rs rs' : List Stat} {server : String}

/-- Each server that answered has an object, with the last value of each of its keys. -/
def Aggregates (rs : List Stat) (results : Props) : Prop :=
  ∀ server,
    ((∀ r ∈ rs, r.server ≠ server) → results.lookup server = none) ∧
    ((∃ r ∈ rs, r.server = server) → ∃ stats, results.lookup server = some (.object stats) ∧
      ∀ key, stats.lookup key = lastValue rs server key)

/-- The results object of a run. -/
def collected (rs : List Stat) : Props :=
  serverObjects (Grouped.fileAll (rs.map Stat.binding) [])

theorem stream_bindings : Grouped.stream server (rs.map Stat.binding) = stream rs server := by
  unfold Grouped.stream Stat.stream
  rw [List.filter_map, List.map_map]
  rfl

theorem stream_eq_nil : stream rs server = [] ↔ ∀ r ∈ rs, r.server ≠ server := by
  simp [Stat.stream]

theorem lookup_collected :
    (collected rs).lookup server =
      if stream rs server = [] then none
      else some (.object (Assoc.writes (stream rs server) [])) := by
  rw [collected, serverObjects, Assoc.lookup_mapValues, Grouped.lookup_fileAll_nil,
    stream_bindings]
  split <;> rfl

/-- The last binding of a key is its last value. -/
theorem lookup_stream (key : String) :
    (Assoc.writes (stream rs server) []).lookup key = lastValue rs server key := by
  rw [← stream_bindings, Grouped.lookup_writes_stream, List.filter_map, List.getLast?_map,
    Option.map_map]
  rfl

theorem collected_aggregates (rs : List Stat) : Aggregates rs (collected rs) := by
  intro server
  rw [lookup_collected]
  constructor
  · intro hnone
    exact if_pos (stream_eq_nil.mpr hnone)
  · rintro ⟨r, hr, hserver⟩
    have hsome : stream rs server ≠ [] := fun hnil => stream_eq_nil.mp hnil r hr hserver
    exact ⟨_, if_neg hsome, lookup_stream⟩

/-- **How the servers were mixed does not show.** -/
theorem collected_congr (h : ∀ server, stream rs server = stream rs' server) (server : String) :
    (collected rs).lookup server = (collected rs').lookup server := by
  have hstreams (server : String) : Grouped.stream server (rs.map Stat.binding) =
      Grouped.stream server (rs'.map Stat.binding) := by
    rw [stream_bindings, stream_bindings, h server]
  unfold collected serverObjects
  rw [Assoc.lookup_mapValues, Assoc.lookup_mapValues, Grouped.lookup_fileAll_congr hstreams]

end Results

section Request

variable {args : List Value} {h : Heap} {hd : Header Kind.stats.Opts} {st : PState}

/-- The application heard once, of a status and of the results. -/
structure HeardOnce (callback : Value) (status : Int) (results : Props) (c : Cookie) : Prop where
  call : c.calls = [{ fn := callback, args := [errorObject status, .object results] }]
  deleted : c.deletes = 1
  alive : c.usedAfterDelete = false

/-- The statuses of a run, its end included. -/
def statuses (rs : List Stat) (last : Int × Option StatResp) : List Int :=
  rs.map Stat.err ++ [last.1]

/-- A fresh stats cookie. -/
def statsCookie (callback : Value) : Cookie :=
  (Cookie.create .stats 0).setCallback callback .spooled

theorem stats_cookie (hacc : accept Kind.stats.cls args (Command.start h) = .done hd st) :
    (ofState hd st).createCookie Kind.stats.cls = statsCookie (lastArg args) := by
  rw [← (createCookie_callback hacc).1]
  rfl

variable {callback : Value} {rs : List Stat}

/-- Before the end nothing is heard. -/
theorem stats_waiting (hown : ∀ r ∈ rs, prototypeHas r.server = false) :
    (Cookie.statsAll (rs.map Stat.event) (statsCookie callback)).calls = [] ∧
      (Cookie.statsAll (rs.map Stat.event) (statsCookie callback)).deletes = 0 := by
  have hrun := stats_run (c := statsCookie callback) (d := []) rfl rfl hown
  rw [hrun]
  exact ⟨rfl, rfl⟩

/-- At the end everything is, with the first error. -/
theorem stats_end {last : Int × Option StatResp}
    (hown : ∀ r ∈ rs, prototypeHas r.server = false) (hend : EndsStats last) :
    HeardOnce callback (firstFailure (statuses rs last)) (collected rs)
      (Cookie.statsAll (rs.map Stat.event ++ [last]) (statsCookie callback)) := by
  have hrun := stats_run (c := statsCookie callback) (d := []) rfl rfl hown
  have hlatch : latch ((rs.map Stat.err).foldl latch LCB_SUCCESS) last.1 =
      firstFailure (statuses rs last) := by
    have hall := foldl_latch LCB_SUCCESS (statuses rs last)
    rw [firstFailure_cons, if_neg (by simp)] at hall
    rw [← hall, statuses, List.foldl_append]
    rfl
  have happ (c : Cookie) : Cookie.statsAll (rs.map Stat.event ++ [last]) c =
      (Cookie.statsAll (rs.map Stat.event) c).statsUpdate last := by
    unfold Cookie.statsAll
    rw [List.foldl_append]
    rfl
  rw [happ, hrun, statsUpdate_end rfl hend]
  exact ⟨by rw [← hlatch]; rfl, rfl, rfl⟩

/-- One cookie is heard with one results object. -/
theorem HeardOnce.unique {status status' : Int} {results results' : Props} {c : Cookie}
    (h : HeardOnce callback status results c) (h' : HeardOnce callback status' results' c) :
    results = results' := by
  have hcalls := h.call.symm.trans h'.call
  simp only [List.cons.injEq, Invocation.mk.injEq, Value.object.injEq] at hcalls
  exact hcalls.1.2.2.1

/-- **What a stats request hears**: nothing until the end, and then once, of the last value of each
    key of each server and of the first error, if there was one. How the answers of the servers
    were mixed does not show in the results. -/
theorem stats_heard (hacc : accept Kind.stats.cls args (Command.start h) = .done hd st) :
    let start := (ofState hd st).createCookie Kind.stats.cls
    (∀ rs last, (∀ r ∈ rs, r.FromServer) → EndsStats last →
      (∀ n, (Cookie.statsAll ((rs.take n).map Stat.event) start).calls = [] ∧
        (Cookie.statsAll ((rs.take n).map Stat.event) start).deletes = 0) ∧
      (∃ results,
        HeardOnce (lastArg args) (firstFailure (statuses rs last)) results
          (Cookie.statsAll (rs.map Stat.event ++ [last]) start) ∧ Aggregates rs results) ∧
      ((errorObject (firstFailure (statuses rs last))).isUndefined ↔
        ∀ status ∈ statuses rs last, status = LCB_SUCCESS)) ∧
    (∀ rs rs' last last' status status' results results',
      (∀ r ∈ rs, r.FromServer) → (∀ r ∈ rs', r.FromServer) → EndsStats last → EndsStats last' →
      (∀ server, stream rs server = stream rs' server) →
      HeardOnce (lastArg args) status results
        (Cookie.statsAll (rs.map Stat.event ++ [last]) start) →
      HeardOnce (lastArg args) status' results'
        (Cookie.statsAll (rs'.map Stat.event ++ [last']) start) →
      ∀ server, results.lookup server = results'.lookup server) := by
  intro start
  have hstart : start = statsCookie (lastArg args) := stats_cookie hacc
  rw [hstart]
  constructor
  · intro rs last hserver hend
    have hown : ∀ r ∈ rs, prototypeHas r.server = false := fun r hr =>
      fromServer_own (hserver r hr)
    refine ⟨fun n => ?_, ⟨_, stats_end hown hend, collected_aggregates rs⟩, ?_⟩
    · apply stats_waiting
      intro r hr
      exact hown r (List.mem_of_mem_take hr)
    · rw [errorObject_undefined, decide_eq_true_iff]
      exact firstFailure_success
  · intro rs rs' last last' status status' results results' hserver hserver' hend hend' hstreams
      hheard hheard' server
    have hfst : results = collected rs :=
      hheard.unique (stats_end (fun r hr => fromServer_own (hserver r hr)) hend)
    have hsnd : results' = collected rs' :=
      hheard'.unique (stats_end (fun r hr => fromServer_own (hserver' r hr)) hend')
    rw [hfst, hsnd]
    exact collected_congr hstreams server

end Request

end Proof

section Example

open scoped SmallRuntime

def statsArgs : List Value := [.string "memory", .null, .function 1]

/-- What a server of the cluster says. -/
def stat (err : Int) (server key value : String) : Stat :=
  { err := err, endpoint := utf8 server, key := utf8 key, bytes := utf8 value }

theorem stat_fromServer (err : Int) (host port key value : String) :
    (stat err (host ++ ":" ++ port) key value).FromServer :=
  ⟨host, port, SmallRuntime.stringNewInverse _⟩

/-- Two servers, of which one fails and one corrects itself. -/
def twoServers : List Stat :=
  [stat 0 ("10.0.0.1" ++ ":" ++ "11210") "mem_used" "1",
   stat 22 ("10.0.0.2" ++ ":" ++ "11210") "mem_used" "2",
   stat 0 ("10.0.0.1" ++ ":" ++ "11210") "mem_used" "3"]

/-- One call, with both servers and the error of the second. -/
theorem Proof.stats_heard_two :
    ∃ hd st, Command.accept Kind.stats.cls statsArgs (Command.start []) = .done hd st ∧
      ∃ results,
        Proof.HeardOnce (.function 1) (firstFailure (Proof.statuses twoServers (0, none))) results
          (Cookie.statsAll (twoServers.map Stat.event ++ [(0, none)])
            ((Command.ofState hd st).createCookie Kind.stats.cls)) ∧
        Proof.Aggregates twoServers results := by
  obtain ⟨hd, st, hacc, _⟩ := Outcome.exists_of_check
    (Command.accept Kind.stats.cls statsArgs (Command.start [])) (fun _ _ => true)
    (by decide +kernel)
  have hserver : ∀ r ∈ twoServers, r.FromServer := by
    unfold twoServers
    simp only [List.forall_mem_cons, stat_fromServer, true_and]
    exact fun r hr => absurd hr List.not_mem_nil
  exact ⟨hd, st, hacc,
    ((Proof.stats_heard hacc).1 twoServers (0, none) hserver (fun _ h => nomatch h)).2.1⟩

end Example

end Couchnode
