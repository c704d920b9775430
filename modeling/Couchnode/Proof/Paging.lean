import Couchnode.Lib.Run
import Couchnode.Spec.Views
import Couchnode.V8.Runtime
import Mathlib.Algebra.Order.Ring.Rat
import Mathlib.Data.Prod.Lex
import Mathlib.Data.String.Basic

/-!
# A paginator is a cursor over pages

The position of a paginator is spread over four fields and a stack. `At` says what they hold on
page `i`: where the page starts, where the next one starts, and the starts of all the earlier ones.
A call moves from one page to another as the cursor does, if the key it sends is read back by the
server as it was (`Readable`) and, for `next`, if it is not false.
-/

set_option autoImplicit false

namespace Couchnode

namespace Proof

open Paging

variable [Runtime]

/-! ## The parameters of a request -/

section Texts

omit [Runtime] in
theorem texts_append (ps qs : Params) (name : String) :
    (ps ++ qs).texts name = ps.texts name ++ qs.texts name := by
  unfold Params.texts
  rw [List.filter_append, List.map_append]

omit [Runtime] in
theorem texts_named (k name : String) (ts : List String) :
    Params.texts (ts.map fun t => (k, t)) name = if k = name then ts else [] := by
  unfold Params.texts
  by_cases h : k = name
  · induction ts with
    | nil => simp
    | cons t ts ih => simpa [h] using ih
  · induction ts with
    | nil => simp
    | cons t ts ih => simp [h]

/-- The texts of a name are those of the property with that name. -/
theorem texts_stringify {q : Props} (hnd : (Assoc.keys q).Nodup) (name : String) :
    (Qs.stringify q).texts name = (q.lookup name).elim [] Qs.texts := by
  induction q with
  | nil => rfl
  | cons p q ih =>
    obtain ⟨k, v⟩ := p
    obtain ⟨hk, hnd⟩ := List.nodup_cons.mp hnd
    have ih := ih hnd
    show Params.texts ((Qs.texts v).map (fun t => (k, t)) ++ Qs.stringify q) name = _
    rw [texts_append, texts_named, ih, List.lookup_cons]
    by_cases h : k = name
    · subst h
      have hnone : q.lookup k = none := List.lookup_eq_none_iff.mpr fun p hp => by
        have : p.1 ≠ k := fun he => hk (List.mem_map.mpr ⟨p, hp, he⟩)
        simpa using this.symm
      simp [hnone]
    · have hne : (name == k) = false := by simpa using fun e : name = k => h e.symm
      simp [h, hne]

end Texts

/-- The parameters of a view query with a limit: there is no `skip`. -/
structure Limited (vq : ViewQuery) (len : Nat) : Prop where
  nodup : (Assoc.keys vq.q).Nodup
  limit : vq.q.lookup "limit" = some (.number (.fin len))
  skip : vq.q.lookup "skip" = none

section Normalize

variable {params q : Props}

/-- One property: it is no field of a view and goes, or it stays under its name. -/
theorem normalizeQuery_cons {k : String} {v : Value}
    (h : normalizeQuery ((k, v) :: params) = .ok q) :
    ∃ q', normalizeQuery params = .ok q' ∧
      ((k ∉ viewFields ∧ q = q') ∨
        (k ∈ viewFields ∧ ∃ v', q = (k, v') :: q' ∧ (k ∉ jsonFields → v' = v))) := by
  unfold normalizeQuery at h
  by_cases hf : k ∈ viewFields
  · rw [if_neg (not_not.mpr hf)] at h
    by_cases hj : k ∈ jsonFields
    · rw [if_pos hj] at h
      cases ht : Runtime.jsonStringify v with
      | error e =>
        rw [ht] at h
        cases h
      | ok text =>
        cases hq : normalizeQuery params with
        | error e =>
          rw [ht, hq] at h
          cases h
        | ok q' =>
          rw [ht, hq] at h
          cases h
          exact ⟨q', rfl, .inr ⟨hf, text, rfl, fun hn => absurd hj hn⟩⟩
    · rw [if_neg hj] at h
      cases hq : normalizeQuery params with
      | error e =>
        rw [hq] at h
        cases h
      | ok q' =>
        rw [hq] at h
        cases h
        exact ⟨q', rfl, .inr ⟨hf, v, rfl, fun _ => rfl⟩⟩
  · rw [if_pos hf] at h
    exact ⟨q, h, .inl ⟨hf, rfl⟩⟩

/-- A field that holds no key is what it was. -/
theorem lookup_normalizeQuery (h : normalizeQuery params = .ok q) {name : String}
    (hfield : name ∈ viewFields) (hjson : name ∉ jsonFields) :
    q.lookup name = params.lookup name := by
  induction params generalizing q with
  | nil =>
    cases h
    rfl
  | cons p params ih =>
    obtain ⟨k, v⟩ := p
    obtain ⟨q', hq', ⟨hk, rfl⟩ | ⟨hk, v', rfl, hv⟩⟩ := normalizeQuery_cons h
    · have hne : (name == k) = false := by
        rw [beq_eq_false_iff_ne]
        rintro rfl
        exact hk hfield
      rw [List.lookup_cons, hne]
      exact ih hq'
    · rw [List.lookup_cons, List.lookup_cons, ih hq']
      by_cases he : name = k
      · subst he
        rw [hv hjson]
      · rw [beq_eq_false_iff_ne.mpr he]

theorem keys_normalizeQuery (h : normalizeQuery params = .ok q) :
    (Assoc.keys q).Sublist (Assoc.keys params) := by
  induction params generalizing q with
  | nil =>
    cases h
    exact .refl _
  | cons p params ih =>
    obtain ⟨k, v⟩ := p
    obtain ⟨q', hq', ⟨_, rfl⟩ | ⟨_, v', rfl, _⟩⟩ := normalizeQuery_cons h
    · exact (ih hq').cons k
    · exact (ih hq').cons_cons k

/-- The view query made for some parameters. -/
theorem limited_new {ddoc name : String} {vq : ViewQuery} {len : Nat}
    (h : ViewQuery.new ddoc name params = .ok vq) (hnd : (Assoc.keys params).Nodup)
    (hlimit : params.lookup "limit" = some (.number (.fin len)))
    (hskip : params.lookup "skip" = none) : Limited vq len := by
  cases hq : normalizeQuery params with
  | error e =>
    unfold ViewQuery.new at h
    rw [hq] at h
    cases h
  | ok q =>
    unfold ViewQuery.new at h
    rw [hq] at h
    cases h
    constructor
    · exact hnd.sublist (keys_normalizeQuery hq)
    · exact (lookup_normalizeQuery hq (by decide) (by decide)).trans hlimit
    · exact (lookup_normalizeQuery hq (by decide) (by decide)).trans hskip

end Normalize

/-! ## The requests of a paginator -/

section Requests

variable {vq : ViewQuery} {len : Nat}

/-- The server reads a start key as it was. -/
def Readable (key : Value) : Prop := ∃ text, Qs.texts key = [text] ∧ Runtime.jsonParse text = .ok key

omit [Runtime] in
/-- An object with the properties of another. -/
theorem lookup_extend_nil {q : Props} (hnd : (Assoc.keys q).Nodup) (name : String) :
    (extend [] q).lookup name = q.lookup name := by
  unfold extend
  rw [Assoc.lookup_writes, Assoc.lookup_reverse hnd]
  simp

theorem limitOf_eq (hl : Limited vq len) : limitOf vq.q = .number (.fin len) := by
  unfold limitOf Value.getProperty Value.entries
  rw [hl.limit]
  rfl

/-- What the requests of a paginator have in common: one row more than a page holds. -/
theorem incLimit_texts {q : Props} (hnd : (Assoc.keys q).Nodup)
    (hlimit : q.lookup "limit" = some (.number (.fin len))) (name : String) :
    (Qs.stringify (incLimit q)).texts name =
      if name = "limit" then [Runtime.numberToString (.fin (len + 1 : Nat))]
      else (q.lookup name).elim [] Qs.texts := by
  have hadd : (limitOf q).addOne = .number (.fin (len + 1 : Nat)) := by
    unfold limitOf Value.getProperty Value.entries
    rw [hlimit]
    show Value.number (.fin ((len : Rat) + 1)) = _
    rw [Nat.cast_succ]
  unfold incLimit forceSet
  rw [hadd, texts_stringify (Assoc.nodup_keys_set hnd), Assoc.lookup_set]
  by_cases h : name = "limit"
  · rw [if_pos h, if_pos h]
    rfl
  · rw [if_neg h, if_neg h]

/-- The first page asks for the rows from where the query starts. -/
theorem asks_first (hl : Limited vq len) :
    Asks vq (vq.request (incLimit (extend (extend [] vq.q) []))) (len + 1) none := by
  have hnd : (Assoc.keys (extend [] vq.q)).Nodup := Assoc.nodup_keys_writes List.nodup_nil
  have hlookup (name : String) : (extend (extend [] vq.q) []).lookup name = vq.q.lookup name :=
    lookup_extend_nil hl.nodup name
  have htexts (name : String) := incLimit_texts (q := extend (extend [] vq.q) []) hnd
    ((hlookup _).trans hl.limit) name
  have hsame (name : String) (hn : name ≠ "limit") :
      (vq.request (incLimit (extend (extend [] vq.q) []))).params.texts name =
        (vq.request vq.q).params.texts name := by
    show (Qs.stringify _).texts name = (Qs.stringify _).texts name
    rw [htexts, if_neg hn, hlookup, texts_stringify hl.nodup]
  constructor
  · rfl
  · exact htexts "limit"
  · show (Qs.stringify _).texts "skip" = []
    rw [htexts, if_neg (by decide), hlookup, hl.skip]
    rfl
  · intro name hname
    apply hsame
    rintro rfl
    exact absurd hname (by decide)
  · intro name hname
    apply hsame
    rintro rfl
    exact hname (by decide)

/-- A later page asks for the rows from its start on, if the start key is read as it was. -/
theorem asks_page (hl : Limited vq len) {key : Value} (hkey : Readable key) (id : String) :
    Asks vq (vq.request (Paginator.pageQuery vq key (.string id))) (len + 1) (some (key, id)) := by
  let q := extend (extend [] vq.q) [("startkey", key), ("startkey_docid", .string id)]
  have hnd : (Assoc.keys q).Nodup :=
    Assoc.nodup_keys_writes (Assoc.nodup_keys_writes List.nodup_nil)
  have hlookup (name : String) : q.lookup name =
      if name = "startkey_docid" then some (.string id)
      else if name = "startkey" then some key else vq.q.lookup name := by
    show (Assoc.writes _ _).lookup name = _
    rw [Assoc.writes_cons, Assoc.writes_cons, Assoc.writes_nil, Assoc.lookup_set,
      Assoc.lookup_set, lookup_extend_nil hl.nodup]
  have htexts (name : String) := incLimit_texts (q := q) hnd ((hlookup _).trans hl.limit) name
  obtain ⟨text, htext, hparse⟩ := hkey
  constructor
  · rfl
  · exact htexts "limit"
  · show (Qs.stringify _).texts "skip" = []
    refine (htexts "skip").trans ?_
    rw [if_neg (by decide), hlookup, if_neg (by decide), if_neg (by decide), hl.skip]
    rfl
  · constructor
    · refine ⟨text, ?_, hparse⟩
      refine (htexts "startkey").trans ?_
      rw [if_neg (by decide), hlookup, if_neg (by decide), if_pos rfl]
      exact htext
    · refine (htexts "startkey_docid").trans ?_
      rw [if_neg (by decide), hlookup, if_pos rfl]
      rfl
  · intro name hname
    simp only [List.mem_cons, List.not_mem_nil, or_false, not_or] at hname
    refine (htexts name).trans ?_
    rw [if_neg hname.1, hlookup, if_neg hname.2.2, if_neg hname.2.1]
    exact (texts_stringify hl.nodup name).symm

end Requests

/-! ## Where a paginator stands -/

section Pages

variable {vq : ViewQuery} {len i : Nat} {rows : List Row} {p : Paginator}

/-- The key a page starts with, `null` where there is no page. -/
def keyOf (row : Option Row) : Value := (row.map Row.key).getD .null

def idOf (row : Option Row) : Value := (row.map fun row => Value.string row.id).getD .null

/-- The starts of the pages before page `i`, the last one first. -/
def stack (len : Nat) (rows : List Row) : Nat → List (Value × Value)
  | 0 => []
  | i + 1 => (keyOf (start len rows i), idOf (start len rows i)) :: stack len rows i

/-- The paginator stands on page `i`. -/
structure At (len : Nat) (rows : List Row) (i : Nat) (p : Paginator) : Prop where
  prevkey : p.prevkey = keyOf (start len rows i)
  prevkeyDocid : p.prevkeyDocid = idOf (start len rows i)
  nextkey : p.nextkey = keyOf (start len rows (i + 1))
  nextkeyDocid : p.nextkeyDocid = idOf (start len rows (i + 1))
  prevpages : p.prevpages = stack len rows i
  there : i = 0 ∨ (start len rows i).isSome = true

/-- What the server sends for a page: its rows and the start of the next page. -/
def ahead (len : Nat) (rows : List Row) (i : Nat) : List Row :=
  page len rows i ++ (start len rows (i + 1)).toList

omit [Runtime] in
/-- The length of what was sent tells whether another page follows. -/
theorem length_ahead : len < (ahead len rows i).length ↔ (start len rows (i + 1)).isSome = true := by
  unfold ahead
  rw [List.length_append]
  cases h : start len rows (i + 1) with
  | none =>
    have hle : (page len rows i).length ≤ len := length_page_le i
    simpa using hle
  | some row =>
    rw [length_page_of_start h]
    simp

/-- **The row too many is the start of the next page.** -/
theorem takeNext_ahead {more : Bool} (hmore : more = (start len rows (i + 1)).isSome) :
    p.takeNext more (.array ((ahead len rows i).map Row.toValue)) =
      .ok ({ p with nextkey := keyOf (start len rows (i + 1))
                    nextkeyDocid := idOf (start len rows (i + 1)) },
        .array ((page len rows i).map Row.toValue)) := by
  unfold Paginator.takeNext ahead
  rw [hmore]
  cases h : start len rows (i + 1) with
  | none => simp [keyOf, idOf]
  | some row =>
    simp only [Option.isSome_some, if_true, Option.toList_some, List.map_append, List.map_cons,
      List.map_nil, Value.rows, List.getLast?_concat, List.dropLast_concat]
    rfl

omit [Runtime] in
theorem ahead_cons (hlen : 0 < len) {row : Row} (h : start len rows i = some row) :
    ∃ rest, ahead len rows i = row :: rest := by
  have hhead : (page len rows i).head? = start len rows i := head?_page hlen i
  rw [h] at hhead
  obtain ⟨rest, hrest⟩ := List.head?_eq_some_iff.mp hhead
  exact ⟨rest ++ (start len rows (i + 1)).toList, by rw [ahead, hrest, List.cons_append]⟩

omit [Runtime] in
theorem ahead_nil (h : start len rows i = none) : ahead len rows i = [] := by
  have hle : rows.length ≤ i * len := List.getElem?_eq_none_iff.mp h
  have hnext : start len rows (i + 1) = none := by
    apply List.getElem?_eq_none_iff.mpr
    rw [Nat.succ_mul]
    omega
  rw [ahead, hnext, page, List.drop_of_length_le hle, List.take_nil]
  rfl

/-- The comparison `results.length >= q.limit` of the first page. -/
theorem le_count (rows : List Row) :
    (Value.number (.fin (len + 1 : Nat))).toNum.le (Value.array (rows.map Row.toValue)).rowCount =
      decide (len < rows.length) := by
  show (!decide (((rows.map Row.toValue).length : Rat) < ((len + 1 : Nat) : Rat))) = _
  rw [List.length_map, ← decide_not, decide_eq_decide, Nat.cast_lt]
  omega

/-- The comparison `results.length > this._qobj.q.limit` of a later page. -/
theorem lt_count (rows : List Row) :
    (Value.number (.fin len)).toNum.lt (Value.array (rows.map Row.toValue)).rowCount =
      decide (len < rows.length) := by
  show decide ((len : Rat) < ((rows.map Row.toValue).length : Rat)) = _
  rw [List.length_map, decide_eq_decide, Nat.cast_lt]

omit [Runtime] in
theorem decide_ahead :
    decide (len < (ahead len rows i).length) = (start len rows (i + 1)).isSome := by
  rw [Bool.eq_iff_iff, decide_eq_true_iff, length_ahead]

/-- **A later page that has arrived**, with the starts of the earlier ones on the stack. -/
theorem paginate_page (hl : Limited vq len) (hlen : 0 < len) {row : Row}
    (h : start len rows i = some row) (hpush : p.push.prevpages = stack len rows i) :
    ∃ p', p.paginate vq .null (.array ((ahead len rows i).map Row.toValue)) =
        .ok (p', pageOf (page len rows i)) ∧ At len rows i p' := by
  obtain ⟨rest, hrest⟩ := ahead_cons hlen h
  have hmore : (limitOf vq.q).toNum.lt
      (Value.array ((ahead len rows i).map Row.toValue)).rowCount =
        (start len rows (i + 1)).isSome := by
    rw [limitOf_eq hl, lt_count, decide_ahead]
  have hfirst : (Value.array ((ahead len rows i).map Row.toValue)).rows =
      row.toValue :: rest.map Row.toValue := by
    rw [hrest]
    rfl
  unfold Paginator.paginate
  rw [if_pos (show (Value.array _).truthy = true from rfl), hfirst]
  simp only [Row.toValue_key, Row.toValue_id]
  rw [takeNext_ahead hmore]
  exact ⟨_, rfl, by rw [h]; rfl, by rw [h]; rfl, rfl, rfl, hpush, .inr (by rw [h]; rfl)⟩

/-- A call that has no page to go to. -/
theorem paginate_empty (hl : Limited vq len) :
    p.paginate vq .null (.array []) =
      .ok ({ p with nextkey := .null, nextkeyDocid := .null }, pageOf []) := by
  have hmore : (limitOf vq.q).toNum.lt (Value.array []).rowCount = false := by
    rw [limitOf_eq hl]
    exact (lt_count []).trans (by simp)
  unfold Paginator.paginate
  rw [if_pos (show (Value.array _).truthy = true from rfl)]
  simp only [Value.rows, hmore]
  rfl

/-- **The first page that has arrived.** -/
theorem startPage_page (hlen : 0 < len) :
    ∃ p, Paginator.startPage (.number (.fin (len + 1 : Nat))) .null
        (.array ((ahead len rows 0).map Row.toValue)) {} = .ok (p, pageOf (page len rows 0)) ∧
      At len rows 0 p := by
  have hmore : (Value.number (.fin (len + 1 : Nat))).toNum.le
      (Value.array ((ahead len rows 0).map Row.toValue)).rowCount =
        (start len rows (0 + 1)).isSome := by
    rw [le_count, decide_ahead]
  unfold Paginator.startPage
  rw [if_pos (show (Value.array _).truthy = true from rfl)]
  cases h : start len rows 0 with
  | none =>
    have hrows : (Value.array ((ahead len rows 0).map Row.toValue)).rows = [] := by
      rw [ahead_nil h]
      rfl
    rw [hrows]
    simp only
    rw [takeNext_ahead hmore]
    exact ⟨_, rfl, by rw [h]; rfl, by rw [h]; rfl, rfl, rfl, rfl, .inl rfl⟩
  | some row =>
    obtain ⟨rest, hrest⟩ := ahead_cons hlen h
    have hrows : (Value.array ((ahead len rows 0).map Row.toValue)).rows =
        row.toValue :: rest.map Row.toValue := by
      rw [hrest]
      rfl
    rw [hrows]
    simp only [Row.toValue_key, Row.toValue_id]
    rw [takeNext_ahead hmore]
    exact ⟨_, rfl, by rw [h]; rfl, by rw [h]; rfl, rfl, rfl, rfl, .inl rfl⟩

end Pages

/-! ## One call -/

section Turns

variable {c : Collation} {server : ViewRequest → Delivered} {vq : ViewQuery} {len i : Nat}
  {rows : List Row} {p : Paginator}

/-- The rows of a server are found from the start of a page. -/
theorem serves_page (hs : Serves c server vq rows) (hsorted : c.Sorted rows) {row : Row}
    (h : start len rows i = some row) {r : ViewRequest}
    (hr : Asks vq r (len + 1) (some row.position)) :
    server r = { err := .null, results := .array ((ahead len rows i).map Row.toValue) } := by
  have hfrom : c.rowsFrom rows (len + 1) (some row.position) = ahead len rows i := by
    show (rows.filter fun y => !c.before y.position row.position).take (len + 1) = _
    rw [filter_not_before c.asymm hsorted h, take_succ_drop]
    rfl
  rw [hs r _ _ hr, hfrom]
  rfl

/-- **The first page.** -/
theorem firstPage_at (hl : Limited vq len) (hlen : 0 < len) (hs : Serves c server vq rows) :
    ∃ p, firstPage server vq = .ok (vq, p, pageOf (page len rows 0)) ∧ At len rows 0 p := by
  have hfrom : c.rowsFrom rows (len + 1) none = ahead len rows 0 := by
    show rows.take (len + 1) = _
    have htake := @take_succ_drop _ len rows 0
    rwa [Nat.zero_mul, List.drop_zero] at htake
  have hanswer := hs _ _ _ (asks_first hl)
  rw [hfrom] at hanswer
  have hlimit : (extend (extend [] vq.q) []).lookup "limit" = some (.number (.fin len)) :=
    (lookup_extend_nil hl.nodup _).trans hl.limit
  have hq : limitOf (extend (extend [] vq.q) []) = .number (.fin len) := by
    unfold limitOf Value.getProperty Value.entries
    rw [hlimit]
    rfl
  -- the closure has the limit of the request, which is one more
  have hclosure : limitOf (incLimit (extend (extend [] vq.q) [])) =
      .number (.fin (len + 1 : Nat)) := by
    unfold incLimit
    rw [hq]
    unfold limitOf Value.getProperty Value.entries forceSet
    rw [Assoc.lookup_set_self]
    show Value.number (.fin ((len : Rat) + 1)) = _
    rw [Nat.cast_succ]
  obtain ⟨p, hp, hat⟩ : ∃ p, _ ∧ At len rows 0 p := startPage_page hlen
  refine ⟨p, ?_, hat⟩
  have hmove : vq.firstPage [] = .ok (vq, .request {} (incLimit (extend (extend [] vq.q) []))
      (.startPage (.number (.fin (len + 1 : Nat))))) := by
    rw [← hclosure]
    unfold ViewQuery.firstPage
    show Except.ok _ = _
    rw [hq]
    rfl
  have hperform : (Move.request {} (incLimit (extend (extend [] vq.q) []))
      (.startPage (.number (.fin (len + 1 : Nat))))).perform server vq =
        .ok (p, pageOf (page len rows 0)) := by
    rw [Move.perform_request, hanswer]
    exact hp
  unfold firstPage
  rw [hmove]
  show (Move.perform server vq _ >>= _) = _
  rw [hperform]
  rfl

omit [Runtime] in
/-- The key and the name a page starts with. -/
theorem At.next_start (hat : At len rows i p) {row : Row}
    (h : start len rows (i + 1) = some row) :
    p.nextkey = row.key ∧ p.nextkeyDocid = .string row.id := by
  rw [hat.nextkey, hat.nextkeyDocid, h]
  exact ⟨rfl, rfl⟩

omit [Runtime] in
theorem start_of_next {row : Row} (h : start len rows (i + 1) = some row) :
    ∃ row', start len rows i = some row' := by
  obtain ⟨hlt, _⟩ := List.getElem?_eq_some_iff.mp h
  rw [Nat.succ_mul] at hlt
  exact ⟨_, List.getElem?_eq_getElem (show i * len < rows.length by omega)⟩

/-- **`next` to a page there is.** -/
theorem next_page (hl : Limited vq len) (hlen : 0 < len) (hs : Serves c server vq rows)
    (hsorted : c.Sorted rows) (hnull : ∀ row ∈ rows, row.key.isNullish = false)
    (hat : At len rows i p) {row : Row} (h : start len rows (i + 1) = some row)
    (hkey : row.key.truthy = true) (hid : row.id ≠ "") (hread : Readable row.key) :
    ∃ p', p.turn server vq .next = .ok (p', pageOf (page len rows (i + 1))) ∧
      At len rows (i + 1) p' := by
  obtain ⟨hnextkey, hnextid⟩ := hat.next_start h
  obtain ⟨row', h'⟩ := start_of_next h
  have hmove : p.next vq = .request p (Paginator.pageQuery vq row.key (.string row.id)) .next := by
    unfold Paginator.next
    have hidt : (Value.string row.id).truthy = true := decide_eq_true hid
    rw [hnextkey, hnextid, hkey, hidt, if_pos (by decide)]
  have hpush : p.push.prevpages = stack len rows (i + 1) := by
    unfold Paginator.push
    have hprev := hat.prevkey
    have hprevid := hat.prevkeyDocid
    rw [h'] at hprev hprevid
    have hk : p.prevkey.isNullish = false := by
      rw [hprev]
      exact hnull row' (List.mem_of_getElem? h')
    have hd : p.prevkeyDocid.isNullish = false := by
      rw [hprevid]
      rfl
    rw [hk, hd, if_pos (by decide)]
    show (p.prevkey, p.prevkeyDocid) :: p.prevpages = _
    rw [hat.prevpages, hat.prevkey, hat.prevkeyDocid]
    rfl
  rw [Paginator.turn_next, hmove, Move.perform_request,
    serves_page hs hsorted h (asks_page hl hread row.id)]
  exact paginate_page hl hlen h hpush

/-- `next` where `nextkey` is false: no page. -/
theorem next_stop (hl : Limited vq len) (hfalsy : p.nextkey.truthy = false) :
    p.turn server vq .next =
      .ok ({ p with nextkey := .null, nextkeyDocid := .null }, pageOf []) := by
  have hmove : p.next vq = .done (p.paginate vq .null (.array [])) := by
    unfold Paginator.next
    rw [hfalsy, if_neg (by simp)]
  rw [Paginator.turn_next, hmove]
  exact paginate_empty hl

/-- `next` on the last page stays there. -/
theorem next_last (hl : Limited vq len) (hat : At len rows i p)
    (h : start len rows (i + 1) = none) :
    ∃ p', p.turn server vq .next = .ok (p', pageOf []) ∧ At len rows i p' := by
  have hnext := hat.nextkey
  rw [h] at hnext
  refine ⟨_, next_stop hl (by rw [hnext]; rfl), ?_⟩
  exact { hat with nextkey := by rw [h]; rfl, nextkeyDocid := by rw [h]; rfl }

/-- `prev` on the first page stays there. -/
theorem prev_first (hat : At len rows 0 p) :
    p.turn server vq .prev = .ok (p, pageOf []) := by
  have hmove : p.prev vq = .done (p.paginate vq .null .null) := by
    unfold Paginator.prev
    rw [hat.prevpages]
    rfl
  rw [Paginator.turn_prev, hmove]
  rfl

/-- **`prev` to the page before.** -/
theorem prev_page (hl : Limited vq len) (hlen : 0 < len) (hs : Serves c server vq rows)
    (hsorted : c.Sorted rows) (hat : At len rows (i + 1) p) {row : Row}
    (h : start len rows i = some row) (hread : Readable row.key) :
    ∃ p', p.turn server vq .prev = .ok (p', pageOf (page len rows i)) ∧ At len rows i p' := by
  have hmove : p.prev vq = .request { p with prevpages := stack len rows i }
      (Paginator.pageQuery vq row.key (.string row.id)) .prev := by
    unfold Paginator.prev
    rw [hat.prevpages]
    show Move.request _ (Paginator.pageQuery vq (keyOf (start len rows i))
      (idOf (start len rows i))) _ = _
    rw [h]
    rfl
  rw [Paginator.turn_prev, hmove, Move.perform_request,
    serves_page hs hsorted h (asks_page hl hread row.id)]
  exact paginate_page (p := { p with prevkey := .null, prevkeyDocid := .null
                                     prevpages := stack len rows i }) hl hlen h rfl

end Turns

/-! ## Whole sessions -/

section Sessions

variable {c : Collation} {server : ViewRequest → Delivered} {vq : ViewQuery} {len i : Nat}
  {rows : List Row} {p : Paginator} {ddoc name : String} {params : Props}

/-- The key a call sends, if it sends one, is read as it was. -/
def TurnReads (len : Nat) (rows : List Row) : Turn → Nat → Prop
  | .next, i => ∀ row, start len rows (i + 1) = some row → Readable row.key
  | .prev, 0 => True
  | .prev, i + 1 => ∀ row, start len rows i = some row → Readable row.key

theorem turnReads_of_readable (h : ∀ row ∈ rows, Readable row.key) (t : Turn) (i : Nat) :
    TurnReads len rows t i := by
  cases t with
  | next =>
    intro row hrow
    exact h row (List.mem_of_getElem? hrow)
  | prev =>
    cases i with
    | zero => trivial
    | succ i =>
      intro row hrow
      exact h row (List.mem_of_getElem? hrow)

/-- Where a call takes the cursor. -/
def stand (len : Nat) (rows : List Row) (t : Turn) (i : Nat) : Option Nat :=
  some (turn len rows t i).1

omit [Runtime] in
theorem not_nullish_of_truthy {v : Value} (h : v.truthy = true) : v.isNullish = false := by
  cases v with
  | undefined => cases h
  | null => cases h
  | _ => rfl

/-- **One call is one move of the cursor.** -/
theorem turn_page (hl : Limited vq len) (hlen : 0 < len) (hs : Serves c server vq rows)
    (hsorted : c.Sorted rows) (hkeys : ∀ row ∈ rows, row.key.truthy = true ∧ row.id ≠ "")
    (hat : At len rows i p) {t : Turn} (hread : TurnReads len rows t i) :
    ∃ p', p.turn server vq t = .ok (p', pageOf (turn len rows t i).2) ∧
      At len rows (turn len rows t i).1 p' := by
  have hnull (row : Row) (hrow : row ∈ rows) : row.key.isNullish = false :=
    not_nullish_of_truthy (hkeys row hrow).1
  cases t with
  | next =>
    cases h : start len rows (i + 1) with
    | none =>
      have hturn : turn len rows .next i = (i, []) := by
        rw [turn_next, h, if_neg (by simp)]
      rw [hturn]
      exact next_last hl hat h
    | some row =>
      have hturn : turn len rows .next i = (i + 1, page len rows (i + 1)) := by
        rw [turn_next, h, if_pos Option.isSome_some]
      obtain ⟨hkey, hid⟩ := hkeys row (List.mem_of_getElem? h)
      rw [hturn]
      exact next_page hl hlen hs hsorted hnull hat h hkey hid (hread row h)
  | prev =>
    cases i with
    | zero => exact ⟨p, prev_first hat, hat⟩
    | succ i =>
      obtain hzero | hthere := hat.there
      · cases hzero
      · obtain ⟨row', hrow'⟩ := Option.isSome_iff_exists.mp hthere
        obtain ⟨row, hrow⟩ := start_of_next hrow'
        exact prev_page hl hlen hs hsorted hat hrow (hread row hrow)

/-- Calls one after the other. -/
theorem run_pages (hl : Limited vq len) (hlen : 0 < len) (hs : Serves c server vq rows)
    (hsorted : c.Sorted rows) (hkeys : ∀ row ∈ rows, row.key.truthy = true ∧ row.id ≠ "")
    (hat : At len rows i p) {ts : List Turn}
    (hreads : Run.Along (stand len rows) (TurnReads len rows) i ts) :
    p.run server vq ts = .ok ((deliveries len rows i ts).map pageOf) := by
  induction ts generalizing i p with
  | nil => rfl
  | cons t ts ih =>
    obtain ⟨hread, hreads⟩ := hreads
    obtain ⟨p', hturn, hat'⟩ := turn_page hl hlen hs hsorted hkeys hat hread
    have hrest := ih hat' (hreads _ rfl)
    unfold Paginator.run
    rw [hturn]
    show (p'.run server vq ts >>= _) = _
    rw [hrest]
    rfl

/-- **The paginator refines a cursor over pages**, in every session whose start keys are read as
    they were. -/
theorem paginator_refines_cursor (hnew : ViewQuery.new ddoc name params = .ok vq)
    (hnd : (Assoc.keys params).Nodup)
    (hlimit : params.lookup "limit" = some (.number (.fin len)))
    (hskip : params.lookup "skip" = none) (hlen : 0 < len) (hs : Serves c server vq rows)
    (hsorted : c.Sorted rows) (hkeys : ∀ row ∈ rows, row.key.truthy = true ∧ row.id ≠ "")
    {ts : List Turn} (hreads : Run.Along (stand len rows) (TurnReads len rows) 0 ts) :
    ∃ p, firstPage server vq = .ok (vq, p, pageOf (page len rows 0)) ∧
      p.run server vq ts = .ok ((deliveries len rows 0 ts).map pageOf) := by
  have hl := limited_new hnew hnd hlimit hskip
  obtain ⟨p, hfirst, hat⟩ := firstPage_at hl hlen hs
  exact ⟨p, hfirst, run_pages hl hlen hs hsorted hkeys hat hreads⟩

/-! ### Only forward -/

/-- A key that is a number. -/
def NumberKey (row : Row) : Prop := ∃ q : Rat, row.key = .number (.fin q) ∧ NumberInverse q

theorem readable_number {row : Row} (h : NumberKey row) : Readable row.key := by
  obtain ⟨q, hq, hinv⟩ := h
  rw [hq]
  exact ⟨Runtime.numberToString (.fin q), rfl, hinv⟩

theorem nullish_number {row : Row} (h : NumberKey row) : row.key.isNullish = false := by
  obtain ⟨q, hq, _⟩ := h
  rw [hq]
  rfl

/-- The number that is false. -/
theorem truthy_number {row : Row} (h : NumberKey row) :
    row.key.truthy = true ↔ row.key ≠ .number (.fin 0) := by
  obtain ⟨q, hq, _⟩ := h
  rw [hq]
  show decide (q ≠ 0) = true ↔ _
  rw [decide_eq_true_iff, ne_eq, ne_eq, Value.number.injEq, Num.fin.injEq]

theorem hasNext_iff (hkeys : ∀ row ∈ rows, NumberKey row) (hat : At len rows i p) :
    p.hasNext = (start len rows (i + 1)).isSome := by
  unfold Paginator.hasNext
  rw [hat.nextkey]
  cases h : start len rows (i + 1) with
  | none => rfl
  | some row =>
    show (!row.key.isNullish) = true
    rw [nullish_number (hkeys row (List.mem_of_getElem? h))]
    rfl

omit [Runtime] in
theorem rows_pageOf (rows : List Row) : (pageOf rows).results.rows = rows.map Row.toValue := rfl

/-- **What is left after page `i`** when no later page starts with 0. -/
theorem forward_all (hl : Limited vq len) (hlen : 0 < len) (hs : Serves c server vq rows)
    (hsorted : c.Sorted rows) (hkeys : ∀ row ∈ rows, NumberKey row ∧ row.id ≠ "") :
    ∀ (k : Nat) {i : Nat} {p : Paginator}, rows.length ≤ (i + 1 + k) * len → At len rows i p →
      (∀ j row, i < j → start len rows j = some row → row.key ≠ .number (.fin 0)) →
      ∃ pages : List (List Row), Forward server vq p (pages.map pageOf) ∧
        pages.flatten = rows.drop ((i + 1) * len) ∧
        ∀ pg ∈ (page len rows i :: pages).dropLast, pg.length = len := by
  -- by induction on the number of pages that may still come
  intro k
  induction k with
  | zero =>
    intro i p hk hat _
    have hnone : start len rows (i + 1) = none := List.getElem?_eq_none_iff.mpr hk
    refine ⟨[], .done ?_, ?_, ?_⟩
    · rw [hasNext_iff (fun row hrow => (hkeys row hrow).1) hat, hnone]
      rfl
    · rw [List.drop_of_length_le hk]
      rfl
    · intro pg hpg
      cases hpg
  | succ k ih =>
    intro i p hk hat hzero
    have hnext := hasNext_iff (fun row hrow => (hkeys row hrow).1) hat
    cases h : start len rows (i + 1) with
    | none =>
      refine ⟨[], .done ?_, ?_, ?_⟩
      · rw [hnext, h]
        rfl
      · rw [List.drop_of_length_le (List.getElem?_eq_none_iff.mp h)]
        rfl
      · intro pg hpg
        cases hpg
    | some row =>
      obtain ⟨hnum, hid⟩ := hkeys row (List.mem_of_getElem? h)
      -- the key is not 0, so `next` goes where `hasNext` says there is a page
      have htruthy := (truthy_number hnum).mpr (hzero (i + 1) row (Nat.lt_succ_self i) h)
      obtain ⟨p', hturn, hat'⟩ := next_page hl hlen hs hsorted
        (fun row hrow => nullish_number (hkeys row hrow).1) hat h htruthy hid (readable_number hnum)
      obtain ⟨pages, hfwd, hflat, hfull⟩ := ih (by rw [Nat.add_right_comm]; exact hk) hat'
        fun j row hj => hzero j row (Nat.lt_of_succ_lt hj)
      refine ⟨page len rows (i + 1) :: pages, .next ?_ hturn hfwd, ?_, ?_⟩
      · rw [hnext, h]
        rfl
      · rw [List.flatten_cons, hflat, page_append_drop]
      · intro pg hpg
        rw [List.dropLast_cons_cons] at hpg
        rcases List.mem_cons.mp hpg with rfl | hpg
        · exact length_page_of_start h
        · exact hfull pg hpg

/-- **Where a later page starts with 0, nothing is delivered from there on.** -/
theorem forward_stops (hl : Limited vq len) (hlen : 0 < len) (hs : Serves c server vq rows)
    (hsorted : c.Sorted rows) (hkeys : ∀ row ∈ rows, NumberKey row ∧ row.id ≠ "") {j : Nat}
    {row : Row} (hrow : start len rows j = some row) (hzero : row.key = .number (.fin 0))
    {pages : List Delivered} (hfwd : Forward server vq p pages) (hat : At len rows i p)
    (hj : i < j) :
    (pages.flatMap fun page => page.results.rows).length + (i + 1) * len ≤ j * len := by
  induction hfwd generalizing i with
  | done _ =>
    rw [List.flatMap_nil, List.length_nil, Nat.zero_add]
    exact Nat.mul_le_mul_right _ hj
  | @next p p' d pages hnext hturn hfwd ih =>
    rw [hasNext_iff (fun row hrow => (hkeys row hrow).1) hat] at hnext
    obtain ⟨row', h⟩ := Option.isSome_iff_exists.mp hnext
    obtain ⟨hnum, hid⟩ := hkeys row' (List.mem_of_getElem? h)
    rw [List.flatMap_cons, List.length_append]
    cases htruthy : row'.key.truthy with
    | true =>
      obtain ⟨p₁, hturn₁, hat₁⟩ := next_page hl hlen hs hsorted
        (fun row hrow => nullish_number (hkeys row hrow).1) hat h htruthy hid (readable_number hnum)
      rw [hturn₁] at hturn
      cases hturn
      have hne : i + 1 ≠ j := by
        rintro rfl
        obtain rfl := Option.some.inj (h.symm.trans hrow)
        exact (truthy_number hnum).mp htruthy hzero
      have hrest := ih hat₁ (Nat.lt_of_le_of_ne hj hne)
      have hlength : (page len rows (i + 1)).length ≤ len := length_page_le (i + 1)
      rw [rows_pageOf, List.length_map]
      rw [Nat.succ_mul (i + 1)] at hrest
      omega
    | false =>
      -- the call delivers no rows, and there is no next page any more
      have hfalsy : p.nextkey.truthy = false := by
        rw [(hat.next_start h).1]
        exact htruthy
      have hstop : p.turn server vq .next = _ := next_stop hl hfalsy
      rw [hstop] at hturn
      cases hturn
      cases hfwd with
      | done _ =>
        rw [rows_pageOf, List.map_nil, List.flatMap_nil, List.length_nil, Nat.zero_add]
        exact Nat.mul_le_mul_right _ hj
      | next hnext' _ _ => cases hnext'

/-- A view with a key 0 at the start of a later page is not enumerated. -/
theorem not_enumerates (hl : Limited vq len) (hlen : 0 < len) (hs : Serves c server vq rows)
    (hsorted : c.Sorted rows) (hkeys : ∀ row ∈ rows, NumberKey row ∧ row.id ≠ "") {j : Nat}
    {row : Row} (hj : 0 < j) (hrow : start len rows j = some row)
    (hzero : row.key = .number (.fin 0)) : ¬ Enumerates server vq len rows := by
  rintro ⟨vq', p', first, pages, hfirst', hfwd, hall, _⟩
  obtain ⟨p, hfirst, hat⟩ := firstPage_at hl hlen hs
  rw [hfirst] at hfirst'
  cases hfirst'
  have hstops := forward_stops hl hlen hs hsorted hkeys hrow hzero hfwd hat hj
  have hlength := congrArg List.length hall
  rw [List.flatMap_cons, List.length_append, rows_pageOf, List.length_map,
    List.length_map] at hlength
  have hpage : (page len rows 0).length ≤ len := length_page_le 0
  obtain ⟨hlt, _⟩ := List.getElem?_eq_some_iff.mp hrow
  rw [Nat.zero_add, Nat.one_mul] at hstops
  omega

/-- **When forward paging enumerates the view**: no page but the first starts with the key 0. -/
theorem forward_enumerates_iff (hnew : ViewQuery.new ddoc name params = .ok vq)
    (hnd : (Assoc.keys params).Nodup)
    (hlimit : params.lookup "limit" = some (.number (.fin len)))
    (hskip : params.lookup "skip" = none) (hlen : 0 < len) (hs : Serves c server vq rows)
    (hsorted : c.Sorted rows) (hkeys : ∀ row ∈ rows, NumberKey row ∧ row.id ≠ "") :
    Enumerates server vq len rows ↔
      ∀ j row, 0 < j → rows[j * len]? = some row → row.key ≠ .number (.fin 0) := by
  have hl := limited_new hnew hnd hlimit hskip
  constructor
  · intro henum j row hj hrow hzero
    exact not_enumerates hl hlen hs hsorted hkeys hj hrow hzero henum
  · intro hzero
    obtain ⟨p, hfirst, hat⟩ := firstPage_at hl hlen hs
    have hk : rows.length ≤ (0 + 1 + rows.length) * len :=
      (Nat.le_add_left _ _).trans (Nat.le_mul_of_pos_right _ hlen)
    obtain ⟨pages, hfwd, hflat, hfull⟩ :=
      forward_all hl hlen hs hsorted hkeys rows.length hk hat hzero
    refine ⟨vq, p, pageOf (page len rows 0), pages.map pageOf, hfirst, hfwd, ?_, ?_⟩
    · have hrows : (fun pg => (pageOf pg).results.rows) = List.map Row.toValue := by
        funext pg
        exact rows_pageOf pg
      rw [← List.map_cons (f := pageOf), List.flatMap_map, hrows, List.flatMap_def,
        ← List.map_flatten, List.flatten_cons, hflat, page_append_drop, Nat.zero_mul,
        List.drop_zero]
    · intro pg hpg
      rw [← List.map_cons (f := pageOf), ← List.map_dropLast] at hpg
      obtain ⟨rs, hrs, rfl⟩ := List.mem_map.mp hpg
      rw [rows_pageOf, List.length_map]
      exact hfull rs hrs

end Sessions

end Proof

section Example

open scoped SmallRuntime

/-- Numbers before everything else. -/
def keyRank : Value → Lex (Nat × Rat)
  | .number (.fin q) => toLex (0, q)
  | _ => toLex (1, 0)

def rankOf (p : Value × String) : Lex (Lex (Nat × Rat) × String) := toLex (keyRank p.1, p.2)

/-- Rows by key, and by name where the keys are the same. -/
def byRank : Collation where
  before p q := decide (rankOf p < rankOf q)
  irrefl p := decide_eq_false (lt_irrefl (rankOf p))
  trans _ _ _ hpq hqr :=
    decide_eq_true (lt_trans (of_decide_eq_true hpq) (of_decide_eq_true hqr))

/-- A server with some rows. -/
def serve (rows : List Row) (r : ViewRequest) : Delivered :=
  let m := Nat.ofDigitChars 10 ((r.params.texts "limit").headD "").toList 0
  let start :=
    match r.params.texts "startkey", r.params.texts "startkey_docid" with
    | [text], [id] => (Runtime.jsonParse text).toOption.map fun key => (key, id)
    | _, _ => none
  pageOf (byRank.rowsFrom rows m start)

def limitOne : Props := [("limit", .number (.fin 1))]

def onePerPage : ViewQuery := { ddoc := "d", name := "v", q := limitOne }

theorem onePerPage_new : ViewQuery.new "d" "v" limitOne = .ok onePerPage := rfl

theorem serve_serves (rows : List Row) : Serves byRank (serve rows) onePerPage rows := by
  intro r m start hasks
  have hlimit : Nat.ofDigitChars 10 ((r.params.texts "limit").headD "").toList 0 = m := by
    rw [hasks.limit]
    show Nat.ofDigitChars 10 (toString (m : Rat).num).toList 0 = m
    rw [Rat.num_natCast]
    show Nat.ofDigitChars 10 (Nat.repr m).toList 0 = m
    rw [Nat.toList_repr, Nat.ofDigitChars_toDigits (by decide) (by decide)]
  unfold serve
  rw [hlimit]
  have hstart := hasks.start
  cases start with
  | none =>
    have hkey : r.params.texts "startkey" = [] := hstart "startkey" (by decide)
    rw [hkey]
  | some p =>
    obtain ⟨⟨text, htext, hparse⟩, hid⟩ := hstart
    rw [htext, hid]
    show pageOf (byRank.rowsFrom rows m ((Runtime.jsonParse text).toOption.map _)) = _
    rw [hparse]
    rfl

/-- Two documents with one key. -/
def twoRows (key : Value) : List Row :=
  [{ key := key, id := "a", fields := [] }, { key := key, id := "b", fields := [] }]

theorem twoRows_row {key : Value} {row : Row} (h : row ∈ twoRows key) :
    row.key = key ∧ row.id ≠ "" := by
  rcases List.mem_cons.mp h with rfl | h
  · exact ⟨rfl, show "a" ≠ "" by decide⟩
  · rw [List.mem_singleton.mp h]
    exact ⟨rfl, show "b" ≠ "" by decide⟩

theorem twoRows_sorted (key : Value) : byRank.Sorted (twoRows key) := by
  have hlt : byRank.before (key, "a") (key, "b") = true := by
    apply decide_eq_true
    apply Prod.Lex.right
    show "a" < "b"
    decide
  refine List.pairwise_cons.mpr ⟨fun row hrow => ?_, List.pairwise_singleton _ _⟩
  rw [List.mem_singleton.mp hrow]
  exact hlt

theorem onePerPage_limited : Proof.Limited onePerPage 1 :=
  ⟨by decide, rfl, rfl⟩

def five : Value := .number (.fin 5)

theorem five_number {row : Row} (h : row ∈ twoRows five) : Proof.NumberKey row :=
  ⟨5, (twoRows_row h).1, by
    show SmallRuntime.jsonParse (toString (5 : Rat).num) = _
    rfl⟩

theorem five_truthy {row : Row} (h : row ∈ twoRows five) :
    row.key.truthy = true ∧ row.id ≠ "" := by
  rw [(twoRows_row h).1]
  exact ⟨by decide +kernel, (twoRows_row h).2⟩

/-- Forward and back over two pages, and once too often. -/
theorem Proof.paginator_refines_cursor_five :
    ∃ p, firstPage (serve (twoRows five)) onePerPage =
        .ok (onePerPage, p, pageOf (Paging.page 1 (twoRows five) 0)) ∧
      p.run (serve (twoRows five)) onePerPage [.next, .prev, .next, .next] =
        .ok ((Paging.deliveries 1 (twoRows five) 0 [.next, .prev, .next, .next]).map pageOf) := by
  have hread (row : Row) (h : row ∈ twoRows five) : Proof.Readable row.key :=
    Proof.readable_number (five_number h)
  refine Proof.paginator_refines_cursor onePerPage_new (by decide) rfl rfl
    (by decide) (serve_serves _) (twoRows_sorted five) (fun row h => five_truthy h) ?_
  exact Run.along_of_forall (Proof.turnReads_of_readable hread) _ _

/-- Two pages with the key 5. -/
theorem Proof.forward_enumerates_iff_five :
    Enumerates (serve (twoRows five)) onePerPage 1 (twoRows five) := by
  refine (Proof.forward_enumerates_iff onePerPage_new (by decide) rfl rfl
    (by decide) (serve_serves _) (twoRows_sorted five)
    fun row h => ⟨five_number h, (twoRows_row h).2⟩).mpr fun j row _ hrow => ?_
  rw [(twoRows_row (List.mem_of_getElem? hrow)).1]
  intro h
  cases h

def zero : Value := .number (.fin 0)

/-- Two documents with the key 0, one a page: the second is never delivered. -/
theorem Proof.forward_zero_lost :
    Serves byRank (serve (twoRows zero)) onePerPage (twoRows zero) ∧
      byRank.Sorted (twoRows zero) ∧
      (∀ row ∈ twoRows zero, Proof.NumberKey row ∧ row.id ≠ "") ∧
      ¬ Enumerates (serve (twoRows zero)) onePerPage 1 (twoRows zero) := by
  have hkeys (row : Row) (h : row ∈ twoRows zero) : Proof.NumberKey row ∧ row.id ≠ "" :=
    ⟨⟨0, (twoRows_row h).1, rfl⟩, (twoRows_row h).2⟩
  exact ⟨serve_serves _, twoRows_sorted zero, hkeys,
    Proof.not_enumerates onePerPage_limited (by decide) (serve_serves _) (twoRows_sorted zero)
      hkeys (j := 1) (by decide) rfl rfl⟩

/-- The documents on some pages. -/
def namesOf (pages : List Delivered) : List (List String) :=
  pages.map fun page => page.results.rows.map fun row => (row.getProperty "id").toName

/-- Two documents with the key "5", one a page: the server reads the start key of the second page
    as the number 5, and `next` delivers the first page again. -/
theorem Proof.paginator_string_key :
    Serves byRank (serve (twoRows (.string "5"))) onePerPage (twoRows (.string "5")) ∧
      byRank.Sorted (twoRows (.string "5")) ∧
      (∀ row ∈ twoRows (.string "5"), row.key.truthy = true ∧ row.id ≠ "") ∧
      ∃ p, firstPage (serve (twoRows (.string "5"))) onePerPage =
          .ok (onePerPage, p, pageOf (Paging.page 1 (twoRows (.string "5")) 0)) ∧
        p.run (serve (twoRows (.string "5"))) onePerPage [.next] ≠
          .ok ((Paging.deliveries 1 (twoRows (.string "5")) 0 [.next]).map pageOf) := by
  obtain ⟨p, hfirst, _⟩ := Proof.firstPage_at onePerPage_limited (by decide)
    (serve_serves (twoRows (.string "5")))
  have hkeys (row : Row) (h : row ∈ twoRows (.string "5")) :
      row.key.truthy = true ∧ row.id ≠ "" := by
    rw [(twoRows_row h).1]
    exact ⟨rfl, (twoRows_row h).2⟩
  have hnames : (match firstPage (serve (twoRows (.string "5"))) onePerPage with
      | .ok (_, p, _) => (p.run (serve (twoRows (.string "5"))) onePerPage [.next]).toOption.map
          namesOf
      | .error _ => none) = some [["a"]] := by decide +kernel
  rw [hfirst] at hnames
  refine ⟨serve_serves _, twoRows_sorted _, hkeys, p, hfirst, fun hrun => ?_⟩
  change (p.run (serve (twoRows (.string "5"))) onePerPage [.next]).toOption.map namesOf = _
    at hnames
  rw [hrun] at hnames
  exact absurd hnames (by decide +kernel)

end Example

end Couchnode
