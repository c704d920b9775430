import Couchnode.Proof.Format
import Couchnode.Proof.Paging

/-!
# What a paginator asks for

The requests of `next` and `prev` are made from what the view query has stored, with the start of
the page put into it as it is. So the start of a page is JSON only where JSON and text are the same
(`position_encoded_iff`), and what was given to `firstPage` alone is not asked for again
(`query_kept_iff`).

A request that fails leaves a paginator where it was if it was going forward: `prev` has taken the
page off the stack before it asks for it (`failed_request_iff`).
-/

set_option autoImplicit false

namespace Couchnode

namespace Proof

open Paging

variable [Runtime]

/-- What a call does at once. -/
def move (vq : ViewQuery) (p : Paginator) : Turn → Move
  | .next => p.next vq
  | .prev => p.prev vq

theorem turn_move (server : ViewRequest → Delivered) (vq : ViewQuery) (p : Paginator) (t : Turn) :
    p.turn server vq t = (move vq p t).perform server vq := by
  cases t <;> rfl

/-- The calls that send a request, with the paginator, the query and the callback they leave. -/
inductive Sends (vq : ViewQuery) (p : Paginator) : Turn → Paginator → Props → Waiting → Prop
  | next : p.nextkey.truthy = true → p.nextkeyDocid.truthy = true →
      Sends vq p .next p (Paginator.pageQuery vq p.nextkey p.nextkeyDocid) .next
  | prev {key id : Value} {rest : List (Value × Value)} : p.prevpages = (key, id) :: rest →
      Sends vq p .prev { p with prevpages := rest } (Paginator.pageQuery vq key id) .prev

theorem sends_iff {vq : ViewQuery} {p p' : Paginator} {t : Turn} {q : Props} {w : Waiting} :
    move vq p t = .request p' q w ↔ Sends vq p t p' q w := by
  constructor
  · intro h
    cases t with
    | next =>
      change p.next vq = _ at h
      unfold Paginator.next at h
      by_cases hkey : (p.nextkey.truthy && p.nextkeyDocid.truthy) = true
      · rw [if_pos hkey] at h
        cases h
        obtain ⟨hk, hd⟩ := Bool.and_eq_true_iff.mp hkey
        exact .next hk hd
      · rw [if_neg hkey] at h
        cases h
    | prev =>
      change p.prev vq = _ at h
      unfold Paginator.prev at h
      cases hpages : p.prevpages with
      | nil =>
        rw [hpages] at h
        cases h
      | cons nk rest =>
        rw [hpages] at h
        cases h
        exact .prev hpages
  · intro h
    cases h with
    | next hk hd =>
      show p.next vq = _
      unfold Paginator.next
      rw [hk, hd]
      rfl
    | prev hpages =>
      show p.prev vq = _
      unfold Paginator.prev
      rw [hpages]

/-! ## A request that fails -/

section Failed

/-- The answer to a request that has failed. -/
def failure (err : Value) : Delivered := { err := err, results := .null }

/-- **A failed request leaves the paginator where it was**, and so does not show in any page that
    is delivered later. -/
def Unmoved (vq : ViewQuery) (p p' : Paginator) (w : Waiting) (err : Value) : Prop :=
  ∃ p'' page, p'.resume vq (failure err) w = .ok (p'', page) ∧ p'' = p ∧
    ∀ server ts, p''.run server vq ts = p.run server vq ts

/-- **When a failed request leaves the paginator where it was**: when it was for the next page. -/
theorem failed_request_iff {vq : ViewQuery} {p p' : Paginator} {t : Turn} {q : Props}
    {w : Waiting} (hsent : move vq p t = .request p' q w) (err : Value) :
    Unmoved vq p p' w err ↔ t = .next := by
  cases sends_iff.mp hsent with
  | next =>
    -- the callback looks at nothing but the results
    exact iff_of_true ⟨p, _, rfl, rfl, fun _ _ => rfl⟩ rfl
  | prev hpages =>
    apply iff_of_false
    · rintro ⟨p'', page, hresume, hp, _⟩
      cases hresume
      have hlength := congrArg (fun p => p.prevpages.length) hp
      simp [hpages] at hlength
    · intro h
      cases h

end Failed

/-! ## The texts of a request -/

section Texts

variable {vq : ViewQuery} {q : Props}

/-- A request for one row more has the texts of its query, but for the limit. -/
theorem texts_incLimit (hnd : (Assoc.keys q).Nodup) (name : String) :
    (Qs.stringify (incLimit q)).texts name =
      if name = "limit" then Qs.texts (limitOf q).addOne
      else (q.lookup name).elim [] Qs.texts := by
  unfold incLimit forceSet
  rw [texts_stringify (Assoc.nodup_keys_set hnd), Assoc.lookup_set]
  by_cases h : name = "limit"
  · rw [if_pos h, if_pos h]
    rfl
  · rw [if_neg h, if_neg h]

/-- The query of a later page, before its limit is incremented. -/
def pageBase (vq : ViewQuery) (key id : Value) : Props :=
  extend (extend [] vq.q) [("startkey", key), ("startkey_docid", id)]

omit [Runtime] in
theorem nodup_pageBase (vq : ViewQuery) (key id : Value) :
    (Assoc.keys (pageBase vq key id)).Nodup :=
  Assoc.nodup_keys_writes (Assoc.nodup_keys_writes List.nodup_nil)

omit [Runtime] in
theorem lookup_pageBase (vq : ViewQuery) (key id : Value) (name : String) :
    (pageBase vq key id).lookup name =
      if name = "startkey_docid" then some id
      else if name = "startkey" then some key else (extend [] vq.q).lookup name := by
  show (Assoc.writes _ _).lookup name = _
  rw [Assoc.writes_cons, Assoc.writes_cons, Assoc.writes_nil, Assoc.lookup_set, Assoc.lookup_set]

/-- The start of a page is sent as it is. -/
theorem texts_startkey (vq : ViewQuery) (key id : Value) :
    (vq.request (Paginator.pageQuery vq key id)).params.texts "startkey" = Qs.texts key := by
  have htexts := texts_incLimit (nodup_pageBase vq key id) "startkey"
  rw [if_neg (by decide), lookup_pageBase, if_neg (by decide), if_pos rfl] at htexts
  exact htexts

/-- **Everything else is what the view query has stored.** -/
theorem texts_pageQuery (hnd : (Assoc.keys vq.q).Nodup) (key id : Value) {name : String}
    (hkey : name ≠ "startkey") (hid : name ≠ "startkey_docid") :
    (vq.request (Paginator.pageQuery vq key id)).params.texts name =
      if name = "limit" then Qs.texts (limitOf vq.q).addOne
      else (vq.q.lookup name).elim [] Qs.texts := by
  have hlookup (name : String) (hkey : name ≠ "startkey") (hid : name ≠ "startkey_docid") :
      (pageBase vq key id).lookup name = vq.q.lookup name := by
    rw [lookup_pageBase, if_neg hid, if_neg hkey, lookup_extend_nil hnd]
  have hlimit : limitOf (pageBase vq key id) = limitOf vq.q := by
    unfold limitOf Value.getProperty Value.entries
    rw [hlookup "limit" (by decide) (by decide)]
  have htexts := texts_incLimit (nodup_pageBase vq key id) name
  rw [hlimit, hlookup name hkey hid] at htexts
  exact htexts

end Texts

/-! ## The start of a page -/

section Position

/-- The key of the page a call asks for. -/
def target (p : Paginator) : Turn → Value
  | .next => p.nextkey
  | .prev => (p.prevpages.head?.map Prod.fst).getD .undefined

/-- **The start key of a request is one text, the JSON of a key.** -/
def EncodesKey (r : ViewRequest) (key : Value) : Prop :=
  ∃ text, r.params.texts "startkey" = [text] ∧
    Runtime.jsonStringify key = .ok (.string text) ∧ Runtime.jsonParse text = .ok key

/-- A start key that the caller gave is JSON. -/
theorem query_encodes {vq : ViewQuery} {key : Value} (hinv : JsonInverse key) :
    ∃ r, vq.query [("startkey", key)] = .ok r ∧ EncodesKey r key := by
  obtain ⟨text, hs, hp⟩ := hinv
  have hnorm : normalizeQuery [("startkey", key)] = .ok [("startkey", .string text)] := by
    unfold normalizeQuery
    rw [if_neg (by decide), if_pos (by decide), hs]
    rfl
  have hquery : vq.query [("startkey", key)] =
      .ok (vq.request (extend (extend [] vq.q) [("startkey", .string text)])) := by
    unfold ViewQuery.query
    rw [hnorm]
    rfl
  have htexts : (Qs.stringify (extend (extend [] vq.q) [("startkey", .string text)])).texts
      "startkey" = [text] := by
    have hnd : (Assoc.keys (extend [] vq.q)).Nodup := Assoc.nodup_keys_writes List.nodup_nil
    unfold extend at hnd ⊢
    rw [texts_stringify (Assoc.nodup_keys_writes hnd)]
    show ((Assoc.writes _ _).lookup "startkey").elim [] Qs.texts = _
    rw [Assoc.writes_cons, Assoc.writes_nil, Assoc.lookup_set_self]
    rfl
  exact ⟨_, hquery, text, htexts, hs, hp⟩

/-- The text of a key as it is, is JSON for it. -/
theorem texts_encode_iff (htexts : JsonTexts) {key : Value} (hkey : JsonValue key)
    (hinv : JsonInverse key) :
    (∃ text, Qs.texts key = [text] ∧ Runtime.jsonStringify key = .ok (.string text) ∧
      Runtime.jsonParse text = .ok key) ↔ key.isNumber = true ∨ ∃ b, key = .bool b := by
  -- a number or a boolean is written as it turns into a string
  have hplain (hs : Runtime.jsonStringify key = .ok (.string key.toName))
      (ht : Qs.texts key = [key.toName]) :
      ∃ text, Qs.texts key = [text] ∧ Runtime.jsonStringify key = .ok (.string text) ∧
        Runtime.jsonParse text = .ok key := by
    obtain ⟨text, hs', hp⟩ := hinv
    cases hs.symm.trans hs'
    exact ⟨_, ht, hs, hp⟩
  have hempty (he : Qs.texts key = [""]) :
      ¬ ∃ text, Qs.texts key = [text] ∧ Runtime.jsonStringify key = .ok (.string text) ∧
        Runtime.jsonParse text = .ok key := by
    rintro ⟨text, ht, _, hp⟩
    cases he.symm.trans ht
    exact htexts.empty _ hp
  cases hkey with
  | number q => exact iff_of_true (hplain (htexts.number q) rfl) (.inl rfl)
  | bool b =>
    apply iff_of_true (hplain (htexts.bool b) _) (.inr ⟨b, rfl⟩)
    cases b <;> rfl
  | null =>
    apply iff_of_false (hempty rfl)
    rintro (h | ⟨b, h⟩) <;> cases h
  | string s =>
    apply iff_of_false
    · rintro ⟨text, ht, _, hp⟩
      cases ht
      exact htexts.quoted s hp
    · rintro (h | ⟨b, h⟩) <;> cases h
  | object hn h =>
    apply iff_of_false (hempty rfl)
    rintro (h | ⟨b, h⟩) <;> cases h
  | @array vs h =>
    apply iff_of_false
    · rintro ⟨text, ht, _, hp⟩
      obtain ⟨v, rfl, hv⟩ := List.map_eq_singleton_iff.mp ht
      -- the text of the one element, which is none for an element that is no primitive
      have hnone (he : Qs.stringifyPrimitive v = "") : False := by
        rw [← hv, he] at hp
        exact htexts.empty _ hp
      have hname (he : Qs.stringifyPrimitive v = v.toName) : False := by
        rw [← hv, he] at hp
        exact htexts.bracketed v hp
      cases h v (List.mem_singleton.mpr rfl) with
      | number q => exact hname rfl
      | string s => exact hname rfl
      | bool b =>
        apply hname
        cases b <;> rfl
      | null | array _ | object _ _ => exact hnone rfl
    · rintro (h | ⟨b, h⟩) <;> cases h

/-- **When the position of a page is JSON in its request**: when the key is a number or a
    boolean. -/
theorem position_encoded_iff (htexts : JsonTexts) {vq : ViewQuery} {p p' : Paginator} {t : Turn}
    {q : Props} {w : Waiting} (hsent : move vq p t = .request p' q w)
    (hkey : JsonValue (target p t)) (hinv : JsonInverse (target p t)) :
    EncodesKey (vq.request q) (target p t) ↔
      (target p t).isNumber = true ∨ ∃ b, target p t = .bool b := by
  rw [← texts_encode_iff htexts hkey hinv]
  unfold EncodesKey
  cases sends_iff.mp hsent with
  | next => rw [texts_startkey]; rfl
  | @prev key id rest hpages =>
    have htarget : target p .prev = key := by
      unfold target
      rw [hpages]
      rfl
    rw [texts_startkey, htarget]

end Position

/-! ## The query of the pages -/

section Kept

variable {vq : ViewQuery} {q given : Props}

/-- The paginators of a session that started with some request: the first page has been delivered,
    and then pages were asked for and delivered, whatever the server answered. -/
inductive Reached (vq : ViewQuery) (waiting : Waiting) : Paginator → Prop
  | first {answer page : Delivered} {p : Paginator} :
      Paginator.resume vq answer {} waiting = .ok (p, page) → Reached vq waiting p
  | turn {server : ViewRequest → Delivered} {t : Turn} {page : Delivered} {p p' : Paginator} :
      Reached vq waiting p → p.turn server vq t = .ok (p', page) → Reached vq waiting p'

/-- The first page is full for the results a later page is full for: `limit` is that of the first
    request, which `startPage` tests with `>=`, and `stored` the one `_paginate` tests with `>`. -/
def FullAlike (limit stored : Value) : Prop :=
  ∀ results : Value, limit.toNum.le results.rowCount = stored.toNum.lt results.rowCount

/-- **The pages of a session ask for what its first page asked for**: later requests have the
    texts of the first one but for the start of the page, and their pages are full when the first
    one is. -/
def KeepsQuery (vq : ViewQuery) (first : Props) (waiting : Waiting) : Prop :=
  ∀ p t p' q w, Reached vq waiting p → move vq p t = .request p' q w →
    (∀ name, name ≠ "startkey" → name ≠ "startkey_docid" →
      (vq.request q).params.texts name = (vq.request first).params.texts name) ∧
    FullAlike (limitOf first) (limitOf vq.q)

/-- The limit of a first page, before it is incremented. -/
def limitGiven (vq : ViewQuery) (given : Props) : Value :=
  (given.lookup "limit").getD (limitOf vq.q)

/-- The parameters given for a first page are those the view query has: but for the start of the
    page, each has the texts of the stored one. There is no limit at all, or one more than it has
    the text of one more than the stored limit, and is come up to when that is exceeded. -/
structure NothingNew (vq : ViewQuery) (given : Props) : Prop where
  limit : (limitGiven vq given).isNullish = true ∨
    Qs.texts (limitOf vq.q).addOne = Qs.texts (limitGiven vq given).addOne ∧
      FullAlike (limitGiven vq given).addOne (limitOf vq.q)
  others : ∀ name v, name ≠ "limit" → name ≠ "startkey" → name ≠ "startkey_docid" →
    given.lookup name = some v → Qs.texts v = (vq.q.lookup name).elim [] Qs.texts

/-- No page reaches the limit: with one added to it, it is not a number any number of rows comes
    up to. -/
def NeverFull (vq : ViewQuery) (given : Props) : Prop :=
  (limitGiven vq given).isNullish = false ∧
    ∀ count : Nat, (limitGiven vq given).addOne.toNum.le (.fin count) = false

/-! ### The first request -/

theorem limitOf_incLimit (q : Props) : limitOf (incLimit q) = (limitOf q).addOne := by
  unfold incLimit forceSet
  generalize (limitOf q).addOne = l
  unfold limitOf Value.getProperty Value.entries
  rw [Assoc.lookup_set_self]
  rfl

theorem limitOf_set (l : Value) (q : Props) : limitOf (forceSet "limit" l q) = l := by
  unfold limitOf Value.getProperty Value.entries forceSet
  rw [Assoc.lookup_set_self]
  rfl

omit [Runtime] in
theorem lookup_overridden {params q : Props} (h : (Assoc.keys params).Nodup)
    (hq : (Assoc.keys q).Nodup) (name : String) :
    (extend (extend [] params) q).lookup name = (q.lookup name).or (params.lookup name) := by
  rw [← lookup_extend_nil h]
  unfold extend
  rw [Assoc.lookup_writes, Assoc.lookup_reverse hq]

theorem limitOf_extend (hnd : (Assoc.keys vq.q).Nodup) (hgnd : (Assoc.keys given).Nodup) :
    limitOf (extend (extend [] vq.q) given) = limitGiven vq given := by
  unfold limitOf Value.getProperty Value.entries
  rw [lookup_overridden hnd hgnd]
  unfold limitGiven
  cases given.lookup "limit" <;> rfl

/-- What a first page leaves: the stored query, and the query of the first request. -/
structure Started (vq : ViewQuery) (given : Props) (vq' : ViewQuery) (first : Props) : Prop where
  nodup : (Assoc.keys vq'.q).Nodup
  default : (limitGiven vq given).isNullish = true →
    limitOf vq'.q = ViewQuery.defaultLimit ∧ limitOf first = ViewQuery.defaultLimit.addOne
  limit : (limitGiven vq given).isNullish = false →
    limitOf vq'.q = limitOf vq.q ∧ limitOf first = (limitGiven vq given).addOne
  stored : ∀ name, name ≠ "limit" → vq'.q.lookup name = vq.q.lookup name
  others : ∀ name, name ≠ "limit" → (Qs.stringify first).texts name =
    ((given.lookup name).or (vq.q.lookup name)).elim [] Qs.texts
  limitText : (Qs.stringify first).texts "limit" = Qs.texts (limitOf first)

/-- **The first request.** -/
theorem firstPage_started (hnd : (Assoc.keys vq.q).Nodup) (hq : (Assoc.keys q).Nodup)
    (hgiven : normalizeQuery q = .ok given) :
    ∃ vq' first, vq.firstPage q =
        .ok (vq', .request {} first (.startPage (limitOf first))) ∧
      Started vq given vq' first := by
  have hgnd : (Assoc.keys given).Nodup := hq.sublist (keys_normalizeQuery hgiven)
  have hlookup := lookup_overridden hnd hgnd
  have hmerged := limitOf_extend hnd hgnd
  have hbase : (Assoc.keys (extend (extend [] vq.q) given)).Nodup :=
    Assoc.nodup_keys_writes (Assoc.nodup_keys_writes List.nodup_nil)
  have hothers (name : String) (hn : name ≠ "limit") :
      (Qs.stringify (incLimit (extend (extend [] vq.q) given))).texts name =
        ((given.lookup name).or (vq.q.lookup name)).elim [] Qs.texts := by
    rw [texts_incLimit hbase, if_neg hn, hlookup]
  unfold ViewQuery.firstPage
  rw [hgiven]
  cases hnull : (limitGiven vq given).isNullish with
  | true =>
    refine ⟨{ vq with q := forceSet "limit" ViewQuery.defaultLimit vq.q },
      incLimit (forceSet "limit" ViewQuery.defaultLimit (extend (extend [] vq.q) given)), ?_, ?_⟩
    · show Except.ok _ = _
      rw [hmerged, hnull]
      rfl
    · constructor
      · exact Assoc.nodup_keys_set hnd
      · intro _
        rw [limitOf_incLimit, limitOf_set, limitOf_set]
        exact ⟨rfl, rfl⟩
      · intro h
        cases hnull.symm.trans h
      · intro name hn
        exact Assoc.lookup_set_ne hn _ _
      · intro name hn
        rw [texts_incLimit (Assoc.nodup_keys_set hbase), if_neg hn, Assoc.lookup_set_ne hn,
          hlookup]
      · rw [limitOf_incLimit, texts_incLimit (Assoc.nodup_keys_set hbase), if_pos rfl]
  | false =>
    refine ⟨vq, incLimit (extend (extend [] vq.q) given), ?_, ?_⟩
    · show Except.ok _ = _
      rw [hmerged, hnull]
      rfl
    · constructor
      · exact hnd
      · intro h
        cases hnull.symm.trans h
      · intro _
        rw [limitOf_incLimit, hmerged]
        exact ⟨rfl, rfl⟩
      · intro name _
        rfl
      · exact hothers
      · rw [limitOf_incLimit, texts_incLimit hbase, if_pos rfl]

/-! ### The later ones -/

/-- A limit that is a whole number is one for all pages. -/
theorem fullAlike_natCast (n : Nat) :
    FullAlike (Value.addOne (.number (.fin n))) (.number (.fin n)) := by
  intro results
  have hcount (count : Nat) : Num.le (.fin (n + 1)) (.fin count) = Num.lt (.fin n) (.fin count) := by
    have hcast : (count : Rat) < (n : Rat) + 1 ↔ ¬ (n : Rat) < count := by
      rw [not_lt]
      exact_mod_cast Nat.lt_succ_iff
    simp only [Num.le, Num.lt, hcast, decide_not, Bool.not_not]
  cases results with
  | array rows => exact hcount rows.length
  | _ => rfl

/-- The texts of a later request are those of the first one when nothing new was given. -/
theorem kept_of_nothingNew {vq' : ViewQuery} {first : Props} {w : Waiting}
    (hs : Started vq given vq' first) (h : NothingNew vq given) : KeepsQuery vq' first w := by
  have hlimit : Qs.texts (limitOf vq'.q).addOne = Qs.texts (limitOf first) ∧
      FullAlike (limitOf first) (limitOf vq'.q) := by
    cases hnull : (limitGiven vq given).isNullish with
    | true =>
      obtain ⟨hstored, hfirst⟩ := hs.default hnull
      rw [hstored, hfirst]
      exact ⟨rfl, fullAlike_natCast 10⟩
    | false =>
      obtain ⟨hstored, hfirst⟩ := hs.limit hnull
      rw [hstored, hfirst]
      apply h.limit.resolve_left
      rw [hnull]
      exact Bool.false_ne_true
  have htexts (key id : Value) (name : String) (hkey : name ≠ "startkey")
      (hid : name ≠ "startkey_docid") :
      (vq'.request (Paginator.pageQuery vq' key id)).params.texts name =
        (vq'.request first).params.texts name := by
    rw [texts_pageQuery hs.nodup key id hkey hid]
    show _ = (Qs.stringify first).texts name
    by_cases hn : name = "limit"
    · rw [if_pos hn, hn, hs.limitText, hlimit.1]
    · rw [if_neg hn, hs.stored name hn, hs.others name hn]
      cases hg : given.lookup name with
      | none => rfl
      | some v => exact (h.others name v hn hkey hid hg).symm
  intro p t p' q w _ hsent
  refine ⟨?_, hlimit.2⟩
  cases sends_iff.mp hsent with
  | next => exact htexts _ _
  | prev => exact htexts _ _

/-- Results that are not more than a page are the last ones. -/
theorem startPage_last {limit err results : Value} {p p' : Paginator} {page : Delivered}
    (hmore : limit.toNum.le results.rowCount = false) (hnext : p.nextkey = .null)
    (h : p.startPage limit err results = .ok (p', page)) :
    p'.nextkey = .null ∧ p'.prevpages = p.prevpages := by
  unfold Paginator.startPage at h
  by_cases htruthy : results.truthy = true
  · rw [if_pos htruthy, hmore] at h
    cases hrows : results.rows with
    | nil =>
      rw [hrows] at h
      cases h
      exact ⟨rfl, rfl⟩
    | cons row rows =>
      rw [hrows] at h
      cases h
      exact ⟨rfl, rfl⟩
  · rw [if_neg htruthy] at h
    cases h
    exact ⟨hnext, rfl⟩

omit [Runtime] in
theorem le_rowCount {n : Num} (h : ∀ count : Nat, n.le (.fin count) = false) (results : Value) :
    n.le results.rowCount = false := by
  cases results with
  | array rows => exact h rows.length
  | _ => cases n <;> rfl

/-- A call with no next page and no earlier one stays there. -/
theorem turn_nowhere {server : ViewRequest → Delivered} {p p' : Paginator} {t : Turn}
    {page : Delivered} (hnext : p.nextkey = .null) (hprev : p.prevpages = [])
    (h : p.turn server vq t = .ok (p', page)) : p'.nextkey = .null ∧ p'.prevpages = [] := by
  cases t with
  | next =>
    have hmove : p.next vq = .done (p.paginate vq .null (.array [])) := by
      unfold Paginator.next
      rw [hnext]
      rfl
    rw [Paginator.turn_next, hmove] at h
    change p.paginate vq .null (.array []) = _ at h
    unfold Paginator.paginate at h
    rw [if_pos (show (Value.array []).truthy = true from rfl)] at h
    cases hmore : (limitOf vq.q).toNum.lt (Value.array []).rowCount with
    | true =>
      -- there is no row to take off
      rw [hmore] at h
      cases h
    | false =>
      rw [hmore] at h
      cases h
      exact ⟨rfl, hprev⟩
  | prev =>
    have hmove : p.prev vq = .done (p.paginate vq .null .null) := by
      unfold Paginator.prev
      rw [hprev]
    rw [Paginator.turn_prev, hmove] at h
    cases h
    exact ⟨hnext, hprev⟩

/-- Where no page is full there is only the first. -/
theorem reached_neverFull {vq' : ViewQuery} {first : Props} (hs : Started vq given vq' first)
    (h : NeverFull vq given) {p : Paginator}
    (hp : Reached vq' (.startPage (limitOf first)) p) :
    p.nextkey = .null ∧ p.prevpages = [] := by
  induction hp with
  | first hresume =>
    have hmore := h.2
    rw [← (hs.limit h.1).2] at hmore
    exact startPage_last (le_rowCount hmore _) rfl hresume
  | turn _ hturn ih => exact turn_nowhere ih.1 ih.2 hturn

theorem kept_of_neverFull {vq' : ViewQuery} {first : Props} (hs : Started vq given vq' first)
    (h : NeverFull vq given) : KeepsQuery vq' first (.startPage (limitOf first)) := by
  intro p t p' q w hp hsent
  obtain ⟨hnext, hprev⟩ := reached_neverFull hs h hp
  exfalso
  cases sends_iff.mp hsent with
  | next hkey _ =>
    rw [hnext] at hkey
    cases hkey
  | prev hpages =>
    rw [hprev] at hpages
    cases hpages

/-- A row with a key and a name. -/
def someRow : Value := .object [("id", .string "a"), ("key", .bool true)]

/-- **A full first page has another one behind it.** -/
theorem reached_next {vq' : ViewQuery} {limit : Value} {count : Nat}
    (h : limit.toNum.le (.fin (count + 1 : Nat)) = true) :
    ∃ p, Reached vq' (.startPage limit) p ∧
      move vq' p .next = .request p (Paginator.pageQuery vq' (.bool true) (.string "a")) .next := by
  let results := Value.array (List.replicate (count + 1) someRow)
  have hrows : results.rows = someRow :: List.replicate count someRow := rfl
  have hmore : limit.toNum.le results.rowCount = true := by
    show limit.toNum.le (.fin ((List.replicate (count + 1) someRow).length : Nat)) = true
    rw [List.length_replicate]
    exact h
  have hlast : results.rows.getLast? = some someRow := by
    show (List.replicate (count + 1) someRow).getLast? = _
    rw [List.getLast?_replicate, if_neg (Nat.succ_ne_zero count)]
  let p : Paginator :=
    { prevkey := .bool true, prevkeyDocid := .string "a", nextkey := .bool true
      nextkeyDocid := .string "a" }
  have hresume : Paginator.resume vq' { err := .null, results := results } {} (.startPage limit) =
      .ok (p, { err := .null, results := .array results.rows.dropLast }) := by
    show Paginator.startPage limit .null results {} = _
    unfold Paginator.startPage Paginator.takeNext
    rw [if_pos (show results.truthy = true from rfl), hmore, hlast, hrows]
    rfl
  exact ⟨p, .first hresume, rfl⟩

omit [Runtime] in
theorem le_succ {n : Num} {count : Nat} (h : n.le (.fin count) = true) :
    n.le (.fin (count + 1 : Nat)) = true := by
  cases n with
  | nan => cases h
  | inf negative =>
    cases negative with
    | true => rfl
    | false => cases h
  | fin q =>
    have hle : q ≤ (count : Rat) := by simpa [Num.le, Num.lt] using h
    have hlt : (count : Rat) ≤ ((count + 1 : Nat) : Rat) := by exact_mod_cast Nat.le_succ count
    simpa [Num.le, Num.lt] using hle.trans hlt

/-- Some page comes up to the limit, unless none does. -/
theorem full_of_not_neverFull {vq' : ViewQuery} {first : Props}
    (hs : Started vq given vq' first) (h : ¬ NeverFull vq given) :
    ∃ count : Nat, (limitOf first).toNum.le (.fin (count + 1 : Nat)) = true := by
  cases hnull : (limitGiven vq given).isNullish with
  | true =>
    rw [(hs.default hnull).2]
    refine ⟨10, ?_⟩
    show Num.le (.fin (10 + 1)) (.fin ((10 + 1 : Nat) : Rat)) = true
    decide +kernel
  | false =>
    rw [(hs.limit hnull).2]
    by_contra hfull
    refine h ⟨hnull, fun count => ?_⟩
    by_contra hle
    exact hfull ⟨count, le_succ (Bool.eq_true_of_not_eq_false hle)⟩

/-- A session that has a second page asks for what was given for the first only if it is nothing
    new. -/
theorem nothingNew_of_kept {vq' : ViewQuery} {first : Props} (hs : Started vq given vq' first)
    (hnever : ¬ NeverFull vq given)
    (hkept : KeepsQuery vq' first (.startPage (limitOf first))) : NothingNew vq given := by
  obtain ⟨count, hcount⟩ := full_of_not_neverFull hs hnever
  obtain ⟨p, hp, hsent⟩ : ∃ p, Reached vq' _ p ∧ _ := reached_next hcount
  obtain ⟨htexts, hfull⟩ := hkept p .next p _ _ hp hsent
  constructor
  · cases hnull : (limitGiven vq given).isNullish with
    | true => exact .inl rfl
    | false =>
      obtain ⟨hstored, hfirst⟩ := hs.limit hnull
      have hlimit := htexts "limit" (by decide) (by decide)
      rw [texts_pageQuery hs.nodup _ _ (by decide) (by decide), if_pos rfl] at hlimit
      have htext : (vq'.request first).params.texts "limit" = _ := hs.limitText
      rw [htext, hstored, hfirst] at hlimit
      rw [hstored, hfirst] at hfull
      exact .inr ⟨hlimit, hfull⟩
  · intro name v hn hkey hid hg
    have hsame := htexts name hkey hid
    rw [texts_pageQuery hs.nodup _ _ hkey hid, if_neg hn, hs.stored name hn] at hsame
    have hof : (vq'.request first).params.texts name = _ := hs.others name hn
    rw [hof, hg] at hsame
    exact hsame.symm

/-- **When the pages of a session ask for what the first page asked for**: nothing new was given
    for the first page, or it has no other one behind it. -/
theorem query_kept_iff (hnd : (Assoc.keys vq.q).Nodup) (hq : (Assoc.keys q).Nodup)
    (hgiven : normalizeQuery q = .ok given) :
    (∃ vq' first w, vq.firstPage q = .ok (vq', .request {} first w) ∧ KeepsQuery vq' first w) ↔
      NothingNew vq given ∨ NeverFull vq given := by
  obtain ⟨vq', first, hfirst, hs⟩ := firstPage_started hnd hq hgiven
  constructor
  · rintro ⟨vq₁, first₁, w, hfirst₁, hkept⟩
    rw [hfirst] at hfirst₁
    cases hfirst₁
    by_cases hnever : NeverFull vq given
    · exact .inr hnever
    · exact .inl (nothingNew_of_kept hs hnever hkept)
  · rintro (hnew | hnever)
    · exact ⟨vq', first, _, hfirst, kept_of_nothingNew hs hnew⟩
    · exact ⟨vq', first, _, hfirst, kept_of_neverFull hs hnever⟩

end Kept

end Proof

section Example

open scoped SmallRuntime

/-- On the first of two pages. -/
def onFirst (key : Value) : Paginator where
  prevkey := key
  prevkeyDocid := .string "a"
  nextkey := key
  nextkeyDocid := .string "b"

/-- On the second one. -/
def onSecond (key : Value) : Paginator where
  prevkey := key
  prevkeyDocid := .string "b"
  nextkey := .null
  nextkeyDocid := .null
  prevpages := [(key, .string "a")]

theorem reached_onFirst (key : Value) :
    Proof.Reached onePerPage (.startPage (.number (.fin 2))) (onFirst key) := by
  have hresume : Paginator.resume onePerPage (pageOf (twoRows key)) {}
      (.startPage (.number (.fin 2))) = .ok (onFirst key, pageOf ((twoRows key).take 1)) := rfl
  exact .first hresume

theorem reached_onSecond :
    Proof.Reached onePerPage (.startPage (.number (.fin 2))) (onSecond five) := by
  have hturn : (onFirst five).turn (fun _ => pageOf ((twoRows five).drop 1)) onePerPage .next =
      .ok (onSecond five, pageOf ((twoRows five).drop 1)) := rfl
  exact .turn (reached_onFirst five) hturn

/-- A next page that fails. -/
theorem Proof.failed_request_iff_next :
    Proof.Unmoved onePerPage (onFirst five) (onFirst five) .next (.string "timeout") := by
  have hsent : Proof.move onePerPage (onFirst five) .next =
      .request (onFirst five) (Paginator.pageQuery onePerPage five (.string "b")) .next := rfl
  exact (Proof.failed_request_iff hsent (.string "timeout")).mpr rfl

/-- The paginator that is left when the way back from the second page fails. -/
def lostFirst : Paginator where
  nextkey := .null

/-- A page before that fails: the paginator has lost it, and trying again delivers no rows. -/
theorem Proof.failed_prev :
    Proof.Reached onePerPage (.startPage (.number (.fin 2))) (onSecond five) ∧
    Proof.move onePerPage (onSecond five) .prev = .request { onSecond five with prevpages := [] }
      (Paginator.pageQuery onePerPage five (.string "a")) .prev ∧
    ¬ Proof.Unmoved onePerPage (onSecond five) { onSecond five with prevpages := [] } .prev
      (.string "timeout") ∧
    Paginator.resume onePerPage (Proof.failure (.string "timeout"))
      { onSecond five with prevpages := [] } .prev =
        .ok (lostFirst, { err := .string "timeout", results := .array [] }) ∧
    (∀ server, lostFirst.run server onePerPage [.prev] = .ok [pageOf []]) ∧
    (onSecond five).run (fun _ => pageOf (twoRows five)) onePerPage [.prev] =
      .ok [pageOf ((twoRows five).take 1)] := by
  refine ⟨reached_onSecond, rfl, ?_, rfl, fun _ => rfl, rfl⟩
  rintro ⟨p, page, hresume, hp, _⟩
  cases hresume
  have hpages := congrArg (fun p => p.prevpages.length) hp
  cases hpages

/-- The key 5 is sent as JSON. -/
theorem Proof.position_encoded_iff_five :
    Proof.EncodesKey (onePerPage.request (Paginator.pageQuery onePerPage five (.string "b")))
      five := by
  have hsent : Proof.move onePerPage (onFirst five) .next =
      .request (onFirst five) (Paginator.pageQuery onePerPage five (.string "b")) .next := rfl
  exact (Proof.position_encoded_iff SmallRuntime.jsonTexts hsent (.number 5)
    SmallRuntime.five).mpr (.inl rfl)

/-- The key "5" is sent as the number 5. -/
theorem Proof.position_string :
    Proof.Reached onePerPage (.startPage (.number (.fin 2))) (onFirst (.string "5")) ∧
    Proof.move onePerPage (onFirst (.string "5")) .next = .request (onFirst (.string "5"))
      (Paginator.pageQuery onePerPage (.string "5") (.string "b")) .next ∧
    (onePerPage.request (Paginator.pageQuery onePerPage (.string "5") (.string "b"))).params.texts
      "startkey" = ["5"] ∧
    ¬ Proof.EncodesKey (onePerPage.request
      (Paginator.pageQuery onePerPage (.string "5") (.string "b"))) (.string "5") := by
  refine ⟨reached_onFirst _, rfl, Proof.texts_startkey _ _ _, ?_⟩
  rintro ⟨text, htext, _, hparse⟩
  exact SmallRuntime.jsonNotIdentity text (by
    rw [Proof.texts_startkey] at htext
    cases htext
    exact hparse)

/-- A first page with nothing of its own. -/
theorem Proof.query_kept_iff_plain : ∃ vq first w,
    onePerPage.firstPage [] = .ok (vq, .request {} first w) ∧ Proof.KeepsQuery vq first w := by
  have hgiven : normalizeQuery [] = .ok [] := rfl
  have hnd : (Assoc.keys ([] : Props)).Nodup := List.nodup_nil
  refine (Proof.query_kept_iff onePerPage_limited.nodup hnd hgiven).mpr (.inl ?_)
  have hlimit : limitOf onePerPage.q = .number (.fin (1 : Nat)) := rfl
  refine ⟨.inr ⟨rfl, ?_⟩, fun name v _ _ _ h => by cases h⟩
  show Proof.FullAlike (limitOf onePerPage.q).addOne (limitOf onePerPage.q)
  rw [hlimit]
  exact Proof.fullAlike_natCast 1

def downwards : Props := [("descending", .bool true)]

/-- A first page downwards: the second one goes up. -/
theorem Proof.first_page_alone : ∃ vq first w,
    onePerPage.firstPage downwards = .ok (vq, .request {} first w) ∧
      ¬ Proof.KeepsQuery vq first w := by
  have hgiven : normalizeQuery downwards = .ok downwards := rfl
  obtain ⟨vq, first, hfirst, hs⟩ :=
    Proof.firstPage_started onePerPage_limited.nodup (by decide) hgiven
  refine ⟨vq, first, _, hfirst, fun hkept => ?_⟩
  have hnever : ¬ Proof.NeverFull onePerPage downwards := by
    rintro ⟨_, hle⟩
    have hfull : (Proof.limitGiven onePerPage downwards).addOne.toNum.le (.fin (2 : Nat)) = true := by
      show Num.le (.fin (1 + 1)) (.fin ((2 : Nat) : Rat)) = true
      decide +kernel
    rw [hle 2] at hfull
    cases hfull
  have hnew := Proof.nothingNew_of_kept hs hnever hkept
  have htexts := hnew.others "descending" (.bool true) (by decide) (by decide) (by decide) rfl
  cases htexts

end Example

end Couchnode
