import Couchnode.Lib.Grouped
import Couchnode.Proof.Traffic

/-!
# The order of the answers

libcouchbase promises no order, and the callbacks need none: answers may be mixed as they come, as
long as those about one key of a call, and all answers to a call that is not by key, stay in
order (`answers_reordered`). Every call is then as far as it was, and has told the application the
same: in single mode the same calls of its callback in another order, in spooled mode one call with
the same error and the same results (`ToldAlike`). That rests on the countdown of a cookie, which
does not look at what it counts, and on the results being filed by key.
-/

set_option autoImplicit false

namespace Couchnode

/-- The key an answer is about, as a result is filed under it; an answer to a call that is not by
    key has none. -/
def Answer.about [Runtime] : Answer → Option String
  | .keyed r => some (Runtime.stringNew r.key)
  | _ => none

namespace Proof

variable [Runtime]

/-! ## What was told -/

/-- Two arguments that differ at most in the order of their fields. -/
def SameFields : Value → Value → Prop
  | .object ps, .object qs => ∀ name, qs.lookup name = ps.lookup name
  | v, w => w = v

/-- Two invocations of one function with the same arguments. -/
structure SameCall (i j : Invocation) : Prop where
  fn : j.fn = i.fn
  args : List.Forall₂ SameFields i.args j.args

/-- Two cookies that are as far and have told the same. -/
structure ToldAlike (c d : Cookie) : Prop where
  mode : d.cbType = c.cbType
  remaining : d.remaining = c.remaining
  hasError : d.hasError = c.hasError
  deletes : d.deletes = c.deletes
  single : c.cbType = .single → d.calls.Perm c.calls
  spooled : c.cbType = .spooled → List.Forall₂ SameCall c.calls d.calls
  kept : ∀ name, (d.spooledInfo.getD []).lookup name = (c.spooledInfo.getD []).lookup name

/-- Two states of one call in which the same was answered and told. -/
structure Alike (f g : Flight) : Prop where
  id : g.id = f.id
  kind : g.kind = f.kind
  args : g.args = f.args
  call : g.call = f.call
  owed : g.owed.Perm f.owed
  heard : g.heard.Perm f.heard
  cookie : ToldAlike f.cookie g.cookie

omit [Runtime] in
theorem SameFields.refl (v : Value) : SameFields v v := by
  cases v <;> first | rfl | exact fun _ => rfl

omit [Runtime] in
theorem SameCall.refl (i : Invocation) : SameCall i i :=
  ⟨rfl, List.forall₂_same.mpr fun v _ => SameFields.refl v⟩

omit [Runtime] in
theorem ToldAlike.refl (c : Cookie) : ToldAlike c c :=
  ⟨rfl, rfl, rfl, rfl, fun _ => .refl _, fun _ => List.forall₂_same.mpr fun i _ => SameCall.refl i,
    fun _ => rfl⟩

omit [Runtime] in
theorem Alike.refl (f : Flight) : Alike f f :=
  ⟨rfl, rfl, rfl, rfl, .refl _, .refl _, ToldAlike.refl _⟩

section Cookie

variable {c : Cookie} {n : Nat} {rs rs' : List Cookie.Response}

/-- The entries of the results, by the keys of the responses. -/
theorem mixed_entries (h : Grouped.Mixed (fun r => Runtime.stringNew r.key) rs rs') :
    Grouped.Mixed Prod.fst ((rs.map fun r => c.responseInfo r).map spooledEntry)
      ((rs'.map fun r => c.responseInfo r).map spooledEntry) := by
  rw [List.map_map, List.map_map]
  refine Grouped.Mixed.map ?_
  have hname : (fun r => ((spooledEntry ∘ fun r => c.responseInfo r) r).1) =
      fun r : Cookie.Response => Runtime.stringNew r.key :=
    funext fun r => responseInfo_keyName r
  rw [hname]
  exact h

/-- **A cookie tells the same however the responses to different keys are mixed.** -/
theorem receiveAll_mixed (hun : Untouched c n) (hlen : rs.length ≤ n)
    (hkeys : ∀ r ∈ rs, r.key ≠ [])
    (h : Grouped.Mixed (fun r => Runtime.stringNew r.key) rs rs') :
    ToldAlike (Cookie.receiveAll rs c) (Cookie.receiveAll rs' c) := by
  have hperm := h.perm.map fun r => c.responseInfo r
  have hresults (name : String) : (resultsOf (rs'.map fun r => c.responseInfo r) []).lookup name =
      (resultsOf (rs.map fun r => c.responseInfo r) []).lookup name :=
    (mixed_entries h).lookup_writes name
  rw [receiveAll_eq, receiveAll_eq]
  have hlen₁ : (rs.map fun r => c.responseInfo r).length ≤ n := by rwa [List.length_map]
  have hlen₂ : (rs'.map fun r => c.responseInfo r).length ≤ n := by rwa [hperm.length_eq]
  have hfail := hperm.any_eq (f := failed)
  have hmodes : c.cbType = .single ∨ c.cbType = .spooled := by
    cases c.cbType <;> simp
  rcases hmodes with hmode | hmode
  · rw [responses_single hun.deletes hun.remaining hmode hlen₁,
      responses_single hun.deletes hun.remaining hmode hlen₂, hperm.length_eq, hfail]
    refine ⟨rfl, rfl, rfl, rfl, ?_, ?_, fun _ => rfl⟩
    · intro _
      exact (hperm.map _).append_left _
    · intro hs
      exact absurd (hmode.symm.trans hs) (by simp)
  · have hcount {rs : List Cookie.Response} (hr : ∀ r ∈ rs, r.key ≠ []) :
        ∀ info ∈ rs.map fun r => c.responseInfo r, Counts c info := by
      intro info hinfo
      obtain ⟨r, hmem, rfl⟩ := List.mem_map.mp hinfo
      exact .inr (responseInfo_hasKey (hr r hmem))
    have hkeys' : ∀ r ∈ rs', r.key ≠ [] := fun r hr => hkeys r (h.perm.mem_iff.mp hr)
    rw [responses_spooled hun.deletes hun.remaining hmode (hun.spooledInfo hmode) (hcount hkeys)
        hlen₁,
      responses_spooled hun.deletes hun.remaining hmode (hun.spooledInfo hmode) (hcount hkeys')
        hlen₂, hperm.length_eq, hfail]
    dsimp only
    split
    · refine ⟨rfl, rfl, rfl, rfl, ?_, ?_, hresults⟩
      · intro hs
        exact absurd (hmode.symm.trans hs) (by simp)
      · intro _
        show List.Forall₂ SameCall (c.calls ++ [_]) (c.calls ++ [_])
        rw [hun.calls]
        exact .cons ⟨rfl, .cons (SameFields.refl _) (.cons hresults .nil)⟩ .nil
    · refine ⟨rfl, rfl, rfl, rfl, fun _ => .refl _, ?_, hresults⟩
      intro _
      exact List.forall₂_same.mpr fun i _ => SameCall.refl i

end Cookie

/-! ## The answers to one call -/

section Call

variable {f : Flight} {o : Flight × Bool} {as as' : List Answer}

/-- The answers a call takes are of its class. -/
theorem follow_suits (h : Pool.follow Flight.move as f = some o) :
    ∀ a ∈ as, a.suits f.kind.cls.cookieKind = true := by
  induction as generalizing f with
  | nil =>
    intro a ha
    cases ha
  | cons b as ih =>
    cases hm : Flight.move b f with
    | none =>
      rw [Pool.follow, hm] at h
      cases h
    | some s =>
      obtain ⟨g, ended⟩ := s
      obtain ⟨g', hg, he⟩ := Option.map_eq_some_iff.mp hm
      cases he
      have hb := expects_suits (answer_eq hg).1
      intro a ha
      rcases List.mem_cons.mp ha with rfl | ha
      · exact hb
      · rw [← (answer_fields hg).2.1]
        cases hl : b.isLast f.owed with
        | true =>
          -- nothing comes after the last answer
          rw [Pool.follow, hm, hl] at h
          cases as with
          | nil => cases ha
          | cons a' as => cases h
        | false =>
          rw [hl] at hm
          rw [Pool.follow_on hm] at h
          exact ih h a ha

/-- The answers a key-value call takes are by keys it owes. -/
theorem follow_owes (hk : f.kind.cls.cookieKind = .plain) {rs : List Cookie.Response}
    (h : Pool.follow Flight.move (rs.map .keyed) f = some o) :
    ∃ rest, f.owed.Perm (rs.map (·.key) ++ rest) := by
  induction rs generalizing f with
  | nil => exact ⟨f.owed, .refl _⟩
  | cons r rs ih =>
    have hmem : r.key ∈ f.owed := by
      by_contra hno
      have hexp : ¬ f.expects (.keyed r) = true := by
        simp [Flight.expects, Answer.suits, hk, hno]
      rw [List.map_cons, Pool.follow, Flight.move, Flight.answer, if_neg hexp] at h
      cases h
    have hmove := move_keyed hk hmem
    have hcons (rest : List Bytes) (hrest : (f.owed.erase r.key).Perm (rs.map (·.key) ++ rest)) :
        f.owed.Perm ((r :: rs).map (·.key) ++ rest) :=
      (List.perm_cons_erase hmem).trans (hrest.cons _)
    rw [List.map_cons] at h
    by_cases hnil : f.owed.erase r.key = []
    · rw [decide_eq_true hnil] at hmove
      rw [Pool.follow, hmove] at h
      cases rs with
      | nil => exact ⟨[], hcons [] (.of_eq hnil)⟩
      | cons r' rs => cases h
    · rw [decide_eq_false hnil] at hmove
      rw [Pool.follow_on hmove] at h
      obtain ⟨rest, hrest⟩ := ih (f := { f with
        cookie := f.cookie.receive r, owed := f.owed.erase r.key
        heard := f.heard ++ [.keyed r] }) hk h
      exact ⟨rest, hcons rest hrest⟩

omit [Runtime] in
/-- Answers by key, one by one. -/
theorem keyed_of_suits (h : ∀ a ∈ as, a.suits .plain = true) :
    ∃ rs : List Cookie.Response, as = rs.map .keyed := by
  induction as with
  | nil => exact ⟨[], rfl⟩
  | cons a as ih =>
    obtain ⟨rs, rfl⟩ := ih fun b hb => h b (List.mem_cons_of_mem _ hb)
    have ha := h a List.mem_cons_self
    cases a with
    | keyed r => exact ⟨r :: rs, rfl⟩
    | observed | stat | http => cases ha

/-- Answers that are not by key are about none. -/
theorem about_of_suits {a : Answer} {kind : CookieKind} (hk : kind ≠ .plain)
    (h : a.suits kind = true) : a.about = none := by
  cases a with
  | keyed r =>
    cases kind with
    | plain => exact absurd rfl hk
    | observe | stats | http => cases h
  | observed | stat | http => rfl

/-- The cookie of a key-value call tells the same, having told of the earlier answers already. -/
theorem Underway.told_mixed {c₀ : Cookie} (hu : Underway c₀ f)
    (hk : f.kind.cls.cookieKind = .plain) {rs rs' : List Cookie.Response} {rest : List Bytes}
    (howed : f.owed.Perm (rs.map (·.key) ++ rest))
    (hmix : Grouped.Mixed (fun r => Runtime.stringNew r.key) rs rs') :
    ToldAlike (Cookie.receiveAll rs f.cookie) (Cookie.receiveAll rs' f.cookie) := by
  obtain ⟨rs₀, _, hcookie, hperm, _⟩ := hu.plain hk
  obtain ⟨hun, _⟩ := hu.given.counts (.inl hk)
  have hkeys := hu.given.keys (plain_byKey hk)
  have hall : ((rs₀ ++ rs).map (·.key) ++ rest).Perm (keysAsked f.call) := by
    rw [List.map_append, List.append_assoc]
    exact (howed.symm.append_left _).trans hperm
  have hlen : (rs₀ ++ rs).length ≤ f.call.cmds.length := by
    have hle := hall.length_eq
    rw [List.length_append, List.length_map, keysAsked, hkeys.length] at hle
    omega
  have hmem : ∀ r ∈ rs₀ ++ rs, r.key ≠ [] := fun r hr =>
    hkeys.ne_nil (hall.mem_iff.mp (List.mem_append_left _ (List.mem_map_of_mem hr)))
  have htold := receiveAll_mixed hun hlen hmem (hmix.append rs₀)
  have hjoin (l : List Cookie.Response) :
      Cookie.receiveAll (rs₀ ++ l) c₀ = Cookie.receiveAll l f.cookie := by
    rw [hcookie]
    exact List.foldl_append
  rwa [hjoin, hjoin] at htold

/-- **An open call fares alike however the answers about different keys are mixed.** -/
theorem follow_mixed {c₀ : Cookie} (hu : Underway c₀ f) (hmix : Grouped.Mixed Answer.about as as')
    {g : Flight} {ended : Bool} (h : Pool.follow Flight.move as f = some (g, ended)) :
    ∃ g', Pool.follow Flight.move as' f = some (g', ended) ∧ Alike g g' := by
  have hsuits := follow_suits h
  have hsuits' : ∀ a ∈ as', a.suits f.kind.cls.cookieKind = true :=
    fun a ha => hsuits a (hmix.perm.mem_iff.mp ha)
  by_cases hk : f.kind.cls.cookieKind = .plain
  · rw [hk] at hsuits hsuits'
    obtain ⟨rs, rfl⟩ := keyed_of_suits hsuits
    obtain ⟨rs', rfl⟩ := keyed_of_suits hsuits'
    have hrs : Grouped.Mixed (fun r : Cookie.Response => Runtime.stringNew r.key) rs rs' := by
      intro name
      have hname := hmix (some name)
      rw [List.filter_map, List.filter_map] at hname
      have hinj : Function.Injective Answer.keyed := fun _ _ he => Answer.keyed.inj he
      simpa [Function.comp_def, Answer.about] using hinj.list_map hname
    obtain ⟨_, _, _, _, hne⟩ := hu.plain hk
    obtain ⟨rest, howed⟩ := follow_owes hk h
    have howed' : f.owed.Perm (rs'.map (·.key) ++ rest) :=
      howed.trans ((hrs.perm.map _).symm.append_right _)
    obtain ⟨owed, hpaid, hfollow⟩ := follow_keyed f hk hne howed
    obtain ⟨owed', hpaid', hfollow'⟩ := follow_keyed f hk hne howed'
    cases h.symm.trans hfollow
    exact ⟨_, hfollow', rfl, rfl, rfl, rfl, hpaid'.trans hpaid.symm,
      (hrs.perm.map _).append_left _, hu.told_mixed hk howed hrs⟩
  · -- no answer to such a call is about a key, so they come in the same order
    have hsame {l : List Answer} (hl : ∀ a ∈ l, a.suits f.kind.cls.cookieKind = true) :
        l.filter (fun a => a.about = none) = l :=
      List.filter_eq_self.mpr fun a ha => decide_eq_true (about_of_suits hk (hl a ha))
    have heq := hmix none
    rw [hsame hsuits, hsame hsuits'] at heq
    rw [heq]
    exact ⟨g, h, Alike.refl g⟩

end Call

/-! ## Every call -/

section Runs

variable {as : List TrafficAction} {t t₁ : Traffic} {es es' : List (Nat × Answer)}

/-- The answers to one call, in two mixes of them all. -/
theorem own_mixed (h : Grouped.Mixed (fun e : Nat × Answer => (e.1, e.2.about)) es es')
    (id : Nat) : Grouped.Mixed Answer.about (Pool.own id es) (Pool.own id es') := by
  have hown (l : List (Nat × Answer)) (key : Option String) :
      (Pool.own id l).filter (fun a => a.about = key) =
        (l.filter fun e => (e.1, e.2.about) = (id, key)).map Prod.snd := by
    induction l with
    | nil => rfl
    | cons e l ih =>
      by_cases hid : e.1 = id
      · rw [Pool.own_self hid, List.filter_cons, List.filter_cons, ih]
        by_cases hkey : e.2.about = key <;> simp [hid, hkey]
      · rw [Pool.own_other hid, ih, List.filter_cons_of_neg (by simp [hid])]
  intro key
  rw [hown, hown, h]

/-- **libcouchbase may answer in any order.** From any reachable state, if it can give some answers,
    it can give them in any other order that keeps the order of those about one key of a call, and
    of those to a call that is not by key. Afterwards the connection is the same, the same calls
    are open and the same are over, and every one has told the application the same. -/
theorem answers_reordered (h : Traffic.run as = some t)
    (hmix : Grouped.Mixed (fun e : Nat × Answer => (e.1, e.2.about)) es es')
    (hrun : Run.exec Traffic.step t (answering es) = some t₁) :
    ∃ t₂, Run.exec Traffic.step t (answering es') = some t₂ ∧ t₂.impl = t₁.impl ∧
      List.Forall₂ Alike t₁.flights t₂.flights ∧
      ∃ l, t₂.landed.Perm l ∧ List.Forall₂ Alike t₁.landed l := by
  have ho := run_orderly h
  cases hback : t.impl.jsRuns && t.impl.alive with
  | false =>
    -- nothing can be answered, so nothing was
    cases es with
    | nil =>
      cases hrun
      obtain rfl := hmix.perm.eq_nil
      exact ⟨t, rfl, rfl, List.forall₂_same.mpr fun f _ => Alike.refl f, t.landed, .refl _,
        List.forall₂_same.mpr fun f _ => Alike.refl f⟩
    | cons e es =>
      obtain ⟨_, hstep, _⟩ := Run.exec_cons.mp hrun
      simp [Traffic.step, hback] at hstep
  | true =>
    rw [exec_answering hback] at hrun ⊢
    obtain ⟨p, hp, rfl⟩ := Option.map_eq_some_iff.mp hrun
    have hmem : ∀ e ∈ es', Pool.own e.1 es ≠ [] := by
      intro e he hnil
      exact Pool.own_eq_nil.mp hnil e (hmix.perm.mem_iff.mp he) rfl
    have hout : ∀ f ∈ t.calls.live, ∀ g ended,
        Pool.outcome (·.id) Flight.move es f = some (g, ended) →
          ∃ g', Pool.outcome (·.id) Flight.move es' f = some (g', ended) ∧ Alike g g' := by
      intro f hf g ended hg
      obtain ⟨⟨c₀, hu⟩, _⟩ := ho.flights f hf
      exact follow_mixed hu (own_mixed hmix f.id) hg
    obtain ⟨p', hp', hlive, l, hdone, hl⟩ :=
      Pool.exec_alike move_id ho.distinct Alike.refl hmem hout hp
    exact ⟨_, Option.map_eq_some_iff.mpr ⟨p', hp', rfl⟩, rfl, hlive, l, hdone, hl⟩

end Runs

end Proof

section Example

open scoped SmallRuntime

/-- Two keys asked for twice on an open connection: with a call for each, and with one for both. -/
def askedTwice : List TrafficAction :=
  let keys : Value := .array [.string "a", .string "b"]
  [.impl (.onConfig true), .impl (.makeOperation .get [keys, .undefined, .function 1] 0),
    .impl (.makeOperation .get [keys, .object [("spooled", .bool true)], .function 2] 0)]

/-- Their answers, call by call and key by key; `b` is not there. -/
def callByCall : List (Nat × Answer) :=
  [(0, .keyed { err := 0, key := [97], resp := .get 0 1 [49] }),
    (0, .keyed { err := 13, key := [98], resp := .get 0 0 [] }),
    (1, .keyed { err := 0, key := [97], resp := .get 0 1 [49] }),
    (1, .keyed { err := 13, key := [98], resp := .get 0 0 [] })]

theorem Proof.answers_reordered_backwards : ∃ t t₁ t₂ l, Traffic.run askedTwice = some t ∧
    Run.exec Traffic.step t (answering callByCall) = some t₁ ∧
    t₁.landed.map (fun f => f.cookie.calls.length) = [2, 1] ∧
    Run.exec Traffic.step t (answering callByCall.reverse) = some t₂ ∧
    t₂.landed.Perm l ∧ List.Forall₂ Proof.Alike t₁.landed l := by
  obtain ⟨t, ht, htest⟩ := (Option.any_eq_true _ _).mp
    (show (Traffic.run askedTwice).any (fun t =>
      (Run.exec Traffic.step t (answering callByCall)).any fun t₁ =>
        t₁.landed.map (fun f => f.cookie.calls.length) = [2, 1]) = true by decide +kernel)
  obtain ⟨t₁, ht₁, hcalls⟩ := (Option.any_eq_true _ _).mp htest
  have hmix : Grouped.Mixed (fun e : Nat × Answer => (e.1, e.2.about)) callByCall
      callByCall.reverse := by
    refine .of_perm ?_ (List.reverse_perm _)
    decide +kernel
  obtain ⟨t₂, ht₂, _, _, l, hperm, hl⟩ := Proof.answers_reordered ht hmix ht₁
  exact ⟨t, t₁, t₂, l, ht, ht₁, of_decide_eq_true hcalls, ht₂, hperm, hl⟩

end Example

end Couchnode
