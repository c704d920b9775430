import Couchnode.Proof.Answers

/-!
# What an observe request hears

`ObserveCookie::update` files the payload of a response under its key, in an array made for the
first one. The array is made with one element, and every payload is put at its last index: the
second response of a key replaces the first (`observe_run`). A key with an inherited name, or named
`__proto__`, is not filed at all, because the results object seems to have something under it.

`observe_heard_iff` is when this goes unnoticed: no key was answered twice, and none has such a
name.
-/

set_option autoImplicit false

namespace Couchnode

/-- What an observe response says. -/
abbrev ObserveEvent := Int × ObserveResp

namespace ObserveEvent

variable [Runtime]

def info (r : ObserveEvent) : ResponseInfo := .ofObserve r.1 r.2

def name (r : ObserveEvent) : String := r.info.keyName

def payload (r : ObserveEvent) : Value := .object (r.info.payload.getD [])

/-- The response of a node for a key. -/
def Keyed (r : ObserveEvent) : Prop := r.info.hasKey = true

/-- The array of all the answers for a key, in the order they arrived. -/
def answers (rs : List ObserveEvent) (name : String) : Option Value :=
  match rs.filter (fun r => r.name = name) with
  | [] => none
  | r :: rest => some (.array ((r :: rest).map payload))

end ObserveEvent

namespace Proof

open Command ObserveEvent

variable [Runtime]

/-! ## One response -/

/-- The results while responses come in: one payload for each key, and no name `Get` finds on any
    object. -/
def Filed (results : Props) : Prop :=
  ∀ p ∈ results, prototypeHas p.1 = false ∧ ∃ v, p.2 = .array [v]

section Step

variable {c : Cookie} {r : ObserveEvent} {results : Props}

omit [Runtime] in
theorem filed_set {name : String} {v : Value} (h : Filed results)
    (hname : prototypeHas name = false) :
    Filed (Assoc.set name (.array [v]) results) := by
  induction results with
  | nil =>
    intro p hp
    rw [List.mem_singleton.mp hp]
    exact ⟨hname, v, rfl⟩
  | cons q rest ih =>
    intro p hp
    rw [Assoc.set] at hp
    split at hp
    · rcases List.mem_cons.mp hp with rfl | hp
      · exact ⟨hname, v, rfl⟩
      · exact h p (List.mem_cons_of_mem _ hp)
    · rcases List.mem_cons.mp hp with rfl | hp
      · exact h _ List.mem_cons_self
      · exact ih (fun p hp => h p (List.mem_cons_of_mem _ hp)) p hp

omit [Runtime] in
/-- What is filed under a name: nothing yet, or one payload, and then the name is no inherited
    one. -/
theorem filed_get (h : Filed results) (name : String) :
    results.lookup name = none ∨
      ∃ v, results.lookup name = some (.array [v]) ∧ prototypeHas name = false := by
  cases hl : results.lookup name with
  | none => exact .inl rfl
  | some w =>
    obtain ⟨hname, v, hv⟩ := h (name, w) (Assoc.mem_of_lookup hl)
    exact .inr ⟨v, congrArg some hv, hname⟩

/-- **One response**: its payload replaces what was filed under its key. -/
theorem observeUpdate_keyed (hlive : c.deletes = 0) (hinfo : c.spooledInfo = some results)
    (hf : Filed results) (hk : r.Keyed) :
    c.observeUpdate r =
      if prototypeHas r.name = false then
        some { c with
          hasError := c.hasError || decide (r.1 ≠ LCB_SUCCESS)
          spooledInfo := some (Assoc.set r.name (.array [r.payload]) results) }
      else none := by
  have hk' : (ResponseInfo.ofObserve r.1 r.2).hasKey = true := hk
  have ht (b : Bool) : Cookie.touch { c with hasError := b } = { c with hasError := b } := by
    simp [Cookie.touch, hlive]
  have herr : (if r.1 ≠ LCB_SUCCESS then { c with hasError := true } else c) =
      { c with hasError := c.hasError || decide (r.1 ≠ LCB_SUCCESS) } := by
    by_cases hs : r.1 = LCB_SUCCESS
    · simp [hs]
    · simp [hs]
  have hlatch : (if r.1 ≠ LCB_SUCCESS then { c.touch with hasError := true } else c) =
      { c with hasError := c.hasError || decide (r.1 ≠ LCB_SUCCESS) } := by
    rw [← herr, show c.touch = c from ht c.hasError]
  unfold Cookie.observeUpdate
  dsimp only at hlatch ⊢
  rw [hk', hlatch, ht, hinfo]
  simp only [Option.getD_some, Bool.not_true, Bool.false_eq_true, if_false]
  rcases filed_get hf r.name with hget | ⟨v, hget, hown⟩
  · unfold ObserveEvent.name ObserveEvent.info at hget ⊢
    simp only [hget]
    -- what is inherited is a function or an object, and no array
    cases prototypeHas (ResponseInfo.ofObserve r.1 r.2).keyName
    · rfl
    · rfl
  · rw [if_pos hown]
    unfold ObserveEvent.name ObserveEvent.info at hget
    simp only [hget]
    rfl

end Step

/-! ## All of them -/

section Run

variable {c : Cookie} {rs : List ObserveEvent}

/-- What is filed for a response. -/
def observeEntry (r : ObserveEvent) : String × Value := (r.name, .array [r.payload])

/-- **A run of responses**: each one is filed over the last of its key. -/
theorem observe_run (hlive : c.deletes = 0) {results : Props}
    (hinfo : c.spooledInfo = some results) (hf : Filed results) (hk : ∀ r ∈ rs, r.Keyed) :
    Cookie.observeAll rs c =
      if ∀ r ∈ rs, prototypeHas r.name = false then
        some { c with
          hasError := c.hasError || rs.any fun r => decide (r.1 ≠ LCB_SUCCESS)
          spooledInfo := some (Assoc.writes (rs.map observeEntry) results) }
      else none := by
  induction rs generalizing c results with
  | nil =>
    cases c
    cases hinfo
    simp [Cookie.observeAll]
  | cons r rs ih =>
    have hstep := observeUpdate_keyed hlive hinfo hf (hk r List.mem_cons_self)
    have hcons : Cookie.observeAll (r :: rs) c =
        (c.observeUpdate r).bind fun c => Cookie.observeAll rs c := by
      unfold Cookie.observeAll
      rw [List.foldlM_cons]
      rfl
    rw [hcons, hstep]
    by_cases hr : prototypeHas r.name = false
    · rw [if_pos hr, Option.bind_some]
      have hrest := ih (c := { c with
          hasError := c.hasError || decide (r.1 ≠ LCB_SUCCESS)
          spooledInfo := some (Assoc.set r.name (.array [r.payload]) results) })
        hlive rfl (filed_set hf hr) fun r' hr' => hk r' (List.mem_cons_of_mem _ hr')
      rw [hrest]
      simp only [List.forall_mem_cons, hr, true_and, List.map_cons, Assoc.writes_cons,
        List.any_cons, Bool.or_assoc]
      rfl
    · rw [if_neg hr, if_neg fun hall => hr (hall r List.mem_cons_self)]
      rfl

/-- The terminator: the final call, and the end of the cookie. -/
theorem observeUpdate_keyless {last : ObserveEvent} (hlive : c.deletes = 0) (hl : ¬ last.Keyed) :
    c.observeUpdate last =
      some { c with
        calls := c.calls ++ [finalCall c (c.spooledInfo.getD []) c.hasError], deletes := 1 } := by
  have hk : (ResponseInfo.ofObserve last.1 last.2).hasKey = false := Bool.eq_false_iff.mpr hl
  unfold Cookie.observeUpdate
  simp [hk, Cookie.invokeSpooledCallback, Cookie.invoke, Cookie.delete, Cookie.touch, hlive,
    finalCall]

end Run

/-! ## When every answer is kept -/

section Answers

variable {rs : List ObserveEvent}

/-- With one answer for each key, what is filed is all the answers. -/
theorem lookup_entries (hnd : (rs.map ObserveEvent.name).Nodup) (name : String) :
    (rs.map observeEntry).lookup name = answers rs name := by
  induction rs with
  | nil => rfl
  | cons r rs ih =>
    rw [List.map_cons, List.nodup_cons] at hnd
    unfold answers
    by_cases hr : r.name = name
    · -- no later response has this name
      have hrest : rs.filter (fun r => r.name = name) = [] := by
        rw [List.filter_eq_nil_iff]
        intro r' hr' he
        exact hnd.1 (List.mem_map.mpr ⟨r', hr', (of_decide_eq_true he).trans hr.symm⟩)
      simp [hr, hrest, observeEntry]
    · have hne : (name == r.name) = false := by simpa using fun e => hr e.symm
      simp only [List.filter_cons, hr, decide_false, Bool.false_eq_true, if_false,
        List.map_cons, observeEntry, List.lookup_cons, hne]
      exact ih hnd.2

/-- With two answers for a key, one of them is not there. -/
theorem nodup_of_lookup
    (h : ∀ name, (Assoc.writes (rs.map observeEntry) []).lookup name = answers rs name) :
    (rs.map ObserveEvent.name).Nodup := by
  rw [List.nodup_iff_count]
  intro name
  have hcount : (rs.map ObserveEvent.name).count name =
      (rs.filter (fun r => r.name = name)).length := by
    rw [List.count_eq_countP, List.countP_map, List.countP_eq_length_filter]
    rfl
  rw [hcount]
  have hname := h name
  rw [Assoc.lookup_writes] at hname
  unfold answers at hname
  cases hf : rs.filter (fun r => r.name = name) with
  | nil => exact Nat.zero_le 1
  | cons r rest =>
    simp only [hf, List.lookup_nil, Option.or_none] at hname
    have hmem : (name, Value.array ((r :: rest).map ObserveEvent.payload)) ∈ rs.map observeEntry :=
      List.mem_reverse.mp (Assoc.mem_of_lookup hname)
    obtain ⟨r', _, hr'⟩ := List.mem_map.mp hmem
    -- what is filed is one payload
    have hone : [r'.payload] = (r :: rest).map ObserveEvent.payload :=
      Value.array.inj (Prod.mk.inj hr').2
    have hlen := congrArg List.length hone
    rw [List.length_map, List.length_singleton] at hlen
    exact Nat.le_of_eq hlen.symm

end Answers

section Request

variable {args : List Value} {h : Heap} {hd : Header Kind.observe.Opts} {st : PState}
  {rs : List ObserveEvent} {last : ObserveEvent}

/-- The application heard once, of all the answers for every key that was answered. -/
def HeardAll (callback : Value) (rs : List ObserveEvent) (final : Option Cookie) : Prop :=
  ∃ c e results, final = some c ∧ c.calls = [{ fn := callback, args := [e, .object results] }] ∧
    ∀ name, results.lookup name = answers rs name

/-- A fresh observe cookie has an empty results object whatever its mode. -/
theorem observe_cookie (hacc : accept Kind.observe.cls args (Command.start h) = .done hd st) :
    let c := (ofState hd st).createCookie Kind.observe.cls
    c.deletes = 0 ∧ c.calls = [] ∧ c.spooledInfo = some [] ∧ c.callback = lastArg args := by
  intro c
  obtain ⟨_, _, hun⟩ := counted_keys hacc (.inr rfl)
  refine ⟨hun.deletes, hun.calls, ?_, (createCookie_callback hacc).1⟩
  show ((ofState hd st).initCookie (Cookie.create .observe _)).spooledInfo = some []
  unfold Command.initCookie Cookie.setCallback
  dsimp only [Cookie.create]
  split <;> rfl

/-- **When no observe answer is lost**: no key was answered more than once, and no key has the
    name of an inherited property or is `__proto__`. -/
theorem observe_heard_iff
    (hacc : accept Kind.observe.cls args (Command.start h) = .done hd st)
    (hk : ∀ r ∈ rs, r.Keyed) (hlast : ¬ last.Keyed) :
    HeardAll (lastArg args) rs
        (Cookie.observeAll (rs ++ [last]) ((ofState hd st).createCookie Kind.observe.cls)) ↔
      (rs.map ObserveEvent.name).Nodup ∧
        ∀ r ∈ rs, prototypeHas r.name = false := by
  -- nothing else matters about the cookie
  obtain ⟨hlive, hcalls, hinfo, hcb⟩ := observe_cookie hacc
  generalize (ofState hd st).createCookie Kind.observe.cls = c at hlive hcalls hinfo hcb ⊢
  have hrun := observe_run hlive hinfo (fun p hp => absurd hp List.not_mem_nil) hk
  have happ : Cookie.observeAll (rs ++ [last]) c =
      (Cookie.observeAll rs c).bind fun c => c.observeUpdate last := by
    unfold Cookie.observeAll
    rw [List.foldlM_append]
    refine congrArg _ (funext fun c => ?_)
    rw [List.foldlM_cons]
    exact bind_pure _
  have hend (e : Bool) (results : Option Props) := observeUpdate_keyless
    (c := { c with hasError := e, spooledInfo := results }) hlive hlast
  rw [happ, hrun]
  -- an inherited name ends the run before the terminator
  by_cases hnames : ∀ r ∈ rs, prototypeHas r.name = false
  · rw [if_pos hnames, Option.bind_some, hend]
    simp only [hcalls, List.nil_append, Option.getD_some]
    rw [and_iff_left hnames]
    constructor
    · rintro ⟨c', e, results, hc', hcall, hall⟩
      cases hc'
      have hargs := (Invocation.mk.inj (List.cons.inj hcall).1).2
      simp only [List.cons.injEq, Value.object.injEq] at hargs
      obtain ⟨_, rfl, _⟩ := hargs
      exact nodup_of_lookup hall
    · intro hnd
      refine ⟨_, _, _, rfl, by rw [← hcb]; rfl, fun name => ?_⟩
      rw [Assoc.lookup_writes, Assoc.lookup_reverse, lookup_entries hnd]
      · exact Option.or_none
      · unfold Assoc.keys
        rw [List.map_map]
        exact hnd
  · rw [if_neg hnames]
    constructor
    · rintro ⟨_, _, _, hc', _⟩
      cases hc'
    · rintro ⟨_, hall⟩
      exact absurd hall hnames

end Request

end Proof

section Example

open scoped SmallRuntime

/-- A node's answer for a key. -/
def nodeAnswer (key : String) (ttp : Nat) : ObserveEvent :=
  (LCB_SUCCESS, { key := some (utf8 key), ttp := ttp })

/-- The end of the answers. -/
def noMoreAnswers : ObserveEvent := (LCB_SUCCESS, {})

def observeArgs : List Value := [.string "a", .null, .function 1]

/-- The results object the final call of an observe request carries, as far as its keys and the
    number of their answers go. -/
def answerCounts (final : Option Cookie) : List (List (String × Nat)) :=
  (final.map fun c => c.calls.map fun call =>
    (Command.arg call.args 1).entries.map fun p => (p.1, p.2.entries.length)).getD []

theorem nodeAnswer_name (key : String) (ttp : Nat) : (nodeAnswer key ttp).name = key :=
  SmallRuntime.stringNewInverse key

/-- One node answers for the one key. -/
theorem Proof.observe_heard_iff_one :
    ∃ hd st, Command.accept Kind.observe.cls observeArgs (Command.start []) = .done hd st ∧
      Proof.HeardAll (.function 1) [nodeAnswer "a" 1]
        (Cookie.observeAll ([nodeAnswer "a" 1] ++ [noMoreAnswers])
          ((Command.ofState hd st).createCookie Kind.observe.cls)) := by
  obtain ⟨hd, st, hacc, _⟩ := Outcome.exists_of_check
    (Command.accept Kind.observe.cls observeArgs (Command.start [])) (fun _ _ => true)
    (by decide +kernel)
  refine ⟨hd, st, hacc, (Proof.observe_heard_iff hacc ?_ ?_).mpr ⟨?_, ?_⟩⟩
  · intro r hr
    rw [List.mem_singleton.mp hr]
    rfl
  · exact Bool.false_ne_true
  · exact List.nodup_cons.mpr ⟨List.not_mem_nil, List.nodup_nil⟩
  · intro r hr
    rw [List.mem_singleton.mp hr, nodeAnswer_name]
    decide

/-- Two nodes answer for it: the second answer is filed over the first. -/
theorem Proof.observe_overwritten :
    ∃ hd st, Command.accept Kind.observe.cls observeArgs (Command.start []) = .done hd st ∧
      let final := Cookie.observeAll ([nodeAnswer "a" 1, nodeAnswer "a" 2] ++ [noMoreAnswers])
        ((Command.ofState hd st).createCookie Kind.observe.cls)
      answerCounts final = [[("a", 1)]] ∧
        ¬ Proof.HeardAll (.function 1) [nodeAnswer "a" 1, nodeAnswer "a" 2] final := by
  obtain ⟨hd, st, hacc, htest⟩ := Outcome.exists_of_check
    (Command.accept Kind.observe.cls observeArgs (Command.start []))
    (fun hd st => answerCounts (Cookie.observeAll
      ([nodeAnswer "a" 1, nodeAnswer "a" 2] ++ [noMoreAnswers])
      ((Command.ofState hd st).createCookie Kind.observe.cls)) = [[("a", 1)]]) (by decide +kernel)
  refine ⟨hd, st, hacc, of_decide_eq_true htest, ?_⟩
  rintro ⟨c, e, results, hc, hcall, hall⟩
  -- one entry with one element under it, where there were two answers
  have hcounts : [results.map fun p => (p.1, p.2.entries.length)] = [[("a", 1)]] := by
    have hfinal := of_decide_eq_true htest
    rw [hc] at hfinal
    simp only [answerCounts, Option.map_some, Option.getD_some, hcall, List.map_cons,
      List.map_nil] at hfinal
    exact hfinal
  have hans : ObserveEvent.answers [nodeAnswer "a" 1, nodeAnswer "a" 2] "a" =
      some (.array [(nodeAnswer "a" 1).payload, (nodeAnswer "a" 2).payload]) := by
    simp [ObserveEvent.answers, nodeAnswer_name]
  have hname := (hall "a").trans hans
  have hmem : ("a", 2) ∈ results.map fun p => (p.1, p.2.entries.length) :=
    List.mem_map.mpr ⟨_, Assoc.mem_of_lookup hname, by simp [Value.entries, indexed]⟩
  rw [(List.cons.inj hcounts).1] at hmem
  simp at hmem

end Example

end Couchnode
