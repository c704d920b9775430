import Mathlib.Logic.Function.Basic

/-!
# Stores of documents with versions

A store has a document for some of its keys, each with the version it was written as. Versions are
never given out twice. A change has a guard; the one that names a version is compare and swap: it
goes through if the document still has that version. A request may also fail, and then it has been
performed or it has not.

There are three results. `Step.view` is data refinement: a store of encoded documents is a store of
what they decode to, step by step. `run_latest` is what a store is for: what is there is what was
put there last. `guarded_change` is why versions are worth their trouble: who reads a document and
changes it under the version that was read changes what was read.
-/

set_option autoImplicit false

namespace Versioned

variable {K K' D D' E : Type}

/-! ## Stores -/

structure Entry (D : Type) where
  doc : D
  version : Nat

/-- The documents, and all versions given out so far. -/
@[ext]
structure State (K D : Type) where
  docs : K → Option (Entry D)
  used : List Nat
  known : ∀ k e, docs k = some e → e.version ∈ used

/-- What has to hold for a change to go through. -/
inductive Guard where
  | always | absent | present
  | version (n : Nat)

/-- What is in its way. -/
inductive Refusal where
  | missing | conflict

def Guard.refusal : Guard → Option (Entry D) → Option Refusal
  | .always, _ => none
  | .absent, none => none
  | .absent, some _ => some .conflict
  | .present, none => some .missing
  | .present, some _ => none
  | .version _, none => some .missing
  | .version n, some e => if e.version = n then none else some .conflict

/-- A change without a document is a removal. -/
inductive Request (K D : Type) where
  | read (k : K)
  | change (k : K) (doc : Option D) (guard : Guard)

inductive Reply (D E : Type) where
  | found (doc : D) (version : Nat)
  | done (version : Nat)
  | refused (why : Refusal)
  | failed (e : E)

variable [DecidableEq K] [DecidableEq K']

def State.put (k : K) (doc : Option D) (n : Nat) (m : State K D) : State K D where
  docs := Function.update m.docs k (doc.map fun d => ⟨d, n⟩)
  used := n :: m.used
  known := by
    intro k' e he
    by_cases hk : k' = k
    · subst hk
      rw [Function.update_self] at he
      obtain ⟨d, _, rfl⟩ := Option.map_eq_some_iff.mp he
      exact List.mem_cons_self
    · rw [Function.update_of_ne hk] at he
      exact List.mem_cons_of_mem n (m.known k' e he)

/-- What a read is told. -/
def lookedUp : Option (Entry D) → Reply D E
  | some e => .found e.doc e.version
  | none => .refused .missing

/-- A request, as it is performed if the next version is `n`. -/
def perform (n : Nat) (m : State K D) : Request K D → Reply D E × State K D
  | .read k => (lookedUp (m.docs k), m)
  | .change k doc guard =>
    match guard.refusal (m.docs k) with
    | some why => (.refused why, m)
    | none => (.done n, m.put k doc n)

/-- What may come of a request. -/
inductive Step (m : State K D) (r : Request K D) : Reply D E → State K D → Prop
  | performed {n : Nat} (fresh : n ∉ m.used) : Step m r (perform n m r).1 (perform (E := E) n m r).2
  | lost (e : E) : Step m r (.failed e) m
  | unclear {n : Nat} (fresh : n ∉ m.used) (e : E) : Step m r (.failed e) (perform (E := E) n m r).2

/-- Requests with what came of them, one after the other. -/
inductive Run : State K D → List (Request K D × Reply D E) → State K D → Prop
  | nil (m : State K D) : Run m [] m
  | cons {m m' m'' : State K D} {r : Request K D} {reply : Reply D E}
      {hist : List (Request K D × Reply D E)} (head : Step m r reply m') (tail : Run m' hist m'') :
      Run m ((r, reply) :: hist) m''

/-- What is under a key after some requests, as far as the replies tell, if it was `e` before. -/
def latest (k : K) : List (Request K D × Reply D E) → Option (Entry D) → Option (Entry D)
  | [], e => e
  | (.change k' doc _, .done n) :: hist, e =>
    latest k hist (if k = k' then doc.map fun d => ⟨d, n⟩ else e)
  | _ :: hist, e => latest k hist e

/-! ## Steps and runs -/

section Steps

variable {m m' : State K D} {r : Request K D} {reply : Reply D E} {k : K}
  {hist : List (Request K D × Reply D E)}

theorem lookedUp_ne_done (e : Option (Entry D)) (n : Nat) : lookedUp (E := E) e ≠ .done n := by
  cases e <;> simp [lookedUp]

theorem perform_change (k : K) (doc : Option D) (guard : Guard) (n : Nat) (m : State K D) :
    perform (E := E) n m (.change k doc guard) =
      match guard.refusal (m.docs k) with
      | some why => (.refused why, m)
      | none => (.done n, m.put k doc n) := rfl

/-- Only the next version is given out. -/
theorem perform_used (n : Nat) (m : State K D) (r : Request K D) :
    ∀ x ∈ (perform (E := E) n m r).2.used, x = n ∨ x ∈ m.used := by
  cases r with
  | read k => exact fun x hx => .inr hx
  | change k doc guard =>
    rw [perform_change]
    cases guard.refusal (m.docs k) with
    | some why => exact fun x hx => .inr hx
    | none => exact fun x hx => List.mem_cons.mp hx

/-- **What a step can do**: nothing, or one change. -/
theorem step_cases (h : Step m r reply m') :
    (m' = m ∧ ∀ n, reply ≠ .done n) ∨
    ∃ k doc guard n, r = .change k doc guard ∧ guard.refusal (m.docs k) = none ∧ n ∉ m.used ∧
      m' = m.put k doc n ∧ (reply = .done n ∨ ∃ e, reply = .failed e) := by
  cases h with
  | performed fresh =>
    cases r with
    | read k => exact .inl ⟨rfl, lookedUp_ne_done _⟩
    | change k doc guard =>
      rw [perform_change]
      cases hg : guard.refusal (m.docs k) with
      | some why => exact .inl ⟨rfl, by simp⟩
      | none => exact .inr ⟨k, doc, guard, _, rfl, hg, fresh, rfl, .inl rfl⟩
  | lost e => exact .inl ⟨rfl, by simp⟩
  | unclear fresh e =>
    cases r with
    | read k => exact .inl ⟨rfl, by simp⟩
    | change k doc guard =>
      rw [perform_change]
      cases hg : guard.refusal (m.docs k) with
      | some why => exact .inl ⟨rfl, by simp⟩
      | none => exact .inr ⟨k, doc, guard, _, rfl, hg, fresh, rfl, .inr ⟨e, rfl⟩⟩

/-- A read is told of no change, and a change of no document. -/
theorem step_reply (h : Step m r reply m') :
    (∀ k, r = .read k → ∀ n, reply ≠ .done n) ∧
    ∀ k doc guard, r = .change k doc guard → ∀ d n, reply ≠ .found d n := by
  cases h with
  | performed fresh =>
    constructor
    · rintro k rfl
      exact lookedUp_ne_done _
    · rintro k doc guard rfl
      rw [perform_change]
      cases guard.refusal (m.docs k) <;> simp
  | lost e => exact ⟨by simp, by simp⟩
  | unclear fresh e => exact ⟨by simp, by simp⟩

/-- Every entry of a history was a step. -/
theorem run_step (h : Run m hist m') :
    ∀ x ∈ hist, ∃ m₁ m₂, Step m₁ x.1 x.2 m₂ := by
  induction h with
  | nil => simp
  | cons head _ ih => exact List.forall_mem_cons.mpr ⟨⟨_, _, head⟩, ih⟩

/-- What a step that did not fail leaves under a key. -/
theorem latest_step (h : Step m r reply m')
    (hclear : ∀ doc guard e, (r, reply) ≠ (.change k doc guard, .failed e)) :
    m'.docs k = latest k [(r, reply)] (m.docs k) := by
  rcases step_cases h with ⟨rfl, hnot⟩ | ⟨k', doc, guard, n, rfl, _, _, rfl, rfl | ⟨e, rfl⟩⟩
  · unfold latest
    split
    · next heq =>
      cases heq
    · next heq =>
      cases heq
      exact absurd rfl (hnot _)
    · next heq =>
      cases heq
      rfl
  · exact Function.update_apply _ _ _ _
  · have hk : k ≠ k' := by
      rintro rfl
      exact hclear doc guard e rfl
    exact Function.update_of_ne hk _ _

theorem latest_append (k : K) (hist hist' : List (Request K D × Reply D E)) (e : Option (Entry D)) :
    latest k (hist ++ hist') e = latest k hist' (latest k hist e) := by
  induction hist, e using latest.induct k with
  | case1 e => rfl
  | case2 k' doc guard n hist e ih => exact ih
  | case3 x hist e hx ih =>
    rw [List.cons_append, latest.eq_3 _ _ _ _ hx, latest.eq_3 _ _ _ _ hx]
    exact ih

/-- **What is there was put there last**, if no change to it failed. -/
theorem run_latest (h : Run m hist m')
    (hclear : ∀ doc guard e, (.change k doc guard, .failed e) ∉ hist) :
    m'.docs k = latest k hist (m.docs k) := by
  induction h with
  | nil => rfl
  | @cons m₁ m₂ m₃ r reply hist head tail ih =>
    have hhead : m₂.docs k = latest k [(r, reply)] (m₁.docs k) := by
      refine latest_step head fun doc guard e heq => hclear doc guard e ?_
      rw [heq]
      exact List.mem_cons_self
    rw [ih fun doc guard e hmem => hclear doc guard e (.tail _ hmem), hhead]
    exact (latest_append k [(r, reply)] hist _).symm

end Steps

/-! ## Compare and swap -/

section Swap

variable {m m' m₁ m₂ m₃ : State K D} {r : Request K D} {reply : Reply D E} {k : K} {n : Nat}
  {e : Entry D} {hist : List (Request K D × Reply D E)}

/-- The version is one of old: the document under the key does not have it and never will again. -/
structure Stale (m : State K D) (k : K) (n : Nat) : Prop where
  used : n ∈ m.used
  other : ∀ e, m.docs k = some e → e.version ≠ n

/-- What was just put there does not have an old version. -/
theorem stale_put (hn : n ∈ m.used) {n' : Nat} (fresh : n' ∉ m.used) (doc : Option D) :
    Stale (m.put k doc n') k n where
  used := List.mem_cons_of_mem _ hn
  other := by
    intro e he
    simp only [State.put, Function.update_self, Option.map_eq_some_iff] at he
    obtain ⟨d, _, rfl⟩ := he
    rintro rfl
    exact fresh hn

theorem Stale.step (hs : Stale m k n) (h : Step m r reply m') : Stale m' k n := by
  rcases step_cases h with ⟨rfl, _⟩ | ⟨k', doc, guard, n', rfl, _, fresh, rfl, _⟩
  · exact hs
  · by_cases hk : k = k'
    · subst hk
      exact stale_put hs.used fresh doc
    · refine ⟨List.mem_cons_of_mem _ hs.used, fun e he => hs.other e ?_⟩
      simpa [State.put, Function.update_of_ne hk] using he

theorem Stale.run (hs : Stale m k n) (h : Run m hist m') : Stale m' k n := by
  induction h with
  | nil => exact hs
  | cons head _ ih => exact ih (hs.step head)

/-- The document under a key was changed, as far as the replies tell. -/
def Changed (k : K) (hist : List (Request K D × Reply D E)) : Prop :=
  ∃ doc guard n, (.change k doc guard, .done n) ∈ hist

/-- It may have been changed. -/
def Touched (k : K) (hist : List (Request K D × Reply D E)) : Prop :=
  Changed k hist ∨ ∃ doc guard e, (.change k doc guard, .failed e) ∈ hist

/-- One step leaves a document alone, or makes its version one of old. -/
theorem step_entry (hk : m.docs k = some e) (h : Step m r reply m') :
    (m'.docs k = some e ∧ ∀ doc guard n, (r, reply) ≠ (.change k doc guard, .done n)) ∨
    (Stale m' k e.version ∧ ∃ doc guard, r = .change k doc guard ∧
      ((∃ n, reply = .done n) ∨ ∃ e, reply = .failed e)) := by
  rcases step_cases h with ⟨rfl, hreply⟩ | ⟨k', doc, guard, n, rfl, _, fresh, rfl, hreply⟩
  · refine .inl ⟨hk, ?_⟩
    rintro doc guard n ⟨⟩
    exact hreply n rfl
  · by_cases hkey : k = k'
    · subst hkey
      exact .inr ⟨stale_put (m.known k e hk) fresh doc, doc, guard, rfl,
        hreply.imp_left fun h => ⟨n, h⟩⟩
    · refine .inl ⟨by simpa [State.put, Function.update_of_ne hkey] using hk, ?_⟩
      rintro doc' guard' n' heq
      cases heq
      exact hkey rfl

theorem run_entry (hk : m.docs k = some e) (h : Run m hist m') :
    (m'.docs k = some e ∧ ¬ Changed k hist) ∨ (Stale m' k e.version ∧ Touched k hist) := by
  induction h with
  | nil => exact .inl ⟨hk, by simp [Changed]⟩
  | @cons m₁ m₂ m₃ r reply hist head tail ih =>
    rcases step_entry hk head with ⟨hsame, hne⟩ | ⟨hstale, doc, guard, rfl, hreply⟩
    · rcases ih hsame with ⟨hend, hnot⟩ | ⟨hend, htouched⟩
      · refine .inl ⟨hend, ?_⟩
        rintro ⟨doc, guard, n, hmem⟩
        rcases List.mem_cons.mp hmem with heq | hmem
        · exact hne doc guard n heq.symm
        · exact hnot ⟨doc, guard, n, hmem⟩
      · refine .inr ⟨hend, ?_⟩
        rcases htouched with ⟨doc, guard, n, hmem⟩ | ⟨doc, guard, e, hmem⟩
        · exact .inl ⟨doc, guard, n, .tail _ hmem⟩
        · exact .inr ⟨doc, guard, e, .tail _ hmem⟩
    · refine .inr ⟨hstale.run tail, ?_⟩
      rcases hreply with ⟨n, rfl⟩ | ⟨e, rfl⟩
      · exact .inl ⟨doc, guard, n, .head _⟩
      · exact .inr ⟨doc, guard, e, .head _⟩

/-- A read that finds something finds what is there, and changes nothing. -/
theorem step_found {d : D} (h : Step (E := E) m (.read k) (.found d n) m') :
    m' = m ∧ m.docs k = some ⟨d, n⟩ := by
  generalize hr : Request.read k = r at h
  generalize hreply : Reply.found d n = reply at h
  cases h with
  | @performed n' fresh =>
    subst hr
    have hreply : .found d n = lookedUp (E := E) (m.docs k) := hreply
    cases hd : m.docs k with
    | some e =>
      rw [hd] at hreply
      cases hreply
      exact ⟨rfl, rfl⟩
    | none =>
      rw [hd] at hreply
      cases hreply
  | lost e => cases hreply
  | unclear fresh e => cases hreply

/-- A guarded change goes through under the version of the document only, and is refused under
    another only. -/
theorem step_guarded {doc : Option D} (h : Step m (.change k doc (.version n)) reply m') :
    (∀ n', reply = .done n' → ∃ e, m.docs k = some e ∧ e.version = n) ∧
    ∀ why, reply = .refused why → ∀ e, m.docs k = some e → e.version ≠ n := by
  cases h with
  | performed fresh =>
    rw [perform_change]
    cases hd : m.docs k with
    | none => exact ⟨by simp [Guard.refusal], by simp⟩
    | some e =>
      by_cases hv : e.version = n
      · exact ⟨fun _ _ => ⟨e, rfl, hv⟩, by simp [Guard.refusal, hv]⟩
      · refine ⟨by simp [Guard.refusal, hv], ?_⟩
        rintro _ _ e' ⟨⟩
        exact hv
  | lost e => exact ⟨by simp, by simp⟩
  | unclear fresh e => exact ⟨by simp, by simp⟩

/-- **Compare and swap.** A document is read, and later changed under the version that was read.
    If the change goes through, the document is still the one that was read, and whatever else was
    done to it in between was refused or failed. If it is refused, something else was done to it. -/
theorem guarded_change {d : D} {doc : Option D} (hread : Step (E := E) m (.read k) (.found d n) m₁)
    (hrun : Run m₁ hist m₂) (hchange : Step m₂ (.change k doc (.version n)) reply m₃) :
    (∀ n', reply = .done n' → m₂.docs k = some ⟨d, n⟩ ∧ ¬ Changed k hist) ∧
    ∀ why, reply = .refused why → Touched k hist := by
  obtain ⟨rfl, hk⟩ := step_found hread
  obtain ⟨hdone, hrefused⟩ := step_guarded hchange
  rcases run_entry hk hrun with ⟨hsame, hnot⟩ | ⟨hstale, htouched⟩
  · refine ⟨fun _ _ => ⟨hsame, hnot⟩, fun why hwhy => ?_⟩
    exact absurd rfl (hrefused why hwhy _ hsame)
  · refine ⟨fun n' hn' => ?_, fun _ _ => htouched⟩
    obtain ⟨e, he, hv⟩ := hdone n' hn'
    exact absurd hv (hstale.other e he)

end Swap

/-! ## Encoded documents -/

section View

variable {key : K → K'} {dec : D' → D} {m m' : State K' D'} {r : Request K D} {r' : Request K' D'}
  {reply : Reply D' E}

def Entry.map (dec : D' → D) (e : Entry D') : Entry D := ⟨dec e.doc, e.version⟩

def Reply.map (dec : D' → D) : Reply D' E → Reply D E
  | .found d n => .found (dec d) n
  | .done n => .done n
  | .refused why => .refused why
  | .failed e => .failed e

/-- The store whoever knows its keys as `key` has them sees, if documents decode by `dec`. -/
def State.view (key : K → K') (dec : D' → D) (m : State K' D') : State K D where
  docs k := (m.docs (key k)).map (·.map dec)
  used := m.used
  known := by
    intro k e he
    obtain ⟨e', he', rfl⟩ := Option.map_eq_some_iff.mp he
    exact m.known (key k) e' he'

/-- A request for encoded documents. -/
inductive Request.Encodes (key : K → K') (dec : D' → D) : Request K D → Request K' D' → Prop
  | read (k : K) : Encodes key dec (.read k) (.read (key k))
  | change (k : K) {doc : Option D} {doc' : Option D'} (guard : Guard) (h : doc'.map dec = doc) :
      Encodes key dec (.change k doc guard) (.change (key k) doc' guard)

theorem refusal_map (guard : Guard) (e : Option (Entry D')) :
    guard.refusal (e.map (·.map dec)) = guard.refusal e := by
  cases guard <;> cases e <;> rfl

theorem put_view (hkey : Function.Injective key) (k : K) (doc : Option D') (n : Nat) :
    (m.put (key k) doc n).view key dec = (m.view key dec).put k (doc.map dec) n := by
  ext k' e
  · by_cases hk : k' = k
    · subst hk
      cases doc <;> simp [State.view, State.put, Entry.map]
    · simp [State.view, State.put, Function.update_of_ne hk, Function.update_of_ne (hkey.ne hk)]
  · rfl

theorem perform_view (hkey : Function.Injective key) (henc : r.Encodes key dec r') (n : Nat) :
    perform n (m.view key dec) r =
      ((perform (E := E) n m r').1.map dec, (perform (E := E) n m r').2.view key dec) := by
  cases henc with
  | read k =>
    show (lookedUp ((m.docs (key k)).map (·.map dec)), _) = _
    cases hd : m.docs (key k) <;> simp [lookedUp, perform, hd, Reply.map, Entry.map]
  | change k guard h =>
    subst h
    have hview : (m.view key dec).docs k = (m.docs (key k)).map (·.map dec) := rfl
    rw [perform_change, perform_change, hview, refusal_map]
    cases guard.refusal (m.docs (key k)) with
    | some why => rfl
    | none =>
      show _ = (_, (m.put (key k) _ n).view key dec)
      rw [put_view hkey]
      rfl

/-- **Data refinement.** A step of a store of encoded documents is a step of the store of what
    they decode to. -/
theorem Step.view (hkey : Function.Injective key) (henc : r.Encodes key dec r')
    (h : Step m r' reply m') : Step (m.view key dec) r (reply.map dec) (m'.view key dec) := by
  cases h with
  | @performed n fresh =>
    have hp := perform_view (E := E) (m := m) hkey henc n
    have hstep : Step (m.view key dec) r (perform (E := E) n (m.view key dec) r).1
      (perform (E := E) n (m.view key dec) r).2 := .performed fresh
    rwa [hp] at hstep
  | lost e => exact .lost e
  | @unclear n fresh e =>
    have hp := perform_view (E := E) (m := m) hkey henc n
    have hfresh : n ∉ (m.view key dec).used := fresh
    have hstep : Step (m.view key dec) r (.failed e) (perform (E := E) n (m.view key dec) r).2 :=
      .unclear hfresh e
    rwa [hp] at hstep

end View

end Versioned
