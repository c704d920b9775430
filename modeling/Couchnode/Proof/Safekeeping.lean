import Couchnode.V8.Runtime
import Couchnode.Proof.Deferral
import Couchnode.Proof.Arena

/-!
# Text is kept while later keys are lowered

What is stored for a key has to last until the request is executed. Whatever is written later is
written to a region that was handed out later, and such a region begins behind everything stored
before. That is a discipline of the validators (`keeping`), so it holds of any number of later
keys and however they end. The commands of the keys that are done read as they did when their
handlers were (`texts_kept`).
-/

set_option autoImplicit false

namespace Couchnode

namespace Proof

open Prog Command

/-! ## Memory -/

section Memory

variable {h h' : Heap} {l l' : CommandList} {b : BufferList} {q : CharPtr} {bs : List UInt8}

/-- A buffer list is sound, and has a text stored. -/
def Safe (q : CharPtr) (bs : List UInt8) (h : Heap) (b : BufferList) : Prop :=
  BufOk h b ∧ Stored h b q bs

/-- What is written through the pointer does not reach back to the text. -/
def LaterText (q : CharPtr) (bs : List UInt8) (p : CharPtr) : Prop :=
  ∀ blk off, p = .inBlock blk off → Behind q bs.length blk off

theorem TextSame.safe {h₀ : Nat} (t : TextSame h₀ h h') (hs : Safe q bs h b) : Safe q bs h' b :=
  ⟨t.bufOk hs.1, t.stored hs.2⟩

theorem safe_alloc (c : Cell) (hs : Safe q bs h b) : Safe q bs (h.alloc c) b := by
  obtain ⟨ok, hst⟩ := hs
  have hsame : ∀ x ∈ b.bufList, (h.alloc c).read x = h.read x := fun x hx =>
    Blocks.read_alloc_lt (ok.lt hx)
  refine ⟨ok.congr hsame, ?_⟩
  cases q with
  | null | lit s => exact hst
  | inBlock blk off =>
    obtain ⟨hres, cs, hr, hsl⟩ := hst
    exact ⟨hres.congr hsame, cs, Blocks.read_alloc hr, hsl⟩

theorem safe_initializeList {n : Nat} {r : Bool} (he : l.initializeList n h = (r, h', l'))
    (hs : Safe q bs h b) : Safe q bs h' b := by
  unfold CommandList.initializeList at he
  split at he
  · cases he
    exact hs
  · split at he
    · cases he
      exact safe_alloc _ (safe_alloc _ hs)
    · cases he
      exact hs

/-- Entering a pointer touches no text. -/
theorem textSame_getAt {ix : Nat} {p : CmdPtr} (he : l.getAt ix h = some (p, h')) :
    TextSame 0 h h' := by
  unfold CommandList.getAt at he
  split at he
  · cases he
    exact .refl 0 h
  split at he
  · cases he
    exact .refl 0 h
  split at he
  · split at he
    · next ps hr =>
      split at he
      · cases he
        exact textSame_put (Nat.zero_le _) hr fun bs => by simp
      · cases he
    · cases he
  · cases he

/-- Nor does an assignment to a command. -/
theorem textSame_update {p : CmdPtr} {f : LcbCmd → LcbCmd}
    (he : l.update p f h = some (h', l')) : TextSame 0 h h' := by
  unfold CommandList.update at he
  cases p with
  | null => cases he
  | single a =>
    simp only at he
    split at he
    · cases he
      exact .refl 0 h
    · cases he
  | elem x ix =>
    simp only at he
    split at he
    · next cs hr =>
      split at he
      · cases he
        exact textSame_put (Nat.zero_le _) hr fun bs => by simp
      · cases he
    · cases he

/-- A write behind the text leaves it alone. -/
theorem safe_writeBytes {p : CharPtr} {cs : List UInt8} (hp : LaterText q bs p)
    (hw : h.writeBytes p cs = some h') (hs : Safe q bs h b) : Safe q bs h' b := by
  cases p with
  | null | lit s => cases hw
  | inBlock blk off =>
    unfold Heap.writeBytes at hw
    simp only at hw
    split at hw
    · next old hr =>
      split at hw
      · next hfit =>
        cases hw
        have hbehind := hp blk off rfl
        exact ⟨overwrite_ok hs.1 hr hfit, overwrite_stored hr hfit hs.2 (hbehind.apart _)⟩
      · cases hw
    · cases hw

/-- What is handed out begins behind the text. -/
theorem safe_getBuffer (n : Nat) (hs : Safe q bs h b) :
    ∃ p h' b', b.getBuffer n h = some (p, h', b') ∧ LaterText q bs p ∧ Safe q bs h' b' := by
  rcases Nat.eq_zero_or_pos n with rfl | hn
  · exact ⟨.null, h, b, rfl, fun _ _ hp => (by cases hp), hs⟩
  · obtain ⟨blk, off, h', b', he, ok', k, _, hbehind⟩ := getBuffer_spec hs.1 hn
    refine ⟨_, h', b', he, fun x o hx => ?_, ok', k.stored _ _ hs.2⟩
    cases hx
    exact hbehind q bs hs.2

end Memory

/-! ## The validators -/

variable [Runtime]

/-- Leaving a stored text alone. -/
def keeping (q : CharPtr) (bs : List UInt8) : Discipline where
  Inv := fun s => Safe q bs s.heap s.bufs
  Refused := fun s => Safe q bs s.heap s.bufs
  text := LaterText q bs
  complain := fun _ hs => ⟨hs, hs⟩
  getBuffer := fun n s hs => by
    obtain ⟨p, h', b', he, hp, hs'⟩ := safe_getBuffer n hs
    unfold PState.getBuffer
    rw [he]
    exact ⟨hp, hs'⟩
  offset := fun {p} n hp blk off hoff => by
    cases p with
    | null | lit s => cases hoff
    | inBlock x o =>
      cases hoff
      have hbehind := hp blk o rfl
      cases q with
      | null | lit s => trivial
      | inBlock y o' =>
        rcases hbehind with hne | hle
        · exact .inl hne
        · exact .inr (Nat.le_trans hle (Nat.le_add_right o n))
  writeBytes := fun {p} cs hp s hs => by
    unfold PState.writeBytes
    cases hw : s.heap.writeBytes p cs with
    | none => trivial
    | some h' => exact safe_writeBytes hp hw hs
  getAt := fun ix s hs => by
    unfold PState.getAt
    cases he : s.commands.getAt ix s.heap with
    | none => trivial
    | some r => exact ⟨trivial, (textSame_getAt he).safe hs⟩
  assign := fun {p} f _ s hs => by
    unfold PState.assign
    cases he : s.commands.update p f s.heap with
    | none => trivial
    | some r => exact (textSame_update he).safe hs
  initList := fun he hs => safe_initializeList he hs
  keyOptions := fun _ hs => hs
  htType := fun _ hs => hs

section Later

variable {k : Kind} {hd : Header k.Opts} {s s' : PState} {u : Unit}

/-- Some keys of a request, lowered from the command at `ix` on. -/
def processItems (k : Kind) (hd : Header k.Opts) (ix : Nat)
    (items : List (Option Value × Option Value)) : Prog PState Unit :=
  Prog.each (fun ix item => processSingle k.cls hd item.1 item.2 ix) ix items

/-- `process` is this loop over all the keys. -/
theorem process_items : Command.process k.cls hd = processItems k hd 0 hd.keys.items :=
  process_each hd

/-- The program ends in this state, one way or the other. -/
def EndsIn (x : Prog PState Unit) (s s' : PState) : Prop := x s = .done () s' ∨ x s = .refused s'

/-- **Later keys leave everything stored alone**, also those that are turned down. -/
theorem later_steady {ix : Nat} {items : List (Option Value × Option Value)}
    (ok : BufOk s.heap s.bufs) (h : EndsIn (processItems k hd ix items) s s') : Steady s s' := by
  intro q bs hs
  have hkeeps : (keeping q bs).Keeps (processItems k hd ix items) :=
    .each (fun i item => Discipline.processSingle_keeps (fun _ => trivial) k hd _ _ _) ix items
  have hsat := hkeeps s ⟨ok, hs⟩
  rcases h with hdone | hrefused
  · rw [hdone] at hsat
    exact hsat.2
  · rw [hrefused] at hsat
    exact hsat.2

variable {args : List Value} {h : Heap} {s₀ s₁ s₂ : PState}
  {earlier later : List (Option Value × Option Value)}

/-- **The keys that are done read as their requests**, and still do after any later keys. -/
theorem texts_kept (hinit : initializeCommand k.cls args (Command.start h) = .done hd s₀)
    (hearlier : processItems k hd 0 earlier s₀ = .done u s₁)
    (hlater : EndsIn (processItems k hd earlier.length later) s₁ s₂) :
    ∃ cmds reqs, earlier.mapM (itemRequest k.cls k.request hd) = some reqs ∧
      (∀ i < earlier.length, s₁.commands.deref (s₁.commands.ptr i) s₁.heap = cmds[i]?) ∧
      List.Forall₂ (fun c req => c.read s₁.heap = some req ∧ c.read s₂.heap = some req)
        cmds reqs := by
  obtain ⟨_, _, _, hl⟩ := initialize_done hinit
  obtain ⟨reqs, hreqs, hl₁⟩ :=
    each_lowers (fun hl hx => single_lowers (kind_lowers k) hl hx) hl hearlier
  rw [List.nil_append] at hl₁
  have hlen : earlier.length = reqs.length := (forall₂_of_mapM hreqs).length_eq
  have hsteady : Steady s₁ s₂ := later_steady hl₁.bufs hlater
  obtain ⟨cmds, hshape, hcmds⟩ := hl₁.cmds
  refine ⟨cmds, reqs, hreqs, fun i hi => ?_, ?_⟩
  · rw [hlen, ← hcmds.length_eq] at hi
    have hin : i < k.cls.listSize hd.keys := by
      have hn := hl₁.length
      rw [← hcmds.length_eq] at hn
      omega
    rw [deref_ptr hshape hin, List.getElem?_append_left hi]
  · exact hcmds.imp fun _ _ hc => ⟨hc.read, (hc.mono hsteady).read⟩

end Later

/-- **Buffer lists hand out disjoint memory**, in every order of requests, copies and
    destructions. So the texts of one command are not overwritten while later keys are lowered,
    whether these are accepted or not. -/
theorem buffers_apart :
    (∀ h₀ ops a, Run.exec Arena.step { heap := h₀ } ops = some a →
      HandsOutApart h₀.length a) ∧
    (∀ (k : Kind) (args : List Value) (hd : Header k.Opts) (h : Heap) (s₀ s₁ s₂ : PState)
        (earlier later : List (Option Value × Option Value)),
      initializeCommand k.cls args (Command.start h) = .done hd s₀ →
      processItems k hd 0 earlier s₀ = .done () s₁ →
      EndsIn (processItems k hd earlier.length later) s₁ s₂ →
      ∃ cmds reqs, earlier.mapM (itemRequest k.cls k.request hd) = some reqs ∧
        (∀ i < earlier.length, s₁.commands.deref (s₁.commands.ptr i) s₁.heap = cmds[i]?) ∧
        List.Forall₂ (fun c req => c.read s₁.heap = some req ∧ c.read s₂.heap = some req)
          cmds reqs) := by
  constructor
  · intro h₀ ops a hrun
    exact (arenaOk_run hrun).handsOutApart
  · intro k args hd h s₀ s₁ s₂ earlier later hinit hearlier hlater
    exact texts_kept hinit hearlier hlater

end Proof

section Example

open scoped SmallRuntime

def valueOnly (v : String) : Value := .object [("value", .string v)]

def twoKeys : List Value :=
  [.object [("a", valueOnly "x"), ("b", valueOnly "y")], .undefined, .function 1]

/-- Two lists, a copy between the requests, and one too large for a block of the list. -/
def arenaRun : List ArenaOp :=
  [.construct, .getBuffer 0 5, .getBuffer 0 2000, .copy 0, .construct, .getBuffer 1 600,
   .getBuffer 1 600, .getBuffer 2 7, .destroy 0]

/-- They are apart, and the text of the first key outlasts the second. -/
theorem Proof.buffers_apart_two :
    (∃ a, Run.exec Arena.step { heap := [] } arenaRun = some a ∧ a.regions.length = 5 ∧
      Proof.HandsOutApart 0 a) ∧
    ∃ hd s₀ s₁ s₂, Command.initializeCommand (Kind.store .set).cls twoKeys
        (Command.start []) = .done hd s₀ ∧
      Proof.processItems (.store .set) hd 0 [(some (.string "a"), some (valueOnly "x"))] s₀ =
        .done () s₁ ∧
      Proof.processItems (.store .set) hd 1 [(some (.string "b"), some (valueOnly "y"))] s₁ =
        .done () s₂ ∧
      ∃ cmds reqs, cmds.length = 1 ∧
        List.Forall₂ (fun (c : LcbCmd) req => c.read s₁.heap = some req ∧ c.read s₂.heap = some req)
          cmds reqs := by
  constructor
  · have htest : (Run.exec Arena.step { heap := [] } arenaRun).any
        (fun a => a.regions.length = 5) = true := by decide +kernel
    obtain ⟨a, hrun, hlen⟩ := (Option.any_eq_true _ _).mp htest
    exact ⟨a, hrun, of_decide_eq_true hlen, Proof.buffers_apart.1 [] arenaRun a hrun⟩
  · obtain ⟨hd, s₀, hinit, hrest⟩ := Outcome.exists_of_check
      (Command.initializeCommand (Kind.store .set).cls twoKeys (Command.start []))
      (fun hd s₀ => (Proof.processItems (.store .set) hd 0
          [(some (.string "a"), some (valueOnly "x"))] s₀).check fun _ s₁ =>
        (Proof.processItems (.store .set) hd 1
          [(some (.string "b"), some (valueOnly "y"))] s₁).check fun _ _ => true)
      (by decide +kernel)
    obtain ⟨_, s₁, hfst, hrest⟩ := Outcome.exists_of_check _ _ hrest
    obtain ⟨_, s₂, hsnd, _⟩ := Outcome.exists_of_check _ _ hrest
    obtain ⟨cmds, reqs, hreqs, _, hread⟩ :=
      Proof.buffers_apart.2 _ _ _ _ _ _ _ _ _ hinit hfst (.inl hsnd)
    refine ⟨hd, s₀, s₁, s₂, hinit, hfst, hsnd, cmds, reqs, ?_, hread⟩
    rw [hread.length_eq, ← (Proof.forall₂_of_mapM hreqs).length_eq]
    rfl

end Example

end Couchnode
