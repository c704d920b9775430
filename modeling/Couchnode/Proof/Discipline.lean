import Couchnode.Native.Impl

/-!
# One walk over the validators

`initialize` and `process` are a dozen functions deep, and more than one thing has to be
known of every path through them: that a refusal is reported, that a refused request leaves
other requests' memory alone. What such a proof needs of the validators is the same each time
— the primitive steps keep something — so the walk over their text is made once here, for any
`Discipline`.

A discipline is an invariant `Inv` the primitive steps keep, and what a refusal leaves
(`Refused`). `text` and `cmd` are what it knows of the pointers `getBuffer` and `getAt` hand
out, and may ask of a pointer written through; `allowed` are the complaints it can take.
`process_keeps` and `initialize_keeps` are the two results. A `Walk` is all of it but
`initCommandList`, which is called once, before everything else.
-/

set_option autoImplicit false

namespace Couchnode

namespace Proof

open Prog

variable [Runtime]

/-- The state after a complaint. -/
def complain (c : Complaint) (s : PState) : PState :=
  { s with err := s.err.record c, recorded := s.recorded ++ [c] }

structure Walk where
  Inv : PState → Prop
  Refused : PState → Prop
  text : CharPtr → Prop := fun _ => True
  cmd : CmdPtr → Prop := fun _ => True
  allowed : Complaint → Prop := fun _ => True
  complain : ∀ {c s}, allowed c → Inv s → Inv (complain c s) ∧ Refused (complain c s)
  getBuffer : ∀ n, Triple Inv (PState.getBuffer n) (fun p s => text p ∧ Inv s) Refused
  offset : ∀ {p} n, text p → text (Command.offset p n)
  writeBytes : ∀ {p} bs, text p → Triple Inv (PState.writeBytes p bs) (fun _ => Inv) Refused
  getAt : ∀ ix, Triple Inv (PState.getAt ix) (fun p s => cmd p ∧ Inv s) Refused
  assign : ∀ {p} f, cmd p → Triple Inv (PState.assign p f) (fun _ => Inv) Refused
  keyOptions : ∀ {s} o, Inv s → Inv { s with cookieKeyOptions := o }
  htType : ∀ {s} t, Inv s → Inv { s with htType := t }

structure Discipline extends Walk where
  initList : ∀ {n s r h l}, s.commands.initializeList n s.heap = (r, h, l) → Inv s →
    Inv { s with heap := h, commands := l }

instance : Coe Discipline Walk := ⟨Discipline.toWalk⟩

namespace Walk

variable {α β O : Type} (D : Walk)

/-- The program keeps the discipline, however it ends. -/
def Keeps (x : Prog PState α) : Prop := Triple D.Inv x (fun _ => D.Inv) D.Refused

variable {D}

namespace Keeps

theorem pure (a : α) : D.Keeps (Pure.pure a : Prog PState α) := fun _ hs => hs

theorem ret (a : α) : D.Keeps (Prog.ret a : Prog PState α) := fun _ hs => hs

theorem fault : D.Keeps (Prog.fault : Prog PState α) := Triple.fault

theorem bind {x : Prog PState α} {f : α → Prog PState β} (hx : D.Keeps x)
    (hf : ∀ a, D.Keeps (f a)) : D.Keeps (x >>= f) := Triple.bind hx hf

theorem ite {c : Prop} [Decidable c] {x y : Prog PState α} (hx : c → D.Keeps x)
    (hy : ¬ c → D.Keeps y) : D.Keeps (if c then x else y) := by
  by_cases h : c
  · rw [if_pos h]; exact hx h
  · rw [if_neg h]; exact hy h

theorem when {c : Prop} [Decidable c] {x : Prog PState Unit} (hx : D.Keeps x) :
    D.Keeps (Prog.when c x) := ite (fun _ => hx) fun _ => ret ()

theorem each {body : Nat → β → Prog PState Unit} (h : ∀ i b, D.Keeps (body i b))
    (i : Nat) (xs : List β) : D.Keeps (Prog.each body i xs) := by
  exact Triple.each (I := fun _ => D.Inv) (R := D.Refused) fun j _ => h (i + j) _

/-- A buffer, and what is done with it. -/
theorem withBuffer {n : Nat} {f : CharPtr → Prog PState β}
    (hf : ∀ p, D.text p → D.Keeps (f p)) : D.Keeps (PState.getBuffer n >>= f) :=
  Triple.bind (D.getBuffer n) fun p => Triple.given (hf p)

/-- A command, and what is done with it. -/
theorem withCommand {ix : Nat} {f : CmdPtr → Prog PState β}
    (hf : ∀ p, D.cmd p → D.Keeps (f p)) : D.Keeps (PState.getAt ix >>= f) :=
  Triple.bind (D.getAt ix) fun p => Triple.given (hf p)

theorem record {c : Complaint} (hc : D.allowed c) : D.Keeps (PState.record c) :=
  fun _ hs => (D.complain hc hs).1

theorem fail {c : Complaint} (hc : D.allowed c) :
    D.Keeps (PState.fail c : Prog PState α) := fun _ hs => (D.complain hc hs).2

theorem writeBytes {p : CharPtr} (hp : D.text p) (bs : List UInt8) :
    D.Keeps (PState.writeBytes p bs) := D.writeBytes bs hp

theorem assign {p : CmdPtr} (hp : D.cmd p) (f : LcbCmd → LcbCmd) :
    D.Keeps (PState.assign p f) := D.assign f hp

/-- Parsing, when the complaints it can end with are allowed. -/
theorem liftParsed {p : Parsed α} (h : ∀ a c, p = .bad a c → D.allowed c) :
    D.Keeps (PState.liftParsed p) := by
  cases p with
  | ok a => exact pure a
  | bad a c => exact fail (h a c rfl)
  | fault => exact fault

theorem initCommandList {D : Discipline} (n : Nat) (h : D.allowed (.eMemory "Command list")) :
    D.Keeps (Command.initCommandList n) := by
  intro s hs
  unfold Command.initCommandList
  split
  · next h' l he => exact D.initList he hs
  · next h' l he => exact fail h _ (D.initList he hs)

end Keeps

end Walk

namespace Discipline

open Walk

variable {O : Type} {D : Walk}

/-! ## `process` and the handlers -/

section Process

variable (hall : ∀ c, D.allowed c)

include hall

theorem keeps_recordIf (c : Option Complaint) : D.Keeps (PState.recordIf c) := by
  cases c with
  | none => exact .pure ()
  | some c => exact .record (hall c)

theorem keeps_parseAll (d : Option Value) (specs : List (ParamSlot O)) (o : O) :
    D.Keeps (PState.liftParsed (ParamSlot.parseAll d specs o)) :=
  .liftParsed fun _ c _ => hall c

theorem keeps_handleBadString (dflt : Option String) (msg : String) :
    D.Keeps (Command.handleBadString dflt msg) := by
  cases dflt with
  | none => exact .fail (hall _)
  | some d => exact .pure _

theorem keeps_getBufBackedString (dflt : Option String) (v : Option Value) (addNul : Bool) :
    D.Keeps (Command.getBufBackedString dflt v addNul) := by
  cases v with
  | none => exact keeps_handleBadString hall dflt _
  | some v =>
    refine .ite (fun _ => keeps_handleBadString hall dflt _) fun _ => ?_
    refine .ite (fun _ => keeps_handleBadString hall dflt _) fun _ => ?_
    refine .withBuffer fun k hk => ?_
    refine .bind (.when (.record (hall _))) fun _ => ?_
    refine .bind (.writeBytes hk _) fun _ => ?_
    exact .bind (.when (.writeBytes (D.offset _ hk) _)) fun _ => .pure _

theorem keeps_encodeUtf8 (v : Value) : D.Keeps (ValueFormat.encodeUtf8 v) := by
  cases v with
  | string s =>
    refine .ite (fun _ => .pure _) fun _ => ?_
    refine .withBuffer fun k hk => ?_
    refine .ite (fun _ => .fail (hall _)) fun _ => ?_
    exact .bind (.writeBytes hk _) fun _ => .pure _
  | _ => exact .fail (hall _)

theorem keeps_encodeNodeBuffer (bs : List UInt8) :
    D.Keeps (ValueFormat.encodeNodeBuffer bs) := by
  refine .withBuffer fun k hk => ?_
  refine .ite (fun _ => .fail (hall _)) fun _ => ?_
  exact .bind (.writeBytes hk _) fun _ => .pure _

theorem keeps_encodeAs (v : Value) (spec : ValueFormat.Spec) :
    D.Keeps (ValueFormat.encodeAs v spec) := by
  cases spec with
  | utf8 => exact keeps_encodeUtf8 hall v
  | raw =>
    simp only [ValueFormat.encodeAs]
    split
    · exact keeps_encodeNodeBuffer hall _
    · exact .bind (keeps_encodeUtf8 hall v) fun _ => .pure _
  | json =>
    simp only [ValueFormat.encodeAs]
    split
    · exact .fail (hall _)
    · exact .bind (keeps_encodeUtf8 hall _) fun _ => .pure _
  | _ => exact .fail (hall _)

theorem keeps_encode (v : Option Value) (spec : ValueFormat.Spec) :
    D.Keeps (ValueFormat.encode v spec) := by
  refine .ite (fun _ => .fail (hall _)) fun _ => ?_
  cases v with
  | none => exact .ite (fun _ => .fail (hall _)) fun _ => .fault
  | some v => exact keeps_encodeAs hall v _

omit [Runtime] hall in
/-- `toSpec` says why a specifier is invalid, and has nothing to say of the others. -/
theorem toSpec_cases (f : Option Value) :
    ((ValueFormat.toSpec f).1 ≠ .invalid ∧ (ValueFormat.toSpec f).2 = none) ∨
      ((ValueFormat.toSpec f).1 = .invalid ∧
        ∃ msg v, (ValueFormat.toSpec f).2 = some (.eArguments msg v)) := by
  simp only [ValueFormat.toSpec]
  repeat' split
  all_goals simp

omit [Runtime] hall in
theorem toSpec_invalid {f : Option Value} (h : (ValueFormat.toSpec f).1 = .invalid) :
    ∃ msg v, (ValueFormat.toSpec f).2 = some (.eArguments msg v) := by
  rcases toSpec_cases f with ⟨hne, _⟩ | ⟨_, hc⟩
  · exact absurd h hne
  · exact hc

omit [Runtime] hall in
theorem toSpec_valid {f : Option Value} (h : (ValueFormat.toSpec f).1 ≠ .invalid) :
    (ValueFormat.toSpec f).2 = none := by
  rcases toSpec_cases f with ⟨_, hc⟩ | ⟨hinv, _⟩
  · exact hc
  · exact absurd hinv h

/-- The one refusal without an error of its own comes right after the error `toSpec`
    recorded. -/
theorem keeps_spec (kOptions glob : StoreOptions) :
    D.Keeps (StoreCommand.spec kOptions glob) := by
  by_cases hinv : (ValueFormat.toSpec (StoreCommand.specObj kOptions glob)).1 = .invalid
  · obtain ⟨msg, v, hc⟩ := toSpec_invalid hinv
    simp only [StoreCommand.spec, if_pos hinv, hc]
    exact Keeps.fail (α := ValueFormat.Spec) (hall _)
  · simp only [StoreCommand.spec, if_neg hinv]
    exact .bind (keeps_recordIf hall _) fun _ => .pure _

theorem keeps_keepFormat (ki : CommandKey) (format : Slot (Option Value)) :
    D.Keeps (GetCommand.keepFormat ki format) := by
  refine .ite (fun _ => .bind (keeps_recordIf hall _) fun _ => ?_) fun _ => .pure ()
  exact .ite (fun _ => .pure ()) fun _ => fun s hs => D.keyOptions _ hs

/-- **Every handler keeps the discipline.** -/
theorem handleSingle_keeps (k : Kind) (hd : Header k.Opts) (ki : CommandKey)
    (params : Option Value) (ix : Nat) : D.Keeps (k.cls.handleSingle hd ki params ix) := by
  cases k with
  | get | lock =>
    refine .bind ?_ fun kOptions => ?_
    · unfold GetCommand.keyOptions
      split
      · exact .ite (fun _ => keeps_parseAll hall _ _ _) fun _ => .pure _
      · exact .pure _
    refine .withCommand fun cmd hc => ?_
    refine .bind (.assign hc _) fun _ => ?_
    have keep := keeps_keepFormat hall ki (kOptions.merge hd.globalOptions).format
    exact .ite (fun _ => .bind (.assign hc _) fun _ => keep)
      fun _ => .bind (.assign hc _) fun _ => keep
  | store op =>
    refine .withCommand fun cmd hc => ?_
    cases params with
    | none => exact .fail (hall _)
    | some p =>
      refine .bind (keeps_parseAll hall _ _ _) fun kOptions => ?_
      refine .bind (.assign hc _) fun _ => ?_
      refine .bind (keeps_spec hall _ _) fun spec => ?_
      exact .bind (keeps_encode hall _ _) fun e => .assign hc _
  | arithmetic =>
    refine .withCommand fun cmd hc => ?_
    refine .bind (keeps_parseAll hall _ _ _) fun kOptions => ?_
    exact .bind (.assign hc _) fun _ => .assign hc _
  | delete | touch =>
    refine .bind (keeps_parseAll hall _ _ _) fun kOptions => ?_
    refine .withCommand fun cmd hc => ?_
    exact .bind (.assign hc _) fun _ => .assign hc _
  | unlock =>
    cases params with
    | none => exact .fail (hall _)
    | some p =>
      refine .bind (keeps_parseAll hall _ _ _) fun kOptions => ?_
      refine .ite (fun _ => .fail (hall _)) fun _ => ?_
      refine .withCommand fun cmd hc => ?_
      exact .bind (.assign hc _) fun _ => .assign hc _
  | observe => exact .withCommand fun cmd hc => .assign hc _
  | endure =>
    refine .withCommand fun cmd hc => ?_
    refine .bind (.assign hc _) fun _ => ?_
    refine .bind (keeps_parseAll hall _ _ _) fun casSlot => ?_
    exact .ite (fun _ => .assign hc _) fun _ => .pure ()
  | stats =>
    refine .ite (fun _ => .fail (hall _)) fun _ => ?_
    exact .withCommand fun cmd hc => .assign hc _
  | http =>
    refine .ite (fun _ => .fail (hall _)) fun _ => ?_
    refine .withCommand fun cmd hc => ?_
    refine .ite (fun _ => .fault) fun _ => ?_
    refine .bind ?_ fun _ => .bind ?_ fun _ => ?_
    · refine .ite (fun _ => .assign hc _) fun _ => ?_
      exact .ite (fun _ => .fail (hall _)) fun _ => .assign hc _
    · refine .ite (fun _ => .fail (hall _)) fun _ => ?_
      exact .ite (fun _ => .fail (hall _)) fun _ => fun s hs => D.htType _ hs
    · refine .ite (fun _ => ?_) fun _ => .fail (hall _)
      have string (v : Option Value) (nul : Bool) (f : Span → LcbCmd → LcbCmd) :
          D.Keeps (HttpCommand.string v nul cmd f) :=
        .bind (keeps_getBufBackedString hall _ _ _) fun _ => .assign hc _
      exact .bind (string _ _ _) fun _ => .bind (.when (string _ _ _)) fun _ =>
        .when (string _ _ _)

theorem processSingle_keeps (k : Kind) (hd : Header k.Opts) (v o : Option Value) (ix : Nat) :
    D.Keeps (Command.processSingle k.cls hd v o ix) := by
  refine .bind ?_ fun hashkey => .bind (keeps_getBufBackedString hall _ _ _) fun key => ?_
  · refine .bind (keeps_parseAll hall _ _ _) fun hkOpt => ?_
    refine .ite (fun _ => keeps_getBufBackedString hall _ _ _) fun _ => ?_
    exact .ite (fun _ => keeps_getBufBackedString hall _ _ _) fun _ => .pure _
  · exact handleSingle_keeps hall k hd _ o ix

/-- **`process` keeps the discipline.** -/
theorem process_keeps (k : Kind) (hd : Header k.Opts) : D.Keeps (Command.process k.cls hd) := by
  unfold Command.process
  split
  · exact processSingle_keeps hall k hd _ _ _
  · exact .each (fun i v => processSingle_keeps hall k hd _ _ _) 0 _
  · exact .each (fun i v => processSingle_keeps hall k hd _ _ _) 0 _

end Process

end Discipline

end Proof

end Couchnode
