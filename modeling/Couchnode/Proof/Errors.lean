import Couchnode.Proof.Discipline

/-!
# Every refusal is reported, with the first error

The error discipline: the error object equals the first error recorded, only complaints in `φ`
are recorded, and a refusal comes after one. `φ` is used twice. With no restriction it gives
the error discipline of the whole of `initialize` and `process`. With `Spoken` (the message is
not empty) it gives that of `initialize` alone, which is what `throwV8` asserts on the one path
that throws: `initialize_keeps` shows that nothing else is recorded there.
-/

set_option autoImplicit false

namespace Couchnode

namespace Proof

open Prog

variable [Runtime] {α O : Type} {φ : Complaint → Prop}

/-- The error object holds the first error recorded, and every error recorded is in `φ`. -/
def Recorded (φ : Complaint → Prop) (s : PState) : Prop :=
  s.err = firstError s.recorded ∧ ∀ c ∈ s.recorded, φ c

theorem recorded_complain {c : Complaint} {s : PState} (hc : φ c) (hs : Recorded φ s) :
    Recorded φ (complain c s) := by
  refine ⟨?_, fun d hd => ?_⟩
  · show s.err.record c = firstError (s.recorded ++ [c])
    rw [hs.1]
    exact firstError_record s.recorded c
  · rcases List.mem_append.mp hd with hd | hd
    · exact hs.2 d hd
    · rw [List.mem_singleton.mp hd]
      exact hc

/-- Steps that leave the error members alone. -/
theorem recorded_quiet {x : Prog PState α} {R : PState → Prop}
    (h : ∀ s a s', x s = .done a s' → s'.err = s.err ∧ s'.recorded = s.recorded)
    (hr : ∀ s s', x s ≠ .refused s') :
    Triple (Recorded φ) x (fun _ s => True ∧ Recorded φ s) R := by
  intro s hs
  cases hx : x s with
  | fault => trivial
  | refused s' => exact absurd hx (hr s s')
  | done a s' =>
    obtain ⟨he, hl⟩ := h s a s' hx
    exact ⟨trivial, by rw [he, hl]; exact hs.1, by rw [hl]; exact hs.2⟩

/-- The error discipline. -/
def errors (φ : Complaint → Prop) : Discipline where
  Inv := Recorded φ
  Refused := fun s => Recorded φ s ∧ s.recorded ≠ []
  allowed := φ
  complain := fun hc hs =>
    ⟨recorded_complain hc hs, recorded_complain hc hs, by simp [complain]⟩
  getBuffer := fun n => by
    refine recorded_quiet (fun s a s' hx => ?_) fun s s' hx => ?_
    all_goals unfold PState.getBuffer at hx; split at hx
    all_goals first | cases hx; exact ⟨rfl, rfl⟩ | cases hx
  offset := fun _ _ => trivial
  writeBytes := fun bs _ => by
    refine Triple.post (recorded_quiet (fun s a s' hx => ?_) fun s s' hx => ?_) fun _ _ h => h.2
    all_goals unfold PState.writeBytes at hx; split at hx
    all_goals first | cases hx; exact ⟨rfl, rfl⟩ | cases hx
  getAt := fun ix => by
    refine recorded_quiet (fun s a s' hx => ?_) fun s s' hx => ?_
    all_goals unfold PState.getAt at hx; split at hx
    all_goals first | cases hx; exact ⟨rfl, rfl⟩ | cases hx
  assign := fun f _ => by
    refine Triple.post (recorded_quiet (fun s a s' hx => ?_) fun s s' hx => ?_) fun _ _ h => h.2
    all_goals unfold PState.assign at hx; split at hx
    all_goals first | cases hx; exact ⟨rfl, rfl⟩ | cases hx
  initList := fun _ hs => hs
  keyOptions := fun _ hs => hs
  htType := fun _ hs => hs

theorem recorded_start (φ : Complaint → Prop) (h : Heap) : Recorded φ (Command.start h) :=
  ⟨rfl, fun c hc => absurd hc (by simp [Command.start])⟩

/-! ## The errors of `initialize` have a text -/

/-- The message of the complaint is not empty. -/
def Spoken (c : Complaint) : Prop := c.exc.message ≠ ""

theorem spoken_eArguments {msg : String} {v : Option Value} (h : msg ≠ "") :
    Spoken (.eArguments msg v) := by
  simpa [Spoken, Complaint.exc, CBExc.record, CBExc.eArguments, CBExc.assign,
    CBExc.setMessage] using h

theorem spoken_eMemory {msg : String} (h : msg ≠ "") : Spoken (.eMemory msg) := by
  simp [Spoken, Complaint.exc, CBExc.record, CBExc.eMemory, CBExc.assign, h]

/-- Every complaint a slot ends with has a text. -/
def SlotSpeaks (parse : Value → α → Parsed α) : Prop :=
  ∀ v s s' c, parse v s = .bad s' c → Spoken c

theorem numeric_speaks (t : IntType) : SlotSpeaks (NumericSlot.parseValue t) := by
  intro v s s' c h
  simp only [NumericSlot.parseValue] at h
  split at h
  · cases h
  · split at h
    · split at h
      · cases h; exact spoken_eArguments (by decide)
      · cases h
    · cases h; exact spoken_eArguments (by decide)

theorem cas_speaks : SlotSpeaks CasSlot.parseValue := by
  intro v s s' c h
  simp only [CasSlot.parseValue] at h
  split at h
  · cases h
  · split at h
    · cases h; exact spoken_eArguments (by decide)
    · cases h
    · cases h

theorem boolean_speaks : SlotSpeaks BooleanOption.parseValue := fun _ _ _ _ h => by cases h

theorem v8Value_speaks : SlotSpeaks V8ValueOption.parseValue := fun _ _ _ _ h => by cases h

theorem string_speaks : SlotSpeaks StringOption.parseValue := by
  intro v s s' c h
  simp only [StringOption.parseValue] at h
  split at h
  · cases h; exact spoken_eArguments (by decide)
  · cases h

theorem callable_speaks : SlotSpeaks CallableOption.parseValue := by
  intro v s s' c h
  simp only [CallableOption.parseValue] at h
  split at h
  · cases h
  · split at h
    · cases h; exact spoken_eArguments (by decide)
    · cases h

/-- All the slots of an options record speak. -/
def SpecsSpeak (specs : List (ParamSlot O)) : Prop := ∀ sp ∈ specs, SlotSpeaks sp.parseValue

theorem field_speaks {name : String} {get : O → Slot α} {set : O → Slot α → O}
    {parse : Value → Slot α → Parsed (Slot α)} (h : SlotSpeaks parse) :
    SlotSpeaks (ParamSlot.field name get set parse).parseValue := by
  intro v o o' c hbad
  simp only [ParamSlot.field] at hbad
  cases hp : parse v (get o) with
  | ok s => rw [hp] at hbad; cases hbad
  | fault => rw [hp] at hbad; cases hbad
  | bad s c' =>
    rw [hp] at hbad
    cases hbad
    exact h v _ _ _ hp

theorem parseSpecs_spoken {specs : List (ParamSlot O)} (h : SpecsSpeak specs) (d : Value) :
    ∀ {o o' : O} {c : Complaint}, ParamSlot.parseSpecs d specs o = .bad o' c → Spoken c := by
  induction specs with
  | nil => intro o o' c hbad; cases hbad
  | cons sp specs ih =>
    intro o o' c hbad
    have hrest : SpecsSpeak specs := fun sp' hsp => h sp' (List.mem_cons_of_mem _ hsp)
    simp only [ParamSlot.parseSpecs] at hbad
    split at hbad
    · exact ih hrest hbad
    · rename_i val _
      cases hp : sp.parseValue val o with
      | ok o₁ => rw [hp] at hbad; exact ih hrest hbad
      | fault => rw [hp] at hbad; cases hbad
      | bad o₁ c₁ =>
        rw [hp] at hbad
        cases hbad
        exact h sp (List.mem_cons_self ..) val o _ _ hp

theorem parseAll_spoken {specs : List (ParamSlot O)} (h : SpecsSpeak specs)
    {d : Option Value} {o o' : O} {c : Complaint}
    (hbad : ParamSlot.parseAll d specs o = .bad o' c) : Spoken c := by
  cases d with
  | none => cases hbad
  | some d =>
    simp only [ParamSlot.parseAll] at hbad
    split_ifs at hbad
    · cases hbad; exact spoken_eArguments (by decide)
    · exact parseSpecs_spoken h d hbad

theorem SpecsSpeak.nil : SpecsSpeak ([] : List (ParamSlot O)) :=
  fun _ h => absurd h (by simp)

theorem SpecsSpeak.cons {sp : ParamSlot O} {specs : List (ParamSlot O)}
    (h : SlotSpeaks sp.parseValue) (hs : SpecsSpeak specs) : SpecsSpeak (sp :: specs) := by
  intro sp' hsp
  rcases List.mem_cons.mp hsp with rfl | hsp
  · exact h
  · exact hs sp' hsp

theorem specs_speak (k : Kind) {specs : List (ParamSlot k.Opts)}
    (h : k.cls.params = some specs) : SpecsSpeak specs := by
  have u {O : Type} {name get set} (t : IntType) :
      SlotSpeaks (ParamSlot.field (O := O) name get set (NumericSlot.parseValue t)).parseValue :=
    field_speaks (numeric_speaks t)
  cases k <;> cases h
  case get | lock => exact .cons (u _) (.cons (u _) (.cons (field_speaks v8Value_speaks) .nil))
  case store =>
    exact .cons (field_speaks cas_speaks) <| .cons (u _) <|
      .cons (field_speaks v8Value_speaks) <| .cons (field_speaks v8Value_speaks) <|
      .cons (u _) .nil
  case unlock | delete => exact .cons (field_speaks cas_speaks) .nil
  case touch => exact .cons (u _) .nil
  case arithmetic => exact .cons (u _) (.cons (u _) (.cons (u _) .nil))
  case endure =>
    exact .cons (u _) <| .cons (u _) <| .cons (field_speaks boolean_speaks) <| .cons (u _) .nil
  case http =>
    exact .cons (field_speaks string_speaks) <| .cons (field_speaks string_speaks) <|
      .cons (field_speaks string_speaks) <| .cons (u _) <| .cons (u _) .nil

theorem common_speak : SpecsSpeak Command.commonSlots :=
  .cons (field_speaks boolean_speaks) (.cons (field_speaks string_speaks) .nil)

section Initialize

variable {W : Walk} (hW : ∀ c, Spoken c → W.allowed c)

include hW

theorem parseCallback_keeps (v : Value) : W.Keeps (Command.parseCallback v) := by
  unfold Command.parseCallback
  cases hp : CallableOption.parseValue v { v := none } with
  | ok s => exact .pure s
  | fault => exact .fault
  | bad s c => exact .bind (.record (hW c (callable_speaks _ _ _ _ hp))) fun _ => .pure s

/-- What `initialize` does once it has a command list. -/
theorem options_keeps {β : Type} (k : Kind) (args : List Value)
    (f : k.Opts → Slot (Option Value) × Command.CommonOptions → β) :
    W.Keeps (do
      let opts ← Command.parseParams k.cls (Command.arg args 1)
      let common ← Command.parseCommonOptions args (Command.arg args 1)
      pure (f opts common)) := by
  refine .bind ?_ fun opts => .bind ?_ fun common => .pure _
  · unfold Command.parseParams
    split
    · next specs hspecs =>
      exact .liftParsed fun _ c hbad => hW c (parseAll_spoken (specs_speak k hspecs) hbad)
    · exact .pure _
  · refine .bind (parseCallback_keeps hW _) fun callback => ?_
    refine .bind (.liftParsed fun _ c hbad => hW c (parseAll_spoken common_speak hbad))
      fun common => ?_
    exact .ite (fun _ => .fail (hW _ (spoken_eArguments (by decide)))) fun _ => .pure _

omit hW

/-- **Every error recorded during `initialize` has a text**: a discipline that allows those
    errors is kept. -/
theorem initialize_keeps {D : Discipline} (hD : ∀ c, Spoken c → D.allowed c) (k : Kind)
    (args : List Value) : D.Keeps (Command.initializeCommand k.cls args) :=
  .bind (.initCommandList _ (hD _ (spoken_eMemory (by decide)))) fun _ => options_keeps hD k args _

end Initialize

theorem accept_keeps {D : Discipline} (hall : ∀ c, D.allowed c) (k : Kind) (args : List Value) :
    D.Keeps (Command.accept k.cls args) :=
  .bind (initialize_keeps (fun c _ => hall c) k args) fun hd =>
    .bind (Discipline.process_keeps hall k hd) fun _ => .pure hd

end Proof

end Couchnode
