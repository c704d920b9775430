import Couchnode.V8.Value
import Mathlib.Tactic.SplitIfs

/-!
# What the proofs assume of V8

The documented behaviour of V8 some results rest on, as named propositions about a
`Runtime`, and a small runtime that has it. The small runtime knows the JSON texts the closed
examples use; every other text is a syntax error to it.
-/

set_option autoImplicit false

namespace Couchnode

section

variable [Runtime]

/-- `String::New` inverts `WriteUtf8`. -/
def StringNewInverse : Prop := ∀ s : String, Runtime.stringNew (utf8 s) = s

/-- `JSON.parse` inverts `JSON.stringify` at `v`. -/
def JsonInverse (v : Value) : Prop :=
  ∃ s, Runtime.jsonStringify v = .ok (.string s) ∧ Runtime.jsonParse s = .ok v

/-- `JSON.parse` makes no `Buffer`. -/
def JsonNoBuffer : Prop := ∀ s bs, Runtime.jsonParse s ≠ .ok (.buffer bs)

/-- No JSON text denotes itself as a string: the text of a string carries its quotes. -/
def JsonNotIdentity : Prop := ∀ s : String, Runtime.jsonParse s ≠ .ok (.string s)

/-- The decimal form of a number is JSON for it. -/
def NumberInverse (q : Rat) : Prop :=
  Runtime.jsonParse (Runtime.numberToString (.fin q)) = .ok (.number (.fin q))

/-- The JSON texts of numbers and booleans are what they turn into as strings; those of strings,
    arrays and everything else are not. -/
structure JsonTexts : Prop where
  number : ∀ q, Runtime.jsonStringify (.number (.fin q)) =
    .ok (.string (Value.number (.fin q)).toName)
  bool : ∀ b, Runtime.jsonStringify (.bool b) = .ok (.string (Value.bool b).toName)
  quoted : JsonNotIdentity
  bracketed : ∀ v, Runtime.jsonParse v.toName ≠ .ok (.array [v])
  empty : ∀ v, Runtime.jsonParse "" ≠ .ok v

end

namespace SmallRuntime

def numberToString : Num → String
  | .nan => "NaN"
  | .inf true => "-Infinity"
  | .inf false => "Infinity"
  | .fin q => toString q.num

def stringNew (bs : List UInt8) : String := (String.fromUTF8? ⟨bs.toArray⟩).getD "?"

def jsonStringify : Value → Except Value Value
  | .undefined | .function _ => .ok .undefined
  | .null => .ok (.string "null")
  | .bool b => .ok (.string (if b then "true" else "false"))
  | .number n => .ok (.string (numberToString n))
  | .string s => .ok (.string ("\"" ++ s ++ "\""))
  | .array [] => .ok (.string "[]")
  | .object [] => .ok (.string "{}")
  | v => .error v

def jsonParse (s : String) : Except Value Value :=
  if s = "null" then .ok .null
  else if s = "0" then .ok (.number (.fin 0))
  else if s = "5" then .ok (.number (.fin 5))
  else if s = "[]" then .ok (.array [])
  else if s = "{}" then .ok (.object [])
  else .error (.error "SyntaxError" [])

scoped instance runtime : Runtime where
  numberToString := numberToString
  objectToString := fun _ => "[object Object]"
  toNumber := fun _ => .nan
  ofUInt64 := fun n => .fin n
  stringNew := stringNew
  elementValue := fun _ bs => .number (.fin (bs.headD 0).toNat)
  jsonStringify := jsonStringify
  jsonParse := jsonParse
  lcbStrerror := fun e => if e = 0 then "Success" else "Generic error"

theorem stringNewInverse : StringNewInverse := by
  intro s
  have hv : (⟨s.toByteArray.data⟩ : ByteArray).IsValidUTF8 := s.isValidUTF8
  simp [Runtime.stringNew, stringNew, utf8, String.fromUTF8?, String.fromUTF8, hv]

theorem five : JsonInverse (.number (.fin 5)) :=
  ⟨"5", rfl, by simp [Runtime.jsonParse, jsonParse]⟩

theorem jsonNotIdentity : JsonNotIdentity := by
  intro s h
  simp only [Runtime.jsonParse, jsonParse] at h
  split_ifs at h
  all_goals cases h

theorem jsonNoBuffer : JsonNoBuffer := by
  intro s bs h
  simp only [Runtime.jsonParse, jsonParse] at h
  split_ifs at h
  all_goals cases h

theorem jsonTexts : JsonTexts where
  number := fun _ => rfl
  bool := by
    intro b
    cases b <;> rfl
  quoted := jsonNotIdentity
  bracketed := by
    intro v h
    simp only [Runtime.jsonParse, jsonParse] at h
    split_ifs at h
    all_goals cases h
  empty := by
    intro v h
    simp [Runtime.jsonParse, jsonParse] at h

end SmallRuntime

end Couchnode
