import Couchnode.Spec.Requests

/-!
# Which options a key gets

The rule the methods document for every option that can be given twice: a key's own option wins
over that of the call (`effective`). The commands of a get, a lock and a store, and the format a
value comes back in, as that rule has them.
-/

set_option autoImplicit false

namespace Couchnode

open ParamSlot (parseAll)

/-- The option of one key: its own where it is found, else that of the call where that is. -/
def effective {α : Type} (own glob : Slot α) : Option α :=
  if own.isFound then some own.v else if glob.isFound then some glob.v else none

variable [Runtime]

namespace GetCommand

/-- The options of a call, before a lock changes them. -/
def globals (args : List Value) : GetOptions :=
  (Command.callOptions GetCommand args).getD {}

/-- The options a key has of its own. -/
def own (params : Option Value) : GetOptions :=
  match params with
  | some p => if p.isObject then (parseAll (some p) GetOptions.specs {}).toOption.getD {} else {}
  | none => {}

/-- **Get and lock**: with a lock time, or for a lock, the expiry is the time of the lock; without,
    it is the new expiry of the document. -/
def Documented (k : Kind) (glob own : GetOptions) (nums : LcbNumbers) : Prop :=
  let expiry := effective own.expTime glob.expTime
  let lockTime := effective own.lockTime glob.lockTime
  if k = .lock ∨ lockTime.isSome then
    nums.lock = 1 ∧ nums.exptime = (lockTime.getD 0).toNat
  else nums.lock = 0 ∧ nums.exptime = (expiry.getD 0).toNat

/-- The format of a key: its own, else that of the call, else auto. -/
def documentedSpec (glob own : GetOptions) : ValueFormat.Spec :=
  (ValueFormat.toSpec (effective own.format glob.format).join).1

/-- The flags the value of a key is decoded by: those of its format, those the server sent
    with it when that is auto. -/
def decodeFlags (glob own : GetOptions) (flags : Nat) : Nat :=
  let spec := documentedSpec glob own
  if spec = .auto then flags else spec.flags

end GetCommand

namespace StoreCommand

/-- The options of a call. -/
def globals (options : Value) : StoreOptions :=
  (parseAll (some options) StoreOptions.specs {}).toOption.getD {}

/-- The options a key has of its own. -/
def own (params : Option Value) : StoreOptions :=
  (parseAll params StoreOptions.specs {}).toOption.getD {}

/-- The format of a key: its own, else that of the call, else auto. -/
def documentedSpec (glob own : StoreOptions) : ValueFormat.Spec :=
  (ValueFormat.toSpec (effective own.format glob.format).join).1

/-- **Store**: the key's own option, else that of the call; the flags the encoding chose where
    neither has any, and no CAS but the key's own. -/
structure Documented (glob own : StoreOptions) (req : LcbReq) : Prop where
  exptime : req.nums.exptime = ((effective own.exp glob.exp).getD 0).toNat
  cas : req.nums.cas = if own.cas.isFound then own.cas.v else 0
  value : ∃ v flags bytes, own.value.v = some v ∧
    ValueFormat.encoding v (documentedSpec glob own) = some (flags, bytes) ∧
    req.bytes = some bytes ∧
    req.nums.flags = ((effective own.flags glob.flags).map Int.toNat).getD flags

/-- Nothing is lost when the flags of the call are not looked at: the key has flags of its own,
    the call has none, or the encoding chose the same. -/
def FlagsAgree (glob own : StoreOptions) : Prop :=
  own.flags.isFound = true ∨ glob.flags.isFound = false ∨
    ∀ v flags bytes, own.value.v = some v →
      ValueFormat.encoding v (documentedSpec glob own) = some (flags, bytes) →
      glob.flags.v.toNat = flags

/-- The options object of a key has a `value`. -/
def hasValue (params : Option Value) : Bool :=
  (params.bind fun p => p.getRealNamedProperty NameMap.value).isSome

/-- The handler uses an empty handle, or reads eight bytes of an object that has fewer. -/
def crashes (glob : StoreOptions) (params : Option Value) : Bool :=
  match params with
  | none => false
  | some p =>
    match parseAll (some p) StoreOptions.specs {} with
    | .fault => true
    | .bad _ _ => false
    | .ok own =>
      match StoreCommand.format own glob with
      | none => false
      | some spec => own.value.v.isNone && spec ≠ .utf16

/-- The handler is reached for a key, and crashes. -/
def itemCrashes (hd : Header StoreOptions) (item : Option Value × Option Value) : Bool :=
  (Command.hashkeyText (StoreCommand .set) hd item.2).isSome && (backedString none item.1).isSome &&
    crashes hd.globalOptions item.2

/-- A key is in order but for its format: all that is asked of it can be read, and its value can
    be stored, if the format is one. -/
structure InOrder (hd : Header StoreOptions) (item : Option Value × Option Value) : Prop where
  hashkey : (Command.hashkeyText (StoreCommand .set) hd item.2).isSome = true
  key : (backedString none item.1).isSome = true
  options : ∃ p own v, item.2 = some p ∧ parseAll (some p) StoreOptions.specs {} = .ok own ∧
    own.value.v = some v ∧ ∀ spec, StoreCommand.format own hd.globalOptions = some spec →
      (ValueFormat.encoding v spec).isSome = true

end StoreCommand

namespace Command

/-- The format that applies to a key of a get, a lock or a store. -/
def specOf (k : Kind) (args : List Value) (item : Option Value × Option Value) :
    ValueFormat.Spec :=
  match k with
  | .store _ =>
    StoreCommand.documentedSpec (StoreCommand.globals (arg args 1)) (StoreCommand.own item.2)
  | _ => GetCommand.documentedSpec (GetCommand.globals args) (GetCommand.own item.2)

/-- A request is in order but for its formats; those of a get make no difference to its
    commands. -/
def InOrder (k : Kind) (args : List Value) : Prop :=
  match k with
  | .store op =>
    ∃ hd, header (StoreCommand op) args = some hd ∧ hd.keys.items ≠ [] ∧
      ∀ item ∈ hd.keys.items, StoreCommand.InOrder hd item
  | k => call k args ≠ none

end Command

end Couchnode
