import Couchnode.Lib.Blocks
import Couchnode.V8.Value

/-!
# Native memory: `BufferList`

What a lowered command points into. The process heap is a list of blocks; a block holds
characters, an array of libcouchbase commands, an array of pointers to commands, or a
command object made by `new`. `LcbCmd` is one record for the `v0` member of every
`lcb_*_cmd_t`: each command class fills the fields its own structure has, and the others
stay as `memset` left them.

`BufferList` hands out character regions from blocks it owns. `getBuffer` calls itself when
the current block cannot hold the request; the fuel counts those calls, and
`BufferList.getBuffer_spec` (in the proofs) shows that one is always enough.
-/

set_option autoImplicit false

namespace Couchnode

/-- Where an object that other pointers may point into lives. -/
inductive ObjAddr where
  | stack
  | heap (b : Nat)
  deriving DecidableEq

/-- A `const char *`. -/
inductive CharPtr where
  | null
  | lit (s : String)
  | inBlock (b off : Nat)
  deriving DecidableEq

/-- A pointer with its length. -/
structure Span where
  ptr : CharPtr := .null
  len : Nat := 0
  deriving DecidableEq

/-- `lcb_storage_t`. -/
inductive StorageOp where
  | add | replace | set | append | prepend
  deriving DecidableEq

/-- The numeric fields of a command. -/
structure LcbNumbers where
  exptime : Nat := 0
  lock : Nat := 0
  cas : Nat := 0
  flags : Nat := 0
  delta : Int := 0
  initial : Nat := 0
  create : Nat := 0
  operation : Option StorageOp := none
  method : Int := 0
  deriving DecidableEq

/-- `lcb_*_cmd_t::v.v0`: `key` is the `name` of a stats command, and `bytes` is the `body`
    of an HTTP one. -/
structure LcbCmd where
  key : Span := {}
  hashkey : Span := {}
  bytes : Span := {}
  path : Span := {}
  contentType : CharPtr := .null
  nums : LcbNumbers := {}
  deriving DecidableEq

/-- A `T *` into a `CommandList<T>`: the object's own `single_cmd`, or an array element. -/
inductive CmdPtr where
  | null
  | single (obj : ObjAddr)
  | elem (b ix : Nat)
  deriving DecidableEq

inductive Cell where
  | bytes (bs : List UInt8)
  | cmds (cs : List LcbCmd)
  /-- `T *[n]`; an entry nobody has written is `none`. -/
  | ptrs (ps : List (Option CmdPtr))
  | object
  deriving DecidableEq

abbrev Heap := Blocks Cell

namespace Heap

/-- Write `bs` through a pointer; `none` where that is undefined behaviour. -/
def writeBytes (h : Heap) (p : CharPtr) (bs : List UInt8) : Option Heap :=
  match p with
  | .inBlock b off =>
    match h.read b with
    | some (.bytes old) =>
      if off + bs.length ≤ old.length then some (h.put b (.bytes (splice off bs old))) else none
    | _ => none
  | _ => none

/-- Read `n` bytes through a pointer. -/
def readBytes (h : Heap) (p : CharPtr) (n : Nat) : Option (List UInt8) :=
  match p with
  | .null => if n = 0 then some [] else none
  | .lit s => if n ≤ utf8Length s then some ((utf8 s).take n) else none
  | .inBlock b off =>
    match h.read b with
    | some (.bytes bs) => if off + n ≤ bs.length then some (slice off n bs) else none
    | _ => none

/-- Read a NUL-terminated string, without its terminator. -/
def readCString (h : Heap) (p : CharPtr) : Option (List UInt8) :=
  match p with
  | .null => none
  | .lit s => some ((utf8 s).takeWhile (· ≠ 0))
  | .inBlock b off =>
    match h.read b with
    | some (.bytes bs) =>
      if 0 ∈ bs.drop off then some ((bs.drop off).takeWhile (· ≠ 0)) else none
    | _ => none

/-- The same for a string that may be missing: a null pointer is no data. -/
def readOptCString (h : Heap) (p : CharPtr) : Option (Option (List UInt8)) :=
  if p = .null then some none else (h.readCString p).map some

/-- What libcouchbase reads from a pointer and a length; a null pointer is no data. -/
def readSpan (h : Heap) (sp : Span) : Option (Option (List UInt8)) :=
  match sp.ptr with
  | .null => if sp.len = 0 then some none else none
  | p => (h.readBytes p sp.len).map some

end Heap

structure BufferList where
  bufList : List Nat := []
  curBuf : Option (Nat × Nat) := none
  bytesUsed : Nat := 0
  bytesAllocated : Nat := 1024

namespace BufferList

def bytesAvailable (b : BufferList) : Nat := b.bytesAllocated - b.bytesUsed

/-- `if (!curBuf) { curBuf = new char[bytesAllocated]; bufList.push_back(curBuf); }` -/
def ensureCurBuf (h : Heap) (b : BufferList) : Heap × BufferList :=
  match b.curBuf with
  | some _ => (h, b)
  | none =>
    (h.alloc (.bytes (List.replicate b.bytesAllocated 0)),
      { b with curBuf := some (h.length, 0), bufList := b.bufList ++ [h.length] })

def getBufferFuel : Nat → Nat → Heap → BufferList → Option (CharPtr × Heap × BufferList)
  | fuel, len, h, b =>
    if len = 0 then some (.null, h, b)
    else if b.bytesAllocated ≤ len then
      some (.inBlock h.length 0, h.alloc (.bytes (List.replicate len 0)),
        { b with bufList := b.bufList ++ [h.length] })
    else
      match ensureCurBuf h b with
      | (h', b') =>
        if len < b'.bytesAvailable then
          match b'.curBuf with
          | some (blk, off) =>
            some (.inBlock blk off, h',
              { b' with bytesUsed := b'.bytesUsed + len, curBuf := some (blk, off + len) })
          | none => none
        else
          match fuel with
          | 0 => none
          | fuel + 1 => getBufferFuel fuel len h' { b' with curBuf := none, bytesUsed := 0 }

/-- `getBuffer`: a region of `len` bytes, null for an empty request. -/
def getBuffer (len : Nat) (h : Heap) (b : BufferList) : Option (CharPtr × Heap × BufferList) :=
  getBufferFuel 1 len h b

/-- `BufferList(BufferList &other)`: the new list, and what is left of `other`. -/
def copy (other : BufferList) : BufferList × BufferList :=
  ({ bufList := other.bufList, bytesUsed := other.bytesUsed,
     bytesAllocated := other.bytesAllocated, curBuf := other.curBuf },
   { bufList := [], bytesUsed := 0, bytesAllocated := 0, curBuf := none })

/-- `~BufferList`. -/
def destroy (b : BufferList) (h : Heap) : Heap := h.freeAll b.bufList

end BufferList

end Couchnode
