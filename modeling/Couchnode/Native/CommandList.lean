import Couchnode.Native.Memory

/-!
# `CommandList` — the commands of one request

One command is kept in the object itself, `n > 1` commands in an array next to an array of
pointers to them; `getList` hands libcouchbase a `T **` either way. A single command's
`cmds` and `cmdlist` point into the object, so copying the object has to aim them again.
Such a pointer (`CmdPtr.single`, `CmdListPtr.ofCmds`) names the object it points into, and
only that object can be read through it: a pointer to an object that is gone is dangling.
-/

set_option autoImplicit false

namespace Couchnode

/-- A `T **`: the address of an object's `cmds` member, or a pointer array. -/
inductive CmdListPtr where
  | null
  | ofCmds (obj : ObjAddr)
  | arr (b : Nat)
  deriving DecidableEq

structure CommandList where
  addr : ObjAddr
  singleCmd : LcbCmd := {}
  cmds : CmdPtr := .null
  cmdlist : CmdListPtr := .null
  ncmds : Nat := 0

namespace CommandList

/-- `CommandList::initialize`; `false` for an empty request. -/
def initializeList (n : Nat) (h : Heap) (l : CommandList) : Bool × Heap × CommandList :=
  if n = 1 then
    (true, h, { l with
      ncmds := n, cmds := .single l.addr, cmdlist := .ofCmds l.addr, singleCmd := {} })
  else if n > 1 then
    let h' := h.alloc (.cmds (List.replicate n {}))
    (true, h'.alloc (.ptrs (List.replicate n none)),
      { l with ncmds := n, cmds := .elem h.length 0, cmdlist := .arr h'.length })
  else (false, h, { l with ncmds := n })

/-- `getAt`: the command at `ix`, also entered in the pointer array. -/
def getAt (ix : Nat) (h : Heap) (l : CommandList) : Option (CmdPtr × Heap) :=
  if ix = l.ncmds then some (.null, h)
  else if l.ncmds = 1 then some (.single l.addr, h)
  else
    match l.cmds, l.cmdlist with
    | .elem b i, .arr pb =>
      match h.read pb with
      | some (.ptrs ps) =>
        if ix < ps.length then
          some (.elem b (i + ix), h.put pb (.ptrs (ps.set ix (some (.elem b (i + ix))))))
        else none
      | _ => none
    | _, _ => none

/-- Assign through a `T *`. -/
def update (p : CmdPtr) (f : LcbCmd → LcbCmd) (h : Heap) (l : CommandList) :
    Option (Heap × CommandList) :=
  match p with
  | .null => none
  | .single a => if a = l.addr then some (h, { l with singleCmd := f l.singleCmd }) else none
  | .elem b ix =>
    match h.read b with
    | some (.cmds cs) =>
      match cs[ix]? with
      | some c => some (h.put b (.cmds (cs.set ix (f c))), l)
      | none => none
    | _ => none

/-- Read through a `T *`. -/
def deref (p : CmdPtr) (h : Heap) (l : CommandList) : Option LcbCmd :=
  match p with
  | .null => none
  | .single a => if a = l.addr then some l.singleCmd else none
  | .elem b ix =>
    match h.read b with
    | some (.cmds cs) => cs[ix]?
    | _ => none

/-- The first `ncmds` entries of `getList()`, as libcouchbase reads them. -/
def getList (h : Heap) (l : CommandList) : Option (List CmdPtr) :=
  match l.cmdlist with
  | .null => if l.ncmds = 0 then some [] else none
  | .ofCmds a =>
    if l.ncmds = 0 then some []
    else if a = l.addr ∧ l.ncmds = 1 then some [l.cmds]
    else none
  | .arr b =>
    match h.read b with
    | some (.ptrs ps) => if l.ncmds ≤ ps.length then (ps.take l.ncmds).mapM id else none
    | _ => none

/-- `CommandList(CommandList &other)` at a new address: the new list, and what is left of
    `other`. -/
def copy (other : CommandList) (addr : ObjAddr) : CommandList × CommandList :=
  (if other.ncmds < 2 then
     { addr := addr, ncmds := other.ncmds, singleCmd := other.singleCmd,
       cmds := .single addr, cmdlist := .ofCmds addr }
   else
     { addr := addr, ncmds := other.ncmds, cmds := other.cmds, cmdlist := other.cmdlist },
   { other with cmds := .null, cmdlist := .null, ncmds := 0 })

/-- The blocks `~CommandList` deletes. -/
def owned (l : CommandList) : List Nat :=
  if l.ncmds < 2 then []
  else
    (match l.cmds with | .elem b _ => [b] | _ => []) ++
    (match l.cmdlist with | .arr b => [b] | _ => [])

/-- `~CommandList`. -/
def destroy (l : CommandList) (h : Heap) : Heap := h.freeAll l.owned

end CommandList

end Couchnode
