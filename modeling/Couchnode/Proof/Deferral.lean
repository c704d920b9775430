import Couchnode.Proof.Accept

/-!
# Deferring a command keeps its request

A command that has to wait is copied, and the copy takes over the memory of the stack object.
`Ready h c reqs` is what both of them have: the buffers and the command arrays on `h` read as
`reqs`. It gives the call `execute` makes (`execute_ready`), it is kept by the copy
(`makePersistent_ready`), which leaves the original with nothing to free, and it depends on no
block but the command's own (`Ready.frame`) — so it lasts while other requests come and go.
-/

set_option autoImplicit false

namespace Couchnode

/-- The blocks a command owns: its text and its command arrays. -/
def Command.blocks {O : Type} (c : Command O) : List Nat := c.bufs.bufList ++ c.commands.owned

namespace Proof

open Command

variable {O : Type}

/-! ## Depending on one's own blocks only -/

section Frame

variable {h h' : Heap} {b : BufferList}

theorem BufOk.frame (ok : BufOk h b) (hf : ∀ x ∈ b.bufList, h'.read x = h.read x) :
    BufOk h' b where
  live x hx := by
    rw [hf x hx]
    exact ok.live x hx
  nodup := ok.nodup
  cur x off hc := by
    obtain ⟨hm, ho, hu, bs, hr, hl⟩ := ok.cur x off hc
    exact ⟨hm, ho, hu, bs, by rw [hf x hm]; exact hr, hl⟩
  reset := ok.reset

theorem Stored.frame {p : CharPtr} {bs : List UInt8} (hs : Stored h b p bs)
    (hf : ∀ x ∈ b.bufList, h'.read x = h.read x) : Stored h' b p bs := by
  cases p with
  | null => exact hs
  | lit t => exact hs
  | inBlock x off =>
    obtain ⟨⟨hm, ⟨cs, hr, hl⟩, hfr⟩, ds, hr', hsl⟩ := hs
    rw [← hf x hm] at hr hr'
    exact ⟨⟨hm, ⟨cs, hr, hl⟩, hfr⟩, ds, hr', hsl⟩

variable {h₀ n entered : Nat} {l : CommandList} {cmds : List LcbCmd}

/-- The blocks of a list that has arrays. -/
theorem owned_array {cb i pb : Nat} (h2 : 2 ≤ l.ncmds) (hc : l.cmds = .elem cb i)
    (hl : l.cmdlist = .arr pb) : l.owned = [cb, pb] := by
  unfold CommandList.owned
  rw [if_neg (by omega), hc, hl]
  rfl

theorem ListShape.frame (s : ListShape h₀ h l n entered cmds)
    (hf : ∀ x ∈ l.owned, h'.read x = h.read x) : ListShape h₀ h' l n entered cmds := by
  cases s with
  | single hn hc hl => exact .single hn hc hl
  | array hn h2 hc hl hcb hpb hclen hplen hne hcf hpf hent =>
    have ho := owned_array (by omega) hc hl
    rw [ho] at hf
    refine .array hn h2 hc hl ?_ ?_ hclen hplen hne hcf hpf hent
    · rw [hf _ (by simp)]
      exact hcb
    · rw [hf _ (by simp)]
      exact hpb

/-- What a list owns is live, and none of it is text. -/
theorem ListShape.owned (s : ListShape h₀ h l n entered cmds) :
    l.owned.Nodup ∧ ∀ x ∈ l.owned, h₀ ≤ x ∧ ∃ c, (∀ bs, c ≠ .bytes bs) ∧ h.read x = some c := by
  cases s with
  | single hn hc hl =>
    have ho : l.owned = [] := by
      unfold CommandList.owned
      rw [if_pos (by omega)]
    rw [ho]
    exact ⟨List.nodup_nil, fun x hx => absurd hx (by simp)⟩
  | array hn h2 hc hl hcb hpb hclen hplen hne hcf hpf hent =>
    rw [owned_array (by omega) hc hl]
    refine ⟨by simpa using hne, fun x hx => ?_⟩
    rcases List.mem_cons.mp hx with rfl | hx
    · exact ⟨hcf, _, fun bs => by simp, hcb⟩
    · rw [List.mem_singleton.mp hx]
      exact ⟨hpf, _, fun bs => by simp, hpb⟩

/-- All the pointers entered, or none needed. -/
theorem ListShape.full (s : ListShape h₀ h l n entered cmds) (hall : entered = n ∨ n = 1) :
    ListShape h₀ h l n n cmds := by
  rcases hall with rfl | h1
  · exact s
  · cases s with
    | single hn hc hl => exact .single hn hc hl
    | array hn h2 => omega

end Frame

/-! ## Ready to execute -/

/-- The command, in memory from `h₀` on, reads as `reqs`. -/
structure Ready (h₀ : Nat) (h : Heap) (c : Command O) (reqs : List LcbReq) : Prop where
  bufs : BufOk h c.bufs
  fresh : ∀ x ∈ c.bufs.bufList, h₀ ≤ x
  cmds : ∃ cmds, ListShape h₀ h c.commands reqs.length reqs.length cmds ∧
    List.Forall₂ (CmdHolds h c.bufs) cmds reqs

namespace Ready

variable {h₀ : Nat} {h h' : Heap} {c : Command O} {reqs : List LcbReq}

theorem frame (r : Ready h₀ h c reqs) (hf : ∀ x ∈ c.blocks, h'.read x = h.read x) :
    Ready h₀ h' c reqs := by
  have hb : ∀ x ∈ c.bufs.bufList, h'.read x = h.read x :=
    fun x hx => hf x (List.mem_append_left _ hx)
  obtain ⟨cmds, hshape, hcmds⟩ := r.cmds
  refine ⟨r.bufs.frame hb, r.fresh, cmds, ?_, ?_⟩
  · exact hshape.frame fun x hx => hf x (List.mem_append_right _ hx)
  · exact hcmds.imp fun _ _ hc => hc.mono fun _ _ hs => hs.frame hb

/-- Every block of the command is live and new. -/
theorem live (r : Ready h₀ h c reqs) :
    ∀ x ∈ c.blocks, h₀ ≤ x ∧ ∃ cell, h.read x = some cell := by
  intro x hx
  obtain ⟨cmds, hshape, _⟩ := r.cmds
  rcases List.mem_append.mp hx with hx | hx
  · obtain ⟨bs, hr⟩ := r.bufs.live x hx
    exact ⟨r.fresh x hx, _, hr⟩
  · obtain ⟨hle, cell, _, hr⟩ := hshape.owned.2 x hx
    exact ⟨hle, cell, hr⟩

theorem lt (r : Ready h₀ h c reqs) : ∀ x ∈ c.blocks, x < h.length := by
  intro x hx
  obtain ⟨_, cell, hr⟩ := r.live x hx
  exact Blocks.lt_of_read hr

/-- No block is owned twice: text blocks are distinct, and no text block is an array. -/
theorem nodup (r : Ready h₀ h c reqs) : c.blocks.Nodup := by
  obtain ⟨cmds, hshape, _⟩ := r.cmds
  obtain ⟨hnd, harr⟩ := hshape.owned
  refine List.nodup_append.mpr ⟨r.bufs.nodup, hnd, fun x hx y hy he => ?_⟩
  subst he
  obtain ⟨bs, hr⟩ := r.bufs.live x hx
  obtain ⟨_, cell, hcell, hr'⟩ := harr x hy
  rw [hr] at hr'
  cases hr'
  exact hcell bs rfl

theorem ncmds (r : Ready h₀ h c reqs) : c.commands.ncmds = reqs.length := by
  obtain ⟨cmds, hshape, _⟩ := r.cmds
  exact hshape.ncmds

end Ready

/-! ## `execute` -/

/-- A list of successful reads. -/
theorem mapM_of_forall₂ {α β : Type} {f : α → Option β} {xs : List α} {ys : List β}
    (h : List.Forall₂ (fun x y => f x = some y) xs ys) : xs.mapM f = some ys := by
  induction h with
  | nil => rfl
  | cons hx _ ih => simp [List.mapM_cons, hx, ih]

section Execute

variable [Runtime] {cls : CommandClass O} {h₀ : Nat} {h : Heap} {c : Command O}
  {reqs : List LcbReq}

omit [Runtime] in
/-- The pointers `execute` passes are those of the commands, in order. -/
theorem pointers_ready (r : Ready h₀ h c reqs) (hhttp : cls.cookieKind = .http → reqs.length = 1) :
    c.pointers cls h = some ((List.range reqs.length).map c.commands.ptr) := by
  obtain ⟨cmds, hshape, _⟩ := r.cmds
  unfold Command.pointers
  cases hk : cls.cookieKind with
  | http =>
    have h1 := hhttp hk
    have hg : c.commands.getAt 0 h = some (c.commands.ptr 0, h) := by
      rw [h1] at hshape
      cases hshape with
      | single hn hc hl => simp [CommandList.getAt, CommandList.ptr, hn, hc]
      | array hn h2 => omega
    simp [hg, h1]
  | plain | observe | stats => exact getList_spec hshape

omit [Runtime] in
/-- **A ready command executes**, and libcouchbase sees exactly `reqs`. -/
theorem execute_ready (r : Ready h₀ h c reqs)
    (hhttp : cls.cookieKind = .http → reqs.length = 1) :
    c.execute cls h = some { entry := cls.entry c.globalOptions c.htType, cmds := reqs } := by
  obtain ⟨cmds, hshape, hcmds⟩ := r.cmds
  have hread : ((List.range reqs.length).map c.commands.ptr).mapM
      (fun p => (c.commands.deref p h).bind fun cmd => cmd.read h) = some reqs := by
    refine mapM_of_forall₂ (List.forall₂_map_left_iff.mpr ?_)
    refine List.forall₂_iff_get.mpr ⟨by simp, fun i hi hi' => ?_⟩
    have hlen := hcmds.length_eq
    rw [List.get_eq_getElem, List.getElem_range, deref_ptr hshape hi',
      List.getElem?_eq_getElem (by omega)]
    exact ((List.forall₂_iff_get.mp hcmds).2 i (by omega) hi').read
  unfold Command.execute
  simp only [pointers_ready r hhttp, Option.bind_eq_bind, Option.bind_some, hread]
  rfl

end Execute

/-! ## The copy -/

section Copy

variable {h₀ n entered : Nat} {h : Heap} {l : CommandList} {cmds : List LcbCmd}

/-- The copy of a command list is aimed at its own members, and the original owns nothing. -/
theorem ListShape.copy (s : ListShape h₀ h l n entered cmds) (a : ObjAddr) :
    ListShape h₀ h (l.copy a).1 n entered cmds ∧ (l.copy a).1.owned = l.owned ∧
      (l.copy a).2.owned = [] := by
  have hempty : (l.copy a).2.owned = [] := rfl
  cases s with
  | single hn hc hl =>
    have h2 : l.ncmds < 2 := by omega
    refine ⟨?_, ?_, hempty⟩
    · unfold CommandList.copy
      rw [if_pos h2]
      have hs := @ListShape.single h₀ h
        { addr := a, singleCmd := l.singleCmd, cmds := .single a, cmdlist := .ofCmds a
          ncmds := l.ncmds } entered hn rfl rfl
      exact hs
    · unfold CommandList.copy CommandList.owned
      simp only [if_pos h2]
  | array hn h2 hc hl hcb hpb hclen hplen hne hcf hpf hent =>
    have hge : ¬ l.ncmds < 2 := by omega
    refine ⟨?_, ?_, hempty⟩
    · unfold CommandList.copy
      rw [if_neg hge]
      exact .array hn h2 hc hl hcb hpb hclen hplen hne hcf hpf hent
    · unfold CommandList.copy CommandList.owned
      simp only [if_neg hge]

variable {c : Command O} {reqs : List LcbReq}

/-- **The copy is as ready as the original was**, owns what it owned, and the original's
    destructor frees nothing. -/
theorem makePersistent_ready (r : Ready h₀ h c reqs) :
    let (h', cp, orig) := c.makePersistent h
    Ready h₀ h' cp reqs ∧ cp.blocks = c.blocks ∧ orig.destroy h' = h' := by
  obtain ⟨cmds, hshape, hcmds⟩ := r.cmds
  obtain ⟨hcopy, howned, hgone⟩ := hshape.copy (.heap h.length)
  have hlt : ∀ x ∈ c.blocks, (h.alloc .object).read x = h.read x :=
    fun x hx => Blocks.read_alloc_lt (r.lt x hx)
  have hcp : Ready h₀ h (c.makePersistent h).2.1 reqs := ⟨r.bufs, r.fresh, cmds, hcopy, hcmds⟩
  have hblocks : (c.makePersistent h).2.1.blocks = c.blocks := by
    show c.bufs.bufList ++ (c.commands.copy (.heap h.length)).1.owned = c.blocks
    rw [howned]
    rfl
  refine ⟨hcp.frame ?_, hblocks, ?_⟩
  · rw [hblocks]
    exact hlt
  · show ((h.alloc .object).freeAll (c.commands.copy (.heap h.length)).2.owned).freeAll [] = _
    rw [hgone]
    rfl

end Copy

/-! ## After `accept` -/

section Accepted

variable [Runtime] {k : Kind} {args : List Value} {h : Heap} {hd : Header k.Opts} {st : PState}

omit [Runtime] in
theorem forall₂_of_mapM {α β : Type} {f : α → Option β} {xs : List α} {ys : List β}
    (h : xs.mapM f = some ys) : List.Forall₂ (fun x y => f x = some y) xs ys := by
  induction xs generalizing ys with
  | nil =>
    cases h
    exact .nil
  | cons x xs ih =>
    simp only [List.mapM_cons, Option.bind_eq_bind, Option.bind_eq_some_iff] at h
    obtain ⟨y, hy, zs, hzs, h⟩ := h
    cases h
    exact .cons hy (ih hzs)

omit [Runtime] in
theorem mapM_some {α β : Type} {f : α → Option β} {g : α → β} {xs : List α}
    (h : ∀ x ∈ xs, f x = some (g x)) : xs.mapM f = some (xs.map g) := by
  induction xs with
  | nil => rfl
  | cons x xs ih =>
    have ih := ih fun y hy => h y (List.mem_cons_of_mem _ hy)
    simp [List.mapM_cons, h x List.mem_cons_self, ih]

omit [Runtime] in
theorem mapM_congr {α β : Type} {f g : α → Option β} {xs : List α} (h : ∀ x ∈ xs, f x = g x) :
    xs.mapM f = xs.mapM g := by
  induction xs with
  | nil => rfl
  | cons x xs ih =>
    rw [List.mapM_cons, List.mapM_cons, h x List.mem_cons_self,
      ih fun y hy => h y (List.mem_cons_of_mem _ hy)]

omit [Runtime] in
theorem mapM_none {α β : Type} {f : α → Option β} {xs : List α} {x : α} (hx : x ∈ xs)
    (h : f x = none) : xs.mapM f = none := by
  induction xs with
  | nil => cases hx
  | cons y ys ih =>
    rcases List.mem_cons.mp hx with rfl | hx
    · simp [List.mapM_cons, h]
    · rw [List.mapM_cons, ih hx]
      cases f y <;> rfl

/-- `setKeys` counts what `process` will go through. -/
theorem items_length (v : Value) :
    (KeysInfo.setKeys v).items.length = (KeysInfo.setKeys v).ncmds := by
  unfold KeysInfo.setKeys
  cases v with
  | array vs => simp [KeysInfo.items, KeysInfo.elements]
  | undefined | null | bool | number | string => rfl
  | _ => simp [Value.isObject, KeysInfo.items]

/-- The classes whose list is as long as the key collection. -/
theorem listSize_cases (k : Kind) :
    k.cls.listSize = KeysInfo.ncmds ∨ k.cls.listSize = fun _ => 1 := by
  cases k <;> first | exact .inl rfl | exact .inr rfl

/-- The commands of an accepted request: its requests, and a zeroed command where a class
    that always has one was given no key. -/
def lowered (n : Nat) (reqs : List LcbReq) : List LcbReq :=
  reqs ++ List.replicate (n - reqs.length) .empty

/-- **An accepted request is ready**, with one command per key. -/
theorem accept_ready (hacc : accept k.cls args (Command.start h) = .done hd st)
    (cookie : Option Cookie) :
    ∃ reqs, Command.requests k hd = some reqs ∧
      (lowered (k.cls.listSize hd.keys) reqs).length = k.cls.listSize hd.keys ∧
      (k.cls.cookieKind = .http → k.cls.listSize hd.keys = 1) ∧
      Ready h.length st.heap { ofState hd st with cookie := cookie }
        (lowered (k.cls.listSize hd.keys) reqs) := by
  obtain ⟨reqs, hreqs, hl, hpos, hkeys⟩ := accept_lowered hacc
  have hlen := hl.length
  have hfull : reqs.length = k.cls.listSize hd.keys ∨ k.cls.listSize hd.keys = 1 := by
    rcases listSize_cases k with hs | hs
    · left
      rw [← (forall₂_of_mapM hreqs).length_eq, hs, hkeys]
      exact items_length _
    · right
      rw [hs]
  have hsize : (lowered (k.cls.listSize hd.keys) reqs).length = k.cls.listSize hd.keys := by
    simp only [List.length_replicate] at hlen
    simp only [lowered, List.length_append, List.length_replicate]
    exact hlen
  obtain ⟨done, hshape, hdone⟩ := hl.cmds
  refine ⟨reqs, hreqs, hsize, ?_, hl.bufs, hl.fresh,
    done ++ List.replicate (k.cls.listSize hd.keys - reqs.length) ({} : LcbCmd), ?_, ?_⟩
  · intro hhttp
    cases k <;> first | rfl | cases hhttp
  · rw [hsize]
    exact hshape.full hfull
  · refine List.rel_append hdone ?_
    rw [List.forall₂_iff_get]
    refine ⟨by simp, fun i hi hi' => ?_⟩
    simp only [List.get_eq_getElem, List.getElem_replicate]
    exact .zero _ _

end Accepted

end Proof

end Couchnode
