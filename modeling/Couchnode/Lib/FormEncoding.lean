import Mathlib.Data.List.Basic
import Mathlib.Data.List.TakeWhile

/-!
# Form encoding

Names and values as one text, the query of a URL. A byte that is no letter, digit or mark is
written as `%` and two hexadecimal digits; a name and its value are joined by `=`, and pairs by `&`.
`parse` is what a reader of such a text does: it drops what is empty between two `&`, takes a pair
apart at the first `=` and undoes the escapes, a `+` being a space. `readUrl` takes the path off
first, which ends at the first `?`.

Pairs come in groups here, one for each name, and a name may have none. `parse_join` is the round
trip: what was joined is read back, in order, whatever bytes the names and values have.
-/

set_option autoImplicit false

namespace FormEncoding

/-! ## Escapes -/

/-- The codes of `-`, `_`, `.`, `!`, `~`, `*`, the apostrophe and the parentheses. -/
def marks : List Nat := [45, 95, 46, 33, 126, 42, 39, 40, 41]

/-- The bytes that stand for themselves. -/
def unreserved (b : UInt8) : Bool := (Char.ofNat b.toNat).isAlphanum || b.toNat ∈ marks

def hexDigit (d : Nat) : Char := Char.ofNat (if d < 10 then 48 + d else 55 + d)

def hexValue (c : Char) : Option Nat :=
  if 48 ≤ c.toNat ∧ c.toNat ≤ 57 then some (c.toNat - 48)
  else if 65 ≤ c.toNat ∧ c.toNat ≤ 70 then some (c.toNat - 55)
  else if 97 ≤ c.toNat ∧ c.toNat ≤ 102 then some (c.toNat - 87)
  else none

def encodeByte (b : UInt8) : List Char :=
  if unreserved b then [Char.ofNat b.toNat]
  else ['%', hexDigit (b.toNat / 16), hexDigit (b.toNat % 16)]

def encode (bs : List UInt8) : List Char := bs.flatMap encodeByte

/-- The byte a character stands for that is no part of an escape. -/
def literal (c : Char) : Option UInt8 :=
  if c = '%' ∨ 128 ≤ c.toNat then none
  else some (if c = '+' then 32 else UInt8.ofNat c.toNat)

def decode : List Char → Option (List UInt8)
  | [] => some []
  | '%' :: a :: b :: cs => do
    let x ← hexValue a
    let y ← hexValue b
    let bs ← decode cs
    some (UInt8.ofNat (16 * x + y) :: bs)
  | c :: cs => do
    let b ← literal c
    let bs ← decode cs
    some (b :: bs)

theorem hexValue_hexDigit {d : Nat} (h : d < 16) : hexValue (hexDigit d) = some d := by
  have hall : ∀ d < 16, hexValue (hexDigit d) = some d := by decide
  exact hall d h

/-- A byte that stands for itself is a character of its own: none that means anything. -/
theorem unreserved_char {b : UInt8} (h : unreserved b = true) :
    Char.ofNat b.toNat ≠ '%' ∧ Char.ofNat b.toNat ≠ '+' ∧ Char.ofNat b.toNat ≠ '&' ∧
      Char.ofNat b.toNat ≠ '=' ∧ literal (Char.ofNat b.toNat) = some b := by
  have hall : ∀ n < 256, unreserved (UInt8.ofNat n) = true →
      Char.ofNat (UInt8.ofNat n).toNat ≠ '%' ∧ Char.ofNat (UInt8.ofNat n).toNat ≠ '+' ∧
      Char.ofNat (UInt8.ofNat n).toNat ≠ '&' ∧ Char.ofNat (UInt8.ofNat n).toNat ≠ '=' ∧
      literal (Char.ofNat (UInt8.ofNat n).toNat) = some (UInt8.ofNat n) := by decide +kernel
  have hb := hall b.toNat b.toNat_lt
  rw [UInt8.ofNat_toNat] at hb
  exact hb h

theorem decode_escape {d e : Nat} (hd : d < 16) (he : e < 16) (cs : List Char) :
    decode ('%' :: hexDigit d :: hexDigit e :: cs) =
      (decode cs).map (UInt8.ofNat (16 * d + e) :: ·) := by
  rw [decode, hexValue_hexDigit hd, hexValue_hexDigit he]
  cases decode cs <;> rfl

theorem decode_literal {c : Char} {b : UInt8} (hc : c ≠ '%') (h : literal c = some b)
    (cs : List Char) : decode (c :: cs) = (decode cs).map (b :: ·) := by
  rw [decode, h]
  · cases decode cs <;> rfl
  · intro a b cs' hc'
    exact absurd hc' hc

theorem decode_encodeByte (b : UInt8) (cs : List Char) :
    decode (encodeByte b ++ cs) = (decode cs).map (b :: ·) := by
  unfold encodeByte
  by_cases h : unreserved b = true
  · obtain ⟨hpercent, _, _, _, hlit⟩ := unreserved_char h
    rw [if_pos h]
    exact decode_literal hpercent hlit cs
  · have hb := b.toNat_lt
    have hbyte : UInt8.ofNat (16 * (b.toNat / 16) + b.toNat % 16) = b := by
      rw [Nat.div_add_mod, UInt8.ofNat_toNat]
    rw [if_neg h]
    show decode ('%' :: hexDigit _ :: hexDigit _ :: cs) = _
    rw [decode_escape (by omega) (by omega), hbyte]

/-- **Escapes are undone.** -/
theorem decode_encode (bs : List UInt8) : decode (encode bs) = some bs := by
  induction bs with
  | nil => rfl
  | cons b bs ih =>
    unfold encode at ih ⊢
    rw [List.flatMap_cons, decode_encodeByte, ih]
    rfl

/-- The two characters that separate are escaped. -/
theorem separator_escaped {c : Char} (hc : c = '&' ∨ c = '=') (bs : List UInt8) :
    c ∉ encode bs := by
  intro hmem
  obtain ⟨b, _, hmem⟩ := List.mem_flatMap.mp hmem
  unfold encodeByte at hmem
  by_cases h : unreserved b = true
  · rw [if_pos h, List.mem_singleton] at hmem
    obtain ⟨_, _, hamp, heq, _⟩ := unreserved_char h
    rcases hc with rfl | rfl
    · exact hamp hmem.symm
    · exact heq hmem.symm
  · have hdigits : ∀ d < 16, hexDigit d ≠ '&' ∧ hexDigit d ≠ '=' := by decide
    have hb := b.toNat_lt
    have hhigh := hdigits (b.toNat / 16) (by omega)
    have hlow := hdigits (b.toNat % 16) (by omega)
    rw [if_neg h] at hmem
    simp only [List.mem_cons, List.not_mem_nil, or_false] at hmem
    rcases hc with rfl | rfl
    · rcases hmem with hmem | hmem | hmem
      · cases hmem
      · exact hhigh.1 hmem.symm
      · exact hlow.1 hmem.symm
    · rcases hmem with hmem | hmem | hmem
      · cases hmem
      · exact hhigh.2 hmem.symm
      · exact hlow.2 hmem.symm

/-! ## Pairs -/

def pair (name value : List UInt8) : List Char := encode name ++ '=' :: encode value

/-- A pair, taken apart at the first `=`. -/
def readPair (cs : List Char) : Option (List UInt8 × List UInt8) := do
  let name ← decode (cs.takeWhile (· ≠ '='))
  let value ← decode ((cs.dropWhile (· ≠ '=')).drop 1)
  some (name, value)

theorem readPair_pair (name value : List UInt8) :
    readPair (pair name value) = some (name, value) := by
  have hname : ∀ c ∈ encode name, decide (c ≠ '=') = true := by
    intro c hc
    apply decide_eq_true
    rintro rfl
    exact separator_escaped (.inr rfl) name hc
  unfold readPair pair
  rw [List.takeWhile_append_of_pos hname, List.dropWhile_append_of_pos hname]
  simp [decode_encode]

theorem pair_ne_nil (name value : List UInt8) : pair name value ≠ [] := by
  unfold pair
  simp

theorem ampersand_pair (name value : List UInt8) : '&' ∉ pair name value := by
  unfold pair
  rw [List.mem_append, List.mem_cons, not_or, not_or]
  exact ⟨separator_escaped (.inl rfl) name, by decide, separator_escaped (.inl rfl) value⟩

/-! ## Texts -/

/-- The text of some groups of pairs. -/
def join (groups : List (List (List UInt8 × List UInt8))) : List Char :=
  ['&'].intercalate (groups.map fun g => ['&'].intercalate (g.map fun p => pair p.1 p.2))

/-- The pairs of a text. -/
def parse (cs : List Char) : Option (List (List UInt8 × List UInt8)) :=
  ((cs.splitOn '&').filter (· ≠ [])).mapM readPair

theorem splitOn_join {c : Char} {ls : List (List Char)} (h : ls ≠ []) :
    ([c].intercalate ls).splitOn c = ls.flatMap (·.splitOn c) := by
  induction ls with
  | nil => exact absurd rfl h
  | cons l ls ih =>
    cases ls with
    | nil => simp
    | cons l' ls =>
      rw [List.intercalate_cons_cons, List.append_assoc, List.singleton_append,
        List.splitOn_append_cons_self, ih (List.cons_ne_nil _ _)]
      rfl

/-- The pieces of one group are its pairs. -/
theorem pieces_group (g : List (List UInt8 × List UInt8)) :
    ((['&'].intercalate (g.map fun p => pair p.1 p.2)).splitOn '&').filter (· ≠ []) =
      g.map fun p => pair p.1 p.2 := by
  cases g with
  | nil => rfl
  | cons p g =>
    rw [List.splitOn_intercalate]
    · rw [List.filter_eq_self]
      intro l hl
      obtain ⟨q, _, rfl⟩ := List.mem_map.mp hl
      exact decide_eq_true (pair_ne_nil q.1 q.2)
    · intro l hl
      obtain ⟨q, _, rfl⟩ := List.mem_map.mp hl
      exact ampersand_pair q.1 q.2
    · exact List.cons_ne_nil _ _

/-- **What was joined is read back.** -/
theorem parse_join (groups : List (List (List UInt8 × List UInt8))) :
    parse (join groups) = some groups.flatten := by
  have hpieces : ((join groups).splitOn '&').filter (· ≠ []) =
      groups.flatten.map fun p => pair p.1 p.2 := by
    cases groups with
    | nil => rfl
    | cons g gs =>
      have hne : (g :: gs).map (fun g => ['&'].intercalate (g.map fun p => pair p.1 p.2)) ≠ [] :=
        List.cons_ne_nil _ _
      unfold join
      rw [splitOn_join hne, List.filter_flatMap, List.flatMap_map, List.map_flatten,
        ← List.flatMap_def]
      exact List.flatMap_congr fun g _ => pieces_group g
  unfold parse
  rw [hpieces]
  induction groups.flatten with
  | nil => rfl
  | cons p ps ih =>
    rw [List.map_cons, List.mapM_cons, readPair_pair, ih]
    rfl

example : join [[([97], [38, 49])], [], [([98], [])]] = "a=%261&&b=".toList := by decide

/-- The path and the pairs of a URL. -/
def readUrl (cs : List Char) : Option (List Char × List (List UInt8 × List UInt8)) := do
  let pairs ← parse ((cs.dropWhile (· ≠ '?')).drop 1)
  some (cs.takeWhile (· ≠ '?'), pairs)

theorem readUrl_join {path : List Char} (h : '?' ∉ path)
    (groups : List (List (List UInt8 × List UInt8))) :
    readUrl (path ++ '?' :: join groups) = some (path, groups.flatten) := by
  have hpath : ∀ c ∈ path, decide (c ≠ '?') = true := by
    intro c hc
    apply decide_eq_true
    rintro rfl
    exact h hc
  unfold readUrl
  rw [List.takeWhile_append_of_pos hpath, List.dropWhile_append_of_pos hpath]
  simp [parse_join]

/-- A path that is read has no `?`. -/
theorem readUrl_path {cs path : List Char} {pairs : List (List UInt8 × List UInt8)}
    (h : readUrl cs = some (path, pairs)) : '?' ∉ path := by
  unfold readUrl at h
  simp only [Option.bind_eq_bind, Option.bind_eq_some_iff, Option.some.injEq,
    Prod.mk.injEq] at h
  obtain ⟨_, _, rfl, _⟩ := h
  intro hmem
  have hne := List.mem_takeWhile_imp hmem
  simp at hne

end FormEncoding
