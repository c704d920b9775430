import Mathlib.Data.List.Basic
import Mathlib.Order.Basic
import Mathlib.Tactic.Ring

/-!
# Pages of a list

A list cut into consecutive pages of a fixed length, and a cursor that goes from page to page.
A page is found again from its first element alone when the list is strictly ordered: what is
not before that element is the rest of the list from there on (`filter_not_before`). One
element more than a page holds tells whether another page follows (`take_succ_drop`).
-/

set_option autoImplicit false

namespace Paging

variable {α β : Type} {len : Nat} {xs : List α}

/-- The page with number `i`. -/
def page (len : Nat) (xs : List α) (i : Nat) : List α := (xs.drop (i * len)).take len

/-- Where the page with number `i` starts, if there is one. -/
def start (len : Nat) (xs : List α) (i : Nat) : Option α := xs[i * len]?

theorem length_page {i : Nat} (h : (i + 1) * len ≤ xs.length) : (page len xs i).length = len := by
  rw [Nat.succ_mul] at h
  unfold page
  rw [List.length_take, List.length_drop]
  omega

/-- A page that another one follows is full. -/
theorem length_page_of_start {i : Nat} {x : α} (h : start len xs (i + 1) = some x) :
    (page len xs i).length = len := by
  obtain ⟨hlt, _⟩ := List.getElem?_eq_some_iff.mp h
  exact length_page (Nat.le_of_lt hlt)

theorem length_page_le (i : Nat) : (page len xs i).length ≤ len := by
  unfold page
  rw [List.length_take]
  exact Nat.min_le_left _ _

theorem head?_page (hlen : 0 < len) (i : Nat) : (page len xs i).head? = start len xs i := by
  unfold page start
  rw [List.head?_eq_getElem?, List.getElem?_take_of_lt hlen, List.getElem?_drop, Nat.add_zero]

/-- A page and what is behind it. -/
theorem page_append_drop (i : Nat) :
    page len xs i ++ xs.drop ((i + 1) * len) = xs.drop (i * len) := by
  unfold page
  rw [Nat.succ_mul, ← List.drop_drop, List.take_append_drop]

/-- **The look-ahead**: one element more than a page holds is the start of the next. -/
theorem take_succ_drop (i : Nat) :
    (xs.drop (i * len)).take (len + 1) = page len xs i ++ (start len xs (i + 1)).toList := by
  unfold page start
  rw [List.take_add_one, List.getElem?_drop, Nat.succ_mul]

/-- **A page is found from its first element**: in a strict order, what is not before an element
    is the list from there on. -/
theorem filter_not_before {pos : α → β} {before : β → β → Bool}
    (hasymm : ∀ p q, before p q = true → before q p = false)
    (hsorted : xs.Pairwise fun x y => before (pos x) (pos y) = true) {n : Nat} {x : α}
    (hx : xs[n]? = some x) : xs.filter (fun y => !before (pos y) (pos x)) = xs.drop n := by
  have hirrefl (p : β) : before p p = false := by
    by_contra h
    exact h (hasymm p p (Bool.eq_true_of_not_eq_false h))
  induction xs generalizing n with
  | nil => cases hx
  | cons y xs ih =>
    obtain ⟨hy, hsorted⟩ := List.pairwise_cons.mp hsorted
    cases n with
    | zero =>
      cases hx
      rw [List.drop_zero, List.filter_eq_self]
      intro z hz
      rcases List.mem_cons.mp hz with rfl | hz
      · rw [hirrefl, Bool.not_false]
      · rw [hasymm _ _ (hy z hz), Bool.not_false]
    | succ n =>
      have hx : xs[n]? = some x := hx
      have hbefore : before (pos y) (pos x) = true := hy x (List.mem_of_getElem? hx)
      rw [List.filter_cons_of_neg (by rw [hbefore]; decide), List.drop_succ_cons]
      exact ih hsorted hx

/-! ## The cursor -/

/-- A move of the cursor. -/
inductive Turn where
  | next | prev
  deriving DecidableEq

/-- One move: to the page it delivers, or nowhere, and then it delivers no elements. -/
def turn (len : Nat) (xs : List α) : Turn → Nat → Nat × List α
  | .next, i =>
    if (start len xs (i + 1)).isSome then (i + 1, page len xs (i + 1)) else (i, [])
  | .prev, 0 => (0, [])
  | .prev, i + 1 => (i, page len xs i)

theorem turn_next (i : Nat) : turn len xs .next i =
    if (start len xs (i + 1)).isSome then (i + 1, page len xs (i + 1)) else (i, []) := by
  cases i with
  | zero => rfl
  | succ i => rfl

/-- What a sequence of moves delivers. -/
def deliveries (len : Nat) (xs : List α) : Nat → List Turn → List (List α)
  | _, [] => []
  | i, t :: ts => (turn len xs t i).2 :: deliveries len xs (turn len xs t i).1 ts

end Paging
