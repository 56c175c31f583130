import Mathlib

/-!
# Sorting and heaps

`sort.Slice` promises a sorted result only for a comparison that is a strict weak order, which a
comparison of doubles is not when NaN is among them. A `Sorter` is therefore any function that
permutes its input. The heap operations follow `container/heap` swap by swap.
-/

namespace SuperDB.Go

/-- `sort.Slice`. -/
structure Sorter where
  sort : {α : Type} → (α → α → Bool) → List α → List α
  perm : ∀ {α : Type} (less : α → α → Bool) (l : List α), (sort less l).Perm l

def Sorter.merge : Sorter where
  sort less l := l.mergeSort fun a b => !less b a
  perm _ l := List.mergeSort_perm l _

section Heap

variable {α : Type} (less : α → α → Bool)

/-- `h.Less(i, j)` on positions. -/
def lessAt (h : List α) (i j : Nat) : Bool :=
  match h[i]?, h[j]? with
  | some a, some b => less a b
  | _, _ => false

/-- `h.Swap(i, j)`. -/
def swap (h : List α) (i j : Nat) : List α :=
  match h[i]?, h[j]? with
  | some a, some b => (h.set i b).set j a
  | _, _ => h

/-- `heap.up`: moves the element at `j` towards the root. The fuel bounds the number of swaps. -/
def heapUp : Nat → Nat → List α → List α
  | 0, _, h => h
  | fuel + 1, j, h =>
    let i := (j - 1) / 2
    if i = j ∨ !lessAt less h j i then h else heapUp fuel i (swap h i j)

/-- The child of the element at `i`, among the first `n`, that is to be moved up. -/
def heapChild (h : List α) (n i : Nat) : Nat :=
  if 2 * i + 2 < n ∧ lessAt less h (2 * i + 2) (2 * i + 1) then 2 * i + 2 else 2 * i + 1

/-- `heap.down`: moves the element at `i` towards the leaves of the first `n` elements. -/
def heapDown (n : Nat) : Nat → Nat → List α → List α
  | 0, _, h => h
  | fuel + 1, i, h =>
    let j := heapChild less h n i
    if n ≤ 2 * i + 1 ∨ !lessAt less h j i then h else heapDown n fuel j (swap h i j)

/-- `heap.Push`. -/
def heapPush (h : List α) (a : α) : List α := heapUp less h.length h.length (h ++ [a])

/-- `heap.Pop`, without the element it returns. -/
def heapPop (h : List α) : List α :=
  let n := h.length - 1
  (heapDown less n n 0 (swap h 0 n)).dropLast

theorem length_swap (h : List α) (i j : Nat) : (swap h i j).length = h.length := by
  unfold swap
  split
  · simp
  · rfl

theorem length_heapUp (fuel j : Nat) (h : List α) : (heapUp less fuel j h).length = h.length := by
  induction fuel generalizing j h with
  | zero => rfl
  | succ fuel ih =>
    simp only [heapUp]
    split
    · rfl
    · rw [ih, length_swap]

theorem length_heapDown (n fuel i : Nat) (h : List α) :
    (heapDown less n fuel i h).length = h.length := by
  induction fuel generalizing i h with
  | zero => rfl
  | succ fuel ih =>
    simp only [heapDown]
    split
    · rfl
    · rw [ih, length_swap]

theorem length_heapPush (h : List α) (a : α) : (heapPush less h a).length = h.length + 1 := by
  simp [heapPush, length_heapUp]

theorem length_heapPop (h : List α) : (heapPop less h).length = h.length - 1 := by
  simp [heapPop, length_heapDown, length_swap]

end Heap

end SuperDB.Go
