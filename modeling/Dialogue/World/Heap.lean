import Dialogue.World.Object

/-!
The heap of objects. Identities are given out in order and never again, so a reference to an object
that has gone finds nothing.
-/

namespace Dialogue

structure Heap where
  /-- A cell for every identity that was ever given out. -/
  cells : Array (Option Object) := #[]

namespace Heap

def size (heap : Heap) : Nat := heap.cells.size

def get? (heap : Heap) (ref : Ref) : Option Object := heap.cells[ref]?.join

/-- Adds an object; its identity is the size of the heap before. -/
def add (heap : Heap) (object : Object) : Heap := ⟨heap.cells.push (some object)⟩

def modify (heap : Heap) (ref : Ref) (change : Object → Object) : Heap :=
  ⟨heap.cells.modify ref (·.map change)⟩

def erase (heap : Heap) (ref : Ref) : Heap := ⟨heap.cells.setIfInBounds ref none⟩

/-- Whether a living object keeps the referenced one alive. -/
def holds (heap : Heap) (ref : Ref) : Bool :=
  heap.cells.any fun cell => cell.any fun object => object.holds.contains ref

@[simp] theorem size_add (heap : Heap) (object : Object) : (heap.add object).size = heap.size + 1 := by
  simp [size, add]

@[simp] theorem size_modify (heap : Heap) (ref : Ref) (change : Object → Object) :
    (heap.modify ref change).size = heap.size := by
  simp [size, modify]

@[simp] theorem size_erase (heap : Heap) (ref : Ref) : (heap.erase ref).size = heap.size := by
  simp [size, erase]

theorem get?_add (heap : Heap) (object : Object) (ref : Ref) :
    (heap.add object).get? ref = if ref = heap.size then some object else heap.get? ref := by
  by_cases fresh : ref = heap.cells.size <;> simp [get?, add, size, Array.getElem?_push, fresh]

theorem get?_modify (heap : Heap) (ref other : Ref) (change : Object → Object) :
    (heap.modify ref change).get? other =
      if ref = other then (heap.get? other).map change else heap.get? other := by
  simp only [get?, modify, Array.getElem?_modify]
  split
  · cases heap.cells[other]? <;> simp
  · rfl

theorem get?_erase (heap : Heap) (ref other : Ref) :
    (heap.erase ref).get? other = if ref = other then none else heap.get? other := by
  simp only [get?, erase, Array.getElem?_setIfInBounds]
  split
  · split <;> rfl
  · rfl

theorem get?_of_size_le {heap : Heap} {ref : Ref} (beyond : heap.size ≤ ref) : heap.get? ref = none := by
  simp [get?, Array.getElem?_eq_none beyond]

end Heap

end Dialogue
