import Srsirc.HeapCells

namespace Srsirc.CellCount

open HeapCells

variable {α : Type}

/-- The number of live cells that satisfy `f`. -/
def countCells (h : Heap α) (f : α → Bool) : Nat := h.cells.countP fun c => c.any f

theorem count_new (h : Heap α) (a : α) (f : α → Bool) :
    countCells (h.new a) f = countCells h f + if f a then 1 else 0 := by
  rw [countCells, Heap.new, List.countP_append, List.countP_singleton]
  rfl

theorem count_cell {h : Heap α} {p : Ptr} {a : α} (hp : h.get p = some a) (c : Option α)
    (f : α → Bool) :
    (h.cells.set p c).countP (fun c => c.any f) + (if f a then 1 else 0) =
      countCells h f + if c.any f then 1 else 0 := by
  have hlt : p < h.cells.length := lt_next hp
  have hcell : h.cells[p] = some a := by
    rwa [Heap.get, List.getElem?_eq_getElem hlt, Option.getD_some] at hp
  have hpos : (if f a then 1 else 0) ≤ countCells h f := by
    split
    · next hf => exact List.countP_pos_iff.2 ⟨some a, hcell ▸ List.getElem_mem hlt, hf⟩
    · exact Nat.zero_le _
  rw [List.countP_set hlt, hcell, Option.any_some]
  rw [countCells] at hpos ⊢
  omega

theorem count_set {h : Heap α} {p : Ptr} {a : α} (hp : h.get p = some a) (b : α) (f : α → Bool) :
    countCells (h.set p b) f + (if f a then 1 else 0) = countCells h f + if f b then 1 else 0 :=
  count_cell hp (some b) f

theorem count_free {h : Heap α} {p : Ptr} {a : α} (hp : h.get p = some a) (f : α → Bool) :
    countCells (h.free p) f + (if f a then 1 else 0) = countCells h f :=
  count_cell hp none f

theorem count_zero {h : Heap α} {f : α → Bool} : countCells h f = 0 ↔ ∀ p a, h.get p = some a →
    f a = false := by
  rw [countCells, List.countP_eq_zero]
  constructor
  · intro hz p a hp
    rw [Heap.get, Option.getD_eq_iff] at hp
    obtain hp | ⟨_, hp⟩ := hp
    · simpa using hz _ (List.mem_of_getElem? hp)
    · cases hp
  · rintro hz (_ | a) hc
    · simp
    · obtain ⟨p, hp⟩ := List.getElem?_of_mem hc
      simpa using hz p a (by rw [Heap.get, hp, Option.getD_some])

end Srsirc.CellCount
