import Mathlib.Data.List.Basic
import Mathlib.Logic.Function.Basic

namespace Srsirc.HeapCells

abbrev Ptr := Nat

/-- Every cell that was ever allocated. A freed cell is empty and never used again. -/
structure Heap (α : Type) where
  cells : List (Option α)

variable {α : Type}

def Heap.empty : Heap α := ⟨[]⟩

def Heap.get (h : Heap α) (p : Ptr) : Option α := (h.cells[p]?).getD none

def Heap.next (h : Heap α) : Ptr := h.cells.length

def Heap.new (h : Heap α) (a : α) : Heap α := ⟨h.cells ++ [some a]⟩

def Heap.set (h : Heap α) (p : Ptr) (a : α) : Heap α := ⟨h.cells.set p (some a)⟩

def Heap.free (h : Heap α) (p : Ptr) : Heap α := ⟨h.cells.set p none⟩

theorem get_empty (p : Ptr) : (Heap.empty : Heap α).get p = none := rfl

theorem lt_next {h : Heap α} {p : Ptr} {a : α} (hp : h.get p = some a) : p < h.next := by
  by_contra hn
  rw [Heap.get, List.getElem?_eq_none (Nat.le_of_not_lt hn)] at hp
  cases hp

theorem get_next (h : Heap α) : h.get h.next = none := by
  rw [Heap.get, Heap.next, List.getElem?_eq_none (Nat.le_refl _)]
  rfl

theorem get_new (h : Heap α) (a : α) :
    (h.new a).get = Function.update h.get h.next (some a) := by
  funext q
  rw [Function.update_apply]
  by_cases hq : q = h.next
  · simp [Heap.get, Heap.new, hq, Heap.next]
  · rw [if_neg hq, Heap.get, Heap.get, Heap.new]
    obtain hlt | hgt := Nat.lt_or_gt_of_ne hq
    · rw [List.getElem?_append_left hlt]
    · rw [List.getElem?_eq_none (by simp; exact hgt), List.getElem?_eq_none (Nat.le_of_lt hgt)]

theorem get_set {h : Heap α} {p : Ptr} {a : α} (hp : h.get p = some a) (b : α) :
    (h.set p b).get = Function.update h.get p (some b) := by
  have hlt := lt_next hp
  funext q
  rw [Function.update_apply]
  by_cases hq : q = p
  · subst hq
    simp [Heap.get, Heap.set, List.getElem?_set_self hlt]
  · simp [Heap.get, Heap.set, List.getElem?_set_ne (Ne.symm hq), hq]

theorem get_set_some {h : Heap α} {p q : Ptr} {a x : α} (hq : (h.set p a).get q = some x) :
    x = a ∨ h.get q = some x := by
  rw [Heap.get, Heap.set, List.getElem?_set] at hq
  split at hq
  · split at hq
    · exact Or.inl (Option.some.inj hq).symm
    · cases hq
  · exact Or.inr hq

theorem set_set (h : Heap α) (p : Ptr) (a b : α) : (h.set p a).set p b = h.set p b := by
  simp only [Heap.set, List.set_set]

theorem set_same {h : Heap α} {p : Ptr} {a : α} (hp : h.get p = some a) : h.set p a = h := by
  have hlt : p < h.cells.length := lt_next hp
  rw [Heap.get, List.getElem?_eq_getElem hlt, Option.getD_some] at hp
  rw [Heap.set, ← hp, List.set_getElem_self]

theorem get_free (h : Heap α) (p : Ptr) : (h.free p).get = Function.update h.get p none := by
  funext q
  rw [Function.update_apply]
  by_cases hq : q = p
  · subst hq
    simp only [Heap.get, Heap.free, if_true, List.getElem?_set]
    by_cases hlt : q < h.cells.length <;> simp [hlt]
  · simp [Heap.get, Heap.free, List.getElem?_set_ne (Ne.symm hq), hq]

end Srsirc.HeapCells
