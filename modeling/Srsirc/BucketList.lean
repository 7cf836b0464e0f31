import Srsirc.CharMap
import Srsirc.KeyedList

namespace Srsirc.BucketList

open CharMap

/-- The outcomes of the allocations still to come; past its end they all succeed. -/
abbrev Alloc := List Bool

def malloc : Alloc → Bool × Alloc
  | [] => (true, [])
  | ok :: al => (ok, al)

/-- Nothing is returned if there is no memory, and else what `f` returns. -/
def allocated {ε β : Type} (al : Alloc) (f : Alloc → Except ε (Option β × Alloc)) :
    Except ε (Option β × Alloc) :=
  match malloc al with
  | (false, al) => .ok (none, al)
  | (true, al) => f al

@[simp] theorem malloc_nil : malloc [] = (true, []) := rfl

/-- The node `iter` points to is given by its position; `none` is the null pointer.
The character map of a list is that of the map owning it, and is passed in. -/
structure Bucklist (V : Type) where
  nodes : List (Str × V)
  iter : Option Nat
  previter : Option Nat

variable {V : Type}

def init : Bucklist V := ⟨[], none, none⟩

def count (l : Bucklist V) : Nat := l.nodes.length

def isempty (l : Bucklist V) : Bool := l.nodes.isEmpty

def clear (l : Bucklist V) : Bucklist V := { l with nodes := [] }

/-- The walk of `insert`: it stops at the last node even if `i` is not used up,
and then appends. -/
def insertNode (x : Str × V) : List (Str × V) → Nat → List (Str × V)
  | [], _ => [x]
  | [n], 0 => [x, n]
  | [n], _ + 1 => [n, x]
  | n :: m :: r, 0 => x :: n :: m :: r
  | n :: m :: r, i + 1 => n :: insertNode x (m :: r) i

def insert (l : Bucklist V) (i : Nat) (key : Str) (val : V) (al : Alloc) :
    Bool × Bucklist V × Alloc :=
  match malloc al with
  | (false, al) => (false, l, al)
  | (true, al) => (true, { l with nodes := insertNode (key, val) l.nodes i }, al)

def replaceNode (cm : CMap) (key : Str) (val : V) : List (Str × V) → Option (List (Str × V))
  | [] => none
  | n :: r =>
    if pfxeq cm n.1 key then some ((n.1, val) :: r)
    else (replaceNode cm key val r).map (n :: ·)

def replace (cm : CMap) (l : Bucklist V) (key : Str) (val : V) : Bool × Bucklist V :=
  match replaceNode cm key val l.nodes with
  | some ns => (true, { l with nodes := ns })
  | none => (false, l)

def removeNode (cm : CMap) (key : Str) : List (Str × V) → Option ((Str × V) × List (Str × V))
  | [] => none
  | n :: r =>
    if pfxeq cm n.1 key then some (n, r)
    else (removeNode cm key r).map fun p => (p.1, n :: p.2)

def remove (cm : CMap) (l : Bucklist V) (key : Str) : Option (Str × V) × Bucklist V :=
  match removeNode cm key l.nodes with
  | some (n, ns) => (some n, { l with nodes := ns })
  | none => (none, l)

def findNode (cm : CMap) (key : Str) : List (Str × V) → Option (Str × V)
  | [] => none
  | n :: r => if pfxeq cm n.1 key then some n else findNode cm key r

def find (cm : CMap) (l : Bucklist V) (key : Str) : Option V :=
  (findNode cm key l.nodes).map Prod.snd

def first (l : Bucklist V) : Option (Str × V) × Bucklist V :=
  match l.nodes with
  | [] => (none, l)
  | n :: _ => (some n, { l with previter := none, iter := some 0 })

def next (l : Bucklist V) : Option (Str × V) × Bucklist V :=
  match l.iter with
  | none => (none, l)
  | some i =>
    match l.nodes[i + 1]? with
    | none => (none, l)
    | some n => (some n, { l with previter := some i, iter := some (i + 1) })

theorem findNode_eq (cm : CMap) (key : Str) (ns : List (Str × V)) :
    (findNode cm key ns).map Prod.snd = KeyedList.lookup (norm cm) (norm cm key) ns := by
  induction ns with
  | nil => rfl
  | cons n ns ih =>
    by_cases h : norm cm n.1 = norm cm key <;> simp [findNode, KeyedList.lookup, pfxeq_iff, h, ih]

theorem find_eq (cm : CMap) (l : Bucklist V) (key : Str) :
    find cm l key = KeyedList.lookup (norm cm) (norm cm key) l.nodes := findNode_eq cm key l.nodes

theorem insert_front (l : Bucklist V) (key : Str) (val : V) :
    insertNode (key, val) l.nodes 0 = (key, val) :: l.nodes := by
  cases h : l.nodes with
  | nil => rfl
  | cons n ns => cases ns <;> rfl

theorem replaceNode_eq (cm : CMap) (key : Str) (val : V) (ns : List (Str × V)) :
    (replaceNode cm key val ns).getD ns = KeyedList.replace (norm cm) (norm cm key) val ns := by
  induction ns with
  | nil => rfl
  | cons n ns ih =>
    by_cases h : norm cm n.1 = norm cm key
    · simp [replaceNode, KeyedList.replace, pfxeq_iff, h]
    · rw [KeyedList.replace, if_neg h, ← ih, replaceNode, if_neg (by simp [pfxeq_iff, h])]
      cases replaceNode cm key val ns <;> rfl

theorem replace_nodes (cm : CMap) (l : Bucklist V) (key : Str) (val : V) :
    (replace cm l key val).2.nodes = KeyedList.replace (norm cm) (norm cm key) val l.nodes := by
  rw [← replaceNode_eq, replace]
  cases replaceNode cm key val l.nodes <;> rfl

theorem removeNode_eq (cm : CMap) (key : Str) (ns : List (Str × V)) :
    (removeNode cm key ns).map (fun p => p.1.2) = KeyedList.lookup (norm cm) (norm cm key) ns ∧
    ((removeNode cm key ns).map Prod.snd).getD ns = KeyedList.erase (norm cm) (norm cm key) ns := by
  induction ns with
  | nil => exact ⟨rfl, rfl⟩
  | cons n ns ih =>
    by_cases h : norm cm n.1 = norm cm key
    · simp [removeNode, KeyedList.lookup, KeyedList.erase, pfxeq_iff, h]
    · rw [KeyedList.lookup, KeyedList.erase, if_neg h, if_neg h, ← ih.1, ← ih.2, removeNode,
        if_neg (by simp [pfxeq_iff, h])]
      cases removeNode cm key ns <;> simp

theorem remove_val (cm : CMap) (l : Bucklist V) (key : Str) :
    (remove cm l key).1.map Prod.snd = KeyedList.lookup (norm cm) (norm cm key) l.nodes := by
  rw [← (removeNode_eq cm key l.nodes).1, remove]
  cases removeNode cm key l.nodes <;> rfl

theorem remove_nodes (cm : CMap) (l : Bucklist V) (key : Str) :
    (remove cm l key).2.nodes = KeyedList.erase (norm cm) (norm cm key) l.nodes := by
  rw [← (removeNode_eq cm key l.nodes).2, remove]
  cases removeNode cm key l.nodes <;> rfl

end Srsirc.BucketList
