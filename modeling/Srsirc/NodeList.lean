import Srsirc.BucketList
import Srsirc.Fallible
import Srsirc.LinkedNodes

namespace Srsirc.NodeList

open CharMap HeapCells LinkedNodes Fallible
open BucketList (Alloc malloc)

/-- A pointer to no node, and a walk through more nodes than there are. -/
inductive Fault
  | badPtr
  | endless
  deriving DecidableEq

abbrev Pair (V : Type) := Str × Option V

structure Bucklist (V : Type) where
  head : Option Ptr
  cmap : CMap
  heap : Heap (Node (Pair V))

variable {V : Type}

/-- `lsi_bucklist_init`. -/
def init (cmap : CMap) : Bucklist V := ⟨none, cmap, .empty⟩

def deref (heap : Heap (Node (Pair V))) (p : Ptr) : Except Fault (Node (Pair V)) :=
  match heap.get p with
  | none => .error .badPtr
  | some node => .ok node

/-- `p->next = next`. -/
def setNext (heap : Heap (Node (Pair V))) (p : Ptr) (next : Option Ptr) :
    Except Fault (Heap (Node (Pair V))) := do
  let node ← deref heap p
  .ok (heap.set p { node with next })

/-- The loop of `lsi_bucklist_insert` and `lsi_bucklist_get`. The first number bounds the nodes
that are visited. -/
def walk (heap : Heap (Node (Pair V))) :
    Nat → Option Ptr → Ptr → Nat → Except Fault (Option Ptr × Ptr × Nat)
  | 0, _, _, _ => .error .endless
  | k + 1, prev, n, i => do
    let node ← deref heap n
    match node.next, i with
    | some next, i + 1 => walk heap k (some n) next i
    | _, i => .ok (prev, n, i)

/-- The loop of `lsi_bucklist_replace`, `lsi_bucklist_remove` and `lsi_bucklist_find`. -/
def seek (cmap : CMap) (key : Str) (heap : Heap (Node (Pair V))) :
    Nat → Option Ptr → Option Ptr → Except Fault (Option (Option Ptr × Ptr × Node (Pair V)))
  | _, _, none => .ok none
  | 0, _, some _ => .error .endless
  | k + 1, prev, some n => do
    let node ← deref heap n
    if pfxeq cmap node.data.1 key then .ok (some (prev, n, node))
    else seek cmap key heap k (some n) node.next

/-- The end of `lsi_bucklist_insert`, behind its loop. -/
def link (l : Bucklist V) (heap : Heap (Node (Pair V))) (newnode : Ptr) (prev : Option Ptr)
    (n : Ptr) (i : Nat) : Except Fault (Bucklist V) :=
  if i ≠ 0 then do
    let heap ← setNext heap n (some newnode)
    let heap ← setNext heap newnode none
    .ok { l with heap }
  else do
    let heap ← setNext heap newnode (some n)
    match prev with
    | some prev => do
      let heap ← setNext heap prev (some newnode)
      .ok { l with heap }
    | none => .ok { l with head := some newnode, heap }

/-- `lsi_bucklist_insert`. -/
def insert (l : Bucklist V) (i : Nat) (key : Str) (val : Option V) (al : Alloc) :
    Except Fault (Bool × Bucklist V × Alloc) :=
  match malloc al with
  | (false, al) => .ok (false, l, al)
  | (true, al) =>
    let newnode := l.heap.next
    -- what `next` is at first does not matter, it is set in each case
    let heap := l.heap.new ⟨(key, val), none⟩
    match l.head with
    | none => do
      let heap ← setNext heap newnode none
      .ok (true, { l with head := some newnode, heap }, al)
    | some n => do
      let (prev, n, i) ← walk heap heap.next none n i
      let l ← link l heap newnode prev n i
      .ok (true, l, al)

/-- `lsi_bucklist_replace`. -/
def replace (l : Bucklist V) (key : Str) : Option V → Except Fault (Bool × Bucklist V)
  | none => .ok (false, l)
  | some val => do
    match ← seek l.cmap key l.heap l.heap.next none l.head with
    | none => .ok (false, l)
    | some (_, n, node) =>
      .ok (true, { l with heap := l.heap.set n { node with data := (node.data.1, some val) } })

/-- `lsi_bucklist_remove`, with the key at `*origkey` and the value that it returns. -/
def remove (l : Bucklist V) (key : Str) : Except Fault (Option (Pair V) × Bucklist V) := do
  match ← seek l.cmap key l.heap l.heap.next none l.head with
  | none => .ok (none, l)
  | some (none, n, node) =>
    .ok (some node.data, { l with head := node.next, heap := l.heap.free n })
  | some (some prev, n, node) => do
    let heap ← setNext l.heap prev node.next
    .ok (some node.data, { l with heap := heap.free n })

/-- `lsi_bucklist_find`. -/
def find (l : Bucklist V) (key : Str) : Except Fault (Option (Pair V)) := do
  let found ← seek l.cmap key l.heap l.heap.next none l.head
  .ok (found.map fun r => r.2.2.data)

/-- `lsi_bucklist_get`. -/
def get (l : Bucklist V) (i : Nat) : Except Fault (Option (Pair V)) :=
  match l.head with
  | none => .ok none
  | some n => do
    let (_, n, i) ← walk l.heap l.heap.next none n i
    if i > 0 then .ok none
    else do
      let node ← deref l.heap n
      .ok (some node.data)

/-- The loop of `lsi_bucklist_count`. -/
def countOn (heap : Heap (Node (Pair V))) : Nat → Ptr → Nat → Except Fault Nat
  | 0, _, _ => .error .endless
  | k + 1, n, c => do
    let node ← deref heap n
    match node.next with
    | none => .ok c
    | some n => countOn heap k n (c + 1)

/-- `lsi_bucklist_count`. -/
def count (l : Bucklist V) : Except Fault Nat :=
  match l.head with
  | none => .ok 0
  | some n => countOn l.heap l.heap.next n 1

/-- The loop of `lsi_bucklist_clear`. -/
def freeAll : Nat → Option Ptr → Heap (Node (Pair V)) → Except Fault (Heap (Node (Pair V)))
  | _, none, heap => .ok heap
  | 0, some _, _ => .error .endless
  | k + 1, some n, heap => do
    let node ← deref heap n
    freeAll k node.next (heap.free n)

/-- `lsi_bucklist_clear`. -/
def clear (l : Bucklist V) : Except Fault (Bucklist V) := do
  let heap ← freeAll l.heap.next l.head l.heap
  .ok { l with head := none, heap }

structure Holds (l : Bucklist V) (cs : List (Ptr × Pair V)) : Prop where
  head : l.head = front cs
  owns : Owns l.heap cs

variable {l : Bucklist V} {heap : Heap (Node (Pair V))} {cs pre post : List (Ptr × Pair V)}
  {c : Ptr × Pair V} {k : Nat}

section Loops

theorem deref_at (hl : Linked heap (pre ++ c :: post)) :
    deref heap c.1 = .ok ⟨c.2, front post⟩ := by
  rw [deref, hl.at]

theorem setNext_at (hl : Linked heap (pre ++ c :: post)) (next : Option Ptr) :
    setNext heap c.1 next = .ok (heap.set c.1 ⟨c.2, next⟩) := by
  rw [setNext, deref_at hl]
  rfl

theorem setNext_same (hl : Linked heap (pre ++ c :: post)) :
    setNext heap c.1 (front post) = .ok heap := by
  rw [setNext_at hl, set_same hl.at]

theorem setNext_new (heap : Heap (Node (Pair V))) (x : Pair V) (next : Option Ptr) :
    setNext (heap.new ⟨x, none⟩) heap.next next =
      .ok ((heap.new ⟨x, none⟩).set heap.next ⟨x, next⟩) := by
  rw [setNext, deref, get_new, Function.update_self]
  rfl

/-- The walk stops at the node that is asked for, or at the last one with a rest of the index. -/
theorem walk_stops (hl : Linked heap (pre ++ c :: post)) (hk : post.length < k) (i : Nat) :
    ∃ pre' c' post' i', walk heap k (back pre) c.1 i = .ok (back pre', c'.1, i') ∧
      pre ++ c :: post = pre' ++ c' :: post' ∧ pre'.length + i' = pre.length + i ∧
      (i' = 0 ∨ post' = []) := by
  induction post generalizing pre c k i with
  | nil =>
    obtain ⟨k, rfl⟩ := Nat.exists_eq_add_of_lt hk
    refine ⟨pre, c, [], i, ?_, rfl, rfl, Or.inr rfl⟩
    rw [walk, deref_at hl]
    rfl
  | cons d post ih =>
    cases k with
    | zero => cases hk
    | succ k =>
      rw [walk, deref_at hl, ok_bind]
      cases i with
      | zero => exact ⟨pre, c, d :: post, 0, rfl, rfl, rfl, Or.inl rfl⟩
      | succ i =>
        rw [List.append_cons] at hl
        obtain ⟨pre', c', post', i', hrun, hcut, hlen, hstop⟩ := ih hl (Nat.lt_of_succ_lt_succ hk) i
        rw [back_snoc] at hrun
        rw [List.length_append, List.length_singleton] at hlen
        refine ⟨pre', c', post', i', hrun, ?_, by omega, hstop⟩
        rw [List.append_cons, hcut]

theorem walk_head (hl : Linked heap (c :: post)) (hk : post.length < k) (i : Nat) :
    ∃ pre n rest j, walk heap k none c.1 i = .ok (back pre, n.1, j) ∧
      c :: post = pre ++ n :: rest ∧ pre.length + j = i ∧ (j = 0 ∨ rest = []) := by
  have hwalk := @walk_stops V heap [] post c k hl hk i
  simpa only [List.nil_append, List.length_nil, Nat.zero_add, back_nil] using hwalk

theorem seek_finds (cmap : CMap) (key : Str) (hl : Linked heap (pre ++ post))
    (hk : post.length ≤ k) (hpre : ∀ d ∈ pre, pfxeq cmap d.2.1 key = false) :
    (∃ pre' c post', seek cmap key heap k (back pre) (front post) =
        .ok (some (back pre', c.1, ⟨c.2, front post'⟩)) ∧
      pre ++ post = pre' ++ c :: post' ∧ pfxeq cmap c.2.1 key = true ∧
      ∀ d ∈ pre', pfxeq cmap d.2.1 key = false) ∨
    seek cmap key heap k (back pre) (front post) = .ok none ∧
      ∀ d ∈ pre ++ post, pfxeq cmap d.2.1 key = false := by
  induction post generalizing pre k with
  | nil =>
    rw [List.append_nil, front_nil]
    exact Or.inr ⟨by cases k <;> rfl, hpre⟩
  | cons c post ih =>
    cases k with
    | zero => cases hk
    | succ k =>
      rw [front_cons, seek, deref_at hl, ok_bind]
      cases hc : pfxeq cmap c.2.1 key with
      | true => exact Or.inl ⟨pre, c, post, by rw [if_pos rfl], rfl, hc, hpre⟩
      | false =>
        rw [List.append_cons] at hl
        have hnext := @ih (pre ++ [c]) k hl (Nat.le_of_succ_le_succ hk) (by
          intro d hd
          obtain hd | hd := List.mem_append.1 hd
          · exact hpre d hd
          · rwa [List.mem_singleton.1 hd])
        rw [back_snoc, ← List.append_cons] at hnext
        rwa [if_neg Bool.false_ne_true]

end Loops

structure Represents (l : Bucklist V) (cmap : CMap) (s : List (Pair V)) : Prop where
  cmap : l.cmap = cmap
  nodes : ∃ cs, Holds l cs ∧ cs.map Prod.snd = s

variable {cmap : CMap} {s : List (Pair V)}

def keyed (cmap : CMap) (key : Str) (n : Pair V) : Bool := pfxeq cmap n.1 key

section Sequences

variable {α : Type} {p : α → Bool} {front back : List α} {x : α}

theorem insertIdx_cut (front back : List α) (x : α) :
    (front ++ back).insertIdx front.length x = front ++ x :: back :=
  List.modifyTailIdx_add (x :: ·) 0 front back

theorem modify_cut (front back : List α) (x : α) (f : α → α) :
    (front ++ x :: back).modify front.length f = front ++ f x :: back :=
  List.modifyTailIdx_add (List.modifyHead f) 0 front (x :: back)

theorem find?_cut (hx : p x = true) (hfront : ∀ y ∈ front, p y = false) :
    (front ++ x :: back).find? p = some x :=
  List.find?_eq_some_iff_append.2 ⟨hx, front, back, rfl, fun y hy => by rw [hfront y hy]; rfl⟩

theorem eraseP_cut (hx : p x = true) (hfront : ∀ y ∈ front, p y = false) :
    (front ++ x :: back).eraseP p = front ++ back := by
  rw [List.eraseP_append_right _ fun y hy => by rw [hfront y hy]; exact Bool.false_ne_true,
    List.eraseP_cons_of_pos hx]

theorem findIdx_cut (hx : p x = true) (hfront : ∀ y ∈ front, p y = false) :
    (front ++ x :: back).findIdx p = front.length := by
  rw [List.findIdx_append, List.findIdx_eq_length_of_false hfront, if_neg (Nat.lt_irrefl _),
    List.findIdx_cons, hx]
  exact Nat.zero_add _

end Sequences

section Operations

theorem init_represents (cmap : CMap) : Represents (init cmap : Bucklist V) cmap [] :=
  ⟨rfl, [], ⟨rfl, .empty⟩, rfl⟩

/-- In front of the node at which the loop has stopped, or behind the last one. -/
theorem link_holds {n : Ptr × Pair V} {j : Nat} (hl : Holds l (pre ++ n :: post))
    (hstop : j = 0 ∨ post = []) (x : Pair V) :
    ∃ front' back' l', pre ++ n :: post = front' ++ back' ∧
      front'.length = min (pre.length + j) (pre ++ n :: post).length ∧
      link l (l.heap.new ⟨x, none⟩) l.heap.next (back pre) n.1 j = .ok l' ∧ l'.cmap = l.cmap ∧
      Holds l' (front' ++ (l.heap.next, x) :: back') := by
  have ho := hl.owns
  rw [link]
  by_cases hj : j = 0
  · have hmin : pre.length = min (pre.length + j) (pre ++ n :: post).length := by
      rw [List.length_append]
      omega
    rw [if_neg (not_not.2 hj), setNext_new, ok_bind]
    refine ⟨pre, n :: post, ?_⟩
    obtain rfl | ⟨pre, d, rfl⟩ := List.eq_nil_or_concat' pre
    · exact ⟨_, rfl, hmin, rfl, rfl, rfl, ho.put_front x⟩
    · rw [← List.append_cons] at ho
      obtain ⟨hlinked, -⟩ := ho.put x (some n.1)
      have hbehind := ho.put_behind x
      rw [List.append_cons] at hbehind
      rw [back_snoc]
      dsimp only
      rw [setNext_at hlinked]
      refine ⟨_, rfl, hmin, rfl, rfl, hl.head.trans ?_, hbehind⟩
      rw [← List.append_cons, ← List.append_cons]
      exact front_append pre rfl
  · obtain rfl := hstop.resolve_left hj
    have hmin : (pre ++ [n]).length = min (pre.length + j) (pre ++ [n]).length := by
      rw [List.length_append, List.length_singleton]
      omega
    have hlast := ho.put_last x
    rw [List.append_cons] at hlast
    let heap := (l.heap.new ⟨x, none⟩).set n.1 ⟨n.2, some l.heap.next⟩
    refine ⟨pre ++ [n], [], { l with heap }, (List.append_nil _).symm, hmin, ?_, rfl, ?_, hlast⟩
    · have hsame : setNext _ l.heap.next none = .ok _ := setNext_same hlast.linked
      rw [if_pos hj, setNext_at (ho.linked.new _), ok_bind, hsame]
      rfl
    · rw [← List.append_cons]
      exact hl.head.trans (front_append pre rfl)

theorem insert_holds (hl : Holds l cs) (i : Nat) (key : Str) (val : Option V) {al al' : Alloc}
    (hal : malloc al = (true, al')) :
    ∃ front' back' l', cs = front' ++ back' ∧ front'.length = min i cs.length ∧
      insert l i key val al = .ok (true, l', al') ∧ l'.cmap = l.cmap ∧
      Holds l' (front' ++ (l.heap.next, key, val) :: back') := by
  have ho := hl.owns
  cases cs with
  | nil =>
    refine ⟨[], [], ⟨some l.heap.next, l.cmap, _⟩, rfl, (Nat.min_zero i).symm, ?_, rfl,
      rfl, ho.put_front (key, val)⟩
    rw [insert, hal, hl.head]
    dsimp only [front_nil]
    rw [setNext_new]
    rfl
  | cons c cs =>
    have hk : cs.length < (l.heap.new ⟨(key, val), none⟩).next := by
      have hle := ho.length_le
      rw [List.length_cons] at hle
      exact Nat.lt_of_lt_of_le hle (by simp [Heap.next, Heap.new])
    have hnew : Linked (l.heap.new ⟨(key, val), none⟩) (c :: cs) := Linked.new ho.linked _
    obtain ⟨pre, n, post, j, hwalk, hcut, rfl, hstop⟩ := walk_head hnew hk i
    rw [insert, hal, hl.head, front_cons]
    dsimp only
    rw [hwalk, ok_bind]
    rw [hcut] at hl ⊢
    obtain ⟨front', back', l', hcut', hmin, hrun, hcmap, hl'⟩ := link_holds hl hstop (key, val)
    refine ⟨front', back', l', hcut', hmin, ?_, hcmap, hl'⟩
    dsimp only
    rw [hrun]
    rfl

theorem seek_head (hl : Holds l cs) (key : Str) :
    (∃ pre c post, seek l.cmap key l.heap l.heap.next none l.head =
        .ok (some (back pre, c.1, ⟨c.2, front post⟩)) ∧
      cs = pre ++ c :: post ∧ keyed l.cmap key c.2 = true ∧
      ∀ n ∈ pre.map Prod.snd, keyed l.cmap key n = false) ∨
    seek l.cmap key l.heap l.heap.next none l.head = .ok none ∧
      ∀ n ∈ cs.map Prod.snd, keyed l.cmap key n = false := by
  have hfind := @seek_finds V l.heap [] cs l.heap.next l.cmap key hl.owns.linked hl.owns.length_le
    (by simp)
  rw [hl.head]
  simpa only [List.nil_append, back_nil, List.forall_mem_map, keyed] using hfind

theorem insert_represents (hl : Represents l cmap s) (i : Nat) (key : Str) (val : Option V)
    {al al' : Alloc} (hal : malloc al = (true, al')) :
    ∃ l', insert l i key val al = .ok (true, l', al') ∧
      Represents l' cmap (s.insertIdx (min i s.length) (key, val)) := by
  obtain ⟨hcmap, cs, hcs, rfl⟩ := hl
  obtain ⟨pre, post, l', rfl, hlen, hrun, hcmap', hcs'⟩ := insert_holds hcs i key val hal
  refine ⟨l', hrun, hcmap'.trans hcmap, _, hcs', ?_⟩
  rw [List.length_map, ← hlen, List.map_append, List.map_append, List.map_cons]
  have hput := insertIdx_cut (pre.map Prod.snd) (post.map Prod.snd) (key, val)
  rw [List.length_map] at hput
  exact hput.symm

theorem insert_refused (l : Bucklist V) (i : Nat) (key : Str) (val : Option V) {al al' : Alloc}
    (hal : malloc al = (false, al')) : insert l i key val al = .ok (false, l, al') := by
  rw [insert, hal]

theorem find_represents (hl : Represents l cmap s) (key : Str) :
    find l key = .ok (s.find? (keyed cmap key)) := by
  obtain ⟨rfl, cs, hcs, rfl⟩ := hl
  obtain ⟨pre, c, post, hseek, rfl, hc, hpre⟩ | ⟨hseek, hnone⟩ := seek_head hcs key
  · rw [find, hseek, List.map_append, List.map_cons, find?_cut hc hpre]
    rfl
  · rw [find, hseek, List.find?_eq_none.2 fun n hn => by simp [hnone n hn]]
    rfl

theorem replace_represents (hl : Represents l cmap s) (key : Str) (val : V) :
    ∃ l', replace l key (some val) = .ok (s.any (keyed cmap key), l') ∧
      Represents l' cmap (s.modify (s.findIdx (keyed cmap key)) fun n => (n.1, some val)) := by
  obtain ⟨rfl, cs, hcs, rfl⟩ := hl
  obtain ⟨pre, c, post, hseek, rfl, hc, hpre⟩ | ⟨hseek, hnone⟩ := seek_head hcs key
  · refine ⟨⟨l.head, l.cmap, l.heap.set c.1 ⟨(c.2.1, some val), front post⟩⟩, ?_, rfl,
      pre ++ (c.1, c.2.1, some val) :: post, ⟨?_, hcs.owns.set_data (c.2.1, some val)⟩, ?_⟩
    · rw [replace, hseek]
      simp [hc]
    · exact hcs.head.trans (front_append pre rfl)
    · simp only [List.map_append, List.map_cons]
      rw [findIdx_cut hc hpre, modify_cut]
  · have hany : (cs.map Prod.snd).any (keyed l.cmap key) = false :=
      List.any_eq_false.2 fun n hn => by rw [hnone n hn]; exact Bool.false_ne_true
    refine ⟨l, ?_, rfl, cs, hcs, ?_⟩
    · rw [replace, hseek, hany]
      rfl
    · rw [List.findIdx_eq_length_of_false hnone, List.modify_eq_self (Nat.le_refl _)]

theorem remove_represents (hl : Represents l cmap s) (key : Str) :
    ∃ l', remove l key = .ok (s.find? (keyed cmap key), l') ∧
      Represents l' cmap (s.eraseP (keyed cmap key)) := by
  obtain ⟨rfl, cs, hcs, rfl⟩ := hl
  obtain ⟨pre, c, post, hseek, rfl, hc, hpre⟩ | ⟨hseek, hnone⟩ := seek_head hcs key
  · rw [List.map_append, List.map_cons, find?_cut hc hpre, eraseP_cut hc hpre, ← List.map_append,
      remove, hseek, ok_bind]
    have ho := hcs.owns
    obtain rfl | ⟨pre, d, rfl⟩ := List.eq_nil_or_concat' pre
    · exact ⟨_, rfl, rfl, post, ⟨rfl, ho.drop_front⟩, rfl⟩
    · rw [← List.append_cons] at ho
      rw [back_snoc]
      dsimp only
      rw [setNext_at ho.linked]
      refine ⟨_, rfl, rfl, _, ⟨?_, ho.drop_behind⟩, ?_⟩
      · rw [← List.append_cons] at hcs
        exact hcs.head.trans (front_append pre rfl)
      · rw [List.append_cons, List.map_append]
  · refine ⟨l, ?_, rfl, cs, hcs, ?_⟩
    · rw [remove, hseek, List.find?_eq_none.2 fun n hn => by simp [hnone n hn]]
      rfl
    · rw [List.eraseP_of_forall_not fun n hn => by simp [hnone n hn]]

/-- Since `i` only counts down to `0`, what is left of it tells whether there is an `i`-th node. -/
theorem get_represents (hl : Represents l cmap s) (i : Nat) : get l i = .ok s[i]? := by
  obtain ⟨-, cs, hcs, rfl⟩ := hl
  cases cs with
  | nil =>
    rw [get, hcs.head]
    rfl
  | cons c cs =>
    obtain ⟨pre, n, post, j, hwalk, hcut, hlen, hstop⟩ :=
      walk_head hcs.owns.linked hcs.owns.length_le i
    rw [get, hcs.head, front_cons]
    dsimp only
    rw [hwalk, ok_bind]
    have hnode := hcs.owns.linked
    rw [hcut] at hnode ⊢
    dsimp only
    by_cases hj : j = 0
    · have hi : i = (pre.map Prod.snd).length := by rw [List.length_map]; omega
      rw [if_neg (by omega), deref_at hnode, List.map_append, List.map_cons, hi,
        List.getElem?_append_right (Nat.le_refl _), Nat.sub_self, List.getElem?_cons_zero]
      rfl
    · obtain rfl := hstop.resolve_left hj
      rw [if_pos (Nat.pos_of_ne_zero hj), List.getElem?_eq_none]
      rw [List.length_map, List.length_append, List.length_singleton]
      omega

theorem countOn_length (hl : Linked heap (c :: post)) (hk : post.length < k) (n : Nat) :
    countOn heap k c.1 n = .ok (n + post.length) := by
  induction post generalizing c k n with
  | nil =>
    obtain ⟨k, rfl⟩ := Nat.exists_eq_add_of_lt hk
    rw [countOn, @deref_at V heap [] [] c hl]
    rfl
  | cons d post ih =>
    cases k with
    | zero => cases hk
    | succ k =>
      rw [countOn, @deref_at V heap [] (d :: post) c hl, ok_bind, List.length_cons]
      exact (ih hl.2 (Nat.lt_of_succ_lt_succ hk) (n + 1)).trans (congrArg _ (by omega))

theorem count_represents (hl : Represents l cmap s) : count l = .ok s.length := by
  obtain ⟨-, cs, hcs, rfl⟩ := hl
  cases cs with
  | nil =>
    rw [count, hcs.head]
    rfl
  | cons c cs =>
    rw [count, hcs.head, front_cons]
    dsimp only
    rw [countOn_length hcs.owns.linked hcs.owns.length_le, List.length_map, List.length_cons,
      Nat.add_comm]

theorem freeAll_owns (ho : Owns heap cs) (hk : cs.length ≤ k) :
    ∃ heap', freeAll k (front cs) heap = .ok heap' ∧ Owns heap' [] := by
  induction cs generalizing heap k with
  | nil => exact ⟨heap, by cases k <;> rfl, ho⟩
  | cons c cs ih =>
    cases k with
    | zero => cases hk
    | succ k =>
      rw [front_cons, freeAll, @deref_at V heap [] cs c ho.linked, ok_bind]
      exact ih ho.drop_front (Nat.le_of_succ_le_succ hk)

theorem clear_represents (hl : Represents l cmap s) :
    ∃ l', clear l = .ok l' ∧ Represents l' cmap [] := by
  obtain ⟨hcmap, cs, hcs, rfl⟩ := hl
  obtain ⟨heap, hrun, howns⟩ := freeAll_owns hcs.owns hcs.owns.length_le
  refine ⟨⟨none, l.cmap, heap⟩, ?_, hcmap, [], ⟨rfl, howns⟩, rfl⟩
  rw [clear, hcs.head, hrun]
  rfl

end Operations

end Srsirc.NodeList
