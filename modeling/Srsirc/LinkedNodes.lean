import Mathlib.Data.List.Nodup
import Mathlib.Data.List.Perm.Subperm
import Srsirc.HeapCells

namespace Srsirc.LinkedNodes

open HeapCells

variable {α : Type}

structure Node (α : Type) where
  data : α
  next : Option Ptr

def front (cs : List (Ptr × α)) : Option Ptr := cs.head?.map Prod.fst

def back (cs : List (Ptr × α)) : Option Ptr := cs.getLast?.map Prod.fst

def Linked (h : Heap (Node α)) : List (Ptr × α) → Prop
  | [] => True
  | c :: cs => h.get c.1 = some ⟨c.2, front cs⟩ ∧ Linked h cs

structure Owns (h : Heap (Node α)) (cs : List (Ptr × α)) : Prop where
  linked : Linked h cs
  nodup : (cs.map Prod.fst).Nodup
  live : ∀ p node, h.get p = some node → p ∈ cs.map Prod.fst

variable {h : Heap (Node α)} {cs pre post post' : List (Ptr × α)} {c : Ptr × α} {p : Ptr} {x : α}

@[simp] theorem front_nil : front ([] : List (Ptr × α)) = none := rfl

@[simp] theorem front_cons (c : Ptr × α) (cs : List (Ptr × α)) : front (c :: cs) = some c.1 := rfl

@[simp] theorem back_nil : back ([] : List (Ptr × α)) = none := rfl

@[simp] theorem back_snoc (cs : List (Ptr × α)) (c : Ptr × α) : back (cs ++ [c]) = some c.1 := by
  rw [back, List.getLast?_concat, Option.map_some]

theorem get_set_other (h : Heap (Node α)) {q : Ptr} (hq : q ≠ p) (node : Node α) :
    (h.set p node).get q = h.get q := by
  rw [Heap.get, Heap.get, Heap.set, List.getElem?_set_ne (Ne.symm hq)]

/-- The list does not notice what happens elsewhere. -/
theorem Linked.frame {h' : Heap (Node α)} (hl : Linked h cs)
    (hsame : ∀ p ∈ cs.map Prod.fst, h'.get p = h.get p) : Linked h' cs := by
  induction cs with
  | nil => trivial
  | cons c cs ih =>
    rw [List.map_cons, List.forall_mem_cons] at hsame
    exact ⟨hsame.1.trans hl.1, ih hl.2 hsame.2⟩

theorem Linked.set_other (hl : Linked h cs) (hp : p ∉ cs.map Prod.fst) (node : Node α) :
    Linked (h.set p node) cs :=
  hl.frame fun q hq => get_set_other h (fun heq : q = p => hp (heq ▸ hq)) node

theorem Linked.behind (hl : Linked h (pre ++ post)) : Linked h post := by
  induction pre with
  | nil => exact hl
  | cons c pre ih => exact ih hl.2

theorem Linked.at (hl : Linked h (pre ++ c :: post)) : h.get c.1 = some ⟨c.2, front post⟩ :=
  hl.behind.1

theorem front_append (pre : List (Ptr × α)) (h : front post = front post') :
    front (pre ++ post) = front (pre ++ post') := by
  cases pre with
  | nil => exact h
  | cons c pre => rfl

theorem Linked.relink (hl : Linked h (pre ++ c :: post)) (hpre : c.1 ∉ pre.map Prod.fst)
    (hpost : Linked h post') (hnot : c.1 ∉ post'.map Prod.fst) (x : α) :
    Linked (h.set c.1 ⟨x, front post'⟩) (pre ++ (c.1, x) :: post') := by
  induction pre with
  | nil =>
    refine ⟨?_, hpost.set_other hnot _⟩
    rw [get_set hl.1, Function.update_self]
  | cons d pre ih =>
    rw [List.map_cons, List.mem_cons, not_or] at hpre
    refine ⟨?_, ih hl.2 hpre.2⟩
    rw [get_set_other h (Ne.symm hpre.1), hl.1]
    congr 2
    exact front_append pre rfl

theorem Linked.lt_next (hl : Linked h cs) : ∀ p ∈ cs.map Prod.fst, p < h.next := by
  induction cs with
  | nil => exact fun p hp => absurd hp List.not_mem_nil
  | cons c cs ih =>
    rw [List.map_cons, List.forall_mem_cons]
    exact ⟨HeapCells.lt_next hl.1, ih hl.2⟩

theorem Linked.new (hl : Linked h cs) (node : Node α) : Linked (h.new node) cs :=
  hl.frame fun p hp => by rw [get_new, Function.update_of_ne (Nat.ne_of_lt (hl.lt_next p hp))]

theorem Owns.fresh (ho : Owns h cs) : h.next ∉ cs.map Prod.fst :=
  fun hin => Nat.lt_irrefl _ (ho.linked.lt_next _ hin)

theorem Owns.length_le (ho : Owns h cs) : cs.length ≤ h.next := by
  have hsub : cs.map Prod.fst ⊆ List.range h.next := fun p hp =>
    List.mem_range.2 (ho.linked.lt_next p hp)
  have hle := (ho.nodup.subperm hsub).length_le
  rwa [List.length_map, List.length_range] at hle

section Operations

theorem live_set {node node' : Node α} (hp : h.get p = some node) {q : Ptr} {n : Node α}
    (hq : (h.set p node').get q = some n) : ∃ n', h.get q = some n' := by
  by_cases heq : q = p
  · exact ⟨node, heq ▸ hp⟩
  · exact ⟨n, (get_set_other h heq node').symm.trans hq⟩

theorem Owns.empty : Owns (.empty : Heap (Node α)) [] :=
  ⟨trivial, List.nodup_nil, fun _ _ hp => by cases hp⟩

theorem Owns.apart (ho : Owns h (pre ++ c :: post)) :
    c.1 ∉ pre.map Prod.fst ∧ c.1 ∉ post.map Prod.fst := by
  have hnd := ho.nodup
  rw [List.map_append, List.map_cons, List.nodup_middle, List.nodup_cons, List.mem_append,
    not_or] at hnd
  exact hnd.1

theorem Owns.put (ho : Owns h cs) (x : α) (next : Option Ptr) :
    let h' := (h.new ⟨x, none⟩).set h.next ⟨x, next⟩
    Linked h' cs ∧ h'.get h.next = some ⟨x, next⟩ ∧
      ∀ p node, h'.get p = some node → p ∈ h.next :: cs.map Prod.fst := by
  have hnew : (h.new ⟨x, none⟩).get h.next = some ⟨x, none⟩ := by
    rw [get_new, Function.update_self]
  refine ⟨(ho.linked.new _).set_other ho.fresh _, ?_, fun p node hp => ?_⟩
  · rw [get_set hnew, Function.update_self]
  · obtain ⟨n, hn⟩ := live_set hnew hp
    rw [get_new, Function.update_apply] at hn
    split at hn
    · next heq => exact heq ▸ List.mem_cons_self
    · exact List.mem_cons_of_mem _ (ho.live p n hn)

theorem Owns.put_front (ho : Owns h cs) (x : α) :
    Owns ((h.new ⟨x, none⟩).set h.next ⟨x, front cs⟩) ((h.next, x) :: cs) := by
  obtain ⟨hold, hnew, hlive⟩ := ho.put x (front cs)
  exact ⟨⟨hnew, hold⟩, List.nodup_cons.2 ⟨ho.fresh, ho.nodup⟩, hlive⟩

theorem Owns.put_behind (ho : Owns h (pre ++ c :: post)) (x : α) :
    Owns (((h.new ⟨x, none⟩).set h.next ⟨x, front post⟩).set c.1 ⟨c.2, some h.next⟩)
      (pre ++ c :: (h.next, x) :: post) := by
  obtain ⟨hold, hnew, hlive⟩ := ho.put x (front post)
  obtain ⟨hpre, hpost⟩ := ho.apart
  have hfresh := ho.fresh
  have hne : c.1 ≠ h.next := fun heq => hfresh (heq ▸ by simp)
  have hperm : ((pre ++ c :: (h.next, x) :: post).map Prod.fst).Perm
      (h.next :: (pre ++ c :: post).map Prod.fst) := by
    simp only [List.map_append, List.map_cons]
    exact ((List.Perm.swap _ _ _).append_left _).trans List.perm_middle
  refine ⟨?_, ?_, fun p node hp => ?_⟩
  · have hrest : Linked ((h.new ⟨x, none⟩).set h.next ⟨x, front post⟩) ((h.next, x) :: post) :=
      ⟨hnew, hold.behind.2⟩
    refine hold.relink hpre hrest ?_ c.2
    rw [List.map_cons, List.mem_cons, not_or]
    exact ⟨hne, hpost⟩
  · exact hperm.nodup_iff.2 (List.nodup_cons.2 ⟨hfresh, ho.nodup⟩)
  · obtain ⟨n, hn⟩ := live_set hold.at hp
    exact hperm.mem_iff.2 (hlive p n hn)

/-- Behind the last node, the new one can keep the null pointer that it was made with. -/
theorem Owns.put_last (ho : Owns h (pre ++ [c])) (x : α) :
    Owns ((h.new ⟨x, none⟩).set c.1 ⟨c.2, some h.next⟩) (pre ++ [c, (h.next, x)]) := by
  have hnew : (h.new ⟨x, none⟩).get h.next = some ⟨x, none⟩ := by
    rw [get_new, Function.update_self]
  have hput := ho.put_behind x
  rwa [front_nil, set_same hnew] at hput

theorem Owns.drop_front (ho : Owns h (c :: post)) : Owns (h.free c.1) post := by
  obtain ⟨hnot, hnd⟩ := List.nodup_cons.1 ho.nodup
  refine ⟨ho.linked.2.frame fun p hp => ?_, hnd, fun p node hp => ?_⟩
  · rw [get_free, Function.update_of_ne fun heq : p = c.1 => hnot (heq ▸ hp)]
  · rw [get_free, Function.update_apply] at hp
    split at hp
    · cases hp
    · next hne => exact (List.mem_cons.1 (ho.live p node hp)).resolve_left hne

theorem Owns.drop_behind {d : Ptr × α} (ho : Owns h (pre ++ c :: d :: post)) :
    Owns ((h.set c.1 ⟨c.2, front post⟩).free d.1) (pre ++ c :: post) := by
  obtain ⟨hpre, hrest⟩ := ho.apart
  rw [List.map_cons, List.mem_cons, not_or] at hrest
  have hperm : ((pre ++ c :: d :: post).map Prod.fst).Perm
      (d.1 :: (pre ++ c :: post).map Prod.fst) := by
    simp only [List.map_append, List.map_cons]
    exact ((List.Perm.swap _ _ _).append_left _).trans List.perm_middle
  obtain ⟨hnot, hnd⟩ := List.nodup_cons.1 (hperm.nodup_iff.1 ho.nodup)
  have hlinked := ho.linked.relink hpre ho.linked.behind.2.2 hrest.2 c.2
  refine ⟨hlinked.frame fun p hp => ?_, hnd, fun p node hp => ?_⟩
  · rw [get_free, Function.update_of_ne fun heq : p = d.1 => hnot (heq ▸ hp)]
  · rw [get_free, Function.update_apply] at hp
    split at hp
    · cases hp
    · next hne =>
      obtain ⟨n, hn⟩ := live_set ho.linked.at hp
      exact (List.mem_cons.1 (hperm.mem_iff.1 (ho.live p n hn))).resolve_left hne

theorem Owns.set_data (ho : Owns h (pre ++ c :: post)) (x : α) :
    Owns (h.set c.1 ⟨x, front post⟩) (pre ++ (c.1, x) :: post) := by
  obtain ⟨hpre, hpost⟩ := ho.apart
  have hptrs : (pre ++ (c.1, x) :: post).map Prod.fst = (pre ++ c :: post).map Prod.fst := by
    rw [List.map_append, List.map_append, List.map_cons, List.map_cons]
  refine ⟨ho.linked.relink hpre ho.linked.behind.2 hpost x, hptrs ▸ ho.nodup, fun p node hp => ?_⟩
  obtain ⟨n, hn⟩ := live_set ho.linked.at hp
  exact hptrs ▸ ho.live p n hn

end Operations

end Srsirc.LinkedNodes
