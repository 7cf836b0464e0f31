import Mathlib.Data.List.Perm.Basic
import Mathlib.Data.List.ReduceOption

namespace Srsirc.Slots

variable {α : Type} {l : List (Option α)} {i j : Nat} {a : α}

theorem set_swap {β : Type} {l : List β} (h : i < l.length) (x : β) :
    (l[i] :: l.set i x).Perm (x :: l) :=
  (((List.set_perm_cons_eraseIdx h x).cons _).trans (List.Perm.swap _ _ _)).trans
    ((List.getElem_cons_eraseIdx_perm h).cons x)

theorem perm_reduce {l l' : List (Option α)} (h : l.Perm l') :
    l.reduceOption.Perm l'.reduceOption :=
  h.filterMap id

theorem reduce_fill (h : l[i]? = some none) (a : α) :
    (l.set i (some a)).reduceOption.Perm (a :: l.reduceOption) := by
  obtain ⟨hi, hfree⟩ := List.getElem?_eq_some_iff.1 h
  have hp := perm_reduce (set_swap hi (some a))
  rwa [hfree, List.reduceOption_cons_of_none, List.reduceOption_cons_of_some] at hp

theorem reduce_clear (h : l[i]? = some (some a)) :
    (a :: (l.set i none).reduceOption).Perm l.reduceOption := by
  obtain ⟨hi, ha⟩ := List.getElem?_eq_some_iff.1 h
  have hp := perm_reduce (set_swap hi none)
  rwa [ha, List.reduceOption_cons_of_none, List.reduceOption_cons_of_some] at hp

theorem reduce_move (h : l[i]? = some (some a)) (hj : j < l.length) (hij : j ≠ i) :
    (a :: ((l.set i (l.getD j none)).set j none).reduceOption).Perm l.reduceOption := by
  obtain ⟨hi, ha⟩ := List.getElem?_eq_some_iff.1 h
  have hget : l.getD j none = l[j] := by simp [hj]
  have hmove := set_swap hi l[j]
  have hclear := set_swap (l := l.set i l[j]) (i := j) (by simpa using hj) none
  rw [List.getElem_set_ne hij.symm] at hclear
  rw [ha] at hmove
  have hp : (some a :: (l.set i l[j]).set j none).Perm (none :: l) := by
    refine (List.perm_cons l[j]).1 ?_
    exact ((List.Perm.swap _ _ _).trans (hclear.cons _)).trans
      (((List.Perm.swap _ _ _).trans (hmove.cons _)).trans (List.Perm.swap _ _ _))
  have hr := perm_reduce hp
  rwa [List.reduceOption_cons_of_none, List.reduceOption_cons_of_some, ← hget] at hr

theorem firstFree (h : none ∈ l) : l[(l.takeWhile Option.isSome).length]? = some none := by
  induction l with
  | nil => cases h
  | cons o l ih =>
    cases o with
    | none => rfl
    | some a =>
      obtain h | h := List.mem_cons.1 h
      · cases h
      · exact ih h

/-- The slots that are taken come first. -/
def Compact (l : List (Option α)) : Prop :=
  ∃ (es : List α) (n : Nat), l = es.map some ++ List.replicate n none

theorem reduce_front (es : List α) (n : Nat) :
    (es.map some ++ List.replicate n none).reduceOption = es := by
  rw [List.reduceOption_append, List.reduceOption_replicate_none, List.append_nil]
  induction es with
  | nil => rfl
  | cons e es ih => rw [List.map_cons, List.reduceOption_cons_of_some, ih]

theorem takeWhile_front (es : List α) (n : Nat) :
    (es.map some ++ List.replicate n none).takeWhile Option.isSome = es.map some := by
  induction es with
  | nil => cases n <;> rfl
  | cons e es ih => simp [ih]

theorem Compact.takeWhile (h : Compact l) :
    l.takeWhile Option.isSome = l.reduceOption.map some := by
  obtain ⟨es, n, rfl⟩ := h
  rw [takeWhile_front, reduce_front]

theorem compact_empty (n : Nat) : Compact (List.replicate n (none : Option α)) := ⟨[], n, rfl⟩

theorem compact_cleared (l : List (Option α)) : Compact (l.map fun _ => (none : Option α)) := by
  rw [List.map_const']
  exact compact_empty l.length

theorem Compact.grow (h : Compact l) (k : Nat) : Compact (l ++ List.replicate k none) := by
  obtain ⟨es, n, rfl⟩ := h
  exact ⟨es, n + k, by rw [List.append_assoc, List.replicate_append_replicate]⟩

theorem Compact.fill (h : Compact l) (hfree : none ∈ l) (o : Option α) :
    Compact (l.set (l.takeWhile Option.isSome).length o) := by
  obtain ⟨es, n, rfl⟩ := h
  cases n with
  | zero => simp at hfree
  | succ n =>
    rw [takeWhile_front, List.set_append_right _ _ (Nat.le_refl _), Nat.sub_self,
      List.replicate_succ, List.set_cons_zero]
    cases o with
    | none => exact ⟨es, n + 1, rfl⟩
    | some a => exact ⟨es ++ [a], n, by simp⟩

theorem last_front (es : List α) (n : Nat) :
    let l := es.map some ++ List.replicate n none
    l.length - 1 - (l.reverse.takeWhile Option.isNone).length = es.length - 1 := by
  have hnone : (es.map some).reverse.takeWhile Option.isNone = [] := by
    rw [← List.map_reverse]
    cases es.reverse <;> rfl
  have hback : ((es.map some ++ List.replicate n none).reverse.takeWhile Option.isNone) =
      List.replicate n none := by
    rw [List.reverse_append, List.reverse_replicate, List.takeWhile_append_of_pos, hnone,
      List.append_nil]
    intro o ho
    rw [List.eq_of_mem_replicate ho]
    rfl
  dsimp only
  rw [hback, List.length_append, List.length_map, List.length_replicate]
  omega

theorem set_last {es : List α} (hi : i = es.length - 1) (hpos : 0 < es.length) (n : Nat) :
    (es.map some ++ List.replicate n none).set i none =
      es.dropLast.map some ++ List.replicate (n + 1) none := by
  obtain ⟨es, e, rfl⟩ := List.eq_nil_or_concat es |>.resolve_left (List.length_pos_iff.1 hpos)
  subst hi
  simp [List.replicate_succ]

/-- A slot that is taken is given up, and the last one that is taken moves there. -/
theorem Compact.move (h : Compact l) (hi : l[i]? = some (some a)) {last : Nat}
    (hlast : last = l.length - 1 - (l.reverse.takeWhile Option.isNone).length) :
    Compact (if last = i then l.set i none else (l.set i (l.getD last none)).set last none) := by
  obtain ⟨es, n, rfl⟩ := h
  have hlt : i < es.length := by
    by_contra hge
    rw [List.getElem?_append_right (by simpa using hge), List.getElem?_replicate] at hi
    split at hi <;> cases hi
  rw [last_front] at hlast
  split
  · next heq =>
    rw [set_last (heq.symm.trans hlast) (by omega)]
    exact ⟨_, _, rfl⟩
  · have hin : last < es.length := by omega
    have hget : (es.map some ++ List.replicate n none).getD last none = some es[last] := by
      simp [List.getElem?_append, hin]
    rw [hget, List.set_append_left _ _ (by simpa using hlt), ← List.map_set,
      set_last (by simpa using hlast) (by simpa using Nat.zero_lt_of_lt hlt)]
    exact ⟨_, _, rfl⟩

end Srsirc.Slots
