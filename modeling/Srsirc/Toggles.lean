import Mathlib.Data.List.Induction
import Mathlib.Data.List.Nodup
import Mathlib.Data.List.Perm.Subperm
import Mathlib.Tactic.Common

namespace Srsirc.Toggles

variable {α : Type} [DecidableEq α]

/-- What was switched last to on, in a list of switches. -/
def On (es : List (α × Bool)) (a : α) : Prop :=
  (es.reverse.find? (·.1 = a)).map Prod.snd = some true

instance (es : List (α × Bool)) (a : α) : Decidable (On es a) := inferInstanceAs (Decidable (_ = _))

/-- The `k`-th switch turns `a` on, which was off. -/
def Sets (es : List (α × Bool)) (k : Nat) (a : α) : Prop :=
  es[k]? = some (a, true) ∧ ¬On (es.take k) a

def LastSet (es : List (α × Bool)) (k : Nat) (a : α) : Prop :=
  Sets es k a ∧ ∀ j, Sets es j a → j ≤ k

/-- A list of what is on, after one switch more. One that changes nothing is ignored. -/
def throw (l : List α) (e : α × Bool) : List α :=
  if e.2 = decide (e.1 ∈ l) then l else if e.2 then l ++ [e.1] else l.erase e.1

def switched (es : List (α × Bool)) : List α := es.foldl throw []

/-- No more than `n` different elements satisfy `p`. -/
def AtMost (n : Nat) (p : α → Prop) : Prop := ∀ l : List α, l.Nodup → (∀ a ∈ l, p a) → l.length ≤ n

variable {es : List (α × Bool)} {e : α × Bool} {a b : α} {k : Nat}

theorem on_nil : ¬On [] a := fun h => by cases h

theorem on_snoc : On (es ++ [e]) a ↔ if e.1 = a then e.2 = true else On es a := by
  rw [On, List.reverse_append, List.reverse_singleton, List.singleton_append, List.find?_cons]
  by_cases h : e.1 = a
  · simp [h]
  · simp [h, On]

theorem switched_snoc : switched (es ++ [e]) = throw (switched es) e := List.foldl_concat _ _ _ _

theorem nodup_throw {l : List α} (hl : l.Nodup) : (throw l e).Nodup := by
  rw [throw]
  split
  · exact hl
  · next hne =>
    split
    · next hon =>
      have hnot : e.1 ∉ l := fun hin => hne (by rw [hon, decide_eq_true hin])
      exact hl.append (List.nodup_singleton _) (List.disjoint_singleton.2 hnot)
    · exact hl.erase _

theorem nodup_switched (es : List (α × Bool)) : (switched es).Nodup := by
  induction es using List.reverseRecOn with
  | nil => exact List.nodup_nil
  | append_singleton es e ih =>
    rw [switched_snoc]
    exact nodup_throw ih

theorem mem_throw {l : List α} (hl : l.Nodup) :
    a ∈ throw l e ↔ if e.1 = a then e.2 = true else a ∈ l := by
  obtain ⟨c, on⟩ := e
  rw [throw]
  dsimp only
  by_cases hc : c ∈ l
  · cases on with
    | true => by_cases h : c = a <;> simp_all
    | false => by_cases h : c = a <;> simp_all [hl.mem_erase_iff, eq_comm]
  · cases on with
    | true => by_cases h : c = a <;> simp_all [eq_comm]
    | false => by_cases h : c = a <;> simp_all

theorem mem_switched (es : List (α × Bool)) : a ∈ switched es ↔ On es a := by
  induction es using List.reverseRecOn with
  | nil => exact iff_of_false List.not_mem_nil on_nil
  | append_singleton es e ih => rw [switched_snoc, mem_throw (nodup_switched es), on_snoc, ih]

theorem on_mem (h : On es a) : (a, true) ∈ es := by
  obtain ⟨e, hfind, hon⟩ := Option.map_eq_some_iff.1 h
  have hsame : e.1 = a := by simpa using List.find?_some hfind
  obtain rfl : e = (a, true) := Prod.ext hsame hon
  exact List.mem_reverse.1 (List.mem_of_find?_eq_some hfind)

theorem atMost_on (es : List (α × Bool)) : AtMost es.length (On es) := by
  intro l hl hon
  have hsub : l ⊆ es.map Prod.fst := fun a ha => List.mem_map_of_mem (on_mem (hon a ha))
  exact Nat.le_trans (hl.subperm hsub).length_le (Nat.le_of_eq (List.length_map _))

section Order

theorem sets_lt (h : Sets es k a) : k < es.length := (List.getElem?_eq_some_iff.1 h.1).1

theorem sets_snoc_lt (hk : k < es.length) : Sets (es ++ [e]) k a ↔ Sets es k a := by
  rw [Sets, Sets, List.getElem?_append_left hk, List.take_append_of_le_length (Nat.le_of_lt hk)]

theorem sets_snoc_last : Sets (es ++ [e]) es.length a ↔ e = (a, true) ∧ ¬On es a := by
  rw [Sets, List.getElem?_append_right (Nat.le_refl _), Nat.sub_self, List.take_left]
  simp

theorem sets_snoc (h : Sets (es ++ [e]) k a) :
    Sets es k a ∨ k = es.length ∧ e = (a, true) ∧ ¬On es a := by
  have hlt := sets_lt h
  rw [List.length_append, List.length_singleton] at hlt
  obtain hk | rfl := Nat.lt_succ_iff_lt_or_eq.1 hlt
  · exact Or.inl ((sets_snoc_lt hk).1 h)
  · exact Or.inr ⟨rfl, sets_snoc_last.1 h⟩

theorem lastSet_new (he : e = (a, true)) (hoff : ¬On es a) : LastSet (es ++ [e]) es.length a := by
  refine ⟨sets_snoc_last.2 ⟨he, hoff⟩, fun j hj => ?_⟩
  have hlt := sets_lt hj
  rw [List.length_append, List.length_singleton] at hlt
  exact Nat.le_of_lt_succ hlt

theorem lastSet_old (h : LastSet es k a) (hno : e = (a, true) → On es a) :
    LastSet (es ++ [e]) k a := by
  refine ⟨(sets_snoc_lt (sets_lt h.1)).2 h.1, fun j hj => ?_⟩
  obtain hj | ⟨-, he, hoff⟩ := sets_snoc hj
  · exact h.2 j hj
  · exact absurd (hno he) hoff

theorem on_lastSet (es : List (α × Bool)) : On es a → ∃ k, LastSet es k a := by
  induction es using List.reverseRecOn with
  | nil => exact fun h => absurd h on_nil
  | append_singleton es e ih =>
    intro h
    by_cases hon : On es a
    · obtain ⟨k, hk⟩ := ih hon
      exact ⟨k, lastSet_old hk fun _ => hon⟩
    · refine ⟨es.length, lastSet_new ?_ hon⟩
      rw [on_snoc] at h
      split at h
      · next hsame => exact Prod.ext hsame h
      · exact absurd h hon

/-- `a` was turned on before `b`. -/
def Before (es : List (α × Bool)) (a b : α) : Prop :=
  ∃ j k, LastSet es j a ∧ LastSet es k b ∧ j < k

theorem Before.old (h : Before es a b) (ha : e = (a, true) → On es a)
    (hb : e = (b, true) → On es b) : Before (es ++ [e]) a b := by
  obtain ⟨j, k, hj, hk, hlt⟩ := h
  exact ⟨j, k, lastSet_old hj ha, lastSet_old hk hb, hlt⟩

theorem before_throw {l : List α} (hl : ∀ a ∈ l, On es a) (hp : l.Pairwise (Before es))
    (hnot : e.1 ∉ l → ¬On es e.1) : (throw l e).Pairwise (Before (es ++ [e])) := by
  have hold : l.Pairwise (Before (es ++ [e])) :=
    hp.imp_of_mem fun ha hb h => h.old (fun _ => hl _ ha) fun _ => hl _ hb
  rw [throw]
  split
  · exact hold
  · next hne =>
    split
    · next hon =>
      have hout : e.1 ∉ l := fun hin => hne (by rw [hon, decide_eq_true hin])
      refine List.pairwise_append.2 ⟨hold, List.pairwise_singleton _ _, fun a ha b hb => ?_⟩
      obtain rfl := List.mem_singleton.1 hb
      obtain ⟨j, hj⟩ := on_lastSet es (hl a ha)
      exact ⟨j, es.length, lastSet_old hj fun _ => hl a ha,
        lastSet_new (Prod.ext rfl hon) (hnot hout), sets_lt hj.1⟩
    · exact hold.sublist List.erase_sublist

/-- The list is in the order in which its elements were turned on. -/
theorem before_switched (es : List (α × Bool)) : (switched es).Pairwise (Before es) := by
  induction es using List.reverseRecOn with
  | nil => exact List.Pairwise.nil
  | append_singleton es e ih =>
    rw [switched_snoc]
    exact before_throw (fun a ha => (mem_switched es).1 ha) ih (mt (mem_switched es).2)

end Order

end Srsirc.Toggles
