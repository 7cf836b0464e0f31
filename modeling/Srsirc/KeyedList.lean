import Mathlib.Data.List.Nodup
import Mathlib.Data.List.Perm.Basic
import Mathlib.Tactic.Common

namespace Srsirc.KeyedList

variable {K N V : Type}

def keys (f : K → N) (l : List (K × V)) : List N := l.map fun e => f e.1

def vals (l : List (K × V)) : List V := l.map Prod.snd

@[simp] theorem keys_nil (f : K → N) : keys f ([] : List (K × V)) = [] := rfl

@[simp] theorem keys_cons (f : K → N) (e : K × V) (l : List (K × V)) :
    keys f (e :: l) = f e.1 :: keys f l := rfl

theorem mem_keys (f : K → N) (κ : N) (l : List (K × V)) :
    κ ∈ keys f l ↔ ∃ k v, (k, v) ∈ l ∧ f k = κ := by simp [keys]

variable [DecidableEq N]

/-- Association lists whose keys count as equal when `f` identifies them. -/
def lookup (f : K → N) (κ : N) : List (K × V) → Option V
  | [] => none
  | e :: l => if f e.1 = κ then some e.2 else lookup f κ l

def erase (f : K → N) (κ : N) : List (K × V) → List (K × V)
  | [] => []
  | e :: l => if f e.1 = κ then l else e :: erase f κ l

/-- Overwrite the value of the first matching entry; its key stays as it was. -/
def replace (f : K → N) (κ : N) (v : V) : List (K × V) → List (K × V)
  | [] => []
  | e :: l => if f e.1 = κ then (e.1, v) :: l else e :: replace f κ v l

theorem lookup_eq_none_iff (f : K → N) (κ : N) (l : List (K × V)) :
    lookup f κ l = none ↔ κ ∉ keys f l := by
  induction l with
  | nil => simp [lookup]
  | cons e l ih => by_cases h : f e.1 = κ <;> simp [lookup, h, ih, eq_comm, Ne.symm]

theorem mem_of_lookup {f : K → N} {κ : N} {l : List (K × V)} {v : V}
    (h : lookup f κ l = some v) : ∃ k, (k, v) ∈ l ∧ f k = κ := by
  induction l with
  | nil => simp [lookup] at h
  | cons e l ih =>
    by_cases he : f e.1 = κ
    · obtain rfl : e.2 = v := by simpa [lookup, he] using h
      exact ⟨e.1, by simp, he⟩
    · obtain ⟨k, hk, hf⟩ := ih (by simpa [lookup, he] using h)
      exact ⟨k, by simp [hk], hf⟩

theorem lookup_of_mem {f : K → N} {l : List (K × V)} (hd : (keys f l).Nodup) {k : K} {v : V}
    (h : (k, v) ∈ l) : lookup f (f k) l = some v := by
  induction l with
  | nil => simp at h
  | cons e l ih =>
    rw [keys_cons, List.nodup_cons] at hd
    obtain ⟨hn, hd⟩ := hd
    rcases List.mem_cons.mp h with rfl | h
    · simp [lookup]
    · have hne : f e.1 ≠ f k := fun he => hn (he ▸ List.mem_map.mpr ⟨(k, v), h, rfl⟩)
      simpa [lookup, hne] using ih hd h

/-- With pairwise different keys, finding an entry and storing it are the same thing. -/
theorem lookup_eq_some_iff {f : K → N} {l : List (K × V)} (hd : (keys f l).Nodup) (κ : N) (v : V) :
    lookup f κ l = some v ↔ ∃ k, (k, v) ∈ l ∧ f k = κ := by
  constructor
  · exact mem_of_lookup
  · rintro ⟨k, hk, rfl⟩
    exact lookup_of_mem hd hk

theorem lookup_perm {f : K → N} {l m : List (K × V)} (hd : (keys f l).Nodup) (hp : l.Perm m)
    (κ : N) : lookup f κ l = lookup f κ m := by
  have hm : (keys f m).Nodup := (hp.map _).nodup_iff.mp hd
  ext v
  rw [lookup_eq_some_iff hd, lookup_eq_some_iff hm]
  simp [hp.mem_iff]

theorem perm_erase {f : K → N} {κ : N} {l : List (K × V)} {v : V} (h : lookup f κ l = some v) :
    ∃ k, f k = κ ∧ l.Perm ((k, v) :: erase f κ l) := by
  induction l with
  | nil => simp [lookup] at h
  | cons e l ih =>
    by_cases he : f e.1 = κ
    · obtain rfl : e.2 = v := by simpa [lookup, he] using h
      exact ⟨e.1, he, by simp [erase, he]⟩
    · obtain ⟨k, hk, hp⟩ := ih (by simpa [lookup, he] using h)
      refine ⟨k, hk, ?_⟩
      rw [erase, if_neg he]
      exact (hp.cons e).trans (List.Perm.swap _ _ _)

theorem perm_replace {f : K → N} {κ : N} {l : List (K × V)} {w : V} (h : lookup f κ l = some w)
    (v : V) : ∃ k, f k = κ ∧ (replace f κ v l).Perm ((k, v) :: erase f κ l) := by
  induction l with
  | nil => simp [lookup] at h
  | cons e l ih =>
    by_cases he : f e.1 = κ
    · exact ⟨e.1, he, by simp [replace, erase, he]⟩
    · obtain ⟨k, hk, hp⟩ := ih (by simpa [lookup, he] using h)
      refine ⟨k, hk, ?_⟩
      rw [erase, if_neg he, replace, if_neg he]
      exact (hp.cons e).trans (List.Perm.swap _ _ _)

theorem erase_of_lookup_none {f : K → N} {κ : N} {l : List (K × V)} (h : lookup f κ l = none) :
    erase f κ l = l := by
  induction l with
  | nil => rfl
  | cons e l ih =>
    by_cases he : f e.1 = κ
    · simp [lookup, he] at h
    · simp [erase, he, ih (by simpa [lookup, he] using h)]

theorem keys_erase_sublist (f : K → N) (κ : N) (l : List (K × V)) :
    (keys f (erase f κ l)).Sublist (keys f l) := by
  induction l with
  | nil => simp [erase]
  | cons e l ih =>
    by_cases h : f e.1 = κ
    · simp [erase, h]
    · simpa [erase, h] using ih

theorem erase_eq_filter {f : K → N} {l : List (K × V)} (hd : (keys f l).Nodup) (κ : N) :
    erase f κ l = l.filter fun e => f e.1 ≠ κ := by
  induction l with
  | nil => rfl
  | cons e l ih =>
    rw [keys_cons, List.nodup_cons] at hd
    by_cases he : f e.1 = κ
    · have hne : ∀ d ∈ l, f d.1 ≠ κ := fun d hm hdκ =>
        hd.1 ((mem_keys f _ l).mpr ⟨d.1, d.2, hm, hdκ.trans he.symm⟩)
      have hl : l.filter (fun e => f e.1 ≠ κ) = l := by
        rw [List.filter_eq_self]
        exact fun d hm => decide_eq_true (hne d hm)
      rw [List.filter_cons_of_neg (by simp [he]), hl, erase, if_pos he]
    · simp [erase, he, ih hd.2]

theorem erase_perm {f : K → N} {l m : List (K × V)} (hd : (keys f l).Nodup) (hp : l.Perm m)
    (κ : N) : (erase f κ l).Perm (erase f κ m) := by
  have hm : (keys f m).Nodup := (hp.map _).nodup_iff.mp hd
  rw [erase_eq_filter hd, erase_eq_filter hm]
  exact hp.filter _

theorem erase_append {f : K → N} {κ : N} (l m : List (K × V)) (h : κ ∉ keys f m) :
    erase f κ (l ++ m) = erase f κ l ++ m := by
  induction l with
  | nil => exact erase_of_lookup_none ((lookup_eq_none_iff f κ m).mpr h)
  | cons e l ih => by_cases he : f e.1 = κ <;> simp [erase, he, ih]

theorem lookup_erase {f : K → N} {l : List (K × V)} (hd : (keys f l).Nodup) (κ κ' : N) :
    lookup f κ' (erase f κ l) = if κ' = κ then none else lookup f κ' l := by
  induction l with
  | nil => simp [erase, lookup]
  | cons e l ih =>
    rw [keys_cons, List.nodup_cons] at hd
    obtain ⟨hn, hd⟩ := hd
    specialize ih hd
    by_cases he : f e.1 = κ
    · rw [he] at hn
      by_cases hk : κ' = κ
      · simp [erase, he, hk, (lookup_eq_none_iff f κ l).mpr hn]
      · simp [erase, he, hk, lookup, Ne.symm hk]
    · by_cases hf : f e.1 = κ'
      · have hk : κ' ≠ κ := fun hk => he (hf.trans hk)
        simp [erase, lookup, hf, hk]
      · simp [erase, he, lookup, hf, ih]

end Srsirc.KeyedList
