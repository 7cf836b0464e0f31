import Srsirc.Dictionary

namespace Srsirc.Allocations

open CharMap BucketList StringMap StringMapEntries Dictionary

/-- The next `k` allocations succeed. -/
def Granted (k : Nat) (al : Alloc) : Prop := false ∉ al.take k

instance (k : Nat) (al : Alloc) : Decidable (Granted k al) :=
  inferInstanceAs (Decidable (false ∉ al.take k))

theorem granted_zero (al : Alloc) : Granted 0 al := by
  rw [Granted, List.take_zero]
  exact List.not_mem_nil

theorem granted_succ (k : Nat) (al : Alloc) :
    Granted (k + 1) al ↔ (malloc al).1 = true ∧ Granted k (malloc al).2 := by
  rcases al with _ | ⟨_ | _, al⟩ <;> simp [Granted, malloc]

theorem malloc_snd (al : Alloc) : (malloc al).2 = al.drop 1 := by
  cases al <;> rfl

theorem granted_add (j k : Nat) (al : Alloc) :
    Granted (j + k) al ↔ Granted j al ∧ Granted k (al.drop j) := by
  rw [Granted, Granted, Granted, List.take_add, List.mem_append, not_or]

variable {n : Nat} {V : Type}

theorem putIn_old {h : Skmap n V} {kl : Bucklist V} {key : Str} {e : V}
    (hf : find h.cm kl key = some e)
    (i : Fin n) (elem : V) (al : Alloc) :
    putIn h i kl key elem al = (true, setBuck h i (replace h.cm kl key elem).2, al) := by
  simp only [putIn, hf]

theorem putIn_new {h : Skmap n V} {kl : Bucklist V} {key : Str} (hf : find h.cm kl key = none)
    (i : Fin n) (elem : V) (al : Alloc) :
    (Granted 2 al → putIn h i kl key elem al = (true, (putIn h i kl key elem []).2.1, al.drop 2)) ∧
    (¬Granted 2 al → ∃ al', putIn h i kl key elem al = (false, h, al')) := by
  rcases al with _ | ⟨_ | _, _ | ⟨_ | _, al⟩⟩ <;> simp [Granted, putIn, hf, malloc,
    BucketList.insert]

variable [NeZero n]

def room (h : Skmap n V) (key : Str) : Nat :=
  match h.buck (slot h.cm key) with
  | none => 3
  | some kl => if (find h.cm kl key).isSome then 0 else 2

/-- A put succeeds if its allocations do. -/
theorem put_room (h : Skmap n V) (key : Str) (elem : V) (al : Alloc) :
    (Granted (room h key) al →
      put h key elem al = (true, (put h key elem []).2.1, al.drop (room h key))) ∧
    (¬Granted (room h key) al → ∃ al', put h key elem al = (false, h, al')) := by
  cases hb : h.buck (slot h.cm key) with
  | some kl =>
    simp only [put, room, hb]
    cases hf : find h.cm kl key with
    | some e =>
      simp only [putIn_old hf, Option.isSome_some, if_true, List.drop_zero, implies_true, true_and]
      exact fun hn => absurd (granted_zero al) hn
    | none =>
      simp only [Option.isSome_none, Bool.false_eq_true, if_false]
      exact putIn_new hf _ elem al
  | none =>
    have hnew : find h.cm (BucketList.init : Bucklist V) key = none := rfl
    simp only [put, room, hb, granted_succ 2, malloc_nil]
    cases hm : malloc al with
    | mk ok al' =>
      obtain rfl : al' = al.drop 1 := by rw [← malloc_snd, hm]
      cases ok with
      | false => exact ⟨fun hg => absurd hg.1 Bool.false_ne_true, fun _ => ⟨_, rfl⟩⟩
      | true =>
        simpa [List.drop_drop] using putIn_new hnew (slot h.cm key) elem (al.drop 1)


theorem get_of_room {h : Skmap n V} {key : Str} (hr : room h key ≠ 0) :
    StringMap.get h key = none := by
  rw [StringMap.get]
  rw [room] at hr
  cases hb : h.buck (slot h.cm key) with
  | none => rfl
  | some kl =>
    cases hf : find h.cm kl key with
    | none => exact hf
    | some e => simp [hb, hf] at hr

theorem room_ne_zero {h : Skmap n V} {key : Str} {al : Alloc} (hg : ¬Granted (room h key) al) :
    room h key ≠ 0 := by
  intro hr
  rw [hr] at hg
  exact hg (granted_zero al)

/-- A put that fails was one of a new key, and leaves the map as it was. -/
theorem put_failed {h : Skmap n V} {key : Str} {elem : V} {al : Alloc}
    (hf : (put h key elem al).1 = false) :
    (put h key elem al).2.1 = h ∧ StringMap.get h key = none := by
  obtain ⟨hyes, hno⟩ := put_room h key elem al
  by_cases hg : Granted (room h key) al
  · rw [hyes hg] at hf
    cases hf
  · obtain ⟨al', hput⟩ := hno hg
    exact ⟨by rw [hput], get_of_room (room_ne_zero hg)⟩

theorem put_granted {d : Dict n V} {key : Str} {al : Alloc}
    (hg : Granted (room d.map key) al) (v : V) :
    d.put key v al = (true, d.store key v, al.drop (room d.map key)) := by
  have hput := (put_room d.map key v al).1 hg
  have hmap : (d.put key v al).2.1 = d.store key v := by
    simp only [Dict.put, Dict.store, hput]
  rw [← hmap]
  simp only [Dict.put, hput]

theorem put_refused {d : Dict n V} {key : Str} {al : Alloc}
    (hg : ¬Granted (room d.map key) al) (v : V) :
    d.lookup (norm d.cm key) = none ∧ ∃ al', d.put key v al = (false, d, al') := by
  constructor
  · rw [← Dictionary.get_eq]
    exact get_of_room (room_ne_zero hg)
  · obtain ⟨al', hput⟩ := (put_room d.map key v al).2 hg
    exact ⟨al', by simp only [Dict.put, hput]⟩

theorem put_true {d d' : Dict n V} {key : Str} {v : V} {al al' : Alloc}
    (h : d.put key v al = (true, d', al')) : d' = d.store key v := by
  by_cases hg : Granted (room d.map key) al
  · rw [put_granted hg] at h
    cases h
    rfl
  · obtain ⟨_, al', hput⟩ := put_refused hg v
    rw [hput] at h
    cases h

theorem put_false {d d' : Dict n V} {key : Str} {v : V} {al al' : Alloc}
    (h : d.put key v al = (false, d', al')) : d' = d ∧ d.lookup (norm d.cm key) = none := by
  by_cases hg : Granted (room d.map key) al
  · rw [put_granted hg] at h
    cases h
  · obtain ⟨hnone, al', hput⟩ := put_refused hg v
    rw [hput] at h
    cases h
    exact ⟨rfl, hnone⟩

end Srsirc.Allocations
