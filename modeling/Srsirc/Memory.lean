import Mathlib.Data.List.TakeWhile

namespace Srsirc.Memory

/-- A block of bytes. A pointer into it is an offset. -/
abbrev Mem := List UInt8

def cstr (mem : Mem) (p : Nat) : List UInt8 := (mem.drop p).takeWhile (· != 0)

section Stop

variable {α : Type} {p : α → Bool} {z : α}

theorem takeWhile_append_stop (hz : p z = false) (s post : List α) :
    (s ++ z :: post).takeWhile p = s.takeWhile p := by
  induction s with
  | nil => simp [hz]
  | cons c s ih => by_cases hc : p c = true <;> simp [hc, ih]

theorem dropWhile_append_stop (hz : p z = false) (s post : List α) :
    (s ++ z :: post).dropWhile p = s.dropWhile p ++ z :: post := by
  induction s with
  | nil => simp [hz]
  | cons c s ih => by_cases hc : p c = true <;> simp [hc, ih]

theorem getElem?_takeWhile_length {l : List α} (h : ∃ c ∈ l, p c = false) :
    ∃ c, l[(l.takeWhile p).length]? = some c ∧ p c = false := by
  induction l with
  | nil => simp at h
  | cons d l ih =>
    by_cases hd : p d = true
    · have hl : ∃ c ∈ l, p c = false := by simpa [hd] using h
      simpa [hd] using ih hl
    · exact ⟨d, by simp [hd], by simpa using hd⟩

end Stop

theorem takeWhile_terminated (s post : Mem) :
    (s ++ 0 :: post).takeWhile (· != 0) = s.takeWhile (· != 0) :=
  takeWhile_append_stop rfl s post

theorem takeWhile_nonzero {s : Mem} (hs : ∀ c ∈ s, c ≠ 0) : s.takeWhile (· != 0) = s := by
  rw [List.takeWhile_eq_self_iff]
  simpa using hs

theorem terminated_split (s post : Mem) :
    s ++ 0 :: post = s.takeWhile (· != 0) ++ 0 :: (s.dropWhile (· != 0) ++ 0 :: post).tail := by
  have hhead : s.dropWhile (· != 0) ++ 0 :: post =
      0 :: (s.dropWhile (· != 0) ++ 0 :: post).tail := by
    cases hd : s.dropWhile (· != 0) with
    | nil => rfl
    | cons c t =>
      have hc := List.head?_dropWhile_not (· != 0) s
      rw [hd] at hc
      have hc : c = 0 := by simpa using hc
      rw [hc]
      rfl
  rw [← hhead, ← List.append_assoc, List.takeWhile_append_dropWhile]

theorem takeWhile_ne_zero (s : Mem) : ∀ c ∈ s.takeWhile (· != 0), c ≠ 0 := by
  intro c hc
  simpa using List.mem_takeWhile_imp hc

theorem cstr_at {pre s post : Mem} {p : Nat} (hp : p = pre.length) :
    cstr (pre ++ (s ++ 0 :: post)) p = s.takeWhile (· != 0) := by
  rw [cstr, hp, List.drop_left, takeWhile_terminated]

theorem length_cstr_le (s : Mem) : (s.takeWhile (· != 0)).length ≤ s.length :=
  (List.takeWhile_sublist _).length_le

/-- A pointer at a terminated string inside the `len` bytes from `start`. -/
structure Inside (mem : Mem) (start len p : Nat) : Prop where
  start_le : start ≤ p
  le_end : p + (cstr mem p).length ≤ start + len
  terminated : mem[p + (cstr mem p).length]? = some 0

theorem Inside.mono {mem : Mem} {start start' len len' p : Nat} (h : Inside mem start' len' p)
    (hs : start ≤ start') (he : start' + len' ≤ start + len) : Inside mem start len p :=
  ⟨hs.trans h.start_le, h.le_end.trans he, h.terminated⟩

theorem inside_at {pre s post : Mem} {p : Nat} (hp : p = pre.length) :
    Inside (pre ++ (s ++ 0 :: post)) p s.length p := by
  have hlen := length_cstr_le s
  refine ⟨Nat.le_refl _, ?_, ?_⟩
  · rw [cstr_at hp]
    omega
  · obtain ⟨c, hc, h0⟩ := getElem?_takeWhile_length (p := fun c : UInt8 => c != 0)
      (l := s ++ 0 :: post) ⟨0, by simp, rfl⟩
    rw [takeWhile_terminated] at hc
    rw [cstr_at hp, List.getElem?_append_right (by omega), hp, Nat.add_sub_cancel_left, hc]
    simpa using h0

end Srsirc.Memory
