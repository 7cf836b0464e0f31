import Srsirc.Track

namespace Srsirc.NamesReply

open CharMap HeapCells Memory Message ServerInfo UserBase Track

/-- The names that the loop comes to from `p` on, each with its mode prefix. -/
def names (info : Info) (mem : Mem) : Nat → Nat → List (Str × Str)
  | 0, _ => []
  | k + 1, p =>
    let ch := mem.getD p 0
    let pfx := (strchr info.m005modepfx.2 ch).isSome
    let mpfx : Str := if pfx ∧ ch ≠ 0 then [ch] else []
    let p := if pfx then p + 1 else p
    let len := (cstr mem p).idxOf 0x20
    let nick := (cstr mem p).take (min len (MAX_NICK_LEN - 1))
    (nick, mpfx) :: if mem.getD (p + len) 0 = 0 then [] else names info mem k (p + len + 1)

def enter (c : Ptr) : List (Str × Str) → Base → Step
  | [], b => .ok (0, b)
  | n :: ns, b => do
    let (ok, b) ← nameOf353 b c n.1 n.2
    if !ok then .ok (ALLOC_ERR, b) else enter c ns b

theorem names353_eq (info : Info) (c : Ptr) (mem : Mem) (k p : Nat) (b : Base) :
    names353 info c mem k p b = enter c (names info mem k p) b := by
  induction k generalizing p b with
  | zero => rfl
  | succ k ih =>
    rw [names353, names]
    dsimp only
    generalize (if (strchr info.m005modepfx.2 (mem.getD p 0)).isSome = true then p + 1 else p) = q
    rw [enter]
    apply congrArg (Bind.bind _)
    ext1 r
    obtain ⟨_ | _, b⟩ := r
    · rfl
    · simp only [Bool.not_true, Bool.false_eq_true, if_false]
      split
      · rfl
      · exact ih _ b

theorem names_short {info : Info} {mem : Mem} {k p : Nat} : ∀ n ∈ names info mem k p,
    n.1.length < MAX_NICK_LEN := by
  induction k generalizing p with
  | zero => exact fun _ hn => absurd hn List.not_mem_nil
  | succ k ih =>
    intro n hn
    rw [names] at hn
    generalize (if (strchr info.m005modepfx.2 (mem.getD p 0)).isSome = true then p + 1
      else p) = q at hn
    obtain rfl | hn := List.mem_cons.1 hn
    · refine Nat.lt_of_le_of_lt (List.length_take_le _ _) ?_
      rw [MAX_NICK_LEN]
      omega
    · split at hn
      · cases hn
      · exact ih n hn

end Srsirc.NamesReply
