import Srsirc.Message

namespace Srsirc.IdentParts

open CharMap Memory Message

def ident (n u h : Str) : Str := n ++ 0x21 :: (u ++ 0x40 :: h)

section Cut

variable {z : UInt8} {p : Str}

theorem takeWhile_take (hp : z ∉ p) (rest : Str) (k : Nat) :
    ((p ++ z :: rest).take k).takeWhile (· != z) = p.take k := by
  induction p generalizing k with
  | nil => cases k <;> simp
  | cons c p ih =>
    obtain ⟨hc, hp⟩ := not_or.1 fun h => hp (List.mem_cons.2 h)
    cases k with
    | zero => rfl
    | succ k =>
      rw [List.cons_append, List.take_succ_cons, List.take_succ_cons,
        List.takeWhile_cons_of_pos (by simpa using Ne.symm hc), ih hp]

/-- What is behind it comes at the expense of what is in front. -/
theorem dropWhile_take (hp : z ∉ p) (rest : Str) (k : Nat) :
    (((p ++ z :: rest).take k).dropWhile (· != z)).tail = rest.take (k - (p.length + 1)) := by
  induction p generalizing k with
  | nil => cases k <;> simp
  | cons c p ih =>
    obtain ⟨hc, hp⟩ := not_or.1 fun h => hp (List.mem_cons.2 h)
    cases k with
    | zero => rw [Nat.zero_sub]; rfl
    | succ k =>
      rw [List.cons_append, List.take_succ_cons,
        List.dropWhile_cons_of_pos (by simpa using Ne.symm hc), ih hp,
        List.length_cons, Nat.add_sub_add_right]

end Cut

section Parts

variable {n u h : Str}

theorem ident_eq (n u h : Str) : ident n u h = (n ++ 0x21 :: u) ++ 0x40 :: h := by
  rw [ident, List.append_assoc, List.cons_append]

theorem not_mem_front (hn : 0x40 ∉ n) (hu : 0x40 ∉ u) : (0x40 : UInt8) ∉ n ++ 0x21 :: u := by
  simp [hn, hu]

theorem ident2nick_ident (hn : 0x21 ∉ n ∧ 0x40 ∉ n) (hu : 0x40 ∉ u) (h : Str) (d : Nat) :
    ident2nick d (ident n u h) = n.take (d - 1) := by
  rw [ident2nick, strNcpy, ident_eq, takeWhile_take (not_mem_front hn.2 hu), takeWhile_take hn.1]

theorem ident2uname_ident (hn : 0x21 ∉ n ∧ 0x40 ∉ n) (hu : 0x40 ∉ u) (h : Str) (d : Nat) :
    ident2uname d (ident n u h) = u.take (d - 1 - (n.length + 1)) := by
  rw [ident2uname, strNcpy, ident_eq, takeWhile_take (not_mem_front hn.2 hu), dropWhile_take hn.1]

theorem ident2host_ident (hn : 0x40 ∉ n) (hu : 0x40 ∉ u) (h : Str) (d : Nat) :
    ident2host d (ident n u h) = h.take (d - 1 - (n.length + u.length + 2)) := by
  have hlen : (n ++ 0x21 :: u).length + 1 = n.length + u.length + 2 := by
    rw [List.length_append, List.length_cons]
    omega
  rw [ident2host, strNcpy, ident_eq, dropWhile_take (not_mem_front hn hu), hlen]

theorem take_ahead_iff (s : Str) {d m : Nat} (hd : 0 < d) (hm : 0 < m) :
    s.take (d - 1 - m) = s.take (d - 1) ↔ d = 1 ∨ s = [] ∨ m + s.length < d := by
  rw [List.take_eq_take_iff, ← List.length_eq_zero_iff]
  omega

/-- All three parts come out, cut as `dest_sz` has it, just if each but the first is empty or
ends within the copy, or nothing but the terminator fits. -/
theorem ident_parts_iff (n u h : Str) (hn : 0x21 ∉ n ∧ 0x40 ∉ n) (hu : 0x40 ∉ u)
    {d : Nat} (hd : 0 < d) :
    (ident2nick d (ident n u h) = n.take (d - 1) ∧ ident2uname d (ident n u h) = u.take (d - 1) ∧
      ident2host d (ident n u h) = h.take (d - 1)) ↔
    d = 1 ∨ (u = [] ∨ n.length + u.length + 1 < d) ∧
      (h = [] ∨ n.length + u.length + h.length + 2 < d) := by
  rw [ident2nick_ident hn hu, ident2uname_ident hn hu, ident2host_ident hn.2 hu,
    take_ahead_iff u hd (Nat.succ_pos _), take_ahead_iff h hd (Nat.succ_pos _), ← or_and_left,
    Nat.add_right_comm n.length 1, Nat.add_right_comm _ 2, and_iff_right rfl]

theorem ident_parts_sample :
    ident2nick 64 (ident (ascii "me") (ascii "u") (ascii "h")) = (ascii "me").take 63 ∧
      ident2uname 64 (ident (ascii "me") (ascii "u") (ascii "h")) = (ascii "u").take 63 ∧
      ident2host 64 (ident (ascii "me") (ascii "u") (ascii "h")) = (ascii "h").take 63 :=
  (ident_parts_iff (ascii "me") (ascii "u") (ascii "h") (by decide) (by decide) (by decide)).2
    (by decide)

/-- A user name that would fit is lost to the nick. -/
theorem uname_lost :
    ident2uname 9 (ident (ascii "longnick") (ascii "user") (ascii "host")) = [] ∧
      (ascii "user").take 8 = ascii "user" ∧
      ¬(ident2nick 9 (ident (ascii "longnick") (ascii "user") (ascii "host")) =
        (ascii "longnick").take 8 ∧
        ident2uname 9 (ident (ascii "longnick") (ascii "user") (ascii "host")) =
          (ascii "user").take 8 ∧
        ident2host 9 (ident (ascii "longnick") (ascii "user") (ascii "host")) =
          (ascii "host").take 8) := by
  decide

end Parts

end Srsirc.IdentParts
