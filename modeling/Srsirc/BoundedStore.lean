import Srsirc.Message
import Srsirc.ReadBuffer

namespace Srsirc.BoundedStore

open CharMap Memory Message ReadBuffer

def store (mem : Mem) (p : Nat) (s : Str) : Except Fault Mem :=
  if p + s.length ≤ mem.length then .ok (overwrite mem p s) else .error .overrun

theorem store_ok {mem : Mem} {p : Nat} {s : Str} (h : p + s.length ≤ mem.length) :
    store mem p s = .ok (overwrite mem p s) := if_pos h

theorem store_overrun {mem : Mem} {p : Nat} {s : Str} (h : mem.length < p + s.length) :
    store mem p s = .error .overrun := if_neg (by omega)

theorem length_overwrite {mem : Mem} {p : Nat} {s : Str} (h : p + s.length ≤ mem.length) :
    (overwrite mem p s).length = mem.length := by
  simp only [overwrite, List.length_append, List.length_take, List.length_drop]
  omega

theorem overwrite_overwrite {mem : Mem} {p : Nat} {s t : Str}
    (h : p + (s ++ t).length ≤ mem.length) :
    overwrite (overwrite mem p s) (p + s.length) t = overwrite mem p (s ++ t) := by
  rw [List.length_append] at h
  have hpre : (mem.take p).length = p := by
    rw [List.length_take]
    omega
  have hcut : (mem.take p ++ s).length = p + s.length := by rw [List.length_append, hpre]
  rw [overwrite, show overwrite mem p s = mem.take p ++ s ++ mem.drop (p + s.length) from rfl,
    List.take_left' hcut, ← List.drop_drop, List.drop_left' hcut, List.drop_drop, overwrite,
    List.length_append, ← Nat.add_assoc, List.append_assoc (mem.take p) s t]

theorem overwrite_nil (mem : Mem) (p : Nat) : overwrite mem p [] = mem := by
  rw [overwrite, List.append_nil, List.length_nil, Nat.add_zero, List.take_append_drop]

theorem getD_overwrite {mem : Mem} {s : Str} {i : Nat} (hi : i < s.length) (d : UInt8) :
    (overwrite mem 0 s).getD i d = s.getD i d := by
  rw [overwrite, List.take_zero, List.nil_append, List.getD_eq_getElem?_getD,
    List.getD_eq_getElem?_getD,
    List.getElem?_append_left hi]

theorem take_overwrite {mem : Mem} {s : Str} {n : Nat} (h : s.length = n) :
    (overwrite mem 0 s).take n = s := by
  rw [overwrite, List.take_zero, List.nil_append]
  exact List.take_left' h

theorem overwrite_whole {mem : Mem} {s : Str} (h : mem.length ≤ s.length) :
    overwrite mem 0 s = s := by
  rw [overwrite, List.take_zero, List.nil_append, Nat.zero_add, List.drop_eq_nil_of_le h,
    List.append_nil]

theorem store_behind {mem : Mem} {s t : Str} {p : Nat} (hp : s.length = p)
    (h : p + t.length ≤ mem.length) :
    store (overwrite mem 0 s) p t = .ok (overwrite mem 0 (s ++ t)) := by
  obtain rfl := hp
  have hlen : (overwrite mem 0 s).length = mem.length := length_overwrite (by omega)
  have happ := @overwrite_overwrite mem 0 s t (by rw [List.length_append]; omega)
  rw [Nat.zero_add] at happ
  rw [store_ok (by rw [hlen]; exact h), happ]

theorem store_beyond {mem : Mem} {s t : Str} {p : Nat} (hs : s.length ≤ mem.length)
    (h : mem.length < p + t.length) : store (overwrite mem 0 s) p t = .error .overrun :=
  store_overrun (by rwa [length_overwrite (by omega)])

end Srsirc.BoundedStore
