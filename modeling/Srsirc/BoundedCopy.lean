import Srsirc.Assembly
import Srsirc.BoundedStore
import Srsirc.BufferData
import Srsirc.Fallible

namespace Srsirc.BoundedCopy

open CharMap Memory Message ReadBuffer BoundedStore Fallible
open BufferData (overwrite_eq)

/-- `*src`, where the string is given by the memory from there on. -/
def deref : Mem → Except Fault UInt8
  | [] => .error .overrun
  | c :: _ => .ok c

variable {w : Nat}

/-- The loop of `lsi_b_strNcat`, with the variables it leaves. The test takes one from `rem` even
if there is nothing left of it. -/
def catLoop : Mem → Mem → Nat → BitVec w → Except Fault (Mem × Mem × Nat × BitVec w)
  | [], dest, ptr, rem => if rem = 0 then .ok ([], dest, ptr, rem - 1) else .error .overrun
  | c :: src, dest, ptr, rem =>
    if rem = 0 ∨ c = 0 then .ok (c :: src, dest, ptr, rem - 1)
    else do
      let dest ← store dest ptr [c]
      catLoop src dest (ptr + 1) (rem - 1)

def cutOff (rem : BitVec w) (src : Mem) : Except Fault Bool :=
  if rem + 1 = 0 then (deref src).map (· ≠ 0) else .ok false

/-- `lsi_b_strNcat`, with `size_t` of `w` bits. -/
def strNcat (dest src : Mem) (destsz : BitVec w) : Except Fault Mem :=
  if 0 ∈ dest then
    let len := (cstr dest 0).length
    if destsz ≤ BitVec.ofNat w len + 1 then .ok dest
    else do
      let (src, dest, ptr, rem) ← catLoop src dest len (destsz - (BitVec.ofNat w len + 1))
      let _ ← cutOff rem src
      store dest ptr [0]
  else .error .overrun

/-- The loop of `lsi_b_strNcpy`. -/
def cpyLoop : Mem → Mem → Nat → BitVec w → Except Fault (Mem × Nat × BitVec w)
  | [], _, _, _ => .error .overrun
  | c :: src, dest, ptr, destsz => do
    let dest ← store dest ptr [c]
    if c = 0 ∨ destsz - 1 = 0 then .ok (dest, ptr + 1, destsz - 1)
    else cpyLoop src dest (ptr + 1) (destsz - 1)

/-- `lsi_b_strNcpy`. -/
def strNcpy (dest src : Mem) (destsz : BitVec w) : Except Fault Mem :=
  if destsz = 0 then .ok dest
  else do
    let (dest, ptr, destsz) ← cpyLoop src dest 0 destsz
    if destsz = 0 then store dest (ptr - 1) [0] else .ok dest

variable {dest junk : Mem} {s d : Str} {ptr : Nat} {rem destsz : BitVec w}

theorem toNat_pred (h : rem ≠ 0) : (rem - 1).toNat + 1 = rem.toNat := by
  have hpos : 0 < rem.toNat := Nat.pos_of_ne_zero fun h0 => h (BitVec.eq_of_toNat_eq h0)
  have hone : (1 : BitVec w).toNat = 1 := Nat.mod_eq_of_lt (Nat.lt_of_le_of_lt hpos rem.isLt)
  have hle : (1 : BitVec w) ≤ rem := BitVec.le_def.2 (hone.symm ▸ hpos)
  rw [BitVec.toNat_sub_of_le hle, hone]
  omega

theorem store_two {p : Nat} {t : Str} (h : p + (s ++ t).length ≤ dest.length) :
    store (overwrite dest p s) (p + s.length) t = .ok (overwrite dest p (s ++ t)) := by
  have hcat := overwrite_overwrite h
  rw [List.length_append] at h
  rw [store_ok (by rw [length_overwrite (by omega)]; omega), hcat]

theorem cutOff_ok (rem : BitVec w) (s : Str) (junk : Mem) :
    ∃ b, cutOff rem (s ++ 0 :: junk) = .ok b := by
  rw [cutOff]
  split
  · cases s with
    | nil => exact ⟨_, rfl⟩
    | cons c s => exact ⟨_, rfl⟩
  · exact ⟨false, rfl⟩

theorem catLoop_copies (hs : ∀ c ∈ s, c ≠ 0) (junk : Mem)
    (hroom : ptr + (s.take rem.toNat).length ≤ dest.length) :
    ∃ rem', catLoop (s ++ 0 :: junk) dest ptr rem =
      .ok (s.drop rem.toNat ++ 0 :: junk, overwrite dest ptr (s.take rem.toNat),
        ptr + (s.take rem.toNat).length, rem') := by
  induction s generalizing dest ptr rem with
  | nil =>
    refine ⟨rem - 1, ?_⟩
    rw [List.nil_append, catLoop, if_pos (Or.inr rfl), List.take_nil, List.drop_nil, overwrite_nil]
    rfl
  | cons c s ih =>
    obtain ⟨hc, hs⟩ := List.forall_mem_cons.1 hs
    rw [List.cons_append, catLoop]
    by_cases hrem : rem = 0
    · refine ⟨rem - 1, ?_⟩
      have hnone : rem.toNat = 0 := by rw [hrem]; rfl
      rw [if_pos (Or.inl hrem), hnone, List.take_zero, List.drop_zero, overwrite_nil]
      rfl
    · rw [if_neg fun h => h.elim hrem hc]
      have hpred := toNat_pred hrem
      rw [← hpred, List.take_succ_cons, List.length_cons] at hroom
      rw [← hpred, List.take_succ_cons, List.drop_succ_cons, List.length_cons]
      have hstore : store dest ptr [c] = .ok (overwrite dest ptr [c]) := store_ok (by simp; omega)
      rw [hstore, ok_bind]
      have hlen := @length_overwrite dest ptr [c] (by simp; omega)
      obtain ⟨rem', hrun⟩ := @ih (overwrite dest ptr [c]) (ptr + 1) (rem - 1) hs (by omega)
      refine ⟨rem', hrun.trans ?_⟩
      have hcat := @overwrite_overwrite dest ptr [c] (s.take (rem - 1).toNat)
        (by rw [List.singleton_append, List.length_cons]; omega)
      rw [List.length_singleton, List.singleton_append] at hcat
      rw [hcat, Nat.add_assoc, Nat.add_comm 1]

theorem cpyLoop_copies (hs : ∀ c ∈ s, c ≠ 0) (junk : Mem) (hpos : destsz ≠ 0)
    (hroom : ptr + destsz.toNat ≤ dest.length) :
    ∃ rest : BitVec w, cpyLoop (s ++ 0 :: junk) dest ptr destsz =
      .ok (overwrite dest ptr ((s ++ [0]).take destsz.toNat),
        ptr + ((s ++ [0]).take destsz.toNat).length, rest) ∧
      rest.toNat = destsz.toNat - (s.length + 1) := by
  have hpred := toNat_pred hpos
  induction s generalizing dest ptr destsz with
  | nil =>
    refine ⟨destsz - 1, ?_, by rw [List.length_nil]; omega⟩
    have hone : ([0] : Str).take destsz.toNat = [0] :=
      List.take_of_length_le (by rw [List.length_singleton]; omega)
    rw [List.nil_append, cpyLoop, store_ok (by rw [List.length_singleton]; omega), ok_bind,
      if_pos (Or.inl rfl), List.nil_append, hone]
    rfl
  | cons c s ih =>
    obtain ⟨hc, hs⟩ := List.forall_mem_cons.1 hs
    have htake : (c :: s ++ [0]).take destsz.toNat = c :: (s ++ [0]).take (destsz - 1).toNat := by
      rw [← hpred, List.cons_append, List.take_succ_cons]
    have hstore : store dest ptr [c] = .ok (overwrite dest ptr [c]) :=
      store_ok (by rw [List.length_singleton]; omega)
    rw [List.cons_append, cpyLoop, hstore, ok_bind, htake]
    by_cases hlast : destsz - 1 = 0
    · refine ⟨destsz - 1, ?_, ?_⟩
      · rw [if_pos (Or.inr hlast), hlast]
        rfl
      · have hzero : (destsz - 1).toNat = 0 := by rw [hlast]; rfl
        rw [List.length_cons]
        omega
    · have hlen := @length_overwrite dest ptr [c] (by rw [List.length_singleton]; omega)
      obtain ⟨rest, hrun, hrest⟩ := @ih (overwrite dest ptr [c]) (ptr + 1) (destsz - 1) hs hlast
        (by omega) (toNat_pred hlast)
      refine ⟨rest, ?_, by rw [hrest, List.length_cons]; omega⟩
      have hcat := @overwrite_overwrite dest ptr [c] ((s ++ [0]).take (destsz - 1).toNat)
        (by rw [List.singleton_append, List.length_cons, List.length_take]; omega)
      rw [List.length_singleton, List.singleton_append] at hcat
      rw [if_neg fun h => h.elim hc hlast, hrun, hcat, List.length_cons, Nat.add_assoc,
        Nat.add_comm 1]

theorem overwrite_last (dest : Mem) (t : Str) (x y : UInt8) :
    overwrite (overwrite dest 0 (t ++ [x])) t.length [y] = overwrite dest 0 (t ++ [y]) := by
  have hcut : ∀ z : UInt8,
      overwrite dest 0 (t ++ [z]) = t ++ ([z] ++ dest.drop (t.length + 1)) := by
    intro z
    rw [overwrite, List.take_zero, List.nil_append, List.length_append, List.length_singleton,
      Nat.zero_add, List.append_assoc]
  rw [hcut, hcut, overwrite_eq t [x] _ [y] rfl rfl]

theorem strNcpy_eq (hs : ∀ c ∈ s, c ≠ 0) (junk : Mem) (hpos : destsz ≠ 0)
    (hroom : destsz.toNat ≤ dest.length) : strNcpy dest (s ++ 0 :: junk) destsz =
      .ok (overwrite dest 0 (s.take (destsz.toNat - 1) ++ [0])) := by
  have hpred := toNat_pred hpos
  obtain ⟨rest, hrun, hrest⟩ := @cpyLoop_copies _ dest s 0 destsz hs junk hpos (by omega)
  rw [strNcpy, if_neg hpos, hrun, ok_bind]
  dsimp only
  split
  · next hfull =>
    have hzero : rest.toNat = 0 := by rw [hfull]; rfl
    have hlt : destsz.toNat - 1 < (s ++ [0]).length := by
      rw [List.length_append, List.length_singleton]
      omega
    -- the byte behind those that stay is the terminator or is cut off
    have hcut : (s ++ [0]).take destsz.toNat =
        s.take (destsz.toNat - 1) ++ [(s ++ [0])[destsz.toNat - 1]] := by
      have hsucc := List.take_succ_eq_append_getElem hlt
      rw [List.length_append, List.length_singleton] at hlt
      rwa [show destsz.toNat - 1 + 1 = destsz.toNat by omega,
        List.take_append_of_le_length (i := destsz.toNat - 1) (by omega)] at hsucc
    have hat : 0 + ((s ++ [0]).take destsz.toNat).length - 1 =
        (s.take (destsz.toNat - 1)).length := by
      rw [hcut, List.length_append, List.length_singleton]
      omega
    rw [hat, hcut, store_ok, overwrite_last]
    rw [length_overwrite]
    · rw [List.length_singleton, List.length_take]
      omega
    · rw [← hcut, List.length_take]
      omega
  · next hroom' =>
    have hlong : s.length + 1 < destsz.toNat := by
      have hne : rest.toNat ≠ 0 := fun h0 => hroom' (BitVec.eq_of_toNat_eq h0)
      omega
    rw [List.take_of_length_le (by simp; omega), List.take_of_length_le (by omega)]

theorem toNat_len (h : d.length < destsz.toNat) :
    (BitVec.ofNat w d.length + 1).toNat = d.length + 1 := by
  have hlt := destsz.isLt
  have hlarge : 1 < 2 ^ w := by omega
  have hone : (1 : BitVec w).toNat = 1 := Nat.mod_eq_of_lt hlarge
  rw [BitVec.toNat_add, BitVec.toNat_ofNat, hone, Nat.mod_eq_of_lt (a := d.length) (by omega)]
  exact Nat.mod_eq_of_lt (by omega)

/-- The loop on the array comes to its description on strings. -/
theorem strNcat_refines (hd : ∀ c ∈ d, c ≠ 0) (hs : ∀ c ∈ s, c ≠ 0) (junk post : Mem)
    (hlen : d.length < destsz.toNat) (hroom : destsz.toNat ≤ (d ++ 0 :: post).length) :
    strNcat (d ++ 0 :: post) (s ++ 0 :: junk) destsz =
      .ok (Assembly.strNcat (d ++ 0 :: post) s destsz.toNat) := by
  have hcstr : cstr (d ++ 0 :: post) 0 = d := by
    rw [cstr, List.drop_zero, takeWhile_terminated, takeWhile_nonzero hd]
  have hlen1 := @toNat_len w d destsz hlen
  rw [strNcat, if_pos (by simp), Assembly.strNcat, hcstr]
  dsimp only
  have hiff : destsz ≤ BitVec.ofNat w d.length + 1 ↔ destsz.toNat ≤ d.length + 1 := by
    rw [BitVec.le_def, hlen1]
  by_cases hfree : destsz.toNat ≤ d.length + 1
  · rw [if_pos (hiff.2 hfree), if_pos hfree]
  · rw [if_neg (mt hiff.1 hfree), if_neg hfree]
    have hrem : (destsz - (BitVec.ofNat w d.length + 1)).toNat = destsz.toNat - (d.length + 1) := by
      rw [BitVec.toNat_sub_of_le (BitVec.le_def.2 (by omega)), hlen1]
    obtain ⟨rem', hrun⟩ := @catLoop_copies w (d ++ 0 :: post) s d.length
      (destsz - (BitVec.ofNat w d.length + 1)) hs junk (by rw [hrem, List.length_take]; omega)
    obtain ⟨b, hb⟩ := cutOff_ok rem' (s.drop (destsz - (BitVec.ofNat w d.length + 1)).toNat) junk
    rw [hrun, ok_bind]
    dsimp only
    rw [hb, ok_bind, hrem, store_two]
    rw [List.length_append, List.length_take, List.length_singleton]
    omega

theorem strNcat_overwrite (hd : ∀ c ∈ d, c ≠ 0) (s : Str) (post : Mem) {n : Nat}
    (hlen : d.length < n) : Assembly.strNcat (d ++ 0 :: post) s n =
      overwrite (d ++ 0 :: post) 0 ((d ++ s).take (n - 1) ++ [0]) := by
  have hcstr : cstr (d ++ 0 :: post) 0 = d := by
    rw [cstr, List.drop_zero, takeWhile_terminated, takeWhile_nonzero hd]
  have hbehind : ∀ t : Str,
      overwrite (d ++ 0 :: post) d.length t = overwrite (d ++ 0 :: post) 0 (d ++ t) := by
    intro t
    rw [overwrite, overwrite, List.take_left, List.take_zero, List.nil_append, List.length_append,
      Nat.zero_add]
  rw [Assembly.strNcat, hcstr]
  split
  · rw [List.take_append_of_le_length (by omega), List.take_of_length_le (by omega), ← hbehind]
    exact (overwrite_eq d [0] post [0] rfl rfl).symm
  · rw [hbehind, ← List.append_assoc, List.take_append, List.take_of_length_le (l := d) (by omega),
      Nat.sub_right_comm, Nat.sub_sub]

/-- In the first `n` bytes of `dest` there is as much of a string as fits, with its terminator, and
the others are as before. -/
def Leaves (dest : Mem) (n : Nat) (t : Str) (r : Except Fault Mem) : Prop :=
  ∃ dest', r = .ok dest' ∧ t.take (n - 1) ++ [0] <+: dest' ∧ dest'.length = dest.length ∧
    dest'.drop n = dest.drop n

theorem leaves_overwrite {n : Nat} (hpos : 0 < n) (hn : n ≤ dest.length) (t : Str) :
    Leaves dest n t (.ok (overwrite dest 0 (t.take (n - 1) ++ [0]))) := by
  have hlen : (t.take (n - 1) ++ [0]).length ≤ n := by
    rw [List.length_append, List.length_take, List.length_singleton]
    omega
  refine ⟨_, rfl, ?_, length_overwrite (by omega), ?_⟩
  · rw [overwrite, List.take_zero, List.nil_append]
    exact List.prefix_append _ _
  · rw [overwrite, List.take_zero, List.nil_append, List.drop_append, List.drop_of_length_le hlen,
      List.nil_append, List.drop_drop]
    congr 1
    omega

theorem strNcpy_leaves (hs : ∀ c ∈ s, c ≠ 0) (junk : Mem) (hpos : 0 < destsz.toNat)
    (hroom : destsz.toNat ≤ dest.length) :
    Leaves dest destsz.toNat s (strNcpy dest (s ++ 0 :: junk) destsz) := by
  have hne : destsz ≠ 0 := fun h0 => by
    rw [h0] at hpos
    exact Nat.lt_irrefl _ hpos
  rw [strNcpy_eq hs junk hne hroom]
  exact leaves_overwrite hpos hroom s

theorem strNcat_leaves (hd : ∀ c ∈ d, c ≠ 0) (hs : ∀ c ∈ s, c ≠ 0) (junk post : Mem)
    (hlen : d.length < destsz.toNat) (hroom : destsz.toNat ≤ (d ++ 0 :: post).length) :
    Leaves (d ++ 0 :: post) destsz.toNat (d ++ s)
      (strNcat (d ++ 0 :: post) (s ++ 0 :: junk) destsz) := by
  rw [strNcat_refines hd hs junk post hlen hroom, strNcat_overwrite hd s post hlen]
  exact leaves_overwrite (Nat.zero_lt_of_lt hlen) hroom (d ++ s)

theorem Leaves.text {n : Nat} {t : Str} {r : Except Fault Mem} (ht : ∀ c ∈ t, c ≠ 0)
    (h : Leaves dest n t r) : Returns r fun dest' => cstr dest' 0 = t.take (n - 1) := by
  obtain ⟨dest', rfl, ⟨post, rfl⟩, -, -⟩ := h
  refine Returns.ok ?_
  rw [cstr, List.drop_zero, List.append_assoc, List.singleton_append, takeWhile_terminated]
  exact takeWhile_nonzero fun c hc => ht c (List.mem_of_mem_take hc)

/-- The copy as it is where the arrays are strings. -/
theorem strNcpy_text (hs : ∀ c ∈ s, c ≠ 0) (junk : Mem) (hpos : 0 < destsz.toNat)
    (hroom : destsz.toNat ≤ dest.length) :
    Returns (strNcpy dest (s ++ 0 :: junk) destsz) fun dest' =>
      cstr dest' 0 = Message.strNcpy s destsz.toNat :=
  (strNcpy_leaves hs junk hpos hroom).text hs

theorem strNcat_take {n : Nat} (h : d.length < n) (s : Str) :
    Message.strNcat d s n = (d ++ s).take (n - 1) := by
  rw [Message.strNcat, List.take_append, List.take_of_length_le (l := d) (by omega)]
  split
  · rw [Nat.sub_eq_zero_of_le (by omega), List.take_zero, List.append_nil]
  · rw [Nat.sub_right_comm, Nat.sub_sub]

theorem strNcat_text (hd : ∀ c ∈ d, c ≠ 0) (hs : ∀ c ∈ s, c ≠ 0) (junk post : Mem)
    (hlen : d.length < destsz.toNat) (hroom : destsz.toNat ≤ (d ++ 0 :: post).length) :
    Returns (strNcat (d ++ 0 :: post) (s ++ 0 :: junk) destsz) fun dest' =>
      cstr dest' 0 = Message.strNcat d s destsz.toNat := by
  rw [strNcat_take hlen]
  exact (strNcat_leaves hd hs junk post hlen hroom).text fun c hc =>
    (List.mem_append.1 hc).elim (hd c) (hs c)

/-- Both copy as much as fits with a terminator, write nothing behind the space they are told of,
and read the string up to its terminator: there need not be anything behind it. -/
theorem primitives_truncate (destsz : BitVec w) (hpos : 0 < destsz) (dest : Mem)
    (hroom : destsz.toNat ≤ dest.length) (s : Str) (hs : ∀ c ∈ s, c ≠ 0) (junk : Mem) :
    Leaves dest destsz.toNat s (strNcpy dest (s ++ 0 :: junk) destsz) ∧
    ∀ (d : Str) (post : Mem), dest = d ++ 0 :: post → (∀ c ∈ d, c ≠ 0) →
      d.length < destsz.toNat →
      Leaves dest destsz.toNat (d ++ s) (strNcat dest (s ++ 0 :: junk) destsz) := by
  refine ⟨strNcpy_leaves hs junk hpos hroom, ?_⟩
  rintro d post rfl hd hlen
  exact strNcat_leaves hd hs junk post hlen hroom

/-- There is space for all but one byte. -/
theorem primitives_truncate_tight :
    let dest := ascii "ab" ++ 0 :: [1, 2]
    Leaves dest 4 (ascii "cdef") (strNcpy dest (ascii "cdef" ++ [0]) 4#64) ∧
      Leaves dest 4 (ascii "ab" ++ ascii "cd") (strNcat dest (ascii "cd" ++ [0]) 4#64) :=
  ⟨(primitives_truncate 4#64 (by decide) _ (by decide) (ascii "cdef") (by decide +kernel)
      []).1,
    (primitives_truncate 4#64 (by decide) _ (by decide) (ascii "cd") (by decide +kernel) []).2
      (ascii "ab") [1, 2] rfl (by decide +kernel) (by decide)⟩

end Srsirc.BoundedCopy
