import Srsirc.BoundedStore

namespace Srsirc.LowerCopy

open CharMap Memory Message ReadBuffer BoundedStore

/-- The loop of `lsi_ut_strtolower` at `ptr`. Its variable `c` is never changed. The end of the
list is the terminator of the string, which is copied, too. -/
def lowerLoop (cm : CMap) (destsz c : Nat) : Str → Nat → Mem → Except Fault Mem
  | [], ptr, dest => if c < destsz then store dest ptr [tolower 0 cm] else .ok dest
  | b :: str, ptr, dest =>
    if c < destsz then do
      let dest ← store dest ptr [tolower b cm]
      lowerLoop cm destsz c str (ptr + 1) dest
    else .ok dest

/-- `lsi_ut_strtolower` into an array of `destsz` bytes. If there are none, it writes in front of
the array. -/
def strtolower (dest : Mem) (destsz : Nat) (str : Str) (cm : CMap) : Except Fault Mem := do
  let dest ← lowerLoop cm destsz 0 str 0 dest
  if 0 < destsz then store dest (destsz - 1) [0] else .error .overrun

variable {cm : CMap} {dest : Mem} {str : Str}

def lowered (cm : CMap) (str : Str) : Str := str.map (tolower · cm) ++ [tolower 0 cm]

theorem length_lowered : (lowered cm str).length = str.length + 1 := by
  rw [lowered, List.length_append, List.length_map, List.length_singleton]

theorem tolower_zero (cm : CMap) : tolower 0 cm = 0 := by cases cm <;> rfl

/-- The loop goes on to the end of the string, whether there is room or not. -/
theorem lowerLoop_eq {s : Str} (hs : s.length ≤ dest.length) (hpos : 0 < dest.length) :
    lowerLoop cm dest.length 0 str s.length (overwrite dest 0 s) =
      if s.length + (str.length + 1) ≤ dest.length then .ok (overwrite dest 0 (s ++ lowered cm str))
      else .error .overrun := by
  induction str generalizing s with
  | nil =>
    rw [lowerLoop, if_pos hpos, List.length_nil, Nat.zero_add]
    by_cases hfit : s.length + 1 ≤ dest.length
    · rw [store_behind rfl hfit, if_pos hfit]
      rfl
    · rw [store_beyond hs (by simpa using hfit), if_neg hfit]
  | cons b str ih =>
    rw [lowerLoop, if_pos hpos]
    by_cases hroom : s.length + 1 ≤ dest.length
    · rw [store_behind rfl hroom]
      have hlen : (s ++ [tolower b cm]).length = s.length + 1 := by simp
      have hrest := @ih (s ++ [tolower b cm]) (by omega)
      rw [hlen, List.append_assoc] at hrest
      rw [List.length_cons, Nat.add_comm (str.length + 1) 1, ← Nat.add_assoc]
      exact hrest
    · rw [store_beyond hs (by simpa using hroom), if_neg (by rw [List.length_cons]; omega)]
      rfl

theorem prefix_terminated {t : Str} {p : Nat} (ht : t ++ [0] <+: dest) (hp : t.length ≤ p) :
    t ++ [0] <+: overwrite dest p [0] := by
  rw [overwrite, List.append_assoc]
  obtain heq | hlt' := Nat.eq_or_lt_of_le hp
  · have htake : dest.take p = t := by
      obtain ⟨rest, rfl⟩ := ht
      rw [List.append_assoc]
      exact List.take_left' heq
    rw [htake, ← List.append_assoc]
    exact List.prefix_append _ _
  · have hin : t ++ [0] <+: dest.take p := by
      refine List.prefix_take_iff.2 ⟨ht, ?_⟩
      rw [List.length_append, List.length_singleton]
      exact hlt'
    exact hin.trans (List.prefix_append _ _)

/-- The string in lower case, cut to what fits, is in the array with a terminator behind it, and
nothing was written anywhere else, just if the string fits. -/
theorem lower_bounded_iff (cm : CMap) (dest : Mem) (hpos : 0 < dest.length) (str : Str) :
    (∃ dest', strtolower dest dest.length str cm = .ok dest' ∧ dest'.length = dest.length ∧
      (str.take (dest.length - 1)).map (tolower · cm) ++ [0] <+: dest') ↔
    str.length < dest.length := by
  have hloop := @lowerLoop_eq cm dest str [] (Nat.zero_le _) hpos
  rw [overwrite_nil, List.length_nil, Nat.zero_add, List.nil_append] at hloop
  rw [strtolower, hloop]
  simp only [if_pos hpos]
  constructor
  · rintro ⟨dest', hrun, -⟩
    by_contra hlong
    rw [if_neg (by omega)] at hrun
    cases hrun
  · intro hfit
    have hlen : (overwrite dest 0 (lowered cm str)).length = dest.length :=
      length_overwrite (by rw [length_lowered]; omega)
    have hlast : dest.length - 1 + [(0 : UInt8)].length ≤
        (overwrite dest 0 (lowered cm str)).length := by
      rw [hlen, List.length_singleton]
      omega
    rw [if_pos (by omega), List.take_of_length_le (by omega)]
    refine ⟨_, store_ok hlast, ?_, ?_⟩
    · rw [length_overwrite hlast, hlen]
    · refine prefix_terminated ?_ ?_
      · rw [lowered, tolower_zero, overwrite, List.take_zero, List.nil_append]
        exact List.prefix_append _ _
      · rw [List.length_map]
        omega

/-- The array is full to its last byte. -/
theorem lower_bounded_full :
    (∃ dest', strtolower (List.replicate 3 0xff) 3 (ascii "N[") .rfc1459 = .ok dest' ∧
      dest'.length = 3 ∧ ((ascii "N[").take 2).map (tolower · .rfc1459) ++ [0] <+: dest') :=
  (lower_bounded_iff .rfc1459 (List.replicate 3 0xff) (by decide) (ascii "N[")).2 (by decide)

/-- One byte too many is not cut off, but written behind the array. -/
theorem lower_overruns :
    strtolower (List.replicate 3 0xff) 3 (ascii "NIC") .ascii = .error .overrun ∧
      ¬∃ dest', strtolower (List.replicate 3 0xff) 3 (ascii "NIC") .ascii = .ok dest' ∧
        dest'.length = 3 ∧ ((ascii "NIC").take 2).map (tolower · .ascii) ++ [0] <+: dest' := by
  have hrun : strtolower (List.replicate 3 0xff) 3 (ascii "NIC") .ascii = .error .overrun := by
    decide +kernel
  refine ⟨hrun, ?_⟩
  rintro ⟨dest', hok, -⟩
  rw [hrun] at hok
  cases hok

end Srsirc.LowerCopy
