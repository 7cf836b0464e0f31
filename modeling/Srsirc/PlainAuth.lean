import Mathlib
import Srsirc.Base64
import Srsirc.BoundedStore
import Srsirc.LogonBuffer
import Srsirc.PrefixArray

namespace Srsirc.PlainAuth

open Base64 BoundedStore CharMap Fallible LogonBuffer Memory Message PrefixArray ReadBuffer

def b64Alpha : Mem := ascii "ABCDEFGHIJKLMNOPQRSTUVWXYZabcdefghijklmnopqrstuvwxyz0123456789+/"

def quad (t0 t1 t2 : UInt8) : Mem :=
  [t0 >>> 2, (t0 &&& 0x03) <<< 4 ||| (t1 &&& 0xf0) >>> 4,
    (t1 &&& 0x0f) <<< 2 ||| (t2 &&& 0xc0) >>> 6, t2 &&& 0x3f]

/-- `b64_core`, which relies on `1 ≤ ntrip ≤ 3`. -/
def b64Core (dest : Mem) (outquad : Nat) (input : Mem) (intrip ntrip : Nat) : Except Fault Mem := do
  let t ← (List.range ntrip).foldlM (fun t i => do poke t i (← peek input (intrip + i))) [0, 0, 0]
  let q := quad (← peek t 0) (← peek t 1) (← peek t 2)
  let nquad := ntrip + 1
  let dest ← (List.range nquad).foldlM
    (fun dest i => do poke dest (outquad + i) (← peek b64Alpha (← peek q i).toNat)) dest
  (List.range' nquad (4 - nquad)).foldlM (fun dest i => poke dest (outquad + i) 0x3d) dest

/-- The loop of `lsi_com_base64`, in which the pointers are offsets. -/
def b64Loop (input : Mem) (len i iptr optr : Nat) (dest : Mem) : Except Fault Mem :=
  if i < len then do
    let dest ← b64Core dest optr input iptr (min (len - i) 3)
    b64Loop input len (i + 3) (iptr + 3) (optr + 4) dest
  else .ok dest
termination_by len - i

/-- `lsi_com_base64`. No object is so long that `reslen` wraps around. -/
def comBase64 (dest : Mem) (destsz : Nat) (input : Mem) (len : Nat) : Except Fault (Nat × Mem) :=
  let reslen := (len + 2) / 3 * 4
  if destsz ≤ reslen then .ok (0, dest)
  else (b64Loop input len 0 0 0 dest).map fun dest => (reslen, dest)

/-- `name NUL name NUL pass`. -/
def plain (name pass : Str) : Mem := name ++ 0 :: (name ++ 0 :: pass)

/-- What `snprintf` leaves in an array of which it may use `n` bytes. -/
def printed (mem : Mem) (n : Nat) (s : Mem) : Mem :=
  if n = 0 then mem else overwrite mem 0 (s.take (n - 1) ++ [0])

/-- What is returned, what `dest` points to then, and what `destsz` does. -/
structure Result where
  ret : Bool
  dest : Mem
  destsz : Nat
  deriving DecidableEq

/-- `lsi_ut_sasl_mkplauth`, where `malloc` gives this block, with whatever is in it. -/
def saslMkplauth (malloc : Option Mem) (dest : Mem) (destsz : Nat) (name pass : Str)
    (base64 : Bool) :
    Except Fault Result :=
  match malloc with
  | none => .ok ⟨false, dest, destsz⟩
  | some tmpbuf =>
    let tmpbuf := printed tmpbuf destsz (plain name pass)
    let r := told (plain name pass)
    if r < 0 ∨ destsz ≤ r.toNat then .ok ⟨false, dest, destsz⟩
    else if base64 then do
      let (s, dest) ← comBase64 dest destsz tmpbuf r.toNat
      if s = 0 then .ok ⟨false, dest, destsz⟩ else .ok ⟨true, dest, s⟩
    else do
      let dest ← store dest 0 (tmpbuf.take r.toNat)
      .ok ⟨true, dest, r.toNat⟩

/-- At the beginning there is the encoding, and nothing else was written. -/
structure Written (dest dest' m : Mem) : Prop where
  encoded : dest'.take (4 * (m.length ⌈/⌉ 3)) = encode m
  decoded : decode (dest'.take (4 * (m.length ⌈/⌉ 3))) = some m
  behind : dest'.drop (4 * (m.length ⌈/⌉ 3)) = dest.drop (4 * (m.length ⌈/⌉ 3))
  length : dest'.length = dest.length

/-- What becomes of `name` and `pass`, and of what `dest` and `destsz` are before. -/
structure Blob (dest : Mem) (destsz : Nat) (name pass : Str) (res : Result) : Prop where
  succeeds : res.ret = true ↔
    (plain name pass).length < destsz ∧ 4 * ((plain name pass).length ⌈/⌉ 3) < destsz
  success : res.ret = true → Written dest res.dest (plain name pass) ∧
    res.destsz = 4 * ((plain name pass).length ⌈/⌉ 3)
  failure : res.ret = false → res.dest = dest ∧ res.destsz = destsz

section Bits

theorem pack (k : Nat) {x y : Nat} (hy : y < 2 ^ k) : x * 2 ^ k ||| y = x * 2 ^ k + y := by
  rw [Nat.mul_comm, Nat.two_pow_add_eq_or_of_lt hy]

theorem quad_toNat (a b c : UInt8) : (quad a b c).map UInt8.toNat =
    [number a b c / 64 ^ 3, number a b c / 64 ^ 2 % 64, number a b c / 64 % 64,
      number a b c % 64] := by
  have ha := a.toNat_lt
  have hb := b.toNat_lt
  have hc := c.toNat_lt
  have hhigh : ∀ x : UInt8, ((x &&& 0x03) <<< 4).toNat = x.toNat % 4 * 2 ^ 4 :=
    byte_cases (by decide +kernel)
  have hhigh' : ∀ x : UInt8, ((x &&& 0x0f) <<< 2).toNat = x.toNat % 16 * 2 ^ 2 :=
    byte_cases (by decide +kernel)
  have hlow : ∀ x : UInt8, ((x &&& 0xf0) >>> 4).toNat = x.toNat / 16 :=
    byte_cases (by decide +kernel)
  have hlow' : ∀ x : UInt8, ((x &&& 0xc0) >>> 6).toNat = x.toNat / 64 :=
    byte_cases (by decide +kernel)
  have hfirst : ∀ x : UInt8, (x >>> 2).toNat = x.toNat / 4 := byte_cases (by decide +kernel)
  have hlast : ∀ x : UInt8, (x &&& 0x3f).toNat = x.toNat % 64 := byte_cases (by decide +kernel)
  simp only [quad, List.map_cons, List.map_nil, UInt8.toNat_or, hhigh, hhigh', hlow, hlow', hfirst,
    hlast, number,
    List.cons.injEq, and_true]
  rw [pack 4 (by omega), pack 2 (by omega)]
  omega

theorem peek_alpha {d : Nat} (h : d < 64) : peek b64Alpha d = .ok (digit d) := by
  have hall : ∀ d : Fin 64, peek b64Alpha d = .ok (digit d) := by decide +kernel
  exact hall ⟨d, h⟩

theorem digits_quad (a b c : UInt8) :
    digits (number a b c) = (quad a b c).map fun q => digit q.toNat := by
  have hmap :
      (quad a b c).map (fun q => digit q.toNat) = ((quad a b c).map UInt8.toNat).map digit := by
    rw [List.map_map]
    rfl
  rw [hmap, quad_toNat]
  rfl

theorem quad_lt {a b c q : UInt8} (h : q ∈ quad a b c) : q.toNat < 64 := by
  have hlt := number_lt a b c
  have hmem := List.mem_map_of_mem (f := UInt8.toNat) h
  rw [quad_toNat] at hmem
  simp only [List.mem_cons, List.not_mem_nil, or_false] at hmem
  omega

theorem peek_getElem {mem : Mem} {i : Nat} (h : i < mem.length) : peek mem i = .ok mem[i] := by
  rw [peek, List.getElem?_eq_getElem h]

theorem peek_digit {qs : Mem} (hlt : ∀ q ∈ qs, q.toNat < 64) {i : Nat}
    (h : i < (qs.map fun q => digit q.toNat).length) :
    (do peek b64Alpha (← peek qs i).toNat) = Except.ok (qs.map fun q => digit q.toNat)[i] := by
  have hi : i < qs.length := by rwa [List.length_map] at h
  rw [peek_getElem hi, ok_bind, peek_alpha (hlt _ (List.getElem_mem hi)), List.getElem_map]

end Bits

section Loops

variable {dest : Mem} {optr : Nat}

theorem poke_behind {s : Mem} (c : UInt8) (h : optr + s.length < dest.length) :
    poke (overwrite dest optr s) (optr + s.length) c = .ok (overwrite dest optr (s ++ [c])) := by
  have hlen : (dest.take optr ++ s).length = optr + s.length := by
    rw [List.length_append, List.length_take]
    omega
  have hpoke :=
    poke_at (dest.take optr ++ s) dest[optr + s.length] c (dest.drop (optr + s.length + 1))
  rw [← List.drop_eq_getElem_cons h, hlen] at hpoke
  rw [overwrite, overwrite, hpoke, List.length_append, List.append_assoc, List.append_assoc,
    List.append_assoc]
  rfl

theorem foldlM_poke (f : Nat → Except Fault UInt8) (cs s : Mem)
    (h : optr + (s ++ cs).length ≤ dest.length)
    (hf : ∀ i (hi : i < cs.length), f (s.length + i) = .ok cs[i]) :
    (List.range' s.length cs.length).foldlM (fun dest i => do poke dest (optr + i) (← f i))
      (overwrite dest optr s) = .ok (overwrite dest optr (s ++ cs)) := by
  induction cs generalizing s with
  | nil => rw [List.append_nil]; rfl
  | cons c cs ih =>
    have hc : f s.length = .ok c := hf 0 (Nat.zero_lt_succ _)
    simp only [List.length_append, List.length_cons] at h
    have hrest :=
      ih (s ++ [c]) (by simp only [List.length_append, List.length_cons, List.length_nil]; omega) ?_
    · rw [List.length_append, List.append_assoc] at hrest
      rw [List.length_cons, List.range'_succ, List.foldlM_cons, hc]
      exact (congrArg (· >>= _) (poke_behind c (by omega))).trans hrest
    · intro i hi
      rw [List.length_append, Nat.add_assoc, Nat.add_comm _ i]
      exact hf (i + 1) (Nat.succ_lt_succ hi)

theorem encode_group {g : Mem} {t0 t1 t2 : UInt8} (hpos : 0 < g.length) (hthree : g.length ≤ 3)
    (ht : overwrite [0, 0, 0] 0 g = [t0, t1, t2]) :
    encode g = (digits (number t0 t1 t2)).take (g.length + 1) ++ List.replicate
      (4 - (g.length + 1)) pad := by
  match g, hpos, hthree with
  | [a], _, _ =>
    obtain ⟨rfl, rfl, rfl⟩ : a = t0 ∧ 0 = t1 ∧ 0 = t2 := by simpa [overwrite] using ht
    rfl
  | [a, b], _, _ =>
    obtain ⟨rfl, rfl, rfl⟩ : a = t0 ∧ b = t1 ∧ 0 = t2 := by simpa [overwrite] using ht
    rfl
  | [a, b, c], _, _ =>
    obtain ⟨rfl, rfl, rfl⟩ : a = t0 ∧ b = t1 ∧ c = t2 := by simpa [overwrite] using ht
    rfl

theorem peek_inside (before g after : Mem) {i : Nat} (h : i < g.length) :
    peek (before ++ (g ++ after)) (before.length + i) = .ok g[i] := by
  rw [peek, List.getElem?_append_right (Nat.le_add_right _ _), Nat.add_sub_cancel_left,
    List.getElem?_append_left h, List.getElem?_eq_getElem h]

theorem b64Core_encodes (before g after : Mem) (hpos : 0 < g.length) (hthree : g.length ≤ 3)
    (h : optr + 4 ≤ dest.length) :
    b64Core dest optr (before ++ (g ++ after)) before.length g.length =
      .ok (overwrite dest optr (encode g)) := by
  obtain ⟨t0, t1, t2, ht⟩ : ∃ t0 t1 t2, overwrite [0, 0, 0] 0 g = [t0, t1, t2] :=
    List.length_eq_three.1 (length_overwrite (by simpa using hthree))
  have hread := @foldlM_poke [0, 0, 0] 0
    (fun i => peek (before ++ (g ++ after)) (before.length + i)) g [] (by simpa using hthree)
    fun i hi => by simpa using peek_inside before g after hi
  simp only [overwrite_nil, List.length_nil, List.nil_append, ← List.range_eq_range', Nat.zero_add,
    ht] at hread
  have hdigits : ((digits (number t0 t1 t2)).take (g.length + 1)).length = g.length + 1 :=
    List.length_take_of_le (Nat.succ_le_succ hthree)
  have hquads := @foldlM_poke dest optr
    (fun i => do peek b64Alpha (← peek (quad t0 t1 t2) i).toNat)
    ((digits (number t0 t1 t2)).take (g.length + 1)) [] (by rw [List.nil_append, hdigits]; omega)
    fun i hi => by
      simp only [List.getElem_take, List.length_nil, Nat.zero_add, digits_quad]
      exact peek_digit (fun q => quad_lt) _
  have hpads := @foldlM_poke dest optr (fun _ => .ok pad)
    (List.replicate (4 - (g.length + 1)) pad) ((digits (number t0 t1 t2)).take (g.length + 1))
    (by rw [List.length_append, hdigits, List.length_replicate]; omega)
    fun i hi => by rw [List.getElem_replicate]
  rw [List.nil_append, hdigits, overwrite_nil] at hquads
  rw [hdigits, List.length_replicate, ← encode_group hpos hthree ht] at hpads
  simp only [List.length_nil, ← List.range_eq_range', bind_assoc] at hquads
  rw [b64Core, hread]
  exact (congrArg (fun r => r >>= fun dest =>
    (List.range' (g.length + 1) (4 - (g.length + 1))).foldlM
    (fun dest i => poke dest (optr + i) pad) dest) hquads).trans hpads

theorem b64Loop_end {input : Mem} {len i : Nat} (h : len ≤ i) (iptr : Nat) :
    b64Loop input len i iptr optr dest = .ok dest := by rw [b64Loop, if_neg (Nat.not_lt.2 h)]

theorem b64Loop_next {input dest' : Mem} {len i iptr ntrip : Nat} (h : i < len)
    (hmin : min (len - i) 3 = ntrip)
    (hcore : b64Core dest optr input iptr ntrip = .ok dest') :
    b64Loop input len i iptr optr dest = b64Loop input len (i + 3) (iptr + 3) (optr + 4) dest' := by
  rw [b64Loop, if_pos h, hmin, hcore]
  rfl

/-- The last round may take the pointers too far, but then they are not used any more. -/
theorem b64Loop_last (before after : Mem) {g : Mem} (hpos : 0 < g.length) (hthree : g.length ≤ 3)
    (h : optr + 4 ≤ dest.length) :
    b64Loop (before ++ (g ++ after)) (before.length + g.length) before.length
      before.length optr dest =
      .ok (overwrite dest optr (encode g)) := by
  rw [b64Loop_next (by omega) (by omega) (b64Core_encodes before g after hpos hthree h),
    b64Loop_end (by omega)]

theorem b64Loop_encodes (before m after dest : Mem) (optr : Nat)
    (h : optr + (encode m).length ≤ dest.length) :
    b64Loop (before ++ (m ++ after)) (before.length + m.length) before.length
      before.length optr dest =
      .ok (overwrite dest optr (encode m)) := by
  induction m using encode.induct generalizing before dest optr with
  | case1 => exact (b64Loop_end (Nat.le_refl _) _).trans (by rw [encode, overwrite_nil])
  | case2 a => exact b64Loop_last before after (Nat.succ_pos _) (Nat.le_add_left 1 2) h
  | case3 a b => exact b64Loop_last before after (Nat.succ_pos _) (Nat.le_add_left 2 1) h
  | case4 a b c m ih =>
    have hquad : encode (a :: b :: c :: m) = encode [a, b, c] ++ encode m := rfl
    have hfour : (encode [a, b, c]).length = 4 := rfl
    rw [hquad, List.length_append, hfour] at h
    have hcore := b64Core_encodes before [a, b, c] (m ++ after) (Nat.succ_pos _) (Nat.le_refl 3)
      (show optr + 4 ≤ dest.length by omega)
    have hlen : (overwrite dest optr (encode [a, b, c])).length = dest.length :=
      length_overwrite (by rw [hfour]; omega)
    have hrest := ih (before ++ [a, b, c]) (overwrite dest optr (encode [a, b, c])) (optr + 4)
      (by rw [hlen]; omega)
    have hbehind := @overwrite_overwrite dest optr (encode [a, b, c]) (encode m)
      (by rw [List.length_append, hfour]; omega)
    rw [hfour, ← hquad] at hbehind
    rw [hbehind, List.append_assoc, List.length_append, Nat.add_assoc] at hrest
    have hcount : (a :: b :: c :: m).length = [a, b, c].length + m.length := by
      simp only [List.length_cons, List.length_nil]
      omega
    rw [hcount]
    refine (b64Loop_next ?_ ?_ hcore).trans hrest
    · simp only [List.length_cons]
      omega
    · simp only [List.length_cons, List.length_nil]
      omega

/-- The first so many bytes are encoded, where there is room for the encoding and one byte more. -/
theorem comBase64_encodes (dest m after : Mem) {destsz : Nat} (hdest : destsz ≤ dest.length) :
    comBase64 dest destsz (m ++ after) m.length =
      if 4 * (m.length ⌈/⌉ 3) < destsz then .ok (4 * (m.length ⌈/⌉ 3), overwrite dest 0 (encode m))
      else .ok (0, dest) := by
  have hlen := length_encode m
  have hreslen : (m.length + 2) / 3 * 4 = 4 * (m.length ⌈/⌉ 3) := by
    rw [Nat.ceilDiv_eq_add_pred_div, Nat.mul_comm]
    rfl
  rw [comBase64, hreslen]
  by_cases hroom : 4 * (m.length ⌈/⌉ 3) < destsz
  · have hloop := b64Loop_encodes [] m after dest 0 (by omega)
    rw [List.nil_append, List.length_nil, Nat.zero_add] at hloop
    rw [if_pos hroom, if_neg (Nat.not_le.2 hroom), hloop]
    rfl
  · rw [if_neg hroom, if_pos (Nat.not_lt.1 hroom)]

theorem written_overwrite {m : Mem} (h : 4 * (m.length ⌈/⌉ 3) ≤ dest.length) :
    Written dest (overwrite dest 0 (encode m)) m := by
  have hlen := length_encode m
  have htake : (overwrite dest 0 (encode m)).take (4 * (m.length ⌈/⌉ 3)) = encode m :=
    take_overwrite hlen
  refine ⟨htake, ?_, ?_, length_overwrite (by omega)⟩
  · rw [htake, decode_encode]
  · rw [overwrite, List.take_zero, List.nil_append, List.drop_left' hlen, Nat.zero_add, hlen]

end Loops

section Result

variable {tmpbuf dest : Mem} {destsz : Nat} {name pass : Str}

theorem printed_whole {s : Mem} (htmp : tmpbuf.length = destsz) (h : s.length < destsz) :
    ∃ after, printed tmpbuf destsz s = s ++ after := by
  rw [printed, if_neg (by omega), List.take_of_length_le (by omega), overwrite, List.take_zero,
    List.nil_append,
    List.append_assoc]
  exact ⟨_, rfl⟩

theorem told_plain (hlen : (plain name pass).length ≤ INT_MAX) :
    told (plain name pass) = (plain name pass).length := if_pos hlen

theorem length_plain_pos (name pass : Str) : 0 < (plain name pass).length := by
  rw [plain, List.length_append, List.length_cons]
  omega

theorem saslMkplauth_big (hlen : (plain name pass).length ≤ INT_MAX)
    (h : destsz ≤ (plain name pass).length)
    (base64 : Bool) :
      saslMkplauth (some tmpbuf) dest destsz name pass base64 = .ok ⟨false, dest, destsz⟩ := by
  rw [saslMkplauth, told_plain hlen, Int.toNat_natCast, if_pos (Or.inr h)]

/-- The whole text is there, and it is encoded if the encoding fits as well. -/
theorem saslMkplauth_printed (htmp : tmpbuf.length = destsz) (hdest : destsz ≤ dest.length)
    (hlen : (plain name pass).length ≤ INT_MAX) (h : (plain name pass).length < destsz) :
    saslMkplauth (some tmpbuf) dest destsz name pass true =
      if 4 * ((plain name pass).length ⌈/⌉ 3) < destsz then
        .ok ⟨true, overwrite dest 0 (encode (plain name pass)),
          4 * ((plain name pass).length ⌈/⌉ 3)⟩
      else .ok ⟨false, dest, destsz⟩ := by
  obtain ⟨after, hprinted⟩ := printed_whole htmp h
  have hpos := length_plain_pos name pass
  have hr : ¬((told (plain name pass) < 0) ∨ destsz ≤ (told (plain name pass)).toNat) := by
    rw [told_plain hlen]
    omega
  simp only [saslMkplauth, if_neg hr, if_true, hprinted]
  rw [told_plain hlen, Int.toNat_natCast, comBase64_encodes dest (plain name pass) after hdest]
  by_cases hroom : 4 * ((plain name pass).length ⌈/⌉ 3) < destsz
  · have hne : 4 * ((plain name pass).length ⌈/⌉ 3) ≠ 0 := by
      rw [Nat.ceilDiv_eq_add_pred_div]
      omega
    rw [if_pos hroom, if_pos hroom]
    exact if_neg hne
  · rw [if_neg hroom, if_neg hroom]
    rfl

end Result

/-- The blob is encoded where it fits, and whatever `lsi_com_base64` is given is. -/
theorem plain_auth_encoded (tmpbuf dest : Mem) (destsz : Nat) (name pass : Str)
    (htmp : tmpbuf.length = destsz)
    (hdest : destsz ≤ dest.length) (hlen : (plain name pass).length ≤ INT_MAX) :
    (∃ res, saslMkplauth (some tmpbuf) dest destsz name pass true = .ok res ∧
      Blob dest destsz name pass res) ∧
    ∀ (dest input : Mem) (destsz : Nat), destsz ≤ dest.length →
      if 4 * (input.length ⌈/⌉ 3) < destsz then
        ∃ dest', comBase64 dest destsz input input.length = .ok (4 * (input.length ⌈/⌉ 3), dest') ∧
          Written dest dest' input
      else comBase64 dest destsz input input.length = .ok (0, dest) := by
  constructor
  · by_cases hbig : destsz ≤ (plain name pass).length
    · refine ⟨_, saslMkplauth_big hlen hbig true, ?_, fun h => Bool.noConfusion h,
        fun _ => ⟨rfl, rfl⟩⟩
      exact iff_of_false Bool.false_ne_true fun h => absurd h.1 (Nat.not_lt.2 hbig)
    rw [saslMkplauth_printed htmp hdest hlen (Nat.not_le.1 hbig)]
    by_cases hroom : 4 * ((plain name pass).length ⌈/⌉ 3) < destsz
    · rw [if_pos hroom]
      refine ⟨_, rfl, iff_of_true rfl ⟨Nat.not_le.1 hbig, hroom⟩, ?_, fun h => Bool.noConfusion h⟩
      exact fun _ => ⟨written_overwrite (by omega), rfl⟩
    · rw [if_neg hroom]
      refine ⟨_, rfl, ?_, fun h => Bool.noConfusion h, fun _ => ⟨rfl, rfl⟩⟩
      exact iff_of_false Bool.false_ne_true fun h => hroom h.2
  · intro dest input destsz hdest
    have hencodes := comBase64_encodes dest input [] hdest
    rw [List.append_nil] at hencodes
    split
    · next hroom => exact ⟨_, hencodes.trans (if_pos hroom), written_overwrite (by omega)⟩
    · next hroom => exact hencodes.trans (if_neg hroom)

theorem plain_auth_sample :
    ∃ res, saslMkplauth (some (List.replicate 32 0xaa)) (List.replicate 40 0xff) 32 (ascii "jilles")
      (ascii "sesame") true = .ok res ∧
        Blob (List.replicate 40 0xff) 32 (ascii "jilles") (ascii "sesame") res :=
  (plain_auth_encoded (List.replicate 32 0xaa) (List.replicate 40 0xff) 32 (ascii "jilles")
    (ascii "sesame")
    (by decide) (by decide) (by decide)).1

example :
    encode (plain (ascii "jilles") (ascii "sesame")) = ascii "amlsbGVzAGppbGxlcwBzZXNhbWU=" := by
  decide +kernel

end Srsirc.PlainAuth
