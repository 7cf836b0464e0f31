import Mathlib.Data.List.Basic
import Mathlib.Tactic.Common

namespace Srsirc.CharMap

/-- The bytes of a C string, without its terminator. -/
abbrev Str := List UInt8

def ascii (s : String) : Str := s.toList.map fun c => UInt8.ofNat c.toNat

/-- The casemapping constants `CMAP_RFC1459`, `CMAP_STRICT_RFC1459` and `CMAP_ASCII`. -/
inductive CMap
  | rfc1459
  | strictRfc1459
  | ascii
  deriving DecidableEq, Repr

def sLowerAscii : List UInt8 := [
  0x00, 0x01, 0x02, 0x03, 0x04, 0x05, 0x06, 0x07, 0x08, 0x09, 0x0a, 0x0b, 0x0c, 0x0d, 0x0e, 0x0f,
  0x10, 0x11, 0x12, 0x13, 0x14, 0x15, 0x16, 0x17, 0x18, 0x19, 0x1a, 0x1b, 0x1c, 0x1d, 0x1e, 0x1f,
  0x20, 0x00, 0x22, 0x23, 0x24, 0x25, 0x26, 0x27, 0x28, 0x29, 0x2a, 0x2b, 0x2c, 0x2d, 0x2e, 0x2f,
  0x30, 0x31, 0x32, 0x33, 0x34, 0x35, 0x36, 0x37, 0x38, 0x39, 0x3a, 0x3b, 0x3c, 0x3d, 0x3e, 0x3f,
  0x00, 0x41, 0x42, 0x43, 0x44, 0x45, 0x46, 0x47, 0x48, 0x49, 0x4a, 0x4b, 0x4c, 0x4d, 0x4e, 0x4f,
  0x50, 0x51, 0x52, 0x53, 0x54, 0x55, 0x56, 0x57, 0x58, 0x59, 0x5a, 0x5b, 0x5c, 0x5d, 0x5e, 0x5f,
  0x60, 0x41, 0x42, 0x43, 0x44, 0x45, 0x46, 0x47, 0x48, 0x49, 0x4a, 0x4b, 0x4c, 0x4d, 0x4e, 0x4f,
  0x50, 0x51, 0x52, 0x53, 0x54, 0x55, 0x56, 0x57, 0x58, 0x59, 0x5a, 0x7b, 0x7c, 0x7d, 0x7e, 0x7f,
  0x80, 0x81, 0x82, 0x83, 0x84, 0x85, 0x86, 0x87, 0x88, 0x89, 0x8a, 0x8b, 0x8c, 0x8d, 0x8e, 0x8f,
  0x90, 0x91, 0x92, 0x93, 0x94, 0x95, 0x96, 0x97, 0x98, 0x99, 0x9a, 0x9b, 0x9c, 0x9d, 0x9e, 0x9f,
  0xa0, 0xa1, 0xa2, 0xa3, 0xa4, 0xa5, 0xa6, 0xa7, 0xa8, 0xa9, 0xaa, 0xab, 0xac, 0xad, 0xae, 0xaf,
  0xb0, 0xb1, 0xb2, 0xb3, 0xb4, 0xb5, 0xb6, 0xb7, 0xb8, 0xb9, 0xba, 0xbb, 0xbc, 0xbd, 0xbe, 0xbf,
  0xc0, 0xc1, 0xc2, 0xc3, 0xc4, 0xc5, 0xc6, 0xc7, 0xc8, 0xc9, 0xca, 0xcb, 0xcc, 0xcd, 0xce, 0xcf,
  0xd0, 0xd1, 0xd2, 0xd3, 0xd4, 0xd5, 0xd6, 0xd7, 0xd8, 0xd9, 0xda, 0xdb, 0xdc, 0xdd, 0xde, 0xdf,
  0xe0, 0xe1, 0xe2, 0xe3, 0xe4, 0xe5, 0xe6, 0xe7, 0xe8, 0xe9, 0xea, 0xeb, 0xec, 0xed, 0xee, 0xef,
  0xf0, 0xf1, 0xf2, 0xf3, 0xf4, 0xf5, 0xf6, 0xf7, 0xf8, 0xf9, 0xfa, 0xfb, 0xfc, 0xfd, 0xfe, 0xff]

def sLowerRfc1459 : List UInt8 := [
  0x00, 0x01, 0x02, 0x03, 0x04, 0x05, 0x06, 0x07, 0x08, 0x09, 0x0a, 0x0b, 0x0c, 0x0d, 0x0e, 0x0f,
  0x10, 0x11, 0x12, 0x13, 0x14, 0x15, 0x16, 0x17, 0x18, 0x19, 0x1a, 0x1b, 0x1c, 0x1d, 0x1e, 0x1f,
  0x20, 0x00, 0x22, 0x23, 0x24, 0x25, 0x26, 0x27, 0x28, 0x29, 0x2a, 0x2b, 0x2c, 0x2d, 0x2e, 0x2f,
  0x30, 0x31, 0x32, 0x33, 0x34, 0x35, 0x36, 0x37, 0x38, 0x39, 0x3a, 0x3b, 0x3c, 0x3d, 0x3e, 0x3f,
  0x00, 0x41, 0x42, 0x43, 0x44, 0x45, 0x46, 0x47, 0x48, 0x49, 0x4a, 0x4b, 0x4c, 0x4d, 0x4e, 0x4f,
  0x50, 0x51, 0x52, 0x53, 0x54, 0x55, 0x56, 0x57, 0x58, 0x59, 0x5a, 0x5b, 0x5c, 0x5d, 0x5e, 0x5f,
  0x60, 0x41, 0x42, 0x43, 0x44, 0x45, 0x46, 0x47, 0x48, 0x49, 0x4a, 0x4b, 0x4c, 0x4d, 0x4e, 0x4f,
  0x50, 0x51, 0x52, 0x53, 0x54, 0x55, 0x56, 0x57, 0x58, 0x59, 0x5a, 0x5b, 0x5c, 0x5d, 0x7e, 0x7f,
  0x80, 0x81, 0x82, 0x83, 0x84, 0x85, 0x86, 0x87, 0x88, 0x89, 0x8a, 0x8b, 0x8c, 0x8d, 0x8e, 0x8f,
  0x90, 0x91, 0x92, 0x93, 0x94, 0x95, 0x96, 0x97, 0x98, 0x99, 0x9a, 0x9b, 0x9c, 0x9d, 0x9e, 0x9f,
  0xa0, 0xa1, 0xa2, 0xa3, 0xa4, 0xa5, 0xa6, 0xa7, 0xa8, 0xa9, 0xaa, 0xab, 0xac, 0xad, 0xae, 0xaf,
  0xb0, 0xb1, 0xb2, 0xb3, 0xb4, 0xb5, 0xb6, 0xb7, 0xb8, 0xb9, 0xba, 0xbb, 0xbc, 0xbd, 0xbe, 0xbf,
  0xc0, 0xc1, 0xc2, 0xc3, 0xc4, 0xc5, 0xc6, 0xc7, 0xc8, 0xc9, 0xca, 0xcb, 0xcc, 0xcd, 0xce, 0xcf,
  0xd0, 0xd1, 0xd2, 0xd3, 0xd4, 0xd5, 0xd6, 0xd7, 0xd8, 0xd9, 0xda, 0xdb, 0xdc, 0xdd, 0xde, 0xdf,
  0xe0, 0xe1, 0xe2, 0xe3, 0xe4, 0xe5, 0xe6, 0xe7, 0xe8, 0xe9, 0xea, 0xeb, 0xec, 0xed, 0xee, 0xef,
  0xf0, 0xf1, 0xf2, 0xf3, 0xf4, 0xf5, 0xf6, 0xf7, 0xf8, 0xf9, 0xfa, 0xfb, 0xfc, 0xfd, 0xfe, 0xff]

def sLowerStrictRfc1459 : List UInt8 := [
  0x00, 0x01, 0x02, 0x03, 0x04, 0x05, 0x06, 0x07, 0x08, 0x09, 0x0a, 0x0b, 0x0c, 0x0d, 0x0e, 0x0f,
  0x10, 0x11, 0x12, 0x13, 0x14, 0x15, 0x16, 0x17, 0x18, 0x19, 0x1a, 0x1b, 0x1c, 0x1d, 0x1e, 0x1f,
  0x20, 0x00, 0x22, 0x23, 0x24, 0x25, 0x26, 0x27, 0x28, 0x29, 0x2a, 0x2b, 0x2c, 0x2d, 0x2e, 0x2f,
  0x30, 0x31, 0x32, 0x33, 0x34, 0x35, 0x36, 0x37, 0x38, 0x39, 0x3a, 0x3b, 0x3c, 0x3d, 0x3e, 0x3f,
  0x00, 0x41, 0x42, 0x43, 0x44, 0x45, 0x46, 0x47, 0x48, 0x49, 0x4a, 0x4b, 0x4c, 0x4d, 0x4e, 0x4f,
  0x50, 0x51, 0x52, 0x53, 0x54, 0x55, 0x56, 0x57, 0x58, 0x59, 0x5a, 0x5b, 0x5c, 0x5d, 0x5e, 0x5f,
  0x60, 0x41, 0x42, 0x43, 0x44, 0x45, 0x46, 0x47, 0x48, 0x49, 0x4a, 0x4b, 0x4c, 0x4d, 0x4e, 0x4f,
  0x50, 0x51, 0x52, 0x53, 0x54, 0x55, 0x56, 0x57, 0x58, 0x59, 0x5a, 0x5b, 0x5c, 0x5d, 0x5e, 0x7f,
  0x80, 0x81, 0x82, 0x83, 0x84, 0x85, 0x86, 0x87, 0x88, 0x89, 0x8a, 0x8b, 0x8c, 0x8d, 0x8e, 0x8f,
  0x90, 0x91, 0x92, 0x93, 0x94, 0x95, 0x96, 0x97, 0x98, 0x99, 0x9a, 0x9b, 0x9c, 0x9d, 0x9e, 0x9f,
  0xa0, 0xa1, 0xa2, 0xa3, 0xa4, 0xa5, 0xa6, 0xa7, 0xa8, 0xa9, 0xaa, 0xab, 0xac, 0xad, 0xae, 0xaf,
  0xb0, 0xb1, 0xb2, 0xb3, 0xb4, 0xb5, 0xb6, 0xb7, 0xb8, 0xb9, 0xba, 0xbb, 0xbc, 0xbd, 0xbe, 0xbf,
  0xc0, 0xc1, 0xc2, 0xc3, 0xc4, 0xc5, 0xc6, 0xc7, 0xc8, 0xc9, 0xca, 0xcb, 0xcc, 0xcd, 0xce, 0xcf,
  0xd0, 0xd1, 0xd2, 0xd3, 0xd4, 0xd5, 0xd6, 0xd7, 0xd8, 0xd9, 0xda, 0xdb, 0xdc, 0xdd, 0xde, 0xdf,
  0xe0, 0xe1, 0xe2, 0xe3, 0xe4, 0xe5, 0xe6, 0xe7, 0xe8, 0xe9, 0xea, 0xeb, 0xec, 0xed, 0xee, 0xef,
  0xf0, 0xf1, 0xf2, 0xf3, 0xf4, 0xf5, 0xf6, 0xf7, 0xf8, 0xf9, 0xfa, 0xfb, 0xfc, 0xfd, 0xfe, 0xff]

/-- `g_cmap`, indexed by the casemapping constant. -/
def table : CMap → List UInt8
  | .rfc1459 => sLowerRfc1459
  | .strictRfc1459 => sLowerStrictRfc1459
  | .ascii => sLowerAscii

def gCmap (cm : CMap) (c : UInt8) : UInt8 := (table cm).getD c.toNat 0

/-- What a key stands for: its image, cut before the first byte mapped to zero. -/
def norm (cm : CMap) (s : Str) : Str := (s.map (gCmap cm)).takeWhile (· ≠ 0)

/-- Key comparison in a bucket. The end of a list is its terminating zero. -/
def pfxeq (cm : CMap) : Str → Str → Bool
  | a :: n1, b :: n2 =>
    let c1 := gCmap cm a
    let c2 := gCmap cm b
    if c1 &&& c2 ≠ 0 then
      if c1 ≠ c2 then false else pfxeq cm n1 n2
    else c1 == c2
  | [], b :: _ => gCmap cm 0 == gCmap cm b
  | a :: _, [] => gCmap cm a == gCmap cm 0
  | [], [] => gCmap cm 0 == gCmap cm 0

def rangeinc : CMap → UInt8
  | .rfc1459 => 4
  | .strictRfc1459 => 3
  | .ascii => 0

def tolower (c : UInt8) (cm : CMap) : UInt8 :=
  if 0x41 ≤ c ∧ c ≤ 0x5a + rangeinc cm then c + 0x20 else c

/-- The value of a `char`, which is signed on the supported platforms. -/
def charVal (c : UInt8) : Int := c.toInt8.toInt

def istrncmp : Str → Str → Nat → CMap → Int
  | _, _, 0, _ => 0
  | a :: n1, b :: n2, len + 1, cm =>
    if tolower a cm ≠ tolower b cm then charVal (tolower a cm) - charVal (tolower b cm)
    else istrncmp n1 n2 len cm
  | _ :: _, [], _ + 1, _ => 1
  | [], _ :: _, _ + 1, _ => -1
  | [], [], _ + 1, _ => 0

def istrcmp (n1 n2 : Str) (cm : CMap) : Int :=
  istrncmp n1 n2 ((if n1.length < n2.length then n1.length else n2.length) + 1) cm

/-- A fact about every byte, from its 256 instances. -/
theorem byte_cases {p : UInt8 → Prop} (h : ∀ i : Fin 256, p (UInt8.ofNat i)) (c : UInt8) : p c := by
  have hc := h ⟨c.toNat, c.toNat_lt⟩
  rwa [UInt8.ofNat_toNat] at hc

@[simp] theorem gCmap_zero (cm : CMap) : gCmap cm 0 = 0 := by cases cm <;> rfl

@[simp] theorem norm_nil (cm : CMap) : norm cm [] = [] := rfl

theorem norm_cons (cm : CMap) (c : UInt8) (s : Str) :
    norm cm (c :: s) = if gCmap cm c = 0 then [] else gCmap cm c :: norm cm s := by
  by_cases h : gCmap cm c = 0 <;> simp [norm, h]

theorem norm_take (cm : CMap) (s : Str) (n : Nat) : norm cm (s.take n) = (norm cm s).take n := by
  rw [norm, norm, List.map_take]
  induction s.map (gCmap cm) generalizing n with
  | nil => simp
  | cons x l ih =>
    cases n with
    | zero => simp
    | succ n =>
      rw [List.take_succ_cons, List.takeWhile_cons, List.takeWhile_cons]
      split
      · rw [ih, List.take_succ_cons]
      · rfl

theorem norm_length_le (cm : CMap) (s : Str) : (norm cm s).length ≤ s.length :=
  calc (norm cm s).length ≤ (s.map (gCmap cm)).length := (List.takeWhile_sublist _).length_le
    _ = s.length := List.length_map _

theorem norm_takeWhile {cm : CMap} {p : UInt8 → Bool}
    (hp : ∀ c, p c = false → gCmap cm c = 0) (s : Str) :
    norm cm (s.takeWhile p) = norm cm s := by
  induction s with
  | nil => rfl
  | cons c s ih =>
    cases hc : p c with
    | true => rw [List.takeWhile_cons_of_pos hc, norm_cons, norm_cons, ih]
    | false => rw [List.takeWhile_cons_of_neg (by simp [hc]), norm_cons, if_pos (hp c hc), norm_nil]

/-- The bitwise conjunction in the loop condition is harmless: two nonzero
codes with no common bit differ anyway. -/
theorem pfxeq_cons (cm : CMap) (c d : UInt8) (a b : Str) :
    pfxeq cm (c :: a) (d :: b) =
      if gCmap cm c = gCmap cm d then (gCmap cm c == 0 || pfxeq cm a b) else false := by
  by_cases he : gCmap cm c = gCmap cm d
  · by_cases hd : gCmap cm d = 0 <;> simp [pfxeq, he, hd]
  · simp [pfxeq, he]

theorem pfxeq_iff (cm : CMap) (a b : Str) : pfxeq cm a b = true ↔ norm cm a = norm cm b := by
  induction a generalizing b with
  | nil =>
    cases b with
    | nil => simp [pfxeq]
    | cons d b => by_cases h : gCmap cm d = 0 <;> simp [pfxeq, norm_cons, h, Ne.symm]
  | cons c a ih =>
    cases b with
    | nil => by_cases h : gCmap cm c = 0 <;> simp [pfxeq, norm_cons, h]
    | cons d b =>
      rw [pfxeq_cons, norm_cons, norm_cons]
      by_cases he : gCmap cm c = gCmap cm d
      · by_cases hd : gCmap cm d = 0 <;> simp [he, hd, ih]
      · by_cases hc : gCmap cm c = 0 <;> by_cases hd : gCmap cm d = 0 <;> simp_all

end Srsirc.CharMap
