import Mathlib.Algebra.Order.Floor.Div
import Mathlib.Data.Nat.Notation

namespace Srsirc.Base64

def digit (d : Nat) : UInt8 :=
  if d < 26 then UInt8.ofNat (0x41 + d)
  else if d < 52 then UInt8.ofNat (0x61 + (d - 26))
  else if d < 62 then UInt8.ofNat (0x30 + (d - 52))
  else if d = 62 then 0x2b else 0x2f

def value (c : UInt8) : Option Nat := (List.range 64).find? fun d => digit d == c

def pad : UInt8 := 0x3d

def number (a b c : UInt8) : Nat := a.toNat * 256 ^ 2 + b.toNat * 256 + c.toNat

def digits (n : Nat) : List UInt8 :=
  [digit (n / 64 ^ 3), digit (n / 64 ^ 2 % 64), digit (n / 64 % 64), digit (n % 64)]

def encode : List UInt8 → List UInt8
  | [] => []
  | [a] => (digits (number a 0 0)).take 2 ++ [pad, pad]
  | [a, b] => (digits (number a b 0)).take 3 ++ [pad]
  | a :: b :: c :: m => digits (number a b c) ++ encode m

def triple (w x y z : UInt8) : Option (List UInt8) := do
  let n := ((← value w) * 64 ^ 3 + (← value x) * 64 ^ 2 + (← value y) * 64 + (← value z))
  some [UInt8.ofNat (n / 256 ^ 2), UInt8.ofNat (n / 256), UInt8.ofNat n]

def decode : List UInt8 → Option (List UInt8)
  | [] => some []
  | w :: x :: y :: z :: s =>
    if s = [] ∧ z = pad then
      if y = pad then (triple w x (digit 0) (digit 0)).map (List.take 1)
      else (triple w x y (digit 0)).map (List.take 2)
    else do some ((← triple w x y z) ++ (← decode s))
  | _ => none

section Digits

variable {d : Nat}

theorem value_digit (h : d < 64) : value (digit d) = some d := by
  have hall : ∀ d : Fin 64, value (digit d) = some d.1 := by decide +kernel
  exact hall ⟨d, h⟩

theorem digit_ne_pad (h : d < 64) : digit d ≠ pad := by
  have hall : ∀ d : Fin 64, digit d ≠ pad := by decide +kernel
  exact hall ⟨d, h⟩

theorem number_lt (a b c : UInt8) : number a b c < 64 ^ 4 := by
  have ha := a.toNat_lt
  have hb := b.toNat_lt
  have hc := c.toNat_lt
  rw [number]
  omega

theorem triple_digits (a b c : UInt8) :
    triple (digit (number a b c / 64 ^ 3)) (digit (number a b c / 64 ^ 2 % 64))
      (digit (number a b c / 64 % 64)) (digit (number a b c % 64)) = some [a, b, c] := by
  have hlt := number_lt a b c
  have hsum : number a b c / 64 ^ 3 * 64 ^ 3 + number a b c / 64 ^ 2 % 64 * 64 ^ 2 +
      number a b c / 64 % 64 * 64 + number a b c % 64 = number a b c := by omega
  have ha := a.toNat_lt
  have hb := b.toNat_lt
  have hc := c.toNat_lt
  rw [triple, value_digit (by omega), value_digit (by omega), value_digit (by omega),
    value_digit (by omega)]
  simp only [Option.bind_eq_bind, Option.bind_some, hsum, Option.some.injEq,
    List.cons.injEq, and_true]
  refine ⟨?_, ?_, ?_⟩ <;> rw [← UInt8.toNat_inj, UInt8.toNat_ofNat', number] <;> omega

end Digits

theorem length_encode (m : List UInt8) : (encode m).length = 4 * (m.length ⌈/⌉ 3) := by
  rw [Nat.ceilDiv_eq_add_pred_div]
  induction m using encode.induct with
  | case1 => rfl
  | case2 a => simp [encode, digits]
  | case3 a b => simp [encode, digits]
  | case4 a b c m ih =>
    rw [encode, List.length_append, ih, digits]
    simp only [List.length_cons, List.length_nil]
    omega

theorem decode_digits (a b c : UInt8) (s : List UInt8) :
    decode (digits (number a b c) ++ s) = (decode s).map ([a, b, c] ++ ·) := by
  have hpad : digit (number a b c % 64) ≠ pad := digit_ne_pad (by omega)
  rw [digits, List.cons_append, List.cons_append, List.cons_append, List.cons_append,
    List.nil_append, decode,
    if_neg fun h => hpad h.2, triple_digits]
  cases decode s <;> rfl

theorem decode_encode (m : List UInt8) : decode (encode m) = some m := by
  induction m using encode.induct with
  | case1 => rfl
  | case2 a =>
    have htriple := triple_digits a 0 0
    have hy : number a 0 0 / 64 % 64 = 0 := by rw [number, UInt8.toNat_zero]; omega
    have hz : number a 0 0 % 64 = 0 := by rw [number, UInt8.toNat_zero]; omega
    rw [hy, hz] at htriple
    have hdecode : decode (encode [a]) =
        (triple (digit (number a 0 0 / 64 ^ 3)) (digit (number a 0 0 / 64 ^ 2 % 64)) (digit 0)
          (digit 0)).map
          (List.take 1) := rfl
    rw [hdecode, htriple]
    rfl
  | case3 a b =>
    have htriple := triple_digits a b 0
    have hz : number a b 0 % 64 = 0 := by rw [number, UInt8.toNat_zero]; omega
    have hy : digit (number a b 0 / 64 % 64) ≠ pad := digit_ne_pad (by omega)
    rw [hz] at htriple
    rw [encode, digits, List.take_succ_cons, List.take_succ_cons, List.take_succ_cons,
      List.take_zero,
      List.cons_append, List.cons_append, List.cons_append, List.nil_append, decode, if_pos ⟨rfl,
        rfl⟩, if_neg hy,
      htriple]
    rfl
  | case4 a b c m ih =>
    rw [encode, decode_digits, ih]
    rfl

end Srsirc.Base64
