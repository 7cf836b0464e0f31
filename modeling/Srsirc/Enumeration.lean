import Mathlib.Data.Set.Card

namespace Srsirc.Enumeration

variable {A B : Type}

/-- A list of elements of a set with room for `cnt` of them: as many as fit, and none twice. -/
structure Lists (S : Set A) (cnt : Nat) (l : List A) : Prop where
  length : l.length = min cnt S.ncard
  nodup : l.Nodup
  sound : ∀ a ∈ l, a ∈ S
  all : S.ncard ≤ cnt → ∀ a ∈ S, a ∈ l

variable {S : Set A} {l : List A} {cnt : Nat}

end Srsirc.Enumeration
