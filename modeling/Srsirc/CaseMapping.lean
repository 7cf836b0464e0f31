import Mathlib.Data.List.Forall2
import Srsirc.StringMapRefinement

namespace Srsirc.CaseMapping

open CharMap

def swap : CMap → CMap
  | .rfc1459 => .strictRfc1459
  | .strictRfc1459 => .rfc1459
  | .ascii => .ascii

/-- The tables in closed form. Each of the RFC 1459 tables folds the range that
`tolower` uses for the other one. -/
def closedForm (cm : CMap) (c : UInt8) : UInt8 :=
  if c = 0x21 ∨ c = 0x40 then 0
  else if 0x61 ≤ c ∧ c ≤ 0x7a + rangeinc (swap cm) then c - 0x20 else c

theorem table_closedForm (cm : CMap) :
    table cm = (List.range 256).map fun i => closedForm cm (UInt8.ofNat i) := by
  cases cm <;> decide +kernel

theorem gCmap_closedForm (cm : CMap) (c : UInt8) : gCmap cm c = closedForm cm c := by
  have hc := c.toNat_lt
  simp [gCmap, table_closedForm, List.getD, hc]

/-- A byte of a key: no terminator and no separator of an identity. -/
def IsKeyByte (c : UInt8) : Prop := c ≠ 0 ∧ c ≠ 0x21 ∧ c ≠ 0x40

instance (c : UInt8) : Decidable (IsKeyByte c) := inferInstanceAs (Decidable (_ ∧ _ ∧ _))

theorem gCmap_ne_zero (cm : CMap) (c : UInt8) (h : IsKeyByte c) : gCmap cm c ≠ 0 := by
  rw [gCmap_closedForm]
  revert h
  apply byte_cases (p := fun c => IsKeyByte c → closedForm cm c ≠ 0)
  cases cm <;> decide +kernel

theorem gCmap_tolower (cm : CMap) (c : UInt8) : gCmap cm (tolower c (swap cm)) = gCmap cm c := by
  rw [gCmap_closedForm, gCmap_closedForm]
  apply byte_cases (p := fun c => closedForm cm (tolower c (swap cm)) = closedForm cm c)
  cases cm <;> decide +kernel

theorem tolower_gCmap (cm : CMap) (c : UInt8) (h : IsKeyByte c) :
    tolower (gCmap cm c) (swap cm) = tolower c (swap cm) := by
  rw [gCmap_closedForm]
  revert h
  apply byte_cases (p := fun c => IsKeyByte c →
    tolower (closedForm cm c) (swap cm) = tolower c (swap cm))
  cases cm <;> decide +kernel

theorem gCmap_eq_iff (cm : CMap) (c d : UInt8) (hc : IsKeyByte c) (hd : IsKeyByte d) :
    gCmap cm c = gCmap cm d ↔ tolower c (swap cm) = tolower d (swap cm) := by
  constructor
  · intro h
    rw [← tolower_gCmap cm c hc, h, tolower_gCmap cm d hd]
  · intro h
    rw [← gCmap_tolower cm c, h, gCmap_tolower cm d]

theorem norm_eq_map (cm : CMap) (a : Str) (ha : ∀ c ∈ a, IsKeyByte c) :
    norm cm a = a.map (gCmap cm) := by
  induction a with
  | nil => rfl
  | cons c a ih =>
    obtain ⟨hc, ha⟩ := List.forall_mem_cons.mp ha
    rw [norm_cons, if_neg (gCmap_ne_zero cm c hc), ih ha, List.map_cons]

def Folds (cm : CMap) (a b : Str) : Prop :=
  List.Forall₂ (fun c d => tolower c cm = tolower d cm) a b

theorem pfxeq_iff_folds (cm : CMap) (a b : Str) (ha : ∀ c ∈ a, IsKeyByte c)
    (hb : ∀ c ∈ b, IsKeyByte c) : pfxeq cm a b = true ↔ Folds (swap cm) a b := by
  rw [pfxeq_iff, norm_eq_map cm a ha, norm_eq_map cm b hb]
  induction a generalizing b with
  | nil => cases b <;> simp [Folds]
  | cons c a ih =>
    cases b with
    | nil => simp [Folds]
    | cons d b =>
      obtain ⟨hc, ha⟩ := List.forall_mem_cons.mp ha
      obtain ⟨hd, hb⟩ := List.forall_mem_cons.mp hb
      have h := ih b ha hb
      simp only [Folds] at h
      simp only [List.map_cons, List.cons.injEq, Folds, List.forall₂_cons, h,
        gCmap_eq_iff cm c d hc hd]

theorem charVal_sub_eq_zero (c d : UInt8) : charVal c - charVal d = 0 ↔ c = d := by
  constructor
  · intro h
    have hi : c.toInt8 = d.toInt8 :=
      Int8.toInt_inj.mp (by simpa [charVal] using Int.sub_eq_zero.mp h)
    rw [← UInt8.toUInt8_toInt8 c, hi, UInt8.toUInt8_toInt8]
  · rintro rfl
    simp

theorem istrncmp_eq_zero (a b : Str) (len : Nat) (cm : CMap) (h : a.length < len ∨ b.length < len) :
    istrncmp a b len cm = 0 ↔ Folds cm a b := by
  induction a generalizing b len with
  | nil =>
    obtain _ | len := len
    · omega
    · cases b <;> simp [istrncmp, Folds]
  | cons c a ih =>
    obtain _ | len := len
    · omega
    · cases b with
      | nil => simp [istrncmp, Folds]
      | cons d b =>
        have hlen : a.length < len ∨ b.length < len := by simpa using h
        rw [istrncmp, Folds, List.forall₂_cons]
        by_cases hcd : tolower c cm = tolower d cm
        · simpa [hcd, Folds] using ih b len hlen
        · simp [hcd, charVal_sub_eq_zero]

theorem istrcmp_eq_zero (a b : Str) (cm : CMap) : istrcmp a b cm = 0 ↔ Folds cm a b := by
  rw [istrcmp]
  apply istrncmp_eq_zero
  split <;> omega

end Srsirc.CaseMapping
