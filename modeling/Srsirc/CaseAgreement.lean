import Srsirc.CaseMapping

namespace Srsirc.CaseAgreement

open CharMap CaseMapping StringMapRefinement

/-- The same byte, or the two cases of a letter or bracket (`A` to `]`). -/
def Alike (c d : UInt8) : Prop :=
  c = d ∨ (0x41 ≤ c ∧ c ≤ 0x5d ∧ d = c + 0x20) ∨ (0x41 ≤ d ∧ d ≤ 0x5d ∧ c = d + 0x20)

def CaretPair (c d : UInt8) : Prop := (c = 0x5e ∧ d = 0x7e) ∨ (c = 0x7e ∧ d = 0x5e)

/-- Strings alike but for carets standing against tildes, of which there are some. -/
structure CaretTwins (a b : Str) : Prop where
  alike : List.Forall₂ (fun c d => Alike c d ∨ CaretPair c d) a b
  caret : ∃ p ∈ a.zip b, CaretPair p.1 p.2

theorem tolower_strict_eq_iff (c d : UInt8) :
    tolower c .strictRfc1459 = tolower d .strictRfc1459 ↔ Alike c d := by
  simp only [tolower, rangeinc, Alike, UInt8.le_iff_toNat_le, ← UInt8.toNat_inj]
  have hc := c.toNat_lt
  have hd := d.toNat_lt
  split <;> split <;> simp_all [UInt8.toNat_add] <;> omega

theorem tolower_rfc_eq_iff (c d : UInt8) :
    tolower c .rfc1459 = tolower d .rfc1459 ↔ Alike c d ∨ CaretPair c d := by
  simp only [tolower, rangeinc, Alike, CaretPair, UInt8.le_iff_toNat_le, ← UInt8.toNat_inj]
  have hc := c.toNat_lt
  have hd := d.toNat_lt
  split <;> split <;> simp_all [UInt8.toNat_add] <;> omega

theorem not_alike_of_caretPair {c d : UInt8} (h : CaretPair c d) : ¬Alike c d := by
  obtain ⟨rfl, rfl⟩ | ⟨rfl, rfl⟩ := h <;> simp [Alike]

theorem folds_strict_iff (a b : Str) :
    Folds .strictRfc1459 a b ↔ List.Forall₂ Alike a b := by
  simp only [Folds, tolower_strict_eq_iff]

theorem folds_rfc_iff (a b : Str) :
    Folds .rfc1459 a b ↔ List.Forall₂ (fun c d => Alike c d ∨ CaretPair c d) a b := by
  simp only [Folds, tolower_rfc_eq_iff]

theorem not_forall_alike {a b : Str} (h : CaretTwins a b) : ¬List.Forall₂ Alike a b := by
  obtain ⟨_, p, hp, hpair⟩ := h
  intro hall
  exact not_alike_of_caretPair hpair ((List.forall₂_iff_zip.mp hall).2 hp)

theorem forall_alike {a b : Str} (h : List.Forall₂ (fun c d => Alike c d ∨ CaretPair c d) a b)
    (hn : ¬CaretTwins a b) : List.Forall₂ Alike a b := by
  obtain ⟨hlen, hall⟩ := List.forall₂_iff_zip.mp h
  refine List.forall₂_iff_zip.mpr ⟨hlen, fun {c d} hcd => ?_⟩
  obtain ha | hp := hall hcd
  · exact ha
  · exact absurd ⟨h, (c, d), hcd, hp⟩ hn

/-- The comparisons under the two RFC 1459 mappings differ on caret twins only. -/
theorem folds_rfc_iff_strict (a b : Str) :
    (Folds .rfc1459 a b ↔ Folds .strictRfc1459 a b) ↔ ¬CaretTwins a b := by
  rw [folds_rfc_iff, folds_strict_iff]
  constructor
  · exact fun h ht => not_forall_alike ht (h.mp ht.alike)
  · exact fun h => ⟨fun hr => forall_alike hr h, fun hs => hs.imp fun _ _ => Or.inl⟩

theorem folds_swap_iff (cm : CMap) (a b : Str) :
    (Folds cm a b ↔ Folds (swap cm) a b) ↔ cm = .ascii ∨ ¬CaretTwins a b := by
  cases cm with
  | rfc1459 => simpa [swap] using folds_rfc_iff_strict a b
  | strictRfc1459 => simpa [swap, iff_comm] using folds_rfc_iff_strict a b
  | ascii => simp [swap]

theorem get_put {n : Nat} [NeZero n] {V : Type} (cm : CMap) (a b : Str) (v : V) :
    StringMap.get (StringMap.put (StringMap.init n V cm) a v []).2.1 b = some v ↔
      pfxeq cm a b = true := by
  have hr := represents_exec (represents_init (n := n) (V := V) cm) (.put a v)
  obtain ⟨w, hcm, hl⟩ := hr
  simp only [exec] at w hcm hl
  rw [StringMapEntries.get_eq w, hl, hcm, apply, Function.update_apply, pfxeq_iff]
  by_cases h : norm cm b = norm cm a
  · simp [h]
  · simp [h, Ne.symm h]

/-- Both implementations agree on two strings, unless these are caret twins. -/
theorem istrcmp_agrees (n : Nat) [NeZero n] (V : Type) (v : V) (cm : CMap) (a b : Str)
    (ha : ∀ c ∈ a, IsKeyByte c) (hb : ∀ c ∈ b, IsKeyByte c) :
    ((istrcmp a b cm = 0 ↔ pfxeq cm a b = true) ∧
      (istrcmp a b cm = 0 ↔
        StringMap.get (StringMap.put (StringMap.init n V cm) a v []).2.1 b = some v)) ↔
      cm = .ascii ∨ ¬CaretTwins a b := by
  rw [get_put, istrcmp_eq_zero, pfxeq_iff_folds cm a b ha hb, and_self, folds_swap_iff]

theorem istrcmp_agrees_brackets :
    ((istrcmp (ascii "a[") (ascii "A\x7b") .rfc1459 = 0 ↔
        pfxeq .rfc1459 (ascii "a[") (ascii "A\x7b") = true) ∧
      (istrcmp (ascii "a[") (ascii "A\x7b") .rfc1459 = 0 ↔ StringMap.get (StringMap.put
        (StringMap.init 8 Nat .rfc1459) (ascii "a[") 5 []).2.1 (ascii "A\x7b") = some 5)) ↔
      CMap.rfc1459 = .ascii ∨ ¬CaretTwins (ascii "a[") (ascii "A\x7b") :=
  istrcmp_agrees 8 Nat 5 .rfc1459 (ascii "a[") (ascii "A\x7b") (by decide +kernel)
    (by decide +kernel)

/-- The caret folds to the tilde in comparisons, but not in keys. -/
theorem istrcmp_disagrees_caret :
    istrcmp (ascii "x^") (ascii "X~") .rfc1459 = 0 ∧
      pfxeq .rfc1459 (ascii "x^") (ascii "X~") = false ∧
      StringMap.get (StringMap.put (StringMap.init 8 Nat .rfc1459) (ascii "x^") 5 []).2.1
        (ascii "X~") = none ∧
      istrcmp (ascii "x^") (ascii "X~") .strictRfc1459 ≠ 0 ∧
      pfxeq .strictRfc1459 (ascii "x^") (ascii "X~") = true := by
  decide +kernel

end Srsirc.CaseAgreement
