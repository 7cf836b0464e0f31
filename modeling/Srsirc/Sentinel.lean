import Srsirc.LineGrammar

namespace Srsirc.Sentinel

open CharMap Memory Tokenize TokenGrammar LineGrammar

/-- Behind the prefix, the entries in front of `k` are there and the ones from `k` on are not. -/
structure EndsAt (tok : List (Option Nat)) (k : Nat) : Prop where
  there : ∀ i, 1 ≤ i → i < k → ∃ p, tok[i]? = some (some p)
  behind : ∀ i, k ≤ i → i ≤ 17 → tok[i]? = some none

variable {α : Type} {a : Option α} {b : α} {l : List α}

theorem tokarr_there {i : Nat} (hi : 1 ≤ i) (hlt : i < l.length + 2) :
    ∃ x, (tokarr (a :: some b :: l.map some))[i]? = some (some x) := by
  rw [tokarr, List.getElem?_append_left (by simp; omega)]
  rcases i with _ | _ | i
  · exact absurd hi (by decide)
  · exact ⟨b, rfl⟩
  · have hlt' : i < l.length := by omega
    exact ⟨l[i], by simp [hlt']⟩

theorem tokarr_behind {i : Nat} (hi : l.length + 2 ≤ i) (hlt : i ≤ 17) :
    (tokarr (a :: some b :: l.map some))[i]? = some none := by
  rw [tokarr, List.getElem?_append_right (by simp; omega), List.getElem?_replicate]
  simp only [List.length_cons, List.length_map, tokarrSize]
  rw [if_pos (by omega)]

/-- Whether there is room for a terminator can be seen from the number of parameters. -/
theorem endsAt_map {f : Nat → α} {tok : List (Option Nat)} (hl : l.length ≤ 16)
    (h : tok.map (Option.map f) = tokarr (a :: some b :: l.map some)) :
    (∃ k, 2 ≤ k ∧ k ≤ 17 ∧ EndsAt tok k) ↔ l.length ≤ 15 := by
  have hget : ∀ i :
      Nat, (tok[i]?).map (Option.map f) = (tokarr (a :: some b :: l.map some))[i]? := by
    intro i
    rw [← List.getElem?_map, h]
  have hthere : ∀ i, 1 ≤ i → i < l.length + 2 → ∃ p, tok[i]? = some (some p) := by
    intro i hi hlt
    obtain ⟨x, hx⟩ := @tokarr_there _ a b l i hi hlt
    rw [← hget, Option.map_eq_some_iff] at hx
    obtain ⟨e, he, hx⟩ := hx
    obtain ⟨p, rfl, _⟩ := Option.map_eq_some_iff.1 hx
    exact ⟨p, he⟩
  have hbehind : ∀ i, l.length + 2 ≤ i → i ≤ 17 → tok[i]? = some none := by
    intro i hi hlt
    have hx := @tokarr_behind _ a b l i hi hlt
    rw [← hget, Option.map_eq_some_iff] at hx
    obtain ⟨e, he, hx⟩ := hx
    rw [he, Option.map_eq_none_iff.1 hx]
  constructor
  · rintro ⟨k, _, hk, hends⟩
    by_contra hmore
    obtain ⟨p, hp⟩ := hthere 17 (by decide) (by omega)
    have hnone := hends.behind 17 hk (Nat.le_refl _)
    rw [hp] at hnone
    cases hnone
  · intro hfew
    exact ⟨l.length + 2, by omega, by omega, hthere, hbehind⟩

/-- The token array of a message ends in a null pointer if and only if the line does not have
as many parameters as there are places for them. -/
theorem sentinel_iff (pre s post : Str) (hs : ∀ c ∈ s, c ≠ 0)
    (hok : (tokenize (pre ++ (s ++ 0 :: post)) pre.length).1 = true) :
    (∃ k, 2 ≤ k ∧ k ≤ 17 ∧ EndsAt (tokenize (pre ++ (s ++ 0 :: post)) pre.length).2.2 k) ↔
      (params (rest 0x20 (fromCmd s))).length ≤ 15 := by
  have hacc : Accepted s := by
    by_contra hrej
    obtain ⟨_, _, _, ht⟩ := @tokenize_rejected pre s post hs hrej _ rfl
    rw [ht] at hok
    cases hok
  have htexts := (tokenize_accepted pre s post hs hacc rfl).texts
  rw [fieldsBy] at htexts
  rw [endsAt_map (length_slots_le 16 _) htexts]
  constructor
  · intro hfew
    rwa [← slots_few 16 _ (Nat.lt_succ_of_le hfew)]
  · intro hfew
    rwa [slots_eq _ 16 (Nat.lt_succ_of_le hfew)]

theorem sentinel_iff_join :
    (∃ k, 2 ≤ k ∧ k ≤ 17 ∧ EndsAt (tokenize (ascii "JOIN #a" ++ [0]) 0).2.2 k) ↔
      (params (rest 0x20 (fromCmd (ascii "JOIN #a")))).length ≤ 15 :=
  sentinel_iff [] (ascii "JOIN #a") [] (by decide +kernel) (by decide +kernel)

/-- With sixteen parameters, the last entry is taken. -/
theorem sentinel_missing :
    (tokenize (ascii "C 1 2 3 4 5 6 7 8 9 a b c d e f g" ++ [0]) 0).1 = true ∧
    ¬∃ k, 2 ≤ k ∧ k ≤ 17 ∧
      EndsAt (tokenize (ascii "C 1 2 3 4 5 6 7 8 9 a b c d e f g" ++ [0]) 0).2.2 k := by
  refine ⟨by decide +kernel, ?_⟩
  rintro ⟨k, _, hk, hends⟩
  have htaken :
      (tokenize (ascii "C 1 2 3 4 5 6 7 8 9 a b c d e f g" ++ [0]) 0).2.2[17]? ≠ some none := by
    decide +kernel
  exact htaken (hends.behind 17 hk (Nat.le_refl _))

end Srsirc.Sentinel
