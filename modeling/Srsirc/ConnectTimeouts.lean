import Mathlib.Algebra.Group.Nat.Defs
import Srsirc.Consocket

namespace Srsirc.ConnectTimeouts

open CharMap Consocket

/-- What is documented about the timeout for one of `count` addresses. The connecting began at
`start`, and it is now `now`. -/
structure Documented (softto hardto : UInt64) (count : Nat) (start now toUs : UInt64) : Prop where
  forever : toUs = 0 → softto = 0 ∧ hardto = 0
  hard : hardto ≠ 0 → toUs.toNat ≤ start.toNat + hardto.toNat - now.toNat
  soft : softto ≠ 0 → toUs.toNat ≤ max softto.toNat (hardto.toNat / count)

/-- Whenever an address is tried, its timeout is as documented. -/
def AllDocumented (softto hardto : UInt64) (count : Nat) (clock : Clock)
    (attempts : List Attempt) : Prop :=
  ∀ i, ∀ a ∈ attempts[i]?, Documented softto hardto count (clock 0) (clock (i + 1)) a.toUs

section Loop

variable {remaddrSz : Nat} {softto hardtend : UInt64} {ai : Addr} {alist : List Addr}
    {clock : Clock}

/-- The timeout of every attempt comes from the reading ahead of it. -/
theorem tryAddrs_waiting : ∀ i, ∀ a ∈ (tryAddrs remaddrSz softto hardtend alist clock).attempts[i]?,
    a.toUs = waiting softto hardtend (clock i) ∧ ¬Late hardtend (clock i) := by
  induction alist generalizing clock with
  | nil => exact fun _ _ ha => by cases ha
  | cons ai alist ih =>
    intro i a ha
    by_cases hl : Late hardtend (clock 0)
    · rw [tryAddrs_late hl] at ha
      cases ha
    · by_cases hf : Fails softto hardtend ai (clock 0)
      · rw [tryAddrs_fails hl hf] at ha
        cases i with
        | zero =>
          obtain rfl := Option.some.inj ha
          exact ⟨rfl, hl⟩
        | succ i =>
          have hrest := ih i a ha
          rw [checked] at hrest
          split at hrest
          · next h0 =>
            rw [h0] at hrest ⊢
            exact ⟨hrest.1, fun h => h.1 rfl⟩
          · exact hrest
      · obtain ⟨sck, remote, hr⟩ := @tryAddrs_connects remaddrSz _ _ _ alist _ hl hf
        rw [hr] at ha
        cases i with
        | zero =>
          obtain rfl := Option.some.inj ha
          exact ⟨rfl, hl⟩
        | succ i => cases ha

theorem tryAddrs_first (h : ¬Late hardtend (clock 0)) :
    ∃ a, (tryAddrs remaddrSz softto hardtend (ai :: alist) clock).attempts[0]? = some a := by
  by_cases hf : Fails softto hardtend ai (clock 0)
  · rw [tryAddrs_fails h hf]
    exact ⟨_, rfl⟩
  · obtain ⟨sck, remote, hr⟩ := @tryAddrs_connects remaddrSz _ _ _ alist _ h hf
    rw [hr]
    exact ⟨_, rfl⟩

end Loop

section Timeouts

variable {softto hardto hardtend now : UInt64} {count : Nat}

theorem toNat_count (hpos : 0 < softto.toNat) (hmul : softto.toNat * count < 2 ^ 64) :
    (UInt64.ofNat count).toNat = count := by
  rw [UInt64.toNat_ofNat', Nat.mod_eq_of_lt]
  exact Nat.lt_of_le_of_lt (Nat.le_mul_of_pos_left count hpos) hmul

theorem toNat_pos (h : softto ≠ 0) : 0 < softto.toNat :=
  Nat.pos_of_ne_zero fun h0 => h (UInt64.toNat_inj.1 h0)

theorem stretch_zero (hardto : UInt64) (count : Nat) : stretch 0 hardto count = 0 :=
  if_neg fun h => h.1 rfl

/-- The stretched timeout is the one that is asked for or an equal share of the hard one. -/
theorem stretch_cases (hs : softto ≠ 0) (hmul : softto.toNat * count < 2 ^ 64) :
    stretch softto hardto count = softto ∨
      softto.toNat * count < hardto.toNat ∧ (stretch softto hardto count).toNat =
        hardto.toNat / count := by
  have hcount := toNat_count (toNat_pos hs) hmul
  rw [stretch]
  split
  · next h =>
    obtain ⟨_, _, hlt⟩ := h
    rw [UInt64.lt_iff_toNat_lt, UInt64.toNat_mul, hcount, Nat.mod_eq_of_lt hmul] at hlt
    exact Or.inr ⟨hlt, by rw [UInt64.toNat_div, hcount]⟩
  · exact Or.inl rfl

theorem stretch_le (hs : softto ≠ 0) (hmul : softto.toNat * count < 2 ^ 64) :
    (stretch softto hardto count).toNat ≤ max softto.toNat (hardto.toNat / count) := by
  obtain h | ⟨_, h⟩ := @stretch_cases _ hardto _ hs hmul
  · rw [h]
    exact Nat.le_max_left _ _
  · rw [h]
    exact Nat.le_max_right _ _

theorem stretch_ne_zero (hs : softto ≠ 0) (hc : 0 < count) (hmul : softto.toNat * count < 2 ^ 64) :
    0 < (stretch softto hardto count).toNat := by
  obtain h | ⟨hlt, h⟩ := @stretch_cases _ hardto _ hs hmul
  · rw [h]
    exact toNat_pos hs
  · rw [h]
    exact Nat.lt_of_lt_of_le (toNat_pos hs) ((Nat.le_div_iff_mul_le hc).2 hlt.le)

theorem waiting_le_soft (h0 : hardtend ≠ 0) :
    (waiting softto hardtend now).toNat ≤ softto.toNat := by
  rw [waiting, if_neg h0]
  split
  · exact Nat.le_refl _
  · next h => exact UInt64.le_iff_toNat_le.1 (UInt64.not_lt.1 h)

theorem waiting_le_hard (h : now < hardtend) :
    (waiting softto hardtend now).toNat ≤ hardtend.toNat - now.toNat := by
  have h0 : hardtend ≠ 0 := by
    rintro rfl
    exact absurd h UInt64.not_lt_zero
  have hsub := UInt64.toNat_sub_of_le hardtend now (UInt64.le_of_lt h)
  rw [waiting, if_neg h0]
  split
  · next hlt => exact hsub ▸ (UInt64.lt_iff_toNat_lt.1 hlt).le
  · exact hsub.le

theorem waiting_pos (hs : 0 < softto.toNat) (h : now < hardtend) :
    0 < (waiting softto hardtend now).toNat := by
  have h0 : hardtend ≠ 0 := by
    rintro rfl
    exact absurd h UInt64.not_lt_zero
  have hsub := UInt64.toNat_sub_of_le hardtend now (UInt64.le_of_lt h)
  have hlt := UInt64.lt_iff_toNat_lt.1 h
  rw [waiting, if_neg h0]
  split
  · exact hs
  · rw [hsub]
    omega

theorem waiting_zero (softto now : UInt64) : waiting softto 0 now = 0 := by
  rw [waiting, if_pos rfl]
  exact if_neg UInt64.not_lt_zero

theorem waiting_zero_soft (hardtend now : UInt64) : waiting 0 hardtend now = 0 := by
  rw [waiting]
  generalize (if hardtend = 0 then 0 else hardtend - now) = trem
  split
  · rfl
  · next h => exact UInt64.le_zero_iff.1 (UInt64.not_lt.1 h)

end Timeouts

variable {remaddrSz : Nat} {alist : List Addr} {softto hardto : UInt64} {clock : Clock}

theorem consocket_hard (h : hardto ≠ 0) : (consocket remaddrSz alist softto hardto clock).attempts =
    (tryAddrs remaddrSz (stretch softto hardto alist.length) (clock 0 + hardto) alist
      fun i => clock (i + 1)).attempts := by
  rw [consocket, hardDeadline, if_pos h]
  dsimp only [tstampUs]
  split
  · next h => rw [h]; rfl
  · rfl

theorem consocket_endless : (consocket remaddrSz alist softto 0 clock).attempts =
    (tryAddrs remaddrSz (stretch softto 0 alist.length) 0 alist clock).attempts := by
  rw [consocket, hardDeadline, if_neg (not_not.2 rfl)]
  dsimp only
  split
  · next h => rw [h]; rfl
  · rfl

theorem documented_of_both (hs : softto ≠ 0) (hh : hardto ≠ 0) (htend : clock 0 + hardto ≠ 0)
    (hmul : softto.toNat * alist.length < 2 ^ 64) : AllDocumented softto hardto alist.length clock
      (consocket remaddrSz alist softto hardto clock).attempts := by
  intro i a ha
  rw [consocket_hard hh] at ha
  obtain ⟨hwait, hnow⟩ := tryAddrs_waiting i a ha
  have hnow : clock (i + 1) < clock 0 + hardto := UInt64.not_le.1 fun h => hnow ⟨htend, h⟩
  have hcount : 0 < alist.length := by
    refine List.length_pos_iff.2 fun h => ?_
    rw [h] at ha
    cases ha
  have hpos := waiting_pos (@stretch_ne_zero _ hardto _ hs hcount hmul) hnow
  have hhard := @waiting_le_hard (stretch softto hardto alist.length) _ _ hnow
  have hsum : (clock 0 + hardto).toNat ≤ (clock 0).toNat + hardto.toNat := by
    rw [UInt64.toNat_add]
    exact Nat.mod_le _ _
  rw [hwait]
  refine ⟨fun h0 => ?_, fun _ => hhard.trans (Nat.sub_le_sub_right hsum _), fun _ => ?_⟩
  · rw [h0] at hpos
    exact absurd hpos (Nat.lt_irrefl 0)
  · exact (waiting_le_soft htend).trans (stretch_le hs hmul)

/-- An attempt without a timeout is documented only without any. -/
theorem not_documented_forever {a : Attempt} {attempts : List Attempt} (ha : attempts[0]? = some a)
    (hforever : a.toUs = 0) (hsome : ¬(softto = 0 ∧ hardto = 0)) (count : Nat) :
    ¬AllDocumented softto hardto count clock attempts :=
  fun h => hsome ((h 0 a ha).forever hforever)

/-- The timeouts of all attempts are as documented just if there are no attempts, no timeouts,
or two of them, provided that the deadline is not taken for none. -/
theorem timeouts_documented_iff (remaddrSz : Nat) (alist : List Addr) (softto hardto : UInt64)
    (clock : Clock)
    (hmul : softto.toNat * alist.length < 2 ^ 64) :
    AllDocumented softto hardto alist.length clock
      (consocket remaddrSz alist softto hardto clock).attempts ↔
      alist = [] ∨ (hardto ≠ 0 ∧ Late (clock 0 + hardto) (clock 1)) ∨ (softto = 0 ∧ hardto = 0) ∨
        (softto ≠ 0 ∧ hardto ≠ 0 ∧ clock 0 + hardto ≠ 0) := by
  constructor
  · intro h
    by_contra hnot
    obtain ⟨hne, hlate, hzero, hboth⟩ := by simpa only [not_or] using hnot
    obtain ⟨ai, alist, rfl⟩ := List.exists_cons_of_ne_nil hne
    by_cases hh : hardto = 0
    · subst hh
      rw [consocket_endless] at h
      obtain ⟨a, ha⟩ := @tryAddrs_first remaddrSz (stretch softto 0 (alist.length + 1)) 0 ai alist
        clock fun h => h.1 rfl
      exact not_documented_forever ha
        ((tryAddrs_waiting 0 a ha).1.trans (waiting_zero _ _)) hzero _ h
    · rw [consocket_hard hh] at h
      obtain ⟨a, ha⟩ := @tryAddrs_first remaddrSz (stretch softto hardto (alist.length + 1))
        (clock 0 + hardto) ai alist (fun i => clock (i + 1)) fun h => hlate ⟨hh, h⟩
      refine not_documented_forever ha ((tryAddrs_waiting 0 a ha).1.trans ?_) hzero _ h
      by_cases hs : softto = 0
      · rw [hs, stretch_zero]
        exact waiting_zero_soft _ _
      · have htend : clock 0 + hardto = 0 := by
          by_contra htend
          exact hboth ⟨hs, hh, htend⟩
        rw [htend]
        exact waiting_zero _ _
  · rintro (rfl | ⟨hh, hlate⟩ | ⟨rfl, rfl⟩ | ⟨hs, hh, htend⟩)
    · intro i a ha
      cases ha
    · intro i a ha
      rw [consocket_hard hh] at ha
      cases alist with
      | nil => cases ha
      | cons ai alist =>
        rw [tryAddrs_late hlate] at ha
        cases ha
    · exact fun i a _ => ⟨fun _ => ⟨rfl, rfl⟩, fun h => absurd rfl h, fun h => absurd rfl h⟩
    · exact documented_of_both hs hh htend hmul

def silent : Addr := ⟨ascii "192.0.2.1", 6667, 5, 0, fun _ => 0, false⟩

theorem timeouts_documented_sample :
    AllDocumented 1000000 10000000 4 (fun i => 1700000000000000 + i.toUInt64)
      (consocket 256 (List.replicate 4 silent) 1000000 10000000 fun i =>
        1700000000000000 + i.toUInt64).attempts :=
  (timeouts_documented_iff 256 (List.replicate 4 silent) 1000000 10000000 _ (by decide)).2
    (Or.inr (Or.inr (Or.inr (by decide))))

/-- With a soft timeout of a second and no hard one, the wait for an address has no end. -/
theorem soft_timeout_ignored :
    (consocket 256 [silent] 1000000 0 fun i => 1700000000000000 + i.toUInt64).attempts.map
      Attempt.toUs = [0] ∧
      ¬AllDocumented 1000000 0 1 (fun i => 1700000000000000 + i.toUInt64)
        (consocket 256 [silent] 1000000 0 fun i => 1700000000000000 + i.toUInt64).attempts := by
  refine ⟨by decide, fun h => ?_⟩
  exact absurd ((h 0 ⟨silent, 0, -1⟩ rfl).forever rfl) (by decide)

end Srsirc.ConnectTimeouts
