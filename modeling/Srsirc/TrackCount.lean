import Srsirc.TrackSafety

namespace Srsirc.TrackCount

open CharMap Dictionary Fallible HeapCells Members MemberOps Message NamesReply Tally Track
open TrackSafety
open UserBase UserLifetime

/-- The number of channels that have the user at `p` as a member. -/
def rooms (b : Base) (p : Ptr) : Nat := b.chans.vals.countP fun c => (membersOf b c).any (·.u = p)

def Exact (b : Base) : Prop :=
  ∀ p ∈ b.users.vals, ∃ u, b.userHeap.get p = some u ∧ u.nchans = rooms b p ∧ 0 < rooms b p

/-- No step of the run adds a user to a channel that it is on. -/
def UnrepeatedRun {cm : CMap} : List (Input cm) → Base → Prop
  | [], _ => True
  | i :: is, b => Unrepeated i b ∧ ∀ r, handle i b = .ok r → UnrepeatedRun is r.2

variable {cm : CMap} {b : Base}

theorem countP_eq_sum {α : Type} {q : α → Bool} {f : α → Nat} {l : List α}
    (h : ∀ x ∈ l, f x = if q x then 1 else 0) : l.countP q = (l.map f).sum := by
  induction l with
  | nil => rfl
  | cons x l ih =>
    rw [List.countP_cons, ih fun y hy => h y (List.mem_cons_of_mem x hy), List.map_cons,
      List.sum_cons,
      h x List.mem_cons_self, Nat.add_comm]

theorem countIn_le_one {d : Dict 256 Memb} {key : Str} {p : Ptr}
    (h : ∀ κ m, d.lookup κ = some m → m.u = p → κ = norm d.cm key) : countIn d.vals p ≤ 1 := by
  cases hl : d.lookup (norm d.cm key) with
  | none =>
    refine Nat.le_of_lt_succ (Nat.lt_of_not_le fun hpos => ?_)
    obtain ⟨m, hm, hp⟩ := (countIn_pos _ _).1 (Nat.lt_of_lt_of_le Nat.zero_lt_two hpos)
    obtain ⟨κ, hκ⟩ := (mem_vals d m).1 hm
    rw [h κ m hκ hp, hl] at hκ
    cases hκ
  | some w =>
    have hzero : countIn (d.drop key).vals p = 0 := by
      by_contra hne
      obtain ⟨m, hm, hp⟩ := (countIn_pos _ _).1 (Nat.pos_of_ne_zero hne)
      obtain ⟨κ, hκ⟩ := (mem_vals _ m).1 hm
      rw [lookup_drop] at hκ
      obtain ⟨hκne, hκ⟩ := RefCount.update_none hκ
      exact hκne (h κ m hκ hp)
    rw [← countIn_drop hl, hzero]
    split <;> omega

theorem exact_of_tallied (h : Tallied cm True b) : Exact b := by
  intro p hp
  have hlisted : Listed b p := (mem_vals _ _).1 hp
  obtain ⟨κ, hκ⟩ := hlisted
  obtain ⟨u, hu, rfl⟩ := h.counted.roster.found κ p hκ
  obtain ⟨hcount, hpos, _⟩ := h.counted.roster.exact p u ⟨trivial, _, hκ⟩ hu
  have hrooms : rooms b p = refs b p := by
    refine countP_eq_sum fun c hc => ?_
    obtain ⟨ch, hch, hcm⟩ := h.live c hc
    have hone : countIn (membersOf b c) p ≤ 1 := by
      rw [membersOf, hch]
      refine @countIn_le_one _ u.nick _ fun κ m hm hmp => ?_
      rw [hcm]
      exact h.counted.roster.filed_at κ p u ⟨c, hc, m, by rw [membAt_eq hch, hm], hmp⟩ hu hκ
    have hany : (membersOf b c).any (·.u = p) = true ↔ 0 < countIn (membersOf b c) p := by
      rw [countIn_pos, List.any_eq_true]
      simp only [decide_eq_true_eq]
    split
    · next hin => exact Nat.le_antisymm hone (hany.1 hin)
    · next hout => exact Nat.eq_zero_of_not_pos fun hin => hout (hany.2 hin)
  exact ⟨u, hu, by rw [hrooms, hcount], by rw [hrooms]; exact hpos⟩

theorem tallied_init (cm : CMap) : Tallied cm True (Base.init cm) := by
  have hsafe := safe_init cm
  refine ⟨⟨rfl, cm_init cm, ⟨hsafe.counted.roster.found, hsafe.counted.roster.live,
    hsafe.counted.roster.counted, hsafe.counted.roster.filed_at, ?_⟩⟩, cm_init cm, hsafe.live,
      hsafe.nodup⟩
  rintro p u ⟨_, κ, hκ⟩ _
  rw [Base.init, lookup_init] at hκ
  cases hκ

theorem run_tallied {is : List (Input cm)} {b : Base} (h : Tallied cm True b) (hk : KeyedRun is b)
    (hn : UnrepeatedRun is b) {pre : List (Input cm)} (hpre : pre <+: is) :
    Returns (run pre b) (Tallied cm True) := by
  refine run_returns (q := fun is b => KeyedRun is b ∧
    UnrepeatedRun is b) (fun i is b h hkn => ?_) h
    ⟨hk, hn⟩ hpre
  obtain ⟨r, hr, ht⟩ := handle_tallied i h hkn.1.1 fun _ => hkn.2.1
  exact ⟨r, hr, ht, hkn.1.2 r hr, hkn.2.2 r hr⟩

/-- As long as no step confuses keys or adds a user to a channel that it is on, the number
of channels is right for every user in every state of a run, and never zero. -/
theorem nchans_exact (is : List (Input cm)) (hk : KeyedRun is (Base.init cm))
    (hn : UnrepeatedRun is (Base.init cm)) :
    ∀ pre, pre <+: is → ∃ b, run pre (Base.init cm) = .ok b ∧ Exact b := by
  intro pre hpre
  obtain ⟨b, hb, ht⟩ := run_tallied (tallied_init cm) hk hn hpre
  exact ⟨b, hb, exact_of_tallied ht⟩

def partingRun : List (Input .ascii) :=
  [sample _ .join ":me!u@h JOIN #a", sample _ .join ":x!u@h JOIN #a",
    sample _ .part ":x!u@h PART #a"]

theorem nchans_exact_sample : ∃ b, run partingRun (Base.init .ascii) = .ok b ∧ Exact b := by
  refine nchans_exact partingRun ⟨trivial,
    fun _ _ => ⟨trivial, fun _ _ => ⟨?_, fun _ _ => trivial⟩⟩⟩
    ⟨?_, fun r hr => ⟨?_, fun _ _ => ⟨trivial, fun _ _ => trivial⟩⟩⟩ _ List.prefix_rfl
  · intro ident _ hident _ hme
    have hident' : (Except.ok (ascii "x!u@h") : Except Fault Str) = .ok ident :=
      hident ▸ by decide +kernel
    cases hident'
    exact absurd hme (by decide +kernel)
  · intro _ name c _ _ _ hc
    rw [getChan, get_eq, Base.init, lookup_init] at hc
    cases hc
  · intro ident _ c hident _ _ _ p hp
    have hident' : (Except.ok (ascii "x!u@h") : Except Fault Str) = .ok ident :=
      hident ▸ by decide +kernel
    cases hident'
    have hnone : ((handle (sample .ascii .join ":me!u@h JOIN #a") (Base.init .ascii)).toOption.bind
        fun r => getUser r.2 (ascii "x!u@h")) = none := by decide +kernel
    rw [hr] at hnone
    exact absurd (hnone.symm.trans hp) (by simp)

/-- A JOIN of a user that is there already counts again, and after the PART the user stays. -/
def repeatedRun : List (Input .rfc1459) :=
  [sample _ .join ":me!u@h JOIN #a", sample _ .join ":x!u@h JOIN #a",
    sample _ .join ":x!u@h JOIN #a",
   sample _ .part ":x!u@h PART #a"]

theorem nchans_repeated :
    ∃ b p u, run repeatedRun (Base.init .rfc1459) = .ok b ∧ p ∈ b.users.vals ∧
      b.userHeap.get p = some u ∧ u.nchans = 1 ∧ rooms b p = 0 := by
  have h : ((run repeatedRun (Base.init .rfc1459)).toOption.bind fun b =>
      (getUser b (ascii "x")).bind fun p => (b.userHeap.get p).map fun u => (u.nchans, rooms b p)) =
        some (1, 0) := by decide +kernel
  obtain ⟨b, hb, h⟩ := Option.bind_eq_some_iff.1 h
  obtain ⟨p, hp, h⟩ := Option.bind_eq_some_iff.1 h
  obtain ⟨u, hu, h⟩ := Option.map_eq_some_iff.1 h
  obtain ⟨hcount, hrooms⟩ := Prod.mk.inj h
  rw [getUser, get_eq] at hp
  refine ⟨b, p, u, ?_, (mem_vals _ _).2 ⟨_, hp⟩, hu, hcount, hrooms⟩
  cases hr : run repeatedRun (Base.init .rfc1459) with
  | error e =>
    rw [hr] at hb
    cases hb
  | ok b' =>
    rw [hr] at hb
    rw [Option.some.inj hb]

end Srsirc.TrackCount
