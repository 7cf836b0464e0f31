import Srsirc.Message

namespace Srsirc.Consocket

open CharMap Message

/-- An entry of the address list, with what the calls for it will return. -/
structure Addr where
  addrstr : Str
  port : UInt16
  socket : Int
  connect : Int
  select : UInt64 → Int
  sockOk : Bool

/-- `tryhost`, and what it says about the peer. Where that goes is `remaddrSz` bytes long. A
local address that cannot be bound only makes it complain. -/
def tryhost (remaddrSz : Nat) (ai : Addr) (toUs : UInt64) : Int × Option (Str × UInt16) :=
  if ai.socket = -1 then (-1, none)
  else if ai.connect = 1 then (ai.socket, none)
  else if ai.connect = -1 then (-1, none)
  else if ai.select toUs = 1 ∧ ai.sockOk then
    (ai.socket, some (strNcpy ai.addrstr remaddrSz, ai.port))
  else (-1, none)

/-- What `lsi_b_tstamp_us` will return, one call after the other. -/
abbrev Clock := Nat → UInt64

def tstampUs (clock : Clock) : UInt64 × Clock := (clock 0, fun i => clock (i + 1))

/-- `lsi_com_check_timeout`, with the time that remains. -/
def checkTimeout (tend : UInt64) (clock : Clock) : Bool × UInt64 × Clock :=
  if tend = 0 then (false, 0, clock)
  else
    let (now, clock) := tstampUs clock
    if tend ≤ now then (true, 0, clock) else (false, tend - now, clock)

/-- A call of `tryhost`. -/
structure Attempt where
  ai : Addr
  toUs : UInt64
  sck : Int

/-- What connecting comes to, and the calls of `tryhost` meanwhile. -/
structure Outcome where
  attempts : List Attempt
  sck : Int
  remote : Option (Str × UInt16)

/-- The loop of `lsi_com_consocket`. -/
def tryAddrs (remaddrSz : Nat) (softto hardtend : UInt64) : List Addr → Clock → Outcome
  | [], _ => ⟨[], -1, none⟩
  | ai :: alist, clock =>
    match checkTimeout hardtend clock with
    -- `return false`
    | (true, _, _) => ⟨[], 0, none⟩
    | (false, trem, clock) =>
      let trem := if softto < trem then softto else trem
      let (sck, remote) := tryhost remaddrSz ai trem
      if sck ≠ -1 then ⟨[⟨ai, trem, sck⟩], sck, remote⟩
      else
        let rest := tryAddrs remaddrSz softto hardtend alist clock
        { rest with attempts := ⟨ai, trem, sck⟩ :: rest.attempts }

def hardDeadline (hardto : UInt64) (clock : Clock) : UInt64 × Clock :=
  if hardto ≠ 0 then
    let (now, clock) := tstampUs clock
    (now + hardto, clock)
  else (0, clock)

def stretch (softto hardto : UInt64) (count : Nat) : UInt64 :=
  if softto ≠ 0 ∧ hardto ≠ 0 ∧ softto * UInt64.ofNat count < hardto then hardto / UInt64.ofNat count
  else softto

/-- `lsi_com_consocket`. The list is empty where the host is not resolved. -/
def consocket (remaddrSz : Nat) (alist : List Addr) (softto hardto : UInt64)
    (clock : Clock) : Outcome :=
  let (hardtend, clock) := hardDeadline hardto clock
  if alist = [] then ⟨[], -1, none⟩
  else tryAddrs remaddrSz (stretch softto hardto alist.length) hardtend alist clock

/-- The test of `lsi_conn_connect`. -/
def usable (sck : Int) : Bool := !(sck < 0)

/-- The sockets among what `tryhost` has returned. -/
def Outcome.obtained (r : Outcome) : List Int := (r.attempts.map Attempt.sck).filter (· ≠ -1)

/-- There is no socket, or it is one that `tryhost` has returned. -/
def Outcome.Sound (r : Outcome) : Prop := r.sck = -1 ∨ r.sck ∈ r.attempts.map Attempt.sck

instance (r : Outcome) : Decidable r.Sound := inferInstanceAs (Decidable (_ ∨ _))

def Late (hardtend now : UInt64) : Prop := hardtend ≠ 0 ∧ hardtend ≤ now

/-- The timeout for an address, when the clock reads `now` ahead of it. -/
def waiting (softto hardtend now : UInt64) : UInt64 :=
  let trem := if hardtend = 0 then 0 else hardtend - now
  if softto < trem then softto else trem

def Fails (softto hardtend : UInt64) (ai : Addr) (now : UInt64) : Prop :=
  (tryhost 0 ai (waiting softto hardtend now)).1 = -1

/-- Whenever an address is come to, because those before it failed, there is still time. -/
def InTime (softto hardtend : UInt64) (alist : List Addr) (clock : Clock) : Prop :=
  ∀ i < alist.length, (∀ j < i, ∀ ai ∈ alist[j]?, Fails softto hardtend ai (clock j)) →
    ¬Late hardtend (clock i)

variable {remaddrSz : Nat} {softto hardtend : UInt64} {ai : Addr} {alist : List Addr}
    {clock : Clock}

theorem tryhost_sck (remaddrSz : Nat) (ai : Addr) (toUs : UInt64) :
    (tryhost remaddrSz ai toUs).1 = (tryhost 0 ai toUs).1 := by
  rw [tryhost, tryhost]
  split_ifs <;> rfl

def checked (hardtend : UInt64) (clock : Clock) : Clock :=
  if hardtend = 0 then clock else fun i => clock (i + 1)

theorem checkTimeout_late (h : Late hardtend (clock 0)) :
    checkTimeout hardtend clock = (true, 0, fun i => clock (i + 1)) := by
  rw [checkTimeout, if_neg h.1]
  exact if_pos h.2

theorem checkTimeout_inTime (h : ¬Late hardtend (clock 0)) : checkTimeout hardtend clock =
    (false, if hardtend = 0 then 0 else hardtend - clock 0, checked hardtend clock) := by
  rw [checkTimeout, checked]
  by_cases h0 : hardtend = 0
  · simp only [if_pos h0]
  · simp only [if_neg h0]
    exact if_neg fun hle => h ⟨h0, hle⟩

theorem tryAddrs_late (h : Late hardtend (clock 0)) :
    tryAddrs remaddrSz softto hardtend (ai :: alist) clock = ⟨[], 0, none⟩ := by
  rw [tryAddrs, checkTimeout_late h]

theorem tryAddrs_fails (h : ¬Late hardtend (clock 0)) (hf : Fails softto hardtend ai (clock 0)) :
    tryAddrs remaddrSz softto hardtend (ai :: alist) clock =
      let rest := tryAddrs remaddrSz softto hardtend alist (checked hardtend clock)
      { rest with attempts := ⟨ai, waiting softto hardtend (clock 0), -1⟩ :: rest.attempts } := by
  rw [Fails, ← tryhost_sck remaddrSz] at hf
  rw [tryAddrs, checkTimeout_inTime h]
  dsimp only
  rw [← waiting, hf, if_neg (not_not.2 rfl)]

theorem tryAddrs_connects (h : ¬Late hardtend (clock 0))
    (hf : ¬Fails softto hardtend ai (clock 0)) :
    ∃ sck remote, tryAddrs remaddrSz softto hardtend (ai :: alist) clock =
      ⟨[⟨ai, waiting softto hardtend (clock 0), sck⟩], sck, remote⟩ := by
  rw [Fails, ← tryhost_sck remaddrSz] at hf
  refine ⟨(tryhost remaddrSz ai (waiting softto hardtend (clock 0))).1,
    (tryhost remaddrSz ai (waiting softto hardtend (clock 0))).2, ?_⟩
  rw [tryAddrs, checkTimeout_inTime h]
  dsimp only
  rw [← waiting, if_pos hf]

theorem inTime_zero (softto : UInt64) (alist : List Addr) (clock : Clock) :
    InTime softto 0 alist clock :=
  fun _ _ _ h => h.1 rfl

theorem inTime_cons : InTime softto hardtend (ai :: alist) clock ↔ ¬Late hardtend (clock 0) ∧
    (Fails softto hardtend ai (clock 0) → InTime softto hardtend alist fun i => clock (i + 1)) := by
  constructor
  · intro h
    refine ⟨h 0 (Nat.succ_pos _) fun _ hj => absurd hj (Nat.not_lt_zero _), fun hf i hi hprev => ?_⟩
    refine h (i + 1) (Nat.succ_lt_succ hi) fun j hj b hb => ?_
    cases j with
    | zero =>
      obtain rfl := Option.some.inj hb
      exact hf
    | succ j => exact hprev j (Nat.lt_of_succ_lt_succ hj) b hb
  · rintro ⟨hnow, hnext⟩ i hi hprev
    cases i with
    | zero => exact hnow
    | succ i =>
      refine hnext (hprev 0 (Nat.succ_pos _) ai rfl) i (Nat.lt_of_succ_lt_succ hi) fun j
        hj b hb => ?_
      exact hprev (j + 1) (Nat.succ_lt_succ hj) b hb

theorem inTime_checked (h : InTime softto hardtend alist fun i => clock (i + 1)) :
    InTime softto hardtend alist (checked hardtend clock) := by
  rw [checked]
  split
  · next h0 =>
    rw [h0]
    exact inTime_zero _ _ _
  · exact h

theorem inTime_of_checked (h : InTime softto hardtend alist (checked hardtend clock)) :
    InTime softto hardtend alist fun i => clock (i + 1) := by
  by_cases h0 : hardtend = 0
  · rw [h0]
    exact inTime_zero _ _ _
  · rwa [checked, if_neg h0] at h

/-- Nothing was returned by the attempts of a run that is cut short. -/
theorem tryAddrs_sound_iff : (tryAddrs remaddrSz softto hardtend alist clock).Sound ↔
    InTime softto hardtend alist clock := by
  induction alist generalizing clock with
  | nil => exact ⟨fun _ _ hi => absurd hi (Nat.not_lt_zero _), fun _ => Or.inl rfl⟩
  | cons ai alist ih =>
    rw [inTime_cons]
    by_cases hl : Late hardtend (clock 0)
    · rw [tryAddrs_late hl]
      exact ⟨fun h => absurd h (by decide), fun h => absurd hl h.1⟩
    · by_cases hf : Fails softto hardtend ai (clock 0)
      · rw [tryAddrs_fails hl hf]
        have hsame : ∀ r : Outcome, Outcome.Sound
            { r with attempts := ⟨ai, waiting softto hardtend (clock 0), -1⟩ :: r.attempts } ↔
              r.Sound := by
          intro r
          rw [Outcome.Sound, Outcome.Sound, List.map_cons, List.mem_cons]
          exact ⟨fun h => h.elim Or.inl id, fun h => h.elim Or.inl fun h => Or.inr (Or.inr h)⟩
        rw [hsame, ih]
        exact ⟨fun h => ⟨hl, fun _ => inTime_of_checked h⟩, fun h => inTime_checked (h.2 hf)⟩
      · obtain ⟨sck, remote, hr⟩ := @tryAddrs_connects remaddrSz _ _ _ alist _ hl hf
        rw [hr]
        exact ⟨fun _ => ⟨hl, fun h => absurd h hf⟩, fun _ => Or.inr (List.mem_singleton.2 rfl)⟩

theorem tryAddrs_zero (h : ¬(tryAddrs remaddrSz softto hardtend alist clock).Sound) :
    (tryAddrs remaddrSz softto hardtend alist clock).sck = 0 := by
  induction alist generalizing clock with
  | nil => exact absurd (Or.inl rfl) h
  | cons ai alist ih =>
    by_cases hl : Late hardtend (clock 0)
    · rw [tryAddrs_late hl]
    · by_cases hf : Fails softto hardtend ai (clock 0)
      · rw [tryAddrs_fails hl hf] at h ⊢
        refine ih fun hs => h ?_
        exact hs.elim Or.inl fun hs => Or.inr (List.mem_cons_of_mem _ hs)
      · obtain ⟨sck, remote, hr⟩ := @tryAddrs_connects remaddrSz _ _ _ alist _ hl hf
        rw [hr] at h
        exact absurd (Or.inr (List.mem_singleton.2 rfl)) h

/-- A descriptor is one of the sockets obtained just if the outcome is sound. -/
theorem Outcome.mem_obtained_iff {r : Outcome} (h : usable r.sck = true) :
    r.sck ∈ r.obtained ↔ r.Sound := by
  have hne : r.sck ≠ -1 := by
    intro heq
    rw [heq] at h
    exact absurd h (by decide)
  rw [Outcome.obtained, List.mem_filter, Outcome.Sound, or_iff_right hne]
  exact and_iff_left (decide_eq_true hne)

/-- What is returned is a socket of `tryhost` or none at all just if no check of the deadline,
ahead of an address that is come to, finds it over. -/
theorem consocket_sound_iff (remaddrSz : Nat) (alist : List Addr) (softto hardto : UInt64)
    (clock : Clock) :
    (consocket remaddrSz alist softto hardto clock).Sound ↔
      InTime (stretch softto hardto alist.length) (hardDeadline hardto clock).1 alist
        (hardDeadline hardto clock).2 := by
  rw [← @tryAddrs_sound_iff remaddrSz, consocket]
  dsimp only
  split
  · next h =>
    rw [h]
    exact Iff.rfl
  · exact Iff.rfl

theorem consocket_zero {hardto : UInt64} (h : ¬(consocket remaddrSz alist softto hardto clock).Sound) :
    (consocket remaddrSz alist softto hardto clock).sck = 0 := by
  rw [consocket] at h ⊢
  dsimp only at h ⊢
  split at h
  · exact absurd (Or.inl rfl) h
  · next hne =>
    rw [if_neg hne]
    exact tryAddrs_zero h

/-- A host with one address, and a second that is over before it is tried. -/
theorem timeout_yields_zero :
    let r := consocket 256 [⟨ascii "192.0.2.1", 6667, 5, 1, fun _ => 1, true⟩] 0 1000000
      fun i => 1700000000000000 + 1000000 * i.toUInt64
    ¬r.Sound ∧ r.sck = 0 ∧ usable r.sck = true := by
  decide

end Srsirc.Consocket
