import Srsirc.NamesEntered
import Srsirc.Presence
import Srsirc.TrackCount
import Srsirc.UserRecords

namespace Srsirc.Mirror

open CharMap Dictionary Fallible HeapCells MemberOps Members Message NamesEntered Presence RefCount
open Tally Track TrackSafety UserBase UserLifetime UserRecords

/-- The members of the channel at `c` are those people. -/
def Has (cm : CMap) (b : Base) (c : Ptr) (S : Set Str) : Prop :=
  ∀ ν, (membAt b c ν).isSome ↔ ∃ u ∈ S, norm cm u = ν

/-- The base tells what the view says: the channels are the known rooms under their keys, and
the users are those who are known, as they spell their nicks. -/
structure Mirrors (cm : CMap) (V : View Str Str) (b : Base) : Prop where
  tallied : Tallied cm True b
  enrolled : Enrolled cm b
  rooms : ∀ κ, (b.chans.lookup κ).isSome ↔ (V κ).isSome
  named : ∀ κ c, b.chans.lookup κ = some c → (nameAt b c).map (norm cm) = some κ
  members : ∀ κ c S, b.chans.lookup κ = some c → V κ = some S → Has cm b c S
  nicks : ∀ p n, nickAt b p = some n → n ∈ known V
  distinct : Set.InjOn (norm cm) (known V)

variable {cm : CMap} {b b' : Base} {V : View Str Str} {κ ν : Str} {c p : Ptr} {S : Set Str}

section Facts

theorem mem_vals_of_lookup (hc : b.chans.lookup κ = some c) : c ∈ b.chans.vals :=
  (mem_vals _ _).2 ⟨κ, hc⟩

theorem known_of_mem {u : Str} (hS : V κ = some S) (hu : u ∈ S) : u ∈ known V := ⟨κ, S, hS, hu⟩

theorem memb_key (h : Tallied cm True b) (he : Enrolled cm b) (hc : c ∈ b.chans.vals) {m : Memb}
    (hm : membAt b c ν = some m) :
    ∃ u, b.userHeap.get m.u = some u ∧ norm cm u.nick = ν ∧ b.users.lookup ν = some m.u := by
  have hf : Filed b ν m.u := ⟨c, hc, m, hm, rfl⟩
  obtain ⟨u, hu⟩ := h.counted.roster.live _ ((refs_pos b m.u).2 ⟨ν, hf⟩)
  have hl := he.found _ _ (nickAt_eq hu)
  obtain rfl := h.counted.roster.filed_at ν _ u hf hu hl
  exact ⟨u, hu, rfl, hl⟩

theorem Mirrors.room (h : Mirrors cm V b) (hS : V κ = some S) :
    ∃ c, b.chans.lookup κ = some c ∧ Has cm b c S := by
  have hc := (h.rooms κ).2 (by rw [hS]; rfl)
  obtain ⟨c, hc⟩ := Option.isSome_iff_exists.1 hc
  exact ⟨c, hc, h.members κ c S hc hS⟩

theorem Mirrors.no_room (h : Mirrors cm V b) (hV : V κ = none) : b.chans.lookup κ = none := by
  rw [← Option.not_isSome_iff_eq_none, h.rooms, hV]
  exact Bool.false_ne_true

/-- Everybody who is known is found, and under the right nick. -/
theorem Mirrors.user (h : Mirrors cm V b) {u : Str} (hu : u ∈ known V) :
    ∃ p, b.users.lookup (norm cm u) = some p ∧ nickAt b p = some u := by
  obtain ⟨κ, S, hS, huS⟩ := hu
  obtain ⟨c, hc, hhas⟩ := h.room hS
  obtain ⟨m, hm⟩ := Option.isSome_iff_exists.1 ((hhas (norm cm u)).2 ⟨u, huS, rfl⟩)
  obtain ⟨w, hw, hkey, hl⟩ := memb_key h.tallied h.enrolled (mem_vals_of_lookup hc) hm
  have hwn := nickAt_eq hw
  have heq : w.nick = u := h.distinct (h.nicks _ _ hwn) (known_of_mem hS huS) hkey
  exact ⟨m.u, hl, heq ▸ hwn⟩

theorem Mirrors.who (h : Mirrors cm V b) (hp : b.users.lookup ν = some p) :
    ∃ u ∈ known V, norm cm u = ν ∧ nickAt b p = some u := by
  obtain ⟨u, hu, hkey⟩ := h.tallied.counted.roster.found ν p hp
  have hn := nickAt_eq hu
  exact ⟨u.nick, h.nicks _ _ hn, hkey, hn⟩

end Facts

section Builders

variable {D : Set Str}

end Builders

end Srsirc.Mirror
