import Srsirc.Capabilities
import Srsirc.Slots

namespace Srsirc.WantedCaps

open CharMap Message UserBase Context Capabilities Slots

def wanted (caps : List V3cap) : Set (Str × Bool) :=
  {x | ∃ cap ∈ caps, (cap.name, cap.musthave) = x}

def others (caps : List V3cap) (name : Str) : List V3cap := caps.filter (·.name ≠ name)

/-- No capability is wanted twice. -/
def Distinct (caps : List V3cap) : Prop := (caps.map V3cap.name).Nodup

/-- What `lsi_v3_clear_cap` leaves. -/
def cleared (caps : List V3cap) (name : Str) : List V3cap :=
  match caps.findIdx? (·.name = name), caps.getLast? with
  | some i, some last => (caps.set i last).dropLast
  | _, _ => caps

variable {irc : Irc} {caps : List V3cap} {name : Str}

theorem clearCap_eq (irc : Irc) (name : Str) :
    clearCap irc name = { irc with v3caps := cleared irc.v3caps name } := by
  rw [clearCap, cleared]
  cases irc.v3caps.findIdx? (·.name = name) <;> cases irc.v3caps.getLast? <;> rfl

theorem mem_others {cap : V3cap} : cap ∈ others caps name ↔ cap ∈ caps ∧ cap.name ≠ name := by
  rw [others, List.mem_filter, decide_eq_true_iff]

theorem others_same (hno : ∀ cap ∈ caps, cap.name ≠ name) : others caps name = caps :=
  List.filter_eq_self.2 fun cap hcap => decide_eq_true (hno cap hcap)

theorem perm_others (hd : Distinct caps) {cap : V3cap} (hcap : cap ∈ caps) :
    caps.Perm (cap :: others caps cap.name) := by
  rw [others]
  induction caps with
  | nil => cases hcap
  | cons cap' caps ih =>
    rw [Distinct, List.map_cons, List.nodup_cons] at hd
    obtain ⟨hnot, hd⟩ := hd
    obtain rfl | hcap := List.mem_cons.1 hcap
    · rw [List.filter_cons_of_neg (by simp), List.filter_eq_self.2]
      intro c hc
      refine decide_eq_true fun heq => hnot ?_
      exact heq ▸ List.mem_map_of_mem hc
    · have hne : cap'.name ≠ cap.name := fun heq => hnot (heq ▸ List.mem_map_of_mem hcap)
      rw [List.filter_cons_of_pos (by simpa using hne)]
      exact ((ih hd hcap).cons cap').trans (List.Perm.swap _ _ _)

/-- The last entry is moved to where an entry is dropped. -/
theorem moved_perm {α : Type} {l : List α} {last : α} {i : Nat} (hi : i < l.length)
    (hlast : l.getLast? = some last) : (l[i] :: (l.set i last).dropLast).Perm l := by
  have hne : l.set i last ≠ [] := by
    rw [Ne, List.set_eq_nil_iff]
    rintro rfl
    cases hlast
  have hend : (l.set i last).getLast hne = last := by
    rw [List.getLast_eq_getElem, List.getElem_set]
    split
    · rfl
    · rw [List.getLast?_eq_getElem?] at hlast
      obtain ⟨_, hget⟩ := List.getElem?_eq_some_iff.1 hlast
      simpa using hget
  have hswap := set_swap hi last
  rw [← List.dropLast_append_getLast hne, hend] at hswap
  refine List.Perm.cons_inv (a := last) ?_
  exact ((List.Perm.swap _ _ _).trans ((List.perm_append_singleton _ _).symm.cons _)).trans hswap

theorem cleared_same (hno : ∀ cap ∈ caps, cap.name ≠ name) : cleared caps name = caps := by
  have hnone : caps.findIdx? (·.name = name) = none :=
    List.findIdx?_eq_none_iff.2 fun cap hcap => decide_eq_false (hno cap hcap)
  rw [cleared, hnone]

theorem cleared_perm (hd : Distinct caps) (name : Str) :
    (cleared caps name).Perm (others caps name) := by
  cases hfind : caps.findIdx? (·.name = name) with
  | none =>
    have hno : ∀ cap ∈ caps, cap.name ≠ name := fun cap hcap =>
      of_decide_eq_false (List.findIdx?_eq_none_iff.1 hfind cap hcap)
    rw [cleared_same hno, others_same hno]
  | some i =>
    obtain ⟨hi, hname, -⟩ := List.findIdx?_eq_some_iff_getElem.1 hfind
    obtain rfl := of_decide_eq_true hname
    cases hlast : caps.getLast? with
    | none =>
      rw [List.getLast?_eq_none_iff] at hlast
      simp [hlast] at hi
    | some last =>
      rw [cleared, hfind, hlast]
      exact ((moved_perm hi hlast).trans (perm_others hd (List.getElem_mem hi))).cons_inv

theorem mem_cleared (hd : Distinct caps) {cap : V3cap} :
    cap ∈ cleared caps name ↔ cap ∈ caps ∧ cap.name ≠ name :=
  (cleared_perm hd name).mem_iff.trans mem_others

theorem Distinct.cleared (hd : Distinct caps) (name : Str) : Distinct (cleared caps name) := by
  refine ((cleared_perm hd name).map V3cap.name).nodup_iff.2 ?_
  exact hd.sublist (List.filter_sublist.map _)

theorem wanted_cleared (hd : Distinct caps) (name : Str) :
    wanted (cleared caps name) = {x ∈ wanted caps | x.1 ≠ name} := by
  ext x
  constructor
  · rintro ⟨cap, hcap, rfl⟩
    obtain ⟨hcap, hne⟩ := (mem_cleared hd).1 hcap
    exact ⟨⟨cap, hcap, rfl⟩, hne⟩
  · rintro ⟨⟨cap, hcap, rfl⟩, hne⟩
    exact ⟨cap, (mem_cleared hd).2 ⟨hcap, hne⟩, rfl⟩

theorem wanted_cleared_iff (hd : Distinct caps) (name : Str) :
    wanted (cleared caps name) = wanted caps ↔ ∀ cap ∈ caps, cap.name ≠ name := by
  constructor
  · intro heq cap hcap
    have hin : (cap.name, cap.musthave) ∈ wanted (cleared caps name) := heq ▸ ⟨cap, hcap, rfl⟩
    rw [wanted_cleared hd] at hin
    exact hin.2
  · intro hno
    rw [cleared_same hno]

def fresh (name : Str) (musthave : Bool) : V3cap :=
  ⟨strNcpy name MAX_V3CAPLEN, [], musthave, false, false⟩

theorem wantCap_new (hno : ∀ cap ∈ irc.v3caps, cap.name ≠ name) (musthave : Bool) :
    wantCap irc name musthave =
      if MAX_V3CAPS ≤ irc.v3caps.length then (false, irc)
      else if irc.malloc.1 then
        (true, { irc.malloc.2 with v3caps := irc.v3caps ++ [fresh name musthave] })
      else (false, irc.malloc.2) := by
  have hany : irc.v3caps.any (·.name = name) = false :=
    List.any_eq_false.2 fun cap hcap => by simpa using hno cap hcap
  rw [wantCap, hany]
  dsimp only
  rw [if_neg Bool.false_ne_true]
  split
  · rfl
  · rw [Irc.malloc]
    cases irc.base.malloc.1 <;> rfl

theorem Distinct.fresh (hd : Distinct caps) (hno : ∀ cap ∈ caps, cap.name ≠ name)
    (hshort : strNcpy name MAX_V3CAPLEN = name) (musthave : Bool) :
    Distinct (caps ++ [fresh name musthave]) := by
  rw [Distinct, List.map_append, List.nodup_append]
  refine ⟨hd, List.nodup_singleton _, ?_⟩
  rintro _ hin _ hnew rfl
  obtain ⟨cap, hcap, hname⟩ := List.mem_map.1 hin
  refine hno cap hcap (hname.trans ?_)
  rw [List.mem_singleton.1 hnew]
  exact hshort

theorem wantCap_distinct (hd : Distinct irc.v3caps) (hno : ∀ cap ∈ irc.v3caps, cap.name ≠ name)
    (hshort : strNcpy name MAX_V3CAPLEN = name) (musthave : Bool) :
    Distinct (wantCap irc name musthave).2.v3caps := by
  rw [wantCap_new hno]
  split
  · exact hd
  · split
    · exact hd.fresh hno hshort musthave
    · exact hd

theorem wanted_fresh (hno : ∀ cap ∈ caps, cap.name ≠ name)
    (hshort : strNcpy name MAX_V3CAPLEN = name) (musthave b : Bool) :
    (name, b) ∈ wanted (caps ++ [fresh name musthave]) ↔ b = musthave := by
  have hfresh : ((fresh name musthave).name, (fresh name musthave).musthave) = (name, musthave) :=
    Prod.ext hshort rfl
  constructor
  · rintro ⟨cap, hcap, hx⟩
    obtain hcap | hcap := List.mem_append.1 hcap
    · exact absurd (Prod.mk.inj hx).1 (hno cap hcap)
    · rw [List.mem_singleton.1 hcap, hfresh] at hx
      exact (Prod.mk.inj hx).2.symm
  · rintro rfl
    exact ⟨fresh name b, List.mem_append_right _ List.mem_cons_self, hfresh⟩

end Srsirc.WantedCaps
