import Srsirc.Fallible
import Srsirc.Slots
import Srsirc.TrackInfo

namespace Srsirc.ModeEntries

open CharMap Dictionary HeapCells Message ServerInfo UserBase ChannelModes Track TrackInfo
open Fallible Slots
open BucketList (Alloc)

/-- What is known of the modes of a channel after some changes: by which string each mode of the
classes B, C and D is set, and how often each string of class A was added since it was last removed. -/
structure Standing where
  set : UInt8 → Option Str
  listed : Str → Nat

def Standing.init : Standing := ⟨fun _ => none, fun _ => 0⟩

def Standing.change (info : Info) (st : Standing) (m : ModeChange) : Standing :=
  if classifyChanmode info m.mode = 0 then st
  else if classifyChanmode info m.mode = 1 then { st with
    listed := Function.update st.listed m.modestr (if m.enab then st.listed m.modestr + 1 else 0) }
  else { st with set := Function.update st.set m.mode (if m.enab then some m.modestr else none) }

/-- The modes of a channel are as the changes say: one string for each mode that is set, and the
strings of class A that are left. -/
structure Reflects (info : Info) (st : Standing) (modes : List (Option Str)) : Prop where
  set : ∀ ℓ, 2 ≤ classifyChanmode info ℓ →
    (modes.reduceOption.filter fun s => s.headD 0 = ℓ) = (st.set ℓ).toList
  listed : ∀ s, classifyChanmode info (s.headD 0) = 1 → (some s ∈ modes ↔ 0 < st.listed s)

/-- The change does not set what is set already, nor does it remove what was added twice. -/
structure Clean (info : Info) (st : Standing) (m : ModeChange) : Prop where
  free : 2 ≤ classifyChanmode info m.mode → m.enab = true → st.set m.mode = none
  single : classifyChanmode info m.mode = 1 → m.enab = false → st.listed m.modestr ≤ 1

instance (info : Info) (st : Standing) (m : ModeChange) : Decidable (Clean info st m) :=
  decidable_of_iff ((2 ≤ classifyChanmode info m.mode → m.enab = true → st.set m.mode = none) ∧
    (classifyChanmode info m.mode = 1 → m.enab = false → st.listed m.modestr ≤ 1))
    ⟨fun h => ⟨h.1, h.2⟩, fun h => ⟨h.free, h.single⟩⟩

structure Matches (info : Info) (st : Standing) (entries : List Str) : Prop where
  set : ∀ ℓ, 2 ≤ classifyChanmode info ℓ → (entries.filter fun s => s.headD 0 = ℓ) =
    (st.set ℓ).toList
  listed : ∀ s, classifyChanmode info (s.headD 0) = 1 → entries.count s = st.listed s

variable {info : Info} {st : Standing} {entries entries' : List Str} {m : ModeChange}

theorem Matches.reflects {modes : List (Option Str)} (h : Matches info st modes.reduceOption) :
    Reflects info st modes := by
  refine ⟨h.set, fun s hs => ?_⟩
  rw [← List.reduceOption_mem_iff, ← h.listed s hs, List.count_pos_iff]

theorem matches_init (info : Info) : Matches info .init [] := ⟨fun _ _ => rfl, fun _ _ => rfl⟩

theorem Matches.perm (h : Matches info st entries) (hp : entries'.Perm entries) :
    Matches info st entries' := by
  refine ⟨fun ℓ hℓ => ?_, fun s hs => by rw [hp.count_eq, h.listed s hs]⟩
  have hf := hp.filter fun s => s.headD 0 = ℓ
  rw [h.set ℓ hℓ] at hf
  cases hst : st.set ℓ with
  | none =>
    rw [hst] at hf
    exact hf.eq_nil
  | some s =>
    rw [hst] at hf
    exact hf.eq_singleton

theorem change_set (m : ModeChange) {ℓ : UInt8} (hℓ : 2 ≤ classifyChanmode info ℓ) :
    (st.change info m).set ℓ =
    if ℓ = m.mode then (if m.enab then some m.modestr else none) else st.set ℓ := by
  by_cases he : ℓ = m.mode
  · subst he
    rw [Standing.change, if_neg (by omega), if_neg (by omega), if_pos rfl]
    exact Function.update_self _ _ _
  · rw [Standing.change, if_neg he]
    split
    · rfl
    · split
      · rfl
      · exact Function.update_of_ne he _ _

theorem change_listed (m : ModeChange) {s : Str} (hs : classifyChanmode info (s.headD 0) = 1) :
    (st.change info m).listed s =
      if s = m.modestr then (if m.enab then st.listed m.modestr + 1 else 0) else st.listed s := by
  by_cases he : s = m.modestr
  · subst he
    have hcls : classifyChanmode info m.mode = 1 := hs
    rw [Standing.change, if_neg (by omega), if_pos hcls, if_pos rfl]
    exact Function.update_self _ _ _
  · rw [Standing.change, if_neg he]
    split
    · rfl
    · split
      · exact Function.update_of_ne he _ _
      · rfl

/-- An addition appends without looking. -/
theorem Matches.added (h : Matches info st entries) (hm : m.enab = true) (hc : Clean info st m) :
    Matches info (st.change info m) (m.modestr :: entries) := by
  refine ⟨fun ℓ hℓ => ?_, fun s hs => ?_⟩
  · rw [change_set m hℓ, hm, List.filter_cons, h.set ℓ hℓ]
    by_cases he : ℓ = m.mode
    · subst he
      have hhead : m.modestr.headD 0 = m.mode := rfl
      rw [if_pos (decide_eq_true hhead), if_pos rfl, hc.free hℓ hm]
      rfl
    · rw [if_neg fun hd => he (of_decide_eq_true hd).symm, if_neg he]
  · rw [change_listed m hs, hm, List.count_cons, h.listed s hs]
    by_cases he : s = m.modestr
    · rw [if_pos (beq_iff_eq.2 he.symm), if_pos he, he]
      rfl
    · rw [if_neg fun hd => he (beq_iff_eq.1 hd).symm, if_neg he]
      rfl

def Meant (info : Info) (modestr e : Str) : Prop :=
  (classifyChanmode info (modestr.headD 0) = 1 ∧ e = modestr) ∨
    (2 ≤ classifyChanmode info (modestr.headD 0) ∧ e.headD 0 = modestr.headD 0)

theorem Meant.head {modestr e : Str} (he : Meant info modestr e) : e.headD 0 = modestr.headD 0 := by
  obtain ⟨_, rfl⟩ | ⟨_, he⟩ := he
  · rfl
  · exact he

theorem Matches.removed (h : Matches info st entries) (hm : m.enab = false)
    (hc : Clean info st m) {e : Str}
    (he : Meant info m.modestr e) (hp : (e :: entries').Perm entries) :
    Matches info (st.change info m) entries' := by
  have hall := h.perm hp
  have hhead : e.headD 0 = m.mode := he.head
  refine ⟨fun ℓ hℓ => ?_, fun s hs => ?_⟩
  · have hset := hall.set ℓ hℓ
    rw [List.filter_cons, hhead] at hset
    rw [change_set m hℓ, hm]
    by_cases hmode : ℓ = m.mode
    · rw [if_pos (decide_eq_true hmode.symm)] at hset
      rw [if_pos hmode]
      cases hst : st.set ℓ with
      | none => simp [hst] at hset
      | some s =>
        rw [hst] at hset
        exact (List.cons.inj hset).2
    · rw [if_neg fun hd => hmode (of_decide_eq_true hd).symm] at hset
      rwa [if_neg hmode]
  · have hcount := hall.listed s hs
    rw [List.count_cons] at hcount
    rw [change_listed m hs, hm]
    by_cases hstr : s = m.modestr
    · subst hstr
      obtain ⟨_, rfl⟩ | ⟨hcls, _⟩ := he
      · have := hc.single hs hm
        rw [if_pos (beq_self_eq_true _)] at hcount
        rw [if_pos rfl]
        simp only [Bool.false_eq_true, if_false]
        omega
      · omega
    · have hne : ¬(e == s) = true := fun hes => by
        rw [beq_iff_eq] at hes
        subst hes
        obtain ⟨_, heq⟩ | ⟨hcls, hhead'⟩ := he
        · exact hstr heq
        · rw [hhead'] at hs
          omega
      rw [if_neg hne] at hcount
      rw [if_neg hstr]
      exact hcount

theorem Matches.unheard (h : Matches info st entries) (hm : m.enab = false)
    (hnone : ∀ e ∈ entries, ¬Meant info m.modestr e) : Matches info (st.change info m) entries := by
  refine ⟨fun ℓ hℓ => ?_, fun s hs => ?_⟩
  · rw [change_set m hℓ, hm]
    split
    · next hmode =>
      refine List.filter_eq_nil_iff.2 fun e he hhead => hnone e he (Or.inr ?_)
      rw [hmode] at hℓ hhead
      exact ⟨hℓ, of_decide_eq_true hhead⟩
    · exact h.set ℓ hℓ
  · rw [change_listed m hs, hm]
    split
    · next hstr =>
      subst hstr
      exact List.count_eq_zero.2 fun he => hnone _ he (Or.inl ⟨hs, rfl⟩)
    · exact h.listed s hs

end Srsirc.ModeEntries
