import Mathlib.Data.Set.Function
import Mathlib.Logic.Function.Basic

namespace Srsirc.Presence

variable {C U K : Type}

/-- Who is in which room. -/
abbrev Net (C U : Type) := C → Set U

/-- What one participant knows: the rooms it is in, and who is there. -/
abbrev View (C U : Type) := C → Option (Set U)

inductive Event (C U : Type)
  | join (u : U) (c : C)
  | leave (u : U) (c : C)
  | quit (u : U)
  | rename (u v : U)

/-- Where `u` was, there is `v` now. -/
def relabel (u v : U) (S : Set U) : Set U := {w | w = v ∧ u ∈ S ∨ w ≠ u ∧ w ∈ S}

def people (N : Net C U) (me : U) : Set U := {u | u = me ∨ ∃ c, u ∈ N c}

/-- Everybody that the participant knows to be somewhere. -/
def known (V : View C U) : Set U := {u | ∃ c S, V c = some S ∧ u ∈ S}

open Classical in
noncomputable def view (N : Net C U) (me : U) : View C U := fun c =>
  if me ∈ N c then some (N c) else none

section Sets

variable {u v w : U} {S : Set U}

end Sets

variable [DecidableEq C]

def enter (c : C) (u : U) (V : View C U) : View C U :=
  Function.update V c ((V c).map (insert u))

def after (N : Net C U) : Event C U → Net C U
  | .join u c => Function.update N c (insert u (N c))
  | .leave u c => Function.update N c (N c \ {u})
  | .quit u => fun c => N c \ {u}
  | .rename u v => fun c => relabel u v (N c)

section Views

variable {N : Net C U} {me u v : U} {c : C}

omit [DecidableEq C] in
theorem view_some (h : me ∈ N c) : view N me c = some (N c) := if_pos h

omit [DecidableEq C] in
theorem view_none (h : me ∉ N c) : view N me c = none := if_neg h

omit [DecidableEq C] in
theorem view_eq_some {S : Set U} : view N me c = some S ↔ me ∈ N c ∧ S = N c := by
  by_cases h : me ∈ N c
  · rw [view_some h]
    simp [h, eq_comm]
  · rw [view_none h]
    simp [h]

omit [DecidableEq C] in
theorem known_subset : known (view N me) ⊆ people N me := by
  rintro u ⟨c, S, hc, hu⟩
  obtain ⟨_, rfl⟩ := view_eq_some.1 hc
  exact Or.inr ⟨c, hu⟩

end Views

def Event.renamed [DecidableEq U] (me : U) : Event C U → U
  | .rename u v => if u = me then v else me
  | _ => me

/-- What can happen, where everybody goes by a key of their own. Only those who are there can
leave or quit, and the participant does not quit. -/
def Legal (key : U → K) (N : Net C U) (me : U) : Event C U → Prop
  | .join u c => u ∉ N c ∧ ∀ w ∈ people N me, key w = key u → w = u
  | .leave u c => u ∈ N c
  | .quit u => u ≠ me ∧ u ∈ people N me
  | .rename u v => u ∈ people N me ∧ ∀ w ∈ people N me, key w = key v → w = u

def Distinct (key : U → K) (N : Net C U) (me : U) : Prop := Set.InjOn key (people N me)

section Keys

variable {key : U → K} {N : Net C U} {me u v : U} {c : C}

theorem people_join : people (after N (.join u c)) me ⊆ insert u (people N me) := by
  rintro w (rfl | ⟨d, hw⟩)
  · exact Or.inr (Or.inl rfl)
  · rw [after, Function.update_apply] at hw
    split at hw
    · obtain rfl | hw := hw
      · exact Or.inl rfl
      · exact Or.inr (Or.inr ⟨c, hw⟩)
    · exact Or.inr (Or.inr ⟨d, hw⟩)

theorem people_leave : people (after N (.leave u c)) me ⊆ people N me := by
  rintro w (rfl | ⟨d, hw⟩)
  · exact Or.inl rfl
  · rw [after, Function.update_apply] at hw
    split at hw
    · exact Or.inr ⟨c, hw.1⟩
    · exact Or.inr ⟨d, hw⟩

theorem people_quit : people (after N (.quit u)) me ⊆ people N me := by
  rintro w (rfl | ⟨d, hw⟩)
  · exact Or.inl rfl
  · exact Or.inr ⟨d, hw.1⟩

theorem people_rename [DecidableEq U] :
    people (after N (.rename u v)) ((Event.rename u v : Event C U).renamed me) ⊆
      insert v (people N me \ {u}) := by
  rintro w (rfl | ⟨d, hw | ⟨hne, hw⟩⟩)
  · rw [Event.renamed]
    split
    · exact Or.inl rfl
    · next hne => exact Or.inr ⟨Or.inl rfl, fun he => hne he.symm⟩
  · exact Or.inl hw.1
  · exact Or.inr ⟨Or.inr ⟨d, hw⟩, hne⟩

theorem Distinct.after [DecidableEq U] (h : Distinct key N me) {e : Event C U}
    (hl : Legal key N me e) : Distinct key (Presence.after N e) (e.renamed me) := by
  cases e with
  | join u c =>
    refine Set.InjOn.mono people_join ?_
    rintro w (rfl | hw) w' (rfl | hw') he
    · rfl
    · exact (hl.2 w' hw' he.symm).symm
    · exact hl.2 w hw he
    · exact h hw hw' he
  | leave u c => exact h.mono people_leave
  | quit u => exact h.mono people_quit
  | rename u v =>
    refine Set.InjOn.mono people_rename ?_
    rintro w (rfl | ⟨hw, hne⟩) w' (rfl | ⟨hw', hne'⟩) he
    · rfl
    · exact absurd (hl.2 w' hw' he.symm) hne'
    · exact absurd (hl.2 w hw he) hne
    · exact h hw hw' he

end Keys

end Srsirc.Presence
