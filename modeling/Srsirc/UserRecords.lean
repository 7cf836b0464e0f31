import Srsirc.MemberOps

namespace Srsirc.UserRecords

open CharMap Dictionary Fallible HeapCells Members MemberOps Message RefCount UserBase UserLifetime

/-- Every record of a user is found under the key of its nick. -/
structure Enrolled (cm : CMap) (b : Base) : Prop where
  usersCm : b.users.cm = cm
  found : ∀ p n, nickAt b p = some n → b.users.lookup (norm cm n) = some p

variable {cm : CMap} {b : Base} {c p : Ptr}

theorem get_of_user {u : User} (h : b.user p = .ok u) : b.userHeap.get p = some u := by
  rw [Base.user] at h
  split at h
  · cases h
  · next hu =>
    cases h
    exact hu

theorem Enrolled.forget {b' : Base} (h : Enrolled cm b) {n : Str} (hn : nickAt b p = some n)
    (hcm : b'.users.cm = cm)
    (husers : b'.users.lookup = Function.update b.users.lookup (norm cm n) none)
    (hnick : nickAt b' = Function.update (nickAt b) p none) : Enrolled cm b' := by
  refine ⟨hcm, fun q n' hq => ?_⟩
  rw [hnick] at hq
  obtain ⟨hqp, hq⟩ := update_none hq
  rw [husers, Function.update_of_ne, h.found q n' hq]
  intro heq
  have hold := h.found q n' hq
  rw [heq, h.found p n hn] at hold
  exact hqp (Option.some.inj hold).symm

end Srsirc.UserRecords
