import Srsirc.Proxy

namespace Srsirc.ProxyReads

open CharMap Memory Message ReadBuffer BoundedStore Proxy

def ahead : Source → Str
  | .chunk c s :: src => c :: s ++ ahead src
  | _ => []

def beyond : Source → Source
  | .chunk _ _ :: src => beyond src
  | src => src

def joined (src : Source) : Source :=
  match ahead src with
  | [] => beyond src
  | c :: s => .chunk c s :: beyond src

/-- The same bytes arrive, and then the same happens. -/
structure Same (src src' : Source) : Prop where
  ahead : ahead src = ahead src'
  beyond : beyond src = beyond src'

theorem beyond_cases (src : Source) : beyond src = [] ∨ ∃ a src', beyond src = a :: src' ∧
    ∀ c s, a ≠ .chunk c s := by
  induction src with
  | nil => exact Or.inl rfl
  | cons a src ih =>
    cases a with
    | chunk c s => exact ih
    | timeout | eof | failure => exact Or.inr ⟨_, _, rfl, fun _ _ h => by cases h⟩

theorem ahead_beyond (src : Source) : ahead (beyond src) = [] := by
  induction src with
  | nil => rfl
  | cons a src ih =>
    cases a with
    | chunk c s => exact ih
    | timeout | eof | failure => rfl

theorem beyond_beyond (src : Source) : beyond (beyond src) = beyond src := by
  induction src with
  | nil => rfl
  | cons a src ih =>
    cases a with
    | chunk c s => exact ih
    | timeout | eof | failure => rfl

theorem same_joined (src : Source) : Same src (joined src) := by
  rw [joined]
  cases h : ahead src with
  | nil => exact ⟨by rw [h, ahead_beyond], (beyond_beyond src).symm⟩
  | cons c s => exact ⟨by rw [h, ahead, ahead_beyond, List.append_nil], (beyond_beyond src).symm⟩

theorem read_nothing {src : Source} (h : ahead src = []) (sz : Nat) :
    (beyond src = [] ∧ src.read sz = none) ∨
      ∃ a src' n, beyond src = a :: src' ∧ src.read sz = some (n, [], src') ∧ n ≤ 0 := by
  cases src with
  | nil => exact Or.inl ⟨rfl, rfl⟩
  | cons a src =>
    cases a with
    | chunk c s => cases h
    | timeout => exact Or.inr ⟨_, _, _, rfl, rfl, by omega⟩
    | eof => exact Or.inr ⟨_, _, _, rfl, rfl, by omega⟩
    | failure => exact Or.inr ⟨_, _, _, rfl, rfl, by omega⟩

theorem read_some {src : Source} (h : ahead src ≠ []) {sz : Nat} (hsz : 0 < sz) :
    ∃ t src', src.read sz = some (t.length, t, src') ∧ 0 < t.length ∧ t.length ≤ sz ∧
      ahead src = t ++ ahead src' ∧ beyond src' = beyond src := by
  cases src with
  | nil => exact absurd rfl h
  | cons a src =>
    cases a with
    | timeout | eof | failure => exact absurd rfl h
    | chunk c s =>
      obtain ⟨hpos, hle, ⟨hd, ht⟩ | ⟨c', s', hd, _, ht⟩⟩ := take_chunk hsz c s
      · refine ⟨(c :: s).take sz, src, by simp only [Source.read, hd], hpos, hle, ?_, rfl⟩
        rw [ht]
        rfl
      · refine ⟨(c :: s).take sz, .chunk c' s' :: src,
          by simp only [Source.read, hd], hpos, hle, ?_, rfl⟩
        rw [ahead, ahead, ← List.append_assoc, ht]

structure Placed (size : Nat) (st : Stored) : Prop where
  index : st.index = st.count
  inside : st.index + st.bytes.length ≤ size

end Srsirc.ProxyReads
