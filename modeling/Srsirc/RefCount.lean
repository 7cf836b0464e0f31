import Mathlib.Logic.Function.Basic
import Mathlib.Tactic.Common

namespace Srsirc.RefCount

variable {K P U : Type}

/-- Counted records, each with a key of its own, and an index to find them by it.
`refs p` references lead to the record at `p`, and `filed κ p` tells that one of
them is filed under `κ`. The index and the references may disagree, but every
pointer in use is live. The records in `tight` are counted exactly, are referred
to, and are found in the index. -/
structure Roster (key : U → K) (count : U → Nat) (tight : P → Prop) (look : K → Option P)
    (get : P → Option U) (refs : P → Nat) (filed : K → P → Prop) : Prop where
  found : ∀ κ p, look κ = some p → ∃ u, get p = some u ∧ key u = κ
  live : ∀ p, 0 < refs p → ∃ u, get p = some u
  counted : ∀ p u, get p = some u → refs p ≤ count u
  filed_at : ∀ κ p u, filed κ p → get p = some u → look (key u) = some p → κ = key u
  exact : ∀ p u, tight p → get p = some u →
    count u = refs p ∧ 0 < refs p ∧ look (key u) = some p

variable {key : U → K} {count : U → Nat} {tight : P → Prop} {look : K → Option P}
  {get : P → Option U} {refs : P → Nat} {filed : K → P → Prop}

theorem Roster.weaken (h : Roster key count tight look get refs filed) {tight' : P → Prop}
    {filed' : K → P → Prop} (ht : ∀ p, tight' p → tight p) (hf : ∀ κ p, filed' κ p → filed κ p) :
    Roster key count tight' look get refs filed' :=
  ⟨h.found, h.live, h.counted, fun κ p u hp => h.filed_at κ p u (hf κ p hp),
    fun p u hp => h.exact p u (ht p hp)⟩

theorem Roster.self (h : Roster key count tight look get refs filed) {κ : K} {p : P} {u : U}
    (hp : look κ = some p) (hu : get p = some u) : κ = key u := by
  obtain ⟨v, hv, rfl⟩ := h.found κ p hp
  rw [hu] at hv
  obtain rfl := Option.some.inj hv
  rfl

theorem update_some {X α : Type} [DecidableEq X] {f : X → Option α} {p q : X} {a b : α}
    (h : Function.update f p (some a) q = some b) : (q = p ∧ b = a) ∨ (q ≠ p ∧ f q = some b) := by
  rw [Function.update_apply] at h
  by_cases hq : q = p
  · rw [if_pos hq] at h
    exact Or.inl ⟨hq, (Option.some.inj h).symm⟩
  · rw [if_neg hq] at h
    exact Or.inr ⟨hq, h⟩

theorem update_none {X α : Type} [DecidableEq X] {f : X → Option α} {p q : X} {b : α}
    (h : Function.update f p none q = some b) : q ≠ p ∧ f q = some b := by
  rw [Function.update_apply] at h
  by_cases hq : q = p
  · simp [hq] at h
  · exact ⟨hq, by simpa [hq] using h⟩

variable [DecidableEq P]

theorem Roster.found_update (h : Roster key count tight look get refs filed) {p : P} {u u' : U}
    (hu : get p = some u) (hk : key u' = key u) (κ : K) (q : P) (hq : look κ = some q) :
    ∃ v, Function.update get p (some u') q = some v ∧ key v = κ := by
  obtain ⟨v, hv, hκ⟩ := h.found κ q hq
  by_cases hqp : q = p
  · subst hqp
    rw [hu] at hv
    obtain rfl := Option.some.inj hv
    exact ⟨u', Function.update_self _ _ _, hk.trans hκ⟩
  · exact ⟨v, by rw [Function.update_of_ne hqp, hv], hκ⟩

/-- References as counted after one to `p` is gone. -/
def less (refs : P → Nat) (p q : P) : Nat := if q = p then refs p - 1 else refs q

/-- The record at `p` changes without changing its key. -/
theorem Roster.touch (h : Roster key count tight look get refs filed) {p : P} {u u' : U}
    (hu : get p = some u) (hk : key u' = key u) (hc : count u' = count u) :
    Roster key count tight look (Function.update get p (some u')) refs filed := by
  refine ⟨?_, ?_, ?_, ?_, ?_⟩
  · exact h.found_update hu hk
  · intro q hq
    by_cases hqp : q = p
    · exact ⟨u', by rw [hqp, Function.update_self]⟩
    · obtain ⟨v, hv⟩ := h.live q hq
      exact ⟨v, by rw [Function.update_of_ne hqp, hv]⟩
  · intro q v hv
    obtain ⟨rfl, rfl⟩ | ⟨_, hv⟩ := update_some hv
    · rw [hc]
      exact h.counted q u hu
    · exact h.counted q v hv
  · intro κ q v hf hv hl
    obtain ⟨rfl, rfl⟩ | ⟨_, hv⟩ := update_some hv
    · rw [hk] at hl ⊢
      exact h.filed_at κ q u hf hu hl
    · exact h.filed_at κ q v hf hv hl
  · intro q v ht hv
    obtain ⟨rfl, rfl⟩ | ⟨_, hv⟩ := update_some hv
    · rw [hk, hc]
      exact h.exact q u ht hu
    · exact h.exact q v ht hv

theorem Roster.decrement (h : Roster key count tight look get refs filed) {p : P} {u u' : U}
    (hu : get p = some u) (hk : key u' = key u) (hc : count u' = count u - 1) (hp : 0 < refs p) :
    Roster key count (fun q => tight q ∧ (q = p → 1 < count u)) look
      (Function.update get p (some u')) (less refs p) filed := by
  refine ⟨?_, ?_, ?_, ?_, ?_⟩
  · exact h.found_update hu hk
  · intro q hq
    by_cases hqp : q = p
    · exact ⟨u', by rw [hqp, Function.update_self]⟩
    · rw [less, if_neg hqp] at hq
      obtain ⟨v, hv⟩ := h.live q hq
      exact ⟨v, by rw [Function.update_of_ne hqp, hv]⟩
  · intro q v hv
    obtain ⟨rfl, rfl⟩ | ⟨hqp, hv⟩ := update_some hv
    · have := h.counted q u hu
      rw [less, if_pos rfl, hc]
      omega
    · rw [less, if_neg hqp]
      exact h.counted q v hv
  · intro κ q v hf hv hl
    obtain ⟨rfl, rfl⟩ | ⟨_, hv⟩ := update_some hv
    · rw [hk] at hl ⊢
      exact h.filed_at κ q u hf hu hl
    · exact h.filed_at κ q v hf hv hl
  · rintro q v ⟨ht, hone⟩ hv
    obtain ⟨rfl, rfl⟩ | ⟨hqp, hv⟩ := update_some hv
    · obtain ⟨hn, _, hl⟩ := h.exact q u ht hu
      have := hone rfl
      rw [less, if_pos rfl, hk, hc]
      exact ⟨by omega, by omega, hl⟩
    · rw [less, if_neg hqp]
      exact h.exact q v ht hv

/-- A record without references that is not in the index goes. -/
theorem Roster.release (h : Roster key count tight look get refs filed) {p : P}
    (hp : refs p = 0) (hl : ∀ κ, look κ ≠ some p) {tight' : P → Prop}
    (ht : ∀ q, tight' q → q ≠ p → tight q) :
    Roster key count tight' look (Function.update get p none) refs filed := by
  refine ⟨?_, ?_, ?_, ?_, ?_⟩
  · intro κ q hq
    obtain ⟨v, hv, hκ⟩ := h.found κ q hq
    have hqp : q ≠ p := fun he => hl κ (he ▸ hq)
    exact ⟨v, by rw [Function.update_of_ne hqp, hv], hκ⟩
  · intro q hq
    have hqp : q ≠ p := by
      rintro rfl
      omega
    obtain ⟨v, hv⟩ := h.live q hq
    exact ⟨v, by rw [Function.update_of_ne hqp, hv]⟩
  · intro q v hv
    exact h.counted q v (update_none hv).2
  · intro κ q v hf hv
    exact h.filed_at κ q v hf (update_none hv).2
  · intro q v htq hv
    obtain ⟨hqp, hv⟩ := update_none hv
    exact h.exact q v (ht q htq hqp) hv

variable [DecidableEq K]

theorem Roster.discard (h : Roster key count tight look get refs filed) {p : P} {u : U}
    (hu : get p = some u) (hp : refs p = 0) {tight' : P → Prop}
    (ht : ∀ q v, tight' q → get q = some v → q ≠ p → tight q ∧ key v ≠ key u) :
    Roster key count tight' (Function.update look (key u) none) (Function.update get p none)
      refs filed := by
  refine ⟨?_, ?_, ?_, ?_, ?_⟩
  · intro κ q hq
    obtain ⟨hκ, hl⟩ := update_none hq
    obtain ⟨v, hv, hn⟩ := h.found κ q hl
    have hqp : q ≠ p := by
      rintro rfl
      rw [hu] at hv
      exact hκ (Option.some.inj hv ▸ hn.symm)
    exact ⟨v, by rw [Function.update_of_ne hqp, hv], hn⟩
  · intro q hq
    have hqp : q ≠ p := by
      rintro rfl
      omega
    obtain ⟨v, hv⟩ := h.live q hq
    exact ⟨v, by rw [Function.update_of_ne hqp, hv]⟩
  · intro q v hv
    exact h.counted q v (update_none hv).2
  · intro κ q v hf hv hl
    exact h.filed_at κ q v hf (update_none hv).2 (update_none hl).2
  · intro q v htq hv
    obtain ⟨hqp, hv⟩ := update_none hv
    obtain ⟨htq, hκ⟩ := ht q v htq hv hqp
    obtain ⟨hn, hpos, hl⟩ := h.exact q v htq hv
    exact ⟨hn, hpos, by rw [Function.update_of_ne hκ, hl]⟩

omit [DecidableEq P] in
theorem Roster.forget (h : Roster key count tight look get refs filed) (κ : K) :
    Roster key count (fun q => tight q ∧ look κ ≠ some q) (Function.update look κ none) get
      refs filed := by
  refine ⟨?_, h.live, h.counted, ?_, ?_⟩
  · intro κ' q hq
    exact h.found κ' q (update_none hq).2
  · intro κ' q v hf hv hl
    exact h.filed_at κ' q v hf hv (update_none hl).2
  · rintro q v ⟨ht, hne⟩ hv
    obtain ⟨hn, hpos, hl⟩ := h.exact q v ht hv
    refine ⟨hn, hpos, ?_⟩
    have hκ : key v ≠ κ := fun he => hne (he ▸ hl)
    rw [Function.update_of_ne hκ, hl]

/-- A new record enters the index, and may displace another one there. -/
theorem Roster.enroll (h : Roster key count tight look get refs filed) {p : P} {u : U}
    (hp : get p = none) (hf : ∀ κ, ¬filed κ p) (ht : ∀ q, tight q → q ≠ p ∧ look (key u) ≠ some q) :
    Roster key count tight (Function.update look (key u) (some p)) (Function.update get p (some u))
      refs filed := by
  have hrefs : refs p = 0 := by
    by_contra hne
    obtain ⟨v, hv⟩ := h.live p (Nat.pos_of_ne_zero hne)
    rw [hp] at hv
    cases hv
  refine ⟨?_, ?_, ?_, ?_, ?_⟩
  · intro κ q hq
    obtain ⟨rfl, rfl⟩ | ⟨hκ, hl⟩ := update_some hq
    · exact ⟨u, Function.update_self _ _ _, rfl⟩
    · obtain ⟨v, hv, hn⟩ := h.found κ q hl
      have hqp : q ≠ p := by
        rintro rfl
        rw [hp] at hv
        cases hv
      exact ⟨v, by rw [Function.update_of_ne hqp, hv], hn⟩
  · intro q hq
    have hqp : q ≠ p := by
      rintro rfl
      omega
    obtain ⟨v, hv⟩ := h.live q hq
    exact ⟨v, by rw [Function.update_of_ne hqp, hv]⟩
  · intro q v hv
    obtain ⟨rfl, rfl⟩ | ⟨_, hv⟩ := update_some hv
    · omega
    · exact h.counted q v hv
  · intro κ q v hfq hv hl
    obtain ⟨rfl, rfl⟩ | ⟨hqp, hv⟩ := update_some hv
    · exact absurd hfq (hf κ)
    · obtain ⟨_, hq⟩ | ⟨_, hl⟩ := update_some hl
      · exact absurd hq hqp
      · exact h.filed_at κ q v hfq hv hl
  · intro q v htq hv
    obtain ⟨hqp, hne⟩ := ht q htq
    obtain ⟨rfl, _⟩ | ⟨_, hv⟩ := update_some hv
    · exact absurd rfl hqp
    · obtain ⟨hn, hpos, hl⟩ := h.exact q v htq hv
      have hκ : key v ≠ key u := fun he => hne (he ▸ hl)
      exact ⟨hn, hpos, by rw [Function.update_of_ne hκ, hl]⟩

omit [DecidableEq K] in
theorem Roster.refer (h : Roster key count tight look get refs filed) {p : P} {u u' : U}
    (hu : get p = some u) (hk : key u' = key u) (hc : count u' = count u + 1) {tight' : P → Prop}
    {refs' : P → Nat} {filed' : K → P → Prop}
    (hr : ∀ q, refs' q ≤ refs q + if q = p then 1 else 0)
    (hf : ∀ κ q, filed' κ q → (κ = key u ∧ q = p) ∨ filed κ q)
    (ht : ∀ q, tight' q → refs' q = (refs q + if q = p then 1 else 0) ∧
      (tight q ∨ q = p ∧ count u = refs p ∧ look (key u) = some p)) :
    Roster key count tight' look (Function.update get p (some u')) refs' filed' := by
  refine ⟨?_, ?_, ?_, ?_, ?_⟩
  · exact h.found_update hu hk
  · intro q hq
    by_cases hqp : q = p
    · exact ⟨u', by rw [hqp, Function.update_self]⟩
    · have hle := hr q
      rw [if_neg hqp] at hle
      obtain ⟨v, hv⟩ := h.live q (by omega)
      exact ⟨v, by rw [Function.update_of_ne hqp, hv]⟩
  · intro q v hv
    have hle := hr q
    obtain ⟨rfl, rfl⟩ | ⟨hqp, hv⟩ := update_some hv
    · have := h.counted q u hu
      rw [if_pos rfl] at hle
      omega
    · have := h.counted q v hv
      rw [if_neg hqp] at hle
      omega
  · intro κ q v hfq hv hl
    obtain ⟨rfl, rfl⟩ | ⟨hqp, hv⟩ := update_some hv
    · obtain ⟨hκ, _⟩ | hfq := hf κ q hfq
      · rw [hκ, hk]
      · rw [hk] at hl ⊢
        exact h.filed_at κ q u hfq hu hl
    · obtain ⟨_, hq⟩ | hfq := hf κ q hfq
      · exact absurd hq hqp
      · exact h.filed_at κ q v hfq hv hl
  · intro q v htq hv
    obtain ⟨hrq, htq⟩ := ht q htq
    obtain ⟨rfl, rfl⟩ | ⟨hqp, hv⟩ := update_some hv
    · rw [if_pos rfl] at hrq
      have hex : count u = refs q ∧ look (key u) = some q := by
        obtain htq | ⟨_, hc, hl⟩ := htq
        · obtain ⟨hn, _, hl⟩ := h.exact q u htq hu
          exact ⟨hn, hl⟩
        · exact ⟨hc, hl⟩
      exact ⟨by omega, by omega, hk ▸ hex.2⟩
    · rw [if_neg hqp] at hrq
      obtain htq | ⟨rfl, _⟩ := htq
      · rw [hrq]
        exact h.exact q v htq hv
      · exact absurd rfl hqp

/-- A record changes its key, and the index and the files follow. The record that the
index has under the new key is displaced; if that is the old key, the record itself
drops out of the index. -/
theorem Roster.rename (h : Roster key count tight look get refs filed) {p : P} {u u' : U}
    (hu : get p = some u) (hl : look (key u) = some p) (hc : count u' = count u)
    {tight' : P → Prop} {refs' : P → Nat} {filed' : K → P → Prop} (hr : ∀ q, refs' q ≤ refs q)
    (hf : ∀ κ q, filed' κ q → (κ = key u' ∧ filed (key u) q) ∨ (κ ≠ key u ∧ filed κ q))
    (ht : ∀ q, tight' q → tight q ∧ refs' q = refs q ∧ look (key u') ≠ some q) :
    Roster key count tight'
      (Function.update (Function.update look (key u') (some p)) (key u) none)
      (Function.update get p (some u')) refs' filed' := by
  refine ⟨?_, ?_, ?_, ?_, ?_⟩
  · intro κ q hq
    obtain ⟨hκ, hq⟩ := update_none hq
    obtain ⟨rfl, rfl⟩ | ⟨_, hq⟩ := update_some hq
    · exact ⟨u', Function.update_self _ _ _, rfl⟩
    · obtain ⟨v, hv, hn⟩ := h.found κ q hq
      have hqp : q ≠ p := fun he => hκ (h.self hq (he ▸ hu))
      exact ⟨v, by rw [Function.update_of_ne hqp, hv], hn⟩
  · intro q hq
    obtain ⟨v, hv⟩ := h.live q (Nat.lt_of_lt_of_le hq (hr q))
    by_cases hqp : q = p
    · exact ⟨u', by rw [hqp, Function.update_self]⟩
    · exact ⟨v, by rw [Function.update_of_ne hqp, hv]⟩
  · intro q v hv
    refine Nat.le_trans (hr q) ?_
    obtain ⟨rfl, rfl⟩ | ⟨_, hv⟩ := update_some hv
    · rw [hc]
      exact h.counted q u hu
    · exact h.counted q v hv
  · intro κ q v hfq hv hlq
    obtain ⟨hkey, hlq⟩ := update_none hlq
    obtain ⟨rfl, rfl⟩ | ⟨hqp, hv⟩ := update_some hv
    · obtain ⟨hκ, _⟩ | ⟨hκ, hfq⟩ := hf κ q hfq
      · exact hκ
      · exact absurd (h.filed_at κ q u hfq hu hl) hκ
    · obtain ⟨_, hq⟩ | ⟨_, hlq⟩ := update_some hlq
      · exact absurd hq hqp
      · obtain ⟨_, hfq⟩ | ⟨_, hfq⟩ := hf κ q hfq
        · exact absurd (h.filed_at _ q v hfq hv hlq).symm hkey
        · exact h.filed_at κ q v hfq hv hlq
  · intro q v htq hv
    obtain ⟨htq, hrq, hne⟩ := ht q htq
    obtain ⟨rfl, rfl⟩ | ⟨hqp, hv⟩ := update_some hv
    · obtain ⟨hn, hpos, _⟩ := h.exact q u htq hu
      have hκ : key v ≠ key u := fun he => hne (he ▸ hl)
      refine ⟨by omega, by omega, ?_⟩
      rw [Function.update_of_ne hκ, Function.update_self]
    · obtain ⟨hn, hpos, hlq⟩ := h.exact q v htq hv
      have hκ : key v ≠ key u := by
        intro he
        rw [he, hl] at hlq
        exact hqp (Option.some.inj hlq).symm
      have hκ' : key v ≠ key u' := fun he => hne (he ▸ hlq)
      refine ⟨by omega, by omega, ?_⟩
      rw [Function.update_of_ne hκ, Function.update_of_ne hκ', hlq]

end Srsirc.RefCount
