import Mathlib.Data.List.GetD
import Srsirc.CoreHandlers

namespace Srsirc.ChannelClasses

open CharMap Message ServerInfo CoreHandlers

def fields (val : Str) : List Str := val.splitOn 0x2c

/-- The classes are the first four fields, by their positions, and modes are classified by them. -/
structure ByPosition (info : Info) (fields : List Str) : Prop where
  assigned : ∀ z < 4, info.m005chanmodes[z]? = fields[z]?
  known : ∀ c ≠ 0, ∀ z < 4, classifyChanmode info c = z + 1 ↔
    c ∈ fields.getD z [] ∧ ∀ y < z, c ∉ fields.getD y []
  unknown : ∀ c ≠ 0, classifyChanmode info c = 0 ↔ ∀ z < 4, c ∉ fields.getD z []

/-- Behind an empty one of the first `k` fields, there are only empty ones. -/
def EmptyLast (k : Nat) (fields : List Str) : Prop :=
  ∀ z < k, fields[z]? = some [] → ∀ f ∈ fields.drop z, f = []

instance (k : Nat) (fields : List Str) : Decidable (EmptyLast k fields) :=
  inferInstanceAs (Decidable (∀ z < k, _))

/-- The first `k` nonempty ones, and empty ones behind them. -/
def shifted (k : Nat) (fields : List Str) : List Str :=
  let modes := (fields.filter (· ≠ [])).take k
  modes ++ List.replicate (k - modes.length) []

section Fields

variable {k : Nat} {f : Str} {fields : List Str}

theorem shifted_cons (hf : f ≠ []) (k : Nat) (fields : List Str) :
    shifted (k + 1) (f :: fields) = f :: shifted k fields := by
  have hfilter : (f :: fields).filter (· ≠ []) = f :: fields.filter (· ≠ []) :=
    List.filter_cons_of_pos (decide_eq_true hf)
  simp only [shifted, hfilter, List.take_succ_cons, List.length_cons, Nat.add_sub_add_right,
    List.cons_append]

theorem shifted_nil_cons (k : Nat) (fields : List Str) :
    shifted k ([] :: fields) = shifted k fields := by
  have hfilter : ([] :: fields).filter (· ≠ []) = fields.filter (· ≠ []) :=
    List.filter_cons_of_neg (by decide)
  simp only [shifted, hfilter]

theorem shifted_of_empty (h : ∀ f ∈ fields, f = []) (k : Nat) :
    shifted k fields = List.replicate k [] := by
  have hfilter : fields.filter (· ≠ []) = [] :=
    List.filter_eq_nil_iff.2 fun f hf => by simp [h f hf]
  simp only [shifted, hfilter, List.take_nil, List.nil_append, List.length_nil, Nat.sub_zero]

theorem empty_of_shifted {rest : List Str} (h : shifted (k + 1) fields = [] :: rest) :
    ∀ f ∈ fields, f = [] := by
  intro f hf
  by_contra hne
  obtain ⟨g, gs, hfilter⟩ := List.exists_cons_of_ne_nil
    (List.ne_nil_of_mem (List.mem_filter.2 ⟨hf, by simpa using hne⟩ : f ∈ fields.filter (· ≠ [])))
  have hg : g ∈ fields.filter (· ≠ []) := hfilter ▸ List.mem_cons_self
  simp only [shifted, hfilter, List.take_succ_cons, List.cons_append, List.cons.injEq] at h
  exact of_decide_eq_true (List.mem_filter.1 hg).2 h.1

theorem emptyLast_cons (hf : f ≠ []) : EmptyLast (k + 1) (f :: fields) ↔ EmptyLast k fields := by
  constructor
  · exact fun h z hz => h (z + 1) (Nat.succ_lt_succ hz)
  · intro h z hz hempty
    cases z with
    | zero => exact absurd (Option.some.inj hempty) hf
    | succ z => exact h z (Nat.lt_of_succ_lt_succ hz) hempty

theorem emptyLast_nil_cons : EmptyLast (k + 1) ([] :: fields) ↔ ∀ f ∈ fields, f = [] := by
  constructor
  · exact fun h f hf => h 0 (Nat.succ_pos k) rfl f (List.mem_cons_of_mem _ hf)
  · intro h z _ _ f hf
    obtain rfl | hf := List.mem_cons.1 (List.mem_of_mem_drop hf)
    · rfl
    · exact h f hf

/-- The nonempty fields are where they were, if the empty ones come last. -/
theorem shifted_eq_take_iff (hk : k ≤ fields.length) :
    shifted k fields = fields.take k ↔ EmptyLast k fields := by
  induction fields generalizing k with
  | nil =>
    obtain rfl := Nat.le_zero.1 hk
    exact ⟨fun _ z hz => absurd hz (Nat.not_lt_zero z), fun _ => rfl⟩
  | cons f fields ih =>
    cases k with
    | zero => exact ⟨fun _ z hz => absurd hz (Nat.not_lt_zero z), fun _ => by simp [shifted]⟩
    | succ k =>
      replace hk := Nat.le_of_succ_le_succ hk
      by_cases hf : f = []
      · subst hf
        rw [shifted_nil_cons, emptyLast_nil_cons, List.take_succ_cons]
        refine ⟨empty_of_shifted, fun h => ?_⟩
        have htake : fields.take k = List.replicate k [] :=
          List.eq_replicate_iff.2 ⟨List.length_take_of_le hk,
            fun f hf => h f (List.mem_of_mem_take hf)⟩
        rw [shifted_of_empty h, htake, List.replicate_succ]
      · rw [shifted_cons hf, emptyLast_cons hf, List.take_succ_cons, List.cons_inj_right, ih hk]

theorem splitOnP_length {p : UInt8 → Bool} (s : Str) : ∀ f ∈ s.splitOnP p, f.length ≤ s.length := by
  induction s with
  | nil => simp
  | cons c s ih =>
    intro f hf
    rw [List.splitOnP_cons_eq_if_modifyHead] at hf
    split at hf
    · obtain rfl | hf := List.mem_cons.1 hf
      · exact Nat.zero_le _
      · exact (ih f hf).trans (Nat.le_succ _)
    · obtain ⟨g, gs, hg⟩ := List.exists_cons_of_ne_nil (List.splitOnP_ne_nil p s)
      rw [hg] at hf ih
      obtain rfl | hf := List.mem_cons.1 hf
      · exact Nat.succ_le_succ (ih g List.mem_cons_self)
      · exact (ih f (List.mem_cons_of_mem _ hf)).trans (Nat.le_succ _)

end Fields

variable {info : Info} {val : Str} {c : UInt8}

theorem handle_005_CHANMODES_shifted (info : Info) (hval : val.length < 64) :
    (handle_005_CHANMODES info val).2.m005chanmodes = shifted 4 (fields val) := by
  have hcut : strNcpy val 64 = val := List.take_of_length_le (Nat.le_of_lt_succ hval)
  have hfits : ∀ f ∈ ((fields val).filter (· ≠ [])).take 4, strNcpy f MAX_005_CHMD = f := by
    intro f hf
    have hlen := splitOnP_length val f (List.mem_filter.1 (List.mem_of_mem_take hf)).1
    exact List.take_of_length_le (hlen.trans (Nat.le_of_lt_succ hval))
  rw [handle_005_CHANMODES, shifted]
  simp only [hcut]
  rw [← fields, List.map_congr_left hfits, List.map_id']

theorem shifted_length (k : Nat) (fields : List Str) : (shifted k fields).length = k := by
  simp only [shifted, List.length_append, List.length_replicate]
  exact Nat.add_sub_of_le (List.length_take_le _ _)

theorem classifyChanmode_eq_iff (hc : c ≠ 0) (z : Nat) (hz : z < info.m005chanmodes.length) :
    classifyChanmode info c = z + 1 ↔
      c ∈ info.m005chanmodes.getD z [] ∧ ∀ y < z, c ∉ info.m005chanmodes.getD y [] := by
  have hsome : classifyChanmode info c = z + 1 ↔
      info.m005chanmodes.findIdx? (fun modes => (Message.strchr modes c).isSome) = some z := by
    rw [classifyChanmode]
    split
    · next h => rw [h, Option.some.injEq, Nat.add_right_cancel_iff]
    · next h => simp [h]
  rw [hsome, List.findIdx?_eq_some_iff_getElem]
  simp only [isSome_strchr hc]
  constructor
  · rintro ⟨h, hmem, hbefore⟩
    refine ⟨by rwa [List.getD_eq_getElem _ _ h], fun y hy => ?_⟩
    rw [List.getD_eq_getElem _ _ (hy.trans h)]
    exact hbefore y hy
  · rintro ⟨hmem, hbefore⟩
    refine ⟨hz, by rwa [List.getD_eq_getElem _ _ hz] at hmem, fun y hy => ?_⟩
    have h := hbefore y hy
    rwa [List.getD_eq_getElem _ _ (hy.trans hz)] at h

theorem classifyChanmode_eq_zero_iff (hc : c ≠ 0) : classifyChanmode info c = 0 ↔
    ∀ modes ∈ info.m005chanmodes, c ∉ modes := by
  have hnone : classifyChanmode info c = 0 ↔
      info.m005chanmodes.findIdx? (fun modes => (Message.strchr modes c).isSome) = none := by
    rw [classifyChanmode]
    split
    · next h => simp [h]
    · next h => simp [h]
  rw [hnone, List.findIdx?_eq_none_iff]
  simp only [← Bool.not_eq_true, isSome_strchr hc]

/-- The positions decide all there is to say. -/
theorem byPosition_iff {fields : List Str} (hlen : info.m005chanmodes.length = 4)
    (hfields : 4 ≤ fields.length) :
    ByPosition info fields ↔ info.m005chanmodes = fields.take 4 := by
  constructor
  · intro h
    refine List.ext_getElem? fun z => ?_
    by_cases hz : z < 4
    · rw [h.assigned z hz, List.getElem?_take_of_lt hz]
    · rw [List.getElem?_eq_none (by omega), List.getElem?_eq_none (by rw [List.length_take]; omega)]
  · intro h
    have hget : ∀ z < 4, info.m005chanmodes[z]? = fields[z]? := by
      intro z hz
      rw [h, List.getElem?_take_of_lt hz]
    have hgetD : ∀ z < 4, info.m005chanmodes.getD z [] = fields.getD z [] := by
      intro z hz
      rw [List.getD_eq_getElem?_getD, hget z hz, List.getD_eq_getElem?_getD]
    refine ⟨hget, fun c hc z hz => ?_, fun c hc => ?_⟩
    · rw [classifyChanmode_eq_iff hc z (hlen ▸ hz), hgetD z hz]
      refine and_congr_right fun _ => forall₂_congr fun y hy => ?_
      rw [hgetD y (hy.trans hz)]
    · rw [classifyChanmode_eq_zero_iff hc]
      constructor
      · intro hall z hz
        rw [← hgetD z hz, List.getD_eq_getElem _ _ (hlen ▸ hz)]
        exact hall _ (List.getElem_mem _)
      · intro hall modes hmodes
        obtain ⟨z, hz, rfl⟩ := List.getElem_of_mem hmodes
        have hz' := hall z (hlen ▸ hz)
        rwa [← hgetD z (hlen ▸ hz), List.getD_eq_getElem _ _ hz] at hz'

/-- The classes are taken by position just if the empty ones come last. -/
theorem chanmodes_by_position_iff (info : Info) (val : Str) (hval : val.length < 64)
    (hfields : 4 ≤ (fields val).length) :
    ByPosition (handle_005_CHANMODES info val).2 (fields val) ↔ EmptyLast 4 (fields val) := by
  have hshifted := handle_005_CHANMODES_shifted info hval
  rw [byPosition_iff (by rw [hshifted, shifted_length]) hfields, hshifted,
    shifted_eq_take_iff hfields]

theorem chanmodes_by_position_sample :
    ByPosition (handle_005_CHANMODES .init (ascii "b,k,l,imnpst")).2
      (fields (ascii "b,k,l,imnpst")) :=
  (chanmodes_by_position_iff .init (ascii "b,k,l,imnpst") (by decide) (by decide)).2 (by decide)

/-- A server without modes that always have a parameter: `l` is taken for one of them. -/
theorem chanmodes_shifted :
    (handle_005_CHANMODES .init (ascii "b,,l,imnpst")).2.m005chanmodes =
      [ascii "b", ascii "l", ascii "imnpst", []] ∧
      classifyChanmode (handle_005_CHANMODES .init (ascii "b,,l,imnpst")).2 0x6c = 2 ∧
      ¬ByPosition (handle_005_CHANMODES .init (ascii "b,,l,imnpst")).2
        (fields (ascii "b,,l,imnpst")) := by
  refine ⟨by decide, by decide, fun h => ?_⟩
  exact absurd (h.assigned 1 (by decide)) (by decide)

end Srsirc.ChannelClasses
