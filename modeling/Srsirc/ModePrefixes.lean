import Mathlib.Data.List.Sort
import Srsirc.TrackMaps

namespace Srsirc.ModePrefixes

open CharMap Dictionary HeapCells Message ServerInfo UserBase ChannelModes Track TrackInfo
open Fallible MapAgreement TrackMaps TrackRule

/-- A prefix is made of the symbols of a table, each at most once and the most powerful first. -/
structure Ranked (syms s : Str) : Prop where
  known : ∀ c ∈ s, c ∈ syms
  distinct : s.Nodup
  ordered : s.Pairwise fun c c' => syms.idxOf c < syms.idxOf c'

instance (syms s : Str) : Decidable (Ranked syms s) :=
  have : Decidable (∀ c ∈ s, c ∈ syms) := List.decidableBAll (· ∈ syms) s
  decidable_of_iff ((∀ c ∈ s, c ∈ syms) ∧ s.Nodup ∧
    s.Pairwise fun c c' => syms.idxOf c < syms.idxOf c')
    ⟨fun h => ⟨h.1, h.2.1, h.2.2⟩, fun h => ⟨h.known, h.distinct, h.ordered⟩⟩

def powerLe (syms : Str) (c c' : UInt8) : Prop := syms.idxOf c ≤ syms.idxOf c'

instance (syms : Str) : DecidableRel (powerLe syms) := fun _ _ => Nat.decLe _ _

instance (syms : Str) : Std.Total (powerLe syms) := ⟨fun _ _ => Nat.le_total _ _⟩

instance (syms : Str) : IsTrans UInt8 (powerLe syms) := ⟨fun _ _ _ => Nat.le_trans⟩

theorem ranked_of_le {syms s : Str} (hk : ∀ c ∈ s, c ∈ syms) (hd : s.Nodup)
    (ho : s.Pairwise (powerLe syms)) : Ranked syms s := by
  refine ⟨hk, hd, (ho.and hd).imp_of_mem fun hc hc' h => ?_⟩
  exact lt_of_le_of_ne h.1 fun he => h.2 ((List.idxOf_inj (hk _ hc)).1 he)

theorem ranked_nil (syms : Str) : Ranked syms [] :=
  ⟨fun _ hc => absurd hc List.not_mem_nil, List.nodup_nil, List.Pairwise.nil⟩

theorem ranked_singleton {syms : Str} {c : UInt8} (hc : c ∈ syms) : Ranked syms [c] :=
  ⟨fun _ h => List.mem_singleton.1 h ▸ hc, List.nodup_singleton c, List.pairwise_singleton _ c⟩

theorem Ranked.sublist {syms s s' : Str} (h : Ranked syms s) (hs : s'.Sublist s) : Ranked syms s' :=
  ⟨fun c hc => h.known c (hs.subset hc), h.distinct.sublist hs, h.ordered.sublist hs⟩

theorem rank_eq {info : Info} {c : UInt8} (hc : c ∈ info.m005modepfx.2) (h0 : c ≠ 0) :
    modepfxRank info c = info.m005modepfx.2.idxOf c := by
  have hlt := List.idxOf_lt_length_of_mem hc
  have hfind : strchr info.m005modepfx.2 c = some (info.m005modepfx.2.idxOf c) := by
    rw [strchr, if_neg h0, List.findIdx?_eq_guard_findIdx_lt]
    exact Option.guard_eq_some_iff.2 ⟨rfl, decide_eq_true hlt⟩
  rw [modepfxRank, hfind]

theorem stronger_eq {info : Info} {c c' : UInt8} (hc : c ∈ info.m005modepfx.2) (h0 : c ≠ 0)
    (hc' : c' ∈ info.m005modepfx.2) (h0' : c' ≠ 0) : stronger info c c' =
      decide ¬powerLe info.m005modepfx.2 c' c := by
  rw [stronger, rank_eq hc h0, rank_eq hc' h0']
  simp [powerLe]

theorem takeWhile_congr {p p' : UInt8 → Bool} {s : Str} (h : ∀ c ∈ s, p c = p' c) :
    s.takeWhile p = s.takeWhile p' := by
  induction s with
  | nil => rfl
  | cons c s ih =>
    rw [List.takeWhile_cons, List.takeWhile_cons, h c List.mem_cons_self,
      ih fun c hc => h c (List.mem_cons_of_mem _ hc)]

theorem drop_takeWhile (p : UInt8 → Bool) (s : Str) :
    s.drop (s.takeWhile p).length = s.dropWhile p := by
  have h := @List.drop_left _ (s.takeWhile p) (s.dropWhile p)
  rwa [List.takeWhile_append_dropWhile] at h

/-- A symbol goes where an ordered insertion puts it. -/
theorem inserted_eq {info : Info} {s : Str} {sym : UInt8} (hk : ∀ c ∈ s, c ∈ info.m005modepfx.2)
    (h0 : 0 ∉ s) (hsym : sym ∈ info.m005modepfx.2) (hsym0 : sym ≠ 0) :
    s.takeWhile (stronger info · sym) ++ sym :: s.drop (s.takeWhile (stronger info · sym)).length =
      s.orderedInsert (powerLe info.m005modepfx.2) sym := by
  have hs : s.takeWhile (stronger info · sym) =
      s.takeWhile fun c => ¬powerLe info.m005modepfx.2 sym c :=
    takeWhile_congr fun c hc => stronger_eq (hk c hc) (fun he => h0 (he ▸ hc)) hsym hsym0
  rw [List.orderedInsert_eq_take_drop, hs, drop_takeWhile]

def Kept (syms s : Str) : Prop := Ranked syms s ∧ 0 ∉ s

theorem updated_kept {info : Info} {s s' : Str} {sym : UInt8} {enab : Bool}
    (hs : Kept info.m005modepfx.2 s) (hsym : sym ≠ 0 → sym ∈ info.m005modepfx.2)
    (h : updatedModepfx info s sym enab = some s') : Kept info.m005modepfx.2 s' := by
  obtain ⟨hr, h0⟩ := hs
  rw [updatedModepfx] at h
  split at h
  · next i hi =>
    split at h
    · cases h
    · cases h
      have hsub : (s.take i ++ s.drop (i + 1)).Sublist s := by
        rw [← List.eraseIdx_eq_take_drop_succ]
        exact List.eraseIdx_sublist s i
      exact ⟨hr.sublist hsub, fun hm => h0 (hsub.subset hm)⟩
  · next hnone =>
    split at h
    · cases h
    · cases h
      have hsym0 : sym ≠ 0 := fun he => by simp [he, strchr] at hnone
      have hnew : sym ∉ s := fun hm => by
        have hsome := (isSome_strchr hsym0).2 hm
        rw [hnone] at hsome
        cases hsome
      have hmem := hsym hsym0
      rw [inserted_eq hr.known h0 hmem hsym0]
      have hperm := List.perm_orderedInsert (powerLe info.m005modepfx.2) sym s
      refine ⟨ranked_of_le (fun c hc => ?_) ?_ ?_, fun hm => ?_⟩
      · obtain rfl | hc := List.mem_cons.1 (hperm.subset hc)
        · exact hmem
        · exact hr.known c hc
      · exact hperm.nodup_iff.2 (List.nodup_cons.2 ⟨hnew, hr.distinct⟩)
      · exact (hr.ordered.imp Nat.le_of_lt).orderedInsert sym s
      · obtain he | hm := List.mem_cons.1 (hperm.subset hm)
        · exact hsym0 he.symm
        · exact h0 hm

theorem symbol_mem {syms : Str} {i : Nat} (h0 : syms.getD i 0 ≠ 0) : syms.getD i 0 ∈ syms := by
  by_cases hlt : i < syms.length
  · simp [hlt]
  · simp [hlt] at h0

/-- The handlers keep the prefixes ranked as long as the table is the same. -/
theorem suits_kept (info : Info) : Suits info (Kept info.m005modepfx.2) := by
  refine ⟨⟨ranked_nil _, List.not_mem_nil⟩, fun c hc h0 => ⟨ranked_singleton hc, ?_⟩, ?_⟩
  · exact fun hm => h0 (List.mem_singleton.1 hm).symm
  · exact fun mode i enab s s' hs _ hmod => updated_kept hs symbol_mem hmod

/-- The pairs that `compare_modepfx` is called for by `lsi_ucb_update_modepfx`. -/
def compared (info : Info) (modepfx : Str) (sym : UInt8) (enab : Bool) : List (UInt8 × UInt8) :=
  match strchr modepfx sym with
  | some _ => []
  | none =>
    if !enab ∨ MAX_MODEPFX ≤ modepfx.length + 1 then []
    else (modepfx.take ((modepfx.takeWhile (stronger info · sym)).length + 1)).map (·, sym)

def modepfxCompared (info : Info) (b : Base) (c : Ptr) (nick : Str) (sym : UInt8) (enab : Bool) :
    List (UInt8 × UInt8) :=
  match b.chan c with
  | .error _ => []
  | .ok ch =>
    match ch.memb.get nick with
    | none => []
    | some m => compared info m.modepfx sym enab

def modeCompared (info : Info) (c : Ptr) (m : ModeChange) (b : Base) : List (UInt8 × UInt8) :=
  match strchr info.m005modepfx.1 m.mode, m.argument with
  | some i, .ok nick => modepfxCompared info b c nick (info.m005modepfx.2.getD i 0) m.enab
  | _, _ => []

def modesCompared (info : Info) (c : Ptr) : List ModeChange → Base → List (UInt8 × UInt8)
  | [], _ => []
  | m :: ms, b =>
    modeCompared info c m b ++
      match applyMode info c m b with
      | .error _ => []
      | .ok (_, b) => modesCompared info c ms b

/-- What `h_MODE_chanmode` is to apply: the channel, its mode changes, and the base by then. -/
def modesHeard (info : Info) (msg : Msg) (b : Base) :
    Except Fault (Option (Ptr × List ModeChange × Base)) := do
  let name ← msg.fld 2
  match getChan b name with
  | none => .ok none
  | some c =>
    let (ms, al) ← parseMODE info msg false b.al
    .ok (ms.map fun ms => (c, ms, { b with al }))

def modesApplied (info : Info) (msg : Msg) (nargs : Nat) (b : Base) :
    Except Fault (Option (Ptr × List ModeChange × Base)) :=
  if !msg.present 0 ∨ nargs < 4 then .ok none
  else do
    let name ← msg.fld 2
    if (strchr info.m005chantypes (name.headD 0)).isSome then do
      let ident ← msg.fld 0
      if 0x2e ∈ ident2nick MAX_NICK_LEN ident then modesHeard info msg b
      else touchUser b ident >>= modesHeard info msg
    else .ok none

/-- The pairs compared by a call of `h_MODE`, the only handler that compares symbols. -/
def h_MODE_compared (info : Info) (msg : Msg) (nargs : Nat) (b : Base) : List (UInt8 × UInt8) :=
  match modesApplied info msg nargs b with
  | .ok (some (c, ms, b)) => modesCompared info c ms b
  | _ => []

theorem h_MODE_applies {info : Info} {msg : Msg} {nargs : Nat} {b b₁ : Base} {c : Ptr}
    {ms : List ModeChange} (h : modesApplied info msg nargs b = .ok (some (c, ms, b₁))) :
    h_MODE info msg nargs b = applyModes info c ms b₁ := by
  have hrest : ∀ b₂, modesHeard info msg b₂ = .ok (some (c, ms, b₁)) →
      chanmodes info msg b₂ = applyModes info c ms b₁ := by
    intro b₂ h₂
    obtain ⟨name, hname, h₂⟩ := bind_ok_iff.1 h₂
    rw [chanmodes, hname, ok_bind]
    cases hc : getChan b₂ name with
    | none =>
      rw [hc] at h₂
      cases h₂
    | some c' =>
      rw [hc] at h₂
      obtain ⟨⟨ms', al⟩, hms, h₂⟩ := bind_ok_iff.1 h₂
      cases ms' with
      | none => cases h₂
      | some ms' =>
        cases h₂
        simp only [hms, ok_bind]
  rw [modesApplied] at h
  split at h
  · cases h
  · next hargs =>
    obtain ⟨name, hname, h⟩ := bind_ok_iff.1 h
    split at h
    · next htype =>
      obtain ⟨ident, hident, h⟩ := bind_ok_iff.1 h
      rw [h_MODE, if_neg hargs, hname, ok_bind, if_pos htype, h_MODE_chanmode, if_neg hargs,
        hident, ok_bind]
      split at h
      · next hdot =>
        rw [if_pos hdot]
        exact hrest b h
      · next hdot =>
        obtain ⟨b₂, hb₂, h⟩ := bind_ok_iff.1 h
        rw [if_neg hdot, hb₂]
        exact hrest b₂ h
    · cases h

def Found (info : Info) (p : UInt8 × UInt8) : Prop :=
  (strchr info.m005modepfx.2 p.1).isSome ∧ (strchr info.m005modepfx.2 p.2).isSome

variable {info : Info}

theorem compared_found {s : Str} {sym : UInt8} {enab : Bool} (hs : Kept info.m005modepfx.2 s)
    (hsym : sym ≠ 0 → sym ∈ info.m005modepfx.2) : ∀ p ∈ compared info s sym enab, Found info p := by
  intro p hp
  rw [compared] at hp
  split at hp
  · cases hp
  · next hnone =>
    split at hp
    · cases hp
    · obtain ⟨c, hc, rfl⟩ := List.mem_map.1 hp
      have hmem := List.mem_of_mem_take hc
      have hsym0 : sym ≠ 0 := fun he => by simp [he, strchr] at hnone
      exact ⟨(isSome_strchr fun he => hs.2 (he ▸ hmem)).2 (hs.1.known c hmem),
        (isSome_strchr hsym0).2 (hsym hsym0)⟩

/-- All members have their prefixes from the table. -/
def Stocked (info : Info) : Base → Prop := Fitted (fun _ => True) (Kept info.m005modepfx.2)

variable {b : Base}

theorem modeCompared_found (h : Stocked info b) (c : Ptr) (m : ModeChange) :
    ∀ p ∈ modeCompared info c m b, Found info p := by
  intro p hp
  rw [modeCompared] at hp
  split at hp
  · rw [modepfxCompared, Base.chan] at hp
    cases hc : b.chanHeap.get c with
    | none =>
      rw [hc] at hp
      cases hp
    | some ch =>
      rw [hc] at hp
      dsimp only at hp
      split at hp
      · cases hp
      · next hget => exact compared_found ((h.memb c ch hc).get hget) symbol_mem p hp
  · cases hp

theorem modesCompared_found (c : Ptr) (ms : List ModeChange) {b : Base} (h : Stocked info b) :
    ∀ p ∈ modesCompared info c ms b, Found info p := by
  induction ms generalizing b with
  | nil => exact fun _ hp => absurd hp List.not_mem_nil
  | cons m ms ih =>
    intro p hp
    rw [modesCompared] at hp
    obtain hp | hp := List.mem_append.1 hp
    · exact modeCompared_found h c m p hp
    · split at hp
      · cases hp
      · next hstep =>
          exact ih (applyMode_rule (fitted_preserves trivial (suits_kept info)) c h m _ hstep) p hp

theorem modesHeard_stocked (msg : Msg) (h : Stocked info b) :
    Ensures (modesHeard info msg b) fun r => ∀ x ∈ r, Stocked info x.2.2 := by
  refine Ensures.value fun name => ?_
  split
  · exact Ensures.ok fun _ hx => by cases hx
  · refine Ensures.value fun r => Ensures.ok fun x hx => ?_
    obtain ⟨ms, _, rfl⟩ := Option.map_eq_some_iff.1 hx
    exact h.al r.2

theorem modesApplied_stocked (msg : Msg) (nargs : Nat) (h : Stocked info b) :
    Ensures (modesApplied info msg nargs b) fun r => ∀ x ∈ r, Stocked info x.2.2 := by
  have hnone : Ensures (.ok none : Except Fault (Option (Ptr × List ModeChange × Base)))
    fun r => ∀ x ∈ r, Stocked info x.2.2 := Ensures.ok fun _ hx => by cases hx
  refine Ensures.ite (fun _ => hnone) fun _ => Ensures.value fun name => ?_
  refine Ensures.ite (fun _ => Ensures.value fun ident => ?_) fun _ => hnone
  refine Ensures.ite (fun _ => modesHeard_stocked msg h) fun _ => ?_
  exact (touchUser_fitted h ident).bind fun _ h₁ => modesHeard_stocked msg h₁

theorem h_MODE_found (msg : Msg) (nargs : Nat) (h : Stocked info b) :
    ∀ p ∈ h_MODE_compared info msg nargs b, Found info p := by
  intro p hp
  rw [h_MODE_compared] at hp
  split at hp
  · next hr => exact modesCompared_found _ _ (modesApplied_stocked msg nargs h _ hr _ rfl) p hp
  · cases hp

end Srsirc.ModePrefixes
