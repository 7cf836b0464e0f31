import Srsirc.ModeEntries

namespace Srsirc.ModeChanges

open CharMap Dictionary HeapCells Memory Message ServerInfo UserBase ChannelModes Track TrackInfo
open Fallible Slots ModeEntries
open BucketList (Alloc)

def changeAll (info : Info) (st : Standing) (ms : List ModeChange) : Standing :=
  ms.foldl (Standing.change info) st

def CleanChanges (info : Info) : List ModeChange → Standing → Prop
  | [], _ => True
  | m :: ms, st => Clean info st m ∧ CleanChanges info ms (st.change info m)

instance decidableCleanChanges (info : Info) : ∀ ms st, Decidable (CleanChanges info ms st)
  | [], _ => .isTrue trivial
  | m :: ms, st =>
    have := decidableCleanChanges info ms (st.change info m)
    inferInstanceAs (Decidable (Clean info st m ∧ CleanChanges info ms (st.change info m)))

section Changes

variable {info : Info} {st : Standing} {b : Base} {c : Ptr} {m : ModeChange}

theorem findChanmode_some {modes : List (Option Str)} {modestr : Str} {i : Nat}
    (h : findChanmode info modes modestr = some i) :
    ∃ e, modes[i]? = some (some e) ∧ Meant info modestr e := by
  rw [findChanmode] at h
  split at h
  · cases h
  · next hcls =>
    obtain ⟨hi, hp, _⟩ := List.findIdx?_eq_some_iff_getElem.1 h
    refine ⟨modestr, ?_, Or.inl ⟨hcls, rfl⟩⟩
    rw [List.getElem?_eq_getElem hi, of_decide_eq_true hp]
  · next h0 h1 =>
    obtain ⟨hi, hp, _⟩ := List.findIdx?_eq_some_iff_getElem.1 h
    obtain ⟨e, he, hhead⟩ := (Option.any_eq_true _ _).1 hp
    refine ⟨e, by rw [List.getElem?_eq_getElem hi, he], Or.inr ⟨?_, of_decide_eq_true hhead⟩⟩
    have h0' : classifyChanmode info (modestr.headD 0) ≠ 0 := h0
    have h1' : classifyChanmode info (modestr.headD 0) ≠ 1 := h1
    omega

theorem findChanmode_none {modes : List (Option Str)} {modestr : Str}
    (h : findChanmode info modes modestr = none) :
      ∀ e ∈ modes.reduceOption, ¬Meant info modestr e := by
  intro e he hmeant
  rw [List.reduceOption_mem_iff] at he
  rw [findChanmode] at h
  obtain ⟨hcls, rfl⟩ | ⟨hcls, hhead⟩ := hmeant
  · simp only [hcls, List.findIdx?_eq_none_iff] at h
    simpa using h _ he
  · split at h
    · omega
    · omega
    · rw [List.findIdx?_eq_none_iff] at h
      have := h _ he
      rw [Option.any_some, hhead, decide_eq_false_iff_not] at this
      exact this rfl

structure Shown (info : Info) (c : Ptr) (st : Standing) (b : Base) : Prop where
  al : b.al = []
  live : ∀ p ∈ b.users.vals, ∃ u, b.userHeap.get p = some u
  chan : ∃ ch, b.chanHeap.get c = some ch ∧ ch.modes ≠ [] ∧ Matches info st ch.modes.reduceOption

theorem Shown.setChan {st' : Standing} (h : Shown info c st b) {ch ch' : Chan}
    (hc : b.chanHeap.get c = some ch) (hne : ch'.modes ≠ [])
      (hm : Matches info st' ch'.modes.reduceOption) :
    Shown info c st' (b.setChan c ch') := by
  refine ⟨h.al, h.live, ch', ?_, hne, hm⟩
  rw [Base.setChan, get_set hc, Function.update_self]

theorem addChanmode_shown (h : Shown info c st b) (hm : m.enab = true) (hc : Clean info st m) :
    Returns (addChanmode b c m.modestr) fun r => Shown info c (st.change info m) r.2 ∧
      r.2.chans = b.chans := by
  obtain ⟨ch, hch, hne, hmat⟩ := h.chan
  have hput : ∀ modes : List (Option Str), modes.reduceOption = ch.modes.reduceOption →
      none ∈ modes →
      Shown info c (st.change info m) (b.setChan c { ch with
        modes := modes.set (modes.takeWhile Option.isSome).length (some m.modestr) }) := by
    intro modes hred hfree
    refine h.setChan hch ?_ (((hred ▸ hmat).added hm hc).perm (reduce_fill (firstFree hfree) _))
    exact fun hnil => List.ne_nil_of_mem hfree ((List.set_eq_nil_iff _ _).1 hnil)
  rw [addChanmode, Base.chan, hch, ok_bind]
  dsimp only
  split
  · next hfree =>
    simp only [strdup_eq h.al, Bool.not_true, Bool.false_eq_true, if_false]
    exact Returns.ok ⟨hput _ rfl hfree, rfl⟩
  · simp only [malloc_eq h.al, strdup_eq h.al, Bool.not_true, Bool.false_eq_true, if_false]
    refine Returns.ok ⟨hput _ ?_ ?_, rfl⟩
    · rw [List.reduceOption_append, List.reduceOption_replicate_none, List.append_nil]
    · exact List.mem_append_right _ (List.mem_replicate.2 ⟨fun h0 => hne (List.length_eq_zero_iff.1 h0), rfl⟩)

theorem dropChanmode_shown (h : Shown info c st b) (hm : m.enab = false) (hc : Clean info st m) :
    Returns (dropChanmode info b c m.modestr) fun r =>
      Shown info c (st.change info m) r.2 ∧ r.2.chans = b.chans := by
  obtain ⟨ch, hch, hne, hmat⟩ := h.chan
  rw [dropChanmode, Base.chan, hch, ok_bind]
  split
  · next hnone => exact Returns.ok ⟨⟨h.al, h.live, ch, hch, hne, hmat.unheard hm (findChanmode_none hnone)⟩, rfl⟩
  · next i hi =>
    obtain ⟨e, hslot, hmeant⟩ := findChanmode_some hi
    have hpos := List.length_pos_iff.2 hne
    refine Returns.ok ⟨h.setChan hch ?_ (hmat.removed hm hc hmeant ?_), rfl⟩
    · dsimp only
      split
      · exact fun hnil => hne ((List.set_eq_nil_iff _ _).1 hnil)
      · exact fun hnil => hne ((List.set_eq_nil_iff _ _).1 ((List.set_eq_nil_iff _ _).1 hnil))
    · dsimp only
      split
      · exact reduce_clear hslot
      · next hlast => exact reduce_move hslot (by omega) hlast

theorem updateModepfx_shown (h : Shown info c st b) (nick : Str) (sym : UInt8) (enab : Bool) :
    Returns (updateModepfx info b c nick sym enab) fun b' => Shown info c st b' ∧
      b'.chans = b.chans := by
  have hsame : Returns (.ok b : Except Fault Base) fun b' => Shown info c st b' ∧
      b'.chans = b.chans :=
    Returns.ok ⟨h, rfl⟩
  obtain ⟨ch, hch, hne, hmat⟩ := h.chan
  rw [updateModepfx, Base.chan, hch, ok_bind]
  split
  · exact hsame
  · split
    · exact hsame
    · exact Returns.ok ⟨h.setChan hch hne hmat, rfl⟩

/-- No prefix mode is a mode of one of the four classes. -/
def Apart (info : Info) : Prop :=
  ∀ ℓ, ℓ ≠ 0 → classifyChanmode info ℓ ≠ 0 → strchr info.m005modepfx.1 ℓ = none

def Sane (info : Info) (m : ModeChange) : Prop :=
  m.mode ≠ 0 ∧ ((strchr info.m005modepfx.1 m.mode).isSome → m.arg.isSome)

theorem applyMode_shown (hdis : Apart info) (h : Shown info c st b) (hs : Sane info m)
    (hc : Clean info st m) :
    Returns (applyMode info c m b) fun r => Shown info c (st.change info m) r.2 ∧
      r.2.chans = b.chans := by
  rw [applyMode]
  split
  · next i hi =>
    have hcls : classifyChanmode info m.mode = 0 := by
      by_contra hcls
      rw [hdis m.mode hs.1 hcls] at hi
      cases hi
    have hst : st.change info m = st := if_pos hcls
    obtain ⟨nick, hnick⟩ := Option.isSome_iff_exists.1 (hs.2 (by rw [hi]; rfl))
    rw [hst, ModeChange.argument, hnick]
    exact (updateModepfx_shown h nick _ m.enab).bind fun _ h₁ => Returns.ok h₁
  · refine Returns.ite (fun hm => ?_) fun hm => ?_
    · exact (addChanmode_shown h hm hc).bind fun _ h₁ => Returns.ok h₁
    · exact (dropChanmode_shown h (Bool.eq_false_iff.2 hm) hc).bind fun _ h₁ => Returns.ok h₁

theorem applyModes_shown (hdis : Apart info) (ms : List ModeChange) {st : Standing} {b : Base}
    (h : Shown info c st b) (hs : ∀ m ∈ ms, Sane info m) (hc : CleanChanges info ms st) :
    Returns (applyModes info c ms b) fun r => Shown info c (changeAll info st ms) r.2 ∧
      r.2.chans = b.chans := by
  induction ms generalizing st b with
  | nil => exact Returns.ok ⟨h, rfl⟩
  | cons m ms ih =>
    refine (applyMode_shown hdis h (hs m List.mem_cons_self) hc.1).bind fun r h₁ => ?_
    refine (ih h₁.1 (fun m hm => hs m (List.mem_cons_of_mem _ hm)) hc.2).bind fun r' h₂ => ?_
    exact Returns.ok ⟨h₂.1, h₂.2.trans h₁.2⟩

theorem listModes_shown (ms : List ModeChange) {st : Standing} {b : Base} (h : Shown info c st b)
    (hc : CleanChanges info ms st) :
    Returns (listModes info c ms b) fun r => Shown info c (changeAll info st ms) r.2 ∧
      r.2.chans = b.chans := by
  induction ms generalizing st b with
  | nil => exact Returns.ok ⟨h, rfl⟩
  | cons m ms ih =>
    have hrest : ∀ r : Bool × Base, Shown info c (st.change info m) r.2 ∧ r.2.chans = b.chans →
        Returns (listModes info c ms r.2 >>= fun r' =>
          .ok ((if r.1 then 0 else ALLOC_ERR) ||| r'.1, r'.2))
          fun r => Shown info c (changeAll info st (m :: ms)) r.2 ∧ r.2.chans = b.chans := by
      intro r h₁
      refine (ih h₁.1 hc.2).bind fun r' h₂ => ?_
      exact Returns.ok ⟨h₂.1, h₂.2.trans h₁.2⟩
    refine Returns.ite (fun hm => (addChanmode_shown h hm hc.1).bind hrest) fun hm => ?_
    refine (Returns.map (q := fun r => Shown info c (st.change info m) r.2 ∧ r.2.chans = b.chans)
      (dropChanmode_shown h (Bool.eq_false_iff.2 hm) hc.1) fun _ h₁ => h₁).bind hrest

theorem clearChanmodes_shown (h : Shown info c st b) :
    Returns (clearChanmodes b c) fun b' => Shown info c .init b' ∧ b'.chans = b.chans := by
  obtain ⟨ch, hch, hne, _⟩ := h.chan
  rw [clearChanmodes, Base.chan, hch, ok_bind]
  refine Returns.ok ⟨h.setChan hch (fun hnil => hne (List.map_eq_nil_iff.1 hnil)) ?_, rfl⟩
  have hnone : (ch.modes.map fun _ => none : List (Option Str)).reduceOption = [] := by
    rw [List.map_const', List.reduceOption_replicate_none]
  rw [hnone]
  exact matches_init info

theorem touchUser_shown (h : Shown info c st b) (ident : Str) :
    Returns (touchUser b ident) fun b' => Shown info c st b' ∧ b'.chans = b.chans := by
  rw [touchUser]
  split
  · exact Returns.ok ⟨h, rfl⟩
  · next p hp =>
    rw [getUser, get_eq] at hp
    obtain ⟨u, hu⟩ := h.live p ((mem_vals _ _).2 ⟨_, hp⟩)
    have hset : ∀ u', Shown info c st (b.setUser p u') := by
      refine fun u' => ⟨h.al, fun q hq => ?_, h.chan⟩
      rw [Base.setUser, get_set hu, Function.update_apply]
      split
      · exact ⟨u', rfl⟩
      · exact h.live q hq
    have hout : ∀ u', Returns (.ok (b.setUser p u') : Except Fault Base) fun b' =>
        Shown info c st b' ∧ b'.chans = b.chans := fun u' => Returns.ok ⟨hset u', rfl⟩
    simp only [touchUserInt, Base.user, hu, ok_bind, strdup_eq h.al]
    split <;> simp only [strdup_eq h.al] <;> split <;> exact hout _

end Changes

section Parse

variable {info : Info}

def Parsed (info : Info) (r : Option (List ModeChange) × Alloc) : Prop :=
  r.2 = [] ∧ ∃ ms, r.1 = some ms ∧ ∀ m ∈ ms, Sane info m

theorem modeArg_returns (msg : Msg) {i : Nat} (hi : 2 ≤ i) :
    Returns (modeArg msg msg.nargs i) fun r => 2 ≤ r.2 := by
  refine Returns.ite (fun _ => Returns.ok hi) fun hlt => ?_
  obtain ⟨s, hs⟩ := Msg.fld_of_lt hi (Nat.not_le.1 hlt)
  rw [hs]
  exact Returns.ok (Nat.le_succ_of_le hi)

theorem takesArg_member (hdis : Apart info) {enab : Bool} {x : UInt8} (h0 : x ≠ 0)
    (h : takesArg info enab x = some false) : ¬(strchr info.m005modepfx.1 x).isSome = true := by
  intro hsome
  by_cases hcls : classifyChanmode info x = 0
  · rw [takesArg, hcls] at h
    simp only [hsome, if_true] at h
    cases h
  · rw [hdis x h0 hcls] at hsome
    cases hsome

theorem parseModes_parsed (hdis : Apart info) (msg : Msg) (s : Str) (hs : 0 ∉ s)
    (enab : Bool) {i : Nat}
    (hi : 2 ≤ i) : Returns (parseModes info msg msg.nargs s enab i []) (Parsed info) := by
  induction s generalizing enab i with
  | nil => exact Returns.ok ⟨rfl, [], rfl, fun _ hm => absurd hm List.not_mem_nil⟩
  | cons x s ih =>
    have hrest := fun enab i hi => @ih (fun h0 => hs (List.mem_cons_of_mem _ h0)) enab i hi
    have hmore : ∀ arg i, 2 ≤ i → ((strchr info.m005modepfx.1 x).isSome → arg.isSome) →
        Returns (parseModes info msg msg.nargs s enab i [] >>= fun r =>
          .ok (r.1.map (⟨enab, x, arg⟩ :: ·), r.2)) (Parsed info) := by
      refine fun arg i hi harg => (hrest enab i hi).bind fun r ⟨hal, ms, hms, h0⟩ =>
        Returns.ok ⟨hal, _, by rw [hms]; rfl, ?_⟩
      intro m hm
      obtain rfl | hm := List.mem_cons.1 hm
      · exact ⟨fun hx => hs (hx ▸ List.mem_cons_self), harg⟩
      · exact h0 m hm
    refine Returns.ite (fun _ => hrest _ _ hi) fun _ =>
      Returns.ite (fun _ => hrest _ _ hi) fun _ => ?_
    split
    · exact hrest _ _ hi
    · next withArg htakes =>
      dsimp only [BucketList.malloc_nil]
      cases withArg with
      | true =>
        refine ((modeArg_returns msg hi).map (q := fun r => r.1.isSome ∧ 2 ≤ r.2) fun _ h =>
          ⟨rfl, h⟩).bind ?_
        exact fun r hr => hmore r.1 r.2 hr.2 fun _ => hr.1
      | false =>
        refine hmore none i hi fun hsome =>
          absurd hsome (takesArg_member hdis (fun hx => ?_) htakes)
        exact hs (hx ▸ List.mem_cons_self)

theorem fld_nonzero {msg : Msg} {k : Nat} {s : Str} (h : msg.fld k = .ok s) : 0 ∉ s := by
  rw [Msg.fld] at h
  cases hp : msg.deref k with
  | error e =>
    rw [hp] at h
    cases h
  | ok p =>
    rw [hp] at h
    cases h
    exact fun h0 => takeWhile_ne_zero _ 0 h0 rfl

theorem parseMODE_parsed (hdis : Apart info) {msg : Msg} {is324 : Bool}
    (hn : 3 + (if is324 then 1 else 0) < msg.nargs) :
      Returns (parseMODE info msg is324 []) (Parsed info) := by
  obtain ⟨modes, hmodes⟩ := Msg.fld_of_lt (by omega) hn
  rw [parseMODE]
  dsimp only [BucketList.malloc_nil]
  rw [hmodes, ok_bind]
  exact parseModes_parsed hdis msg modes (fld_nonzero hmodes) true (by omega)

end Parse

end Srsirc.ModeChanges
