import Srsirc.ModeChanges
import Srsirc.TrackSafety

namespace Srsirc.ModeFold

open CharMap Dictionary HeapCells Memory Message ServerInfo UserBase ChannelModes Track TrackInfo
open Fallible Slots ModeEntries ModeChanges
open TrackSafety (NoDangling)
open BucketList (Alloc)

inductive Event
  | mode (msg : Msg)
  | list (msg : Msg)

def happen (info : Info) (b : Base) : Event → Except Fault Base
  | .mode msg => (h_MODE info msg msg.nargs b).map Prod.snd
  | .list msg => (h_324 info msg msg.nargs b).map Prod.snd

def happenAll (info : Info) : List Event → Base → Except Fault Base
  | [], b => .ok b
  | e :: es, b => happen info b e >>= happenAll info es

def target : Event → Except Fault Str
  | .mode msg => msg.fld 2
  | .list msg => msg.fld 3

/-- The message is complete, and it is about a channel. -/
def heeded (info : Info) : Event → Bool
  | .mode msg => msg.present 0 && 4 ≤ msg.nargs &&
      (msg.fld 2).toOption.any fun name => (strchr info.m005chantypes (name.headD 0)).isSome
  | .list msg => msg.present 0 && 5 ≤ msg.nargs

def changes (info : Info) : Event → List ModeChange
  | .mode msg => ((parseMODE info msg false []).toOption.bind Prod.fst).getD []
  | .list msg => ((parseMODE info msg true []).toOption.bind Prod.fst).getD []

/-- A 324 starts from no modes. -/
def starts (st : Standing) : Event → Standing
  | .mode _ => st
  | .list _ => .init

def hear (info : Info) (st : Standing) (e : Event) : Standing :=
  if heeded info e then changeAll info (starts st e) (changes info e) else st

def CleanEvent (info : Info) (st : Standing) (e : Event) : Prop :=
  heeded info e = true → CleanChanges info (changes info e) (starts st e)

def CleanAll (info : Info) : List Event → Standing → Prop
  | [], _ => True
  | e :: es, st => CleanEvent info st e ∧ CleanAll info es (hear info st e)

instance decidableCleanAll (info : Info) : ∀ es st, Decidable (CleanAll info es st)
  | [], _ => .isTrue trivial
  | e :: es, st =>
    have := decidableCleanAll info es (hear info st e)
    inferInstanceAs
      (Decidable ((heeded info e = true → CleanChanges info (changes info e) (starts st e)) ∧
      CleanAll info es (hear info st e)))

section Messages

variable {info : Info} {st : Standing} {b : Base} {c : Ptr}

/-- The changes that the parser finds are those that count. -/
theorem parseMODE_changes (hdis : Apart info) {msg : Msg} {is324 : Bool} {e : Event}
    (he : changes info e = ((parseMODE info msg is324 []).toOption.bind Prod.fst).getD [])
    (hn : 3 + (if is324 then 1 else 0) < msg.nargs) :
    parseMODE info msg is324 [] = .ok (some (changes info e), []) ∧
      ∀ m ∈ changes info e, Sane info m := by
  obtain ⟨⟨ms, al⟩, h, hal, ms', hms, hs⟩ := parseMODE_parsed hdis hn
  dsimp only at hal hms
  subst hal hms
  rw [he, h]
  exact ⟨rfl, hs⟩

theorem h_324_shown (msg : Msg) (hdis : Apart info) (h : Shown info c st b)
    (hfor : ∀ name, msg.fld 3 = .ok name →
      getChan b name = some c) (hc : CleanEvent info st (.list msg)) :
    Returns (h_324 info msg msg.nargs b) fun r => Shown info c (hear info st (.list msg)) r.2 ∧
      r.2.chans = b.chans := by
  rw [hear]
  refine Returns.ite (fun hg => Returns.ok ?_) fun hg => ?_
  · have hh : heeded info (.list msg) = false := by
      simp only [heeded]
      grind
    rw [hh]
    exact ⟨h, rfl⟩
  · have hh : heeded info (.list msg) = true := by
      simp only [heeded]
      grind
    rw [hh]
    obtain ⟨name, hname⟩ := @Msg.fld_of_lt msg 3 (by omega) (by omega)
    obtain ⟨hparse, _⟩ :=
      parseMODE_changes (e := .list msg) hdis rfl (show 3 + 1 < msg.nargs by omega)
    have hb : { b with al := [] } = b := by rw [← h.al]
    rw [hname, ok_bind, hfor name hname, h.al]
    dsimp only
    rw [hparse, ok_bind]
    dsimp only
    rw [hb]
    refine (clearChanmodes_shown h).bind fun b₁ h₁ => ?_
    exact (listModes_shown _ h₁.1 (hc hh)).mono fun r hr => ⟨hr.1, hr.2.trans h₁.2⟩

theorem h_MODE_chanmode_shown (msg : Msg) (hdis : Apart info) (h : Shown info c st b)
    (hfor : ∀ name, msg.fld 2 = .ok name →
      getChan b name = some c) (hg : ¬(!msg.present 0 ∨ msg.nargs < 4))
    (hc : CleanChanges info (changes info (.mode msg)) st) :
    Returns (h_MODE_chanmode info msg msg.nargs b) fun r =>
      Shown info c (changeAll info st (changes info (.mode msg))) r.2 ∧ r.2.chans = b.chans := by
  have hpre : msg.present 0 = true := by grind
  obtain ⟨ident, hident⟩ := Msg.fld_ok hpre
  obtain ⟨name, hname⟩ := @Msg.fld_of_lt msg 2 (by omega) (by omega)
  obtain ⟨hparse, hs⟩ :=
    parseMODE_changes (e := .mode msg) hdis rfl (show 3 + 0 < msg.nargs by omega)
  rw [h_MODE_chanmode, if_neg hg, hident, ok_bind]
  have hrest : ∀ b₁, Shown info c st b₁ ∧ b₁.chans = b.chans →
      Returns (chanmodes info msg b₁) fun r =>
        Shown info c (changeAll info st (changes info (.mode msg))) r.2 ∧
          r.2.chans = b.chans := by
    rintro b₁ ⟨h₁, hchans⟩
    have hget : getChan b₁ name = some c := by rw [getChan, hchans]; exact hfor name hname
    have hsame : { b₁ with al := [] } = b₁ := by rw [← h₁.al]
    rw [chanmodes, hname, ok_bind, hget, h₁.al]
    dsimp only
    rw [hparse, ok_bind]
    dsimp only
    rw [hsame]
    exact (applyModes_shown hdis _ h₁ hs hc).mono fun r hr => ⟨hr.1, hr.2.trans hchans⟩
  exact Returns.ite (fun _ => hrest b ⟨h, rfl⟩) fun _ => (touchUser_shown h ident).bind hrest

theorem h_MODE_shown (msg : Msg) (hdis : Apart info) (h : Shown info c st b)
    (hfor : ∀ name, msg.fld 2 = .ok name →
      getChan b name = some c) (hc : CleanEvent info st (.mode msg)) :
    Returns (h_MODE info msg msg.nargs b) fun r => Shown info c (hear info st (.mode msg)) r.2 ∧
      r.2.chans = b.chans := by
  rw [hear]
  refine Returns.ite (fun hg => Returns.ok ?_) fun hg => ?_
  · have hh : heeded info (.mode msg) = false := by
      simp only [heeded]
      grind
    rw [hh]
    exact ⟨h, rfl⟩
  · obtain ⟨name, hname⟩ := @Msg.fld_of_lt msg 2 (by omega) (by omega)
    have hh : heeded info (.mode msg) = (strchr info.m005chantypes (name.headD 0)).isSome := by
      simp only [heeded, hname, Except.toOption, Option.any_some]
      grind
    rw [hname, ok_bind, hh]
    refine Returns.ite (fun htype => ?_) fun htype => Returns.ok ?_
    · rw [if_pos htype]
      exact h_MODE_chanmode_shown msg hdis h hfor hg (hc (hh.trans htype))
    · rw [if_neg htype]
      exact ⟨h, rfl⟩

theorem happen_shown {e : Event} (hdis : Apart info) (h : Shown info c st b)
    (hfor : ∀ name, target e = .ok name → getChan b name = some c) (hc : CleanEvent info st e) :
    Returns (happen info b e) fun b' => Shown info c (hear info st e) b' ∧ b'.chans = b.chans := by
  cases e with
  | list msg => exact (h_324_shown msg hdis h hfor hc).map fun _ h₁ => h₁
  | mode msg => exact (h_MODE_shown msg hdis h hfor hc).map fun _ h₁ => h₁

theorem happenAll_shown (hdis : Apart info) (es : List Event) {st : Standing} {b : Base}
    (h : Shown info c st b)
    (hfor : ∀ e ∈ es, ∀ name, target e = .ok name →
      getChan b name = some c) (hc : CleanAll info es st) :
    Returns (happenAll info es b) (Shown info c (es.foldl (hear info) st)) := by
  induction es generalizing st b with
  | nil => exact Returns.ok h
  | cons e es ih =>
    refine (happen_shown hdis h (hfor e List.mem_cons_self) hc.1).bind fun b₁ h₁ => ?_
    refine ih h₁.1 (fun e he name hname => ?_) hc.2
    rw [getChan, h₁.2]
    exact hfor e (List.mem_cons_of_mem _ he) name hname

end Messages

/-- As long as no mode is set that is set already, and nothing is removed from a list that was
added to it twice, the modes of a channel without modes become what the changes come to. -/
theorem modes_folded {info : Info} (hdis : Apart info) {b : Base} (hal : b.al = [])
    (hlive : NoDangling b)
    {c : Ptr} {ch : Chan} (hch : b.chanHeap.get c = some ch) (hnew : ch.modes =
      List.replicate 16 none)
    (es : List Event) (hfor : ∀ e ∈ es, ∀ name, target e = .ok name → getChan b name = some c)
    (hc : CleanAll info es .init) :
    ∃ b' ch', happenAll info es b = .ok b' ∧ b'.chanHeap.get c = some ch' ∧
      Reflects info (es.foldl (hear info) .init) ch'.modes := by
  have hmat : Matches info .init ch.modes.reduceOption := by
    rw [hnew, List.reduceOption_replicate_none]
    exact matches_init info
  have hshown : Shown info c .init b :=
    ⟨hal, hlive.1, ch, hch, by rw [hnew]; exact List.cons_ne_nil _ _, hmat⟩
  obtain ⟨b', hrun, hb'⟩ := happenAll_shown hdis es hshown hfor hc
  obtain ⟨ch', hch', _, hmat'⟩ := hb'.chan
  exact ⟨b', ch', hrun, hch', hmat'.reflects⟩

def entered : Base := (addChan (Base.init .rfc1459) .rfc1459 (ascii "#a")).2

def said (line : String) : Msg := .ofLine (ascii line)

theorem apart_init : Apart .init := by
  intro ℓ h0 hcls
  by_contra hpfx
  have hmem : ℓ ∈ ascii "ov" := (isSome_strchr h0).1 (Option.isSome_iff_ne_none.2 hpfx)
  have hnone : ∀ x ∈ ascii "ov", classifyChanmode .init x = 0 := by decide +kernel
  exact hcls (hnone ℓ hmem)

theorem entered_noDangling : NoDangling entered := by
  have husers : entered.users.vals = [] := by decide +kernel
  have hchans : ∀ c ∈ entered.chans.vals,
      (entered.chanHeap.get c).any (fun ch => ch.memb.vals.isEmpty) = true := by decide +kernel
  refine ⟨fun p hp => ?_, fun c hc => ?_⟩
  · rw [husers] at hp
    cases hp
  · obtain ⟨ch, hch, hempty⟩ := (Option.any_eq_true _ _).1 (hchans c hc)
    refine ⟨ch, hch, fun m hm => ?_⟩
    rw [List.isEmpty_iff.1 hempty] at hm
    cases hm

theorem entered_found {es : List Event} (h : ∀ e ∈ es, (target e).toOption = some (ascii "#a")) :
    ∀ e ∈ es, ∀ name, target e = .ok name → getChan entered name = some 0 := by
  intro e he name hname
  have hn := h e he
  rw [hname] at hn
  obtain rfl := Option.some.inj hn
  decide +kernel

def settings : List Event :=
  [.mode (said ":s!u@h MODE #a +kb x m!*@*"), .list (said ":s 324 me #a +ntl 5"),
    .mode (said ":s!u@h MODE #a -l+v u")]

theorem modes_folded_settings : ∃ b' ch', happenAll .init settings entered = .ok b' ∧
    b'.chanHeap.get 0 = some ch' ∧ Reflects .init (settings.foldl (hear .init) .init) ch'.modes :=
  modes_folded apart_init rfl entered_noDangling rfl rfl settings
    (entered_found (by decide +kernel))
    (by decide +kernel)

/-- The key of a channel is changed, and the old one stays. -/
def rekeyed : List Event := [.mode (said ":s!u@h MODE #a +k x"), .mode (said ":s!u@h MODE #a +k y")]

theorem modes_not_folded : ∃ b' ch', happenAll .init rekeyed entered = .ok b' ∧
    b'.chanHeap.get 0 = some ch' ∧ ch'.modes.reduceOption = [ascii "k x", ascii "k y"] ∧
      ¬Reflects .init (rekeyed.foldl (hear .init) .init) ch'.modes := by
  have h :
      (happenAll .init rekeyed entered).toOption.any (fun b' => (b'.chanHeap.get 0).any fun ch' =>
      ch'.modes.reduceOption = [ascii "k x", ascii "k y"]) = true := by decide +kernel
  obtain ⟨b', hrun, hb'⟩ := ok_of_toOption h
  obtain ⟨ch', hch', hmodes⟩ := (Option.any_eq_true _ _).1 hb'
  have hmodes := of_decide_eq_true hmodes
  refine ⟨b', ch', hrun, hch', hmodes, fun hr => ?_⟩
  have hset := hr.set 0x6b (by decide)
  rw [hmodes] at hset
  exact absurd hset (by decide +kernel)

end Srsirc.ModeFold
