import Srsirc.Connect
import Srsirc.Fallible

namespace Srsirc.FieldSafety

open CharMap Memory Dictionary HeapCells Message ServerInfo UserBase Fallible
open BucketList (Alloc)

def Intact {α : Type} (x : Except Fault α) : Prop := Avoids (fun e => ∃ k, e = .nullField k) x

variable {α : Type} {msg : Msg}

theorem intact_iff (x : Except Fault α) : Intact x ↔ ∀ k, x ≠ .error (.nullField k) := by
  rw [Intact, avoids_iff]
  exact ⟨fun hk k he => hk _ he ⟨k, rfl⟩, fun hk e he ⟨k, hek⟩ => hk k (hek ▸ he)⟩

theorem fld_intact {k : Nat} (h : msg.present k = true) : Intact (msg.fld k) := by
  obtain ⟨s, hs⟩ := Msg.fld_ok h
  rw [hs]
  trivial

theorem arg_intact {k : Nat} (hk : 2 ≤ k) (h : k < msg.nargs) : Intact (msg.fld k) :=
  fld_intact (Msg.present_of_lt hk h)

theorem deref_intact {k : Nat} (hk : 2 ≤ k) (h : k < msg.nargs) : Intact (msg.deref k) := by
  obtain ⟨p, hp⟩ := Msg.deref_ok (Msg.present_of_lt hk h)
  rw [hp]
  trivial

section Base

variable (b : Base)

theorem user_intact (p : Ptr) : Intact (b.user p) := by
  rw [Base.user]
  cases b.userHeap.get p with
  | none => exact Avoids.error (by simp)
  | some u => trivial

theorem chan_intact (c : Ptr) : Intact (b.chan c) := by
  rw [Base.chan]
  cases b.chanHeap.get c with
  | none => exact Avoids.error (by simp)
  | some ch => trivial

theorem freeUser_intact (p : Ptr) : Intact (b.freeUser p) := by
  rw [Base.freeUser]
  cases b.userHeap.get p with
  | none => exact Avoids.error (by simp)
  | some u => trivial

theorem freeChan_intact (c : Ptr) : Intact (b.freeChan c) := by
  rw [Base.freeChan]
  cases b.chanHeap.get c with
  | none => exact Avoids.error (by simp)
  | some ch => trivial

theorem unref_intact (p : Ptr) (purge : Bool) : Intact (unref b p purge) :=
  (user_intact b p).bind fun _ => Avoids.ite (fun _ => freeUser_intact _ p) fun _ => trivial

theorem unrefAll_intact (ms : List Memb) : Intact (unrefAll ms b) := by
  induction ms generalizing b with
  | nil => trivial
  | cons m ms ih => exact (unref_intact b m.u true).bind ih

theorem dropChan_intact (c : Ptr) : Intact (dropChan b c) := by
  refine (chan_intact b c).bind fun ch => ?_
  split
  · trivial
  · exact (unrefAll_intact _ _).bind fun b => (freeChan_intact b c).bind fun _ => trivial

theorem addMemb_intact (c p : Ptr) (mpfxstr : Str) : Intact (addMemb b c p mpfxstr) := by
  rw [addMemb]
  split
  · trivial
  · refine (user_intact _ p).bind fun u => (chan_intact _ c).bind fun ch => ?_
    split <;> trivial

theorem dropMemb_intact (c p : Ptr) (purge : Bool) : Intact (dropMemb b c p purge) := by
  refine (user_intact b p).bind fun u => (chan_intact b c).bind fun ch => ?_
  split
  · trivial
  · exact (unref_intact _ _ _).bind fun _ => trivial

theorem clearMemb_intact (c : Ptr) : Intact (clearMemb b c) := by
  refine (chan_intact b c).bind fun ch => Avoids.ite (fun _ => trivial) fun _ => ?_
  exact (unrefAll_intact _ _).bind fun b => (chan_intact b c).bind fun _ => trivial

theorem touchUserInt_intact (p : Ptr) (ident : Str) : Intact (touchUserInt b p ident) :=
  (user_intact b p).bind fun _ => trivial

theorem touchUser_intact (ident : Str) : Intact (touchUser b ident) := by
  rw [touchUser]
  split
  · trivial
  · exact touchUserInt_intact b _ ident

theorem addUser_intact (ident : Str) : Intact (addUser b ident) := by
  simp only [addUser]
  split
  · trivial
  · split
    · trivial
    · split
      · trivial
      · exact (touchUserInt_intact _ _ ident).bind fun _ => trivial

theorem dropMembs_intact (p : Ptr) (cs : List Ptr) : Intact (dropMembs p cs b) := by
  induction cs generalizing b with
  | nil => trivial
  | cons c cs ih => exact (dropMemb_intact b c p false).bind fun r => ih r.2

theorem dropUser_intact (p : Ptr) : Intact (dropUser b p) := by
  refine (user_intact b p).bind fun u => ?_
  split
  · trivial
  · exact (dropMembs_intact _ p _).bind fun b => (freeUser_intact b p).bind fun _ => trivial

theorem renameMembs_intact (ident newnick : Str) (cs : List Ptr) :
    Intact (renameMembs ident newnick cs b) := by
  induction cs generalizing b with
  | nil => trivial
  | cons c cs ih =>
    refine (chan_intact b c).bind fun ch => ?_
    split
    · exact ih b
    · split
      · trivial
      · exact ih _

theorem renameUser_intact (cm : CMap) (ident newnick : Str) :
    Intact (renameUser b cm ident newnick) := by
  simp only [renameUser]
  split
  · trivial
  · refine (user_intact b _).bind fun u => Avoids.ite (fun _ => trivial) fun _ => ?_
    split
    · trivial
    · split
      · trivial
      · exact renameMembs_intact _ ident newnick _

end Base

section Track

open Track TrackInfo ChannelModes

variable (info : Info) (b : Base)

theorem h_JOIN_intact : Intact (h_JOIN info msg msg.nargs b) := by
  refine Avoids.ite (fun _ => trivial) fun hg => ?_
  obtain ⟨h0, hn⟩ := Msg.not_guard hg
  refine (fld_intact h0).bind fun ident => (arg_intact (by omega) (by omega)).bind fun name => ?_
  dsimp only
  split
  · refine Avoids.ite (fun _ => ?_) fun _ => trivial
    split <;> trivial
  · refine Avoids.ite (fun _ => trivial) fun _ => ?_
    split
    · exact (addMemb_intact b _ _ _).bind fun _ => trivial
    · refine (addUser_intact b ident).bind fun r => ?_
      obtain ⟨_ | p, b₁⟩ := r
      · trivial
      · refine (addMemb_intact b₁ _ p _).bind fun r => Avoids.ite (fun _ => trivial) fun _ => ?_
        exact (dropUser_intact r.2 p).bind fun _ => trivial

theorem nameOf353_intact (c : Ptr) (nick mpfx : Str) : Intact (nameOf353 b c nick mpfx) := by
  rw [nameOf353]
  split
  · exact addMemb_intact b c _ mpfx
  · refine (addUser_intact b nick).bind fun r => ?_
    obtain ⟨_ | p, b₁⟩ := r
    · trivial
    · refine (addMemb_intact b₁ c p mpfx).bind fun r => Avoids.ite (fun _ => trivial) fun _ => ?_
      exact (dropUser_intact r.2 p).bind fun _ => trivial

theorem names353_intact (c : Ptr) (mem : Mem) (k p : Nat) : Intact (names353 info c mem k p b) := by
  induction k generalizing p b with
  | zero => trivial
  | succ k ih =>
    rw [names353]
    refine (nameOf353_intact b c _ _).bind fun r => Avoids.ite (fun _ => trivial) fun _ => ?_
    exact Avoids.ite (fun _ => trivial) fun _ => ih r.2 _

theorem h_353_intact : Intact (h_353 info msg msg.nargs b) := by
  refine Avoids.ite (fun _ => trivial) fun hg => ?_
  obtain ⟨h0, hn⟩ := Msg.not_guard hg
  refine (arg_intact (by omega) (by omega)).bind fun name => ?_
  split
  · trivial
  · next c _ =>
    have hrest : ∀ b, Intact (msg.deref 5 >>= fun p =>
        names353 info c msg.mem (msg.mem.length + 2) p b) := fun b =>
      (deref_intact (by omega) (by omega)).bind fun p => names353_intact info b c _ _ p
    refine Avoids.ite (fun _ => ?_) fun _ => hrest b
    exact (clearMemb_intact b c).map.bind hrest

theorem h_366_intact : Intact (h_366 msg msg.nargs b) := by
  refine Avoids.ite (fun _ => trivial) fun hg => ?_
  obtain ⟨h0, hn⟩ := Msg.not_guard hg
  refine (arg_intact (by omega) (by omega)).bind fun name => ?_
  dsimp only
  split
  · trivial
  · exact (chan_intact _ _).bind fun _ => trivial

theorem h_PART_intact : Intact (h_PART info msg msg.nargs b) := by
  refine Avoids.ite (fun _ => trivial) fun hg => ?_
  obtain ⟨h0, hn⟩ := Msg.not_guard hg
  refine (fld_intact h0).bind fun ident => (touchUser_intact b ident).bind fun b => ?_
  refine (arg_intact (by omega) (by omega)).bind fun name => ?_
  split
  · trivial
  · refine Avoids.ite (fun _ => (dropChan_intact b _).bind fun _ => trivial) fun _ => ?_
    split
    · trivial
    · exact (dropMemb_intact b _ _ true).bind fun _ => trivial

theorem h_QUIT_intact : Intact (h_QUIT msg b) := by
  refine Avoids.ite (fun _ => trivial) fun hg => ?_
  refine (fld_intact (by simpa using hg)).bind fun ident =>
    (touchUser_intact b ident).bind fun b => ?_
  split
  · trivial
  · exact (dropUser_intact b _).bind fun _ => trivial

theorem h_KICK_intact : Intact (h_KICK info msg msg.nargs b) := by
  refine Avoids.ite (fun _ => trivial) fun hg => ?_
  obtain ⟨h0, hn⟩ := Msg.not_guard hg
  refine (fld_intact h0).bind fun ident => (touchUser_intact b ident).bind fun b => ?_
  refine (arg_intact (by omega) (by omega)).bind fun name => ?_
  split
  · trivial
  · refine (arg_intact (by omega) (by omega)).bind fun nick => ?_
    refine Avoids.ite (fun _ => (dropChan_intact b _).bind fun _ => trivial) fun _ => ?_
    split
    · trivial
    · exact (dropMemb_intact b _ _ true).bind fun _ => trivial

theorem h_NICK_intact : Intact (h_NICK info msg msg.nargs b) := by
  refine Avoids.ite (fun _ => trivial) fun hg => ?_
  obtain ⟨h0, hn⟩ := Msg.not_guard hg
  refine (fld_intact h0).bind fun ident => (touchUser_intact b ident).bind fun b => ?_
  refine (arg_intact (by omega) (by omega)).bind fun newnick => ?_
  exact (renameUser_intact b _ ident newnick).bind fun _ => trivial

theorem h_352_intact : Intact (h_352 info msg msg.nargs b) := by
  refine Avoids.ite (fun _ => trivial) fun hg => ?_
  obtain ⟨h0, hn⟩ := Msg.not_guard hg
  refine (arg_intact (by omega) (by omega)).bind fun nick => ?_
  split
  · trivial
  · refine (user_intact b _).bind fun u => (arg_intact (by omega) (by omega)).bind fun uname => ?_
    refine (arg_intact (by omega) (by omega)).bind fun host => ?_
    refine (arg_intact (by omega) (by omega)).bind fun trail => ?_
    dsimp only
    split <;> trivial

theorem h_311_intact : Intact (h_311 info msg msg.nargs b) := by
  refine Avoids.ite (fun _ => trivial) fun hg => ?_
  obtain ⟨h0, hn⟩ := Msg.not_guard hg
  refine (arg_intact (by omega) (by omega)).bind fun nick => ?_
  split
  · trivial
  · refine (user_intact b _).bind fun u => (arg_intact (by omega) (by omega)).bind fun uname => ?_
    refine (arg_intact (by omega) (by omega)).bind fun host => ?_
    exact (arg_intact (by omega) (by omega)).bind fun fname => trivial

theorem h_332_intact : Intact (h_332 msg msg.nargs b) := by
  refine Avoids.ite (fun _ => trivial) fun hg => ?_
  obtain ⟨h0, hn⟩ := Msg.not_guard hg
  refine (arg_intact (by omega) (by omega)).bind fun name => ?_
  split
  · trivial
  · exact (chan_intact b _).bind fun ch => (arg_intact (by omega) (by omega)).bind fun _ => trivial

theorem h_333_intact : Intact (h_333 msg msg.nargs b) := by
  refine Avoids.ite (fun _ => trivial) fun hg => ?_
  obtain ⟨h0, hn⟩ := Msg.not_guard hg
  refine (arg_intact (by omega) (by omega)).bind fun name => ?_
  split
  · trivial
  · refine (chan_intact b _).bind fun ch => (arg_intact (by omega) (by omega)).bind fun nick => ?_
    split
    · trivial
    · exact (arg_intact (by omega) (by omega)).bind fun _ => trivial

theorem h_TOPIC_intact : Intact (h_TOPIC msg msg.nargs b) := by
  refine Avoids.ite (fun _ => trivial) fun hg => ?_
  obtain ⟨h0, hn⟩ := Msg.not_guard hg
  refine (fld_intact h0).bind fun ident => (touchUser_intact b ident).bind fun b => ?_
  refine (arg_intact (by omega) (by omega)).bind fun name => ?_
  split
  · trivial
  · refine (chan_intact b _).bind fun ch => (arg_intact (by omega) (by omega)).bind fun topic => ?_
    split <;> trivial

theorem modeArg_intact {i : Nat} (hi : 2 ≤ i) : Intact (modeArg msg msg.nargs i) := by
  refine Avoids.ite (fun _ => trivial) fun hlt => Avoids.map ?_
  exact arg_intact hi (by omega)

theorem modeArg_next {ac i : Nat} {r : Str × Nat} (h : modeArg msg ac i = .ok r) : i ≤ r.2 := by
  rw [modeArg] at h
  split at h
  · cases h
    exact Nat.le_refl i
  · cases hf : msg.fld i with
    | error e =>
      rw [hf] at h
      cases h
    | ok s =>
      rw [hf] at h
      cases h
      exact Nat.le_succ i

theorem parseModes_intact (s : Str) (enab : Bool) {i : Nat} (hi : 2 ≤ i) (al : Alloc) :
    Intact (parseModes info msg msg.nargs s enab i al) := by
  induction s generalizing enab i al with
  | nil => trivial
  | cons c s ih =>
    have hnext : ∀ arg j, 2 ≤ j → Intact (BucketList.allocated al fun al =>
        parseModes info msg msg.nargs s enab j al >>= fun r =>
          .ok (r.1.map ((⟨enab, c, arg⟩ : ModeChange) :: ·), r.2)) := by
      intro arg j hj
      rw [BucketList.allocated]
      split
      · trivial
      · exact (ih enab hj _).bind fun _ => trivial
    rw [parseModes]
    refine Avoids.ite (fun _ => ih true hi al) fun _ =>
      Avoids.ite (fun _ => ih false hi al) fun _ => ?_
    split
    · exact ih enab hi al
    · next withArg _ =>
      cases withArg with
      | false => exact hnext none i hi
      | true =>
        refine (modeArg_intact hi).map.bind_of fun r hr => hnext r.1 r.2 ?_
        cases hm : modeArg msg msg.nargs i with
        | error e =>
          rw [hm] at hr
          cases hr
        | ok q =>
          rw [hm] at hr
          cases hr
          exact Nat.le_trans hi (modeArg_next hm)

theorem parseMODE_intact (is324 : Bool) (al : Alloc)
    (h : 3 + (if is324 then 1 else 0) < msg.nargs) :
    Intact (parseMODE info msg is324 al) := by
  refine (arg_intact (by omega) h).bind fun modes => ?_
  split
  · trivial
  · split
    · trivial
    · exact parseModes_intact info modes true (by omega) _

theorem updateModepfx_intact (c : Ptr) (nick : Str) (sym : UInt8) (enab : Bool) :
    Intact (updateModepfx info b c nick sym enab) := by
  refine (chan_intact b c).bind fun ch => ?_
  split
  · trivial
  · split <;> trivial

theorem addChanmode_intact (c : Ptr) (modestr : Str) : Intact (addChanmode b c modestr) := by
  refine (chan_intact b c).bind fun ch => ?_
  split
  exact Avoids.ite (fun _ => trivial) fun _ => trivial

theorem dropChanmode_intact (c : Ptr) (modestr : Str) : Intact (dropChanmode info b c modestr) := by
  refine (chan_intact b c).bind fun ch => ?_
  split <;> trivial

theorem applyMode_intact (c : Ptr) (m : ModeChange) : Intact (applyMode info c m b) := by
  rw [applyMode]
  split
  · refine Avoids.bind ?_ fun nick => (updateModepfx_intact info b c nick _ _).bind fun _ => trivial
    rw [ModeChange.argument]
    split
    · exact Avoids.error (by simp)
    · trivial
  · refine Avoids.ite (fun _ => ?_) fun _ => ?_
    · exact (addChanmode_intact b c _).bind fun _ => trivial
    · exact (dropChanmode_intact info b c _).bind fun _ => trivial

theorem applyModes_intact (c : Ptr) (ms : List ModeChange) : Intact (applyModes info c ms b) := by
  induction ms generalizing b with
  | nil => trivial
  | cons m ms ih => exact (applyMode_intact info b c m).bind fun r => (ih r.2).bind fun _ => trivial

theorem h_MODE_intact : Intact (h_MODE info msg msg.nargs b) := by
  refine Avoids.ite (fun _ => trivial) fun hg => ?_
  obtain ⟨h0, hn⟩ := Msg.not_guard hg
  refine (arg_intact (by omega) (by omega)).bind fun name =>
    Avoids.ite (fun _ => ?_) fun _ => trivial
  refine Avoids.ite (fun _ => trivial) fun _ => (fld_intact h0).bind fun ident => ?_
  have hrest : ∀ b, Intact (chanmodes info msg b) := by
    intro b
    refine (arg_intact (by omega) (by omega)).bind fun name => ?_
    split
    · trivial
    · refine (parseMODE_intact info false _ (by simp; omega)).bind fun r => ?_
      obtain ⟨_ | ms, al⟩ := r
      · trivial
      · exact applyModes_intact info _ _ ms
  exact Avoids.ite (fun _ => hrest b) fun _ => (touchUser_intact b ident).bind hrest

theorem listModes_intact (c : Ptr) (ms : List ModeChange) : Intact (listModes info c ms b) := by
  induction ms generalizing b with
  | nil => trivial
  | cons m ms ih =>
    have hrest : ∀ r : Bool × Base, Intact (listModes info c ms r.2 >>= fun q =>
        .ok ((if r.1 then 0 else ALLOC_ERR) ||| q.1, q.2)) :=
          fun r => (ih r.2).bind fun _ => trivial
    refine Avoids.ite (fun _ => (addChanmode_intact b c _).bind hrest) fun _ => ?_
    exact (dropChanmode_intact info b c _).map.bind hrest

theorem h_324_intact : Intact (h_324 info msg msg.nargs b) := by
  refine Avoids.ite (fun _ => trivial) fun hg => ?_
  obtain ⟨h0, hn⟩ := Msg.not_guard hg
  refine (arg_intact (by omega) (by omega)).bind fun name => ?_
  split
  · trivial
  · refine (parseMODE_intact info true _ (by simp; omega)).bind fun r => ?_
    obtain ⟨_ | ms, al⟩ := r
    · trivial
    · refine Avoids.bind ?_ fun b => listModes_intact info b _ ms
      exact (chan_intact _ _).bind fun _ => trivial

theorem heard_intact (logon : Bool) : Intact (heard msg msg.nargs logon b) := by
  refine Avoids.ite (fun _ => trivial) fun hg => ?_
  obtain ⟨h0, hn⟩ := Msg.not_guard hg
  refine (fld_intact h0).bind fun ident => Avoids.ite (fun _ => ?_) fun _ => trivial
  exact (touchUser_intact b ident).bind fun _ => trivial

end Track

section Core

open Context Conn CoreHandlers Dispatch Connect

theorem clonearr_intact (al : Alloc) : Intact (clonearr msg al) := by
  rw [clonearr]
  split
  · trivial
  · split
    · exact Avoids.error (by simp)
    · trivial

theorem keepLogonconv_intact (irc : Irc) (k : Nat) : Intact (keepLogonconv irc k msg) :=
  (clonearr_intact _).bind fun _ => trivial

theorem handleAttr_intact (info : Info) (nam : Str) (val : Option Str) :
    Intact (handleAttr info nam val) := by
  rw [handleAttr]
  cases val with
  | none =>
    have hsub : Intact (.error .badPtr : Except Fault (Flags × Info)) := Avoids.error (by simp)
    refine Avoids.ite (fun _ => hsub) fun _ => Avoids.ite (fun _ => hsub) fun _ => ?_
    exact Avoids.ite (fun _ => hsub) fun _ => Avoids.ite (fun _ => hsub) fun _ => trivial
  | some val =>
    refine Avoids.ite (fun _ => trivial) fun _ => Avoids.ite (fun _ => trivial) fun _ => ?_
    exact Avoids.ite (fun _ => trivial) fun _ => Avoids.ite (fun _ => trivial) fun _ => trivial

theorem noteAttr_intact (irc : Irc) (attr : Str) : Intact (noteAttr irc attr) := by
  rw [noteAttr]
  dsimp only
  split <;> exact (handleAttr_intact _ _ _).bind fun _ => trivial

theorem noteAttrs_intact (k z : Nat) (hz : 2 ≤ z) (hk : z + k ≤ msg.nargs) (irc : Irc) :
    Intact (noteAttrs msg k z irc) := by
  induction k generalizing z irc with
  | zero => trivial
  | succ k ih =>
    refine (arg_intact hz (by omega)).bind fun attr => (noteAttr_intact irc attr).bind fun r => ?_
    exact Avoids.ite (fun _ => trivial) fun _ =>
      (ih (z + 1) (by omega) (by omega) r.2).bind fun _ => trivial

theorem handle_005_intact (irc : Irc) (logon : Bool) :
    Intact (handle_005 irc msg msg.nargs logon) := by
  refine Avoids.bind ?_ fun r => Avoids.ite (fun _ => trivial) fun _ =>
    Avoids.ite (fun _ => ?_) fun _ => trivial
  · by_cases hn : 4 ≤ msg.nargs
    · exact noteAttrs_intact _ 3 (by omega) (by omega) irc
    · have hzero : msg.nargs - 1 - 3 = 0 := by omega
      rw [hzero]
      trivial
  · split <;> trivial

theorem handle_004_intact {irc : Irc} {logon : Bool}
    (h : ¬(msg.nargs < 7 ∨ (!irc.dumb ∧ !logon)) ∨ msg.present 0 = true) :
    Intact (handle_004 irc msg msg.nargs logon) := by
  refine Avoids.ite (fun hg => ?_) fun hg => ?_
  · exact (fld_intact (h.resolve_left (not_not_intro hg))).bind fun _ => trivial
  · have hn : 7 ≤ msg.nargs := by
      simp only [not_or] at hg
      omega
    refine (keepLogonconv_intact irc 3).bind fun irc =>
      (arg_intact (by omega) (by omega)).bind fun _ => ?_
    refine (arg_intact (by omega) (by omega)).bind fun _ =>
      (arg_intact (by omega) (by omega)).bind fun _ => ?_
    exact (arg_intact (by omega) (by omega)).bind fun _ => trivial

theorem handle_004_absent {irc : Irc} {logon : Bool} (h : msg.nargs < 7 ∨ (!irc.dumb ∧ !logon))
    (h0 : msg.present 0 = false) : handle_004 irc msg msg.nargs logon = .error (.nullField 0) := by
  have hfld : msg.fld 0 = .error (.nullField 0) := by
    cases hp : msg.ptr 0 with
    | none => simp [Msg.fld, Msg.deref, hp, Except.map]
    | some p => simp [Msg.present, hp] at h0
  rw [handle_004, if_pos h, hfld]
  rfl

theorem optional_intact {k : Nat} (s : Str) {β : Type} {f : Str → Except Fault β}
    (hf : ∀ s, Intact (f s)) :
    Intact (if msg.present k then msg.fld k >>= f else (.ok s : Except Fault Str) >>= f) :=
  Avoids.ite (fun h => (fld_intact h).bind hf) fun _ => hf s

theorem not_core_guard {irc : Irc} {logon : Bool} {n : Nat}
    (h : ¬(msg.nargs < n ∨ (!irc.dumb ∧ !logon))) : n ≤ msg.nargs := by
  simp only [not_or] at h
  omega

theorem handle_001_intact (irc : Irc) (logon : Bool) :
    Intact (handle_001 irc msg msg.nargs logon) := by
  refine Avoids.ite (fun _ => trivial) fun hg => (keepLogonconv_intact irc 0).bind fun irc => ?_
  have hn := not_core_guard hg
  exact (arg_intact (by omega) (by omega)).bind fun _ => trivial

theorem handle_002_intact (irc : Irc) (logon : Bool) :
    Intact (handle_002 irc msg msg.nargs logon) :=
  Avoids.ite (fun _ => trivial) fun _ => (keepLogonconv_intact irc 1).bind fun _ => trivial

theorem handle_003_intact (irc : Irc) (logon : Bool) :
    Intact (handle_003 irc msg msg.nargs logon) :=
  Avoids.ite (fun _ => trivial) fun _ => (keepLogonconv_intact irc 2).bind fun _ => trivial

theorem handle_PING_intact (irc : Irc) (logon : Bool) :
    Intact (handle_PING irc msg msg.nargs logon) := by
  refine Avoids.ite (fun _ => trivial) fun _ => Avoids.ite (fun _ => trivial) fun hn => ?_
  exact (arg_intact (by omega) (by omega)).bind fun _ => trivial

theorem handle_bad_nick_intact (irc : Irc) (logon : Bool) :
    Intact (handle_bad_nick irc msg msg.nargs logon) := by
  refine Avoids.ite (fun _ => trivial) fun _ => ?_
  split
  · trivial
  · exact Avoids.ite (fun _ => trivial) fun _ => trivial

theorem handle_383_intact (irc : Irc) (logon : Bool) :
    Intact (handle_383 irc msg msg.nargs logon) := by
  refine Avoids.ite (fun _ => trivial) fun hg => ?_
  have hn := not_core_guard hg
  refine (arg_intact (by omega) (by omega)).bind fun nick => ?_
  exact optional_intact _ fun _ => trivial

theorem handle_465_intact (irc : Irc) (logon : Bool) :
    Intact (handle_465 irc msg msg.nargs logon) :=
  optional_intact _ fun _ => trivial

theorem handle_ERROR_intact (irc : Irc) (logon : Bool) :
    Intact (handle_ERROR irc msg msg.nargs logon) :=
  optional_intact _ fun _ => trivial

theorem handle_NICK_intact (irc : Irc) (logon : Bool) :
    Intact (handle_NICK irc msg msg.nargs logon) := by
  refine Avoids.ite (fun _ => trivial) fun hg => ?_
  obtain ⟨h0, hn⟩ := Msg.not_guard (fun h => hg h.symm)
  refine (fld_intact h0).bind fun ident => Avoids.ite (fun _ => ?_) fun _ => trivial
  exact (arg_intact (by omega) (by omega)).bind fun _ => trivial

theorem handle_MODE_intact (irc : Irc) (logon : Bool) :
    Intact (handle_MODE irc msg msg.nargs logon) := by
  refine Avoids.ite (fun _ => trivial) fun hn =>
    (arg_intact (by omega) (by omega)).bind fun target => ?_
  refine Avoids.ite (fun _ => trivial) fun _ => ?_
  exact (arg_intact (by omega) (by omega)).bind fun _ => trivial

theorem core_intact {dumb : Bool} {cmd : String} {h : Hnd} (hmem : (cmd, h) ∈ coreHnds dumb)
    (hne : cmd ≠ "004") (irc : Irc) (logon : Bool) : Intact (run h irc msg msg.nargs logon) := by
  have hmem' : (cmd, h) ∈ coreHnds false := by
    cases dumb with
    | true => exact List.mem_append_right _ hmem
    | false => exact hmem
  simp only [coreHnds, Bool.not_false, if_true, List.cons_append, List.nil_append, List.mem_cons,
    Prod.mk.injEq, List.not_mem_nil, or_false] at hmem'
  obtain ⟨_, rfl⟩ | ⟨_, rfl⟩ | ⟨_, rfl⟩ | ⟨_, rfl⟩ | ⟨_, rfl⟩ | ⟨_, rfl⟩ | ⟨_, rfl⟩ | ⟨_,
    rfl⟩ | ⟨_, rfl⟩ |
    ⟨_, rfl⟩ | ⟨_, rfl⟩ | ⟨_, rfl⟩ | ⟨h4, _⟩ | ⟨_, rfl⟩ | ⟨_, rfl⟩ | ⟨_, rfl⟩ | ⟨_, rfl⟩ | ⟨_,
      rfl⟩ := hmem'
  · exact handle_PING_intact irc logon
  · exact @handle_bad_nick_intact msg irc logon
  · exact @handle_bad_nick_intact msg irc logon
  · exact @handle_bad_nick_intact msg irc logon
  · exact @handle_bad_nick_intact msg irc logon
  · trivial
  · exact handle_NICK_intact irc logon
  · exact handle_ERROR_intact irc logon
  · exact handle_MODE_intact irc logon
  · exact handle_001_intact irc logon
  · exact handle_002_intact irc logon
  · exact handle_003_intact irc logon
  · exact absurd h4 hne
  · exact handle_383_intact irc logon
  · trivial
  · exact handle_465_intact irc logon
  · trivial
  · exact handle_005_intact irc logon

theorem track_intact {cmd : String} {h : Hnd} (hmem : (cmd, h) ∈ trackHnds) (irc : Irc)
    (logon : Bool) :
    Intact (run h irc msg msg.nargs logon) := by
  simp only [trackHnds, List.mem_cons, Prod.mk.injEq, List.not_mem_nil, or_false] at hmem
  obtain ⟨_, rfl⟩ | ⟨_, rfl⟩ | ⟨_, rfl⟩ | ⟨_, rfl⟩ | ⟨_, rfl⟩ | ⟨_, rfl⟩ | ⟨_, rfl⟩ | ⟨_,
    rfl⟩ | ⟨_, rfl⟩ |
    ⟨_, rfl⟩ | ⟨_, rfl⟩ | ⟨_, rfl⟩ | ⟨_, rfl⟩ | ⟨_, rfl⟩ | ⟨_, rfl⟩ | ⟨_, rfl⟩ := hmem
  · exact (h_JOIN_intact irc.info irc.base).bind fun _ => trivial
  · exact (h_311_intact irc.info irc.base).bind fun _ => trivial
  · exact (h_332_intact irc.base).bind fun _ => trivial
  · exact (h_333_intact irc.base).bind fun _ => trivial
  · exact (h_353_intact irc.info irc.base).bind fun _ => trivial
  · exact (h_352_intact irc.info irc.base).bind fun _ => trivial
  · exact (h_366_intact irc.base).bind fun _ => trivial
  · exact (h_PART_intact irc.info irc.base).bind fun _ => trivial
  · exact (h_QUIT_intact irc.base).bind fun _ => trivial
  · exact (h_NICK_intact irc.info irc.base).bind fun _ => trivial
  · exact (h_KICK_intact irc.info irc.base).bind fun _ => trivial
  · exact (h_MODE_intact irc.info irc.base).bind fun _ => trivial
  · exact (heard_intact irc.base logon).bind fun _ => trivial
  · exact (heard_intact irc.base logon).bind fun _ => trivial
  · exact (h_324_intact irc.info irc.base).bind fun _ => trivial
  · exact (h_TOPIC_intact irc.base).bind fun _ => trivial

/-- A core or tracking handler uses only fields that are there, except for the one of
004, which wants the prefix of a message that it cannot use otherwise. -/
theorem fields_present {dumb : Bool} {cmd : String} {h : Hnd}
    (hreg : (cmd, h) ∈ coreHnds dumb ++ trackHnds)
    (irc : Irc) (msg : Msg) (logon : Bool) :
    (∀ k, run h irc msg msg.nargs logon ≠ .error (.nullField k)) ↔
      (cmd = "004" → msg.nargs < 7 ∨ (!irc.dumb ∧ !logon) → msg.present 0 = true) := by
  rw [← intact_iff]
  by_cases hcmd : cmd = "004"
  · have hh : h = .handle_004 := by
      subst hcmd
      cases dumb <;> simpa [coreHnds, trackHnds] using hreg
    subst hh
    constructor
    · intro hi _ hg
      cases h0 : msg.present 0 with
      | true => rfl
      | false =>
        rw [run, handle_004_absent hg h0] at hi
        exact absurd ⟨0, rfl⟩ hi
    · intro hp
      apply handle_004_intact
      by_cases hg : msg.nargs < 7 ∨ (!irc.dumb ∧ !logon)
      · exact Or.inr (hp hcmd hg)
      · exact Or.inl hg
  · refine iff_of_true ?_ fun hc => absurd hc hcmd
    obtain hcore | htrack := List.mem_append.1 hreg
    · exact core_intact hcore hcmd irc logon
    · exact track_intact htrack irc logon

theorem fields_present_ping :
    let msg := Msg.ofLine (ascii "PING")
    ∀ k, run .handle_PING (ircInit (0, 0) [] (serving [])) msg msg.nargs true ≠
      .error (.nullField k) :=
  (@fields_present false "PING" _ (by decide) _ _ true).2 (by simp)

/-- A server that has a 004 without prefix and with too few fields for the first line. -/
theorem absent_prefix :
    (Tokenize.tokenize (ascii "004 me host" ++ [0]) 0).1 = true ∧
      run .handle_004 (ircInit (0, 0) [] (serving [])) (.ofLine (ascii "004 me host")) 4 true =
        .error (.nullField 0) ∧
      connect noUsers 4 (ircInit (0, 0) [] (serving [⟨lines ["004 me host"], []⟩])) =
        some (.error (.nullField 0)) := by
  refine ⟨by decide +kernel, ?_, eq_error_of_fault (by decide +kernel)⟩
  exact @handle_004_absent (.ofLine (ascii "004 me host")) _ _ (Or.inl (by decide +kernel))
    (by decide +kernel)

end Core

end Srsirc.FieldSafety
