import Srsirc.Fallible
import Srsirc.Registry

namespace Srsirc.HandlerSpecs

open CharMap Message UserBase Context Conn CoreHandlers Capabilities Dispatch Registry Fallible

def Wrote (con con' : Iconn) : Prop :=
  ∃ write sent, con' = { con with world := { con.world with write }, sent }

theorem Wrote.refl (con : Iconn) : Wrote con con := ⟨_, _, rfl⟩

theorem Wrote.trans {con con' con'' : Iconn} (h : Wrote con con') (h' : Wrote con' con'') :
    Wrote con con'' := by
  obtain ⟨_, _, rfl⟩ := h
  obtain ⟨_, _, rfl⟩ := h'
  exact ⟨_, _, rfl⟩

theorem connWriteRaw_wrote {con con' : Iconn} {buf : Str}
    (h : connWriteRaw con buf = (true, con')) :
    Wrote con con' := by
  rw [connWriteRaw] at h
  split at h
  · cases h
  · rw [askWrite] at h
    split at h
    · cases h
    · next heq =>
      obtain ⟨_, rfl⟩ := Prod.mk.inj heq
      obtain ⟨_, rfl⟩ := Prod.mk.inj h
      exact ⟨_, _, rfl⟩

theorem connWrite_wrote {con con' : Iconn} {line : Str} (h : connWrite con line = (true, con')) :
    Wrote con con' := by
  rw [connWrite] at h
  split at h
  · cases h
  · next heq => exact (connWriteRaw_wrote heq).trans (connWriteRaw_wrote h)

structure Alike (irc irc' : Irc) : Prop where
  con : irc'.con = irc.con
  caps : irc'.v3caps = irc.v3caps
  dumb : irc'.dumb = irc.dumb
  msghnds : irc'.msghnds = irc.msghnds

theorem Alike.refl (irc : Irc) : Alike irc irc := ⟨rfl, rfl, rfl, rfl⟩

/-- What a handler may do that has nothing to do with the capabilities or with TLS. -/
structure Plain (irc : Irc) (r : Flags × Irc) : Prop where
  kept : Kept irc r.2
  caps : r.2.v3caps = irc.v3caps
  con : r.1.has CANT_PROCEED = false → Wrote irc.con r.2.con

theorem Alike.plain {irc irc' : Irc} (h : Alike irc irc') (flags : Flags) :
    Plain irc (flags, irc') :=
  ⟨Kept.of_eq h.dumb h.msghnds, h.caps, fun _ => h.con ▸ Wrote.refl _⟩

theorem Plain.after {irc irc' : Irc} {r : Flags × Irc} (hp : Plain irc' r) (h : Alike irc irc') :
    Plain irc r :=
  ⟨(Kept.of_eq h.dumb h.msghnds).trans hp.kept, hp.caps.trans h.caps, fun hr => h.con ▸ hp.con hr⟩

theorem down_plain (irc : Irc) (con : Iconn) : Plain irc (IO_ERR, { irc with con }) :=
  ⟨Kept.of_eq rfl rfl, rfl,
    fun h => absurd (show IO_ERR.has CANT_PROCEED = false from h) (by decide)⟩

theorem Plain.written {irc : Irc} {con : Iconn} {r : Flags × Irc} (hp : Plain { irc with con } r)
    (hw : Wrote irc.con con) : Plain irc r :=
  ⟨⟨hp.kept.dumb, hp.kept.grown⟩, hp.caps, fun hr => hw.trans (hp.con hr)⟩

theorem writeOr_plain (irc : Irc) (line : Str) (done : Flags) :
    Plain irc (writeOr irc line done) := by
  rw [writeOr]
  split
  · exact down_plain _ _
  · next heq => exact ⟨Kept.of_eq rfl rfl, rfl, fun _ => connWrite_wrote heq⟩

theorem concludeSaslCap_plain (irc : Irc) : Plain irc (concludeSaslCap irc) := writeOr_plain _ _ _

def Noted (irc irc' : Irc) : Prop := ∃ info base, irc' = { irc with info, base }

theorem Noted.refl (irc : Irc) : Noted irc irc := ⟨_, _, rfl⟩

theorem Noted.trans {irc irc' irc'' : Irc} (h : Noted irc irc') (h' : Noted irc' irc'') :
    Noted irc irc'' := by
  obtain ⟨_, _, rfl⟩ := h
  obtain ⟨_, _, rfl⟩ := h'
  exact ⟨_, _, rfl⟩

theorem Noted.alike {irc irc' : Irc} (h : Noted irc irc') : Alike irc irc' := by
  obtain ⟨_, _, rfl⟩ := h
  exact ⟨rfl, rfl, rfl, rfl⟩

theorem Noted.plain {irc irc' : Irc} (h : Noted irc irc') (flags : Flags) :
    Plain irc (flags, irc') :=
  h.alike.plain flags

theorem noted_ok {irc irc' : Irc} {flags : Flags} (h : Noted irc irc') :
    Ensures (.ok (flags, irc') : Except Fault (Flags × Irc)) fun r => Noted irc r.2 := Ensures.ok h

section Core

variable (irc : Irc) (msg : Msg) (nargs : Nat) (logon : Bool)

theorem keepLogonconv_noted (k : Nat) : Ensures (keepLogonconv irc k msg) (Noted irc) :=
  Ensures.value fun _ => Ensures.ok ⟨_, _, rfl⟩

theorem handle_001_noted : Ensures (handle_001 irc msg nargs logon) fun r => Noted irc r.2 := by
  refine Ensures.ite (fun _ => noted_ok (.refl _)) fun _ =>
    (keepLogonconv_noted _ _ _).bind fun irc' h => ?_
  exact Ensures.value fun _ => noted_ok (h.trans ⟨_, _, rfl⟩)

theorem handle_002_noted : Ensures (handle_002 irc msg nargs logon) fun r => Noted irc r.2 :=
  Ensures.ite (fun _ => noted_ok (.refl _)) fun _ =>
    (keepLogonconv_noted _ _ _).bind fun _ => noted_ok

theorem handle_003_noted : Ensures (handle_003 irc msg nargs logon) fun r => Noted irc r.2 :=
  Ensures.ite (fun _ => noted_ok (.refl _)) fun _ =>
    (keepLogonconv_noted _ _ _).bind fun _ => noted_ok

theorem handle_004_noted : Ensures (handle_004 irc msg nargs logon) fun r => Noted irc r.2 := by
  refine Ensures.ite (fun _ => Ensures.value fun _ => noted_ok (.refl _)) fun _ =>
    (keepLogonconv_noted _ _ _).bind fun irc' h => ?_
  refine Ensures.value fun _ => Ensures.value fun _ => Ensures.value fun _ =>
    Ensures.value fun _ => ?_
  exact noted_ok (h.trans ⟨_, _, rfl⟩)

theorem handle_383_noted : Ensures (handle_383 irc msg nargs logon) fun r => Noted irc r.2 := by
  refine Ensures.ite (fun _ => noted_ok (.refl _)) fun _ => Ensures.value fun _ => ?_
  exact Ensures.ite (fun _ => Ensures.value fun _ => noted_ok ⟨_, _, rfl⟩)
    fun _ => noted_ok ⟨_, _, rfl⟩

theorem handle_465_noted : Ensures (handle_465 irc msg nargs logon) fun r => Noted irc r.2 :=
  Ensures.ite (fun _ => Ensures.value fun _ => noted_ok ⟨_, _, rfl⟩)
    fun _ => noted_ok ⟨_, _, rfl⟩

theorem handle_ERROR_noted : Ensures (handle_ERROR irc msg nargs logon) fun r => Noted irc r.2 :=
  Ensures.ite (fun _ => Ensures.value fun _ => noted_ok ⟨_, _, rfl⟩)
    fun _ => noted_ok ⟨_, _, rfl⟩

theorem handle_NICK_noted : Ensures (handle_NICK irc msg nargs logon) fun r => Noted irc r.2 := by
  refine Ensures.ite (fun _ => noted_ok (.refl _)) fun _ => Ensures.value fun _ => ?_
  exact Ensures.ite (fun _ => Ensures.value fun _ => noted_ok ⟨_, _, rfl⟩)
    fun _ => noted_ok (.refl _)

theorem handle_MODE_noted : Ensures (handle_MODE irc msg nargs logon) fun r => Noted irc r.2 := by
  refine Ensures.ite (fun _ => noted_ok (.refl _)) fun _ => Ensures.value fun _ => ?_
  exact Ensures.ite (fun _ => noted_ok (.refl _)) fun _ => Ensures.value fun _ =>
    noted_ok ⟨_, _, rfl⟩

theorem tracking_noted (h : Irc → Msg → Nat → Bool → Base → Track.Step) :
    Ensures (tracking h irc msg nargs logon) fun r => Noted irc r.2 :=
  Ensures.value fun _ => noted_ok ⟨_, _, rfl⟩

theorem handle_saslerr_noted :
    Ensures (handle_saslerr irc msg nargs logon) fun r => Noted irc r.2 :=
  Ensures.ite (fun _ => noted_ok (.refl _)) fun _ =>
    Ensures.ite (fun _ => noted_ok (.refl _)) fun _ => noted_ok (.refl _)

theorem noteAttr_noted (attr : Str) : Ensures (noteAttr irc attr) fun r => Noted irc r.2 :=
  Ensures.value fun _ => Ensures.ok ⟨_, _, rfl⟩

theorem noteAttrs_noted (k z : Nat) : Ensures (noteAttrs msg k z irc) fun r => Noted irc r.2.2 := by
  induction k generalizing z irc with
  | zero => exact Ensures.ok (.refl _)
  | succ k ih =>
    refine Ensures.value fun attr => (noteAttr_noted irc attr).bind fun r h => ?_
    exact Ensures.ite (fun _ => Ensures.ok h) fun _ => (ih _ _).bind fun r' h' =>
      Ensures.ok (h.trans h')

def silent (h : Hnd) : Bool :=
  h ∉ [.handle_PING, .handle_bad_nick, .handle_005, .handle_CAP, .handle_AUTHENTICATE, .handle_670,
    .handle_691, .handle_903]

theorem run_noted {h : Hnd} (hs : silent h = true) :
    Ensures (run h irc msg nargs logon) fun r => Noted irc r.2 := by
  cases h with
  | handle_PING | handle_bad_nick | handle_005 | handle_CAP | handle_AUTHENTICATE | handle_670
  | handle_691 | handle_903 => cases hs
  | handle_001 => exact handle_001_noted irc msg nargs logon
  | handle_002 => exact handle_002_noted irc msg nargs logon
  | handle_003 => exact handle_003_noted irc msg nargs logon
  | handle_004 => exact handle_004_noted irc msg nargs logon
  | handle_383 => exact handle_383_noted irc msg nargs logon
  | handle_465 => exact handle_465_noted irc msg nargs logon
  | handle_464 | handle_466 => exact noted_ok (.refl _)
  | handle_484 => exact noted_ok ⟨_, _, rfl⟩
  | handle_ERROR => exact handle_ERROR_noted irc msg nargs logon
  | handle_NICK => exact handle_NICK_noted irc msg nargs logon
  | handle_MODE => exact handle_MODE_noted irc msg nargs logon
  | handle_saslerr => exact handle_saslerr_noted irc msg nargs logon
  | h_JOIN | h_311 | h_332 | h_333 | h_352 | h_353 | h_366 | h_PART | h_QUIT | h_NICK | h_KICK | h_MODE
  | h_PRIVMSG | h_NOTICE | h_324 | h_TOPIC =>
    rw [run]
    exact tracking_noted irc msg nargs logon _

theorem noted_plain {irc : Irc} {flags : Flags} (irc' : Irc) (h : Noted irc irc') :
    Ensures (.ok (flags, irc') : Except Fault (Flags × Irc)) (Plain irc) :=
      Ensures.ok (h.plain flags)

theorem handle_PING_plain : Ensures (handle_PING irc msg nargs logon) (Plain irc) :=
  Ensures.ite (fun _ => noted_plain _ (.refl _)) fun _ =>
    Ensures.ite (fun _ => noted_plain _ (.refl _))
    fun _ => Ensures.value fun _ => Ensures.ok (writeOr_plain _ _ _)

theorem handle_bad_nick_plain : Ensures (handle_bad_nick irc msg nargs logon) (Plain irc) := by
  refine Ensures.ite (fun _ => noted_plain _ (.refl _)) fun _ => ?_
  split
  · exact noted_plain _ (.refl _)
  · refine Ensures.ite (fun _ => noted_plain _ ⟨_, _, rfl⟩) fun _ => ?_
    exact Ensures.ok ((writeOr_plain _ _ _).after ⟨rfl, rfl, rfl, rfl⟩)

theorem handle_005_plain : Ensures (handle_005 irc msg nargs logon) (Plain irc) := by
  refine (noteAttrs_noted _ _ _ _).bind fun ⟨ret, haveCasemap, irc'⟩ h => ?_
  refine Ensures.ite (fun _ => noted_plain _ h) fun _ => Ensures.ite (fun _ => ?_) fun _ =>
    noted_plain _ h
  obtain ⟨hk, ha⟩ := trkInit_spec irc'
  generalize trkInit irc' = r at hk ha
  obtain ⟨ok, irc''⟩ := r
  obtain ⟨_, _, rfl⟩ := ha
  cases ok
  · exact Ensures.ok (Plain.after ⟨hk, rfl, fun _ => Wrote.refl _⟩ h.alike)
  · exact Ensures.ok
      (Plain.after ⟨hk.trans (Kept.of_eq rfl rfl), rfl, fun _ => Wrote.refl _⟩ h.alike)

theorem handle_903_plain : Ensures (handle_903 irc msg nargs logon) (Plain irc) :=
  Ensures.ite (fun _ => noted_plain _ (.refl _)) fun _ =>
    Ensures.ite (fun _ => Ensures.ok (writeOr_plain _ _ _)) fun _ => noted_plain _ (.refl _)

theorem handle_691_plain : Ensures (handle_691 irc msg nargs logon) (Plain irc) :=
  Ensures.ite (fun _ => noted_plain _ (.refl _)) fun _ =>
    Ensures.ite (fun _ => noted_plain _ (.refl _))
    fun _ => Ensures.ite (fun _ => noted_plain _ (.refl _)) fun _ =>
      Ensures.ok (concludeSaslCap_plain _)

theorem handle_AUTHENTICATE_plain :
    Ensures (handle_AUTHENTICATE irc msg nargs logon) (Plain irc) := by
  refine Ensures.ite (fun _ => noted_plain _ (.refl _)) fun _ =>
    Ensures.ite (fun _ => noted_plain _ (.refl _)) fun _ => ?_
  split
  · exact noted_plain _ (.refl _)
  · refine Ensures.value fun _ => ?_
    split
    · exact Ensures.ok (down_plain _ _)
    · next h₁ =>
      split
      · exact Ensures.ok (down_plain _ _)
      · next h₂ =>
        have hw := (connWriteRaw_wrote h₁).trans (connWriteRaw_wrote h₂)
        exact Ensures.ok ((writeOr_plain _ _ _).written hw)

end Core

/-- What all handlers do but the two of STARTTLS and of the capabilities. -/
theorem run_plain {h : Hnd} (h670 : h ≠ .handle_670) (hcap : h ≠ .handle_CAP)
    (irc : Irc) (msg : Msg)
    (nargs : Nat) (logon : Bool) : Ensures (run h irc msg nargs logon) (Plain irc) := by
  by_cases hs : silent h = true
  · exact (run_noted irc msg nargs logon hs).mono fun r hr => hr.plain r.1
  · cases h with
    | handle_PING => exact handle_PING_plain irc msg nargs logon
    | handle_bad_nick => exact handle_bad_nick_plain irc msg nargs logon
    | handle_005 => exact handle_005_plain irc msg nargs logon
    | handle_670 => exact absurd rfl h670
    | handle_691 => exact handle_691_plain irc msg nargs logon
    | handle_903 => exact handle_903_plain irc msg nargs logon
    | handle_CAP => exact absurd rfl hcap
    | handle_AUTHENTICATE => exact handle_AUTHENTICATE_plain irc msg nargs logon
    | _ => exact absurd rfl hs

end Srsirc.HandlerSpecs
