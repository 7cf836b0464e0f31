import Srsirc.HandlerSpecs
import Srsirc.TrackMaps

namespace Srsirc.Casemapping

open CharMap Dictionary HeapCells Message ServerInfo UserBase Context Conn CoreHandlers Capabilities
open Dispatch Registry Fallible MapAgreement TrackMaps TrackRule

/-- What every handler but that of 005 does: it leaves the casemapping and the prefix table
alone, and what it stores goes by them. -/
structure Steady (irc irc' : Irc) : Prop where
  casemap : irc'.info.casemap = irc.info.casemap
  modepfx : irc'.info.m005modepfx = irc.info.m005modepfx
  enab : irc'.trackingEnab = irc.trackingEnab
  fitted : ∀ κ q, κ irc.info.casemap → Suits irc.info q → Fitted κ q irc.base → Fitted κ q irc'.base

structure Quiet (irc irc' : Irc) : Prop where
  casemap : irc'.info.casemap = irc.info.casemap
  modepfx : irc'.info.m005modepfx = irc.info.m005modepfx
  enab : irc'.trackingEnab = irc.trackingEnab
  base : Realloc irc.base irc'.base

theorem Quiet.refl (irc : Irc) : Quiet irc irc := ⟨rfl, rfl, rfl, .refl _⟩

theorem Quiet.trans {irc irc' irc'' : Irc} (h : Quiet irc irc') (h' : Quiet irc' irc'') :
    Quiet irc irc'' :=
  ⟨h'.casemap.trans h.casemap, h'.modepfx.trans h.modepfx, h'.enab.trans h.enab,
    h.base.trans h'.base⟩

theorem Quiet.steady {irc irc' : Irc} (h : Quiet irc irc') : Steady irc irc' := by
  obtain ⟨al, hal⟩ := h.base
  refine ⟨h.casemap, h.modepfx, h.enab, fun κ q _ _ hm => ?_⟩
  rw [hal]
  exact hm.al al

theorem quiet_ok {irc irc' : Irc} {flags : Flags} (h : Quiet irc irc') :
    Ensures (.ok (flags, irc') : Except Fault (Flags × Irc)) fun r => Quiet irc r.2 := Ensures.ok h

theorem writeOr_quiet (irc : Irc) (line : Str) (done : Flags) :
    Quiet irc (writeOr irc line done).2 := by
  rw [writeOr]
  split <;> exact ⟨rfl, rfl, rfl, .refl _⟩

theorem Quiet.written {irc irc' : Irc} (h : Quiet irc irc') (line : Str) (done : Flags) :
    Quiet irc (writeOr irc' line done).2 := h.trans (writeOr_quiet irc' line done)

theorem strdup_quiet (irc : Irc) (s : Str) : Quiet irc (irc.strdup s).2 := ⟨rfl, rfl, rfl, _, rfl⟩

section Handlers

variable (irc : Irc) (msg : Msg) (nargs : Nat) (logon : Bool)

theorem keepLogonconv_quiet (k : Nat) : Ensures (keepLogonconv irc k msg) (Quiet irc) :=
  Ensures.value fun _ => Ensures.ok ⟨rfl, rfl, rfl, _, rfl⟩

theorem handle_001_quiet : Ensures (handle_001 irc msg nargs logon) fun r => Quiet irc r.2 := by
  refine Ensures.ite (fun _ => quiet_ok (.refl _)) fun _ =>
    (keepLogonconv_quiet _ _ _).bind fun irc' h => ?_
  exact Ensures.value fun _ => Ensures.ok (h.trans ⟨rfl, rfl, rfl, .refl _⟩)

theorem handle_002_quiet : Ensures (handle_002 irc msg nargs logon) fun r => Quiet irc r.2 :=
  Ensures.ite (fun _ => quiet_ok (.refl _)) fun _ =>
    (keepLogonconv_quiet _ _ _).bind fun _ h => Ensures.ok h

theorem handle_003_quiet : Ensures (handle_003 irc msg nargs logon) fun r => Quiet irc r.2 :=
  Ensures.ite (fun _ => quiet_ok (.refl _)) fun _ =>
    (keepLogonconv_quiet _ _ _).bind fun _ h => Ensures.ok h

theorem handle_004_quiet : Ensures (handle_004 irc msg nargs logon) fun r => Quiet irc r.2 := by
  refine Ensures.ite (fun _ => Ensures.value fun _ => quiet_ok (.refl _)) fun _ =>
    (keepLogonconv_quiet _ _ _).bind fun irc' h => ?_
  refine Ensures.value fun _ => Ensures.value fun _ => Ensures.value fun _ =>
    Ensures.value fun _ => ?_
  exact Ensures.ok (h.trans ⟨rfl, rfl, rfl, .refl _⟩)

theorem handle_PING_quiet : Ensures (handle_PING irc msg nargs logon) fun r => Quiet irc r.2 :=
  Ensures.ite (fun _ => quiet_ok (.refl _)) fun _ =>
    Ensures.ite (fun _ => quiet_ok (.refl _)) fun _ =>
    Ensures.value fun _ => Ensures.ok (writeOr_quiet _ _ _)

theorem handle_bad_nick_quiet :
    Ensures (handle_bad_nick irc msg nargs logon) fun r => Quiet irc r.2 := by
  refine Ensures.ite (fun _ => quiet_ok (.refl _)) fun _ => ?_
  split
  · exact quiet_ok (.refl _)
  · next mutNick _ =>
    have h : Quiet irc { irc with info := { irc.info with
        mynick := strNcpy (mutNick irc.info.mynick) MAX_NICK_LEN } } := ⟨rfl, rfl, rfl, .refl _⟩
    exact Ensures.ite (fun _ => Ensures.ok h) fun _ => Ensures.ok (h.trans (writeOr_quiet _ _ _))

theorem handle_383_quiet : Ensures (handle_383 irc msg nargs logon) fun r => Quiet irc r.2 := by
  refine Ensures.ite (fun _ => quiet_ok (.refl _)) fun _ => Ensures.value fun _ => ?_
  exact Ensures.ite (fun _ => Ensures.value fun _ => Ensures.ok ⟨rfl, rfl, rfl, .refl _⟩)
    fun _ => Ensures.ok ⟨rfl, rfl, rfl, .refl _⟩

theorem handle_465_quiet : Ensures (handle_465 irc msg nargs logon) fun r => Quiet irc r.2 :=
  Ensures.ite
    (fun _ => Ensures.value fun s =>
      Ensures.ok ((strdup_quiet irc s).trans ⟨rfl, rfl, rfl, .refl _⟩))
    fun _ => Ensures.ok ((strdup_quiet irc []).trans ⟨rfl, rfl, rfl, .refl _⟩)

theorem handle_ERROR_quiet : Ensures (handle_ERROR irc msg nargs logon) fun r => Quiet irc r.2 :=
  Ensures.ite
    (fun _ => Ensures.value fun s =>
      Ensures.ok ((strdup_quiet irc s).trans ⟨rfl, rfl, rfl, .refl _⟩))
    fun _ => Ensures.ok ((strdup_quiet irc []).trans ⟨rfl, rfl, rfl, .refl _⟩)

theorem handle_NICK_quiet : Ensures (handle_NICK irc msg nargs logon) fun r => Quiet irc r.2 := by
  refine Ensures.ite (fun _ => quiet_ok (.refl _)) fun _ => Ensures.value fun _ => ?_
  exact Ensures.ite (fun _ => Ensures.value fun _ => Ensures.ok ⟨rfl, rfl, rfl, .refl _⟩)
    fun _ => quiet_ok (.refl _)

theorem handle_MODE_quiet : Ensures (handle_MODE irc msg nargs logon) fun r => Quiet irc r.2 := by
  refine Ensures.ite (fun _ => quiet_ok (.refl _)) fun _ => Ensures.value fun _ => ?_
  exact Ensures.ite (fun _ => quiet_ok (.refl _)) fun _ =>
    Ensures.value fun _ => Ensures.ok ⟨rfl, rfl, rfl, .refl _⟩

theorem concludeSaslCap_quiet : Quiet irc (concludeSaslCap irc).2 := writeOr_quiet _ _ _

theorem handle_CAP_LS_quiet :
    Ensures (handle_CAP_LS irc msg nargs logon) fun r => Quiet irc r.2 := by
  refine Ensures.ite (fun _ => quiet_ok (.refl _)) fun _ =>
    Ensures.ite (fun _ => quiet_ok (.refl _)) fun _ => ?_
  refine Ensures.value fun _ => Ensures.ite (fun _ => Ensures.value fun _ => ?_) fun _ => ?_
  · exact Ensures.ok ⟨rfl, rfl, rfl, .refl _⟩
  · exact Ensures.ok ⟨rfl, rfl, rfl, .refl _⟩

theorem handle_CAP_ACK_quiet : Ensures (handle_CAP_ACK irc msg nargs) fun r => Quiet irc r.2 := by
  refine Ensures.ite (fun _ => quiet_ok (.refl _)) fun _ => Ensures.value fun _ => ?_
  exact Ensures.ite (fun _ => quiet_ok (.refl _)) fun _ => Ensures.ok ⟨rfl, rfl, rfl, .refl _⟩

theorem requestCaps_quiet : Quiet irc (requestCaps irc).2 := by
  rw [requestCaps]
  split
  · exact .refl _
  · refine Quiet.written ?_ _ _
    exact ⟨rfl, rfl, rfl, .refl _⟩

theorem handle_CAP_quiet : Ensures (handle_CAP irc msg nargs logon) fun r => Quiet irc r.2 := by
  refine Ensures.ite (fun _ => quiet_ok (.refl _)) fun _ => Ensures.value fun _ => ?_
  refine Ensures.ite (fun _ => ?_) fun _ => Ensures.ite (fun _ => ?_) fun _ =>
    Ensures.ite (fun _ => quiet_ok (.refl _)) fun _ => quiet_ok (.refl _)
  · refine (handle_CAP_LS_quiet irc msg nargs logon).bind fun _ h => ?_
    refine Ensures.ite (fun _ => Ensures.ok h) fun _ =>
      Ensures.ite (fun _ => Ensures.ok h) fun _ => ?_
    exact Ensures.ok (h.trans (requestCaps_quiet _))
  · refine (handle_CAP_ACK_quiet irc msg nargs).bind fun _ h => ?_
    refine Ensures.ite (fun _ => Ensures.ok h) fun _ => Ensures.ite (fun _ => ?_) fun _ => ?_
    · exact Ensures.ok (h.trans (writeOr_quiet _ _ _))
    · exact Ensures.ok (h.trans (concludeSaslCap_quiet _))

theorem handle_AUTHENTICATE_quiet :
    Ensures (handle_AUTHENTICATE irc msg nargs logon) fun r => Quiet irc r.2 := by
  refine Ensures.ite (fun _ => quiet_ok (.refl _)) fun _ =>
    Ensures.ite (fun _ => quiet_ok (.refl _)) fun _ => ?_
  split
  · exact quiet_ok (.refl _)
  · refine Ensures.value fun _ => ?_
    split
    · exact Ensures.ok ⟨rfl, rfl, rfl, .refl _⟩
    · split
      · exact Ensures.ok ⟨rfl, rfl, rfl, .refl _⟩
      · refine Ensures.ok (Quiet.written ?_ _ _)
        exact ⟨rfl, rfl, rfl, .refl _⟩

theorem handle_903_quiet : Ensures (handle_903 irc msg nargs logon) fun r => Quiet irc r.2 :=
  Ensures.ite (fun _ => quiet_ok (.refl _)) fun _ =>
    Ensures.ite (fun _ => Ensures.ok (writeOr_quiet _ _ _)) fun _ => quiet_ok (.refl _)

theorem handle_saslerr_quiet :
    Ensures (handle_saslerr irc msg nargs logon) fun r => Quiet irc r.2 :=
  Ensures.ite (fun _ => quiet_ok (.refl _)) fun _ =>
    Ensures.ite (fun _ => quiet_ok (.refl _)) fun _ => quiet_ok (.refl _)

theorem handle_691_quiet : Ensures (handle_691 irc msg nargs logon) fun r => Quiet irc r.2 :=
  Ensures.ite (fun _ => quiet_ok (.refl _)) fun _ =>
    Ensures.ite (fun _ => quiet_ok (.refl _)) fun _ =>
    Ensures.ite (fun _ => quiet_ok (.refl _)) fun _ => Ensures.ok (concludeSaslCap_quiet _)

theorem handle_670_quiet : Ensures (handle_670 irc msg nargs logon) fun r => Quiet irc r.2 := by
  rw [handle_670]
  split
  · exact Ensures.ok ⟨rfl, rfl, rfl, .refl _⟩
  · refine Ensures.ite (fun _ => Ensures.ok ⟨rfl, rfl, rfl, .refl _⟩) fun _ => ?_
    refine Ensures.ok (Quiet.written ?_ _ _)
    exact ⟨rfl, rfl, rfl, .refl _⟩

end Handlers

theorem run_quiet {h : Hnd} (h005 : h ≠ .handle_005) (ht : tracks h = false) (irc : Irc) (msg : Msg)
    (nargs : Nat)
    (logon : Bool) : Ensures (run h irc msg nargs logon) fun r => Quiet irc r.2 := by
  cases h with
  | handle_001 => exact handle_001_quiet irc msg nargs logon
  | handle_002 => exact handle_002_quiet irc msg nargs logon
  | handle_003 => exact handle_003_quiet irc msg nargs logon
  | handle_004 => exact handle_004_quiet irc msg nargs logon
  | handle_PING => exact handle_PING_quiet irc msg nargs logon
  | handle_bad_nick => exact handle_bad_nick_quiet irc msg nargs logon
  | handle_383 => exact handle_383_quiet irc msg nargs logon
  | handle_465 => exact handle_465_quiet irc msg nargs logon
  | handle_464 | handle_466 => exact quiet_ok (.refl _)
  | handle_484 => exact quiet_ok ⟨rfl, rfl, rfl, .refl _⟩
  | handle_ERROR => exact handle_ERROR_quiet irc msg nargs logon
  | handle_NICK => exact handle_NICK_quiet irc msg nargs logon
  | handle_MODE => exact handle_MODE_quiet irc msg nargs logon
  | handle_005 => exact absurd rfl h005
  | handle_670 => exact handle_670_quiet irc msg nargs logon
  | handle_691 => exact handle_691_quiet irc msg nargs logon
  | handle_903 => exact handle_903_quiet irc msg nargs logon
  | handle_saslerr => exact handle_saslerr_quiet irc msg nargs logon
  | handle_CAP => exact handle_CAP_quiet irc msg nargs logon
  | handle_AUTHENTICATE => exact handle_AUTHENTICATE_quiet irc msg nargs logon
  | _ => cases ht

theorem run_steady {h : Hnd} (h005 : h ≠ .handle_005) (irc : Irc) (msg : Msg) (nargs : Nat)
    (logon : Bool) : Ensures (run h irc msg nargs logon) fun r => Steady irc r.2 := by
  cases ht : tracks h with
  | false => exact (run_quiet h005 ht irc msg nargs logon).mono fun _ h => h.steady
  | true =>
    refine (tracking_rule ht irc msg nargs logon).mono fun r ⟨base, hr, hb⟩ => ?_
    rw [hr]
    exact ⟨rfl, rfl, rfl, fun κ q hcm hs hm => hb _ (fitted_preserves hcm hs) hm⟩

structure Level (irc irc' : Irc) : Prop where
  casemap : irc'.info.casemap = irc.info.casemap
  enab : irc'.trackingEnab = irc.trackingEnab
  maps : Mapped irc.info.casemap irc.base → Mapped irc.info.casemap irc'.base

theorem Steady.level {irc irc' : Irc} (h : Steady irc irc') : Level irc irc' :=
  ⟨h.casemap, h.enab, fun hm => mapped_iff.2 (h.fitted _ _ rfl (suits_any _) (mapped_iff.1 hm))⟩

theorem run_level {h : Hnd} (h005 : h ≠ .handle_005) (irc : Irc) (msg : Msg) (nargs : Nat)
    (logon : Bool) : Ensures (run h irc msg nargs logon) fun r => Level irc r.2 :=
  (run_steady h005 irc msg nargs logon).mono fun _ h => h.level

end Srsirc.Casemapping
