import Srsirc.Transport

namespace Srsirc.HandlerFrames

open CharMap Message UserBase Context Conn CoreHandlers Capabilities Dispatch Connect Registry
open HandlerSpecs Transport Fallible

def Unread (con con' : Iconn) : Prop :=
  con'.rctx = con.rctx ∨ con'.rctx = { con.rctx with wptr := 0, eptr := 0 }

theorem Unread.refl (con : Iconn) : Unread con con := Or.inl rfl

theorem Unread.trans {con con' con'' : Iconn} (h : Unread con con') (h' : Unread con' con'') :
    Unread con con'' := by
  obtain h' | h' := h'
  · obtain h | h := h
    · exact Or.inl (h'.trans h)
    · exact Or.inr (h'.trans h)
  · obtain h | h := h
    · exact Or.inr (by rw [h', h])
    · exact Or.inr (by rw [h', h])

theorem connWriteRaw_unread (con : Iconn) (buf : Str) : Unread con (connWriteRaw con buf).2 := by
  rw [connWriteRaw, askWrite]
  split
  · exact Or.inl rfl
  · cases (ask con.world.write).1 with
    | false => exact Or.inr rfl
    | true => exact Or.inl rfl

structure OfWrites (R : Iconn → Iconn → Prop) : Prop where
  refl : ∀ con, R con con
  trans : ∀ {con con' con''}, R con con' → R con' con'' → R con con''
  write : ∀ con buf, R con (connWriteRaw con buf).2

theorem unread_ofWrites : OfWrites Unread := ⟨.refl, .trans, connWriteRaw_unread⟩

/-- What the handlers change, but for that of 005, when `R` is what they do to the connection. -/
def Through (R : Iconn → Iconn → Prop) (irc irc' : Irc) : Prop :=
  ∃ info base con v3caps v3capreq, R irc.con con ∧
    irc' = { irc with info, base, con, v3caps, v3capreq }

section Through

variable {R : Iconn → Iconn → Prop} (hR : OfWrites R) (irc : Irc) (msg : Msg) (nargs : Nat)
    (logon : Bool)

theorem Through.trans (hR : OfWrites R) {irc irc' irc'' : Irc} (h : Through R irc irc')
    (h' : Through R irc' irc'') : Through R irc irc'' := by
  obtain ⟨_, _, _, _, _, hu, rfl⟩ := h
  obtain ⟨_, _, _, _, _, hu', rfl⟩ := h'
  exact ⟨_, _, _, _, _, hR.trans hu hu', rfl⟩

theorem through_con {irc : Irc} {con : Iconn} (h : R irc.con con) :
    Through R irc { irc with con } :=
  ⟨_, _, _, _, _, h, rfl⟩

theorem through_ok {irc irc' : Irc} {flags : Flags} (h : Through R irc irc') :
    Ensures (.ok (flags, irc') : Except Fault (Flags × Irc)) fun r => Through R irc r.2 :=
      Ensures.ok h

include hR

theorem Through.refl : Through R irc irc := ⟨_, _, _, _, _, hR.refl _, rfl⟩

theorem connWrite_through (con : Iconn) (line : Str) : R con (connWrite con line).2 := by
  have hfirst := hR.write con line
  rw [connWrite]
  split
  · next heq =>
    rw [heq] at hfirst
    exact hfirst
  · next con₁ heq =>
    rw [heq] at hfirst
    exact hR.trans hfirst (hR.write con₁ _)

theorem writeOr_through (line : Str) (done : Flags) : Through R irc (writeOr irc line done).2 := by
  have hu := connWrite_through hR irc.con line
  rw [writeOr]
  split
  · next heq =>
    rw [heq] at hu
    exact through_con hu
  · next heq =>
    rw [heq] at hu
    exact through_con hu

theorem concludeSaslCap_through : Through R irc (concludeSaslCap irc).2 := writeOr_through hR _ _ _

theorem handle_PING_through :
    Ensures (handle_PING irc msg nargs logon) fun r => Through R irc r.2 :=
  Ensures.ite (fun _ => through_ok (.refl hR _)) fun _ =>
    Ensures.ite (fun _ => through_ok (.refl hR _)) fun _ =>
    Ensures.value fun _ => Ensures.ok (writeOr_through hR _ _ _)

theorem handle_bad_nick_through :
    Ensures (handle_bad_nick irc msg nargs logon) fun r => Through R irc r.2 := by
  refine Ensures.ite (fun _ => through_ok (.refl hR _)) fun _ => ?_
  split
  · exact through_ok (.refl hR _)
  · refine Ensures.ite (fun _ => through_ok ⟨_, _, _, _, _, hR.refl _, rfl⟩) fun _ => Ensures.ok ?_
    apply Through.trans hR ?_ (writeOr_through hR _ _ _)
    exact ⟨_, _, _, _, _, hR.refl _, rfl⟩

theorem handle_CAP_through :
    Ensures (handle_CAP irc msg nargs logon) fun r => Through R irc r.2 := by
  have hsame := Through.refl hR irc
  have hls : Ensures (handle_CAP_LS irc msg nargs logon) fun r => Through R irc r.2 := by
    refine Ensures.ite (fun _ => through_ok hsame) fun _ =>
      Ensures.ite (fun _ => through_ok hsame) fun _ => ?_
    refine Ensures.value fun _ => Ensures.ite (fun _ => Ensures.value fun _ => ?_) fun _ => ?_
    · exact through_ok ⟨_, _, _, _, _, hR.refl _, rfl⟩
    · exact through_ok ⟨_, _, _, _, _, hR.refl _, rfl⟩
  have hack : Ensures (handle_CAP_ACK irc msg nargs) fun r => Through R irc r.2 := by
    refine Ensures.ite (fun _ => through_ok hsame) fun _ => Ensures.value fun _ => ?_
    exact Ensures.ite (fun _ => through_ok hsame) fun _ =>
      through_ok ⟨_, _, _, _, _, hR.refl _, rfl⟩
  refine Ensures.ite (fun _ => through_ok hsame) fun _ => Ensures.value fun _ => ?_
  refine Ensures.ite (fun _ => hls.bind fun r h => ?_) fun _ =>
    Ensures.ite (fun _ => hack.bind fun r h => ?_) fun _ => Ensures.ite (fun _ => through_ok hsame)
      fun _ => through_ok hsame
  · refine Ensures.ite (fun _ => through_ok h) fun _ => Ensures.ite (fun _ => through_ok h) fun _ =>
      Ensures.ok (h.trans hR ?_)
    rw [requestCaps]
    split
    · exact Through.refl hR _
    · apply Through.trans hR ?_ (writeOr_through hR _ _ _)
      exact ⟨_, _, _, _, _, hR.refl _, rfl⟩
  · refine Ensures.ite (fun _ => through_ok h) fun _ => Ensures.ite (fun _ => ?_) fun _ => ?_
    · exact through_ok (h.trans hR (writeOr_through hR _ _ _))
    · exact through_ok (h.trans hR (concludeSaslCap_through hR _))

theorem handle_AUTHENTICATE_through :
    Ensures (handle_AUTHENTICATE irc msg nargs logon) fun r => Through R irc r.2 := by
  refine Ensures.ite (fun _ => through_ok (.refl hR _)) fun _ =>
    Ensures.ite (fun _ => through_ok (.refl hR _)) fun _ => ?_
  split
  · exact through_ok (.refl hR _)
  · next saslMsg _ =>
    refine Ensures.value fun _ => ?_
    have hu := hR.write irc.con (ascii "AUTHENTICATE ")
    split
    · next heq =>
      rw [heq] at hu
      exact through_ok (through_con hu)
    · next con heq =>
      rw [heq] at hu
      have hu' := hR.write con saslMsg
      split
      · next heq' =>
        rw [heq'] at hu'
        exact through_ok (through_con (hR.trans hu hu'))
      · next heq' =>
        rw [heq'] at hu'
        exact Ensures.ok ((through_con (hR.trans hu hu')).trans hR (writeOr_through hR _ _ _))

theorem handle_670_through (hu : R irc.con (upgrade irc.con).2) :
    Ensures (handle_670 irc msg nargs logon) fun r => Through R irc r.2 := by
  rw [handle_670]
  split
  · next heq =>
    rw [heq] at hu
    exact through_ok (through_con hu)
  · next heq =>
    rw [heq] at hu
    refine Ensures.ite (fun _ => through_ok (through_con hu)) fun _ => Ensures.ok ?_
    exact (through_con hu).trans hR (concludeSaslCap_through hR _)

theorem handle_691_through : Ensures (handle_691 irc msg nargs logon) fun r => Through R irc r.2 :=
  Ensures.ite (fun _ => through_ok (.refl hR _)) fun _ =>
    Ensures.ite (fun _ => through_ok (.refl hR _)) fun _ =>
    Ensures.ite (fun _ => through_ok (.refl hR _)) fun _ =>
      Ensures.ok (concludeSaslCap_through hR _)

theorem handle_903_through : Ensures (handle_903 irc msg nargs logon) fun r => Through R irc r.2 :=
  Ensures.ite (fun _ => through_ok (.refl hR _)) fun _ =>
    Ensures.ite (fun _ => Ensures.ok (writeOr_through hR _ _ _)) fun _ => through_ok (.refl hR _)

/-- Apart from the handler of 670, the handlers do nothing to the connection but write to it. -/
theorem run_through {h : Hnd} (h005 : h ≠ .handle_005)
    (h670 : h = .handle_670 → R irc.con (upgrade irc.con).2) :
    Ensures (run h irc msg nargs logon) fun r => Through R irc r.2 := by
  by_cases hs : silent h = true
  · refine (run_noted irc msg nargs logon hs).mono fun r hr => ?_
    obtain ⟨_, _, heq⟩ := hr
    exact ⟨_, _, _, _, _, hR.refl _, heq⟩
  · cases h with
    | handle_PING => exact handle_PING_through hR irc msg nargs logon
    | handle_bad_nick => exact handle_bad_nick_through hR irc msg nargs logon
    | handle_005 => exact absurd rfl h005
    | handle_CAP => exact handle_CAP_through hR irc msg nargs logon
    | handle_AUTHENTICATE => exact handle_AUTHENTICATE_through hR irc msg nargs logon
    | handle_670 => exact handle_670_through hR irc msg nargs logon (h670 rfl)
    | handle_691 => exact handle_691_through hR irc msg nargs logon
    | handle_903 => exact handle_903_through hR irc msg nargs logon
    | _ => exact absurd rfl hs

end Through

/-- What the handlers change, but for that of 005. -/
def Within (irc irc' : Irc) : Prop :=
  ∃ info base con v3caps v3capreq, Unread irc.con con ∧
    irc' = { irc with info, base, con, v3caps, v3capreq }

variable (irc : Irc) (msg : Msg) (nargs : Nat) (logon : Bool)

theorem run_within {h : Hnd} (h005 : h ≠ .handle_005) :
    Ensures (run h irc msg nargs logon) fun r => Within irc r.2 :=
  run_through unread_ofWrites irc msg nargs logon h005 fun _ => Or.inl (upgrade_keeps irc.con).rctx

def Tracks (irc irc' : Irc) : Prop :=
  irc'.msghnds = irc.msghnds ∧ irc'.trackingEnab = irc.trackingEnab ∨
    irc.trackingEnab = false ∧ ∃ irc₁ : Irc, irc₁.msghnds = irc.msghnds ∧
      irc'.msghnds = (trkInit irc₁).2.msghnds ∧ irc'.trackingEnab = (trkInit irc₁).1

theorem Within.tracks {irc irc' : Irc} (h : Within irc irc') : Tracks irc irc' := by
  obtain ⟨_, _, _, _, _, _, rfl⟩ := h
  exact Or.inl ⟨rfl, rfl⟩

theorem handle_005_tracks : Ensures (handle_005 irc msg nargs logon) fun r => Tracks irc r.2 := by
  refine (noteAttrs_noted _ _ _ _).bind fun ⟨ret, haveCasemap, irc'⟩ h => ?_
  have hsame : irc'.msghnds = irc.msghnds ∧ irc'.trackingEnab = irc.trackingEnab := by
    obtain ⟨_, _, rfl⟩ := h
    exact ⟨rfl, rfl⟩
  refine Ensures.ite (fun _ => Ensures.ok (Or.inl hsame)) fun _ =>
    Ensures.ite (fun hbegin => ?_) fun _ => Ensures.ok (Or.inl hsame)
  have hoff : irc'.trackingEnab = false := by simpa using hbegin.2.2
  refine Ensures.mono (p := fun r => r.2.msghnds = (trkInit irc').2.msghnds ∧
    r.2.trackingEnab = (trkInit irc').1) ?_ fun r hr => ?_
  · have hkeep := (trkInit_spec irc').2
    split
    · next irc₁ hinit =>
      rw [hinit] at hkeep ⊢
      obtain ⟨_, _, rfl⟩ := hkeep
      exact Ensures.ok ⟨rfl, hoff⟩
    · next irc₁ hinit =>
      rw [hinit]
      exact Ensures.ok ⟨rfl, rfl⟩
  · exact Or.inr ⟨hsame.2.symm.trans hoff, irc', hsame.1, hr⟩

theorem run_tracks (h : Hnd) : Ensures (run h irc msg nargs logon) fun r => Tracks irc r.2 := by
  by_cases h005 : h = .handle_005
  · subst h005
    exact handle_005_tracks irc msg nargs logon
  · exact (run_within irc msg nargs logon h005).mono fun r hr => hr.tracks

theorem handle_005_aside : Ensures (handle_005 irc msg nargs logon) fun r =>
    ∃ info base trackingEnab msghnds, r.2 = { irc with info, base, trackingEnab, msghnds } := by
  refine (noteAttrs_noted _ _ _ _).bind fun ⟨ret, haveCasemap, irc'⟩ h => ?_
  obtain ⟨_, _, rfl⟩ := h
  refine Ensures.ite (fun _ => Ensures.ok ⟨_, _, _, _, rfl⟩) fun _ =>
    Ensures.ite (fun _ => ?_) fun _ => Ensures.ok ⟨_, _, _, _, rfl⟩
  split
  · next irc₁ hinit =>
    obtain ⟨_, _, rfl⟩ := hinit ▸ (trkInit_spec _).2
    exact Ensures.ok ⟨_, _, _, _, rfl⟩
  · next irc₁ hinit =>
    obtain ⟨_, _, rfl⟩ := hinit ▸ (trkInit_spec _).2
    exact Ensures.ok ⟨_, _, _, _, rfl⟩

theorem handle_005_con : Ensures (handle_005 irc msg nargs logon) fun r => r.2.con = irc.con := by
  refine (handle_005_aside irc msg nargs logon).mono fun r hr => ?_
  obtain ⟨_, _, _, _, heq⟩ := hr
  rw [heq]

/-- What a handler does to the connection. -/
theorem run_con {R : Iconn → Iconn → Prop} (hR : OfWrites R) (h : Hnd)
    (h670 : h = .handle_670 → R irc.con (upgrade irc.con).2) :
    Ensures (run h irc msg nargs logon) fun r => R irc.con r.2.con := by
  by_cases h005 : h = .handle_005
  · subst h005
    refine (handle_005_con irc msg nargs logon).mono fun r hr => ?_
    rw [hr]
    exact hR.refl _
  · refine (run_through hR irc msg nargs logon h005 h670).mono fun r hr => ?_
    obtain ⟨_, _, _, _, _, hu, heq⟩ := hr
    rw [heq]
    exact hu

theorem run_sasl (h : Hnd) : Ensures (run h irc msg nargs logon) fun r =>
    r.2.saslMech = irc.saslMech ∧ r.2.saslMsg = irc.saslMsg := by
  by_cases h005 : h = .handle_005
  · subst h005
    refine (handle_005_aside irc msg nargs logon).mono fun r hr => ?_
    obtain ⟨_, _, _, _, heq⟩ := hr
    rw [heq]
    exact ⟨rfl, rfl⟩
  · refine (run_within irc msg nargs logon h005).mono fun r hr => ?_
    obtain ⟨_, _, _, _, _, _, heq⟩ := hr
    rw [heq]
    exact ⟨rfl, rfl⟩

theorem run_unread (h : Hnd) :
    Ensures (run h irc msg nargs logon) fun r => Unread irc.con r.2.con :=
  run_con irc msg nargs logon unread_ofWrites h fun _ => Or.inl (upgrade_keeps irc.con).rctx

end Srsirc.HandlerFrames
