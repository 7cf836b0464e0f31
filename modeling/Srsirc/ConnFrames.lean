import Srsirc.Capabilities

namespace Srsirc.ConnFrames

open Message ReadBuffer Context Conn Capabilities

/-- What is the same while a connection is set up, or switched to TLS. -/
structure Frame (con con' : Iconn) : Prop where
  rctx : con'.rctx = con.rctx
  sent : con'.sent = con.sent
  write : con'.world.write = con.world.write
  ssl : con'.ssl = con.ssl
  online : con'.online = con.online

def Ends (con : Iconn) (last : Iconn → Iconn) (r : Bool × Iconn) : Prop :=
  ∃ con', Frame con con' ∧ (r = (false, con') ∨ r = (true, last con'))

section Steps

variable {con con' con'' : Iconn} {last : Iconn → Iconn} {ok : Bool} {r : Bool × Iconn}

theorem Frame.refl (con : Iconn) : Frame con con := ⟨rfl, rfl, rfl, rfl, rfl⟩

theorem Frame.trans (h : Frame con con') (h' : Frame con' con'') : Frame con con'' :=
  ⟨h'.rctx.trans h.rctx, h'.sent.trans h.sent, h'.write.trans h.write, h'.ssl.trans h.ssl,
    h'.online.trans h.online⟩

theorem Ends.fails (h : Frame con con') : Ends con last (false, con') := ⟨con', h, Or.inl rfl⟩

theorem Ends.succeeds (h : Frame con con') : Ends con last (true, last con') :=
  ⟨con', h, Or.inr rfl⟩

theorem Ends.hangs (h : Frame con con') : Ends con last (hangUp con') :=
  .fails ⟨h.rctx, h.sent, h.write, h.ssl, h.online⟩

theorem Ends.behind (h : Frame con con') (h' : Ends con' last r) : Ends con last r := by
  obtain ⟨con'', hframe, hr⟩ := h'
  exact ⟨con'', h.trans hframe, hr⟩

theorem askBlocking_frame (h : askBlocking con = (ok, con')) : Frame con con' := by
  cases h
  exact ⟨rfl, rfl, rfl, rfl, rfl⟩

theorem askProxy_frame (h : askProxy con = (ok, con')) : Frame con con' := by
  cases h
  exact ⟨rfl, rfl, rfl, rfl, rfl⟩

theorem askInTime_frame (h : askInTime con = (ok, con')) : Frame con con' := by
  cases h
  exact ⟨rfl, rfl, rfl, rfl, rfl⟩

theorem askMksslctx_frame (h : askMksslctx con = (ok, con')) : Frame con con' := by
  cases h
  exact ⟨rfl, rfl, rfl, rfl, rfl⟩

theorem sslize_frame (h : sslize con = (ok, con')) : Frame con con' := by
  cases h
  exact ⟨rfl, rfl, rfl, rfl, rfl⟩

theorem consocket_frame (con : Iconn) : Frame con (consocket con).2 := by
  rw [consocket]
  split <;> exact ⟨rfl, rfl, rfl, rfl, rfl⟩

end Steps

theorem connectSsl_ends (con : Iconn) :
    Ends con (fun con => { con with online := true }) (connectSsl con) := by
  rw [connectSsl]
  split
  · next h => exact .hangs (askBlocking_frame h)
  · next h =>
    have h₁ := askBlocking_frame h
    split
    · next h => exact .hangs (h₁.trans (sslize_frame h))
    · next h =>
      have h₂ := h₁.trans (sslize_frame h)
      split
      · next h => exact .hangs (h₂.trans (askBlocking_frame h))
      · next h => exact .succeeds (h₂.trans (askBlocking_frame h))

theorem connectDirect_ends (con : Iconn) :
    Ends con (fun con => { con with online := true }) (connectDirect con) := by
  rw [connectDirect]
  split
  · exact connectSsl_ends con
  · exact .succeeds (.refl con)

/-- Connecting fails, or takes the connection online. -/
theorem connConnect_ends (con : Iconn) :
    Ends con (fun con => { con with online := true }) (connConnect con) := by
  rw [connConnect]
  dsimp only
  split
  · exact .fails (.refl con)
  · split
    · exact .fails (consocket_frame con)
    · obtain ⟨hrctx, hsent, hwrite, hssl, honline⟩ := consocket_frame con
      have h₁ : Frame con { (consocket con).2 with
          sck := (consocket con).1.sck, obtained := (consocket con).1.obtained, shnd := false } :=
        ⟨hrctx, hsent, hwrite, hssl, honline⟩
      split
      · split
        · next h => exact .hangs (h₁.trans (askInTime_frame h))
        · next h =>
          have h₂ := h₁.trans (askInTime_frame h)
          split
          · next h => exact .hangs (h₂.trans (askBlocking_frame h))
          · next h =>
            have h₃ := h₂.trans (askBlocking_frame h)
            split
            · next h => exact .hangs (h₃.trans (askProxy_frame h))
            · next h => exact .behind (h₃.trans (askProxy_frame h)) (connectDirect_ends _)
      · exact .behind h₁ (connectDirect_ends _)

theorem upgrade_ends (con : Iconn) :
    Ends con (fun con => { con with ssl := true }) (upgrade con) := by
  rw [upgrade]
  split
  · next h => exact .fails (askBlocking_frame h)
  · next h =>
    have h₁ := askBlocking_frame h
    split
    · next con₂ h =>
      have h₂ := h₁.trans (askMksslctx_frame h)
      exact .fails ⟨h₂.rctx, h₂.sent, h₂.write, h₂.ssl, h₂.online⟩
    · next con₂ h =>
      obtain ⟨hrctx, hsent, hwrite, hssl, honline⟩ := h₁.trans (askMksslctx_frame h)
      have h₂ : Frame con { con₂ with sctx := true } := ⟨hrctx, hsent, hwrite, hssl, honline⟩
      split
      · next h => exact .fails (h₂.trans (sslize_frame h))
      · next h =>
        have h₃ := h₂.trans (sslize_frame h)
        split
        · next h => exact .fails (h₃.trans (askBlocking_frame h))
        · next h => exact .succeeds (h₃.trans (askBlocking_frame h))

end Srsirc.ConnFrames
