import Srsirc.HandlerSpecs

namespace Srsirc.CapSpecs

open CharMap Message UserBase Context Conn CoreHandlers Capabilities Dispatch Registry HandlerSpecs
open Fallible

def CapNamed (line name : Str) : Prop :=
  ∃ w ∈ capWords (strNcpy line MAX_V3CAPLINE), w.takeWhile (· != 0x3d) = name

def Acks (msg : Msg) (name : Str) : Prop :=
  msg.fld 3 = .ok (ascii "ACK") ∧ ∃ arg, msg.fld 4 = .ok arg ∧ CapNamed (trimRight arg) name

def CapsStep (acked : Str → Prop) : List V3cap → List V3cap → Prop :=
  List.Forall₂ fun cap cap' => cap'.name = cap.name ∧ cap'.musthave = cap.musthave ∧
    (cap'.enabled = true → cap.enabled = true ∨ acked cap.name)

variable {acked acked' : Str → Prop} {caps caps' caps'' : List V3cap}

theorem CapsStep.refl (caps : List V3cap) : CapsStep acked caps caps :=
  List.forall₂_same.2 fun _ _ => ⟨rfl, rfl, Or.inl⟩

theorem CapsStep.of_eq (h : caps' = caps) : CapsStep acked caps caps' := h ▸ CapsStep.refl _

theorem CapsStep.mono (h : CapsStep acked caps caps') (ha : ∀ name, acked name → acked' name) :
    CapsStep acked' caps caps' :=
  h.imp fun _ _ ⟨hn, hm, he⟩ => ⟨hn, hm, fun h => (he h).imp_right (ha _)⟩

theorem CapsStep.trans (h : CapsStep acked caps caps') (h' : CapsStep acked caps' caps'') :
    CapsStep acked caps caps'' := by
  induction h generalizing caps'' with
  | nil => exact h'
  | cons hc _ ih =>
    obtain ⟨hn, hm, he⟩ := hc
    cases h' with
    | cons hc' h' =>
      obtain ⟨hn', hm', he'⟩ := hc'
      refine List.Forall₂.cons ⟨hn'.trans hn, hm'.trans hm, fun hen => ?_⟩ (ih h')
      obtain hen | ha := he' hen
      · exact he hen
      · exact Or.inr (hn ▸ ha)

theorem updateCap_step {name : Str} {f : V3cap → V3cap} (hn : ∀ cap, (f cap).name = cap.name)
    (hm : ∀ cap, (f cap).musthave = cap.musthave)
    (he : ∀ cap, (f cap).enabled = true → cap.enabled = true ∨ acked name) (caps : List V3cap) :
    CapsStep acked caps (updateCap name f caps) := by
  induction caps with
  | nil => exact List.Forall₂.nil
  | cons cap caps ih =>
    rw [updateCap]
    split
    · next h =>
        exact List.Forall₂.cons ⟨hn cap, hm cap, fun hen => h ▸ he cap hen⟩ (CapsStep.refl caps)
    · exact List.Forall₂.cons ⟨rfl, rfl, Or.inl⟩ ih

theorem noteCap_step (offered : Bool) (caps : List V3cap) (word : Str)
    (ha : offered = false → acked (word.takeWhile (· != 0x3d))) :
    CapsStep acked caps (noteCap offered caps word) := by
  rw [noteCap]
  apply updateCap_step
  · exact fun _ => rfl
  · exact fun _ => rfl
  · intro cap hen
    cases offered with
    | true => exact Or.inl hen
    | false => exact Or.inr (ha rfl)

theorem updateCaps_step (irc : Irc) (line : Str) (offered : Bool)
    (ha : offered = false → ∀ name, CapNamed line name → acked name) :
    CapsStep acked irc.v3caps (updateCaps irc line offered).v3caps := by
  have hfold : ∀ words :
      List Str, (∀ w ∈ words, offered = false → acked (w.takeWhile (· != 0x3d))) →
      ∀ caps, CapsStep acked caps (words.foldl (noteCap offered) caps) := by
    intro words
    induction words with
    | nil => exact fun _ => CapsStep.refl
    | cons w words ih =>
      intro hw caps
      exact (noteCap_step offered caps w (hw w List.mem_cons_self)).trans
        (ih (fun w' hw' => hw w' (List.mem_cons_of_mem _ hw')) _)
  exact hfold _ (fun w hw ho => ha ho _ ⟨w, hw, rfl⟩) irc.v3caps

structure CapPlain (acked : Str → Prop) (irc : Irc) (r : Flags × Irc) : Prop where
  kept : Kept irc r.2
  caps : CapsStep acked irc.v3caps r.2.v3caps
  con : r.1.has CANT_PROCEED = false → Wrote irc.con r.2.con

theorem Plain.capPlain {irc : Irc} {r : Flags × Irc} (h : Plain irc r) : CapPlain acked irc r :=
  ⟨h.kept, CapsStep.of_eq h.caps, h.con⟩

theorem CapPlain.after {irc irc' : Irc} {r : Flags × Irc} (hp : CapPlain acked irc' r)
    (hk : Kept irc irc') (hc : CapsStep acked irc.v3caps irc'.v3caps) (hcon : irc'.con = irc.con) :
    CapPlain acked irc r :=
  ⟨hk.trans hp.kept, hc.trans hp.caps, fun hr => hcon ▸ hp.con hr⟩

theorem updateCaps_plain (irc : Irc) (line : Str) (offered : Bool) (flags : Flags)
    (ha : offered = false → ∀ name, CapNamed line name → acked name) :
    CapPlain acked irc (flags, updateCaps irc line offered) :=
  ⟨Kept.of_eq rfl rfl, updateCaps_step irc line offered ha, fun _ => Wrote.refl _⟩

theorem requestCaps_plain (irc : Irc) : Plain irc (requestCaps irc) := by
  rw [requestCaps]
  split
  · exact (Alike.refl _).plain _
  · exact (writeOr_plain _ _ _).after ⟨rfl, rfl, rfl, rfl⟩

theorem handle_CAP_LS_plain (irc : Irc) (msg : Msg) (nargs : Nat) (logon : Bool) :
    Ensures (handle_CAP_LS irc msg nargs logon) fun r => CapPlain acked irc r ∧
      r.2.con = irc.con := by
  have hls : ∀ flags line, CapPlain acked irc (flags, updateCaps irc line true) ∧
      (updateCaps irc line true).con = irc.con := fun flags line =>
    ⟨updateCaps_plain irc line true flags fun h => absurd h (by decide), rfl⟩
  refine Ensures.ite (fun _ => Ensures.ok ⟨Plain.capPlain ((Alike.refl _).plain _), rfl⟩) fun _ =>
    ?_
  refine Ensures.ite (fun _ => Ensures.ok ⟨Plain.capPlain ((Alike.refl _).plain _), rfl⟩) fun _ =>
    ?_
  refine Ensures.value fun arg => Ensures.ite (fun _ => ?_) fun _ => Ensures.ok (hls _ _)
  exact Ensures.value fun _ => Ensures.ok (hls _ _)

theorem handle_CAP_ACK_plain (irc : Irc) (msg : Msg) (nargs : Nat)
    (h3 : msg.fld 3 = .ok (ascii "ACK")) :
    Ensures (handle_CAP_ACK irc msg nargs) fun r => CapPlain (Acks msg) irc r ∧
      r.2.con = irc.con := by
  refine Ensures.ite (fun _ => Ensures.ok ⟨Plain.capPlain ((Alike.refl _).plain _), rfl⟩) fun _ =>
    ?_
  refine Ensures.bind (p := fun arg => msg.fld 4 = .ok arg) (fun _ => id) fun arg harg => ?_
  refine Ensures.ite (fun _ => Ensures.ok ⟨Plain.capPlain ((Alike.refl _).plain _), rfl⟩) fun _ =>
    ?_
  exact Ensures.ok ⟨updateCaps_plain irc _ false 0 fun _ _ hn => ⟨h3, arg, harg, hn⟩, rfl⟩

theorem handle_CAP_plain (irc : Irc) (msg : Msg) (nargs : Nat) (logon : Bool) :
    Ensures (handle_CAP irc msg nargs logon) (CapPlain (Acks msg) irc) := by
  have hthen : ∀ {r r' : Flags × Irc}, CapPlain (Acks msg) irc r ∧ r.2.con = irc.con →
      Plain r.2 r' →
      CapPlain (Acks msg) irc r' := fun h hp => (Plain.capPlain hp).after h.1.kept h.1.caps h.2
  refine Ensures.ite (fun _ => Ensures.ok (Plain.capPlain ((Alike.refl _).plain _))) fun _ => ?_
  refine Ensures.bind (p := fun subcmd => msg.fld 3 = .ok subcmd) (fun _ => id) fun subcmd h3 => ?_
  refine Ensures.ite (fun _ => ?_) fun _ => Ensures.ite (fun hack => ?_) fun _ => ?_
  · refine (@handle_CAP_LS_plain (Acks msg) irc msg nargs logon).bind fun r h => ?_
    refine Ensures.ite (fun _ => Ensures.ok h.1) fun _ => Ensures.ite (fun _ => ?_) fun _ => ?_
    · exact Ensures.ok (hthen h ((Alike.refl _).plain _))
    · exact Ensures.ok (hthen h (requestCaps_plain _))
  · refine (handle_CAP_ACK_plain irc msg nargs (hack ▸ h3)).bind fun r h => ?_
    refine Ensures.ite (fun _ => Ensures.ok h.1) fun _ => Ensures.ite (fun _ => ?_) fun _ => ?_
    · exact Ensures.ok (hthen h (writeOr_plain _ _ _))
    · exact Ensures.ok (hthen h (concludeSaslCap_plain _))
  · refine Ensures.ite (fun _ => Ensures.ok ?_) fun _ => Ensures.ok ?_
    · exact Plain.capPlain ((Alike.refl _).plain _)
    · exact Plain.capPlain ((Alike.refl _).plain _)

def Upgraded (con con' : Iconn) : Prop :=
  ∃ world sent, con' = { con with
    world, sent, sctx := true, shnd := true, ssl := true, handshakes := con.handshakes + 1 }

theorem upgrade_spec {con con' : Iconn} (h : upgrade con = (true, con')) : Upgraded con con' := by
  rw [upgrade] at h
  dsimp only [askBlocking, askMksslctx, sslize] at h
  split at h
  · cases h
  · next h₁ =>
    obtain ⟨_, rfl⟩ := Prod.mk.inj h₁
    split at h
    · cases h
    · next h₂ =>
      obtain ⟨_, rfl⟩ := Prod.mk.inj h₂
      split at h
      · cases h
      · next h₃ =>
        obtain ⟨hs, rfl⟩ := Prod.mk.inj h₃
        split at h
        · cases h
        · next h₄ =>
          obtain ⟨_, rfl⟩ := Prod.mk.inj h₄
          obtain ⟨_, rfl⟩ := Prod.mk.inj h
          simp only [hs]
          exact ⟨_, _, rfl⟩

theorem Upgraded.wrote {con con' con'' : Iconn} (h : Upgraded con con') (h' : Wrote con' con'') :
    Upgraded con con'' := by
  obtain ⟨_, _, rfl⟩ := h
  obtain ⟨_, _, rfl⟩ := h'
  exact ⟨_, _, rfl⟩

structure Secures (irc : Irc) (r : Flags × Irc) : Prop where
  kept : Kept irc r.2
  caps : r.2.v3caps = irc.v3caps
  con : r.1.has CANT_PROCEED = false → Upgraded irc.con r.2.con

theorem handle_670_secures (irc : Irc) (msg : Msg) (nargs : Nat) (logon : Bool) :
    Ensures (handle_670 irc msg nargs logon) (Secures irc) := by
  rw [handle_670]
  split
  · exact Ensures.ok ⟨Kept.of_eq rfl rfl, rfl, fun h =>
      absurd (show IO_ERR.has CANT_PROCEED = false from h) (by decide)⟩
  · next con h =>
    refine Ensures.ite (fun _ => ?_) fun _ => ?_
    · exact Ensures.ok ⟨Kept.of_eq rfl rfl, rfl, fun _ => upgrade_spec h⟩
    · obtain ⟨hk, hc, hw⟩ := concludeSaslCap_plain { irc with con }
      exact Ensures.ok ⟨⟨hk.dumb, hk.grown⟩, hc, fun hr => (upgrade_spec h).wrote (hw hr)⟩

/-- What any handler does, in terms of which one it is. -/
structure Conduct (h : Hnd) (msg : Msg) (irc : Irc) (r : Flags × Irc) : Prop where
  kept : Kept irc r.2
  caps : CapsStep (fun name => h = .handle_CAP ∧ Acks msg name) irc.v3caps r.2.v3caps
  wrote : r.1.has CANT_PROCEED = false → h ≠ .handle_670 → Wrote irc.con r.2.con
  upgraded : r.1.has CANT_PROCEED = false → h = .handle_670 → Upgraded irc.con r.2.con

theorem run_conduct (h : Hnd) (irc : Irc) (msg : Msg) (nargs : Nat) (logon : Bool) :
    Ensures (run h irc msg nargs logon) (Conduct h msg irc) := by
  by_cases h670 : h = .handle_670
  · subst h670
    refine (handle_670_secures irc msg nargs logon).mono fun r hr => ?_
    exact ⟨hr.kept, CapsStep.of_eq hr.caps, fun _ hne => absurd rfl hne, fun hc _ => hr.con hc⟩
  · by_cases hcap : h = .handle_CAP
    · subst hcap
      refine (handle_CAP_plain irc msg nargs logon).mono fun r hr => ?_
      exact ⟨hr.kept, hr.caps.mono fun _ ha => ⟨rfl, ha⟩, fun hc _ => hr.con hc,
        fun _ he => absurd he (by decide)⟩
    · refine (run_plain h670 hcap irc msg nargs logon).mono fun r hr => ?_
      exact ⟨hr.kept, CapsStep.of_eq hr.caps, fun hc _ => hr.con hc, fun _ he => absurd he h670⟩

end Srsirc.CapSpecs
