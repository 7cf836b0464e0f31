import Srsirc.CapSpecs
import Srsirc.HandlerCalls

namespace Srsirc.LogonRun

open CharMap Message ReadBuffer Context Conn CoreHandlers Dispatch Connect Registry HandlerSpecs
open CapSpecs
open HandlerCalls Fallible

theorem has_or (r r' flag : Flags) : (r ||| r').has flag = (r.has flag || r'.has flag) := by
  have hdist : (r ||| r') &&& flag = (r &&& flag) ||| (r' &&& flag) :=
    UInt16.toBitVec_inj.1 BitVec.and_or_distrib_right
  rw [Flags.has, hdist, Flags.has, Flags.has]
  by_cases h : r &&& flag = 0 <;> simp [h]

inductive Rounds (msg : Msg) (cmd : Str) (logon : Bool) : List Hnd → Irc → Irc → Prop
  | nil (irc : Irc) : Rounds msg cmd logon [] irc irc
  | cons {e : Msghnd} {r : Flags} {hs : List Hnd} {irc irc' irc'' : Irc}
      (hmem : some e ∈ irc.msghnds.val) (hcmd : e.cmd = cmd)
      (hrun : run e.hndfn irc msg msg.nargs logon = .ok (r, irc'))
      (hr : r.has CANT_PROCEED = false) (h : Rounds msg cmd logon hs irc' irc'') :
      Rounds msg cmd logon (e.hndfn :: hs) irc irc''

variable {msg : Msg} {cmd : Str} {lo : Bool}

/-- The loop over the table is such rounds, and no handler that counts is left out. -/
theorem dispatch_rounds (k : Nat) {i : Nat} {res res' : Flags} {irc irc' : Irc}
    (h : dispatch msg cmd lo k i res irc = .ok (res', irc')) (hr : res'.has CANT_PROCEED = false) :
    Rounds msg cmd lo ((dispatchCalls msg cmd lo k i res irc).map Prod.fst) irc irc' ∧
      ∀ (j : Nat) (e : Msghnd), i ≤ j → j < i + k → irc.msghnds.val[j]? = some (some e) →
        e.cmd = cmd →
        e.module ≠ .track → e.hndfn ∈ (dispatchCalls msg cmd lo k i res irc).map Prod.fst := by
  induction k generalizing i res irc with
  | zero =>
    cases h
    exact ⟨Rounds.nil _, fun j e hij hj => by omega⟩
  | succ k ih =>
    rw [dispatch] at h
    split at h
    · next hend =>
      rw [dispatchCalls, hend]
      cases h
      refine ⟨Rounds.nil _, fun j e hij hj he => ?_⟩
      have hlen := List.getElem?_eq_none_iff.1 hend
      have hjlen := (List.getElem?_eq_some_iff.1 he).1
      omega
    · next hfree =>
      rw [dispatchCalls, hfree]
      obtain ⟨hrounds, hall⟩ := ih h
      refine ⟨hrounds, fun j e hij hj he => ?_⟩
      obtain rfl | hlt := Nat.eq_or_lt_of_le hij
      · rw [hfree] at he
        cases he
      · exact hall j e hlt (by omega) he
    · next e' hslot =>
      rw [dispatchCalls, hslot]
      dsimp only
      split at h
      · next hne =>
        rw [if_pos hne]
        obtain ⟨hrounds, hall⟩ := ih h
        refine ⟨hrounds, fun j e hij hj he hcmd => ?_⟩
        obtain rfl | hlt := Nat.eq_or_lt_of_le hij
        · rw [hslot] at he
          cases he
          exact absurd hcmd hne
        · exact hall j e hlt (by omega) he hcmd
      · next hcmd' =>
        obtain ⟨⟨r, irc₁⟩, hrun, h⟩ := bind_ok_iff.1 h
        rw [if_neg hcmd', hrun]
        dsimp only at h ⊢
        split at h
        · next hc =>
          cases h
          rw [hc] at hr
          cases hr
        · next hc =>
          rw [if_neg hc]
          have hrr : r.has CANT_PROCEED = false := by
            rw [Bool.not_eq_true, has_or, Bool.or_eq_false_iff] at hc
            exact hc.2
          have hkept := (run_conduct _ irc msg msg.nargs lo _ hrun).kept
          obtain ⟨hrounds, hall⟩ := ih h
          refine ⟨Rounds.cons (List.mem_of_getElem? hslot) (not_not.1 hcmd') hrun hrr hrounds,
            fun j e hij hj he hcmd hm => ?_⟩
          obtain rfl | hlt := Nat.eq_or_lt_of_le hij
          · rw [hslot] at he
            cases he
            exact List.mem_cons_self
          · exact List.mem_cons_of_mem _
              (hall j e hlt (by omega) (hkept.grown.slots j e he hm) hcmd hm)

theorem msgHandle_rounds {users : UserHnds} {flags : Flags} {irc irc' : Irc}
    (h : msgHandle users irc msg true = .ok (flags, irc')) (hr : flags.has CANT_PROCEED = false) :
    ∃ cmd, msg.fld 1 = .ok cmd ∧
      Rounds msg cmd true ((msgCalls users irc msg true).map Prod.fst) irc irc' ∧
      ∀ e, some e ∈ irc.msghnds.val → e.cmd = cmd → e.module ≠ .track →
        e.hndfn ∈ (msgCalls users irc msg true).map Prod.fst := by
  simp only [msgHandle, if_true, Bool.not_true, if_false, Bool.false_eq_true] at h
  obtain ⟨cmd, hcmd, h⟩ := bind_ok_iff.1 h
  obtain ⟨⟨res, irc₁⟩, hdis, h⟩ := bind_ok_iff.1 h
  have heq : res = flags ∧ irc₁ = irc' := by
    dsimp only at h
    split at h <;> · cases h; exact ⟨rfl, rfl⟩
  obtain ⟨rfl, rfl⟩ := heq
  obtain ⟨hrounds, hall⟩ := dispatch_rounds _ hdis hr
  rw [msgCalls, if_pos rfl]
  dsimp only
  rw [hcmd]
  refine ⟨cmd, rfl, hrounds, fun e he => ?_⟩
  obtain ⟨j, hj⟩ := List.getElem?_of_mem he
  have hlen := (List.getElem?_eq_some_iff.1 hj).1
  exact hall j e (Nat.zero_le j) (by omega) hj

theorem dispatch_has {flag : Flags} (k : Nat) {i : Nat} {res : Flags} {irc : Irc} {r : Flags × Irc}
    (h : dispatch msg cmd lo k i res irc = .ok r) :
    r.1.has flag = true ↔ res.has flag = true ∨ ∃ call ∈ dispatchCalls msg cmd lo k i res irc, ∃ r',
      run call.1 call.2 msg msg.nargs lo = .ok r' ∧ r'.1.has flag = true := by
  induction k generalizing i res irc with
  | zero =>
    cases h
    simp [dispatchCalls]
  | succ k ih =>
    rw [dispatch] at h
    split at h
    · next hend =>
      rw [dispatchCalls, hend]
      cases h
      simp
    · next hfree =>
      rw [dispatchCalls, hfree]
      exact ih h
    · next e hslot =>
      rw [dispatchCalls, hslot]
      dsimp only
      split at h
      · next hne =>
        rw [if_pos hne]
        exact ih h
      · next hcmd' =>
        obtain ⟨r₁, hrun, h⟩ := bind_ok_iff.1 h
        have hfirst : (∃ r', run e.hndfn irc msg msg.nargs lo = .ok r' ∧ r'.1.has flag = true) ↔
            r₁.1.has flag = true := by
          simp [hrun]
        rw [if_neg hcmd', hrun]
        simp only [List.exists_mem_cons_iff, hfirst]
        dsimp only at h
        split at h
        · next hc =>
          rw [if_pos hc]
          cases h
          simp [has_or]
        · next hc =>
          rw [if_neg hc, ih h, has_or, Bool.or_eq_true, or_assoc]

theorem msgHandle_has {users : UserHnds} {flag flags : Flags} {irc irc' : Irc}
    (h : msgHandle users irc msg true = .ok (flags, irc')) :
    flags.has flag = true ↔ ∃ call ∈ msgCalls users irc msg true, ∃ r,
      run call.1 call.2 msg msg.nargs true = .ok r ∧ r.1.has flag = true := by
  simp only [msgHandle, if_true, Bool.not_true, if_false, Bool.false_eq_true] at h
  obtain ⟨cmd, hcmd, h⟩ := bind_ok_iff.1 h
  obtain ⟨⟨res, irc₁⟩, hdis, h⟩ := bind_ok_iff.1 h
  have heq : res = flags := by
    dsimp only at h
    split at h <;> · cases h; rfl
  have hzero : ¬Flags.has 0 flag = true := by simp [Flags.has]
  rw [msgCalls, if_pos rfl]
  dsimp only
  rw [hcmd, ← heq]
  simpa [hzero] using @dispatch_has _ _ _ flag _ _ _ _ _ hdis

theorem msgHandle_ran {users : UserHnds} {J : Irc → Prop} {irc : Irc} {r : Flags × Irc}
    (hstep : ∀ h irc, J irc → Ensures (run h irc msg msg.nargs true) fun r => J r.2) (hj : J irc)
    (h : msgHandle users irc msg true = .ok r) :
    ∃ cmd, msg.fld 1 = .ok cmd ∧ ∀ call ∈ msgCalls users irc msg true, J call.2 ∧
      (∃ e, some e ∈ call.2.msghnds.val ∧ e.hndfn = call.1 ∧ e.cmd = cmd) ∧
        ∃ r', run call.1 call.2 msg msg.nargs true = .ok r' := by
  simp only [msgHandle, if_true, Bool.not_true, if_false, Bool.false_eq_true] at h
  obtain ⟨cmd, hcmd, h⟩ := bind_ok_iff.1 h
  obtain ⟨_, hdis, _⟩ := bind_ok_iff.1 h
  rw [msgCalls, if_pos rfl]
  dsimp only
  rw [hcmd]
  exact ⟨cmd, rfl, dispatch_ran hstep _ hj hdis⟩

theorem Rounds.table {hs : List Hnd} {irc irc' : Irc} (h : Rounds msg cmd lo hs irc irc')
    (ht : Table irc) : Table irc' ∧ irc'.dumb = irc.dumb ∧
      ∀ x ∈ hs, ∃ c m, (c, x) ∈ hndsOf irc.dumb m ∧ cmd = ascii c := by
  induction h with
  | nil => exact ⟨ht, rfl, fun _ hx => absurd hx List.not_mem_nil⟩
  | @cons e r hs irc irc' irc'' hmem hcmd hrun _ _ ih =>
    have hkept := (run_conduct _ irc msg msg.nargs lo _ hrun).kept
    obtain ⟨ht', hd, hall⟩ := ih (ht.kept hkept)
    refine ⟨ht', hd.trans hkept.dumb, fun x hx => ?_⟩
    obtain rfl | hx := List.mem_cons.1 hx
    · obtain ⟨c, hc, hec⟩ := ht.known e hmem
      exact ⟨c, e.module, hc, hcmd ▸ hec⟩
    · obtain ⟨c, m, hc, hcm⟩ := hall x hx
      exact ⟨c, m, hkept.dumb ▸ hc, hcm⟩

def Steady (con con' : Iconn) : Prop :=
  ∃ world peer rctx colonTrail sent, con' = { con with world, peer, rctx, colonTrail, sent }

theorem Steady.refl (con : Iconn) : Steady con con := ⟨_, _, _, _, _, rfl⟩

theorem Steady.trans {con con' con'' : Iconn} (h : Steady con con') (h' : Steady con' con'') :
    Steady con con'' := by
  obtain ⟨_, _, _, _, _, rfl⟩ := h
  obtain ⟨_, _, _, _, _, rfl⟩ := h'
  exact ⟨_, _, _, _, _, rfl⟩

theorem Wrote.steady {con con' : Iconn} (h : Wrote con con') : Steady con con' := by
  obtain ⟨_, _, rfl⟩ := h
  exact ⟨_, _, _, _, _, rfl⟩

theorem askInTime_steady {con con' : Iconn} {ok : Bool} (h : askInTime con = (ok, con')) :
    Steady con con' := by
  cases h
  exact ⟨_, _, _, _, _, rfl⟩

theorem setSource_steady (con : Iconn) (src : Source) : Steady con (setSource con src) := by
  rw [setSource]
  split <;> exact ⟨_, _, _, _, _, rfl⟩

theorem connRead_steady {con con' : Iconn} {ntags : Nat} {inc : Incoming}
    (h : connRead con ntags = some (inc, con')) : inc = .failed ∨ Steady con con' := by
  rw [connRead] at h
  split at h
  · cases h
    exact Or.inl rfl
  · split at h
    · cases h
    · next reply rctx src _ =>
      have hs : Steady con { setSource con src with rctx } :=
        (setSource_steady con src).trans ⟨_, _, _, _, _, rfl⟩
      dsimp only at h
      split at h
      · cases h
        exact Or.inr hs
      · split at h
        · cases h
          exact Or.inl rfl
        · cases h
          exact Or.inr (hs.trans ⟨_, _, _, _, _, rfl⟩)

theorem ircWrite_steady {irc irc' : Irc} {line : Str} (h : ircWrite irc line = (true, irc')) :
    ∃ con, irc' = { irc with con } ∧ Steady irc.con con := by
  rw [ircWrite] at h
  split at h
  · cases h
  · next con heq =>
    cases h
    exact ⟨con, rfl, Wrote.steady (connWrite_wrote heq)⟩

theorem sendLogon_steady {irc irc' : Irc} (h : sendLogon irc = (true, irc')) :
    ∃ con, irc' = { irc with con } ∧ Steady irc.con con := by
  rw [sendLogon] at h
  split at h
  · cases h
  · split at h
    · cases h
    · split at h
      · cases h
      · exact ircWrite_steady h

theorem greet_steady {irc irc' : Irc} (h : greet irc = (true, irc')) :
    ∃ con, irc' = { irc with con } ∧ Steady irc.con con := by
  rw [greet] at h
  split at h
  · split at h
    next ok con hwrite =>
    obtain ⟨rfl, rfl⟩ := Prod.mk.inj h
    exact ⟨con, rfl, Wrote.steady (connWrite_wrote hwrite)⟩
  · exact sendLogon_steady h

section Rule

variable {users : UserHnds} {sasl : Bool} {I : Irc → List Msg → Prop}
  (hcon : ∀ irc con msgs, I irc msgs → Steady irc.con con → I { irc with con } msgs)
  (hmsg : ∀ irc irc' msg flags msgs, I irc msgs → msgHandle users irc msg true = .ok (flags, irc') →
    flags.has CANT_PROCEED = false → I irc' (msgs ++ [msg]))

include hcon hmsg

theorem heed_rule {irc irc' : Irc} {p p' : Progress} {msgs : List Msg} (hi : I irc msgs)
    (h : heed users irc p msg = .ok (some p', irc')) : I irc' (msgs ++ [msg]) := by
  rw [heed] at h
  split at h
  · cases h
  · obtain ⟨⟨flags, irc₁⟩, hh, h⟩ := bind_ok_iff.1 h
    dsimp only at h
    split at h
    · cases h
    · next hc =>
      have hi₁ := hmsg irc irc₁ msg flags msgs hi hh (by simpa using hc)
      split at h
      · split at h
        · cases h
        · next hsend =>
          cases h
          obtain ⟨con, rfl, hs⟩ := sendLogon_steady hsend
          exact hcon irc₁ con _ hi₁ hs
      · cases h
        exact hi₁

/-- What reading and handling messages preserves holds after a successful logon. -/
theorem logon_rule (k : Nat) {irc : Irc} {p : Progress} {msgs : List Msg} {c : Connected}
    (hi : I irc msgs) (h : logon users sasl k irc p msgs = some (.ok c)) (hc : c.ok = true) :
    I c.irc c.msgs := by
  induction k generalizing irc p msgs with
  | zero => cases h
  | succ k ih =>
    rw [logon] at h
    split at h
    · cases h
      cases hc
    · next con hask =>
      have hi' := hcon irc con msgs hi (askInTime_steady hask)
      split at h
      · cases h
      · cases h
        cases hc
      · next con hread =>
        refine ih (hcon _ con msgs hi' ?_) h
        exact (connRead_steady hread).resolve_left (by simp)
      · next msg tags con hread =>
        have hs := (connRead_steady hread).resolve_left (by simp)
        have hi'' := hcon _ con msgs hi' hs
        split at h
        · cases h
        · cases h
          cases hc
        · next p' irc' hheed =>
          have hi₃ := heed_rule hcon hmsg hi'' hheed
          split at h
          · cases h
            exact hi₃
          · exact ih hi₃ h

end Rule

/-- How `irc_connect` gets to its loop, and past it. -/
theorem connect_cases {users : UserHnds} {k : Nat} {irc : Irc} {c : Connected}
    (h : connect users k irc = some (.ok c)) (hc : c.ok = true) :
    ∃ irc₁, openConn irc = (true, irc₁) ∧
      (irc.dumb = true ∧ c.irc = irc₁ ∧ c.msgs = [] ∨
        irc.dumb = false ∧ ∃ info con sasl p, Steady irc₁.con con ∧
          logon users sasl k { irc₁ with info, con } p [] = some (.ok c)) := by
  rw [connect] at h
  split at h
  · cases h
    cases hc
  · next irc₁ hopen =>
    obtain ⟨_, _, hd, _⟩ := openConn_spec hopen
    refine ⟨irc₁, hopen, ?_⟩
    split at h
    · next hdumb =>
      cases h
      exact Or.inl ⟨hd ▸ hdumb, rfl, rfl⟩
    · next hdumb =>
      refine Or.inr ⟨by simpa [hd] using hdumb, ?_⟩
      split at h
      · cases h
        cases hc
      · next irc₂ hgreet =>
        obtain ⟨con, rfl, hs⟩ := greet_steady hgreet
        exact ⟨_, _, _, _, hs, h⟩

end Srsirc.LogonRun
