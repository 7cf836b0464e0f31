import Srsirc.LogonRun

namespace Srsirc.StartTls

open CharMap Message ReadBuffer Context Conn CoreHandlers Capabilities Dispatch Connect Registry
open HandlerSpecs
open CapSpecs LogonRun Fallible

/-- The connection has seen `n` TLS handshakes. -/
structure Carried (n : Nat) (con con' : Iconn) : Prop where
  handshakes : con'.handshakes = con.handshakes + n
  shnd : con'.shnd = (con.shnd || decide (0 < n))

theorem Carried.trans {n m : Nat} {con con' con'' : Iconn} (h : Carried n con con')
    (h' : Carried m con' con'') : Carried (n + m) con con'' := by
  refine ⟨?_, ?_⟩
  · rw [h'.handshakes, h.handshakes, Nat.add_assoc]
  · rw [h'.shnd, h.shnd, Bool.or_assoc, ← Bool.decide_or]
    congr 2
    simp only [eq_iff_iff]
    omega

theorem Steady.carried {con con' : Iconn} (h : Steady con con') : Carried 0 con con' := by
  obtain ⟨_, _, _, _, _, rfl⟩ := h
  exact ⟨rfl, by simp⟩

theorem Upgraded.carried {con con' : Iconn} (h : Upgraded con con') : Carried 1 con con' := by
  obtain ⟨_, _, rfl⟩ := h
  exact ⟨rfl, by simp⟩

/-- Only the handler of 670 does handshakes. -/
theorem Rounds.carried {msg : Msg} {cmd : Str} {lo : Bool} {hs : List Hnd} {irc irc' : Irc}
    (h : Rounds msg cmd lo hs irc irc') : Carried (hs.count .handle_670) irc.con irc'.con := by
  induction h with
  | nil => exact Steady.carried (Steady.refl _)
  | @cons e r hs irc irc' irc'' _ _ hrun hr _ ih =>
    have hconduct := run_conduct _ irc msg msg.nargs lo _ hrun
    rw [List.count_cons, Nat.add_comm]
    refine Carried.trans ?_ ih
    by_cases h670 : e.hndfn = .handle_670
    · simpa [h670] using Upgraded.carried (hconduct.upgraded hr h670)
    · simpa [h670] using Steady.carried (Wrote.steady (hconduct.wrote hr h670))

theorem cmd_670 {dumb : Bool} {m : Module} {c : String} (h : (c, .handle_670) ∈ hndsOf dumb m) :
    c = "670" := by
  cases dumb <;> cases m <;> simp_all [hndsOf, coreHnds, v3Hnds, trackHnds]

/-- What holds in the loop: a handshake is behind us exactly if a 670 is. -/
structure Upheld (con₀ : Iconn) (irc : Irc) (msgs : List Msg) : Prop where
  table : Table irc
  dumb : irc.dumb = false
  carried : ∃ n, Carried n con₀ irc.con ∧ (0 < n ↔ ∃ msg ∈ msgs, msg.fld 1 = .ok (ascii "670"))

theorem Upheld.steady {con₀ con : Iconn} {irc : Irc} {msgs : List Msg} (h : Upheld con₀ irc msgs)
    (hs : Steady irc.con con) : Upheld con₀ { irc with con } msgs := by
  obtain ⟨n, hn, hiff⟩ := h.carried
  exact ⟨⟨h.table.known, h.table.has⟩, h.dumb, n, hn.trans (Steady.carried hs), hiff⟩

theorem Upheld.handled {con₀ : Iconn} {irc irc' : Irc} {users : UserHnds} {msg : Msg}
    {flags : Flags}
    {msgs : List Msg} (h : Upheld con₀ irc msgs) (hh : msgHandle users irc msg true =
      .ok (flags, irc'))
    (hr : flags.has CANT_PROCEED = false) : Upheld con₀ irc' (msgs ++ [msg]) := by
  obtain ⟨cmd, hcmd, hrounds, hall⟩ := msgHandle_rounds hh hr
  generalize (HandlerCalls.msgCalls users irc msg true).map Prod.fst = hs at hrounds hall
  obtain ⟨ht, hd, hknown⟩ := hrounds.table h.table
  obtain ⟨n, hn, hiff⟩ := h.carried
  have h670 : 0 < hs.count .handle_670 ↔ cmd = ascii "670" := by
    rw [List.count_pos_iff]
    constructor
    · intro hmem
      obtain ⟨c, m, hc, hcm⟩ := hknown _ hmem
      rw [hcm, cmd_670 hc]
    · intro hc
      have hhas := h.table.has "670" .handle_670 .v3 (by decide) (by rw [h.dumb]; decide)
      exact hall _ hhas hc.symm (by decide)
  refine ⟨ht, hd.trans h.dumb, _, hn.trans (Rounds.carried hrounds), ?_⟩
  simp only [List.mem_append, List.mem_singleton, or_and_right, exists_or, exists_eq_left, hcmd,
    Except.ok.injEq, ← hiff, ← h670]
  omega

theorem connectSsl_carried {con con' : Iconn} (h : connectSsl con = (true, con')) :
    con'.handshakes = con.handshakes + 1 ∧ con'.shnd = true := by
  rw [connectSsl] at h
  dsimp only [askBlocking, sslize, hangUp] at h
  split at h
  · cases h
  · next h₁ =>
    obtain ⟨_, rfl⟩ := Prod.mk.inj h₁
    split at h
    · cases h
    · next h₂ =>
      obtain ⟨hs, rfl⟩ := Prod.mk.inj h₂
      split at h
      · cases h
      · next h₃ =>
        obtain ⟨_, rfl⟩ := Prod.mk.inj h₃
        cases h
        exact ⟨by simp [hs], hs⟩

theorem connectDirect_carried {con con' : Iconn} (hshnd : con.shnd = false)
    (h : connectDirect con = (true, con')) :
    con'.handshakes = con.handshakes + con.ssl.toNat ∧ con'.shnd = con.ssl := by
  rw [connectDirect] at h
  split at h
  · next hssl => simpa [hssl] using connectSsl_carried h
  · next hssl =>
    cases h
    simp [hssl, hshnd]

theorem connConnect_carried {con con' : Iconn} (h : connConnect con = (true, con')) :
    con'.handshakes = con.handshakes + con.ssl.toNat ∧ con'.shnd = con.ssl := by
  rw [connConnect] at h
  split at h
  · cases h
  · have hsock : (consocket con).2.handshakes = con.handshakes ∧
        (consocket con).2.ssl = con.ssl := by
      rw [consocket]
      split <;> exact ⟨rfl, rfl⟩
    dsimp only [askInTime, askBlocking, askProxy, hangUp] at h
    split at h
    · cases h
    · rw [← hsock.1, ← hsock.2]
      split at h
      · split at h
        · cases h
        · next h₁ =>
          obtain ⟨_, rfl⟩ := Prod.mk.inj h₁
          split at h
          · cases h
          · next h₂ =>
            obtain ⟨_, rfl⟩ := Prod.mk.inj h₂
            split at h
            · cases h
            · next h₃ =>
              obtain ⟨_, rfl⟩ := Prod.mk.inj h₃
              have hd := connectDirect_carried rfl h
              exact hd
      · have hd := connectDirect_carried rfl h
        exact hd

/-- A successful `irc_connect` has done a TLS handshake if TLS was on from the start or
the server sent a 670, and else it has not. -/
theorem secured_iff {users : UserHnds} {k : Nat} {irc : Irc} {c : Connected}
    (h : connect users k irc = some (.ok c)) (hc : c.ok = true) :
    (irc.con.handshakes < c.irc.con.handshakes ∧ c.irc.con.shnd = true) ↔
      irc.con.ssl = true ∨ ∃ msg ∈ c.msgs, msg.fld 1 = .ok (ascii "670") := by
  obtain ⟨irc₁, hopen, hcase⟩ := connect_cases h hc
  obtain ⟨ht, hcon, hd, _⟩ := openConn_spec hopen
  obtain ⟨hhand, hshnd⟩ := connConnect_carried hcon
  have hup : ∃ n, Carried n irc₁.con c.irc.con ∧
      (0 < n ↔ ∃ msg ∈ c.msgs, msg.fld 1 = .ok (ascii "670")) := by
    obtain ⟨_, hirc, hmsgs⟩ | ⟨hdumb, info, con, sasl, p, hs, hl⟩ := hcase
    · exact ⟨0, hirc ▸ Steady.carried (Steady.refl _), by simp [hmsgs]⟩
    · have hstart : Upheld irc₁.con { irc₁ with info, con } [] :=
        ⟨⟨ht.known, ht.has⟩, hd.trans hdumb, 0, Steady.carried hs, by simp⟩
      exact (logon_rule (fun irc con msgs hi hs => Upheld.steady hi hs)
        (fun irc irc' msg flags msgs hi => Upheld.handled hi) k hstart hl hc).carried
  obtain ⟨n, hn, hiff⟩ := hup
  rw [hn.handshakes, hn.shnd, hhand, hshnd, ← hiff]
  cases irc.con.ssl
  · simp
  · simp only [Bool.toNat_true, Bool.true_or, and_true, true_or, iff_true]
    omega

theorem secured_iff_670 :
    let irc := (setStarttls (ircInit (0, 0) [] (serving [⟨lines [":s 670 me :go ahead"],
      lines [":s 001 me :hi", ":s 004 me host v u c"]⟩])) 2 true).2
    ∃ c, connect noUsers 8 irc = some (.ok c) ∧
      ((irc.con.handshakes < c.irc.con.handshakes ∧ c.irc.con.shnd = true) ↔
        irc.con.ssl = true ∨ ∃ msg ∈ c.msgs, msg.fld 1 = .ok (ascii "670")) := by
  intro irc
  obtain ⟨c, hc, hok⟩ :=
    ok_of_any (x := connect noUsers 8 irc) (q := fun c => c.ok) (by decide +kernel)
  exact ⟨c, hc, secured_iff hc hok⟩

def facing (ls : List String) : Irc := ircInit (0, 0) [] (serving [⟨lines ls, []⟩])

def forgetful : Irc :=
  facing [":s CAP me LS :tls", ":s CAP me ACK :tls", ":s 001 me :hi", ":s 004 me host v u c"]

def refusing : Irc := facing [":s 691 me :no", ":s 001 me :hi", ":s 004 me host v u c"]

/-- Neither mode insists on TLS: in the first, nothing checks that the 670 ever came, and
in the second, a 691 lets the logon go on in clear. -/
theorem starttls_skipped :
    (∃ irc c, setStarttls forgetful 1 true = (true, irc) ∧
      connect noUsers 8 irc = some (.ok c) ∧ c.ok = true ∧
        c.irc.con.handshakes = irc.con.handshakes ∧ c.irc.con.shnd = false) ∧
    (∃ irc c, setStarttls refusing 2 true = (true, irc) ∧
      connect noUsers 8 irc = some (.ok c) ∧ c.ok = true ∧
        c.irc.con.handshakes = irc.con.handshakes ∧ c.irc.con.shnd = false) := by
  have hrun : ∀ irc : Irc, ((connect noUsers 8 irc).bind Except.toOption).any (fun c =>
      c.ok && c.irc.con.handshakes == irc.con.handshakes && !c.irc.con.shnd) = true →
      ∃ c, connect noUsers 8 irc = some (.ok c) ∧ c.ok = true ∧
        c.irc.con.handshakes = irc.con.handshakes ∧ c.irc.con.shnd = false := by
    intro irc h
    obtain ⟨c, hc, hq⟩ := ok_of_any h
    simp only [Bool.and_eq_true, beq_iff_eq, Bool.not_eq_true'] at hq
    exact ⟨c, hc, hq.1.1, hq.1.2, hq.2⟩
  constructor
  · obtain ⟨c, hc⟩ := hrun (setStarttls forgetful 1 true).2 (by decide +kernel)
    exact ⟨_, c, Prod.ext (by decide +kernel) rfl, hc⟩
  · obtain ⟨c, hc⟩ := hrun (setStarttls refusing 2 true).2 (by decide +kernel)
    exact ⟨_, c, Prod.ext (by decide +kernel) rfl, hc⟩

end Srsirc.StartTls
