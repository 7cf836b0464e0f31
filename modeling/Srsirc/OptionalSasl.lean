import Srsirc.HandlerFlags
import Srsirc.HandlerFrames
import Srsirc.MustHave

namespace Srsirc.OptionalSasl

open CharMap Message ServerInfo UserBase Context Conn CoreHandlers Capabilities Dispatch Connect
open Registry
open HandlerSpecs HandlerFlags HandlerFrames HandlerCalls CapSpecs LogonRun MustHave Fallible

/-- The loop of `irc_connect`, with the messages that it has handled and what came of each. -/
structure Loop where
  log : List (Msg × Flags)
  irc : Irc
  p : Progress

def done (sasl : Bool) (p : Progress) : Bool := p.loggedOn && (!sasl || p.saslAuthed)

def usingSasl (irc : Irc) : Bool := irc.saslMech.isSome && irc.saslMsg.isSome

/-- `irc_connect` up to its loop. -/
def enter (irc : Irc) : Option Loop :=
  match openConn irc with
  | (false, _) => none
  | (true, irc) =>
    if irc.dumb then none
    else
      match greet irc with
      | (false, _) => none
      | (true, irc) =>
        some ⟨[], { irc with info := { irc.info with mynick := strNcpy irc.nick MAX_NICK_LEN } },
          ⟨!irc.starttlsFirst, false, false⟩⟩

def round (users : UserHnds) (x : Loop) : Option Loop :=
  match askInTime x.irc.con with
  | (false, _) => none
  | (true, con) =>
    match connRead con 0 with
    | some (.timeout, con) => some { x with irc := { x.irc with con } }
    | some (.message msg _, con) =>
      match msgHandle users { x.irc with con } msg true, heed users { x.irc with con } x.p msg with
      | .ok (flags, _), .ok (some p, irc) => some ⟨x.log ++ [(msg, flags)], irc, p⟩
      | _, _ => none
    | _ => none

/-- Rounds of the loop that `irc_connect` makes for this context. -/
inductive Looped (users : UserHnds) (irc : Irc) : Loop → Prop
  | enter {x : Loop} (h : enter irc = some x) : Looped users irc x
  | round {x x' : Loop} (h : Looped users irc x) (hgo : done (usingSasl irc) x.p = false)
      (hr : round users x = some x') : Looped users irc x'

variable {users : UserHnds} {irc : Irc} {x x' : Loop}

/-- What the settings for SASL and the table of handlers are like in the loop. -/
structure Ready (irc₀ irc : Irc) : Prop where
  table : Table irc
  dumb : irc.dumb = false
  mech : irc.saslMech = irc₀.saslMech
  msg : irc.saslMsg = irc₀.saslMsg

theorem Ready.con {irc₀ : Irc} (h : Ready irc₀ irc) (con : Iconn) : Ready irc₀ { irc with con } :=
  ⟨⟨h.table.known, h.table.has⟩, h.dumb, h.mech, h.msg⟩

theorem Ready.run {irc₀ : Irc} {msg : Msg} {logon : Bool} (h : Ready irc₀ irc) (hnd : Hnd) :
    Ensures (run hnd irc msg msg.nargs logon) fun r => Ready irc₀ r.2 := by
  intro r hrun
  obtain ⟨hmech, hmsg⟩ := run_sasl irc msg msg.nargs logon hnd r hrun
  have hkept := (run_conduct hnd irc msg msg.nargs logon r hrun).kept
  exact ⟨h.table.kept hkept, hkept.dumb.trans h.dumb, hmech.trans h.mech, hmsg.trans h.msg⟩

theorem cmd_903 {dumb : Bool} {m : Module} {c : String} (h : (c, .handle_903) ∈ hndsOf dumb m) :
    c = "903" := by
  cases dumb <;> cases m <;> simp_all [hndsOf, coreHnds, v3Hnds, trackHnds]

theorem handle_903_completes {msg : Msg} {nargs : Nat} {r : Flags × Irc}
    (hreq : usingSasl irc = true) (h : run .handle_903 irc msg nargs true = .ok r)
    (hr : r.1.has CANT_PROCEED = false) : r.1.has SASL_COMPLETE = true := by
  have hnot : ¬(irc.saslMech = none ∨ irc.saslMsg = none) := by
    simp only [usingSasl, Bool.and_eq_true, Option.isSome_iff_ne_none] at hreq
    exact not_or.2 hreq
  rw [run, handle_903, if_neg hnot, if_pos rfl] at h
  cases h
  obtain hfail | hdone := writeOr_flags irc (ascii "CAP END" ++ crlf) SASL_COMPLETE
  · rw [hfail] at hr
    exact absurd hr (by decide)
  · rw [hdone]
    decide

theorem saslComplete_iff {msg : Msg} {flags : Flags} {irc₀ irc' : Irc} (h : Ready irc₀ irc)
    (hreq : usingSasl irc₀ = true) (hmsg : msgHandle users irc msg true = .ok (flags, irc'))
    (hgo : flags.has CANT_PROCEED = false) :
    flags.has SASL_COMPLETE = true ↔ msg.fld 1 = .ok (ascii "903") := by
  obtain ⟨cmd, hcmd, hran⟩ := msgHandle_ran (fun hnd _ hj => hj.run hnd) h hmsg
  obtain ⟨cmd', hcmd', _, hall⟩ := msgHandle_rounds hmsg hgo
  obtain rfl : cmd' = cmd := Except.ok.inj (hcmd'.symm.trans hcmd)
  rw [msgHandle_has hmsg, hcmd, Except.ok.injEq]
  constructor
  · rintro ⟨call, hcall, r, hrun, hr⟩
    obtain ⟨hready, ⟨e, he, hfn, rfl⟩, _⟩ := hran call hcall
    obtain ⟨c, hc, hec⟩ := hready.table.known e he
    rw [hfn, run_saslComplete _ _ _ _ hrun hr] at hc
    rw [hec, cmd_903 hc]
  · rintro rfl
    have hhas := h.table.has "903" .handle_903 .v3 (by decide) (by rw [h.dumb]; decide)
    obtain ⟨call, hcall, hfn⟩ := List.mem_map.1 (hall _ hhas rfl (by decide))
    obtain ⟨hready, _, r, hrun⟩ := hran call hcall
    have hreq' : usingSasl call.2 = true := by
      rw [usingSasl, hready.mech, hready.msg]
      exact hreq
    have hr : r.1.has CANT_PROCEED = false := by
      by_contra hc
      have hstop := (msgHandle_has hmsg).2 ⟨call, hcall, r, hrun, by simpa using hc⟩
      rw [hgo] at hstop
      cases hstop
    refine ⟨call, hcall, r, hrun, ?_⟩
    rw [hfn] at hrun
    exact handle_903_completes hreq' hrun hr

theorem heed_some {p p' : Progress} {msg : Msg} {irc' : Irc}
    (h : heed users irc p msg = .ok (some p', irc')) :
    ∃ flags irc₁, msgHandle users irc msg true = .ok (flags, irc₁) ∧
      flags.has CANT_PROCEED = false ∧
      p'.loggedOn = (p.loggedOn || flags.has LOGON_COMPLETE) ∧
      p'.saslAuthed = (p.saslAuthed || flags.has SASL_COMPLETE) ∧
        ∃ con, irc' = { irc₁ with con } := by
  rw [heed] at h
  split at h
  · cases h
  · obtain ⟨⟨flags, irc₁⟩, hmsg, h⟩ := bind_ok_iff.1 h
    dsimp only at h
    split at h
    · cases h
    · next hc =>
      refine ⟨flags, irc₁, hmsg, by simpa using hc, ?_⟩
      split at h
      · split at h
        · cases h
        · next hsend =>
          obtain ⟨con, rfl, _⟩ := sendLogon_steady hsend
          cases h
          exact ⟨rfl, rfl, con, rfl⟩
      · cases h
        exact ⟨rfl, rfl, _, rfl⟩

theorem round_cases (h : round users x = some x') :
    (∃ con, x' = { x with irc := { x.irc with con } }) ∨
    ∃ msg flags con irc₁ con', msgHandle users { x.irc with con } msg true = .ok (flags, irc₁) ∧
      flags.has CANT_PROCEED = false ∧ x'.log = x.log ++ [(msg, flags)] ∧
        x'.irc = { irc₁ with con := con' } ∧
      x'.p.loggedOn = (x.p.loggedOn || flags.has LOGON_COMPLETE) ∧
      x'.p.saslAuthed = (x.p.saslAuthed || flags.has SASL_COMPLETE) := by
  rw [round] at h
  split at h
  · cases h
  · split at h
    · cases h
      exact Or.inl ⟨_, rfl⟩
    · next msg _ con _ =>
      split at h
      · next flags irc₁ p irc₂ hmsg hheed =>
        cases h
        obtain ⟨flags', irc₁', hmsg', hgo, hlog, hauth, con', hcon⟩ := heed_some hheed
        rw [hmsg] at hmsg'
        cases hmsg'
        exact Or.inr ⟨msg, flags, con, irc₁, con', hmsg, hgo, rfl, hcon, hlog, hauth⟩
      · cases h
    · cases h

structure Tallied (irc : Irc) (x : Loop) : Prop where
  ready : Ready irc x.irc
  loggedOn : x.p.loggedOn = x.log.any fun e => e.2.has LOGON_COMPLETE
  saslAuthed : x.p.saslAuthed = x.log.any fun e => e.2.has SASL_COMPLETE
  authed : usingSasl irc = true → ∀ e ∈ x.log, e.2.has SASL_COMPLETE = true ↔
      e.1.fld 1 = .ok (ascii "903")

theorem enter_cases (h : enter irc = some x) :
    ∃ irc₁ irc₂, openConn irc = (true, irc₁) ∧ irc₁.dumb = false ∧
    greet irc₁ = (true, irc₂) ∧
      x = ⟨[], { irc₂ with info := { irc₂.info with mynick := strNcpy irc₂.nick MAX_NICK_LEN } },
        ⟨!irc₂.starttlsFirst, false, false⟩⟩ := by
  rw [enter] at h
  split at h
  · cases h
  · next irc₁ hopen =>
    split at h
    · cases h
    · next hdumb =>
      split at h
      · cases h
      · next irc₂ hgreet =>
        cases h
        exact ⟨irc₁, irc₂, hopen, by simpa using hdumb, hgreet, rfl⟩

theorem Ready.enter {irc₁ irc₂ : Irc} (hopen : openConn irc = (true, irc₁))
    (hdumb : irc₁.dumb = false)
    (hgreet : greet irc₁ = (true, irc₂)) : Ready irc irc₂ := by
  obtain ⟨_, rfl, _⟩ := greet_steady hgreet
  obtain ⟨ht, _, _, _, _, _, _, _, rfl⟩ := openConn_cases hopen
  exact ⟨⟨ht.known, ht.has⟩, hdumb, rfl, rfl⟩

theorem Looped.tallied (h : Looped users irc x) : Tallied irc x := by
  induction h with
  | enter h =>
    obtain ⟨irc₁, irc₂, hopen, hdumb, hgreet, rfl⟩ := enter_cases h
    obtain ⟨ht, hd, hmech, hmsg⟩ := Ready.enter hopen hdumb hgreet
    exact ⟨⟨⟨ht.known, ht.has⟩, hd, hmech, hmsg⟩, rfl, rfl,
      fun _ _ he => absurd he List.not_mem_nil⟩
  | @round x x' _ hgo hr ih =>
    obtain ⟨con, rfl⟩ | ⟨msg, flags, con, irc₁, con', hmsg, hgo, hlog, hirc, hlo, hauth⟩ :=
      round_cases hr
    · exact ⟨ih.ready.con con, ih.loggedOn, ih.saslAuthed, ih.authed⟩
    · have hready : Ready irc irc₁ := msgHandle_rule (fun hnd _ hj => hj.run hnd)
        (fun hl => Bool.noConfusion hl) (fun hl => Bool.noConfusion hl) (ih.ready.con con) _ hmsg
      refine ⟨hirc ▸ hready.con con', ?_, ?_, fun hreq => ?_⟩
      · rw [hlo, hlog, List.any_append, ih.loggedOn]
        simp
      · rw [hauth, hlog, List.any_append, ih.saslAuthed]
        simp
      · rw [hlog, List.forall_mem_append, List.forall_mem_singleton]
        exact ⟨ih.authed hreq, saslComplete_iff (ih.ready.con con) hreq hmsg hgo⟩

theorem Looped.dumb (h : Looped users irc x) : irc.dumb = false := by
  induction h with
  | enter h =>
    obtain ⟨_, _, hopen, hdumb, _⟩ := enter_cases h
    exact (openConn_spec hopen).2.2.1.symm.trans hdumb
  | round _ _ _ ih => exact ih

theorem not_done_enter (h : enter irc = some x) (sasl : Bool) : done sasl x.p = false := by
  obtain ⟨_, _, _, _, _, rfl⟩ := enter_cases h
  rfl

theorem connect_enter (h : enter irc = some x) (k : Nat) :
    connect users k irc = logon users (usingSasl irc) k x.irc x.p (x.log.map Prod.fst) := by
  obtain ⟨irc₁, irc₂, hopen, hdumb, hgreet, rfl⟩ := enter_cases h
  obtain ⟨_, _, hmech, hmsg⟩ := Ready.enter hopen hdumb hgreet
  rw [connect, hopen]
  dsimp only
  rw [if_neg (by simp [hdumb]), hgreet]
  dsimp only
  rw [hmech, hmsg]
  rfl

/-- A round of `irc_connect`. -/
theorem logon_round {sasl : Bool} (hr : round users x = some x')
    (hgo : done sasl x.p = false) (k : Nat) :
    logon users sasl (k + 1) x.irc x.p (x.log.map Prod.fst) =
      if done sasl x'.p then some (.ok ⟨true, x'.irc, x'.log.map Prod.fst⟩)
      else logon users sasl k x'.irc x'.p (x'.log.map Prod.fst) := by
  rw [round] at hr
  split at hr
  · cases hr
  · next hask =>
    rw [logon, hask]
    dsimp only
    split at hr
    · next hread =>
      rw [hread]
      cases hr
      rw [if_neg (by simp [hgo])]
    · next hread =>
      rw [hread]
      dsimp only
      split at hr
      · next hmsg hheed =>
        rw [hheed]
        cases hr
        rw [List.map_append]
        rfl
      · cases hr
    · cases hr

/-- The rounds are those of `irc_connect`. -/
theorem Looped.connect (h : Looped users irc x) : ∃ n, ∀ k, connect users (k + n) irc =
    if done (usingSasl irc) x.p then some (.ok ⟨true, x.irc, x.log.map Prod.fst⟩)
    else logon users (usingSasl irc) k x.irc x.p (x.log.map Prod.fst) := by
  induction h with
  | enter h =>
    refine ⟨0, fun k => ?_⟩
    rw [if_neg (by simp [not_done_enter h]), Nat.add_zero, connect_enter h]
  | @round x x' _ hgo hr ih =>
    obtain ⟨n, hn⟩ := ih
    refine ⟨n + 1, fun k => ?_⟩
    rw [← Nat.add_assoc, Nat.add_right_comm, hn (k + 1), if_neg (by simp [hgo]), logon_round hr hgo]

theorem logon_failed {sasl : Bool} {k : Nat} {msgs : List Msg} {c : Connected}
    (hr : round users x = none)
    (h : logon users sasl (k + 1) x.irc x.p msgs = some (.ok c)) : c.ok = false := by
  rw [round] at hr
  rw [logon] at h
  split at h
  · cases h
    rfl
  · next hask =>
    rw [hask] at hr
    dsimp only at hr
    split at h
    · cases h
    · cases h
      rfl
    · next hread =>
      rw [hread] at hr
      cases hr
    · next hread =>
      rw [hread] at hr
      split at h
      · cases h
      · cases h
        rfl
      · next hheed =>
        obtain ⟨_, _, hmsg, _⟩ := heed_some hheed
        dsimp only at hr
        rw [hheed, hmsg] at hr
        cases hr

theorem logon_looped (k : Nat) {c : Connected} (hl : Looped users irc x)
    (hgo : done (usingSasl irc) x.p = false)
    (h : logon users (usingSasl irc) k x.irc x.p (x.log.map Prod.fst) = some (.ok c))
      (hc : c.ok = true) :
    ∃ x', Looped users irc x' ∧ done (usingSasl irc) x'.p = true ∧ x'.irc = c.irc ∧
      x'.log.map Prod.fst = c.msgs := by
  induction k generalizing x with
  | zero => cases h
  | succ k ih =>
    cases hr : round users x with
    | none =>
      rw [logon_failed hr h] at hc
      cases hc
    | some x' =>
      rw [logon_round hr hgo] at h
      split at h
      · next hdone =>
        cases h
        exact ⟨x', hl.round hgo hr, hdone, rfl, rfl⟩
      · next hmore => exact ih (hl.round hgo hr) (by simpa using hmore) h

theorem connect_looped {k : Nat} {c : Connected} (h : connect users k irc = some (.ok c))
    (hc : c.ok = true)
    (hdumb : irc.dumb = false) : ∃ x, Looped users irc x ∧ done (usingSasl irc) x.p = true ∧
      x.irc = c.irc ∧
      x.log.map Prod.fst = c.msgs := by
  cases henter : enter irc with
  | some x =>
    rw [connect_enter henter] at h
    exact logon_looped k (.enter henter) (not_done_enter henter _) h hc
  | none =>
    rw [enter] at henter
    rw [connect] at h
    split at h
    · cases h
      cases hc
    · next irc₁ hopen =>
      obtain ⟨_, _, hd, _⟩ := openConn_spec hopen
      rw [hopen] at henter
      dsimp only at henter
      rw [if_neg (by simp [hd, hdumb])] at h henter
      split at h
      · cases h
        cases hc
      · next hgreet =>
        rw [hgreet] at henter
        cases henter

theorem Tallied.completed (h : Tallied irc x) (hreq : usingSasl irc = true)
    (hdone : done (usingSasl irc) x.p = true) :
    ∃ e ∈ x.log, e.2.has SASL_COMPLETE = true := by
  rw [done, hreq, Bool.not_true, Bool.false_or, Bool.and_eq_true, h.saslAuthed,
    List.any_eq_true] at hdone
  exact hdone.2

theorem said_903 {k : Nat} {irc' : Irc} (hx : Looped users irc x) (hreq : usingSasl irc = true)
    (hconn : connect users k irc = some (.ok ⟨true, irc', x.log.map Prod.fst⟩)) :
    ∃ e ∈ x.log, e.1.fld 1 = .ok (ascii "903") := by
  obtain ⟨x', hx', hdone, _, hmsgs⟩ := connect_looped hconn rfl hx.dumb
  obtain ⟨e, he, hflag⟩ := hx'.tallied.completed hreq hdone
  have h903 := (hx'.tallied.authed hreq e he).1 hflag
  have hmem := List.mem_map_of_mem (f := Prod.fst) he
  rw [hmsgs] at hmem
  obtain ⟨e', he', heq⟩ := List.mem_map.1 hmem
  exact ⟨e', he', heq ▸ h903⟩

/-- With SASL on, whether it must be had or not, a logon that the server never acknowledges
SASL to is over after `LOGON_COMPLETE` exactly if there was a 903 all the same. With an
acknowledgement, it is over only after `SASL_COMPLETE`. -/
theorem optional_sasl_iff (users : UserHnds) {irc : Irc}
    (hreq : irc.saslMech.isSome ∧ irc.saslMsg.isSome) :
    (∀ x, Looped users irc x → ¬Acked (x.log.map Prod.fst) (ascii "sasl") →
      (∃ e ∈ x.log, e.2.has LOGON_COMPLETE = true) →
        ((∃ k, connect users k irc = some (.ok ⟨true, x.irc, x.log.map Prod.fst⟩)) ↔
          ∃ e ∈ x.log, e.1.fld 1 = .ok (ascii "903"))) ∧
    ∀ k c, connect users k irc = some (.ok c) → c.ok = true → Acked c.msgs (ascii "sasl") →
      ∃ x, Looped users irc x ∧ x.log.map Prod.fst = c.msgs ∧
        ∃ e ∈ x.log, e.2.has SASL_COMPLETE = true := by
  have hsasl : usingSasl irc = true := by rw [usingSasl, hreq.1, hreq.2]; rfl
  refine ⟨fun x hx _ hlogon => ⟨?_, ?_⟩, fun k c hconn hc hacked => ?_⟩
  · rintro ⟨k, hconn⟩
    exact said_903 hx hsasl hconn
  · rintro ⟨e, he, h903⟩
    have ht := hx.tallied
    have hdone : done (usingSasl irc) x.p = true := by
      rw [done, hsasl, Bool.not_true, Bool.false_or, Bool.and_eq_true, ht.loggedOn, ht.saslAuthed,
        List.any_eq_true, List.any_eq_true]
      exact ⟨hlogon, e, he, (ht.authed hsasl e he).2 h903⟩
    obtain ⟨n, hn⟩ := hx.connect
    refine ⟨0 + n, ?_⟩
    rw [hn, if_pos hdone]
  · have hdumb : irc.dumb = false := by
      obtain ⟨_, _, ⟨_, _, hnone⟩ | ⟨hdumb, _⟩⟩ := connect_cases hconn hc
      · obtain ⟨_, hmem, _⟩ := hacked
        rw [hnone] at hmem
        cases hmem
      · exact hdumb
    obtain ⟨x, hx, hdone, _, hmsgs⟩ := connect_looped hconn hc hdumb
    exact ⟨x, hx, hmsgs, hx.tallied.completed hsasl hdone⟩

def asking (ls : List String) : Irc :=
  (setSasl (ircInit (0, 0) [] (serving [⟨lines ls, []⟩])) (ascii "PLAIN")
    (ascii "AGEAYg==") false).2

def twoRounds (irc : Irc) : Option Loop :=
  (enter irc).bind fun x => (round noUsers x).bind fun x' =>
    if done (usingSasl irc) x'.p then none else round noUsers x'

theorem twoRounds_looped (h : twoRounds irc = some x) : Looped noUsers irc x := by
  obtain ⟨x₀, henter, h⟩ := Option.bind_eq_some_iff.1 h
  obtain ⟨x₁, hround, h⟩ := Option.bind_eq_some_iff.1 h
  split at h
  · cases h
  · next hgo =>
    exact .round (.round (.enter henter) (not_done_enter henter _) hround) (by simpa using hgo) h

def commands (cmds : List String) (x : Loop) : Bool :=
  x.log.map (fun e => (e.1.fld 1).toOption) = cmds.map fun c => some (ascii c)

theorem commands_iff {cmds : List String} (h : commands cmds x = true) (cmd : Str) :
    (∃ e ∈ x.log, e.1.fld 1 = .ok cmd) ↔ ∃ c ∈ cmds, ascii c = cmd := by
  have hfld : ∀ y : Except Fault Str, y = .ok cmd ↔ y.toOption = some cmd := by
    intro y
    cases y <;> simp [Except.toOption]
  have hmem : some cmd ∈ x.log.map (fun e => (e.1.fld 1).toOption) ↔ ∃ c ∈ cmds, ascii c = cmd := by
    rw [of_decide_eq_true h]
    simp
  rw [← hmem, List.mem_map]
  simp only [hfld]

theorem not_acked {cmds : List String} (h : commands cmds x = true)
    (hcap : ∀ c ∈ cmds, ascii c ≠ ascii "CAP")
    (name : Str) : ¬Acked (x.log.map Prod.fst) name := by
  rintro ⟨msg, hmsg, hcmd, _⟩
  obtain ⟨e, he, rfl⟩ := List.mem_map.1 hmsg
  obtain ⟨c, hc, hcc⟩ := (commands_iff h (ascii "CAP")).1 ⟨e, he, hcmd⟩
  exact hcap c hc hcc

/-- A 903 without an acknowledgement. -/
theorem optional_sasl_unasked :
    let irc := asking [":s 903 me :ok", ":s 004 me host v u c"]
    ∃ x : Loop, ∃ k, (∃ e ∈ x.log, e.1.fld 1 = .ok (ascii "903")) ∧
      connect noUsers k irc = some (.ok ⟨true, x.irc, x.log.map Prod.fst⟩) := by
  intro irc
  have hany : (twoRounds irc).any (fun x => commands ["903", "004"] x &&
      x.log.any fun e => e.2.has LOGON_COMPLETE) = true := by decide +kernel
  obtain ⟨x, hx, hq⟩ := (Option.any_eq_true _ _).1 hany
  rw [Bool.and_eq_true, List.any_eq_true] at hq
  have h903 := (commands_iff hq.1 (ascii "903")).2 ⟨"903", by simp, rfl⟩
  have hno := not_acked hq.1 (by decide +kernel) (ascii "sasl")
  obtain ⟨k, hk⟩ :=
    ((@optional_sasl_iff noUsers irc (by decide +kernel)).1 x (twoRounds_looped hx) hno hq.2).2 h903
  exact ⟨x, k, h903, hk⟩

/-- The server has welcomed us, and does not know of capabilities. The loop goes on. -/
theorem optional_sasl_stuck :
    let irc := asking [":s 001 me :hi", ":s 004 me host v u c"]
    ∃ x, Looped noUsers irc x ∧ ¬Acked (x.log.map Prod.fst) (ascii "sasl") ∧
      (∃ e ∈ x.log, e.2.has LOGON_COMPLETE = true) ∧ done (usingSasl irc) x.p = false ∧
        ¬∃ k, connect noUsers k irc = some (.ok ⟨true, x.irc, x.log.map Prod.fst⟩) := by
  intro irc
  have hany :
      (twoRounds irc).any (fun x => commands ["001", "004"] x && (!done (usingSasl irc) x.p &&
      x.log.any fun e => e.2.has LOGON_COMPLETE)) = true := by decide +kernel
  obtain ⟨x, hx, hq⟩ := (Option.any_eq_true _ _).1 hany
  rw [Bool.and_eq_true, Bool.and_eq_true, List.any_eq_true, Bool.not_eq_true'] at hq
  have hlooped := twoRounds_looped hx
  refine ⟨x, hlooped, not_acked hq.1 (by decide +kernel) _, hq.2.2, hq.2.1, ?_⟩
  rintro ⟨k, hconn⟩
  obtain ⟨c, hc, h903⟩ := (commands_iff hq.1 _).1 (said_903 hlooped (by decide +kernel) hconn)
  exact absurd h903 (by revert c; decide +kernel)

end Srsirc.OptionalSasl
