import Srsirc.LogonRun

namespace Srsirc.MustHave

open CharMap Message ReadBuffer Context Conn CoreHandlers Capabilities Dispatch Connect Registry
open HandlerSpecs
open CapSpecs LogonRun Fallible

def Acked (msgs : List Msg) (name : Str) : Prop :=
  ∃ msg ∈ msgs, msg.fld 1 = .ok (ascii "CAP") ∧ Acks msg name

theorem Acked.mono {msgs msgs' : List Msg} {name : Str} (h : Acked msgs name) :
    Acked (msgs ++ msgs') name := by
  obtain ⟨msg, hmem, ha⟩ := h
  exact ⟨msg, List.mem_append_left _ hmem, ha⟩

theorem CapsStep.mem {acked : Str → Prop} {caps caps' : List V3cap} (h : CapsStep acked caps caps')
    {cap : V3cap} (hcap : cap ∈ caps) : ∃ cap' ∈ caps', cap'.musthave = cap.musthave ∧
      (cap'.enabled = true → cap.enabled = true ∨ acked cap.name) := by
  induction h with
  | nil => cases hcap
  | @cons c c' caps caps' hc _ ih =>
    obtain rfl | hcap := List.mem_cons.1 hcap
    · exact ⟨c', List.mem_cons_self, hc.2⟩
    · obtain ⟨cap', hmem, h'⟩ := ih hcap
      exact ⟨cap', List.mem_cons_of_mem _ hmem, h'⟩

section Rounds

variable {msg : Msg} {cmd : Str} {lo : Bool} {hs : List Hnd} {irc irc' : Irc}

theorem Rounds.caps (h : Rounds msg cmd lo hs irc irc') :
    CapsStep (fun name => .handle_CAP ∈ hs ∧ Acks msg name) irc.v3caps irc'.v3caps := by
  induction h with
  | nil => exact CapsStep.refl _
  | @cons e r hs irc irc' irc'' _ _ hrun _ _ ih =>
    have hstep := (run_conduct _ irc msg msg.nargs lo _ hrun).caps
    refine (hstep.mono fun name h => ?_).trans (ih.mono fun name h => ?_)
    · exact ⟨h.1 ▸ List.mem_cons_self, h.2⟩
    · exact ⟨List.mem_cons_of_mem _ h.1, h.2⟩

/-- Where the handler of 001 lets the connection proceed, all that must be there is. -/
theorem handle_001_checks (irc : Irc) (msg : Msg) (nargs : Nat) (logon : Bool) :
    Ensures (handle_001 irc msg nargs logon) fun r => r.1.has CANT_PROCEED = false →
      ∀ cap ∈ irc.v3caps, cap.musthave = true → cap.enabled = true := by
  refine Ensures.ite (fun _ => Ensures.ok fun h => ?_) fun _ => ?_
  · exact absurd (show PROTO_ERR.has CANT_PROCEED = false from h) (by decide)
  refine (keepLogonconv_noted irc msg 0).bind fun irc' hnoted => Ensures.value fun _ =>
    Ensures.ok fun h => ?_
  intro cap hcap hmust
  by_contra hen
  have hcheck : checkCaps irc' false = false := by
    rw [checkCaps, hnoted.alike.caps, List.all_eq_false]
    exact ⟨cap, hcap, by simp [hmust, hen]⟩
  have hcheck' : ∀ info, checkCaps { irc' with info } false = false := fun _ => hcheck
  rw [hcheck'] at h
  exact absurd (show CAP_ERR.has CANT_PROCEED = false from h) (by decide)

theorem Rounds.checked (h : Rounds msg cmd lo hs irc irc') (h001 : .handle_001 ∈ hs) :
    ∃ caps, CapsStep (fun name => .handle_CAP ∈ hs ∧ Acks msg name) irc.v3caps caps ∧
      ∀ cap ∈ caps, cap.musthave = true → cap.enabled = true := by
  induction h with
  | nil => cases h001
  | @cons e r hs irc irc' irc'' hmem hcmd hrun hr _ ih =>
    obtain heq | h001 := List.mem_cons.1 h001
    · rw [← heq] at hrun
      exact ⟨_, CapsStep.refl _, handle_001_checks irc msg msg.nargs lo _ hrun hr⟩
    · obtain ⟨caps, hstep', hall⟩ := ih h001
      have hstep := (run_conduct _ irc msg msg.nargs lo _ hrun).caps
      refine ⟨caps, (hstep.mono fun name h => ?_).trans (hstep'.mono fun name h => ?_), hall⟩
      · exact ⟨h.1 ▸ List.mem_cons_self, h.2⟩
      · exact ⟨List.mem_cons_of_mem _ h.1, h.2⟩

end Rounds

theorem cmd_CAP {dumb : Bool} {m : Module} {c : String} (h : (c, .handle_CAP) ∈ hndsOf dumb m) :
    c = "CAP" := by
  cases dumb <;> cases m <;> simp_all [hndsOf, coreHnds, v3Hnds, trackHnds]

/-- What holds in the loop: what is enabled was so from the start or is acknowledged, and
after a 001 all that must be enabled is. -/
structure Enforced (caps₀ : List V3cap) (irc : Irc) (msgs : List Msg) : Prop where
  table : Table irc
  dumb : irc.dumb = false
  caps : CapsStep (Acked msgs) caps₀ irc.v3caps
  met : (∃ msg ∈ msgs, msg.fld 1 = .ok (ascii "001")) → ∀ cap ∈ caps₀, cap.musthave = true →
    cap.enabled = true ∨ Acked msgs cap.name

theorem Enforced.handled {caps₀ : List V3cap} {irc irc' : Irc} {users : UserHnds} {msg : Msg}
    {flags : Flags} {msgs : List Msg} (h : Enforced caps₀ irc msgs)
    (hh : msgHandle users irc msg true = .ok (flags, irc')) (hr : flags.has CANT_PROCEED = false) :
    Enforced caps₀ irc' (msgs ++ [msg]) := by
  obtain ⟨cmd, hcmd, hrounds, hall⟩ := msgHandle_rounds hh hr
  generalize (HandlerCalls.msgCalls users irc msg true).map Prod.fst = hs at hrounds hall
  obtain ⟨ht, hd, hknown⟩ := hrounds.table h.table
  have hacked : ∀ name, .handle_CAP ∈ hs ∧ Acks msg name → Acked (msgs ++ [msg]) name := by
    intro name ⟨hmem, ha⟩
    obtain ⟨c, m, hc, hcm⟩ := hknown _ hmem
    rw [cmd_CAP hc] at hcm
    exact ⟨msg, by simp, by rw [hcmd, hcm], ha⟩
  have hbefore := @CapsStep.mono _ (Acked (msgs ++ [msg])) _ _ h.caps fun _ => Acked.mono
  refine ⟨ht, hd.trans h.dumb, hbefore.trans ((Rounds.caps hrounds).mono hacked), ?_⟩
  intro h001 cap hcap hmust
  simp only [List.mem_append, List.mem_singleton, or_and_right, exists_or, exists_eq_left, hcmd,
    Except.ok.injEq] at h001
  obtain h001 | rfl := h001
  · exact (h.met h001 cap hcap hmust).imp_right Acked.mono
  · have hhas := h.table.has "001" .handle_001 .core (by decide) (by rw [h.dumb]; decide)
    obtain ⟨caps, hstep, hchecked⟩ := Rounds.checked hrounds (hall _ hhas rfl (by decide))
    obtain ⟨cap', hmem', hmust', hen⟩ := CapsStep.mem (hbefore.trans (hstep.mono hacked)) hcap
    exact hen (hchecked cap' hmem' (hmust'.trans hmust))

/-- If the flags are fresh and the server sends a 001, a successful logon means that every
capability that we must have was acknowledged meanwhile. -/
theorem musthave_acked {users : UserHnds} {k : Nat} {irc : Irc} {c : Connected}
    (hdumb : irc.dumb = false)
    (h : connect users k irc = some (.ok c)) (hc : c.ok = true)
    (hfresh : ∀ cap ∈ irc.v3caps, cap.musthave = true → cap.enabled = false)
    (h001 : ∃ msg ∈ c.msgs, msg.fld 1 = .ok (ascii "001")) :
    ∀ cap ∈ irc.v3caps, cap.musthave = true → Acked c.msgs cap.name := by
  obtain ⟨irc₁, hopen, hcase⟩ := connect_cases h hc
  obtain ⟨ht, _, hd, hcaps⟩ := openConn_spec hopen
  obtain ⟨hdumb', _⟩ | ⟨_, info, con, sasl, p, _, hl⟩ := hcase
  · rw [hdumb] at hdumb'
    cases hdumb'
  · have hstart : Enforced irc.v3caps { irc₁ with info, con } [] :=
      ⟨⟨ht.known, ht.has⟩, hd.trans hdumb, CapsStep.of_eq hcaps, by simp⟩
    have hend := logon_rule (fun irc con msgs hi _ =>
        (⟨⟨hi.table.known, hi.table.has⟩, hi.dumb, hi.caps,
          hi.met⟩ : Enforced _ { irc with con } msgs))
      (fun irc irc' msg flags msgs hi => Enforced.handled hi) k hstart hl hc
    intro cap hcap hmust
    refine (hend.met h001 cap hcap hmust).resolve_left fun hen => ?_
    rw [hfresh cap hcap hmust] at hen
    cases hen

def demanding (servers : List (List String)) : Irc :=
  (wantCap (ircInit (0, 0) [] (serving (servers.map fun ls => ⟨lines ls, []⟩))) (ascii "a") true).2

def friendly : List String :=
  [":s CAP me LS :a b", ":s CAP me ACK :a", ":s 001 me :hi", ":s 004 me host v u c"]

theorem musthave_acked_friendly :
    ∃ c, connect noUsers 8 (demanding [friendly]) = some (.ok c) ∧
      ∀ cap ∈ (demanding [friendly]).v3caps, cap.musthave = true → Acked c.msgs cap.name := by
  obtain ⟨c, hc, hq⟩ := ok_of_any (x := connect noUsers 8 (demanding [friendly]))
    (q := fun c => c.ok && c.msgs.any fun msg => decide (msg.fld 1 = .ok (ascii "001")))
      (by decide +kernel)
  simp only [Bool.and_eq_true, List.any_eq_true, decide_eq_true_eq] at hq
  exact ⟨c, hc, musthave_acked (by decide +kernel) hc hq.1 (by decide +kernel) hq.2⟩

def heedless (irc : Irc) : Bool :=
  irc.v3caps.any (·.musthave) && ((connect noUsers 8 irc).bind Except.toOption).any fun c =>
    c.ok && c.msgs.all fun msg => decide (msg.fld 1 ≠ .ok (ascii "CAP"))

theorem heedless_spec {irc : Irc} (h : heedless irc = true) :
    ∃ c, connect noUsers 8 irc = some (.ok c) ∧ c.ok = true ∧
      ∃ cap ∈ irc.v3caps, cap.musthave = true ∧ ¬Acked c.msgs cap.name := by
  obtain ⟨hcap, hrun⟩ := Bool.and_eq_true_iff.1 h
  obtain ⟨c, hc, hq⟩ := ok_of_any hrun
  obtain ⟨hok, hno⟩ := Bool.and_eq_true_iff.1 hq
  obtain ⟨cap, hmem, hmust⟩ := List.any_eq_true.1 hcap
  refine ⟨c, hc, hok, cap, hmem, hmust, ?_⟩
  rintro ⟨msg, hmsg, hcmd, _⟩
  exact absurd hcmd (by simpa using List.all_eq_true.1 hno msg hmsg)

/-- What was enabled on one connection counts on the next, too, and without a 001 nothing
is looked at. -/
theorem musthave_stale :
    (∃ c₁ c₂, connect noUsers 8 (demanding [friendly, [":s 001 me :hi", ":s 004 me host v u c"]]) =
        some (.ok c₁) ∧ c₁.ok = true ∧ connect noUsers 8 (ircReset c₁.irc) = some (.ok c₂) ∧
          c₂.ok = true ∧
        ∃ cap ∈ c₁.irc.v3caps, cap.musthave = true ∧ ¬Acked c₂.msgs cap.name) ∧
      ∃ c, connect noUsers 8 (demanding [[":s 004 me host v u c"]]) = some (.ok c) ∧ c.ok = true ∧
        ∃ cap ∈ (demanding [[":s 004 me host v u c"]]).v3caps, cap.musthave = true ∧
          ¬Acked c.msgs cap.name := by
  constructor
  · obtain ⟨c₁, hc₁, hq⟩ := ok_of_any
      (x := connect noUsers 8 (demanding [friendly, [":s 001 me :hi", ":s 004 me host v u c"]]))
      (q := fun c => c.ok && heedless (ircReset c.irc)) (by decide +kernel)
    obtain ⟨hok, hheed⟩ := Bool.and_eq_true_iff.1 hq
    obtain ⟨c₂, hc₂, hrest⟩ := heedless_spec hheed
    exact ⟨c₁, c₂, hc₁, hok, hc₂, hrest⟩
  · exact heedless_spec (by decide +kernel)

end Srsirc.MustHave
