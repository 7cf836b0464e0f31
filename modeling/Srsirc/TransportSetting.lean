import Srsirc.HandlerCalls
import Srsirc.HandlerFrames
import Srsirc.StartTls

namespace Srsirc.TransportSetting

open CharMap Message ServerInfo UserBase Context Conn CoreHandlers Capabilities Dispatch Connect
open MessageTags
open Registry ConnFrames HandlerSpecs HandlerFrames HandlerCalls StartTls Fallible

def DEF_PORT_PLAIN : UInt16 := 6667

def DEF_PORT_SSL : UInt16 := 6697

/-- The port of the server in `lsi_conn_connect`, when this one is configured. -/
def realport (con : Iconn) (port : UInt16) : UInt16 :=
  if port = 0 then if con.ssl then DEF_PORT_SSL else DEF_PORT_PLAIN else port

def upgrades (call : Hnd × Irc) : Bool :=
  decide (call.1 = .handle_670) && (upgrade call.2.con).1

def SameSsl (con con' : Iconn) : Prop := con'.ssl = con.ssl

section Connection

variable {con con' : Iconn} {ok : Bool}

theorem askWrite_ssl (h : askWrite con = (ok, con')) : con'.ssl = con.ssl := by
  cases h
  rfl

theorem sameSsl_ofWrites : OfWrites SameSsl := by
  refine ⟨fun _ => rfl, fun h h' => h'.trans h, fun con buf => ?_⟩
  rw [connWriteRaw]
  split
  · rfl
  · split <;>
    · next h =>
      have hw := askWrite_ssl h
      exact hw

theorem connConnect_ssl (con : Iconn) : (connConnect con).2.ssl = con.ssl := by
  obtain ⟨con', h, hr | hr⟩ := connConnect_ends con <;>
  · rw [hr]
    exact h.ssl

theorem upgrade_ssl (con : Iconn) : (upgrade con).2.ssl = (con.ssl || (upgrade con).1) := by
  obtain ⟨con', h, hr | hr⟩ := upgrade_ends con
  · rw [hr, Bool.or_false]
    exact h.ssl
  · rw [hr, Bool.or_true]

theorem connRead_ssl {ntags : Nat} {inc : Incoming} (h : connRead con ntags = some (inc, con')) :
    con'.ssl = con.ssl := by
  rw [connRead] at h
  split at h
  · cases h
    rfl
  · split at h
    · cases h
    · dsimp only at h
      split at h
      · cases h
        rfl
      · split at h <;>
        · cases h
          rfl

end Connection

/-- A handler switches the setting on exactly if it switches the connection to TLS. -/
theorem run_ssl (h : Hnd) (irc : Irc) (msg : Msg) (nargs : Nat) (logon : Bool) :
    Ensures (run h irc msg nargs logon) fun r => r.2.con.ssl =
      (irc.con.ssl || upgrades (h, irc)) := by
  by_cases h670 : h = .handle_670
  · subst h670
    have hup := upgrade_ssl irc.con
    simp only [upgrades, decide_true, Bool.true_and]
    rw [← hup, run, handle_670]
    split
    · next heq => 
      rw [heq]
      exact Ensures.ok rfl
    · next con heq =>
      rw [heq]
      refine Ensures.ite (fun _ => Ensures.ok rfl) fun _ => Ensures.ok ?_
      obtain ⟨_, _, _, _, _, hsame, hthr⟩ :=
        concludeSaslCap_through sameSsl_ofWrites { irc with con }
      rw [hthr]
      exact hsame
  · refine (run_con irc msg nargs logon sameSsl_ofWrites h fun h => absurd h h670).mono
      fun r hr => ?_
    rw [SameSsl] at hr
    simp [upgrades, h670, hr]

theorem openConn_ssl (irc : Irc) : (openConn irc).2.con.ssl = irc.con.ssl := by
  have hreg : ∀ (irc : Irc) (m : Module) {ok : Bool} {irc' : Irc},
      reghnds (hndsOf irc.dumb m) m (unregall irc m) = (ok, irc') → irc'.con = irc.con := by
    intro irc m ok irc' h
    obtain ⟨_, ⟨_, _, rfl⟩, _⟩ :=
      @reghnds_spec (unregall irc m) _ _ m _ (fun _ hp => hp) (short_hndsOf irc.dumb m) h
    rfl
  rw [openConn]
  dsimp only
  generalize hirc : ({ trkDeinit irc with trackingEnab := false } : Irc) = irc₀
  have hcon : irc₀.con = irc.con := by rw [← hirc]; rfl
  rw [← hcon]
  split
  · next irc₁ h => rw [hreg irc₀ .core h]
  · next irc₁ h =>
    have h₁ : irc₁.con = irc₀.con := hreg irc₀ .core h
    rw [← h₁]
    split
    · next irc₂ h => rw [hreg irc₁ .v3 h]
    · next irc₂ h =>
      have h₂ : irc₂.con = irc₁.con := hreg irc₁ .v3 h
      rw [← h₂]
      exact connConnect_ssl irc₂.con

theorem between_sameSsl : Between fun irc irc' => SameSsl irc.con irc'.con where
  opened := openConn_ssl
  time _ := rfl
  read _ _ _ _ h := connRead_ssl h
  write irc buf := sameSsl_ofWrites.write irc.con buf
  reset _ := rfl
  info _ _ := rfl

theorem Worked.ssl {irc irc' : Irc} {calls : List (Hnd × Irc)}
    (h : Worked (fun irc irc' => SameSsl irc.con irc'.con) irc calls irc') :
    irc'.con.ssl = (irc.con.ssl || calls.any upgrades) := by
  induction h with
  | refl => simp
  | between _ ht ih => rw [← ih, ht]
  | call _ hrun ih => 
    rw [run_ssl _ _ _ _ _ _ hrun, ih]
    simp [Bool.or_assoc]

/-- A context, and the argument of the last `irc_set_ssl` that succeeded. -/
structure State where
  irc : Irc
  last : Bool

def Respectful (users : UserHnds) : Prop :=
  ∀ irc msg n, SameSsl irc.con (users.pre irc msg n).2.con ∧
    SameSsl irc.con (users.post irc msg n).2.con

/-- A call of the program, with the handlers that it calls. -/
inductive Step (s : State) : List (Hnd × Irc) → State → Prop
  | setSsl (on : Bool) : Step s [] ⟨(setSsl s.irc on).2, if (setSsl s.irc on).1 then on else s.last⟩
  | setStarttls (mode : Int) (musthave : Bool) :
      Step s [] ⟨(setStarttls s.irc mode musthave).2, s.last⟩
  | settings {irc' : Irc} (h : ∃ host proxied, irc'.con = { s.irc.con with host, proxied }) :
      Step s [] ⟨irc', s.last⟩
  | reset : Step s [] ⟨ircReset s.irc, s.last⟩
  | write (line : Str) : Step s [] ⟨(ircWrite s.irc line).2, s.last⟩
  | connect {users : UserHnds} {k : Nat} {c : Connected} (h : connect users k s.irc =
      some (.ok c)) :
      Step s (connectCalls users k s.irc) ⟨c.irc, s.last⟩
  | read {users : UserHnds} {tags : Tags} {x' : Tctx} {ret : Int} (hu : Respectful users)
      (h : ircRead users ⟨s.irc, tags⟩ = some (.ok (ret, x'))) :
        Step s (readCalls users s.irc) ⟨x'.irc, s.last⟩

def Belongs (s : State) : Prop := s.irc.con.ssl = s.last

/-- The server has not switched a connection to TLS that was set to go without. -/
def Fits (s : State) (calls : List (Hnd × Irc)) : Prop :=
  (∃ call ∈ calls, upgrades call = true) → s.irc.con.ssl = true

theorem connSetSsl_ssl (con : Iconn) (on : Bool) :
    (connSetSsl con on).2.ssl = if (connSetSsl con on).1 then on else con.ssl := by
  rw [connSetSsl]
  split
  · next hon =>
    split
    · next h =>
      have hask := (askMksslctx_frame h).ssl
      simpa using hask
    · simp [hon.1]
  · simp

theorem setSsl_ssl (irc : Irc) (on : Bool) :
    (setSsl irc on).2.con.ssl = if (setSsl irc on).1 then on else irc.con.ssl := by
  have hcon := connSetSsl_ssl irc.con on
  rw [setSsl]
  split
  · simp
  · split
    next heq =>
    rw [heq] at hcon
    exact hcon

theorem wantCap_con (irc : Irc) (name : Str) (musthave : Bool) :
    (wantCap irc name musthave).2.con = irc.con := by
  rw [wantCap]
  split
  · rfl
  · split
    · rfl
    · split <;>
      · next h =>
        obtain ⟨_, rfl⟩ := Prod.mk.inj h
        rfl

theorem clearCap_con (irc : Irc) (name : Str) : (clearCap irc name).con = irc.con := by
  rw [clearCap]
  split <;> rfl

theorem setStarttls_con (irc : Irc) (mode : Int) (musthave : Bool) :
    (setStarttls irc mode musthave).2.con = irc.con := by
  have hclear := clearCap_con irc (ascii "tls")
  rw [setStarttls]
  split
  · rfl
  · dsimp only
    split
    · exact hclear
    · split
      · have hwant :=
          wantCap_con { clearCap irc (ascii "tls") with starttls := false } (ascii "tls") musthave
        split
        · next heq =>
          rw [heq] at hwant
          exact hwant.trans hclear
        · next heq =>
          rw [heq] at hwant
          exact hwant.trans hclear
      · exact hclear

theorem Step.belongs_iff {s s' : State} {calls : List (Hnd × Irc)} (h : Belongs s)
    (hs : Step s calls s') :
    Belongs s' ↔ Fits s calls := by
  have hstays : ∀ {s' : State}, s'.irc.con.ssl = s.irc.con.ssl → s'.last = s.last →
      (Belongs s' ↔ Fits s []) :=
    fun hssl hlast => iff_of_true (hssl.trans (h.trans hlast.symm)) fun hno => by simp at hno
  have hworked : ∀ {irc' : Irc} {calls : List (Hnd × Irc)},
      Worked (fun irc irc' => SameSsl irc.con irc'.con) s.irc calls irc' →
        (Belongs ⟨irc', s.last⟩ ↔ Fits s calls) := by
    intro irc' calls hw
    rw [Belongs, Worked.ssl hw, Fits, ← List.any_eq_true, h]
    cases s.last <;> cases calls.any upgrades <;> simp
  cases hs with
  | setSsl on =>
    refine iff_of_true ?_ fun hno => by simp at hno
    rw [Belongs, setSsl_ssl, h]
  | setStarttls mode musthave => exact hstays (by rw [setStarttls_con]) rfl
  | settings hcon =>
    obtain ⟨_, _, hcon⟩ := hcon
    exact hstays (by rw [hcon]) rfl
  | reset => exact hstays rfl rfl
  | write line => exact hworked (ircWrite_worked between_sameSsl s.irc line)
  | connect hc => exact hworked (connect_worked between_sameSsl hc)
  | read hu hr =>
    apply hworked
    exact ircRead_worked between_sameSsl (fun irc msg n => (hu irc msg n).1) (fun irc msg n =>
      (hu irc msg n).2) hr

inductive Run : List (State × List (Hnd × Irc)) → State → Prop
  | init (rand : Nat × Nat) (al : BucketList.Alloc) (world : World) :
      Run [] ⟨ircInit rand al world, false⟩
  | step {hist : List (State × List (Hnd × Irc))} {s s' : State} {calls : List (Hnd × Irc)}
      (h : Run hist s)
      (hs : Step s calls s') : Run (hist ++ [(s, calls)]) s'

/-- In all states of a run, the setting is the user's, if and only if in no call of the run
the server switched a connection to TLS that was set to go without. Where the setting is
the user's, it alone says whether `irc_connect` starts with TLS, and on which port. -/
theorem setting_kept_iff {hist : List (State × List (Hnd × Irc))} {s : State} (h : Run hist s) :
    (((∀ x ∈ hist, Belongs x.1) ∧ Belongs s) ↔ ∀ x ∈ hist, Fits x.1 x.2) ∧
    (Belongs s → (∀ irc', openConn s.irc = (true, irc') → irc'.con.shnd = s.last) ∧
      ∀ port, realport s.irc.con port =
        if port = 0 then if s.last then DEF_PORT_SSL else DEF_PORT_PLAIN else port) := by
  refine ⟨?_, fun hb => ⟨fun irc' hopen => ?_, fun port => ?_⟩⟩
  · induction h with
    | init => simp [Belongs, ircInit, connInit]
    | @step hist s s' calls _ hs ih =>
      simp only [List.forall_mem_append, List.forall_mem_singleton]
      rw [← ih]
      exact and_congr_right fun hall => hs.belongs_iff hall.2
  · obtain ⟨_, hcon, _⟩ := openConn_spec hopen
    rw [(connConnect_carried hcon).2]
    exact hb
  · rw [realport, show s.irc.con.ssl = s.last from hb]

/-- TLS on, a logon, a reset. -/
theorem setting_kept_secure :
    let irc := ircInit (0, 0) [] (serving [⟨[], lines [":s 001 me :hi", ":s 004 me host v u c"]⟩])
    ∃ c, connect noUsers 8 (setSsl irc true).2 = some (.ok c) ∧ c.ok = true ∧
      Belongs ⟨ircReset c.irc, true⟩ := by
  intro irc
  obtain ⟨c, hc, hok⟩ :=
    @ok_of_any _ _ (connect noUsers 8 (setSsl irc true).2) (fun c => c.ok) (by decide +kernel)
  have hrun : Run [(⟨irc, false⟩, []),
      (⟨(setSsl irc true).2, true⟩, connectCalls noUsers 8 (setSsl irc true).2),
      (⟨c.irc, true⟩, [])] ⟨ircReset c.irc, true⟩ :=
    .step (.step (.step (.init _ _ _) (.setSsl true)) (.connect hc)) .reset
  refine ⟨c, hc, hok, ((setting_kept_iff hrun).1.2 ?_).2⟩
  simp only [List.forall_mem_cons, List.not_mem_nil, false_implies, implies_true, and_true]
  exact ⟨fun hno => by simp at hno, fun _ => rfl, fun hno => by simp at hno⟩

/-- After a logon with STARTTLS, the next connection goes to another port, with TLS from
the start, though TLS was never switched on. -/
theorem setting_usurped :
    ∃ hist s, Run hist s ∧ s.last = false ∧ s.irc.con.ssl = true ∧ realport s.irc.con 0 =
      DEF_PORT_SSL ∧
      ∃ irc', openConn s.irc = (true, irc') ∧ irc'.con.shnd = true := by
  let irc := ircInit (0, 0) [] (serving [⟨lines [":s 670 me :go ahead"],
    lines [":s 001 me :hi", ":s 004 me host v u c"]⟩, ⟨[], []⟩])
  have hany : ((connect noUsers 8 (setStarttls irc 2 true).2).bind Except.toOption).any (fun c =>
      c.irc.con.ssl && (openConn (ircReset c.irc)).1 &&
        (openConn (ircReset c.irc)).2.con.shnd) = true := by
    decide +kernel
  obtain ⟨c, hc, hq⟩ := ok_of_any hany
  simp only [Bool.and_eq_true] at hq
  obtain ⟨⟨hssl, hok⟩, hshnd⟩ := hq
  have hrun : Run [(⟨irc, false⟩, []), (⟨(setStarttls irc 2 true).2, false⟩,
      connectCalls noUsers 8 (setStarttls irc 2 true).2), (⟨c.irc, false⟩, [])]
        ⟨ircReset c.irc, false⟩ :=
    .step (.step (.step (.init _ _ _) (.setStarttls 2 true)) (.connect hc)) .reset
  refine ⟨_, _, hrun, rfl, hssl, ?_, _, Prod.ext hok rfl, hshnd⟩
  have hport : (ircReset c.irc).con.ssl = true := hssl
  simp [realport, hport]

end Srsirc.TransportSetting
