import Srsirc.Registrations

namespace Srsirc.Utterance

open CharMap Message ServerInfo UserBase Context Conn CoreHandlers Capabilities Dispatch Connect Registry
open HandlerSpecs HandlerTable HandlerFrames DispatchOrder Registrations Fallible

/-- What the client asks of the server. -/
inductive Said
  | ls
  | req (caps : Str)
  | capEnd
  | starttls
  | authenticate
  deriving DecidableEq

/-- What a server makes of a line that it is sent. -/
def hear (line : Str) : Option Said :=
  if (ascii "CAP LS 302").isPrefixOf line then some .ls
  else if (ascii "CAP REQ :").isPrefixOf line then some (.req (line.drop 9))
  else if (ascii "CAP END").isPrefixOf line then some .capEnd
  else if (ascii "STARTTLS").isPrefixOf line then some .starttls
  else if (ascii "AUTHENTICATE ").isPrefixOf line then some .authenticate
  else none

def isEol (b : UInt8) : Bool := b == 0x0d || b == 0x0a

/-- All that a server makes of a text. -/
def commands (text : Str) : List Said := (text.splitOnP isEol).filterMap hear

def OneLine (s : Str) : Prop := ∀ b ∈ s, isEol b = false

instance (s : Str) : Decidable (OneLine s) := inferInstanceAs (Decidable (∀ b ∈ s, _))

def Lined (msg : Msg) : Prop := ∀ k s, msg.fld k = .ok s → OneLine s

section Lines

variable {s t : Str}

theorem OneLine.append (hs : OneLine s) (ht : OneLine t) : OneLine (s ++ t) := by
  intro b hb
  exact (List.mem_append.1 hb).elim (hs b) (ht b)

theorem OneLine.take (h : OneLine s) (n : Nat) : OneLine (s.take n) :=
  fun b hb => h b (List.mem_of_mem_take hb)

theorem lined_of_mem {msg : Msg} (h : OneLine msg.mem) : Lined msg := by
  intro k s hs
  rw [Msg.fld] at hs
  cases hd : msg.deref k with
  | error e =>
    rw [hd] at hs
    cases hs
  | ok p =>
    rw [hd] at hs
    cases hs
    intro b hb
    exact h b (List.mem_of_mem_drop (List.takeWhile_subset _ hb))

theorem commands_nil : commands [] = [] := by decide +kernel

theorem commands_line (h : OneLine s) : commands s = (hear s).toList := by
  rw [commands, List.splitOnP_eq_singleton h, List.filterMap_cons]
  cases hear s <;> rfl

/-- What stands before the end of a line and what stands behind it are heard one by one. -/
theorem commands_eol (s t : Str) {b : UInt8} (hb : isEol b = true) :
    commands (s ++ b :: t) = commands s ++ commands t := by
  rw [commands, List.splitOnP_append_cons s t hb, List.filterMap_append, commands, commands]

theorem commands_crlf (s t : Str) : commands (s ++ (crlf ++ t)) = commands s ++ commands t := by
  rw [crlf, List.cons_append, List.cons_append, List.nil_append, commands_eol s _ rfl]
  congr 1

/-- Part of an end of line does for all of it. -/
theorem commands_cut (s : Str) (n : Nat) : commands (s ++ crlf.take n) = commands s := by
  match n with
  | 0 => rw [List.take_zero, List.append_nil]
  | 1 =>
    have h := commands_eol s [] (b := 0x0d) rfl
    rwa [commands_nil, List.append_nil] at h
  | n + 2 =>
    have h := commands_crlf s []
    rw [commands_nil, List.append_nil, List.append_nil] at h
    rwa [List.take_of_length_le (Nat.le_add_left 2 n)]

theorem commands_snprintf (n : Nat) (s : Str) :
    commands (snprintf n (s ++ crlf)) = commands (snprintf n s) := by
  rw [snprintf, List.take_append, commands_cut, snprintf]

end Lines

def Willing (con : Iconn) : Prop := con.online = true ∧ ∀ r ∈ con.world.write, r = true

/-- What was written on the way from one state of the connection to another is `text`. -/
structure Utters (con con' : Iconn) (text : Str) : Prop where
  sent : ∃ ws, con'.sent = con.sent ++ ws ∧ (ws.map Prod.snd).flatten = text
  online : con'.online = con.online
  write : ∀ r ∈ con'.world.write, r ∈ con.world.write

def uttered (con con' : Iconn) : Str := ((con'.sent.drop con.sent.length).map Prod.snd).flatten

variable {con con' con'' : Iconn} {text text' : Str}

theorem Utters.refl (con : Iconn) : Utters con con [] :=
  ⟨⟨[], (List.append_nil _).symm, rfl⟩, rfl, fun _ h => h⟩

theorem Utters.trans (h : Utters con con' text) (h' : Utters con' con'' text') :
    Utters con con'' (text ++ text') := by
  obtain ⟨ws, hsent, htext⟩ := h.sent
  obtain ⟨ws', hsent', htext'⟩ := h'.sent
  refine ⟨⟨ws ++ ws', ?_, ?_⟩, h'.online.trans h.online, fun r hr => h.write r (h'.write r hr)⟩
  · rw [hsent', hsent, List.append_assoc]
  · rw [List.map_append, List.flatten_append, htext, htext']

theorem Utters.uttered (h : Utters con con' text) : uttered con con' = text := by
  obtain ⟨ws, hsent, htext⟩ := h.sent
  rw [Utterance.uttered, hsent, List.drop_left, htext]

theorem Utters.willing (h : Utters con con' text) (hw : Willing con) : Willing con' :=
  ⟨h.online.trans hw.1, fun r hr => hw.2 r (h.write r hr)⟩

theorem connWriteRaw_utters (hw : Willing con) (buf : Str) :
    ∃ con', connWriteRaw con buf = (true, con') ∧ Utters con con' buf := by
  have hask : ∃ write, askWrite con = (true, { con with world := { con.world with write } }) ∧
      ∀ r ∈ write, r ∈ con.world.write := by
    rw [askWrite]
    cases hwrite : con.world.write with
    | nil => exact ⟨[], rfl, fun _ h => h⟩
    | cons r rs =>
      have hr := hw.2 r (hwrite ▸ List.mem_cons_self)
      exact ⟨rs, by rw [ask, hr], fun _ h => List.mem_cons_of_mem _ h⟩
  obtain ⟨write, hask, hmem⟩ := hask
  refine ⟨{ con with world := { con.world with write }, sent := con.sent ++ [(con.shnd, buf)] }, ?_,
    ⟨[(con.shnd, buf)], rfl, by simp⟩, rfl, hmem⟩
  rw [connWriteRaw, if_neg (by simp [hw.1]), hask]

def terminated (line : Str) : Str := line ++ if crlf <:+ line then [] else crlf

theorem commands_terminated (line rest : Str) :
    commands (terminated line ++ rest) = commands line ++ commands rest := by
  rw [terminated]
  split
  · next h =>
    obtain ⟨s, rfl⟩ := h
    have hs := commands_crlf s []
    rw [commands_nil, List.append_nil, List.append_nil] at hs
    rw [List.append_nil, hs, List.append_assoc, commands_crlf]
  · rw [List.append_assoc, commands_crlf]

theorem connWrite_utters (hw : Willing con) (line : Str) :
    ∃ con', connWrite con line = (true, con') ∧ Utters con con' (terminated line) := by
  obtain ⟨con₁, hline, h₁⟩ := connWriteRaw_utters hw line
  obtain ⟨con₂, hend, h₂⟩ :=
    connWriteRaw_utters (h₁.willing hw) (if crlf <:+ line then [] else crlf)
  refine ⟨con₂, ?_, h₁.trans h₂⟩
  rw [connWrite, hline]
  exact hend

theorem writeOr_utters {irc : Irc} (hw : Willing irc.con) (line : Str) (done : Flags) :
    ∃ con, writeOr irc line done = (done, { irc with con }) ∧
      Utters irc.con con (terminated line) := by
  obtain ⟨con, hwrite, h⟩ := connWrite_utters hw line
  exact ⟨con, by rw [writeOr, hwrite], h⟩

/-- The server is not asked for anything, whatever it is sent next. -/
def Idle (text : Str) : Prop := ∀ rest, commands (text ++ rest) = commands rest

theorem idle_nil : Idle [] := fun _ => rfl

theorem Idle.append (h : Idle text) (h' : Idle text') : Idle (text ++ text') := by
  intro rest
  rw [List.append_assoc, h, h']

theorem Idle.none (h : Idle text) : commands text = [] := by
  have hnil := h []
  rwa [List.append_nil, commands_nil] at hnil

theorem idle_terminated {line : Str} (h : commands line = []) : Idle (terminated line) := by
  intro rest
  rw [commands_terminated, h, List.nil_append]

structure Nicked (irc : Irc) : Prop where
  mynick : OneLine irc.info.mynick
  callback : ∀ f, irc.cbMutNick = some f → ∀ nick, OneLine nick → OneLine (f nick)

structure Chatter (irc irc' : Irc) : Prop where
  text : ∃ text, Idle text ∧ Utters irc.con irc'.con text
  caps : irc'.v3caps = irc.v3caps
  capreq : irc'.v3capreq = irc.v3capreq
  early : irc'.starttlsFirst = irc.starttlsFirst
  mech : irc'.saslMech = irc.saslMech
  msg : irc'.saslMsg = irc.saslMsg
  dumb : irc'.dumb = irc.dumb
  nicked : Nicked irc → Nicked irc'

theorem Chatter.trans {irc irc' irc'' : Irc} (h : Chatter irc irc') (h' : Chatter irc' irc'') :
    Chatter irc irc'' := by
  obtain ⟨text, hidle, hu⟩ := h.text
  obtain ⟨text', hidle', hu'⟩ := h'.text
  exact ⟨⟨_, hidle.append hidle', hu.trans hu'⟩, h'.caps.trans h.caps, h'.capreq.trans h.capreq,
    h'.early.trans h.early, h'.mech.trans h.mech, h'.msg.trans h.msg, h'.dumb.trans h.dumb,
    fun hn => h'.nicked (h.nicked hn)⟩

theorem Chatter.refl (irc : Irc) : Chatter irc irc :=
  ⟨⟨[], idle_nil, Utters.refl _⟩, rfl, rfl, rfl, rfl, rfl, rfl, id⟩

theorem Noted.chatter {irc irc' : Irc} (h : Noted irc irc')
    (hn : OneLine irc.info.mynick → OneLine irc'.info.mynick) : Chatter irc irc' := by
  obtain ⟨_, _, rfl⟩ := h
  exact ⟨⟨[], idle_nil, Utters.refl _⟩, rfl, rfl, rfl, rfl, rfl, rfl,
    fun h => ⟨hn h.mynick, h.callback⟩⟩

theorem writeOr_chatter {irc : Irc} (hw : Willing irc.con) {line : Str} (hidle : commands line = [])
    (done : Flags) : Chatter irc (writeOr irc line done).2 := by
  obtain ⟨con, hwrite, hu⟩ := writeOr_utters hw line done
  rw [hwrite]
  exact ⟨⟨_, idle_terminated hidle, hu⟩, rfl, rfl, rfl, rfl, rfl, rfl, fun h => ⟨h.1, h.2⟩⟩

theorem commands_idle {line : Str} {n : Nat} (h : OneLine line)
    (hc : line.head? = some 0x50 ∨ line.head? = some 0x4e) :
    commands (snprintf (n + 2) (line ++ crlf)) = [] := by
  rw [commands_snprintf, snprintf, commands_line (h.take _)]
  cases line with
  | nil => simp at hc
  | cons c line =>
    obtain hc | hc := hc
    · obtain rfl := Option.some.inj hc
      rfl
    · obtain rfl := Option.some.inj hc
      rfl

def KeepsNick (irc irc' : Irc) : Prop := OneLine irc.info.mynick → OneLine irc'.info.mynick

section Nick

variable {msg : Msg}

theorem handleAttr_nick (info : Info) (nam : Str) (val : Option Str) :
    Ensures (handleAttr info nam val) fun r => r.2.mynick = info.mynick := by
  have hpfx : ∀ val, (handle_005_PREFIX info val).2.mynick = info.mynick := by
    intro val
    cases val with
    | nil => rfl
    | cons c rest =>
      rw [handle_005_PREFIX]
      dsimp only
      split
      · rfl
      · split <;> rfl
  cases val with
  | none =>
    exact Ensures.ite (fun _ => .error) fun _ => Ensures.ite (fun _ => .error) fun _ =>
      Ensures.ite (fun _ => .error) fun _ => Ensures.ite (fun _ => .error) fun _ => Ensures.ok rfl
  | some val =>
    exact Ensures.ite (fun _ => Ensures.ok rfl) fun _ =>
      Ensures.ite (fun _ => Ensures.ok (hpfx val)) fun _ => Ensures.ite (fun _ => Ensures.ok rfl)
        fun _ => Ensures.ite (fun _ => Ensures.ok rfl) fun _ => Ensures.ok rfl

theorem noteAttrs_nick (msg : Msg) (k z : Nat) (irc : Irc) :
    Ensures (noteAttrs msg k z irc) fun r => r.2.2.info.mynick = irc.info.mynick := by
  induction k generalizing z irc with
  | zero => exact Ensures.ok rfl
  | succ k ih =>
    refine Ensures.value fun attr => ?_
    have hattr : Ensures (noteAttr irc attr) fun r => r.2.info.mynick = irc.info.mynick :=
      (handleAttr_nick _ _ _).bind fun r h => Ensures.ok h
    refine hattr.bind fun r h => Ensures.ite (fun _ => Ensures.ok h) fun _ => ?_
    exact (ih _ _).bind fun r' h' => Ensures.ok (h'.trans h)

variable (hl : Lined msg) (irc : Irc) (nargs : Nat) (logon : Bool)

include hl

/-- Our nick is only ever set to a field of the message. -/
theorem run_nick {h : Hnd} (hs : silent h = true) :
    Ensures (run h irc msg nargs logon) fun r => KeepsNick irc r.2 := by
  have hsame : ∀ {flags : Flags} {irc' : Irc}, irc'.info.mynick = irc.info.mynick →
      Ensures (.ok (flags, irc') : Except Fault (Flags × Irc)) fun r => KeepsNick irc r.2 := by
    intro flags irc' heq
    refine Ensures.ok fun h => ?_
    rw [heq]
    exact h
  have hkept : ∀ k, Ensures (keepLogonconv irc k msg)
      fun irc' => irc'.info.mynick = irc.info.mynick := fun _ => Ensures.value fun _ => Ensures.ok rfl
  cases h with
  | handle_PING | handle_bad_nick | handle_005 | handle_CAP | handle_AUTHENTICATE | handle_670
  | handle_691 | handle_903 => cases hs
  | handle_001 =>
    refine Ensures.ite (fun _ => hsame rfl) fun _ => Ensures.value fun irc' => ?_
    exact Ensures.bind (hl 2) fun nick hn => Ensures.ok fun _ => hn.take _
  | handle_002 => exact Ensures.ite (fun _ => hsame rfl) fun _ => (hkept _).bind fun _ => hsame
  | handle_003 => exact Ensures.ite (fun _ => hsame rfl) fun _ => (hkept _).bind fun _ => hsame
  | handle_004 =>
    refine Ensures.ite (fun _ => Ensures.value fun _ => hsame rfl) fun _ =>
      (hkept _).bind fun irc' h => ?_
    exact Ensures.value fun _ => Ensures.value fun _ => Ensures.value fun _ =>
      Ensures.value fun _ => hsame h
  | handle_383 =>
    refine Ensures.ite (fun _ => hsame rfl) fun _ => Ensures.bind (hl 2) fun nick hn => ?_
    exact Ensures.ite (fun _ => Ensures.value fun _ => Ensures.ok fun _ => hn.take _)
      fun _ => Ensures.ok fun _ => hn.take _
  | handle_465 =>
    exact Ensures.ite (fun _ => Ensures.value fun _ => hsame rfl) fun _ => hsame rfl
  | handle_464 | handle_466 => exact hsame rfl
  | handle_484 => exact hsame rfl
  | handle_ERROR =>
    exact Ensures.ite (fun _ => Ensures.value fun _ => hsame rfl) fun _ => hsame rfl
  | handle_NICK =>
    refine Ensures.ite (fun _ => hsame rfl) fun _ => Ensures.value fun _ => ?_
    refine Ensures.ite (fun _ => Ensures.bind (hl 2) fun nick hn => ?_) fun _ => hsame rfl
    exact Ensures.ok fun _ => hn.take _
  | handle_MODE =>
    refine Ensures.ite (fun _ => hsame rfl) fun _ => Ensures.value fun _ => ?_
    exact Ensures.ite (fun _ => hsame rfl) fun _ => Ensures.value fun _ => hsame rfl
  | handle_saslerr =>
    exact Ensures.ite (fun _ => hsame rfl) fun _ =>
      Ensures.ite (fun _ => hsame rfl) fun _ => hsame rfl
  | h_JOIN | h_311 | h_332 | h_333 | h_352 | h_353 | h_366 | h_PART | h_QUIT | h_NICK | h_KICK | h_MODE
  | h_PRIVMSG | h_NOTICE | h_324 | h_TOPIC =>
    rw [run]
    exact Ensures.value fun _ => hsame rfl

end Nick

section Handlers

variable {irc : Irc} (hw : Willing irc.con) (hn : Nicked irc) {msg : Msg} (hl : Lined msg)
    (nargs : Nat) (logon : Bool)

include hw hl in
theorem handle_PING_chatter :
    Ensures (handle_PING irc msg nargs logon) fun r => Chatter irc r.2 := by
  refine Ensures.ite (fun _ => Ensures.ok (.refl _)) fun _ =>
    Ensures.ite (fun _ => Ensures.ok (.refl _)) fun _ => ?_
  refine Ensures.bind (hl 2) fun arg harg => Ensures.ok (writeOr_chatter hw ?_ 0)
  exact commands_idle (OneLine.append (s := ascii "PONG :") (by decide +kernel) harg) (Or.inl rfl)

include hw hn in
theorem handle_bad_nick_chatter :
    Ensures (handle_bad_nick irc msg nargs logon) fun r => Chatter irc r.2 := by
  refine Ensures.ite (fun _ => Ensures.ok (.refl _)) fun _ => ?_
  split
  · exact Ensures.ok (.refl _)
  · next mutNick hmut =>
    have hnick : OneLine (strNcpy (mutNick irc.info.mynick) MAX_NICK_LEN) :=
      (hn.callback _ hmut _ hn.mynick).take _
    have hc : Chatter irc { irc with info := { irc.info with
        mynick := strNcpy (mutNick irc.info.mynick) MAX_NICK_LEN } } :=
      Noted.chatter ⟨_, _, rfl⟩ fun _ => hnick
    have hidle := commands_idle (n := MAX_NICK_LEN + 6)
      (OneLine.append (s := ascii "NICK ") (by decide +kernel) hnick) (Or.inr rfl)
    have hwrite : ∀ irc₁ : Irc, irc₁.con = irc.con → Chatter irc₁ (writeOr irc₁ _ 0).2 :=
      fun irc₁ h => writeOr_chatter (h ▸ hw) hidle 0
    exact Ensures.ite (fun _ => Ensures.ok hc) fun _ => Ensures.ok (hc.trans (hwrite _ rfl))

theorem handle_005_chatter : Ensures (handle_005 irc msg nargs logon) fun r => Chatter irc r.2 := by
  refine Ensures.bind (fun r hr => And.intro (noteAttrs_noted irc msg _ _ r hr)
    (noteAttrs_nick msg _ _ irc r hr)) fun ⟨ret, haveCasemap, irc'⟩ h => ?_
  have hc : Chatter irc irc' := Noted.chatter h.1 fun hn => by rwa [h.2]
  refine Ensures.ite (fun _ => Ensures.ok hc) fun _ => Ensures.ite (fun _ => ?_) fun _ =>
    Ensures.ok hc
  have haside := (trkInit_spec irc').2
  split
  · next irc₁ hinit =>
    rw [hinit] at haside
    obtain ⟨_, _, rfl⟩ := haside
    exact Ensures.ok (hc.trans ⟨⟨[], idle_nil, Utters.refl _⟩, rfl, rfl, rfl, rfl, rfl, rfl,
      fun h => ⟨h.1, h.2⟩⟩)
  · next irc₁ hinit =>
    rw [hinit] at haside
    obtain ⟨_, _, rfl⟩ := haside
    exact Ensures.ok (hc.trans ⟨⟨[], idle_nil, Utters.refl _⟩, rfl, rfl, rfl, rfl, rfl, rfl,
      fun h => ⟨h.1, h.2⟩⟩)

def negotiates (h : Hnd) : Bool :=
  h ∈ [.handle_CAP, .handle_AUTHENTICATE, .handle_670, .handle_691, .handle_903, .handle_saslerr]

include hw hn hl in
theorem run_chatter {h : Hnd} (hneg : negotiates h = false) :
    Ensures (run h irc msg nargs logon) fun r => Chatter irc r.2 := by
  by_cases hs : silent h = true
  · intro r hr
    exact Noted.chatter (run_noted irc msg nargs logon hs r hr) (run_nick hl irc nargs logon hs r hr)
  · cases h with
    | handle_PING => exact handle_PING_chatter hw hl nargs logon
    | handle_bad_nick => exact @handle_bad_nick_chatter irc hw hn msg nargs logon
    | handle_005 => exact handle_005_chatter nargs logon
    | handle_CAP | handle_AUTHENTICATE | handle_670 | handle_691 | handle_903 => cases hneg
    | _ => exact absurd rfl hs

end Handlers

theorem callAll_chatter {msg : Msg} (hl : Lined msg) {logon : Bool} (es : List Msghnd)
    (hes : ∀ e ∈ es, negotiates e.hndfn = false) {irc : Irc} (hw : Willing irc.con)
    (hn : Nicked irc) (res : Flags) :
    Ensures (callAll msg logon es res irc) fun r => Chatter irc r.2 := by
  induction es generalizing irc res with
  | nil => exact Ensures.ok (.refl _)
  | cons e es ih =>
    rw [callAll]
    refine (run_chatter hw hn hl msg.nargs logon (hes e List.mem_cons_self)).bind ?_
    rintro ⟨r, irc'⟩ h
    refine Ensures.ite (fun _ => Ensures.ok h) fun _ => ?_
    obtain ⟨_, _, hu⟩ := h.text
    refine (ih (fun e' he' => hes e' (List.mem_cons_of_mem _ he')) (hu.willing hw) (h.nicked hn)
      _).mono fun r' h' => ?_
    exact h.trans h'

end Srsirc.Utterance
