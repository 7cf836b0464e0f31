import Srsirc.ConnFrames
import Srsirc.Negotiation

namespace Srsirc.NegotiationSteps

open CharMap Message UserBase Context Conn CoreHandlers Capabilities Dispatch Connect Registry
open CapSpecs
open ConnFrames HandlerTable DispatchOrder Registrations Utterance Negotiation Fallible

def enabled (caps : List V3cap) (name : Str) : Bool := (findCap caps name).any V3cap.enabled

section Caps

variable {name name' : Str} {f : V3cap → V3cap} {caps : List V3cap}

theorem names_updateCap (hf : ∀ cap, (f cap).name = cap.name) :
    (updateCap name f caps).map V3cap.name = caps.map V3cap.name := by
  induction caps with
  | nil => rfl
  | cons cap caps ih =>
    rw [updateCap]
    split
    · rw [List.map_cons, hf, List.map_cons]
    · rw [List.map_cons, ih, List.map_cons]

theorem findCap_cons (cap : V3cap) (caps : List V3cap) (name : Str) :
    findCap (cap :: caps) name = if cap.name = name then some cap else findCap caps name := by
  rw [findCap, List.find?_cons, findCap]
  by_cases h : cap.name = name <;> simp [h]

theorem findCap_updateCap (hf : ∀ cap, (f cap).name = cap.name) :
    findCap (updateCap name f caps) name' =
      if name' = name then (findCap caps name').map f else findCap caps name' := by
  induction caps with
  | nil => split <;> rfl
  | cons cap caps ih =>
    rw [updateCap, findCap_cons]
    by_cases hcap : cap.name = name
    · rw [if_pos hcap, findCap_cons, hf, hcap]
      by_cases hn : name = name'
      · simp [hn]
      · simp [hn, Ne.symm hn]
    · rw [if_neg hcap, findCap_cons, ih]
      by_cases hc : cap.name = name'
      · have hn : ¬name' = name := fun hn => hcap (hc.trans hn)
        simp [hc, hn]
      · simp [hc]

theorem isSome_findCap : (findCap caps name).isSome = true ↔ name ∈ caps.map V3cap.name := by
  rw [findCap, List.find?_isSome, List.mem_map]
  simp only [decide_eq_true_eq]

theorem names_noteCap (offered : Bool) (word : Str) :
    (noteCap offered caps word).map V3cap.name = caps.map V3cap.name := names_updateCap fun _ => rfl

theorem enabled_noteCap (offered : Bool) (word : Str) :
    enabled (noteCap offered caps word) name = (enabled caps name ||
      (!offered && decide (name = word.takeWhile (· != 0x3d)) && (findCap caps name).isSome)) := by
  rw [enabled, noteCap, findCap_updateCap (fun _ => by rfl), enabled]
  by_cases hn : name = word.takeWhile (· != 0x3d)
  · rw [if_pos hn]
    cases findCap caps name <;> cases offered <;> simp [hn]
  · rw [if_neg hn]
    simp [hn]

theorem names_noteCaps (offered : Bool) (words : List Str) (caps : List V3cap) :
    (words.foldl (noteCap offered) caps).map V3cap.name = caps.map V3cap.name := by
  induction words generalizing caps with
  | nil => rfl
  | cons w words ih => rw [List.foldl_cons, ih, names_noteCap]

theorem enabled_offered (words : List Str) (caps : List V3cap) (name : Str) :
    enabled (words.foldl (noteCap true) caps) name = enabled caps name := by
  induction words generalizing caps with
  | nil => rfl
  | cons w words ih =>
    rw [List.foldl_cons, ih, enabled_noteCap]
    simp

theorem enabled_acked (words : List Str) (caps : List V3cap) (name : Str) :
    enabled (words.foldl (noteCap false) caps) name = true ↔ enabled caps name = true ∨
      (∃ w ∈ words, w.takeWhile (· != 0x3d) = name) ∧ name ∈ caps.map V3cap.name := by
  induction words generalizing caps with
  | nil => simp
  | cons w words ih =>
    rw [List.foldl_cons, ih, enabled_noteCap, names_noteCap, ← isSome_findCap]
    simp only [Bool.or_eq_true, Bool.and_eq_true, Bool.not_false, true_and, decide_eq_true_eq,
      List.mem_cons, exists_eq_or_imp, eq_comm (a := name)]
    tauto

end Caps

/-- The client in the negotiation: in the loop of `irc_connect`, with what it wants. -/
structure Client (irc : Irc) : Prop where
  table : Table irc
  roll : Roll irc
  dumb : irc.dumb = false
  inband : irc.starttlsFirst = false
  willing : Willing irc.con
  wanted : irc.v3caps.map V3cap.name ∈ wishes
  sasl : ascii "sasl" ∈ irc.v3caps.map V3cap.name → irc.saslMech.isSome = true ∧
      irc.saslMsg.isSome = true
  mech : ∀ mech ∈ irc.saslMech, OneLine mech
  msg : ∀ msg ∈ irc.saslMsg, OneLine msg
  nicked : Nicked irc

/-- What the client may come to by handling a message, with the text that it writes. -/
structure Turn (irc irc' : Irc) (text : Str) : Prop where
  con : Utters irc.con irc'.con text
  names : irc'.v3caps.map V3cap.name = irc.v3caps.map V3cap.name
  dumb : irc'.dumb = irc.dumb
  early : irc'.starttlsFirst = irc.starttlsFirst
  mech : irc'.saslMech = irc.saslMech
  msg : irc'.saslMsg = irc.saslMsg
  nicked : Nicked irc → Nicked irc'

variable {irc irc' : Irc} {text : Str} {users : UserHnds} {msg : Msg} {flags : Flags}

theorem Client.turn (h : Client irc) (ht : Turn irc irc' text)
    (hrun : msgHandle users irc msg true = .ok (flags, irc')) : Client irc' := by
  have htable : Table irc' :=
    msgHandle_rule (fun hnd irc ht => (run_conduct hnd irc msg msg.nargs true).mono
    fun r hr => ht.kept hr.kept) (fun hl => Bool.noConfusion hl) (fun hl => Bool.noConfusion hl)
      h.table _ hrun
  have hroll : Roll irc' := h.roll.msgHandle (fun hl => Bool.noConfusion hl)
    (fun hl => Bool.noConfusion hl) _ hrun
  refine ⟨htable, hroll, ht.dumb.trans h.dumb, ht.early.trans h.inband,
    ht.con.willing h.willing, ?_, ?_, ?_, ?_, ht.nicked h.nicked⟩
  · rw [ht.names]
    exact h.wanted
  · rw [ht.names, ht.mech, ht.msg]
    exact h.sasl
  · rw [ht.mech]
    exact h.mech
  · rw [ht.msg]
    exact h.msg

theorem v3_alone : ∀ p ∈ v3Hnds false, ∀ m, m ≠ .v3 →
    ∀ q ∈ hndsOf false m, ascii q.1 ≠ ascii p.1 := by
  intro p hp m hm
  cases m with
  | core => revert p; decide +kernel
  | v3 => exact absurd rfl hm
  | track => revert p; decide +kernel

/-- A message of the negotiation goes to the one handler for it. -/
theorem Client.run (h : Client irc) {cmd : String} {hnd : Hnd} (hp : (cmd, hnd) ∈ v3Hnds false)
    (hcmd : msg.fld 1 = .ok (ascii cmd)) :
    msgHandle users irc msg true = Dispatch.run hnd irc msg msg.nargs true := by
  have hhas := h.table.has cmd hnd .v3 (by decide) (by rw [h.dumb]; exact hp)
  have hone := h.roll.registered (mem_occupied.2 hhas) fun e' he' hcmd' => by
    obtain ⟨c, hc, hec⟩ := h.table.known e' (mem_occupied.1 he')
    rw [h.dumb] at hc
    by_contra hm
    exact v3_alone _ hp _ hm _ hc (hec.symm.trans hcmd')
  rw [h.roll.msgHandle_eq, hcmd, ok_bind, hone, callAll_one]

def requests : List Str := [ascii "sasl", ascii "tls", ascii "sasl tls", ascii "tls sasl"]

def capNames (line : Str) : List Str :=
  (capWords (strNcpy line MAX_V3CAPLINE)).map fun w => w.takeWhile (· != 0x3d)

theorem capNamed_iff {line name : Str} : CapNamed line name ↔ name ∈ capNames line := by
  rw [capNames, List.mem_map]
  rfl

def joinCaps (destsz : Nat) : List Str → Str
  | [] => []
  | name :: names =>
    names.foldl (fun dest name => strNcat (strNcat dest [0x20] destsz) name destsz)
      (strNcat [] name destsz)

theorem mkCapreq_eq (irc : Irc) (destsz : Nat) :
    mkCapreq irc destsz = joinCaps destsz ((irc.v3caps.filter V3cap.offered).map V3cap.name) := by
  rw [mkCapreq]
  cases irc.v3caps.filter V3cap.offered with
  | nil => rfl
  | cons cap caps => rw [List.map_cons, joinCaps, List.foldl_map]

theorem joinCaps_wished : ∀ names ∈ wishes, ∀ offered ∈ names.sublists, offered ≠ [] →
    joinCaps (MAX_V3CAPLEN - 9) offered ∈ requests ∧
      ∀ name ∈ capNames (joinCaps (MAX_V3CAPLEN - 9) offered), name ∈ names := by
  decide +kernel

theorem mkCapreq_wished (hw : irc.v3caps.map V3cap.name ∈ wishes)
    (hany : irc.v3caps.any V3cap.offered = true) : mkCapreq irc (MAX_V3CAPLEN - 9) ∈ requests ∧
      ∀ name, CapNamed (mkCapreq irc (MAX_V3CAPLEN - 9)) name →
        name ∈ irc.v3caps.map V3cap.name := by
  have hsub :
      (irc.v3caps.filter V3cap.offered).map V3cap.name ∈ (irc.v3caps.map V3cap.name).sublists :=
    List.mem_sublists.2 (List.filter_sublist.map _)
  have hne : (irc.v3caps.filter V3cap.offered).map V3cap.name ≠ [] := by
    rw [ne_eq, List.map_eq_nil_iff, List.filter_eq_nil_iff]
    intro hall
    obtain ⟨cap, hcap, hoff⟩ := List.any_eq_true.1 hany
    exact hall cap hcap hoff
  obtain ⟨hreq, hnames⟩ := joinCaps_wished _ hw _ hsub hne
  rw [mkCapreq_eq]
  exact ⟨hreq, fun name hn => hnames name (capNamed_iff.1 hn)⟩

theorem commands_req : ∀ caps ∈ requests, commands (terminated (ascii "CAP REQ :" ++ caps)) =
    [.req caps] := by
  decide +kernel

theorem commands_capEnd :
    commands (terminated (ascii "CAP END" ++ crlf)) = [.capEnd] := by decide +kernel

theorem commands_starttls :
    commands (terminated (ascii "STARTTLS" ++ crlf)) = [.starttls] := by decide +kernel

theorem commands_authenticate {arg : Str} (h : OneLine arg) :
    commands (ascii "AUTHENTICATE " ++ arg) = [.authenticate] :=
  commands_line (OneLine.append (s := ascii "AUTHENTICATE ") (by decide +kernel) h)

theorem Turn.refl (irc : Irc) : Turn irc irc [] := ⟨Utters.refl _, rfl, rfl, rfl, rfl, rfl, id⟩

theorem Turn.trans {irc'' : Irc} {text' : Str} (h : Turn irc irc' text)
    (h' : Turn irc' irc'' text') :
    Turn irc irc'' (text ++ text') :=
  ⟨h.con.trans h'.con, h'.names.trans h.names, h'.dumb.trans h.dumb, h'.early.trans h.early,
    h'.mech.trans h.mech, h'.msg.trans h.msg, fun hn => h'.nicked (h.nicked hn)⟩

theorem updateCaps_turn (irc : Irc) (line : Str) (offered : Bool) :
    Turn irc (updateCaps irc line offered) [] :=
  ⟨Utters.refl _, names_noteCaps _ _ _, rfl, rfl, rfl, rfl, fun h => ⟨h.mynick, h.callback⟩⟩

theorem con_turn {con : Iconn} (h : Utters irc.con con text) : Turn irc { irc with con } text :=
  ⟨h, rfl, rfl, rfl, rfl, rfl, fun h => ⟨h.mynick, h.callback⟩⟩

/-- The client ends the negotiation or, with SASL in force, goes on to that. -/
structure Concluded (irc irc' : Irc) (text : Str) : Prop where
  turn : Turn irc irc' text
  caps : irc'.v3caps = irc.v3caps
  heard : enabled irc.v3caps (ascii "sasl") = true ∧ commands text = [.authenticate] ∨
    enabled irc.v3caps (ascii "sasl") = false ∧ commands text = [.capEnd]

theorem concludeSaslCap_spec (hw : Willing irc.con)
    (hm : ∀ mech ∈ irc.saslMech, OneLine mech) :
    ∃ irc' text, concludeSaslCap irc = (0, irc') ∧ Concluded irc irc' text := by
  rw [concludeSaslCap]
  cases hcap : (findCap irc.v3caps (ascii "sasl")).any V3cap.enabled with
  | true =>
    obtain ⟨cap, hfind, hen⟩ := (Option.any_eq_true _ _).1 hcap
    simp only [hfind, hen, if_true]
    obtain ⟨con, hwrite, hu⟩ := writeOr_utters hw
      (snprintf 512 (ascii "AUTHENTICATE " ++ irc.saslMech.getD (ascii "(null)") ++ crlf)) 0
    refine ⟨_, _, hwrite, con_turn hu, rfl, Or.inl ⟨hcap, ?_⟩⟩
    have hmech : OneLine (irc.saslMech.getD (ascii "(null)")) := by
      cases hmech : irc.saslMech with
      | none => decide +kernel
      | some mech => exact hm mech hmech
    have hend := commands_terminated
      (snprintf 512 (ascii "AUTHENTICATE " ++ irc.saslMech.getD (ascii "(null)") ++ crlf)) []
    rw [commands_nil, List.append_nil, List.append_nil, commands_snprintf] at hend
    rw [hend, snprintf, List.take_append]
    exact commands_authenticate (hmech.take _)
  | false =>
    have hline :
        snprintf 512 (ascii "CAP END" ++ crlf) = ascii "CAP END" ++ crlf := by decide +kernel
    obtain ⟨con, hwrite, hu⟩ := writeOr_utters hw (ascii "CAP END" ++ crlf) 0
    refine ⟨{ irc with con }, _, ?_, con_turn hu, rfl, Or.inr ⟨hcap, commands_capEnd⟩⟩
    cases hfind : findCap irc.v3caps (ascii "sasl") with
    | none =>
      simp only []
      rw [hline]
      exact hwrite
    | some cap =>
      rw [hfind] at hcap
      have hen : cap.enabled = false := hcap
      simp only [hen, Bool.false_eq_true, if_false]
      rw [hline]
      exact hwrite

theorem Client.lsMore (h : Client irc) (hm : Answer.lsMore.Means msg) :
    ∃ irc', msgHandle users irc msg true = .ok (0, irc') ∧ Turn irc irc' [] ∧
      ∀ name, enabled irc'.v3caps name = enabled irc.v3caps name := by
  obtain ⟨h1, h3, hn, h4, caps, h5⟩ := hm
  refine ⟨updateCaps irc caps true, ?_, updateCaps_turn _ _ _, fun name => enabled_offered _ _ _⟩
  have hls : handle_CAP_LS irc msg msg.nargs true = .ok (MORE_CAPS, updateCaps irc caps true) := by
    rw [handle_CAP_LS, if_neg (by simp), if_neg (by omega), h4, ok_bind, if_pos (by decide +kernel),
      h5, ok_bind]
  rw [h.run (show ("CAP", .handle_CAP) ∈ v3Hnds false by decide) h1]
  rw [Dispatch.run, handle_CAP, if_neg (by omega), h3, ok_bind, if_pos rfl, hls, ok_bind]
  rfl

theorem Client.lsEnd (h : Client irc) (hm : Answer.lsEnd.Means msg) :
    ∃ flags irc' text, msgHandle users irc msg true = .ok (flags, irc') ∧ Turn irc irc' text ∧
      (∀ name, enabled irc'.v3caps name = enabled irc.v3caps name) ∧
      (flags.has CANT_PROCEED = true ∧ text = [] ∨
        flags.has CANT_PROCEED = false ∧ (commands text = [.capEnd] ∨
          ∃ caps ∈ requests, commands text = [.req caps] ∧ irc'.v3capreq = caps ∧
            ∀ name, CapNamed caps name → name ∈ irc'.v3caps.map V3cap.name)) := by
  obtain ⟨h1, h3, hn, caps, h4, hstar⟩ := hm
  have hls : handle_CAP_LS irc msg msg.nargs true = .ok (0, updateCaps irc caps true) := by
    rw [handle_CAP_LS, if_neg (by simp), if_neg (by omega), h4, ok_bind, if_neg hstar]
  have hrun : msgHandle users irc msg true = .ok (requestCaps (updateCaps irc caps true)) := by
    rw [h.run (show ("CAP", .handle_CAP) ∈ v3Hnds false by decide) h1]
    rw [Dispatch.run, handle_CAP, if_neg (by omega), h3, ok_bind, if_pos rfl, hls, ok_bind]
    rfl
  have hturn := updateCaps_turn irc caps true
  have hen : ∀ name, enabled (updateCaps irc caps true).v3caps name =
      enabled irc.v3caps name := fun name =>
    enabled_offered _ _ _
  have hwanted : (updateCaps irc caps true).v3caps.map V3cap.name ∈ wishes := by
    rw [hturn.names]
    exact h.wanted
  have hwill : Willing (updateCaps irc caps true).con := h.willing
  generalize updateCaps irc caps true = irc₁ at hrun hturn hen hwanted hwill
  rw [requestCaps] at hrun
  split at hrun
  · exact ⟨_, _, _, hrun, hturn, hen, Or.inl ⟨by decide, rfl⟩⟩
  · by_cases hany : irc₁.v3caps.any V3cap.offered = true
    · obtain ⟨hreq, hnames⟩ := mkCapreq_wished hwanted hany
      dsimp only at hrun
      rw [if_pos hany] at hrun
      obtain ⟨con, hwrite, hu⟩ :=
        @writeOr_utters { irc₁ with v3capreq := mkCapreq irc₁ (MAX_V3CAPLEN - 9) }
        hwill (ascii "CAP REQ :" ++ mkCapreq irc₁ (MAX_V3CAPLEN - 9)) 0
      rw [hwrite] at hrun
      refine ⟨_, _, _, hrun, hturn.trans ⟨hu, rfl, rfl, rfl, rfl, rfl, fun h => ⟨h.mynick, h.callback⟩⟩, hen,
        Or.inr ⟨by decide, Or.inr ?_⟩⟩
      exact ⟨_, hreq, commands_req _ hreq, rfl, hnames⟩
    · dsimp only at hrun
      rw [if_neg hany] at hrun
      obtain ⟨con, hwrite, hu⟩ :=
        @writeOr_utters { irc₁ with v3capreq := mkCapreq irc₁ (MAX_V3CAPLEN - 9) }
        hwill (ascii "CAP END" ++ crlf) 0
      rw [hwrite] at hrun
      refine ⟨_, _, _, hrun, hturn.trans ⟨hu, rfl, rfl, rfl, rfl, rfl, fun h => ⟨h.mynick, h.callback⟩⟩, hen,
        Or.inr ⟨by decide, Or.inl ?_⟩⟩
      exact commands_capEnd

theorem trimRight_spaces (s : Str) (n : Nat) :
    trimRight (s ++ List.replicate n 0x20) = trimRight s := by
  rw [trimRight, trimRight, List.reverse_append, List.reverse_replicate]
  congr 1
  induction n with
  | zero => rfl
  | succ n ih => exact ih

theorem trimRight_requests : ∀ caps ∈ requests, trimRight caps = caps := by decide +kernel

theorem Client.ack (h : Client irc) {caps : Str} (hreq : irc.v3capreq = caps)
    (hmem : caps ∈ requests)
    (hnamed : ∀ name, CapNamed caps name → name ∈ irc.v3caps.map V3cap.name)
    (hm : (Answer.ack caps).Means msg) :
    ∃ irc' text, msgHandle users irc msg true = .ok (0, irc') ∧ Turn irc irc' text ∧
      (CapNamed caps (ascii "sasl") → enabled irc'.v3caps (ascii "sasl") = true) ∧
      (commands text = [.starttls] ∨
        enabled irc'.v3caps (ascii "sasl") = true ∧ commands text = [.authenticate] ∨
        enabled irc'.v3caps (ascii "sasl") = false ∧ commands text = [.capEnd]) := by
  obtain ⟨h1, h3, hn, n, h4⟩ := hm
  have htrim : trimRight (caps ++ List.replicate n 0x20) = caps :=
    (trimRight_spaces caps n).trans (trimRight_requests caps hmem)
  have hack : handle_CAP_ACK irc msg msg.nargs = .ok (0, updateCaps irc caps false) := by
    rw [handle_CAP_ACK, if_neg (by omega), h4, ok_bind, htrim, hreq, if_neg (not_not.2 rfl)]
  have hrun : msgHandle users irc msg true =
      if (findCap (updateCaps irc caps false).v3caps (ascii "tls")).any (·.enabled) then
        .ok (writeOr (updateCaps irc caps false) (ascii "STARTTLS" ++ crlf) 0)
      else .ok (concludeSaslCap (updateCaps irc caps false)) := by
    rw [h.run (show ("CAP", .handle_CAP) ∈ v3Hnds false by decide) h1]
    rw [Dispatch.run, handle_CAP, if_neg (by omega), h3, ok_bind,
      if_neg (by decide +kernel), if_pos rfl,
      hack, ok_bind]
    rfl
  have hturn := updateCaps_turn irc caps false
  have hsasl : CapNamed caps (ascii "sasl") →
      enabled (updateCaps irc caps false).v3caps (ascii "sasl") = true := fun hn =>
    (enabled_acked _ _ _).2 (Or.inr ⟨hn, hnamed _ hn⟩)
  have hwill : Willing (updateCaps irc caps false).con := h.willing
  have hmech : ∀ mech ∈ (updateCaps irc caps false).saslMech, OneLine mech := h.mech
  generalize updateCaps irc caps false = irc₁ at hrun hturn hsasl hwill hmech
  split at hrun
  · obtain ⟨con, hwrite, hu⟩ := writeOr_utters hwill (ascii "STARTTLS" ++ crlf) 0
    rw [hwrite] at hrun
    exact ⟨_, _, hrun, hturn.trans (con_turn hu), hsasl, Or.inl commands_starttls⟩
  · obtain ⟨irc₂, text, hconc, hc⟩ := concludeSaslCap_spec hwill hmech
    rw [hconc] at hrun
    refine ⟨_, _, hrun, hturn.trans hc.turn, ?_, Or.inr ?_⟩
    · rw [hc.caps]
      exact hsasl
    · rw [hc.caps]
      exact hc.heard

theorem Client.nak (h : Client irc) (hm : Answer.nak.Means msg) :
    ∃ flags, msgHandle users irc msg true = .ok (flags, irc) ∧ flags.has CANT_PROCEED = true := by
  obtain ⟨h1, h3⟩ := hm
  rw [h.run (show ("CAP", .handle_CAP) ∈ v3Hnds false by decide) h1, Dispatch.run, handle_CAP]
  split
  · exact ⟨_, rfl, by decide⟩
  · rw [h3, ok_bind, if_neg (by decide +kernel), if_neg (by decide +kernel), if_pos rfl,
      handle_CAP_NAK]
    split
    · exact ⟨_, rfl, by decide⟩
    · exact ⟨_, rfl, by decide⟩

theorem upgrade_utters (con : Iconn) : Utters con (upgrade con).2 [] := by
  obtain ⟨con', h, hr | hr⟩ := upgrade_ends con <;>
  · rw [hr]
    exact ⟨⟨[], by rw [List.append_nil]; exact h.sent, rfl⟩, h.online, fun r hr => h.write ▸ hr⟩

def Over (users : UserHnds) (irc : Irc) (msg : Msg) : Prop :=
  ∃ flags irc' text, msgHandle users irc msg true = .ok (flags, irc') ∧ Turn irc irc' text ∧
    (flags.has CANT_PROCEED = true ∧ text = [] ∨
      irc'.v3caps = irc.v3caps ∧
        (enabled irc.v3caps (ascii "sasl") = true ∧ commands text = [.authenticate] ∨
        enabled irc.v3caps (ascii "sasl") = false ∧ commands text = [.capEnd]))

theorem Client.tlsReady (h : Client irc) (hm : Answer.tlsReady.Means msg) : Over users irc msg := by
  have hrun :=
    @Client.run irc users msg h _ _ (show ("670", .handle_670) ∈ v3Hnds false by decide) hm
  have hup := upgrade_utters irc.con
  rw [Dispatch.run, handle_670] at hrun
  split at hrun
  · next con heq =>
    rw [heq] at hup
    exact ⟨_, _, _, hrun, con_turn hup, Or.inl ⟨by decide, rfl⟩⟩
  · next con heq =>
    rw [heq] at hup
    rw [if_neg (by simp [h.inband])] at hrun
    obtain ⟨irc₂, text, hconc, hc⟩ := @concludeSaslCap_spec { irc with con }
      (hup.willing h.willing) h.mech
    rw [hconc] at hrun
    exact ⟨_, _, _, hrun, (con_turn hup).trans hc.turn, Or.inr ⟨hc.caps, hc.heard⟩⟩

theorem Client.tlsRefused (h : Client irc) (hm : Answer.tlsRefused.Means msg) :
    Over users irc msg := by
  have hrun :=
    @Client.run irc users msg h _ _ (show ("691", .handle_691) ∈ v3Hnds false by decide) hm
  rw [Dispatch.run, handle_691] at hrun
  split at hrun
  · exact ⟨_, _, _, hrun, Turn.refl _, Or.inl ⟨by decide, rfl⟩⟩
  · split at hrun
    · exact ⟨_, _, _, hrun, Turn.refl _, Or.inl ⟨by decide, rfl⟩⟩
    · rw [if_neg (by simp [h.inband])] at hrun
      obtain ⟨irc₂, text, hconc, hc⟩ := concludeSaslCap_spec h.willing h.mech
      rw [hconc] at hrun
      exact ⟨_, _, _, hrun, hc.turn, Or.inr ⟨hc.caps, hc.heard⟩⟩

def Credentials (irc : Irc) : Prop := irc.saslMech.isSome = true ∧ irc.saslMsg.isSome = true

theorem Client.authPlus (h : Client irc) (hc : Credentials irc) (hm : Answer.authPlus.Means msg) :
    ∃ irc' text, msgHandle users irc msg true = .ok (0, irc') ∧ Turn irc irc' text ∧
      irc'.v3caps = irc.v3caps ∧ commands text = [.authenticate] := by
  obtain ⟨h1, hn, h2⟩ := hm
  obtain ⟨mech, hmech⟩ := Option.isSome_iff_exists.1 hc.1
  obtain ⟨saslMsg, hmsg⟩ := Option.isSome_iff_exists.1 hc.2
  obtain ⟨con₁, hwrite₁, hu₁⟩ := connWriteRaw_utters h.willing (ascii "AUTHENTICATE ")
  obtain ⟨con₂, hwrite₂, hu₂⟩ := connWriteRaw_utters (hu₁.willing h.willing) saslMsg
  have hu := hu₁.trans hu₂
  obtain ⟨con, hwrite, hu₃⟩ :=
    @writeOr_utters { irc with con := con₂ } (hu.willing h.willing) crlf 0
  refine ⟨_, _, ?_, (con_turn hu).trans (con_turn hu₃), rfl, ?_⟩
  · rw [h.run (show ("AUTHENTICATE", .handle_AUTHENTICATE) ∈ v3Hnds false by decide) h1]
    rw [Dispatch.run, handle_AUTHENTICATE, if_neg (by omega), if_neg (by simp [h.dumb, hmech])]
    split
    · next hnone => rw [hnone] at hmsg; cases hmsg
    · next saslMsg' hsome =>
      obtain rfl : saslMsg' = saslMsg := Option.some.inj (hsome.symm.trans hmsg)
      simp only [h2, ok_bind, hwrite₁, hwrite₂]
      rw [hwrite]
  · rw [terminated, commands_crlf, if_pos (List.suffix_refl _), commands_nil,
      commands_authenticate (h.msg saslMsg hmsg), List.append_nil]

theorem Client.saslDone (h : Client irc) (hc : Credentials irc) (hm : Answer.saslDone.Means msg) :
    ∃ irc' text, msgHandle users irc msg true = .ok (SASL_COMPLETE, irc') ∧ Turn irc irc' text ∧
      irc'.v3caps = irc.v3caps ∧ commands text = [.capEnd] := by
  obtain ⟨con, hwrite, hu⟩ := writeOr_utters h.willing (ascii "CAP END" ++ crlf) SASL_COMPLETE
  refine ⟨_, _, ?_, con_turn hu, rfl, commands_capEnd⟩
  rw [h.run (show ("903", .handle_903) ∈ v3Hnds false by decide) hm, Dispatch.run, handle_903]
  rw [if_neg, if_pos rfl, hwrite]
  rintro (hmech | hmsg)
  · exact absurd hc.1 (by simp [hmech])
  · exact absurd hc.2 (by simp [hmsg])

theorem Client.saslFailed (h : Client irc) (hc : Credentials irc)
    (hm : Answer.saslFailed.Means msg) :
    ∃ flags, msgHandle users irc msg true = .ok (flags, irc) ∧ flags.has CANT_PROCEED = true := by
  obtain ⟨cmd, hcmd, h1⟩ := hm
  have hrow : (cmd, Hnd.handle_saslerr) ∈ v3Hnds false := by
    clear h1
    revert cmd
    decide
  rw [h.run hrow h1, Dispatch.run, handle_saslerr]
  split
  · exact ⟨_, rfl, by decide⟩
  · split
    · next hnone =>
      obtain hmech | hmsg := hnone
      · exact absurd hc.1 (by simp [hmech])
      · exact absurd hc.2 (by simp [hmsg])
    · exact ⟨_, rfl, by decide⟩

theorem v3_negotiates : ∀ m, ∀ q ∈ hndsOf false m, negotiates q.2 = true → q ∈ v3Hnds false := by
  intro m
  cases m <;> decide

/-- Messages that are not of the negotiation leave it as it is. -/
theorem Client.other (h : Client irc) (hm : Answer.other.Means msg)
    (hl : Lined msg) (hrun : msgHandle users irc msg true = .ok (flags, irc')) : Chatter irc irc' := by
  obtain ⟨cmd, hcmd, hnot⟩ := hm
  rw [h.roll.msgHandle_eq, hcmd, ok_bind] at hrun
  refine callAll_chatter hl _ (fun e he => ?_) h.willing h.nicked 0 _ hrun
  rw [registered_eq, List.mem_filter, decide_eq_true_eq] at he
  obtain ⟨c, hc, hec⟩ := h.table.known e (mem_occupied.1 he.1)
  rw [h.dumb] at hc
  by_contra hn
  exact hnot _ (v3_negotiates _ _ hc (by simpa using hn)) (hec.symm.trans he.2)

theorem Chatter.turn (h : Chatter irc irc') : ∃ text, Turn irc irc' text ∧ commands text = [] := by
  obtain ⟨text, hidle, hu⟩ := h.text
  exact ⟨text, ⟨hu, by rw [h.caps], h.dumb, h.early, h.mech, h.msg, h.nicked⟩, hidle.none⟩

end Srsirc.NegotiationSteps
