import Srsirc.HostSpec
import Srsirc.NegotiationSteps

namespace Srsirc.NegotiationEnds

open CharMap Message UserBase Context Conn CoreHandlers Capabilities Dispatch Connect Registry
open CapSpecs
open Registrations Utterance Negotiation NegotiationSteps

variable {irc irc' : Irc} {log : List Event} {owes os : List Owed} {a : Answer} {e : Event}
    {text : Str}
variable {users : UserHnds} {msg : Msg} {flags : Flags}

/-- The time has come for the event. -/
structure Timely (log : List Event) (e : Event) : Prop where
  ack : ∀ caps, e = .got (.ack caps) → .said .capEnd ∉ log
  req : ∀ caps, e = .said (.req caps) → .got .lsEnd ∈ log ∧ .said .capEnd ∉ log ∧
    ∀ caps', .said (.req caps') ∉ log
  capEnd : e = .said .capEnd → .got .lsEnd ∈ log ∧ .said .capEnd ∉ log ∧
    (∀ caps, .said (.req caps) ∈ log → .got (.ack caps) ∈ log) ∧
    ∀ caps, .got (.ack caps) ∈ log → CapNamed caps (ascii "sasl") → .got .saslDone ∈ log

theorem orderly_nil : Orderly [] := by
  refine ⟨by simp, fun pre caps h => ?_,
    by simp, fun pre h => ?_, fun pre caps h => ?_, fun pre caps h => ?_⟩
  all_goals
    have hlen := h.length_le
    simp at hlen

theorem prefix_snoc {pre : List Event} {e' : Event} (h : pre ++ [e'] <+: log ++ [e]) :
    pre = log ∧ e' = e ∨ pre ++ [e'] <+: log := by
  obtain heq | h := List.prefix_concat_iff.1 h
  · obtain ⟨hpre, he⟩ := List.append_inj' heq rfl
    exact Or.inl ⟨hpre, List.singleton_inj.1 he⟩
  · exact Or.inr h

theorem mem_of_initial {pre : List Event} (h : pre ++ [e] <+: log) : e ∈ log :=
  h.subset (List.mem_append_right _ List.mem_cons_self)

theorem mem_snoc {e' : Event} : e' ∈ log ++ [e] ↔ e' ∈ log ∨ e' = e := by
  rw [List.mem_append, List.mem_singleton]

theorem orderly_snoc (h : Orderly log) (ht : Timely log e) : Orderly (log ++ [e]) := by
  refine ⟨?_, fun pre caps hp => ?_, ?_, fun pre hp => ?_, fun pre caps hp hm => ?_,
    fun pre caps hp hm hn => ?_⟩
  · rw [List.countP_append, List.countP_singleton]
    split
    · next caps =>
      rw [List.countP_eq_zero.2, if_pos rfl]
      intro e' he' hreq'
      split at hreq'
      · exact (ht.req caps rfl).2.2 _ he'
      · cases hreq'
    · exact h.oneReq
  · obtain ⟨rfl, rfl⟩ | hp := prefix_snoc hp
    · exact (ht.req caps rfl).1
    · exact h.reqAfterLs pre caps hp
  · rw [List.count_append, List.count_singleton]
    split
    · next heq =>
      have hnone := (ht.capEnd (beq_iff_eq.1 heq)).2.1
      rw [List.count_eq_zero.2 hnone]
    · exact h.oneEnd
  · obtain ⟨rfl, rfl⟩ | hp := prefix_snoc hp
    · exact (ht.capEnd rfl).1
    · exact h.endAfterLs pre hp
  · obtain ⟨rfl, rfl⟩ | hp := prefix_snoc hp
    · obtain hm | hm := mem_snoc.1 hm
      · exact (ht.capEnd rfl).2.2.1 caps hm
      · cases hm
    · obtain hm | hm := mem_snoc.1 hm
      · exact h.endAfterAck pre caps hp hm
      · exact absurd (mem_of_initial hp) (ht.req caps hm.symm).2.1
  · obtain ⟨rfl, rfl⟩ | hp := prefix_snoc hp
    · obtain hm | hm := mem_snoc.1 hm
      · exact (ht.capEnd rfl).2.2.2 caps hm hn
      · cases hm
    · obtain hm | hm := mem_snoc.1 hm
      · exact h.endAfterSasl pre caps hp hm hn
      · exact absurd (mem_of_initial hp) (ht.ack caps hm.symm)

theorem timely_got (h : ∀ caps, a ≠ .ack caps) : Timely log (.got a) :=
  ⟨fun caps heq => absurd (Event.got.inj heq) (h caps), fun _ heq => Event.noConfusion heq,
    fun heq => Event.noConfusion heq⟩

/-- The list that was requested was acknowledged, and SASL is in force if it was in the list. -/
structure Granted (irc : Irc) (log : List Event) : Prop where
  listed : .got .lsEnd ∈ log
  unended : .said .capEnd ∉ log
  acked : ∀ caps, .said (.req caps) ∈ log → .got (.ack caps) ∈ log
  sasl : ∀ caps, .got (.ack caps) ∈ log → CapNamed caps (ascii "sasl") →
    enabled irc.v3caps (ascii "sasl") = true

/-- How far the negotiation is, and what the server owes then. -/
inductive Phase (irc : Irc) (log : List Event) : List Owed → Prop
  | listing (hreq : ∀ caps, .said (.req caps) ∉ log) (hack : ∀ caps, .got (.ack caps) ∉ log)
      (hend : .said .capEnd ∉ log) : Phase irc log [.ls]
  | requested {caps : Str} (hls : .got .lsEnd ∈ log) (hreq : ∀ caps', .said (.req caps') ∈ log →
      caps' = caps)
      (hack : ∀ caps, .got (.ack caps) ∉ log) (hend : .said .capEnd ∉ log)
        (hcur : irc.v3capreq = caps)
      (hmem : caps ∈ requests) (hnamed : ∀ name, CapNamed caps name →
        name ∈ irc.v3caps.map V3cap.name) :
      Phase irc log [.req caps]
  | securing (hg : Granted irc log) : Phase irc log [.starttls]
  | authenticating (hg : Granted irc log) (hc : Credentials irc) : Phase irc log [.authenticate]
  | judged (hg : Granted irc log) (hc : Credentials irc) : Phase irc log [.outcome]
  | ended (hend : .said .capEnd ∈ log) : Phase irc log []

theorem Granted.got (hg : Granted irc log) (hcaps : irc'.v3caps = irc.v3caps)
    (ha : ∀ caps, a ≠ .ack caps) :
    Granted irc' (log ++ [.got a]) := by
  refine ⟨mem_snoc.2 (Or.inl hg.listed), fun hm => ?_, fun caps hm => ?_, fun caps hm hn => ?_⟩
  · obtain hm | hm := mem_snoc.1 hm
    · exact hg.unended hm
    · cases hm
  · obtain hm | hm := mem_snoc.1 hm
    · exact mem_snoc.2 (Or.inl (hg.acked caps hm))
    · cases hm
  · obtain hm | hm := mem_snoc.1 hm
    · rw [hcaps]
      exact hg.sasl caps hm hn
    · exact absurd (Event.got.inj hm).symm (ha caps)

theorem Granted.said (hg : Granted irc log) {s : Said} (hreq : ∀ caps, s ≠ .req caps)
    (hend : s ≠ .capEnd) :
    Granted irc (log ++ [.said s]) := by
  refine ⟨mem_snoc.2 (Or.inl hg.listed), fun hm => ?_, fun caps hm => ?_, fun caps hm hn => ?_⟩
  · obtain hm | hm := mem_snoc.1 hm
    · exact hg.unended hm
    · exact hend (Event.said.inj hm).symm
  · obtain hm | hm := mem_snoc.1 hm
    · exact mem_snoc.2 (Or.inl (hg.acked caps hm))
    · exact absurd (Event.said.inj hm).symm (hreq caps)
  · obtain hm | hm := mem_snoc.1 hm
    · exact hg.sasl caps hm hn
    · cases hm

/-- What the client says leads in order to the phase. -/
structure Leads (irc : Irc) (log : List Event) (os : List Owed) (heard : List Said) : Prop where
  orderly : Orderly (log ++ heard.map .said)
  phase : Phase irc (log ++ heard.map .said) (heard.foldl owing os)

theorem timely_said {s : Said} (hreq : ∀ caps, s ≠ .req caps) (hend : s ≠ .capEnd) :
    Timely log (.said s) :=
  ⟨fun _ heq => Event.noConfusion heq, fun caps heq => absurd (Event.said.inj heq) (hreq caps),
    fun heq => absurd (Event.said.inj heq) hend⟩

theorem Granted.secures (hg : Granted irc log) (ho : Orderly log) :
    Leads irc log [] [.starttls] :=
  ⟨orderly_snoc ho (timely_said nofun nofun), .securing (hg.said nofun nofun)⟩

theorem Granted.concludes (hg : Granted irc log) (ho : Orderly log)
    (hc : enabled irc.v3caps (ascii "sasl") = true → Credentials irc) {heard : List Said}
    (h : enabled irc.v3caps (ascii "sasl") = true ∧ heard = [.authenticate] ∨
      enabled irc.v3caps (ascii "sasl") = false ∧ heard = [.capEnd]) :
        Leads irc log [] heard := by
  obtain ⟨hen, rfl⟩ | ⟨hoff, rfl⟩ := h
  · exact ⟨orderly_snoc ho (timely_said nofun nofun),
      .authenticating (hg.said nofun nofun) (hc hen)⟩
  · refine ⟨orderly_snoc ho ⟨nofun, nofun, fun _ => ?_⟩, .ended (mem_snoc.2 (Or.inr rfl))⟩
    refine ⟨hg.listed, hg.unended, hg.acked, fun caps hm hn => ?_⟩
    rw [hg.sasl caps hm hn] at hoff
    cases hoff

theorem credentials_of (h : Client irc) (ht : Turn irc irc' text)
    (hen : enabled irc'.v3caps (ascii "sasl") = true) : Credentials irc' := by
  rw [Credentials, ht.mech, ht.msg]
  apply h.sasl
  rw [← ht.names, ← isSome_findCap]
  obtain ⟨cap, hfind, _⟩ := (Option.any_eq_true _ _).1 hen
  rw [hfind]
  rfl

theorem Phase.keep {owes : List Owed} (hp : Phase irc log owes) (hcaps : irc'.v3caps = irc.v3caps)
    (hreq : irc'.v3capreq = irc.v3capreq) (hmech : irc'.saslMech = irc.saslMech)
    (hmsg : irc'.saslMsg = irc.saslMsg) : Phase irc' (log ++ [.got .other]) owes := by
  have hold : ∀ {e}, e ∈ log ++ [.got .other] → e ≠ .got .other → e ∈ log := fun hm hne =>
    (mem_snoc.1 hm).resolve_right hne
  cases hp with
  | listing hreq hack hend =>
    exact .listing (fun caps hm => hreq caps (hold hm nofun)) (fun caps hm =>
      hack caps (hold hm nofun))
      fun hm => hend (hold hm nofun)
  | requested hls hreqs hack hend hcur hmem hnamed =>
    refine .requested (mem_snoc.2 (Or.inl hls)) (fun caps hm => hreqs caps (hold hm nofun))
      (fun caps hm => hack caps (hold hm nofun)) (fun hm => hend (hold hm nofun))
        (hreq.trans hcur) hmem ?_
    rw [hcaps]
    exact hnamed
  | securing hg => exact .securing (hg.got hcaps nofun)
  | authenticating hg hc =>
    exact .authenticating (hg.got hcaps nofun) (by rwa [Credentials, hmech, hmsg])
  | judged hg hc => exact .judged (hg.got hcaps nofun) (by rwa [Credentials, hmech, hmsg])
  | ended hend => exact .ended (mem_snoc.2 (Or.inl hend))

/-- What the handling of an answer comes to. -/
structure Handled (irc : Irc) (log : List Event) (a : Answer) (os : List Owed) (flags : Flags)
    (irc' : Irc)
    (text : Str) : Prop where
  turn : Turn irc irc' text
  orderly : Orderly (log ++ [.got a] ++ (commands text).map .said)
  phase : flags.has CANT_PROCEED = false →
    Phase irc' (log ++ [.got a] ++ (commands text).map .said) ((commands text).foldl owing os)

theorem Leads.handled (h : Leads irc' (log ++ [.got a]) os (commands text)) (ht : Turn irc irc' text) :
    Handled irc log a os flags irc' text := ⟨ht, h.orderly, fun _ => h.phase⟩

theorem leads_quiet (ho : Orderly log) (ha : ∀ caps, a ≠ .ack caps)
    (hp : Phase irc (log ++ [.got a]) os) :
    Leads irc (log ++ [.got a]) os [] := by
  refine ⟨?_, ?_⟩
  · rw [List.map_nil, List.append_nil]
    exact orderly_snoc ho (timely_got ha)
  · rw [List.map_nil, List.append_nil]
    exact hp

theorem handled_failed (ho : Orderly log) (ha : ∀ caps, a ≠ .ack caps) (ht : Turn irc irc' [])
    (hfail : flags.has CANT_PROCEED = true) : Handled irc log a os flags irc' [] := by
  refine ⟨ht, ?_, fun hgo => ?_⟩
  · rw [commands_nil, List.map_nil, List.append_nil]
    exact orderly_snoc ho (timely_got ha)
  · rw [hfail] at hgo
    cases hgo

theorem over_handled (h : Client irc) (hg : Granted irc log) (ho : Orderly log)
    (ha : ∀ caps, a ≠ .ack caps)
    (hover : Over users irc msg) :
      ∃ flags irc' text, msgHandle users irc msg true = .ok (flags, irc') ∧
      Handled irc log a [] flags irc' text := by
  obtain ⟨flags, irc', text, hrun, ht, ⟨hfail, rfl⟩ | ⟨hcaps, hheard⟩⟩ := hover
  · exact ⟨_, _, _, hrun, handled_failed ho ha ht hfail⟩
  · refine ⟨_, _, _, hrun, Leads.handled ?_ ht⟩
    rw [← hcaps] at hheard
    exact (hg.got hcaps ha).concludes (orderly_snoc ho (timely_got ha)) (credentials_of h ht) hheard

theorem lsEnd_handled (h : Client irc) (ho : Orderly log) (hreq : ∀ caps, .said (.req caps) ∉ log)
    (hack : ∀ caps, .got (.ack caps) ∉ log) (hend : .said .capEnd ∉ log)
      (hm : Answer.lsEnd.Means msg) :
    ∃ flags irc' text, msgHandle users irc msg true = .ok (flags, irc') ∧
      Handled irc log .lsEnd [] flags irc' text := by
  obtain ⟨flags, irc', text, hrun, ht, _, ⟨hfail, rfl⟩ | ⟨_, hheard⟩⟩ :=
    @Client.lsEnd irc users msg h hm
  · exact ⟨_, _, _, hrun, handled_failed ho nofun ht hfail⟩
  · refine ⟨_, _, _, hrun, Leads.handled ?_ ht⟩
    have hls : .got .lsEnd ∈ log ++ [.got .lsEnd] := mem_snoc.2 (Or.inr rfl)
    have hreq' : ∀ caps, Event.said (.req caps) ∉ log ++ [.got .lsEnd] := fun caps hm =>
      hreq caps ((mem_snoc.1 hm).resolve_right nofun)
    have hack' : ∀ caps, Event.got (.ack caps) ∉ log ++ [.got .lsEnd] := fun caps hm =>
      hack caps ((mem_snoc.1 hm).resolve_right nofun)
    have hend' : Event.said .capEnd ∉ log ++ [.got .lsEnd] := fun hm =>
      hend ((mem_snoc.1 hm).resolve_right nofun)
    have ho' := orderly_snoc ho (timely_got (a := .lsEnd) nofun)
    obtain hheard | ⟨caps, hmem, hheard, hcur, hnamed⟩ := hheard
    · rw [hheard]
      refine ⟨orderly_snoc ho' ⟨nofun, nofun,
        fun _ => ⟨hls, hend', fun caps hm => ?_, fun caps hm => ?_⟩⟩, ?_⟩
      · exact absurd hm (hreq' caps)
      · exact absurd hm (hack' caps)
      · exact .ended (mem_snoc.2 (Or.inr rfl))
    · rw [hheard]
      refine ⟨orderly_snoc ho' ⟨nofun, fun _ _ => ⟨hls, hend', hreq'⟩, nofun⟩, ?_⟩
      refine .requested (mem_snoc.2 (Or.inl hls)) (fun caps' hm => ?_) (fun caps' hm => ?_)
        (fun hm => ?_)
        hcur hmem hnamed
      · obtain hm | hm := mem_snoc.1 hm
        · exact absurd hm (hreq' caps')
        · exact Said.req.inj (Event.said.inj hm)
      · exact hack' caps' ((mem_snoc.1 hm).resolve_right nofun)
      · exact hend' ((mem_snoc.1 hm).resolve_right nofun)

theorem ack_handled (h : Client irc) (ho : Orderly log) {caps : Str} (hls : .got .lsEnd ∈ log)
    (hreq : ∀ caps', .said (.req caps') ∈ log → caps' = caps) (hack : ∀ caps,
      .got (.ack caps) ∉ log)
    (hend : .said .capEnd ∉ log) (hcur : irc.v3capreq = caps) (hmem : caps ∈ requests)
    (hnamed : ∀ name, CapNamed caps name → name ∈ irc.v3caps.map V3cap.name)
    (hm : (Answer.ack caps).Means msg) :
    ∃ flags irc' text, msgHandle users irc msg true = .ok (flags, irc') ∧
      Handled irc log (.ack caps) [] flags irc' text := by
  obtain ⟨irc', text, hrun, ht, hsasl, hheard⟩ :=
    @Client.ack irc users msg h caps hcur hmem hnamed hm
  refine ⟨_, _, _, hrun, Leads.handled ?_ ht⟩
  have ho' : Orderly (log ++ [.got (.ack caps)]) := orderly_snoc ho ⟨fun _ _ => hend, nofun, nofun⟩
  have hg : Granted irc' (log ++ [.got (.ack caps)]) := by
    refine ⟨mem_snoc.2 (Or.inl hls), fun hm => hend ((mem_snoc.1 hm).resolve_right nofun),
      fun caps' hm => ?_,
      fun caps' hm hn => ?_⟩
    · rw [hreq caps' ((mem_snoc.1 hm).resolve_right nofun)]
      exact mem_snoc.2 (Or.inr rfl)
    · obtain hm | hm := mem_snoc.1 hm
      · exact absurd hm (hack caps')
      · obtain rfl := Answer.ack.inj (Event.got.inj hm)
        exact hsasl hn
  obtain hheard | hheard := hheard
  · rw [hheard]
    exact hg.secures ho'
  · exact hg.concludes ho' (credentials_of h ht) hheard

/-- Each answer that is due is handled, and there is order. -/
theorem answer_handled (h : Client irc) (hp : Phase irc log owes) (ho : Orderly log)
    (hg : Gives owes a os)
    (hm : a.Means msg) (ha : a ≠ .other) :
    ∃ flags irc' text, msgHandle users irc msg true = .ok (flags, irc') ∧
      Handled irc log a os flags irc' text := by
  cases hg with
  | other => exact absurd rfl ha
  | lsMore =>
    cases hp with
    | listing hreq hack hend =>
      obtain ⟨irc', hrun, ht, _⟩ := @Client.lsMore irc users msg h hm
      refine ⟨_, _, _, hrun, Leads.handled (leads_quiet (a := .lsMore) ho nofun ?_) ht⟩
      refine .listing (fun caps hm => hreq caps ?_) (fun caps hm => hack caps ?_) fun hm => hend ?_
      all_goals exact (mem_snoc.1 hm).resolve_right nofun
  | lsEnd =>
    cases hp with
    | listing hreq hack hend => exact lsEnd_handled h ho hreq hack hend hm
  | ack =>
    cases hp with
    | requested hls hreq hack hend hcur hmem hnamed =>
      exact ack_handled h ho hls hreq hack hend hcur hmem hnamed hm
  | nak =>
    obtain ⟨flags, hrun, hfail⟩ := @Client.nak irc users msg h hm
    exact ⟨_, _, _, hrun, handled_failed ho nofun (Turn.refl irc) hfail⟩
  | tlsReady =>
    cases hp with
    | securing hg => exact over_handled h hg ho nofun (h.tlsReady hm)
  | tlsRefused =>
    cases hp with
    | securing hg => exact over_handled h hg ho nofun (h.tlsRefused hm)
  | authPlus =>
    cases hp with
    | authenticating hg hc =>
      obtain ⟨irc', text, hrun, ht, hcaps, hheard⟩ := @Client.authPlus irc users msg h hc hm
      refine ⟨_, _, _, hrun, Leads.handled ?_ ht⟩
      rw [hheard]
      refine ⟨orderly_snoc (orderly_snoc ho (timely_got (a := .authPlus) nofun))
        (timely_said nofun nofun), ?_⟩
      refine .judged ((hg.got (a := .authPlus) hcaps nofun).said nofun nofun) ?_
      rwa [Credentials, ht.mech, ht.msg]
  | saslDone =>
    cases hp with
    | judged hg hc =>
      obtain ⟨irc', text, hrun, ht, hcaps, hheard⟩ := @Client.saslDone irc users msg h hc hm
      refine ⟨_, _, _, hrun, Leads.handled ?_ ht⟩
      rw [hheard]
      have hg' : Granted irc' (log ++ [.got .saslDone]) := hg.got hcaps nofun
      refine ⟨orderly_snoc (orderly_snoc ho (timely_got (a := .saslDone) nofun)) ⟨nofun, nofun,
        fun _ => ?_⟩, ?_⟩
      · exact ⟨hg'.listed, hg'.unended, hg'.acked, fun _ _ _ => mem_snoc.2 (Or.inr rfl)⟩
      · exact .ended (mem_snoc.2 (Or.inr rfl))
  | saslFailed =>
    cases hp with
    | judged hg hc =>
      obtain ⟨flags, hrun, hfail⟩ := @Client.saslFailed irc users msg h hc hm
      exact ⟨_, _, _, hrun, handled_failed ho nofun (Turn.refl irc) hfail⟩

theorem other_handled (h : Client irc) (hp : Phase irc log owes) (ho : Orderly log)
    (hg : Gives owes .other os)
    (hm : Answer.other.Means msg) (hl : Lined msg)
    (hrun : msgHandle users irc msg true = .ok (flags, irc')) :
    ∃ text, Handled irc log .other os flags irc' text := by
  cases hg
  have hc := h.other hm hl hrun
  obtain ⟨text, ht, hnone⟩ := Chatter.turn hc
  refine ⟨text, Leads.handled ?_ ht⟩
  rw [hnone]
  exact leads_quiet ho nofun (Phase.keep hp hc.caps hc.capreq hc.mech hc.msg)

/-- What holds of the exchange at any time. -/
structure Sound (x : Exchange) : Prop where
  orderly : Orderly x.log
  client : x.failed = false → Client x.irc
  phase : x.failed = false → Phase x.irc x.log x.owes

theorem Sound.step {x y : Exchange} (h : Sound x) (hs : Step users x y) : Sound y := by
  obtain ⟨hlive, hgives, hm, hl, hrun⟩ := hs
  rename_i a os msg flags irc'
  rw [Exchange.after]
  have hc := h.client hlive
  have hp := h.phase hlive
  have hhandled : ∃ text, Handled x.irc x.log a os flags irc' text := by
    by_cases ha : a = .other
    · subst ha
      exact other_handled hc hp h.orderly hgives hm hl hrun
    · obtain ⟨flags', irc'', text, hrun', hh⟩ :=
        @answer_handled _ _ _ _ _ users _ hc hp h.orderly hgives hm ha
      rw [hrun] at hrun'
      cases hrun'
      exact ⟨text, hh⟩
  obtain ⟨text, hh⟩ := hhandled
  have htext := hh.turn.con.uttered
  refine ⟨?_, fun _ => hc.turn hh.turn hrun, fun hgo => ?_⟩
  · rw [htext]
    exact hh.orderly
  · dsimp only
    rw [htext]
    exact hh.phase hgo

theorem openConn_info (h : openConn irc = (true, irc')) : irc'.info = .init := by
  rw [openConn] at h
  dsimp only at h
  split at h
  · cases h
  · split at h
    · cases h
    · obtain ⟨_, rfl⟩ := Prod.mk.inj h
      rfl

theorem oneLine_decimal (n : Nat) : OneLine (decimal n) := by
  intro b hb
  have hdigit := HostSpec.isDigit_decimal n b hb
  rw [isEol, Bool.or_eq_false_iff, beq_eq_false_iff_ne, beq_eq_false_iff_ne]
  constructor
  · rintro rfl
    exact absurd hdigit (by decide)
  · rintro rfl
    exact absurd hdigit (by decide)

theorem commands_greeting (hcaps : irc.v3caps ≠ []) (hservice : irc.info.service = false)
    (hp : Presentable irc) (hlen : (logonIntro irc ++ registration irc).length ≤ 512) :
    commands (terminated (snprintf 512 (logonIntro irc ++ registration irc))) = [.ls] := by
  let user := ascii "USER " ++ irc.uname ++ ascii " " ++ decimal irc.conflags.toNat ++
    ascii " * :" ++ irc.fname
  have huser : OneLine user := by
    refine .append (.append (.append (.append (.append ?_ hp.uname) ?_) ?_) ?_) hp.fname
    · decide +kernel
    · decide +kernel
    · exact oneLine_decimal _
    · decide +kernel
  have hlast : commands (ascii "NICK " ++ irc.nick ++ (crlf ++ user)) = [] := by
    rw [commands_crlf, commands_line huser, commands_line (.append (by decide +kernel) hp.nick)]
    rfl
  -- what there is ahead of the NICK
  obtain ⟨intro, hintro, hcommands⟩ : ∃ intro, logonIntro irc ++ registration irc =
      intro ++ (crlf ++ (ascii "NICK " ++ irc.nick ++ (crlf ++ user))) ++ crlf ∧
        commands intro = [.ls] := by
    have hls : commands (ascii "CAP LS 302") = [.ls] := by decide +kernel
    by_cases hset : irc.pass = none ∨ irc.pass = some []
    · refine ⟨_, ?_, hls⟩
      obtain hset | hset := hset <;> simp [logonIntro, registration, hcaps, hservice, hset, user]
    · obtain ⟨pass, hpass⟩ : ∃ pass, irc.pass = some pass :=
        Option.ne_none_iff_exists'.1 fun h => hset (Or.inl h)
      have hne : pass ≠ [] := fun h => hset (Or.inr (h ▸ hpass))
      refine ⟨ascii "CAP LS 302" ++ (crlf ++ (ascii "PASS :" ++ pass)), ?_, ?_⟩
      · simp [logonIntro, registration, hcaps, hservice, hpass, hne, user]
      · rw [commands_crlf, hls, commands_line (.append (by decide +kernel) (hp.pass pass hpass))]
        rfl
  rw [hintro, List.length_append] at hlen
  have hshort := Nat.le_of_add_le_add_right (b := 2) hlen
  have hend := commands_terminated (snprintf 512 (logonIntro irc ++ registration irc)) []
  rw [commands_nil, List.append_nil, List.append_nil] at hend
  rw [hend, hintro, commands_snprintf, snprintf, List.take_of_length_le (by omega), commands_crlf,
    hcommands, hlast, List.append_nil]

theorem greet_utters (hearly : irc.starttlsFirst = false) (hcaps : irc.v3caps ≠ [])
    (hservice : irc.info.service = false) (hp : Presentable irc)
    (hwrites : ∀ r ∈ irc.con.world.write, r = true) (hgreet : greet irc = (true, irc')) :
    ∃ con text, irc' = { irc with con } ∧ Willing irc.con ∧ Utters irc.con con text ∧
      commands text = [.ls] := by
  rw [greet, if_neg (by simp [hearly]), sendLogon] at hgreet
  split at hgreet
  · cases hgreet
  · next honline =>
    split at hgreet
    · cases hgreet
    · split at hgreet
      · cases hgreet
      · next hlen =>
        have hw : Willing irc.con := ⟨by simpa using honline, hwrites⟩
        obtain ⟨con, hwrite, hu⟩ :=
          connWrite_utters hw (snprintf 512 (logonIntro irc ++ registration irc))
        rw [ircWrite, hwrite] at hgreet
        obtain ⟨_, rfl⟩ := Prod.mk.inj hgreet
        refine ⟨con, _, rfl, hw, hu, ?_⟩
        exact commands_greeting hcaps hservice hp (Nat.le_of_not_lt hlen)

theorem Begins.sound {x : Exchange} (h : Begins x) : Sound x := by
  obtain ⟨hwanting, hopen, hwrites, hgreet⟩ := h
  rename_i irc₀ irc₁ irc₂
  have hroll := hwanting.reachable.roll.openConn
  rw [hopen] at hroll
  obtain ⟨htable, _, _, _, _, _, _, _, hirc⟩ := openConn_cases hopen
  have hnone : irc₁.v3caps ≠ [] := by
    have hwished := hwanting.wanted
    intro hnil
    rw [hirc] at hnil
    rw [show irc₀.v3caps = [] from hnil] at hwished
    revert hwished
    decide +kernel
  have hpresentable : Presentable irc₁ := by
    have h := hwanting.presentable
    rw [hirc]
    exact ⟨h.pass, h.nick, h.uname, h.fname, h.mech, h.msg, h.callback⟩
  obtain ⟨con, text, hirc₂, hw, hu, hheard⟩ :=
    greet_utters (by rw [hirc]; exact hwanting.inband) hnone (by rw [openConn_info hopen]; rfl)
      hpresentable hwrites hgreet
  have hclient : Client irc₁ := by
    refine ⟨htable, hroll, ?_, ?_, hw, ?_, ?_, hpresentable.mech, hpresentable.msg, ?_,
      hpresentable.callback⟩
    · rw [hirc]
      exact hwanting.dumb
    · rw [hirc]
      exact hwanting.inband
    · rw [hirc]
      exact hwanting.wanted
    · rw [hirc]
      exact hwanting.sasl
    · rw [openConn_info hopen]
      exact fun _ h => absurd h List.not_mem_nil
  have hcon : irc₂.con = con := by rw [hirc₂]
  rw [hcon, hu.uttered, hheard]
  refine ⟨?_, fun _ => ?_, fun _ => ?_⟩
  · exact orderly_snoc orderly_nil (timely_said nofun nofun)
  · subst hirc₂
    exact ⟨⟨htable.known, htable.has⟩, hroll.leaves ⟨rfl, rfl⟩, hclient.dumb, hclient.inband,
      hu.willing hw,
      hclient.wanted, hclient.sasl, hclient.mech, hclient.msg, hpresentable.nick.take _,
      hpresentable.callback⟩
  · exact .listing (by simp) (by simp) (by simp)

/-- The negotiation with a conforming server ends once. The client requests capabilities at
most once and after the list of them is complete. It ends the negotiation at most once, not
before its request is acknowledged and, if that gives it SASL, not before it is logged in.
When the server has nothing left to answer and the client could always proceed, it has ended
the negotiation, and each answer that the server has still to give will be handled. -/
theorem negotiation_ends {x₀ x : Exchange} (hbegins : Begins x₀)
    (hsteps : Relation.ReflTransGen (Step users) x₀ x) :
    Orderly x.log ∧ (x.failed = false → x.owes = [] → x.log.count (.said .capEnd) = 1) ∧
      (x.failed = false → ∀ a os, Gives x.owes a os → a ≠ .other → ∀ msg, a.Means msg →
        ∃ flags irc, msgHandle users x.irc msg true = .ok (flags, irc)) := by
  have hsound : Sound x := by
    induction hsteps with
    | refl => exact Begins.sound hbegins
    | tail _ hstep ih => exact ih.step hstep
  refine ⟨hsound.orderly, fun hlive howes => ?_, fun hlive a os hgives ha msg hm => ?_⟩
  · have hphase := hsound.phase hlive
    rw [howes] at hphase
    cases hphase with
    | ended hend => exact le_antisymm hsound.orderly.oneEnd (List.one_le_count_iff.2 hend)
  · obtain ⟨flags, irc, _, hrun, _⟩ := @answer_handled _ _ _ _ _ users _ (hsound.client hlive)
      (hsound.phase hlive) hsound.orderly hgives hm ha
    exact ⟨flags, irc, hrun⟩

def hopeful : Irc :=
  { (wantCap (ircInit (0, 0) [] (serving [⟨[], []⟩])) (ascii "sasl") true).2 with
    saslMech := some (ascii "PLAIN")
    saslMsg := some (ascii "eA==") }

theorem mutNick_oneLine (rand : Nat × Nat) {nick : Str} (h : OneLine nick) :
    OneLine (mutNick rand nick) := by
  have hdigit : ∀ d < 10, isEol (0x30 + UInt8.ofNat d) = false := by decide +kernel
  have hdrop : OneLine nick.dropLast := fun b hb => h b (List.mem_of_mem_dropLast hb)
  rw [mutNick]
  split
  · exact h.append (by decide +kernel)
  · dsimp only
    split
    · intro b hb
      obtain hb | rfl := List.mem_or_eq_of_mem_set hb
      · exact h b hb
      · exact hdigit _ (Nat.mod_lt _ (by decide))
    · split
      · next hlast =>
        refine hdrop.append fun b hb => ?_
        obtain rfl := List.mem_singleton.1 hb
        generalize nick.getLastD 0 = last at hlast
        -- neither byte of a line end has a digit as its predecessor
        rw [isEol, Bool.or_eq_false_iff, beq_eq_false_iff_ne, beq_eq_false_iff_ne]
        constructor
        · intro heq
          obtain rfl : last = 0x0c := by rw [← UInt8.add_left_inj 1]; exact heq
          exact absurd hlast.1 (by decide)
        · intro heq
          obtain rfl : last = 0x09 := by rw [← UInt8.add_left_inj 1]; exact heq
          exact absurd hlast.1 (by decide)
      · exact hdrop.append (by decide +kernel)

theorem hopeful_wanting : Wanting hopeful := by
  refine ⟨⟨(0, 0), [], serving [⟨[], []⟩], .single (.other ⟨rfl, rfl⟩)⟩, rfl, rfl, ?_,
    fun _ => ⟨rfl, rfl⟩, ⟨fun pass h => ?_, ?_, ?_, ?_, fun mech h => ?_, fun msg h => ?_,
    fun f hf nick hn => ?_⟩⟩
  · decide +kernel
  · cases h
  · decide +kernel
  · decide +kernel
  · decide +kernel
  · obtain rfl := Option.some.inj h
    decide +kernel
  · obtain rfl := Option.some.inj h
    decide +kernel
  · obtain rfl := Option.some.inj hf
    exact mutNick_oneLine _ hn

theorem hopeful_run : ∃ x₀ x, Begins x₀ ∧ Relation.ReflTransGen (Step noUsers) x₀ x ∧
    x.failed = false ∧
    x.owes = [] :=
  ⟨_, _, Begins.mk hopeful_wanting rfl (by decide) rfl,
    .head (@Step.mk noUsers _ .lsEnd [] (.ofLine (ascii "CAP * LS :sasl=PLAIN")) _ _ rfl (.lsEnd [])
      ⟨rfl, rfl, by decide, _, rfl, by decide⟩ (lined_of_mem (by decide +kernel)) rfl) <|
    .head (@Step.mk noUsers _ (.ack (ascii "sasl")) [] (.ofLine (ascii "CAP me ACK :sasl ")) _ _ rfl
      (.ack (ascii "sasl") []) ⟨rfl, rfl, by decide, 1, rfl⟩
      (lined_of_mem (by decide +kernel)) rfl) <|
    .head (@Step.mk noUsers _ .authPlus [.outcome] (.ofLine (ascii "AUTHENTICATE +")) _ _ rfl
      (.authPlus []) ⟨rfl, by decide, rfl⟩ (lined_of_mem (by decide +kernel)) rfl) <|
    .single (@Step.mk noUsers _ .saslDone [] (.ofLine (ascii ":s 903 me :welcome")) _ _ rfl
      (.saslDone []) rfl (lined_of_mem (by decide +kernel)) rfl),
    rfl, rfl⟩

theorem negotiation_ends_hopeful : ∃ x₀ x, Begins x₀ ∧ Relation.ReflTransGen (Step noUsers) x₀ x ∧
    Orderly x.log ∧ x.log.count (.said .capEnd) = 1 := by
  obtain ⟨x₀, x, hbegins, hsteps, hlive, howes⟩ := hopeful_run
  obtain ⟨horder, hend, _⟩ := negotiation_ends hbegins hsteps
  exact ⟨x₀, x, hbegins, hsteps, horder, hend hlive howes⟩

end Srsirc.NegotiationEnds
