import Srsirc.Utterance

namespace Srsirc.Negotiation

open CharMap Message UserBase Context Conn CoreHandlers Capabilities Dispatch Connect Registry
open CapSpecs
open Registrations Utterance

/-- What the server says. `other` is any message that does not belong to the negotiation. -/
inductive Answer
  | lsMore
  | lsEnd
  | ack (caps : Str)
  | nak
  | tlsReady
  | tlsRefused
  | authPlus
  | saslDone
  | saslFailed
  | other
  deriving DecidableEq

def Answer.Means : Answer → Msg → Prop
  | .lsMore, msg => msg.fld 1 = .ok (ascii "CAP") ∧ msg.fld 3 = .ok (ascii "LS") ∧ 6 ≤ msg.nargs ∧
      msg.fld 4 = .ok (ascii "*") ∧ ∃ caps, msg.fld 5 = .ok caps
  | .lsEnd, msg => msg.fld 1 = .ok (ascii "CAP") ∧ msg.fld 3 = .ok (ascii "LS") ∧ 5 ≤ msg.nargs ∧
      ∃ caps, msg.fld 4 = .ok caps ∧ caps.head? ≠ some 0x2a
  | .ack caps, msg => msg.fld 1 = .ok (ascii "CAP") ∧ msg.fld 3 = .ok (ascii "ACK") ∧
      5 ≤ msg.nargs ∧
      ∃ n, msg.fld 4 = .ok (caps ++ List.replicate n 0x20)
  | .nak, msg => msg.fld 1 = .ok (ascii "CAP") ∧ msg.fld 3 = .ok (ascii "NAK")
  | .tlsReady, msg => msg.fld 1 = .ok (ascii "670")
  | .tlsRefused, msg => msg.fld 1 = .ok (ascii "691")
  | .authPlus, msg => msg.fld 1 = .ok (ascii "AUTHENTICATE") ∧ 3 ≤ msg.nargs ∧
      msg.fld 2 = .ok (ascii "+")
  | .saslDone, msg => msg.fld 1 = .ok (ascii "903")
  | .saslFailed, msg => ∃ cmd ∈ ["902", "904", "905", "908"], msg.fld 1 = .ok (ascii cmd)
  | .other, msg => ∃ cmd, msg.fld 1 = .ok cmd ∧ ∀ p ∈ v3Hnds false, ascii p.1 ≠ cmd

/-- What the server has still to answer. -/
inductive Owed
  | ls
  | req (caps : Str)
  | starttls
  | authenticate
  | outcome
  deriving DecidableEq

inductive Gives : List Owed → Answer → List Owed → Prop
  | other (os : List Owed) : Gives os .other os
  | lsMore (os : List Owed) : Gives (.ls :: os) .lsMore (.ls :: os)
  | lsEnd (os : List Owed) : Gives (.ls :: os) .lsEnd os
  | ack (caps : Str) (os : List Owed) : Gives (.req caps :: os) (.ack caps) os
  | nak (caps : Str) (os : List Owed) : Gives (.req caps :: os) .nak os
  | tlsReady (os : List Owed) : Gives (.starttls :: os) .tlsReady os
  | tlsRefused (os : List Owed) : Gives (.starttls :: os) .tlsRefused os
  | authPlus (os : List Owed) : Gives (.authenticate :: os) .authPlus (.outcome :: os)
  | saslDone (os : List Owed) : Gives (.outcome :: os) .saslDone os
  | saslFailed (os : List Owed) : Gives (.outcome :: os) .saslFailed os

/-- What the server owes when it has heard a command. An AUTHENTICATE while the outcome is
awaited has the credentials and needs no answer of its own. -/
def owing (os : List Owed) : Said → List Owed
  | .ls => os ++ [.ls]
  | .req caps => os ++ [.req caps]
  | .starttls => os ++ [.starttls]
  | .authenticate => if .outcome ∈ os then os else os ++ [.authenticate]
  | .capEnd => os

inductive Event
  | got (a : Answer)
  | said (s : Said)
  deriving DecidableEq

/-- The client and the server, and what has passed between them. After a result that forbids
to proceed the client gives up. -/
structure Exchange where
  irc : Irc
  owes : List Owed
  log : List Event
  failed : Bool

def Exchange.after (x : Exchange) (a : Answer) (os : List Owed) (flags : Flags) (irc : Irc) :
    Exchange where
  irc := irc
  owes := (commands (uttered x.irc.con irc.con)).foldl owing os
  log := x.log ++ [.got a] ++ (commands (uttered x.irc.con irc.con)).map .said
  failed := flags.has CANT_PROCEED

inductive Step (users : UserHnds) : Exchange → Exchange → Prop
  | mk {x : Exchange} {a : Answer} {os : List Owed} {msg : Msg} {flags : Flags} {irc : Irc}
      (hlive : x.failed = false) (hgives : Gives x.owes a os) (hmsg : a.Means msg)
      (hlined : Lined msg)
      (hrun : msgHandle users x.irc msg true = .ok (flags, irc)) :
        Step users x (x.after a os flags irc)

def wishes : List (List Str) :=
  [[ascii "sasl"], [ascii "tls"], [ascii "sasl", ascii "tls"], [ascii "tls", ascii "sasl"]]

/-- What the user has set goes into messages, so each of it is part of a line. -/
structure Presentable (irc : Irc) : Prop where
  pass : ∀ pass ∈ irc.pass, OneLine pass
  nick : OneLine irc.nick
  uname : OneLine irc.uname
  fname : OneLine irc.fname
  mech : ∀ mech ∈ irc.saslMech, OneLine mech
  msg : ∀ msg ∈ irc.saslMsg, OneLine msg
  callback : ∀ f, irc.cbMutNick = some f → ∀ nick, OneLine nick → OneLine (f nick)

/-- A context with SASL or in-band STARTTLS wanted, before a connection. -/
structure Wanting (irc : Irc) : Prop where
  reachable : Reachable irc
  dumb : irc.dumb = false
  inband : irc.starttlsFirst = false
  wanted : irc.v3caps.map V3cap.name ∈ wishes
  sasl : ascii "sasl" ∈ irc.v3caps.map V3cap.name → irc.saslMech.isSome = true ∧
      irc.saslMsg.isSome = true
  presentable : Presentable irc

/-- The exchange begins when the client has introduced itself. All writes will succeed. -/
inductive Begins : Exchange → Prop
  | mk {irc irc₁ irc₂ : Irc} (hwanting : Wanting irc) (hopen : openConn irc = (true, irc₁))
      (hwrites : ∀ r ∈ irc₁.con.world.write, r = true) (hgreet : greet irc₁ = (true, irc₂)) :
      Begins {
        irc := { irc₂ with info := { irc₂.info with mynick := strNcpy irc₂.nick MAX_NICK_LEN } }
        owes := (commands (uttered irc₁.con irc₂.con)).foldl owing []
        log := (commands (uttered irc₁.con irc₂.con)).map .said
        failed := false }

/-- The requests of the client are in order. -/
structure Orderly (log : List Event) : Prop where
  oneReq : (log.countP fun e => e matches .said (.req _)) ≤ 1
  reqAfterLs : ∀ pre caps, pre ++ [.said (.req caps)] <+: log → .got .lsEnd ∈ pre
  oneEnd : log.count (.said .capEnd) ≤ 1
  endAfterLs : ∀ pre, pre ++ [.said .capEnd] <+: log → .got .lsEnd ∈ pre
  endAfterAck : ∀ pre caps, pre ++ [.said .capEnd] <+: log → .said (.req caps) ∈ log →
    .got (.ack caps) ∈ pre
  endAfterSasl : ∀ pre caps, pre ++ [.said .capEnd] <+: log → .got (.ack caps) ∈ log →
    CapNamed caps (ascii "sasl") → .got .saslDone ∈ pre

end Srsirc.Negotiation
