import Srsirc.Dispatch

namespace Srsirc.Connect

open CharMap Message ReadBuffer ServerInfo UserBase Context Conn CoreHandlers Capabilities Dispatch
open BucketList (Alloc)

/-- `lsi_ut_mut_nick`, with what `rand` comes up with. -/
def mutNick (rand : Nat × Nat) (nick : Str) : Str :=
  if nick.length < 9 then nick ++ [0x5f]
  else
    let last := nick.getLastD 0
    if last = 0x39 then
      nick.set (rand.1 % (nick.length - 1) + 1) (0x30 + UInt8.ofNat (rand.2 % 10))
    else if 0x30 ≤ last ∧ last ≤ 0x38 then nick.dropLast ++ [last + 1]
    else nick.dropLast ++ [0x30]

/-- `lsi_conn_init`. -/
def connInit (world : World) : Iconn where
  host := ascii "localhost"
  proxied := false
  sck := -1
  obtained := []
  shnd := false
  online := false
  eof := false
  rctx := .init
  colonTrail := false
  ssl := false
  sctx := false
  peer := ⟨[], []⟩
  world
  sent := []
  handshakes := 0

/-- What `irc_init` makes, when it finds the memory for it. -/
def ircInit (rand : Nat × Nat) (al : Alloc) (world : World) : Irc where
  info := .init
  base := { Base.init .rfc1459 with al }
  tracking := false
  trackingEnab := false
  dumb := false
  v3caps := []
  v3capreq := []
  starttls := false
  starttlsFirst := false
  pass := none
  nick := ascii "srsirc"
  uname := ascii "bsnsirc"
  fname := ascii "serious business irc"
  conflags := 0
  servDist := ascii "*"
  servType := 0
  servInfo := ascii "srsbsns srvc"
  saslMech := none
  saslMsg := none
  cbMutNick := some (mutNick rand)
  cbConRead := none
  msghnds := ⟨List.replicate 64 none, List.cons_ne_nil _ _⟩
  con := connInit world

/-- `irc_reset`. -/
def ircReset (irc : Irc) : Irc := { irc with con := connReset irc.con }

/-- `irc_write`. -/
def ircWrite (irc : Irc) (line : Str) : Bool × Irc :=
  match connWrite irc.con line with
  | (false, con) => (false, ircReset { irc with con })
  | (true, con) => (true, { irc with con })

def decimal (n : Nat) : Str := (Nat.toDigits 10 n).map fun c => UInt8.ofNat c.toNat

def signed (n : Int) : Str := (if n < 0 then [0x2d] else []) ++ decimal n.natAbs

/-- What `send_logon` writes ahead of the registration. -/
def logonIntro (irc : Irc) : Str :=
  (if irc.v3caps = [] then [] else ascii "CAP LS 302" ++ crlf) ++
  match irc.pass with
  | none => []
  | some pass => if pass = [] then [] else ascii "PASS :" ++ pass ++ crlf

def registration (irc : Irc) : Str :=
  if irc.info.service then
    ascii "SERVICE " ++ irc.nick ++ ascii " 0 " ++ irc.servDist ++ ascii " " ++
      signed irc.servType ++ ascii " 0 :" ++ irc.servInfo ++ crlf
  else
    ascii "NICK " ++ irc.nick ++ crlf ++ ascii "USER " ++ irc.uname ++ ascii " " ++
      decimal irc.conflags.toNat ++ ascii " * :" ++ irc.fname ++ crlf

/-- `send_logon`. A registration that fills the buffer to the last byte loses that one. -/
def sendLogon (irc : Irc) : Bool × Irc :=
  if !irc.con.online then (false, irc)
  else if 512 ≤ (logonIntro irc).length then (false, irc)
  else if 512 < (logonIntro irc ++ registration irc).length then (false, irc)
  else ircWrite irc (snprintf 512 (logonIntro irc ++ registration irc))

/-- `irc_connect` up to the call of `lsi_conn_connect`. -/
def openConn (irc : Irc) : Bool × Irc :=
  let irc := { trkDeinit irc with trackingEnab := false }
  match imhRegall (unregall irc .core) with
  | (false, irc) => (false, irc)
  | (true, irc) =>
    match v3Regall (unregall irc .v3) with
    | (false, irc) => (false, irc)
    | (true, irc) =>
      let irc := { irc with info := .init, v3capreq := [] }
      match connConnect irc.con with
      | (ok, con) => (ok, { irc with con })

/-- The variables of the loop in `irc_connect`. -/
structure Progress where
  logonSent : Bool
  loggedOn : Bool
  saslAuthed : Bool

/-- What `irc_connect` has come to, and the messages that it was sent meanwhile. -/
structure Connected where
  ok : Bool
  irc : Irc
  msgs : List Msg

def greet (irc : Irc) : Bool × Irc :=
  if irc.starttlsFirst then
    match connWrite irc.con (ascii "STARTTLS" ++ crlf) with
    | (ok, con) => (ok, { irc with con })
  else sendLogon irc

/-- What the loop does with a message; `none` where it gives up. -/
def heed (users : UserHnds) (irc : Irc) (p : Progress) (msg : Msg) :
    Except Fault (Option Progress × Irc) :=
  if irc.cbConRead.any (!· msg) then .ok (none, irc)
  else do
    let (flags, irc) ← msgHandle users irc msg true
    if flags.has CANT_PROCEED then .ok (none, irc)
    else
      let loggedOn := p.loggedOn || flags.has LOGON_COMPLETE
      let saslAuthed := p.saslAuthed || flags.has SASL_COMPLETE
      if flags.has STARTTLS_OVER && !p.logonSent then
        match sendLogon irc with
        | (false, irc) => .ok (none, irc)
        | (true, irc) => .ok (some ⟨true, loggedOn, saslAuthed⟩, irc)
      else .ok (some ⟨p.logonSent, loggedOn, saslAuthed⟩, irc)

/-- The loop of `irc_connect`, which has seen `msgs`; `k` bounds its rounds. Like the reads
in it, it may never come to an end. -/
def logon (users : UserHnds) (sasl : Bool) :
    Nat → Irc → Progress → List Msg → Option (Except Fault Connected)
  | 0, _, _, _ => none
  | k + 1, irc, p, msgs =>
    match askInTime irc.con with
    | (false, con) => some (.ok ⟨false, ircReset { irc with con }, msgs⟩)
    | (true, con) =>
      match connRead con 0 with
      | none => none
      | some (.failed, con) => some (.ok ⟨false, ircReset { irc with con }, msgs⟩)
      | some (.timeout, con) => logon users sasl k { irc with con } p msgs
      | some (.message msg _, con) =>
        match heed users { irc with con } p msg with
        | .error e => some (.error e)
        | .ok (none, irc) => some (.ok ⟨false, ircReset irc, msgs ++ [msg]⟩)
        | .ok (some p, irc) =>
          if p.loggedOn && (!sasl || p.saslAuthed) then some (.ok ⟨true, irc, msgs ++ [msg]⟩)
          else logon users sasl k irc p (msgs ++ [msg])

/-- `irc_connect`. -/
def connect (users : UserHnds) (k : Nat) (irc : Irc) : Option (Except Fault Connected) :=
  match openConn irc with
  | (false, irc) => some (.ok ⟨false, irc, []⟩)
  | (true, irc) =>
    if irc.dumb then some (.ok ⟨true, irc, []⟩)
    else
      match greet irc with
      | (false, irc) => some (.ok ⟨false, ircReset irc, []⟩)
      | (true, irc) =>
        let sasl := irc.saslMech.isSome && irc.saslMsg.isSome
        let irc := { irc with info := { irc.info with mynick := strNcpy irc.nick MAX_NICK_LEN } }
        logon users sasl k irc ⟨!irc.starttlsFirst, false, false⟩ []

def noUsers : UserHnds := ⟨fun irc _ _ => (true, irc), fun irc _ _ => (true, irc)⟩

def lines (ls : List String) : Source :=
  ls.flatMap fun l =>
    match ascii l ++ crlf with
    | [] => []
    | c :: s => [.chunk c s]

/-- A peer whose one address takes the connection at once. -/
def answering (peer : Peer) : Dial :=
  ⟨[⟨ascii "192.0.2.1", 6667, 5, 1, fun _ => 1, true⟩], 0, 0, fun _ => 0, peer⟩

/-- A world with nothing but these peers, in which everything works out. -/
def serving (peers : List Peer) : World := ⟨peers.map answering, [], [], [], [], [], []⟩

end Srsirc.Connect
