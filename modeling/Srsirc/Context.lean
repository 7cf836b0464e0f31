import Srsirc.Consocket
import Srsirc.ReadBuffer
import Srsirc.ServerInfo
import Srsirc.UserBase

namespace Srsirc.Context

open CharMap HeapCells Message ReadBuffer ServerInfo UserBase

/-- The message handlers, under their names in the source. -/
inductive Hnd
  | handle_001 | handle_002 | handle_003 | handle_004 | handle_PING | handle_bad_nick
  | handle_464 | handle_383 | handle_484 | handle_465 | handle_466 | handle_ERROR
  | handle_NICK | handle_MODE | handle_005
  | h_JOIN | h_311 | h_332 | h_333 | h_352 | h_353 | h_366 | h_PART | h_QUIT | h_NICK
  | h_KICK | h_MODE | h_PRIVMSG | h_NOTICE | h_324 | h_TOPIC
  | handle_670 | handle_691 | handle_903 | handle_saslerr | handle_CAP | handle_AUTHENTICATE
  deriving DecidableEq

inductive Module
  | core
  | v3
  | track
  deriving DecidableEq

structure Msghnd where
  cmd : Str
  hndfn : Hnd
  module : Module
  deriving DecidableEq

/-- The table of handlers, which has at least one slot. -/
abbrev Msghnds := { tbl : List (Option Msghnd) // tbl ≠ [] }

structure V3cap where
  name : Str
  adddata : Str
  musthave : Bool
  offered : Bool
  enabled : Bool
  deriving DecidableEq

structure Peer where
  plain : Source
  tls : Source

/-- A call of `lsi_com_consocket` to come: its timeouts, what it will find, and who is there
behind the socket. -/
structure Dial where
  addrs : List Consocket.Addr
  softto : UInt64
  hardto : UInt64
  clock : Consocket.Clock
  peer : Peer

/-- How the call turns out, which has 256 bytes for the name of the host. -/
def Dial.outcome (d : Dial) : Consocket.Outcome :=
  Consocket.consocket 256 d.addrs d.softto d.hardto d.clock

/-- How the calls into the platform will turn out, one list for each kind of call. Past
its end they succeed, but no host is resolved past the end of `dials`. -/
structure World where
  dials : List Dial
  proxy : List Bool
  blocking : List Bool
  mksslctx : List Bool
  sslize : List Bool
  write : List Bool
  inTime : List Bool

def ask : List Bool → Bool × List Bool
  | [] => (true, [])
  | r :: rs => (r, rs)

/-- The connection, with the peer at its other end. `sck` is -1 where there is no socket, and
`obtained` has those that `tryhost` returned when it was last connected. `sent` has what was
written and whether it went through TLS, `handshakes` counts the TLS handshakes that
succeeded. -/
structure Iconn where
  host : Str
  proxied : Bool
  sck : Int
  obtained : List Int
  shnd : Bool
  online : Bool
  eof : Bool
  rctx : Readctx
  colonTrail : Bool
  ssl : Bool
  sctx : Bool
  peer : Peer
  world : World
  sent : List (Bool × Str)
  handshakes : Nat

structure Irc where
  info : Info
  base : Base
  tracking : Bool
  trackingEnab : Bool
  dumb : Bool
  v3caps : List V3cap
  v3capreq : Str
  starttls : Bool
  starttlsFirst : Bool
  pass : Option Str
  nick : Str
  uname : Str
  fname : Str
  conflags : UInt8
  servDist : Str
  servType : Int
  servInfo : Str
  saslMech : Option Str
  saslMsg : Option Str
  cbMutNick : Option (Str → Str)
  cbConRead : Option (Msg → Bool)
  msghnds : Msghnds
  con : Iconn

def Irc.malloc (irc : Irc) : Bool × Irc :=
  (irc.base.malloc.1, { irc with base := irc.base.malloc.2 })

def Irc.strdup (irc : Irc) (s : Str) : Option Str × Irc :=
  ((irc.base.strdup s).1, { irc with base := (irc.base.strdup s).2 })

/-- What every handler is: it gets the message and the number of its fields, and is told
whether we are still logging on. -/
abbrev Handler := Irc → Msg → Nat → Bool → Except Fault (Flags × Irc)

def setFirstFree (e : Msghnd) : List (Option Msghnd) → List (Option Msghnd)
  | [] => []
  | none :: tbl => some e :: tbl
  | some e' :: tbl => some e' :: setFirstFree e tbl

theorem setFirstFree_ne_nil {e : Msghnd} {tbl : List (Option Msghnd)} (h : tbl ≠ []) :
    setFirstFree e tbl ≠ [] := by
  match tbl, h with
  | none :: _, _ => exact List.cons_ne_nil _ _
  | some _ :: _, _ => exact List.cons_ne_nil _ _

def Msghnds.add (tbl : Msghnds) (e : Msghnd) : Msghnds :=
  ⟨setFirstFree e tbl.val, setFirstFree_ne_nil tbl.property⟩

def Msghnds.double (tbl : Msghnds) : Msghnds :=
  ⟨tbl.val ++ List.replicate tbl.val.length none, List.append_ne_nil_of_left_ne_nil tbl.property _⟩

/-- `lsi_msg_reghnd`; the table doubles when it is full. -/
def reghnd (irc : Irc) (cmd : Str) (hndfn : Hnd) (module : Module) : Bool × Irc :=
  let e : Msghnd := ⟨strNcpy cmd 32, hndfn, module⟩
  if none ∈ irc.msghnds.val then (true, { irc with msghnds := irc.msghnds.add e })
  else
    match irc.malloc with
    | (false, irc) => (false, irc)
    | (true, irc) => (true, { irc with msghnds := irc.msghnds.double.add e })

def Msghnds.without (tbl : Msghnds) (module : Module) : Msghnds :=
  ⟨tbl.val.map fun e => e.filter fun e => e.module ≠ module, by simpa using tbl.property⟩

/-- `lsi_msg_unregall`. -/
def unregall (irc : Irc) (module : Module) : Irc :=
  { irc with msghnds := irc.msghnds.without module }

def reghnds : List (String × Hnd) → Module → Irc → Bool × Irc
  | [], _, irc => (true, irc)
  | (cmd, hndfn) :: hs, module, irc =>
    match reghnd irc (ascii cmd) hndfn module with
    | (false, irc) => (false, irc)
    | (true, irc) => reghnds hs module irc

def coreHnds (dumb : Bool) : List (String × Hnd) :=
  (if !dumb then
    [("PING", .handle_PING), ("432", .handle_bad_nick), ("433", .handle_bad_nick),
      ("436", .handle_bad_nick), ("437", .handle_bad_nick), ("464", .handle_464)]
  else []) ++
  [("NICK", .handle_NICK), ("ERROR", .handle_ERROR), ("MODE", .handle_MODE), ("001", .handle_001),
    ("002", .handle_002), ("003", .handle_003), ("004", .handle_004), ("383", .handle_383),
    ("484", .handle_484), ("465", .handle_465), ("466", .handle_466), ("005", .handle_005)]

def trackHnds : List (String × Hnd) :=
  [("JOIN", .h_JOIN), ("311", .h_311), ("332", .h_332), ("333", .h_333), ("353", .h_353),
    ("352", .h_352), ("366", .h_366), ("PART", .h_PART), ("QUIT", .h_QUIT), ("NICK", .h_NICK),
    ("KICK", .h_KICK), ("MODE", .h_MODE), ("PRIVMSG", .h_PRIVMSG), ("NOTICE", .h_NOTICE),
    ("324", .h_324), ("TOPIC", .h_TOPIC)]

def v3Hnds (dumb : Bool) : List (String × Hnd) :=
  if dumb then []
  else
    [("670", .handle_670), ("691", .handle_691), ("903", .handle_903), ("902", .handle_saslerr),
      ("904", .handle_saslerr), ("905", .handle_saslerr), ("908", .handle_saslerr),
      ("CAP", .handle_CAP), ("AUTHENTICATE", .handle_AUTHENTICATE)]

/-- `lsi_imh_regall`. -/
def imhRegall (irc : Irc) : Bool × Irc := reghnds (coreHnds irc.dumb) .core irc

/-- `lsi_v3_regall`. -/
def v3Regall (irc : Irc) : Bool × Irc := reghnds (v3Hnds irc.dumb) .v3 irc

def ucbInit (irc : Irc) : Bool × Irc :=
  let (ok₁, irc) := irc.malloc
  if !ok₁ then (false, irc) else
  let (ok₂, irc) := irc.malloc
  if !ok₂ then (false, irc) else
  let (ok₃, irc) := irc.malloc
  if !ok₃ then (false, irc) else
  let (ok₄, irc) := irc.malloc
  if !ok₄ then (false, irc)
  else (true, { irc with base := { Base.init irc.info.casemap with
    al := irc.base.al, freed := irc.base.freed } })

/-- `lsi_trk_init`. -/
def trkInit (irc : Irc) : Bool × Irc :=
  match reghnds trackHnds .track irc with
  | (false, irc) => (false, unregall irc .track)
  | (true, irc) =>
    match ucbInit irc with
    | (false, irc) => (false, unregall irc .track)
    | (true, irc) => (true, irc)

/-- `lsi_trk_deinit`. Nothing refers to the user base while there are no handlers for it. -/
def trkDeinit (irc : Irc) : Irc :=
  unregall { irc with base := { Base.init irc.info.casemap with
    al := irc.base.al, freed := irc.base.freed } } .track

end Srsirc.Context
