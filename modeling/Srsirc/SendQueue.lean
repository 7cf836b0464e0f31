import Srsirc.MessageTags

namespace Srsirc.SendQueue

open CharMap MessageTags

/-- What the send queue depends on outside of itself. The clock moves on by the next tick
whenever it is looked at and whenever something is written. -/
structure World where
  now : Nat
  ticks : List Nat
  writes : List Bool
  connects : List Bool

def World.tick (w : World) : World :=
  match w.ticks with
  | [] => w
  | d :: ds => { w with now := w.now + d, ticks := ds }

/-- `lsi_b_tstamp_us` -/
def World.tstamp (w : World) : Nat × World := (w.tick.now, w.tick)

/-- `to_srv`, where `irc_write` succeeds or fails. -/
def World.toSrv (w : World) : Bool × World :=
  let w := w.tick
  (w.writes.headD false, { w with writes := w.writes.tail })

/-- `irc_connect` on the next server. -/
def World.connect (w : World) : Bool × World :=
  (w.connects.headD false, { w with connects := w.connects.tail })

def World.horizon (w : World) : Nat := w.now + w.ticks.sum

structure Settings where
  linedelay : Nat
  hbeatUs : Nat
  srvlist : List Str
  nojoin : Bool
  chanlist : Str

/-- The variables of `icat_serv.c`, with the `freelines` that are left. -/
structure Serv where
  on : Bool
  outQ : List Str
  nexthb : Nat
  nextsend : Nat
  quitat : Nat
  gotpong : Bool
  freelines : Nat

/-- The state once `icat_serv_init` has established the first connection. -/
def Serv.init (nexthb freelines : Nat) : Serv := ⟨true, [], nexthb, 0, 0, true, freelines⟩

def enqueue (line : Str) : List Str → List Str
  | [] => [line]
  | l :: ls => l :: enqueue line ls

def queuedLine (text : Str) : Str := text.take 1023

/-- `icat_serv_printf`, on the text its format produces. -/
def printf (text : Str) (s : Serv) : Nat × Serv :=
  (text.length, { s with outQ := enqueue (queuedLine text) s.outQ })

/-- A line of the queue that was handed to `irc_write`, when, how many free lines there
were, and whether it was accepted. -/
structure Attempt where
  line : Str
  time : Nat
  free : Nat
  ok : Bool

def isQuit (line : Str) : Bool := caseEq (line.take 4) (ascii "QUIT")

def sendTime (s : Serv) (w : World) : Bool × World :=
  if 0 < s.freelines then (true, w)
  else
    let (t, w) := w.tstamp
    (decide (s.nextsend ≤ t), w)

/-- The new `s_quitat`. -/
def quitSeen (line : Str) (s : Serv) (w : World) : Nat × World :=
  if isQuit line then w.tstamp else (s.quitat, w)

/-- What follows a successful write of `line`. -/
def sentLine (sett : Settings) (line : Str) (rest : List Str) (s : Serv) (w : World) :
    Serv × World :=
  let (quitat, w) := quitSeen line s w
  let (t, w) := w.tstamp
  ({ s with
    outQ := rest
    quitat := quitat
    freelines := s.freelines - 1
    nextsend := (t + sett.linedelay) % 2 ^ 64 }, w)

/-- The first component is what was tried. -/
def processSendq (sett : Settings) (s : Serv) (w : World) : Option Attempt × Int × Serv × World :=
  match s.outQ with
  | [] => (none, 0, s, w)
  | line :: rest =>
    match sendTime s w with
    | (false, w) => (none, 0, s, w)
    | (true, w) =>
      match w.toSrv with
      | (false, w) => (some ⟨line, w.now, s.freelines, false⟩, -1, { s with on := false }, w)
      | (true, w) =>
        (some ⟨line, w.now, s.freelines, true⟩, 1, sentLine sett line rest s w)

def doHeartbeat (sett : Settings) (s : Serv) (w : World) : Bool × Serv × World :=
  if sett.hbeatUs = 0 then (true, s, w)
  else
    let (t, w) := w.tstamp
    if t < s.nexthb then (true, s, w)
    else if !s.gotpong then (false, { s with on := false }, w)
    else
      let (t, w) := w.tstamp
      let s := { s with gotpong := false, nexthb := (t + sett.hbeatUs) % 2 ^ 64 }
      match w.toSrv with
      | (true, w) => (true, s, w)
      | (false, w) => (false, { s with on := false }, w)

def tryconnect (sett : Settings) : List Str → Serv → World → Bool × Serv × World
  | [], s, w => (false, s, w)
  | _ :: srvs, s, w =>
    match w.connect with
    | (false, w) => tryconnect sett srvs s w
    | (true, w) =>
      let (t, w) := w.tstamp
      let s := { s with nexthb := (t + sett.hbeatUs) % 2 ^ 64, gotpong := true }
      (true, s, if !sett.nojoin ∧ sett.chanlist ≠ [] then w.toSrv.2 else w)

/-- `icat_serv_operate` -/
def operate (sett : Settings) (s : Serv) (w : World) : Option Attempt × Bool × Serv × World :=
  if !s.on then
    if s.quitat ≠ 0 then (none, true, s, w)
    else
      match tryconnect sett sett.srvlist s w with
      | (false, s, w) => (none, false, s, w)
      | (true, s, w) => (none, true, { s with on := true }, w)
  else
    match processSendq sett s w with
    | (a, r, s, w) => if r = -1 then (a, false, s, w) else (a, doHeartbeat sett s w)

def handlePING (s : Serv) (w : World) : Serv × World :=
  match w.toSrv with
  | (true, w) => (s, w)
  | (false, w) => ({ s with on := false }, w)

def handlePONG (s : Serv) : Serv := { s with gotpong := true }

/-- `icat_serv_read`, where `irc_read` returns `r`. -/
def read (r : Int) (s : Serv) : Serv := if s.on ∧ r = -1 then { s with on := false } else s

/-- What can happen to the queue's state. The handlers run inside of reads and connects. -/
inductive Call
  | printf (text : Str)
  | operate
  | read (r : Int)
  | ping
  | pong

def Call.run (sett : Settings) (s : Serv) (w : World) : Call → List Attempt × Serv × World
  | .printf text => ([], (SendQueue.printf text s).2, w)
  | .operate =>
    let (a, _, s, w) := SendQueue.operate sett s w
    (a.toList, s, w)
  | .read r => ([], SendQueue.read r s, w)
  | .ping => ([], handlePING s w)
  | .pong => ([], handlePONG s, w)

def run (sett : Settings) (s : Serv) (w : World) : List Call → List Attempt × Serv × World
  | [] => ([], s, w)
  | call :: calls =>
    let (log, s, w) := call.run sett s w
    let (log', s, w) := run sett s w calls
    (log ++ log', s, w)

def queued (calls : List Call) : List Str :=
  calls.filterMap fun
    | .printf text => some (queuedLine text)
    | _ => none

end Srsirc.SendQueue
