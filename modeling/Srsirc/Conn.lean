import Srsirc.Context

namespace Srsirc.Conn

open CharMap Memory Message ReadBuffer Consocket Context

/-- `lsi_conn_reset`. -/
def connReset (con : Iconn) : Iconn :=
  { con with
    shnd := con.shnd && !con.ssl
    sck := -1
    online := false
    rctx := { con.rctx with wptr := 0, eptr := 0 } }

def askBlocking (con : Iconn) : Bool × Iconn :=
  let r := ask con.world.blocking
  (r.1, { con with world := { con.world with blocking := r.2 } })

def askProxy (con : Iconn) : Bool × Iconn :=
  let r := ask con.world.proxy
  (r.1, { con with world := { con.world with proxy := r.2 } })

def askMksslctx (con : Iconn) : Bool × Iconn :=
  let r := ask con.world.mksslctx
  (r.1, { con with world := { con.world with mksslctx := r.2 } })

def askWrite (con : Iconn) : Bool × Iconn :=
  let r := ask con.world.write
  (r.1, { con with world := { con.world with write := r.2 } })

def askInTime (con : Iconn) : Bool × Iconn :=
  let r := ask con.world.inTime
  (r.1, { con with world := { con.world with inTime := r.2 } })

/-- `lsi_b_sslize`, with the handle where the caller puts it. -/
def sslize (con : Iconn) : Bool × Iconn :=
  let r := ask con.world.sslize
  (r.1, { con with
    world := { con.world with sslize := r.2 }
    shnd := r.1
    handshakes := con.handshakes + if r.1 then 1 else 0 })

/-- The next call of `lsi_com_consocket`. -/
def consocket (con : Iconn) : Outcome × Iconn :=
  match con.world.dials with
  | [] => (⟨[], -1, none⟩, con)
  | d :: dials => (d.outcome, { con with peer := d.peer, world := { con.world with dials } })

def hangUp (con : Iconn) : Bool × Iconn := (false, { con with sck := -1 })

/-- The TLS part of `lsi_conn_connect`. -/
def connectSsl (con : Iconn) : Bool × Iconn :=
  match askBlocking con with
  | (false, con) => hangUp con
  | (true, con) =>
    match sslize con with
    | (false, con) => hangUp con
    | (true, con) =>
      match askBlocking con with
      | (false, con) => hangUp con
      | (true, con) => (true, { con with online := true })

def connectDirect (con : Iconn) : Bool × Iconn :=
  if con.ssl then connectSsl con else (true, { con with online := true })

/-- `lsi_conn_connect`. -/
def connConnect (con : Iconn) : Bool × Iconn :=
  if con.online then (false, con)
  else
    let (r, con) := consocket con
    if !usable r.sck then (false, con)
    else
      let con := { con with sck := r.sck, obtained := r.obtained, shnd := false }
      if con.proxied then
        match askInTime con with
        | (false, con) => hangUp con
        | (true, con) =>
          match askBlocking con with
          | (false, con) => hangUp con
          | (true, con) =>
            match askProxy con with
            | (false, con) => hangUp con
            | (true, con) => connectDirect con
      else connectDirect con

/-- `lsi_conn_set_ssl`. -/
def connSetSsl (con : Iconn) (on : Bool) : Bool × Iconn :=
  if on ∧ !con.sctx then
    match askMksslctx con with
    | (false, con) => (false, con)
    | (true, con) => (true, { con with sctx := true, ssl := true })
  else (true, { con with sctx := on, ssl := on })

def source (con : Iconn) : Source := if con.shnd then con.peer.tls else con.peer.plain

def setSource (con : Iconn) (src : Source) : Iconn :=
  { con with peer := if con.shnd then { con.peer with tls := src }
    else { con.peer with plain := src } }

inductive Incoming
  | failed
  | timeout
  | message (msg : Msg) (tags : List Nat)

def colonTrail (msg : Msg) : Option Bool :=
  if msg.nargs ≤ 2 then none
  else (msg.ptr (msg.nargs - 1)).map fun p => decide (msg.mem.getD (p - 1) 0 = 0x3a)

/-- `lsi_conn_read`, for at most `ntags` tags; `none` where it blocks for good. -/
def connRead (con : Iconn) (ntags : Nat) : Option (Incoming × Iconn) :=
  if !con.online then some (.failed, con)
  else
    match (ioRead ntags con.rctx (source con)).2 with
    | none => none
    | some (reply, rctx, src) =>
      let con := { setSource con src with rctx }
      if reply.ret = 0 then some (.timeout, con)
      else if reply.ret < 0 then some (.failed, { connReset con with eof := reply.ret = -2 })
      else
        let msg : Msg := ⟨reply.mem, reply.tok⟩
        some (.message msg reply.tags,
          { con with colonTrail := (colonTrail msg).getD con.colonTrail })

/-- `lsi_conn_write_raw`. -/
def connWriteRaw (con : Iconn) (buf : Str) : Bool × Iconn :=
  if !con.online then (false, con)
  else
    match askWrite con with
    | (false, con) => (false, { connReset con with eof := false })
    | (true, con) => (true, { con with sent := con.sent ++ [(con.shnd, buf)] })

def crlf : Str := [0x0d, 0x0a]

/-- `lsi_conn_write`. -/
def connWrite (con : Iconn) (line : Str) : Bool × Iconn :=
  match connWriteRaw con line with
  | (false, con) => (false, con)
  | (true, con) => connWriteRaw con (if crlf <:+ line then [] else crlf)

def writeOr (irc : Irc) (line : Str) (done : Flags) : Flags × Irc :=
  match connWrite irc.con line with
  | (false, con) => (IO_ERR, { irc with con })
  | (true, con) => (done, { irc with con })

end Srsirc.Conn
