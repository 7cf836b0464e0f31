import Srsirc.CoreHandlers

namespace Srsirc.Capabilities

open CharMap Message UserBase Context Conn CoreHandlers

def MAX_V3CAPS : Nat := 16
def MAX_V3CAPLEN : Nat := 128
def MAX_V3CAPLINE : Nat := 512

def findCap (caps : List V3cap) (name : Str) : Option V3cap := caps.find? (·.name = name)

def updateCap (name : Str) (f : V3cap → V3cap) : List V3cap → List V3cap
  | [] => []
  | cap :: caps => if cap.name = name then f cap :: caps else cap :: updateCap name f caps

/-- `lsi_v3_want_cap`. -/
def wantCap (irc : Irc) (name : Str) (musthave : Bool) : Bool × Irc :=
  let cap : V3cap := ⟨strNcpy name MAX_V3CAPLEN, [], musthave, false, false⟩
  if irc.v3caps.any (·.name = name) then
    (true, { irc with v3caps := updateCap name (fun _ => cap) irc.v3caps })
  else if MAX_V3CAPS ≤ irc.v3caps.length then (false, irc)
  else
    match irc.malloc with
    | (false, irc) => (false, irc)
    | (true, irc) => (true, { irc with v3caps := irc.v3caps ++ [cap] })

/-- `lsi_v3_clear_cap`: the last capability takes the place of the one removed. -/
def clearCap (irc : Irc) (name : Str) : Irc :=
  match irc.v3caps.findIdx? (·.name = name), irc.v3caps.getLast? with
  | some i, some last => { irc with v3caps := (irc.v3caps.set i last).dropLast }
  | _, _ => irc

/-- `irc_set_starttls`, where TLS is compiled in. -/
def setStarttls (irc : Irc) (mode : Int) (musthave : Bool) : Bool × Irc :=
  if irc.con.ssl ∧ mode ≠ 0 then (false, irc)
  else
    let irc := { clearCap irc (ascii "tls") with starttls := false }
    if mode = 0 then (true, irc)
    else if mode = 1 then
      match wantCap irc (ascii "tls") musthave with
      | (false, irc) => (false, irc)
      | (true, irc) => (true, { irc with starttls := true })
    else (true, { irc with starttlsFirst := true, starttls := true })

/-- `irc_set_ssl`, with TLS support compiled in. -/
def setSsl (irc : Irc) (on : Bool) : Bool × Irc :=
  if irc.starttls ∧ on then (false, irc)
  else
    match connSetSsl irc.con on with
    | (ok, con) => (ok, { irc with con })

/-- `irc_set_sasl`. Whether there is room for the capability goes unnoticed. -/
def setSasl (irc : Irc) (mech msg : Str) (musthave : Bool) : Bool × Irc :=
  match irc.strdup mech with
  | (none, irc) => (false, irc)
  | (some mech, irc) =>
    match (clearCap irc (ascii "sasl")).malloc with
    | (false, irc) => (false, { irc with saslMech := none, saslMsg := none })
    | (true, irc) =>
      (true, (wantCap { irc with saslMech := some mech, saslMsg := some msg } (ascii "sasl")
        musthave).2)

/-- The capabilities in a line, as `lsi_com_next_tok` finds them; the first may be empty. -/
def capWords (line : Str) : List Str :=
  match line.splitOn 0x20 with
  | [] => []
  | w :: ws => w :: ws.filter (· ≠ [])

def noteCap (offered : Bool) (caps : List V3cap) (word : Str) : List V3cap :=
  updateCap (word.takeWhile (· != 0x3d)) (fun cap => { cap with
    offered := offered || cap.offered
    enabled := !offered || cap.enabled
    adddata :=
      if 0x3d ∈ word then strNcpy (word.dropWhile (· != 0x3d)).tail MAX_V3CAPLEN
      else cap.adddata }) caps

/-- `lsi_v3_update_caps`. -/
def updateCaps (irc : Irc) (capsline : Str) (offered : Bool) : Irc :=
  { irc with v3caps := (capWords (strNcpy capsline MAX_V3CAPLINE)).foldl (noteCap offered) irc.v3caps }

/-- `lsi_v3_mk_capreq`: the offered capabilities, as far as they fit. -/
def mkCapreq (irc : Irc) (destsz : Nat) : Str :=
  match irc.v3caps.filter (·.offered) with
  | [] => []
  | cap :: caps =>
    caps.foldl (fun dest cap => strNcat (strNcat dest [0x20] destsz) cap.name destsz)
      (strNcat [] cap.name destsz)

/-- `conclude_sasl_cap`. -/
def concludeSaslCap (irc : Irc) : Flags × Irc :=
  let line :=
    match findCap irc.v3caps (ascii "sasl") with
    | some cap =>
      if cap.enabled then ascii "AUTHENTICATE " ++ irc.saslMech.getD (ascii "(null)") ++ crlf
      else ascii "CAP END" ++ crlf
    | none => ascii "CAP END" ++ crlf
  writeOr irc (snprintf 512 line) 0

def handle_CAP_LS (irc : Irc) (msg : Msg) (nargs : Nat) (logon : Bool) :
    Except Fault (Flags × Irc) :=
  if !logon then .ok (0, irc)
  else if nargs < 5 then .ok (PROTO_ERR, irc)
  else do
    let arg ← msg.fld 4
    if arg.head? = some 0x2a then do
      let caps ← msg.fld 5
      .ok (MORE_CAPS, updateCaps irc caps true)
    else .ok (0, updateCaps irc arg true)

def trimRight (s : Str) : Str := (s.reverse.dropWhile (· == 0x20)).reverse

def handle_CAP_ACK (irc : Irc) (msg : Msg) (nargs : Nat) : Except Fault (Flags × Irc) :=
  if nargs < 5 then .ok (PROTO_ERR, irc)
  else do
    let arg ← msg.fld 4
    if trimRight arg ≠ irc.v3capreq then .ok (CAP_ERR, irc)
    else .ok (0, updateCaps irc (trimRight arg) false)

def handle_CAP_NAK (irc : Irc) (nargs : Nat) : Flags × Irc :=
  (if nargs < 5 then PROTO_ERR else CAP_ERR, irc)

def requestCaps (irc : Irc) : Flags × Irc :=
  if !checkCaps irc true then (CAP_ERR, irc)
  else
    let capreq := mkCapreq irc (MAX_V3CAPLEN - 9)
    let line := if irc.v3caps.any (·.offered) then ascii "CAP REQ :" ++ capreq
      else ascii "CAP END" ++ crlf
    writeOr { irc with v3capreq := capreq } line 0

def handle_CAP : Handler := fun irc msg nargs logon =>
  if nargs < 4 then .ok (PROTO_ERR, irc)
  else do
    let subcmd ← msg.fld 3
    if subcmd = ascii "LS" then do
      let (r, irc) ← handle_CAP_LS irc msg nargs logon
      if r.has CANT_PROCEED then .ok (r, irc)
      else if r.has MORE_CAPS then .ok (0, irc)
      else .ok (requestCaps irc)
    else if subcmd = ascii "ACK" then do
      let (r, irc) ← handle_CAP_ACK irc msg nargs
      if r.has CANT_PROCEED then .ok (r, irc)
      else if (findCap irc.v3caps (ascii "tls")).any (·.enabled) then
        .ok (writeOr irc (ascii "STARTTLS" ++ crlf) 0)
      else .ok (concludeSaslCap irc)
    else if subcmd = ascii "NAK" then .ok (handle_CAP_NAK irc nargs)
    else .ok (0, irc)

def handle_AUTHENTICATE : Handler := fun irc msg nargs _ =>
  if nargs < 3 then .ok (PROTO_ERR, irc)
  else if irc.dumb ∨ irc.saslMech = none then .ok (0, irc)
  else
    match irc.saslMsg with
    | none => .ok (0, irc)
    | some saslMsg => do
      let _ ← msg.fld 2
      match connWriteRaw irc.con (ascii "AUTHENTICATE ") with
      | (false, con) => .ok (IO_ERR, { irc with con })
      | (true, con) =>
        match connWriteRaw con saslMsg with
        | (false, con) => .ok (IO_ERR, { irc with con })
        | (true, con) => .ok (writeOr { irc with con } crlf 0)

def handle_903 : Handler := fun irc _ _ logon =>
  if irc.saslMech = none ∨ irc.saslMsg = none then .ok (0, irc)
  else if logon then .ok (writeOr irc (ascii "CAP END" ++ crlf) SASL_COMPLETE)
  else .ok (SASL_COMPLETE, irc)

def handle_saslerr : Handler := fun irc _ nargs _ =>
  if nargs < 2 then .ok (PROTO_ERR, irc)
  else if irc.saslMech = none ∨ irc.saslMsg = none then .ok (0, irc)
  else .ok (SASL_ERR, irc)

def handle_691 : Handler := fun irc _ nargs _ =>
  if nargs < 4 then .ok (PROTO_ERR, irc)
  else if (findCap irc.v3caps (ascii "tls")).any (·.musthave) then .ok (IO_ERR, irc)
  else if irc.starttlsFirst then .ok (STARTTLS_OVER, irc)
  else .ok (concludeSaslCap irc)

def upgrade (con : Iconn) : Bool × Iconn :=
  match askBlocking con with
  | (false, con) => (false, con)
  | (true, con) =>
    match askMksslctx con with
    | (false, con) => (false, { con with sctx := false })
    | (true, con) =>
      match sslize { con with sctx := true } with
      | (false, con) => (false, con)
      | (true, con) =>
        match askBlocking con with
        | (false, con) => (false, con)
        | (true, con) => (true, { con with ssl := true })

def handle_670 : Handler := fun irc _ _ _ =>
  match upgrade irc.con with
  | (false, con) => .ok (IO_ERR, { irc with con })
  | (true, con) =>
    if irc.starttlsFirst then .ok (STARTTLS_OVER, { irc with con })
    else .ok (concludeSaslCap { irc with con })

end Srsirc.Capabilities
