import Srsirc.Conn

namespace Srsirc.CoreHandlers

open CharMap Memory Dictionary Message ServerInfo UserBase Context Conn
open BucketList (Alloc)

def clonedFields (mem : Mem) : List (Option Nat) → Alloc → Option (List (Option Str)) × Alloc
  | [], al => (some [], al)
  | none :: tok, al => ((clonedFields mem tok al).1.map (none :: ·), (clonedFields mem tok al).2)
  | some p :: tok, al =>
    match BucketList.malloc al with
    | (false, al) => (none, al)
    | (true, al) =>
      ((clonedFields mem tok al).1.map (some (cstr mem p) :: ·), (clonedFields mem tok al).2)

/-- `lsi_ut_clonearr`. When it fails halfway it frees pointers that were never set. -/
def clonearr (msg : Msg) (al : Alloc) : Except Fault (Option (List (Option Str)) × Alloc) :=
  match BucketList.malloc al with
  | (false, al) => .ok (none, al)
  | (true, al) =>
    match clonedFields msg.mem msg.tok al with
    | (none, _) => .error .badPtr
    | (some arr, al) => .ok (some arr, al)

def keepLogonconv (irc : Irc) (k : Nat) (msg : Msg) : Except Fault Irc := do
  let (arr, al) ← clonearr msg irc.base.al
  .ok { irc with
    info := { irc.info with logonconv := irc.info.logonconv.set k arr }
    base := { irc.base with al } }

/-- `lsi_v3_check_caps`. -/
def checkCaps (irc : Irc) (offered : Bool) : Bool :=
  irc.v3caps.all fun cap => !(cap.musthave && (offered && !cap.offered || !offered && !cap.enabled))

def handle_001 : Handler := fun irc msg nargs logon =>
  if nargs < 3 ∨ (!irc.dumb ∧ !logon) then .ok (PROTO_ERR, irc)
  else do
    let irc ← keepLogonconv irc 0 msg
    let nick ← msg.fld 2
    let irc := { irc with info := { irc.info with mynick := strNcpy nick MAX_NICK_LEN } }
    .ok (if checkCaps irc false then 0 else CAP_ERR, irc)

def handle_002 : Handler := fun irc msg _ logon =>
  if !irc.dumb ∧ !logon then .ok (PROTO_ERR, irc)
  else do
    let irc ← keepLogonconv irc 1 msg
    .ok (0, irc)

def handle_003 : Handler := fun irc msg _ logon =>
  if !irc.dumb ∧ !logon then .ok (PROTO_ERR, irc)
  else do
    let irc ← keepLogonconv irc 2 msg
    .ok (0, irc)

/-- Whether `pat` occurs in `s`. -/
def strstr (s pat : Str) : Bool := s.tails.any (pat.isPrefixOf ·)

def handle_004 : Handler := fun irc msg nargs logon =>
  if nargs < 7 ∨ (!irc.dumb ∧ !logon) then do
    let pfx ← msg.fld 0
    .ok (if strstr pfx (ascii "twitch.tv") then LOGON_COMPLETE else PROTO_ERR, irc)
  else do
    let irc ← keepLogonconv irc 3 msg
    let myhost ← msg.fld 3
    let umodes ← msg.fld 5
    let cmodes ← msg.fld 6
    let ver ← msg.fld 4
    .ok (LOGON_COMPLETE, { irc with info := { irc.info with
      myhost := strNcpy myhost MAX_HOST_LEN
      umodes := strNcpy umodes MAX_UMODES_LEN
      cmodes := strNcpy cmodes MAX_CMODES_LEN
      ver := strNcpy ver MAX_VER_LEN } })

/-- `snprintf` into `n` bytes. -/
def snprintf (n : Nat) (s : Str) : Str := s.take (n - 1)

def handle_PING : Handler := fun irc msg nargs logon =>
  if !logon then .ok (0, irc)
  else if nargs < 3 then .ok (PROTO_ERR, irc)
  else do
    let arg ← msg.fld 2
    .ok (writeOr irc (snprintf 256 (ascii "PONG :" ++ arg ++ crlf)) 0)

def handle_bad_nick : Handler := fun irc _ _ logon =>
  if !logon then .ok (0, irc)
  else
    match irc.cbMutNick with
    | none => .ok (OUT_OF_NICKS, irc)
    | some mutNick =>
      let mynick := strNcpy (mutNick irc.info.mynick) MAX_NICK_LEN
      let irc := { irc with info := { irc.info with mynick } }
      if mynick = [] then .ok (OUT_OF_NICKS, irc)
      else .ok (writeOr irc (snprintf (MAX_NICK_LEN + 8) (ascii "NICK " ++ mynick ++ crlf)) 0)

def handle_464 : Handler := fun irc _ _ logon => .ok (if !logon then PROTO_ERR else AUTH_ERR, irc)

def handle_383 : Handler := fun irc msg nargs logon =>
  if nargs < 3 ∨ (!irc.dumb ∧ !logon) then .ok (PROTO_ERR, irc)
  else do
    let nick ← msg.fld 2
    let myhost ← if msg.present 0 then msg.fld 0 else .ok irc.con.host
    .ok (LOGON_COMPLETE, { irc with info := { irc.info with
      mynick := strNcpy nick MAX_NICK_LEN
      myhost := strNcpy myhost MAX_HOST_LEN
      umodes := DEF_UMODES
      cmodes := DEF_CMODES
      ver := []
      service := true } })

def handle_484 : Handler := fun irc _ _ _ =>
  .ok (0, { irc with info := { irc.info with restricted := true } })

def handle_465 : Handler := fun irc msg _ _ => do
  let arg ← if msg.present 3 then msg.fld 3 else .ok []
  let (banmsg, irc) := irc.strdup arg
  .ok (0, { irc with info := { irc.info with banned := true, banmsg } })

def handle_466 : Handler := fun irc _ _ _ => .ok (0, irc)

def handle_ERROR : Handler := fun irc msg _ _ => do
  let arg ← if msg.present 2 then msg.fld 2 else .ok []
  let (lasterr, irc) := irc.strdup arg
  .ok (0, { irc with info := { irc.info with lasterr } })

def handle_NICK : Handler := fun irc msg nargs _ =>
  if nargs < 3 ∨ !msg.present 0 then .ok (PROTO_ERR, irc)
  else do
    let ident ← msg.fld 0
    if istrcmp (ident2nick 128 ident) irc.info.mynick irc.info.casemap = 0 then do
      let newnick ← msg.fld 2
      .ok (0, { irc with info := { irc.info with mynick := strNcpy newnick MAX_NICK_LEN } })
    else .ok (0, irc)

/-- The loop of `handle_MODE` over the mode string, with the sign in force. -/
def applyUmodes : Str → Bool → Str → Str
  | [], _, myumodes => myumodes
  | c :: s, enab, myumodes =>
    if c = 0x2b ∨ c = 0x2d then applyUmodes s (c = 0x2b) myumodes
    else if enab = (strchr myumodes c).isSome then applyUmodes s enab myumodes
    else if enab then applyUmodes s enab (strNcat myumodes [c] MAX_UMODES_LEN)
    else applyUmodes s enab (myumodes.erase c)

def handle_MODE : Handler := fun irc msg nargs _ =>
  if nargs < 4 then .ok (PROTO_ERR, irc)
  else do
    let target ← msg.fld 2
    if istrcmp target irc.info.mynick irc.info.casemap ≠ 0 then .ok (0, irc)
    else do
      let modes ← msg.fld 3
      .ok (0, { irc with info := { irc.info with
        myumodes := applyUmodes modes true irc.info.myumodes } })

/-- `strcasecmp` being zero. -/
def sameIgnoringCase (s : Str) (t : String) : Bool :=
  s.map (tolower · .ascii) = (ascii t).map (tolower · .ascii)

def handle_005_CASEMAPPING (info : Info) (val : Str) : Flags × Info :=
  (0, { info with casemap :=
    if sameIgnoringCase val "ascii" then .ascii
    else if sameIgnoringCase val "strict-rfc1459" then .strictRfc1459
    else .rfc1459 })

def handle_005_PREFIX (info : Info) (val : Str) : Flags × Info :=
  match val with
  | [] => (PROTO_ERR, info)
  | _ :: rest =>
    let str := strNcpy rest 32
    match str.findIdx? (· == 0x29) with
    | none => (PROTO_ERR, info)
    | some i =>
      let modes := str.take i
      let syms := str.drop (i + 1)
      if modes = [] ∨ modes.length ≠ syms.length then (PROTO_ERR, info)
      else (0, { info with
        m005modepfx := (strNcpy modes MAX_005_MDPFX, strNcpy syms MAX_005_MDPFX) })

/-- The first four nonempty parts between commas, as `strtok` finds them. -/
def handle_005_CHANMODES (info : Info) (val : Str) : Flags × Info :=
  let parts := ((strNcpy val 64).splitOn 0x2c).filter (· ≠ [])
  let modes := (parts.take 4).map (strNcpy · MAX_005_CHMD)
  (0, { info with m005chanmodes := modes ++ List.replicate (4 - modes.length) [] })

def handle_005_CHANTYPES (info : Info) (val : Str) : Flags × Info :=
  (0, { info with m005chantypes := strNcpy val MAX_005_CHTYP })

/-- The handler for one attribute, where `val` is missing for want of memory. -/
def handleAttr (info : Info) (nam : Str) (val : Option Str) : Except Fault (Flags × Info) :=
  let sub (h : Info → Str → Flags × Info) : Except Fault (Flags × Info) :=
    match val with
    | none => .error .badPtr
    | some val => .ok (h info val)
  if sameIgnoringCase nam "CASEMAPPING" then sub handle_005_CASEMAPPING
  else if sameIgnoringCase nam "PREFIX" then sub handle_005_PREFIX
  else if sameIgnoringCase nam "CHANMODES" then sub handle_005_CHANMODES
  else if sameIgnoringCase nam "CHANTYPES" then sub handle_005_CHANTYPES
  else .ok (0, info)

def noteAttr (irc : Irc) (attr : Str) : Except Fault (Flags × Irc) := do
  let nam := attr.takeWhile (· != 0x3d)
  let (val, irc) := irc.strdup (attr.drop (nam.length + 1))
  let (_, attrs) := irc.info.m005attrs.del nam
  let (attrs, al) :=
    match val with
    | none => (attrs, irc.base.al)
    | some val => (attrs.put nam val irc.base.al).2
  let irc := { irc with
    info := { irc.info with m005attrs := attrs }
    base := { irc.base with al } }
  let (ret, info) ← handleAttr irc.info nam val
  .ok (ret, { irc with info })

/-- The loop of `handle_005` over `k` fields from `z` on, which also tells whether there
was a CASEMAPPING. -/
def noteAttrs (msg : Msg) : Nat → Nat → Irc → Except Fault (Flags × Bool × Irc)
  | 0, _, irc => .ok (0, false, irc)
  | k + 1, z, irc => do
    let attr ← msg.fld z
    let casemapping := sameIgnoringCase (attr.takeWhile (· != 0x3d)) "CASEMAPPING"
    let (ret, irc) ← noteAttr irc attr
    if ret.has CANT_PROCEED then .ok (ret, casemapping, irc)
    else
      let (ret', casemapping', irc) ← noteAttrs msg k (z + 1) irc
      .ok (ret ||| ret', casemapping || casemapping', irc)

def handle_005 : Handler := fun irc msg nargs _ => do
  let (ret, haveCasemap, irc) ← noteAttrs msg (nargs - 1 - 3) 3 irc
  if ret.has CANT_PROCEED then .ok (ret, irc)
  else if haveCasemap ∧ irc.tracking ∧ !irc.trackingEnab then
    match trkInit irc with
    | (false, irc) => .ok (ret, irc)
    | (true, irc) => .ok (ret, { irc with trackingEnab := true })
  else .ok (ret, irc)

end Srsirc.CoreHandlers
