import Srsirc.ChannelModes
import Srsirc.Track

namespace Srsirc.TrackInfo

open CharMap Memory Dictionary HeapCells Message ServerInfo UserBase ChannelModes Track
open BucketList (Alloc)

/-- A user property is brought up to date with `lsi_com_update_strprop`, which leaves it
alone when there is no memory. -/
def updateProp (info : Info) (prop : Option Str) (val : Str) (b : Base) : Option Str × Base :=
  if prop.all fun old => istrcmp old val info.casemap ≠ 0 then
    match b.strdup val with
    | (none, b) => (prop, b)
    | (some val, b) => (some val, b)
  else (prop, b)

def h_352 (info : Info) (msg : Msg) (nargs : Nat) (b : Base) : Step :=
  if !msg.present 0 ∨ nargs < 10 then .ok (PROTO_ERR, b)
  else do
    let nick ← msg.fld 7
    match getUser b nick with
    | none => .ok (0, b)
    | some p =>
      let u ← b.user p
      let (uname, b) := updateProp info u.uname (← msg.fld 4) b
      let (host, b) := updateProp info u.host (← msg.fld 5) b
      let trail ← msg.fld 9
      match trail.findIdx? (· == 0x20) with
      | none => .ok (PROTO_ERR, b.setUser p { u with uname, host })
      | some i =>
        let (fname, b) := updateProp info u.fname (trail.drop (i + 1)) b
        .ok (0, b.setUser p { u with uname, host, fname })

def h_311 (info : Info) (msg : Msg) (nargs : Nat) (b : Base) : Step :=
  if !msg.present 0 ∨ nargs < 8 then .ok (PROTO_ERR, b)
  else do
    let nick ← msg.fld 3
    match getUser b nick with
    | none => .ok (0, b)
    | some p =>
      let u ← b.user p
      let (uname, b) := updateProp info u.uname (← msg.fld 4) b
      let (host, b) := updateProp info u.host (← msg.fld 5) b
      let (fname, b) := updateProp info u.fname (← msg.fld 7) b
      .ok (0, b.setUser p { u with uname, host, fname })

def h_332 (msg : Msg) (nargs : Nat) (b : Base) : Step :=
  if !msg.present 0 ∨ nargs < 5 then .ok (PROTO_ERR, b)
  else do
    let name ← msg.fld 3
    match getChan b name with
    | none => .ok (0, b)
    | some c =>
      let ch ← b.chan c
      let (topic, b) := b.strdup (← msg.fld 4)
      .ok (if topic.isSome then 0 else ALLOC_ERR, b.setChan c { ch with topic })

def isDigit (c : UInt8) : Bool := 0x30 ≤ c ∧ c ≤ 0x39

def isSpace (c : UInt8) : Bool := c = 0x20 ∨ (0x09 ≤ c ∧ c ≤ 0x0d)

/-- `strtoull` to base 10, which stops at the greatest value. -/
def strtoull (s : Str) : Nat :=
  let s := s.dropWhile isSpace
  let neg := s.head? = some 0x2d
  let digits := (if neg ∨ s.head? = some 0x2b then s.tail else s).takeWhile isDigit
  let n := digits.foldl (fun n c => 10 * n + (c.toNat - 0x30)) 0
  if 2 ^ 64 ≤ n then 2 ^ 64 - 1 else if neg then (2 ^ 64 - n) % 2 ^ 64 else n

def h_333 (msg : Msg) (nargs : Nat) (b : Base) : Step :=
  if !msg.present 0 ∨ nargs < 6 then .ok (PROTO_ERR, b)
  else do
    let name ← msg.fld 3
    match getChan b name with
    | none => .ok (0, b)
    | some c =>
      let ch ← b.chan c
      match b.strdup (← msg.fld 4) with
      | (none, b) => .ok (ALLOC_ERR, b.setChan c { ch with topicnick := none })
      | (some topicnick, b) =>
        let tstopic := strtoull (← msg.fld 5)
        .ok (0, b.setChan c { ch with topicnick := some topicnick, tstopic })

def h_TOPIC (msg : Msg) (nargs : Nat) (b : Base) : Step :=
  if !msg.present 0 ∨ nargs < 4 then .ok (PROTO_ERR, b)
  else do
    let ident ← msg.fld 0
    let b ← touchUser b ident
    let name ← msg.fld 2
    match getChan b name with
    | none => .ok (0, b)
    | some c =>
      let ch ← b.chan c
      match b.strdup (← msg.fld 3) with
      | (none, b) => .ok (ALLOC_ERR, b.setChan c { ch with topic := none, topicnick := none })
      | (some topic, b) =>
        let (topicnick, b) := b.strdup (ident2nick MAX_NICK_LEN ident)
        .ok (if topicnick.isSome then 0 else ALLOC_ERR,
          b.setChan c { ch with topic := some topic, topicnick })

def applyMode (info : Info) (c : Ptr) (m : ModeChange) (b : Base) : Step :=
  match strchr info.m005modepfx.1 m.mode with
  | some i => do
    let nick ← m.argument
    let b ← updateModepfx info b c nick (info.m005modepfx.2.getD i 0) m.enab
    .ok (0, b)
  | none =>
    if m.enab then do
      let (ok, b) ← addChanmode b c m.modestr
      .ok (if ok then 0 else ALLOC_ERR, b)
    else do
      let (_, b) ← dropChanmode info b c m.modestr
      .ok (0, b)

def applyModes (info : Info) (c : Ptr) : List ModeChange → Base → Step
  | [], b => .ok (0, b)
  | m :: ms, b => do
    let (f, b) ← applyMode info c m b
    let (g, b) ← applyModes info c ms b
    .ok (f ||| g, b)

def h_MODE_chanmode (info : Info) (msg : Msg) (nargs : Nat) (b : Base) : Step :=
  if !msg.present 0 ∨ nargs < 4 then .ok (PROTO_ERR, b)
  else do
    let ident ← msg.fld 0
    let b ← if 0x2e ∈ ident2nick MAX_NICK_LEN ident then .ok b else touchUser b ident
    let name ← msg.fld 2
    match getChan b name with
    | none => .ok (0, b)
    | some c =>
      let (ms, al) ← parseMODE info msg false b.al
      match ms with
      | none => .ok (ALLOC_ERR, { b with al })
      | some ms => applyModes info c ms { b with al }

/-- What `h_MODE_chanmode` does once the sender is known. -/
def chanmodes (info : Info) (msg : Msg) (b : Base) : Step := do
  let name ← msg.fld 2
  match getChan b name with
  | none => .ok (0, b)
  | some c =>
    let (ms, al) ← parseMODE info msg false b.al
    match ms with
    | none => .ok (ALLOC_ERR, { b with al })
    | some ms => applyModes info c ms { b with al }

def h_MODE (info : Info) (msg : Msg) (nargs : Nat) (b : Base) : Step :=
  if !msg.present 0 ∨ nargs < 4 then .ok (PROTO_ERR, b)
  else do
    let name ← msg.fld 2
    if (strchr info.m005chantypes (name.headD 0)).isSome then h_MODE_chanmode info msg nargs b
    else .ok (0, b)

/-- `h_PRIVMSG` and `h_NOTICE`, which do the same. -/
def heard (msg : Msg) (nargs : Nat) (logon : Bool) (b : Base) : Step :=
  if !msg.present 0 ∨ nargs < 4 then .ok (PROTO_ERR, b)
  else do
    let ident ← msg.fld 0
    if !logon ∧ 0x2e ∉ ident2nick MAX_NICK_LEN ident then do
      let b ← touchUser b ident
      .ok (0, b)
    else .ok (0, b)

def h_PRIVMSG (msg : Msg) (nargs : Nat) (logon : Bool) (b : Base) : Step := heard msg nargs logon b

def h_NOTICE (msg : Msg) (nargs : Nat) (logon : Bool) (b : Base) : Step := heard msg nargs logon b

/-- The loop of `h_324` over the modes. -/
def listModes (info : Info) (c : Ptr) : List ModeChange → Base → Step
  | [], b => .ok (0, b)
  | m :: ms, b => do
    let (ok, b) ← if m.enab then addChanmode b c m.modestr
      else (dropChanmode info b c m.modestr).map fun r => (true, r.2)
    let (g, b) ← listModes info c ms b
    .ok ((if ok then 0 else ALLOC_ERR) ||| g, b)

def h_324 (info : Info) (msg : Msg) (nargs : Nat) (b : Base) : Step :=
  if !msg.present 0 ∨ nargs < 5 then .ok (PROTO_ERR, b)
  else do
    let name ← msg.fld 3
    match getChan b name with
    | none => .ok (0, b)
    | some c =>
      let (ms, al) ← parseMODE info msg true b.al
      match ms with
      | none => .ok (ALLOC_ERR, { b with al })
      | some ms =>
        let b ← clearChanmodes { b with al } c
        listModes info c ms b

end Srsirc.TrackInfo
