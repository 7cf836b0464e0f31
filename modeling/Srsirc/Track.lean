import Srsirc.ServerInfo
import Srsirc.UserBase

namespace Srsirc.Track

open CharMap Memory Dictionary HeapCells Message ServerInfo UserBase

abbrev Step := Except Fault (Flags × Base)

def isMe (info : Info) (nick : Str) : Bool := istrcmp nick info.mynick info.casemap = 0

def h_JOIN (info : Info) (msg : Msg) (nargs : Nat) (b : Base) : Step :=
  if !msg.present 0 ∨ nargs < 3 then .ok (PROTO_ERR, b)
  else do
    let ident ← msg.fld 0
    let name ← msg.fld 2
    let me := isMe info (ident2nick MAX_NICK_LEN ident)
    match getChan b name with
    | none =>
      if me then
        match addChan b info.casemap name with
        | (none, b) => .ok (ALLOC_ERR, b)
        | (some _, b) => .ok (0, b)
      else .ok (0, b)
    | some c =>
      if me then .ok (0, b)
      else
        match getUser b ident with
        | some p => do
          let (ok, b) ← addMemb b c p []
          .ok (if ok then 0 else ALLOC_ERR, b)
        | none => do
          let (added, b) ← addUser b ident
          match added with
          | none => .ok (ALLOC_ERR, b)
          | some p =>
            let (ok, b) ← addMemb b c p []
            if ok then .ok (0, b)
            else
              let (_, b) ← dropUser b p
              .ok (ALLOC_ERR, b)

/-- One name of a 353 line, where `mpfx` is its mode prefix. -/
def nameOf353 (b : Base) (c : Ptr) (nick mpfx : Str) : Except Fault (Bool × Base) :=
  match getUser b nick with
  | some p => addMemb b c p mpfx
  | none => do
    let (added, b) ← addUser b nick
    match added with
    | none => .ok (false, b)
    | some p =>
      let (ok, b) ← addMemb b c p mpfx
      if ok then .ok (true, b)
      else
        let (_, b) ← dropUser b p
        .ok (false, b)

/-- The loop over the names at `p`. Every round moves on, so `k` rounds with `k`
beyond the length of the memory reach a terminator. A terminator where a mode
prefix is looked for is taken for one, and then the loop runs past it. -/
def names353 (info : Info) (c : Ptr) (mem : Mem) : Nat → Nat → Base → Step
  | 0, _, b => .ok (0, b)
  | k + 1, p, b =>
    let ch := mem.getD p 0
    let pfx := (strchr info.m005modepfx.2 ch).isSome
    let mpfx : Str := if pfx ∧ ch ≠ 0 then [ch] else []
    let p := if pfx then p + 1 else p
    let len := (cstr mem p).idxOf 0x20
    let nick := (cstr mem p).take (min len (MAX_NICK_LEN - 1))
    do
      let (ok, b) ← nameOf353 b c nick mpfx
      if !ok then .ok (ALLOC_ERR, b)
      else if mem.getD (p + len) 0 = 0 then .ok (0, b)
      else names353 info c mem k (p + len + 1) b

def h_353 (info : Info) (msg : Msg) (nargs : Nat) (b : Base) : Step :=
  if !msg.present 0 ∨ nargs < 6 then .ok (PROTO_ERR, b)
  else do
    let name ← msg.fld 4
    match getChan b name with
    | none => .ok (0, b)
    | some c =>
      let b ← if b.endofnames then (clearMemb b c).map fun b => { b with endofnames := false }
        else .ok b
      let p ← msg.deref 5
      names353 info c msg.mem (msg.mem.length + 2) p b

def h_366 (msg : Msg) (nargs : Nat) (b : Base) : Step :=
  if !msg.present 0 ∨ nargs < 4 then .ok (PROTO_ERR, b)
  else do
    let name ← msg.fld 3
    let b := { b with endofnames := true }
    match getChan b name with
    | none => .ok (0, b)
    | some c =>
      let ch ← b.chan c
      .ok (0, b.setChan c { ch with desync := false })

def h_PART (info : Info) (msg : Msg) (nargs : Nat) (b : Base) : Step :=
  if !msg.present 0 ∨ nargs < 3 then .ok (PROTO_ERR, b)
  else do
    let ident ← msg.fld 0
    let b ← touchUser b ident
    let name ← msg.fld 2
    match getChan b name with
    | none => .ok (0, b)
    | some c =>
      if isMe info (ident2nick MAX_NICK_LEN ident) then
        let (_, b) ← dropChan b c
        .ok (0, b)
      else
        match getUser b ident with
        | none => .ok (0, b)
        | some p =>
          let (_, b) ← dropMemb b c p true
          .ok (0, b)

def h_QUIT (msg : Msg) (b : Base) : Step :=
  if !msg.present 0 then .ok (PROTO_ERR, b)
  else do
    let ident ← msg.fld 0
    let b ← touchUser b ident
    match getUser b ident with
    | none => .ok (0, b)
    | some p =>
      let (_, b) ← dropUser b p
      .ok (0, b)

def h_KICK (info : Info) (msg : Msg) (nargs : Nat) (b : Base) : Step :=
  if !msg.present 0 ∨ nargs < 4 then .ok (PROTO_ERR, b)
  else do
    let ident ← msg.fld 0
    let b ← touchUser b ident
    let name ← msg.fld 2
    match getChan b name with
    | none => .ok (0, b)
    | some c =>
      let nick ← msg.fld 3
      if isMe info nick then
        let (_, b) ← dropChan b c
        .ok (0, b)
      else
        match getUser b nick with
        | none => .ok (0, b)
        | some p =>
          let (_, b) ← dropMemb b c p true
          .ok (0, b)

def h_NICK (info : Info) (msg : Msg) (nargs : Nat) (b : Base) : Step :=
  if !msg.present 0 ∨ nargs < 3 then .ok (PROTO_ERR, b)
  else do
    let ident ← msg.fld 0
    let b ← touchUser b ident
    let newnick ← msg.fld 2
    let (ok, aerr, b) ← renameUser b info.casemap ident newnick
    .ok (if !ok ∧ aerr then ALLOC_ERR else 0, b)

end Srsirc.Track
