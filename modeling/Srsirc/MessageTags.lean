import Srsirc.Connect

namespace Srsirc.MessageTags

open CharMap Memory Message ReadBuffer Tokenize Context Conn Dispatch Connect

def MAX_V3TAGS : Nat := 16

def MAX_V3TAGLEN : Nat := 512

structure V3tag where
  key : Nat
  value : Option Nat

/-- What the context holds of message tags: their number, pointers into the receive buffer,
what was decoded, and pointers into that, which nothing initializes. -/
structure Tags where
  v3ntags : Nat
  v3tagsRaw : List (Option Nat)
  v3tagsDec : List Mem
  v3tags : List (Option V3tag)

/-- As `irc_init` leaves it. -/
def Tags.init : Tags where
  v3ntags := 0
  v3tagsRaw := List.replicate MAX_V3TAGS none
  v3tagsDec := List.replicate MAX_V3TAGS (List.replicate MAX_V3TAGLEN 0)
  v3tags := List.replicate MAX_V3TAGS none

def forget (dec : List Mem) : List Mem := dec.map (·.set 0 0)

/-- The part of `reset_state` that concerns tags. -/
def Tags.reset (t : Tags) : Tags :=
  { t with v3ntags := 0, v3tagsRaw := List.replicate MAX_V3TAGS none, v3tagsDec := forget t.v3tagsDec }

def unescChar (escnext : Bool) (c : UInt8) : UInt8 :=
  if escnext then
    if c = 0x73 then 0x20 else if c = 0x72 then 0x0d else if c = 0x6e then 0x0a
    else if c = 0x3a then 0x3b else c
  else c

/-- The loop in `decode_v3tag`, which has written `dest`. -/
def decodeLoop (destsz : Nat) : Str → Bool → Str → Str
  | [], _, dest => if destsz ≤ dest.length then dest else dest ++ [0]
  | c :: v3tag, escnext, dest =>
    if destsz ≤ dest.length then dest
    else if c =
      0x5c then decodeLoop destsz v3tag (!escnext) (if escnext then dest ++ [0x5c] else dest)
    else decodeLoop destsz v3tag false (dest ++ [unescChar escnext c])

/-- `decode_v3tag`: what it puts at the beginning of the destination. -/
def decodeV3tag (destsz : Nat) (v3tag : Str) : Str :=
  let dest := decodeLoop destsz v3tag false []
  if destsz ≤ dest.length then dest.set (destsz - 1) 0 else dest

/-- The decoded tag is split at its first `=`. -/
def splitTag (dec : Mem) : Mem × V3tag :=
  let p := (cstr dec 0).idxOf 0x3d
  if p = (cstr dec 0).length then (dec, ⟨0, none⟩) else (dec.set p 0, ⟨0, some (p + 1)⟩)

def mkv3tag (workbuf : Mem) (t : Tags) (ind : Nat) : Except Fault Tags :=
  match t.v3tagsRaw.getD ind none with
  | none => .error (.nullField ind)
  | some raw =>
    let r :=
      splitTag (overwrite (t.v3tagsDec.getD ind []) 0 (decodeV3tag MAX_V3TAGLEN (cstr workbuf raw)))
    .ok { t with v3tagsDec := t.v3tagsDec.set ind r.1, v3tags := t.v3tags.set ind (some r.2) }

/-- A tag is decoded if it does not look as if it was. -/
def decoded (workbuf : Mem) (t : Tags) (ind : Nat) : Except Fault Tags :=
  if (t.v3tagsDec.getD ind []).getD 0 0 = 0 then mkv3tag workbuf t ind else .ok t

def tagAt (t : Tags) (ind : Nat) : Except Fault (Str × Option Str) :=
  match t.v3tags.getD ind none with
  | none => .error .badPtr
  | some tag =>
    let dec := t.v3tagsDec.getD ind []
    .ok (cstr dec tag.key, tag.value.map (cstr dec))

/-- `irc_v3tags_cnt`. -/
def ircV3tagsCnt (t : Tags) : Nat := t.v3ntags

/-- `irc_v3tag`; `none` where it returns false. -/
def ircV3tag (workbuf : Mem) (t : Tags) (ind : Nat) :
    Except Fault (Option (Str × Option Str) × Tags) :=
  if t.v3ntags ≤ ind ∨ t.v3tagsRaw.getD ind none = none then .ok (none, t)
  else do
    let t ← decoded workbuf t ind
    let tag ← tagAt t ind
    .ok (some tag, t)

/-- `tolower`, in the C locale. -/
def tolower (c : UInt8) : UInt8 := if 0x41 ≤ c ∧ c ≤ 0x5a then c + 0x20 else c

/-- Whether `lsi_b_strcasecmp` finds no difference. -/
def caseEq (a b : Str) : Bool := a.map tolower = b.map tolower

/-- The loop in `irc_v3tag_bykey`, where `k` tags are left. -/
def bykeyFrom (workbuf : Mem) (key : Str) :
    Nat → Nat → Tags → Except Fault (Option (Option Str) × Tags)
  | 0, _, t => .ok (none, t)
  | k + 1, i, t => do
    let t ← decoded workbuf t i
    let tag ← tagAt t i
    if caseEq key tag.1 then .ok (some tag.2, t) else bykeyFrom workbuf key k (i + 1) t

/-- `irc_v3tag_bykey`; `none` where it returns false. -/
def ircV3tagBykey (workbuf : Mem) (t : Tags) (key : Str) :
    Except Fault (Option (Option Str) × Tags) :=
  bykeyFrom workbuf key t.v3ntags 0 t

/-- What `lsi_io_read` leaves in `*ntags` when it has found a line. -/
def lineNtags (destmax : Nat) (mem : Mem) (linestart : Nat) : Nat :=
  if mem.getD linestart 0 = 0x40 then
    match extractTags mem (linestart + 1) destmax with
    | (_, none, _) => destmax
    | (_, some _, tags) => tags.length
  else 0

/-- What `lsi_io_read` leaves in `*ntags`. Without a line, it does not touch it. -/
def ioNtags (destmax : Nat) (r : Readctx) (src : Source) : Nat :=
  match (awaitLine (src.size + 1) (skipDelims r) src).2 with
  | some (.line start len, r, _) => lineNtags destmax (r.workbuf.set (start + len) 0) start
  | _ => destmax

/-- The same for `lsi_conn_read`, with the pointers it has stored. -/
def connTags (con : Iconn) (ntags : Nat) : Nat × List Nat :=
  if !con.online then (ntags, [])
  else (ioNtags ntags con.rctx (source con),
    ((ioRead ntags con.rctx (source con)).2.map fun r => r.1.tags).getD [])

structure Tctx where
  irc : Irc
  tags : Tags

def Tags.read (t : Tags) (con : Iconn) : Tags :=
  let r := connTags con MAX_V3TAGS
  { t with
    v3ntags := r.1
    v3tagsRaw := r.2.map some ++ t.v3tagsRaw.drop r.2.length
    v3tagsDec := forget t.v3tagsDec }

/-- `irc_read`; `none` where it blocks for good. -/
def ircRead (users : UserHnds) (x : Tctx) : Option (Except Fault (Int × Tctx)) :=
  let tags := x.tags.read x.irc.con
  match connRead x.irc.con MAX_V3TAGS with
  | none => none
  | some (.timeout, con) => some (.ok (0, ⟨{ x.irc with con }, tags⟩))
  | some (.failed, con) => some (.ok (-1, ⟨ircReset { x.irc with con }, tags⟩))
  | some (.message msg _, con) =>
    match msgHandle users { x.irc with con } msg false with
    | .error f => some (.error f)
    | .ok (flags, irc) =>
      if flags.has CANT_PROCEED then some (.ok (-1, ⟨ircReset irc, tags⟩))
        else some (.ok (1, ⟨irc, tags⟩))

end Srsirc.MessageTags
