import Srsirc.CharMap
import Srsirc.Memory

namespace Srsirc.Tokenize

open CharMap Memory

/-- The delimiters at `buf` become zeros; the result tells how many there were. -/
def zeroRun (delim : UInt8) : Mem → Mem × Nat
  | [] => ([], 0)
  | c :: s =>
    if c = delim then (0 :: (zeroRun delim s).1, (zeroRun delim s).2 + 1) else (c :: s, 0)

/-- `nextTok` on the memory from `buf` on, with the way `buf` moves. -/
def nextTokFrom (delim : UInt8) : Mem → Mem × Option Nat
  | [] => ([], none)
  | c :: s =>
    if c = 0 then (c :: s, none)
    else if c ≠ delim then
      (c :: (nextTokFrom delim s).1, (nextTokFrom delim s).2.map (· + 1))
    else
      let r := zeroRun delim (c :: s)
      if r.1.getD r.2 0 = 0 then (r.1, none) else (r.1, some r.2)

def nextTok (mem : Mem) (buf : Nat) (delim : UInt8) : Mem × Option Nat :=
  let r := nextTokFrom delim (mem.drop buf)
  (mem.take buf ++ r.1, r.2.map (buf + ·))

/-- The size of a `tokarr`. -/
def tokarrSize : Nat := 18

/-- The entries from `argc` on, where `k` of them are left. -/
def tokenizeArgs : Nat → Mem → Nat → Mem × List Nat
  | 0, mem, _ => (mem, [])
  | k + 1, mem, buf =>
    match nextTok mem buf 0x20 with
    | (mem, none) => (mem, [])
    | (mem, some buf) =>
      if mem.getD buf 0 = 0x3a then (mem, [buf + 1])
      else ((tokenizeArgs k mem buf).1, buf :: (tokenizeArgs k mem buf).2)

def tokarr {α : Type} (tok : List (Option α)) : List (Option α) :=
  tok ++ List.replicate (tokarrSize - tok.length) none

def tokenizeCmd (mem : Mem) (buf : Nat) (pfx : Option Nat) : Bool × Mem × List (Option Nat) :=
  let r := tokenizeArgs (tokarrSize - 2) mem buf
  (true, r.1, tokarr (pfx :: some buf :: r.2.map some))

def tokenize (mem : Mem) (buf : Nat) : Bool × Mem × List (Option Nat) :=
  let c := mem.getD buf 0
  if c = 0x3a then
    match nextTok mem buf 0x20 with
    | (mem, none) => (false, mem, tokarr [some (buf + 1)])
    | (mem, some cmd) => tokenizeCmd mem cmd (some (buf + 1))
  else if c = 0x20 then (false, mem, tokarr [])
  else if c = 0 then (false, mem, tokarr [])
  else tokenizeCmd mem buf none

/-- The loop over the tags, `k` at most, where `room` more of them can be stored. -/
def tagLoop : Nat → Nat → Mem → Nat → Mem × List Nat
  | _, 0, mem, _ => (mem, [])
  | room, k + 1, mem, line =>
    let stored := if room = 0 then [] else [line]
    match nextTok mem line 0x3b with
    | (mem, none) => (mem, stored)
    | (mem, some line) =>
      let r := tagLoop (room - 1) k mem line
      (r.1, stored ++ r.2)

/-- The pointer behind the tags, and where each tag starts. -/
def extractTags (mem : Mem) (line destmax : Nat) : Mem × Option Nat × List Nat :=
  let len := (cstr mem line).idxOf 0x20
  if len = (cstr mem line).length then (mem, none, [])
  else
    let r := tagLoop destmax (len + 1) (mem.set (line + len) 0) line
    (r.1, some (line + len + 1), r.2)

end Srsirc.Tokenize
