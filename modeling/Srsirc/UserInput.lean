import Mathlib.Algebra.Group.Nat.Defs
import Srsirc.ReadBuffer

namespace Srsirc.UserInput

open CharMap Memory
open ReadBuffer (overwrite)

/-- What polling stdin or reading from it runs into. A chunk has at least one byte, and
the stream ends behind the last item. -/
inductive Arrival
  | chunk (c : UInt8) (s : Str)
  | idle
  | pollFailure
  | readFailure

abbrev Stdin := List Arrival

def Stdin.bytes : Stdin → Str
  | [] => []
  | .chunk c s :: src => c :: (s ++ Stdin.bytes src)
  | _ :: src => Stdin.bytes src

def Stdin.size : Stdin → Nat
  | [] => 0
  | .chunk _ s :: src => s.length + 2 + Stdin.size src
  | _ :: src => 1 + Stdin.size src

/-- `lsi_b_stdin_canread`: at the end of the stream a read would not block either. -/
def Stdin.canread : Stdin → Int × Stdin
  | .idle :: src => (0, src)
  | .pollFailure :: src => (-1, src)
  | src => (1, src)

/-- `lsi_b_stdin_read`, which waits while there is nothing. -/
def Stdin.read (sz : Nat) : Stdin → Int × Str × Stdin
  | [] => (0, [], [])
  | .idle :: src => Stdin.read sz src
  | .pollFailure :: src => Stdin.read sz src
  | .readFailure :: src => (-1, [], src)
  | .chunk c s :: src =>
    let got := (c :: s).take sz
    match (c :: s).drop sz with
    | [] => (got.length, got, src)
    | c' :: s' => (got.length, got, .chunk c' s' :: src)

def bufsz : Nat := 4096

structure Input where
  inbuf : Mem
  bufhead : Nat
  buftail : Nat
  eof : Bool

def Input.init : Input := ⟨List.replicate (bufsz + 1) 0, 0, 0, false⟩

def bufCnt (i : Input) : Nat := i.buftail - i.bufhead

def bufRem (i : Input) : Nat := bufsz - bufCnt i - i.bufhead

/-- A store into the buffer; `none` where it misses the buffer. -/
def Input.store (i : Input) (p : Nat) (c : UInt8) : Option Input :=
  if p < i.inbuf.length then some { i with inbuf := i.inbuf.set p c } else none

def findNewline (i : Input) : Option Nat := (cstr i.inbuf i.bufhead).findIdx? (· == 0x0a)

/-- The `memmove` to the front. -/
def compact (i : Input) : Input :=
  let n := bufCnt i
  { i with
    inbuf := overwrite i.inbuf 0 ((i.inbuf.drop i.bufhead).take n)
    bufhead := 0
    buftail := i.buftail - i.bufhead }

/-- The end of `canread`, on a buffer with room in it. -/
def receive (i : Input) (src : Stdin) : Option (Bool × Input × Stdin) :=
  if i.eof then some (false, i, src)
  else
    match src.read (bufRem i) with
    | (n, s, src) =>
      if n < 0 then some (false, i, src)
      else if n = 0 then some (false, { i with eof := true }, src)
      else do
        let i := { i with
          inbuf := overwrite i.inbuf i.buftail s
          buftail := i.buftail + n.toNat }
        let i ← i.store i.buftail 0
        return ((findNewline i).isSome, i, src)

/-- `canread` where no line is there yet. -/
def readMore (i : Input) (src : Stdin) : Option (Bool × Input × Stdin) :=
  match src.canread with
  | (r, src) =>
    if r ≤ 0 then some (false, i, src)
    else if bufRem i = 0 then
      if i.bufhead = 0 then do
        let i ← i.store i.buftail 0x0a
        let i ← i.store (i.buftail + 1) 0
        return (true, i, src)
      else receive (compact i) src
    else receive i src

/-- `none` where the buffer is overrun. -/
def canread (i : Input) (src : Stdin) : Option (Bool × Input × Stdin) :=
  if bufCnt i = 0 then readMore i src
  else do
    let i ← i.store i.buftail 0
    if (findNewline i).isSome then return (true, i, src) else readMore i src

/-- The return value and what `dest` then holds. It is `none` where there is no newline to
go on behind, or where the terminator misses `dest`. -/
def readline (destsz : Nat) (i : Input) (src : Stdin) : Option ((Nat × Str) × Input × Stdin) := do
  match ← canread i src with
  | (false, i, src) => return ((0, []), i, src)
  | (true, i, src) =>
    let i ← i.store i.buftail 0
    let k ← findNewline i
    let origlen := k + 1
    let cplen := if destsz ≤ origlen then (destsz + 2 ^ 64 - 1) % 2 ^ 64 else origlen
    if destsz ≤ cplen then none
    else
      return ((origlen, (cstr i.inbuf i.bufhead).take cplen),
        { i with bufhead := i.bufhead + origlen }, src)

inductive Call
  | canread
  | readline (destsz : Nat)

def Call.Fits : Call → Prop
  | .canread => True
  | .readline destsz => 0 < destsz

def Call.isReadline : Call → Bool
  | .canread => false
  | .readline _ => true

/-- A successful `readline`. -/
structure Taken where
  destsz : Nat
  ret : Nat
  dest : Str

def Call.run (i : Input) (src : Stdin) : Call → Option (List Taken × Input × Stdin)
  | .canread => (UserInput.canread i src).map fun (_, i, src) => ([], i, src)
  | .readline destsz => (UserInput.readline destsz i src).map fun ((ret, dest), i, src) =>
    (if ret = 0 then [] else [⟨destsz, ret, dest⟩], i, src)

def run (i : Input) (src : Stdin) : List Call → Option (List Taken × Input × Stdin)
  | [] => some ([], i, src)
  | call :: calls => do
    let (log, i, src) ← call.run i src
    let (log', i, src) ← run i src calls
    return (log ++ log', i, src)

end Srsirc.UserInput
