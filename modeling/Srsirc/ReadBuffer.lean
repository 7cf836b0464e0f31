import Srsirc.Tokenize

namespace Srsirc.ReadBuffer

open CharMap Memory Tokenize

/-- What a read on the transport runs into. A chunk has at least one byte. -/
inductive Arrival
  | chunk (c : UInt8) (s : Str)
  | timeout
  | eof
  | failure

/-- What is still to arrive; past its end a read blocks. -/
abbrev Source := List Arrival

/-- A read of at most `sz` bytes: its return value, the bytes and what is left to arrive. -/
def Source.read (sz : Nat) : Source → Option (Int × Str × Source)
  | [] => none
  | .timeout :: src => some (0, [], src)
  | .failure :: src => some (-1, [], src)
  | .eof :: src => some (-2, [], src)
  | .chunk c s :: src =>
    let got := (c :: s).take sz
    match (c :: s).drop sz with
    | [] => some (got.length, got, src)
    | c' :: s' => some (got.length, got, .chunk c' s' :: src)

def workbufSz : Nat := 4095

structure Readctx where
  workbuf : Mem
  wptr : Nat
  eptr : Nat

def Readctx.init : Readctx := ⟨List.replicate (workbufSz + 1) 0, 0, 0⟩

def Readctx.data (r : Readctx) : Str := (r.workbuf.drop r.wptr).take (r.eptr - r.wptr)

/-- The pointers at some moment of a run, with the size of the read requested there. -/
structure Point where
  wptr : Nat
  eptr : Nat
  asked : Option Nat

def Readctx.point (r : Readctx) (asked : Option Nat) : Point := ⟨r.wptr, r.eptr, asked⟩

def isDelim (c : UInt8) : Bool := c == 0x0a || c == 0x0d

/-- How far the first delimiter is from `wptr`. -/
def findDelim (r : Readctx) : Readctx × Option Nat :=
  ({ r with workbuf := r.workbuf.set r.eptr 0 }, r.data.findIdx? isDelim)

def overwrite (mem : Mem) (p : Nat) (s : Str) : Mem := mem.take p ++ s ++ mem.drop (p + s.length)

/-- The `memmove` to the front. -/
def compact (r : Readctx) : Readctx := ⟨overwrite r.workbuf 0 r.data, 0, r.eptr - r.wptr⟩

def fill (r : Readctx) (src : Source) : List Point × Option (Int × Readctx × Source) :=
  let remain := workbufSz - r.eptr
  ([r.point (some remain)],
    match src.read remain with
    | none => none
    | some (n, s, src) =>
      if n ≤ 0 then some (n, r, src)
      else some (1, ⟨overwrite r.workbuf r.eptr s, r.wptr, r.eptr + n.toNat⟩, src))

def readMore (r : Readctx) (src : Source) : List Point × Option (Int × Readctx × Source) :=
  if workbufSz - r.eptr = 0 then
    if r.wptr = 0 then ([], some (-1, r, src)) else fill (compact r) src
  else fill r src

/-- The part of the main loop that needs no further data: skip up to `k` empty lines
and find the start and the length of the first line that is not empty. -/
def takeLine : Nat → Readctx → List Point × Readctx × Option (Nat × Nat)
  | k, r =>
    match findDelim r with
    | (r, none) => ([r.point none], r, none)
    | (r, some linelen) =>
      if linelen = 0 then
        match k with
        | 0 => ([r.point none], r, none)
        | k + 1 =>
          let next := takeLine k { r with wptr := r.wptr + 1 }
          (r.point none :: next.1, next.2)
      else ([r.point none], { r with wptr := r.wptr + 1 + linelen }, some (r.wptr, linelen))

inductive Awaited
  | line (start len : Nat)
  | code (n : Int)

/-- The main loop; `k` bounds the number of reads. -/
def awaitLine : Nat → Readctx → Source → List Point × Option (Awaited × Readctx × Source)
  | 0, _, _ => ([], none)
  | k + 1, r, src =>
    match takeLine (r.eptr - r.wptr) r with
    | (log, r, some (start, len)) => (log, some (.line start len, r, src))
    | (log, r, none) =>
      match readMore r src with
      | (log', none) => (log ++ log', none)
      | (log', some (n, r, src)) =>
        if n ≤ 0 then (log ++ log', some (.code n, r, src))
        else
          let next := awaitLine k r src
          (log ++ log' ++ next.1, next.2)

def skipDelims (r : Readctx) : Readctx :=
  let r := { r with wptr := r.wptr + (r.data.takeWhile isDelim).length }
  if r.wptr = r.eptr then { r with wptr := 0, eptr := 0 } else r

/-- What a read hands to its caller: its return value, the tags and the tokens. -/
structure Reply where
  ret : Int
  mem : Mem
  tags : List Nat
  tok : List (Option Nat)

/-- The end of `ioRead`, on the terminated line at `linestart`. -/
def parseLine (destmax : Nat) (mem : Mem) (linestart : Nat) : Reply :=
  let finish (mem : Mem) (linestart : Nat) (tags : List Nat) : Reply :=
    let r := tokenize mem linestart
    ⟨if r.1 then 1 else -1, r.2.1, tags, r.2.2⟩
  if mem.getD linestart 0 = 0x40 then
    match extractTags mem (linestart + 1) destmax with
    | (mem, none, tags) => ⟨-1, mem, tags, []⟩
    | (mem, some linestart, tags) =>
      if mem.getD linestart 0 = 0 then ⟨-1, mem, tags, []⟩ else finish mem linestart tags
  else finish mem linestart []

def Source.size : Source → Nat
  | [] => 0
  | .chunk _ s :: src => s.length + 2 + Source.size src
  | _ :: src => 1 + Source.size src

/-- `none` where the call never returns. -/
def ioRead (destmax : Nat) (r : Readctx) (src : Source) :
    List Point × Option (Reply × Readctx × Source) :=
  let skipped := skipDelims r
  match awaitLine (src.size + 1) skipped src with
  | (log, none) => (skipped.point none :: log, none)
  | (log, some (.code n, r, src)) =>
    (skipped.point none :: log ++ [r.point none], some (⟨n, r.workbuf, [], []⟩, r, src))
  | (log, some (.line start len, r, src)) =>
    let reply := parseLine destmax (r.workbuf.set (start + len) 0) start
    (skipped.point none :: log ++ [r.point none],
      some (reply, { r with workbuf := reply.mem }, src))

theorem take_chunk {sz : Nat} (hsz : 1 ≤ sz) (c : UInt8) (s : Str) :
    0 < ((c :: s).take sz).length ∧ ((c :: s).take sz).length ≤ sz ∧
      ((c :: s).drop sz = [] ∧ (c :: s).take sz = c :: s ∨
        ∃ c' s', (c :: s).drop sz = c' :: s' ∧ s'.length < s.length ∧
          (c :: s).take sz ++ c' :: s' = c :: s) := by
  have happ := List.take_append_drop sz (c :: s)
  refine ⟨?_, List.length_take_le _ _, ?_⟩
  · rw [List.length_take, List.length_cons]
    omega
  · cases hd : (c :: s).drop sz with
    | nil =>
      rw [hd, List.append_nil] at happ
      exact Or.inl ⟨rfl, happ⟩
    | cons c' s' =>
      have hlen := congrArg List.length hd
      simp only [List.length_drop, List.length_cons] at hlen
      rw [hd] at happ
      exact Or.inr ⟨c', s', rfl, by omega, happ⟩

end Srsirc.ReadBuffer
