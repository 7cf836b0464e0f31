import Srsirc.BoundedStore
import Srsirc.Context

namespace Srsirc.Proxy

open CharMap Memory Message ReadBuffer BoundedStore Context

/-- The socket to a proxy: what the proxy will send, how the writes will turn out, and what
was written. -/
structure Sck where
  src : Source
  writes : List Bool
  sent : List Str

/-- A write of all of `buf`, or a failure; less than all is one as well. -/
def Sck.write (sck : Sck) (buf : Str) : Bool × Sck :=
  match ask sck.writes with
  | (false, writes) => (false, { sck with writes })
  | (true, writes) => (true, { sck with writes, sent := sck.sent ++ [buf] })

theorem write_failed {sck : Sck} (h : (ask sck.writes).1 = false) (buf : Str) :
    sck.write buf = (false, { sck with writes := (ask sck.writes).2 }) := by
  rw [Sck.write, show ask sck.writes = (false, (ask sck.writes).2) from Prod.ext h rfl]

theorem write_done {sck : Sck} (h : (ask sck.writes).1 = true) (buf : Str) :
    sck.write buf =
      (true, { sck with writes := (ask sck.writes).2, sent := sck.sent ++ [buf] }) := by
  rw [Sck.write, show ask sck.writes = (true, (ask sck.writes).2) from Prod.ext h rfl]

structure Stored where
  count : Nat
  index : Nat
  bytes : Str

/-- What reading comes to, with all that is stored meanwhile. There is no outcome while it
waits in vain. -/
abbrev Reads (α : Type) := List Stored × Option (Except Fault α)

def Reads.bind {α β : Type} (x : Reads α) (f : α → Reads β) : Reads β :=
  match x.2 with
  | none => (x.1, none)
  | some (.error e) => (x.1, some (.error e))
  | some (.ok a) => (x.1 ++ (f a).1, (f a).2)

def done {α : Type} (a : α) : Reads α := ([], some (.ok a))

/-- A local array of `n` bytes. What is in it at first is not known. -/
abbrev Arr (n : Nat) := { mem : Mem // mem.length = n }

/-- The loop that reads a reply of `l` bytes. What is read after the first `c` bytes is stored
at `stride * c`: the stride is 1 for `resp + c`, but the size of the array for `&resp + c`.
Each round reads at least one byte, so that `k = l` rounds are enough. -/
def readReply (stride l : Nat) : Nat → Mem → Nat → Source → Reads (Option Mem × Source)
  | 0, resp, c, src => if c < l then ([], none) else done (some resp, src)
  | k + 1, resp, c, src =>
    if c < l then
      match src.read (l - c) with
      | none => ([], none)
      | some (n, s, src) =>
        if n ≤ 0 then done (none, src)
        else
          Reads.bind ([⟨c, stride * c, s⟩], some (store resp (stride * c) s)) fun resp =>
            readReply stride l k resp (c + s.length) src
    else done (some resp, src)

/-- `lsi_b_htons`, as bytes. -/
def htons (port : UInt16) : Str := [(port >>> 8).toUInt8, port.toUInt8]

/-- `lsi_px_logon_socks4`. The address comes from `lsi_b_inet_addr`, the name from `rand`. -/
def pxLogonSocks4 (inetAddr : Str → Str) (rand : Nat → Nat) (resp : Arr 8) (host : Str)
    (port : UInt16)
    (sck : Sck) : Reads (Bool × Sck) :=
  let name := (List.range 5).map fun i => UInt8.ofNat (rand i % 26 + 0x61)
  match sck.write ([4, 1] ++ htons port ++ inetAddr host ++ name ++ [0]) with
  | (false, sck) => done (false, sck)
  | (true, sck) =>
    (readReply 8 8 8 resp.val 0 sck.src).bind fun
      | (none, src) => done (false, { sck with src })
      | (some resp, src) => done (resp.getD 0 0 == 0 && resp.getD 1 0 == 0x5a, { sck with src })

inductive Hosttype
  | ipv4
  | ipv6
  | dns
  deriving DecidableEq

def isDigit (c : UInt8) : Bool := 0x30 ≤ c && c ≤ 0x39

/-- `lsi_com_guess_hosttype`. -/
def guessHosttype (host : Str) : Hosttype :=
  if 0x5b ∈ host then .ipv6
  else if host.all fun c => c == 0x2e || isDigit c then
    if host.count 0x2e = 3 then .ipv4 else .dns
  else .dns

/-- The second message of `lsi_px_logon_socks5`, which it builds in an array; `none` if there is
no address for the host. -/
def connectRequest (inet4 inet6 : Str → Option Str) (conbuf : Arr 128) (host : Str)
    (port : UInt16) :
    Except Fault (Option Str) := do
  let conbuf ← store conbuf.val 0 [5, 1, 0]
  let addressed ← (match guessHosttype host with
    | .ipv4 => do
      let conbuf ← store conbuf 3 [1]
      match inet4 host with
      | none => .ok none
      | some ip => (store conbuf 4 ip).map fun conbuf => some (conbuf, 4 + 16)
    | .ipv6 => do
      let conbuf ← store conbuf 3 [4]
      match inet6 host with
      | none => .ok none
      | some ip => (store conbuf 4 ip).map fun conbuf => some (conbuf, 4 + 16)
    | .dns => do
      let conbuf ← store conbuf 3 [3]
      let conbuf ← store conbuf 4 [UInt8.ofNat host.length]
      (store conbuf 5 host).map fun conbuf => some (conbuf, 5 + host.length))
  match addressed with
  | none => .ok none
  | some (conbuf, c) =>
    let conbuf ← store conbuf c (htons port)
    .ok (some (conbuf.take (c + 2)))

def readAddress (dns : Bool) : Nat → Mem → Nat → Nat → Source → Reads (Option Mem × Source)
  | 0, resp, c, l, src => if c < l then ([], none) else done (some resp, src)
  | k + 1, resp, c, l, src =>
    if c < l then
      match src.read (if c = 0 then 1 else l - c) with
      | none => ([], none)
      | some (n, s, src) =>
        if n ≤ 0 then done (none, src)
        else
          Reads.bind ([⟨c, c, s⟩], some (store resp c s)) fun resp =>
            let l := if c = 0 ∧ dns then l + (resp.getD c 0).toNat else l
            readAddress dns k resp (c + s.length) l src
    else done (some resp, src)

def addressLength : UInt8 → Option Nat
  | 1 => some 4
  | 4 => some 16
  | 3 => some 1
  | _ => none

/-- How `lsi_px_logon_socks5` reads the reply to the second message. -/
def readConnectReply (resp : Mem) (src : Source) : Reads (Bool × Source) :=
  (readReply 1 4 4 resp 0 src).bind fun
    | (none, src) => done (false, src)
    | (some resp, src) =>
      if resp.getD 0 0 ≠ 5 ∨ resp.getD 1 0 ≠ 0 then done (false, src)
      else
        match addressLength (resp.getD 3 0) with
        | none => done (false, src)
        | some l =>
          (readAddress (resp.getD 3 0 == 3) (l + 2 + 255) resp 0 (l + 2) src).bind fun r =>
            done (r.1.isSome, r.2)

/-- How `lsi_px_logon_socks5` goes on once the proxy lets us in. -/
def requestConnect (inet4 inet6 : Str → Option Str) (conbuf : Arr 128) (host : Str) (port : UInt16)
    (resp : Mem) (sck : Sck) : Reads (Bool × Sck) :=
  Reads.bind ([], some (connectRequest inet4 inet6 conbuf host port)) fun
    | none => done (false, sck)
    | some buf =>
      match sck.write buf with
      | (false, sck) => done (false, sck)
      | (true, sck) => (readConnectReply resp sck.src).bind fun r =>
        done (r.1, { sck with src := r.2 })

/-- `lsi_px_logon_socks5`. -/
def pxLogonSocks5 (inet4 inet6 : Str → Option Str) (resp conbuf : Arr 128) (host : Str)
    (port : UInt16)
    (sck : Sck) : Reads (Bool × Sck) :=
  if port = 0 then done (false, sck)
  else
    match sck.write [5, 1, 0] with
    | (false, sck) => done (false, sck)
    | (true, sck) =>
      (readReply 128 2 2 resp.val 0 sck.src).bind fun
        | (none, src) => done (false, { sck with src })
        | (some resp, src) =>
          if resp.getD 0 0 ≠ 5 ∨ resp.getD 1 0 ≠ 0 then done (false, { sck with src })
          else requestConnect inet4 inet6 conbuf host port resp { sck with src }

end Srsirc.Proxy
