import Srsirc.Dictionary
import Srsirc.HeapCells
import Srsirc.Message

namespace Srsirc.UserBase

open CharMap Dictionary HeapCells Message
open BucketList (Alloc)

structure User where
  nick : Str
  uname : Option Str
  host : Option Str
  fname : Option Str
  nchans : Nat
  tag : Option Ptr
  freetag : Bool

structure Memb where
  u : Ptr
  modepfx : Str

structure Chan where
  name : Str
  topic : Option Str
  topicnick : Option Str
  tstopic : Nat
  memb : Dict 256 Memb
  desync : Bool
  modes : List (Option Str)
  tag : Option Ptr
  freetag : Bool

/-- The user and channel base. The records live on two heaps and are found by
their pointers. `freed` has the tags that were passed to `free`. -/
structure Base where
  chans : Dict 256 Ptr
  users : Dict 4096 Ptr
  chanHeap : Heap Chan
  userHeap : Heap User
  endofnames : Bool
  al : Alloc
  freed : List (Option Ptr)

def MAX_NICK_LEN : Nat := 64
def MAX_UNAME_LEN : Nat := 64
def MAX_HOST_LEN : Nat := 128
def MAX_CHAN_LEN : Nat := 256
def MAX_MODEPFX : Nat := 8

def Base.init (cm : CMap) : Base :=
  ⟨.init 256 Ptr cm, .init 4096 Ptr cm, .empty, .empty, true, [], []⟩

def Base.malloc (b : Base) : Bool × Base :=
  ((BucketList.malloc b.al).1, { b with al := (BucketList.malloc b.al).2 })

def Base.strdup (b : Base) (s : Str) : Option Str × Base :=
  (if b.malloc.1 then some s else none, b.malloc.2)

theorem malloc_eq {b : Base} (h : b.al = []) : b.malloc = (true, b) := by
  cases b
  simp only at h
  subst h
  rfl

theorem strdup_eq {b : Base} (h : b.al = []) (s : Str) : b.strdup s = (some s, b) := by
  rw [Base.strdup, malloc_eq h]
  rfl

def Base.user (b : Base) (p : Ptr) : Except Fault User :=
  match b.userHeap.get p with
  | none => .error .freedUser
  | some u => .ok u

def Base.chan (b : Base) (c : Ptr) : Except Fault Chan :=
  match b.chanHeap.get c with
  | none => .error .freedChan
  | some ch => .ok ch

def Base.setUser (b : Base) (p : Ptr) (u : User) : Base := { b with userHeap := b.userHeap.set p u }

def Base.setChan (b : Base) (c : Ptr) (ch : Chan) : Base :=
  { b with chanHeap := b.chanHeap.set c ch }

/-- What has been freed after the tag of a record, when it is released. -/
def freeTag (tag : Option Ptr) (freetag : Bool) (freed : List (Option Ptr)) : List (Option Ptr) :=
  if freetag then freed ++ [tag] else freed

/-- How a user is released wherever one is dropped. `lsi_ucb_clear` has a copy of this
without the tag. -/
def Base.freeUser (b : Base) (p : Ptr) : Except Fault Base :=
  match b.userHeap.get p with
  | none => .error .doubleFree
  | some u => .ok { b with userHeap := b.userHeap.free p, freed := freeTag u.tag u.freetag b.freed }

/-- How a channel is released when it is dropped. `lsi_ucb_clear` has a copy of this
without the tag. -/
def Base.freeChan (b : Base) (c : Ptr) : Except Fault Base :=
  match b.chanHeap.get c with
  | none => .error .doubleFree
  | some ch =>
    .ok { b with chanHeap := b.chanHeap.free c, freed := freeTag ch.tag ch.freetag b.freed }

/-- `nchans--` on a `size_t`. Its counterpart needs no bound: with each increment a
member record is allocated that is not released before the decrement. -/
def decr (n : Nat) : Nat := if n = 0 then 2 ^ 64 - 1 else n - 1

/-- One membership of a user ends; with `purge`, the last one takes the user along. -/
def unref (b : Base) (p : Ptr) (purge : Bool) : Except Fault Base := do
  let u ← b.user p
  let b := b.setUser p { u with nchans := decr u.nchans }
  if decr u.nchans = 0 ∧ purge then
    Base.freeUser { b with users := (b.users.del u.nick).2 } p
  else .ok b

def unrefAll : List Memb → Base → Except Fault Base
  | [], b => .ok b
  | m :: ms, b => do
    let b ← unref b m.u true
    unrefAll ms b

/-- Allocations of a new channel before it is put into the channel map: the record,
the two of its member map, and the mode array. -/
def allocChan (b : Base) : Bool × Base :=
  let (ok₁, b) := b.malloc
  if !ok₁ then (false, b) else
  let (ok₂, b) := b.malloc
  if !ok₂ then (false, b) else
  let (ok₃, b) := b.malloc
  if !ok₃ then (false, b) else b.malloc

def addChan (b : Base) (cm : CMap) (name : Str) : Option Ptr × Base :=
  match allocChan b with
  | (false, b) => (none, b)
  | (true, b) =>
    let c := b.chanHeap.next
    match b.chans.put name c b.al with
    | (false, chans, al) => (none, { b with chans, al })
    | (true, chans, al) =>
      let ch : Chan := ⟨strNcpy name MAX_CHAN_LEN, none, none, 0, .init 256 Memb cm, false,
        List.replicate 16 none, none, false⟩
      (some c, { b with chans, al, chanHeap := b.chanHeap.new ch })

def dropChan (b : Base) (c : Ptr) : Except Fault (Bool × Base) := do
  let ch ← b.chan c
  match b.chans.del ch.name with
  | (none, _) => .ok (false, b)
  | (some _, chans) =>
    let b ← unrefAll (KeyedList.vals ch.memb.visit.1) { b with chans }
    let b ← b.freeChan c
    .ok (true, b)

def numChans (b : Base) : Nat := b.chans.count

def getChan (b : Base) (name : Str) : Option Ptr := b.chans.get name

def addMemb (b : Base) (c p : Ptr) (mpfxstr : Str) : Except Fault (Bool × Base) :=
  match b.malloc with
  | (false, b) => .ok (false, b)
  | (true, b) => do
    let u ← b.user p
    let ch ← b.chan c
    match ch.memb.put u.nick ⟨p, strNcpy mpfxstr MAX_MODEPFX⟩ b.al with
    | (false, memb, al) => .ok (false, Base.setChan { b with al } c { ch with memb })
    | (true, memb, al) =>
      let b := Base.setChan { b with al } c { ch with memb }
      .ok (true, b.setUser p { u with nchans := u.nchans + 1 })

def dropMemb (b : Base) (c p : Ptr) (purge : Bool) : Except Fault (Bool × Base) := do
  let u ← b.user p
  let ch ← b.chan c
  match ch.memb.del u.nick with
  | (none, _) => .ok (false, b)
  | (some m, memb) =>
    let b ← unref (b.setChan c { ch with memb }) m.u purge
    .ok (true, b)

def clearMemb (b : Base) (c : Ptr) : Except Fault Base := do
  let ch ← b.chan c
  let b := b.setChan c { ch with memb := ch.memb.visit.2 }
  if ch.memb.visit.1 = [] then .ok b
  else
    let b ← unrefAll (KeyedList.vals ch.memb.visit.1) b
    let ch ← b.chan c
    .ok (b.setChan c { ch with memb := ch.memb.clear })

def touchUserInt (b : Base) (p : Ptr) (ident : Str) : Except Fault Base := do
  let u ← b.user p
  let (u, b) :=
    if u.uname = none ∧ 0x21 ∈ ident then
      ({ u with uname := (b.strdup (ident2uname MAX_UNAME_LEN ident)).1 },
        (b.strdup (ident2uname MAX_UNAME_LEN ident)).2)
    else (u, b)
  let (u, b) :=
    if u.host = none ∧ 0x40 ∈ ident then
      ({ u with host := (b.strdup (ident2host MAX_HOST_LEN ident)).1 },
        (b.strdup (ident2host MAX_HOST_LEN ident)).2)
    else (u, b)
  .ok (b.setUser p u)

def getUser (b : Base) (ident : Str) : Option Ptr := b.users.get ident

def touchUser (b : Base) (ident : Str) : Except Fault Base :=
  match getUser b ident with
  | none => .ok b
  | some p => touchUserInt b p ident

def addUser (b : Base) (ident : Str) : Except Fault (Option Ptr × Base) :=
  let nick := ident2nick MAX_NICK_LEN ident
  match b.malloc with
  | (false, b) => .ok (none, b)
  | (true, b) =>
    match b.malloc with
    | (false, b) => .ok (none, b)
    | (true, b) =>
      let p := b.userHeap.next
      match b.users.put nick p b.al with
      | (false, users, al) => .ok (none, { b with users, al })
      | (true, users, al) => do
        let userHeap := b.userHeap.new ⟨nick, none, none, none, 0, none, false⟩
        let b ← touchUserInt { b with users, al, userHeap } p ident
        .ok (some p, b)

/-- The loop of `dropUser` over the channels. -/
def dropMembs (p : Ptr) : List Ptr → Base → Except Fault Base
  | [], b => .ok b
  | c :: cs, b => do
    let r ← dropMemb b c p false
    dropMembs p cs r.2

def dropUser (b : Base) (p : Ptr) : Except Fault (Bool × Base) := do
  let u ← b.user p
  match b.users.del u.nick with
  | (none, _) => .ok (false, b)
  | (some _, users) =>
    let b ← dropMembs p (KeyedList.vals b.chans.visit.1)
      { b with users, chans := b.chans.visit.2 }
    let b ← b.freeUser p
    .ok (true, b)

/-- The loop of `renameUser` over the channels. The first result is that of the
function, the second one tells of an allocation failure. -/
def renameMembs (ident newnick : Str) : List Ptr → Base → Except Fault (Bool × Bool × Base)
  | [], b => .ok (true, false, b)
  | c :: cs, b => do
    let ch ← b.chan c
    match ch.memb.get ident with
    | none => renameMembs ident newnick cs b
    | some m =>
      match ch.memb.put newnick m b.al with
      | (false, memb, al) => .ok (false, true, Base.setChan { b with al } c { ch with memb })
      | (true, memb, al) =>
        renameMembs ident newnick cs
          (Base.setChan { b with al } c { ch with memb := (memb.del ident).2 })

def renameUser (b : Base) (cm : CMap) (ident newnick : Str) : Except Fault (Bool × Bool × Base) :=
  let nick := ident2nick MAX_NICK_LEN ident
  match getUser b ident with
  | none => .ok (false, false, b)
  | some p => do
    let u ← b.user p
    if istrcmp nick newnick cm = 0 then
      -- only the case changes: the copy keeps the length, and the keys stay
      .ok (true, false, b.setUser p { u with nick := strNcpy newnick (u.nick.length + 1) })
    else
      match b.malloc with
      | (false, b) => .ok (false, false, b)
      | (true, b) =>
        let b := b.setUser p { u with nick := newnick }
        match b.users.put newnick p b.al with
        | (false, users, al) => .ok (false, true, { b with users, al })
        | (true, users, al) =>
          renameMembs ident newnick (KeyedList.vals b.chans.visit.1)
            { b with users := (users.del ident).2, al, chans := b.chans.visit.2 }

end Srsirc.UserBase
