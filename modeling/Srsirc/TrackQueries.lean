import Srsirc.Enumeration
import Srsirc.NetworkRun

namespace Srsirc.TrackQueries

open CharMap Dictionary Enumeration Fallible HeapCells MemberOps Members Message Mirror Presence
open StringMapEntries StringMapTraversal Tally TrackCount UserBase UserLifetime

structure Chanrep where
  name : Str
  topic : Option Str
  topicnick : Option Str
  tscreate : Nat
  tstopic : Nat
  tag : Option Ptr
  deriving DecidableEq

structure Userrep where
  modepfx : Option Str
  nick : Str
  uname : Option Str
  host : Option Str
  fname : Option Str
  tag : Option Ptr
  nchans : Nat
  deriving DecidableEq

def mkchanrep (c : Chan) : Chanrep := ⟨c.name, c.topic, c.topicnick, 0, c.tstopic, c.tag⟩

def mkuserrep (u : User) (modepfx : Option Str) : Userrep :=
  ⟨modepfx, u.nick, u.uname, u.host, u.fname, u.tag, u.nchans⟩

/-- What a loop of `first` and `next` comes to that stops after `cnt` rounds. -/
def upTo {n : Nat} [NeZero n] {V : Type} (d : Dict n V) (cnt : Nat) : List V × Dict n V :=
  let r := StringMap.scan (cnt - 1) d.map
  (KeyedList.vals r.1, ⟨r.2, (scan_eq (cnt - 1) d.map).2.wf d.wf⟩)

def irc_num_chans (b : Base) : Nat := b.chans.count

def irc_all_chans (b : Base) (cnt : Nat) : Except Fault (List Chanrep × Base) :=
  if cnt = 0 then .ok ([], b)
  else do
    let reps ← (upTo b.chans cnt).1.mapM fun c => (b.chan c).map mkchanrep
    .ok (reps, { b with chans := (upTo b.chans cnt).2 })

def irc_chan (b : Base) (name : Str) : Except Fault (Option Chanrep) :=
  match getChan b name with
  | none => .ok none
  | some c => (b.chan c).map fun c => some (mkchanrep c)

def irc_num_users (b : Base) : Nat := b.users.count

def irc_all_users (b : Base) (cnt : Nat) : Except Fault (List Userrep × Base) :=
  if cnt = 0 then .ok ([], b)
  else do
    let reps ← (upTo b.users cnt).1.mapM fun p => (b.user p).map (mkuserrep · none)
    .ok (reps, { b with users := (upTo b.users cnt).2 })

def irc_user (b : Base) (ident : Str) : Except Fault (Option Userrep) :=
  match getUser b ident with
  | none => .ok none
  | some p => (b.user p).map fun u => some (mkuserrep u none)

def irc_num_members (b : Base) (chname : Str) : Except Fault Nat :=
  match getChan b chname with
  | none => .ok 0
  | some c => (b.chan c).map fun ch => ch.memb.count

def irc_all_members (b : Base) (chname : Str) (cnt : Nat) : Except Fault (List Userrep × Base) :=
  if cnt = 0 then .ok ([], b)
  else
    match getChan b chname with
    | none => .ok ([], b)
    | some c => do
      let ch ← b.chan c
      let reps ← (upTo ch.memb cnt).1.mapM fun m =>
        (b.user m.u).map (mkuserrep · (some m.modepfx))
      .ok (reps, b.setChan c { ch with memb := (upTo ch.memb cnt).2 })

/-- A member goes into `dest`, which keeps its tag and its number of channels. -/
def irc_member (b : Base) (dest : Userrep) (chname ident : Str) :
    Except Fault (Option Userrep) :=
  match getChan b chname with
  | none => .ok none
  | some c => do
    let ch ← b.chan c
    match ch.memb.get ident with
    | none => .ok none
    | some m =>
      let u ← b.user m.u
      .ok (some { dest with
        modepfx := some m.modepfx
        nick := u.nick
        uname := u.uname
        host := u.host
        fname := u.fname })

section Loops

variable {n : Nat} [NeZero n] {V A : Type} {d : Dict n V} {cnt : Nat}

end Loops

section Moves

structure Moved (b b' : Base) : Prop where
  al : b'.al = b.al
  endofnames : b'.endofnames = b.endofnames
  userHeap : b'.userHeap = b.userHeap
  users : b'.users.lookup = b.users.lookup
  usersCm : b'.users.cm = b.users.cm
  chans : b'.chans.lookup = b.chans.lookup
  chansCm : b'.chans.cm = b.chans.cm
  vals : b'.chans.vals = b.chans.vals
  name : nameAt b' = nameAt b
  memb : membAt b' = membAt b
  members : membersOf b' = membersOf b
  live : ∀ c ch, b.chanHeap.get c = some ch → ∃ ch', b'.chanHeap.get c = some ch' ∧
    ch'.memb.cm = ch.memb.cm

variable {cm : CMap} {V : View Str Str} {b b' : Base}

theorem Moved.tallied (h : Moved b b') (ht : Tallied cm True b) : Tallied cm True b' := by
  have hrefs : refs b' = refs b := by
    funext p
    rw [refs, refs, h.vals, h.members]
  have hfiled : Filed b' = Filed b := by
    funext κ p
    rw [Filed, Filed, h.vals, h.memb]
  have hlisted : Listed b' = Listed b := by
    funext p
    rw [Listed, Listed, h.users]
  refine ⟨⟨h.al.trans ht.counted.al, h.usersCm.trans ht.counted.usersCm, ?_⟩,
    h.chansCm.trans ht.chansCm, ?_, h.vals ▸ ht.nodup⟩
  · rw [h.users, h.userHeap, hrefs, hfiled, hlisted]
    exact ht.counted.roster
  · intro c hc
    rw [h.vals] at hc
    obtain ⟨ch, hch, hcm⟩ := ht.live c hc
    obtain ⟨ch', hch', hcm'⟩ := h.live c ch hch
    exact ⟨ch', hch', hcm'.trans hcm⟩

end Moves

section Answers

/-- Those who are known to be in the room `κ`. -/
def seen (V : View Str Str) (κ : Str) : Set Str := {u | ∃ S, V κ = some S ∧ u ∈ S}

/-- What is found by a name is what the set has under its key, and if nothing is found, the set
has nothing there. -/
def Finds (cm : CMap) (S : Set Str) (name : Str) (r : Option Str) : Prop :=
  (∀ n, r = some n → n ∈ S ∧ norm cm n = norm cm name) ∧
    (r = none → ∀ n ∈ S, norm cm n ≠ norm cm name)

/-- All that can be asked about the channels and users is answered by the view, and what the
lists have is also found by its name. -/
structure Answers (cm : CMap) (V : View Str Str) (b : Base) : Prop where
  chans : irc_num_chans b = {κ | (V κ).isSome}.ncard
  allChans : ∀ cnt, Returns (irc_all_chans b cnt) fun r =>
    Lists {κ | (V κ).isSome} cnt (r.1.map fun c => norm cm c.name) ∧
      ∀ c ∈ r.1, irc_chan b c.name = .ok (some c)
  chan : ∀ name, Returns (irc_chan b name) fun r =>
    Finds cm {n | (V (norm cm n)).isSome} name (r.map Chanrep.name)
  users : irc_num_users b = (known V).ncard
  allUsers : ∀ cnt, Returns (irc_all_users b cnt) fun r =>
    Lists (known V) cnt (r.1.map Userrep.nick) ∧
      ∀ u ∈ r.1, u.nchans = {κ | u.nick ∈ seen V κ}.ncard ∧ irc_user b u.nick = .ok (some u)
  user : ∀ ident, Returns (irc_user b ident) fun r =>
    Finds cm (known V) ident (r.map Userrep.nick)
  members : ∀ name, irc_num_members b name = .ok (seen V (norm cm name)).ncard
  allMembers : ∀ name cnt, Returns (irc_all_members b name cnt) fun r =>
    Lists (seen V (norm cm name)) cnt (r.1.map Userrep.nick) ∧ ∀ u ∈ r.1,
      irc_user b u.nick = .ok (some { u with modepfx := none }) ∧
      ∀ dest, irc_member b dest name u.nick =
        .ok (some { u with tag := dest.tag, nchans := dest.nchans })
  member : ∀ dest name ident, Returns (irc_member b dest name ident) fun r =>
    Finds cm (seen V (norm cm name)) ident (r.map Userrep.nick)

variable {cm : CMap} {V : View Str Str} {b : Base} {c p : Ptr} {κ ν : Str} {u : User}

end Answers

end Srsirc.TrackQueries
