import Srsirc.ServerInfo
import Srsirc.UserBase

namespace Srsirc.ChannelModes

open CharMap Dictionary HeapCells Message ServerInfo UserBase
open BucketList (Alloc)

/-- One mode change of a MODE line. In the source it is a string: the sign, the mode
and, if there is one, a space and the argument. -/
structure ModeChange where
  enab : Bool
  mode : UInt8
  arg : Option Str

def ModeChange.modestr (c : ModeChange) : Str :=
  c.mode :: match c.arg with
    | none => []
    | some arg => 0x20 :: arg

def ModeChange.argument (c : ModeChange) : Except Fault Str :=
  match c.arg with
  | none => .error .overrun
  | some arg => .ok arg

/-- Whether the mode takes an argument; `none` for an unknown mode. -/
def takesArg (info : Info) (enab : Bool) (c : UInt8) : Option Bool :=
  match classifyChanmode info c with
  | 0 => if (strchr info.m005modepfx.1 c).isSome then some true else none
  | 1 => some true
  | 2 => some true
  | 3 => some enab
  | _ => some false

/-- The argument at `i`, or a stand-in behind the last one. -/
def modeArg (msg : Msg) (ac i : Nat) : Except Fault (Str × Nat) :=
  if ac ≤ i then .ok (ascii "*", i) else (msg.fld i).map fun s => (s, i + 1)

/-- The loop of `lsi_ut_parse_MODE` over the modes, with the sign in force and the place
of the next argument. -/
def parseModes (info : Info) (msg : Msg) (ac : Nat) :
    Str → Bool → Nat → Alloc → Except Fault (Option (List ModeChange) × Alloc)
  | [], _, _, al => .ok (some [], al)
  | c :: s, enab, i, al =>
    if c = 0x2b then parseModes info msg ac s true i al
    else if c = 0x2d then parseModes info msg ac s false i al
    else
      match takesArg info enab c with
      | none => parseModes info msg ac s enab i al
      | some withArg => do
        let (arg, i) ← if withArg then (modeArg msg ac i).map fun r => (some r.1, r.2)
            else .ok (none, i)
        match BucketList.malloc al with
        | (false, al) => .ok (none, al)
        | (true, al) =>
          let (r, al) ← parseModes info msg ac s enab i al
          .ok (r.map (⟨enab, c, arg⟩ :: ·), al)

/-- `lsi_ut_parse_MODE`. -/
def parseMODE (info : Info) (msg : Msg) (is324 : Bool) (al : Alloc) :
    Except Fault (Option (List ModeChange) × Alloc) := do
  let k := if is324 then 1 else 0
  let modes ← msg.fld (3 + k)
  match BucketList.malloc al with
  | (false, al) => .ok (none, al)
  | (true, al) =>
    match BucketList.malloc al with
    | (false, al) => .ok (none, al)
    | (true, al) => parseModes info msg msg.nargs modes true (4 + k) al

def modepfxRank (info : Info) (c : UInt8) : Int :=
  match strchr info.m005modepfx.2 c with
  | some i => i
  | none => -1

/-- `compare_modepfx` being positive. -/
def stronger (info : Info) (c₁ c₂ : UInt8) : Bool := modepfxRank info c₁ < modepfxRank info c₂

/-- `lsi_ucb_update_modepfx` on the prefix of a member; `none` where nothing is to be done. -/
def updatedModepfx (info : Info) (modepfx : Str) (sym : UInt8) (enab : Bool) : Option Str :=
  match strchr modepfx sym with
  | some i => if enab then none else some (modepfx.take i ++ modepfx.drop (i + 1))
  | none =>
    if !enab ∨ MAX_MODEPFX ≤ modepfx.length + 1 then none
    else
      let before := modepfx.takeWhile (stronger info · sym)
      some (before ++ sym :: modepfx.drop before.length)

def updateModepfx (info : Info) (b : Base) (c : Ptr) (nick : Str) (sym : UInt8) (enab : Bool) :
    Except Fault Base := do
  let ch ← b.chan c
  match ch.memb.get nick with
  | none => .ok b
  | some m =>
    match updatedModepfx info m.modepfx sym enab with
    | none => .ok b
    | some modepfx =>
      -- the member record is changed in place
      .ok (b.setChan c { ch with memb := ch.memb.store nick { m with modepfx } })

def clearChanmodes (b : Base) (c : Ptr) : Except Fault Base := do
  let ch ← b.chan c
  .ok (b.setChan c { ch with modes := ch.modes.map fun _ => none })

/-- `lsi_ucb_add_chanmode`; the array doubles when it is full. -/
def addChanmode (b : Base) (c : Ptr) (modestr : Str) : Except Fault (Bool × Base) := do
  let ch ← b.chan c
  let (ok, modes, b) :=
    if none ∈ ch.modes then (true, ch.modes, b)
    else (b.malloc.1, ch.modes ++ List.replicate ch.modes.length none, b.malloc.2)
  if !ok then .ok (false, b)
  else
    let (s, b) := b.strdup modestr
    let ind := (modes.takeWhile Option.isSome).length
    .ok (s.isSome, b.setChan c { ch with modes := modes.set ind s })

/-- The entry that `lsi_ucb_drop_chanmode` is to remove. -/
def findChanmode (info : Info) (modes : List (Option Str)) (modestr : Str) : Option Nat :=
  match classifyChanmode info (modestr.headD 0) with
  | 0 => none
  | 1 => modes.findIdx? (· = some modestr)
  | _ => modes.findIdx? fun e => e.any fun s => s.headD 0 = modestr.headD 0

/-- `lsi_ucb_drop_chanmode`: the last entry fills the gap. -/
def dropChanmode (info : Info) (b : Base) (c : Ptr) (modestr : Str) :
    Except Fault (Bool × Base) := do
  let ch ← b.chan c
  match findChanmode info ch.modes modestr with
  | none => .ok (false, b)
  | some i =>
    let last := ch.modes.length - 1 - (ch.modes.reverse.takeWhile Option.isNone).length
    let modes :=
      if last = i then ch.modes.set i none
      else (ch.modes.set i (ch.modes.getD last none)).set last none
    .ok (true, b.setChan c { ch with modes })

end Srsirc.ChannelModes
