import Srsirc.Capabilities
import Srsirc.Fallible
import Srsirc.TrackInfo

namespace Srsirc.Dispatch

open CharMap Message UserBase Context CoreHandlers Capabilities Track TrackInfo
open Fallible

def tracking (h : Irc → Msg → Nat → Bool → Base → Step) : Handler := fun irc msg nargs logon => do
  let (flags, base) ← h irc msg nargs logon irc.base
  .ok (flags, { irc with base })

def run : Hnd → Handler
  | .handle_001 => handle_001
  | .handle_002 => handle_002
  | .handle_003 => handle_003
  | .handle_004 => handle_004
  | .handle_PING => handle_PING
  | .handle_bad_nick => handle_bad_nick
  | .handle_464 => handle_464
  | .handle_383 => handle_383
  | .handle_484 => handle_484
  | .handle_465 => handle_465
  | .handle_466 => handle_466
  | .handle_ERROR => handle_ERROR
  | .handle_NICK => handle_NICK
  | .handle_MODE => handle_MODE
  | .handle_005 => handle_005
  | .h_JOIN => tracking fun irc msg nargs _ => h_JOIN irc.info msg nargs
  | .h_311 => tracking fun irc msg nargs _ => h_311 irc.info msg nargs
  | .h_332 => tracking fun _ msg nargs _ => h_332 msg nargs
  | .h_333 => tracking fun _ msg nargs _ => h_333 msg nargs
  | .h_352 => tracking fun irc msg nargs _ => h_352 irc.info msg nargs
  | .h_353 => tracking fun irc msg nargs _ => h_353 irc.info msg nargs
  | .h_366 => tracking fun _ msg nargs _ => h_366 msg nargs
  | .h_PART => tracking fun irc msg nargs _ => h_PART irc.info msg nargs
  | .h_QUIT => tracking fun _ msg _ _ => h_QUIT msg
  | .h_NICK => tracking fun irc msg nargs _ => h_NICK irc.info msg nargs
  | .h_KICK => tracking fun irc msg nargs _ => h_KICK irc.info msg nargs
  | .h_MODE => tracking fun irc msg nargs _ => h_MODE irc.info msg nargs
  | .h_PRIVMSG => tracking fun _ msg nargs logon => h_PRIVMSG msg nargs logon
  | .h_NOTICE => tracking fun _ msg nargs logon => h_NOTICE msg nargs logon
  | .h_324 => tracking fun irc msg nargs _ => h_324 irc.info msg nargs
  | .h_TOPIC => tracking fun _ msg nargs _ => h_TOPIC msg nargs
  | .handle_670 => handle_670
  | .handle_691 => handle_691
  | .handle_903 => handle_903
  | .handle_saslerr => handle_saslerr
  | .handle_CAP => handle_CAP
  | .handle_AUTHENTICATE => handle_AUTHENTICATE

/-- The loop over the table, from slot `i` on, with the flags so far. The table is looked
up in each round, since a handler may change it; `k` bounds the number of rounds. -/
def dispatch (msg : Msg) (cmd : Str) (logon : Bool) :
    Nat → Nat → Flags → Irc → Except Fault (Flags × Irc)
  | 0, _, res, irc => .ok (res, irc)
  | k + 1, i, res, irc =>
    match irc.msghnds.val[i]? with
    | none => .ok (res, irc)
    | some none => dispatch msg cmd logon k (i + 1) res irc
    | some (some e) =>
      if e.cmd ≠ cmd then dispatch msg cmd logon k (i + 1) res irc
      else do
        let (r, irc) ← run e.hndfn irc msg msg.nargs logon
        if (res ||| r).has CANT_PROCEED then .ok (res ||| r, irc)
        else dispatch msg cmd logon k (i + 1) (res ||| r) irc

/-- What each handler for the command preserves, the loop over the table does. -/
theorem dispatch_rule {msg : Msg} {cmd : Str} {logon : Bool} {J : Irc → Prop}
    (hstep : ∀ irc e, J irc → some e ∈ irc.msghnds.val → e.cmd = cmd →
      Ensures (run e.hndfn irc msg msg.nargs logon) fun r => J r.2) (k : Nat) {i :
        Nat} {res : Flags}
    {irc : Irc} (hj : J irc) : Ensures (dispatch msg cmd logon k i res irc) fun r => J r.2 := by
  induction k generalizing i res irc with
  | zero => exact Ensures.ok hj
  | succ k ih =>
    rw [dispatch]
    split
    · exact Ensures.ok hj
    · exact ih hj
    · next e hslot =>
      refine Ensures.ite (fun _ => ih hj) fun hcmd => ?_
      refine (hstep irc e hj (List.mem_of_getElem? hslot) (not_not.1 hcmd)).bind fun r hr => ?_
      exact Ensures.ite (fun _ => Ensures.ok hr) fun _ => ih hr

structure UserHnds where
  pre : Irc → Msg → Nat → Bool × Irc
  post : Irc → Msg → Nat → Bool × Irc

/-- `lsi_msg_handle`. No more than 16 handlers are registered while a message is handled. -/
def msgHandle (users : UserHnds) (irc : Irc) (msg : Msg) (logon : Bool) :
    Except Fault (Flags × Irc) := do
  let (ok, irc) := if logon then (true, irc) else users.pre irc msg msg.nargs
  if !ok then .ok (USER_ERR, irc)
  else
    let cmd ← msg.fld 1
    let (res, irc) ← dispatch msg cmd logon (2 * irc.msghnds.val.length + 32) 0 0 irc
    if res.has CANT_PROCEED then .ok (res, irc)
    else
      let (ok, irc) := if logon then (true, irc) else users.post irc msg msg.nargs
      .ok (if ok then res else res ||| USER_ERR, irc)

/-- What each handler preserves, and the callbacks of the user, the handling of a message does. -/
theorem msgHandle_rule {J : Irc → Prop} {users : UserHnds} {msg : Msg} {logon : Bool}
    (hstep : ∀ h irc, J irc → Ensures (run h irc msg msg.nargs logon) fun r => J r.2)
    (hpre : logon = false → ∀ irc, J irc → J (users.pre irc msg msg.nargs).2)
    (hpost : logon = false → ∀ irc, J irc →
      J (users.post irc msg msg.nargs).2) {irc : Irc} (hj : J irc) :
    Ensures (msgHandle users irc msg logon) fun r => J r.2 := by
  have hfirst : J (if logon then (true, irc) else users.pre irc msg msg.nargs).2 := by
    cases logon with
    | true => exact hj
    | false => exact hpre rfl irc hj
  rw [msgHandle]
  generalize (if logon then (true, irc) else users.pre irc msg msg.nargs) = r₀ at hfirst
  obtain ⟨ok, irc₀⟩ := r₀
  refine Ensures.ite (fun _ => Ensures.ok hfirst) fun _ => Ensures.value fun cmd => ?_
  refine (dispatch_rule (fun irc e hj _ _ => hstep e.hndfn irc hj) _ hfirst).bind fun r hr => ?_
  refine Ensures.ite (fun _ => Ensures.ok hr) fun _ => Ensures.ok ?_
  cases logon with
  | true => exact hr
  | false => exact hpost rfl r.2 hr

end Srsirc.Dispatch
