import Mathlib.Data.List.Permutation
import Srsirc.OneCasemap
import Srsirc.Registrations

namespace Srsirc.Wiring

open CharMap Message ServerInfo UserBase Context CoreHandlers Dispatch Connect Registry
open DispatchOrder Fallible HandlerTable OneCasemap Registrations Track

/-- Each handler of the tracking is registered, and of the others the one that notes our nick. -/
structure Wired (irc : Irc) : Prop where
  roll : Roll irc
  track : ∀ p ∈ trackHnds, entry .track p ∈ occupied irc.msghnds
  nick : entry .core ("NICK", .handle_NICK) ∈ occupied irc.msghnds

def hear (post : Irc → Msg → Nat → Bool) (irc : Irc) (msg : Msg) : Except Fault Irc :=
  happen (onlookers (fun _ _ _ => true) post) irc (.message msg false)

variable {irc irc' : Irc} {msg : Msg} {post : Irc → Msg → Nat → Bool}

theorem Wired.leaves (h : Wired irc) (hl : Leaves irc irc') : Wired irc' :=
  ⟨h.roll.leaves hl, hl.1 ▸ h.track, hl.1 ▸ h.nick⟩

end Srsirc.Wiring
