import Srsirc.TrackQueries

namespace Srsirc.TrackedNetwork

open CharMap Connect Context CoreHandlers Dispatch DispatchOrder Enumeration Fallible HandlerTable
open Members Message Mirror MirrorSteps NetworkRun OneCasemap Presence Registrations Registry
open ServerInfo ServerReports TrackCount TrackQueries UserBase UserLifetime UserRecords Wiring

inductive Query
  | chans (cnt : Nat)
  | users (cnt : Nat)
  | members (name : Str) (cnt : Nat)

def ask (b : Base) : Query → Except Fault Base
  | .chans cnt => (irc_all_chans b cnt).map Prod.snd
  | .users cnt => (irc_all_users b cnt).map Prod.snd
  | .members name cnt => (irc_all_members b name cnt).map Prod.snd

variable {pre post : Irc → Msg → Nat → Bool} {irc irc' irc₀ irc₁ irc₂ irc₃ : Irc} {msg : Msg}
  {cm : CMap} {V : View Str Str} {b : Base}

section Beginnings

end Beginnings

section Sample

end Sample

end Srsirc.TrackedNetwork
