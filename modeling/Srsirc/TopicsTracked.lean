import Srsirc.Sessions
import Srsirc.TrackedNetwork

namespace Srsirc.TopicsTracked

open CharMap Connect Context CoreHandlers Dispatch DispatchOrder Enumeration Fallible HandlerTable
open Members Message Mirror MirrorSteps NamesListing NetworkRun OneCasemap Presence Registrations
open ServerInfo ServerReports Sessions TagBalance Topics TrackQueries TrackedNetwork UserBase
open UserLifetime Wiring

variable {cm : CMap} {V : View Str Str} {b : Base} {K : Str → Topic} {κ : Str} {S : Set Str}

variable {pre post : Irc → Msg → Nat → Bool} {irc₀ irc₁ irc₂ irc₃ : Irc} {msg : Msg}

section Sample

end Sample

end Srsirc.TopicsTracked
