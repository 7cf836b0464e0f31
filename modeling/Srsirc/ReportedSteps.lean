import Srsirc.ServerReports

namespace Srsirc.ReportedSteps

open CaseMapping CharMap Dictionary Fallible HeapCells MemberOps Members Message Mirror MirrorSteps
open NamesListing NamesReply Presence ServerInfo ServerReports Tally Track TrackSafety UserBase
open UserLifetime

/-- The client goes by the nick `me`. -/
structure Self (cm : CMap) (me : Str) (info : Info) : Prop where
  mynick : info.mynick = me
  casemap : info.casemap = cm
  nick : Nickname cm me

variable {cm : CMap} {b b' : Base} {V : View Str Str} {κ ν : Str} {c p : Ptr} {S : Set Str}
  {info : Info} {msg : Msg} {me u v ident name nick : Str}

section Listings

variable {D : Set Str}

end Listings

section Departures

end Departures

end Srsirc.ReportedSteps
