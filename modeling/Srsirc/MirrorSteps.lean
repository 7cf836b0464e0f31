import Srsirc.Mirror
import Srsirc.CaseAgreement
import Srsirc.FiledNames

namespace Srsirc.MirrorSteps

open CharMap Dictionary Fallible HeapCells MemberOps Members Message Mirror NamesEntered NamesReply
open Presence RefCount Tally Track TrackSafety UserBase UserLifetime UserRecords

variable {cm : CMap} {b b' : Base} {V : View Str Str} {κ : Str} {c p : Ptr} {S : Set Str}

section Rename

variable {u v : Str}

end Rename

end Srsirc.MirrorSteps
