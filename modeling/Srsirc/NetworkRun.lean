import Srsirc.ReportedSteps
import Srsirc.Wiring

namespace Srsirc.NetworkRun

open CharMap Context CoreHandlers Dispatch Fallible Message Mirror MirrorSteps NamesListing
open OneCasemap Presence Registrations ReportedSteps ServerInfo ServerReports UserBase Wiring

/-- Everybody has a nick that the tracking is at ease with, and no two of them the same. -/
structure Decent (cm : CMap) (N : Net Str Str) (me : Str) : Prop where
  nicks : ∀ u ∈ people N me, Nickname cm u
  distinct : Distinct (norm cm) N me

def Proper (cm : CMap) : Event Str Str → Prop
  | .join u _ => Nickname cm u
  | .rename _ v => Nickname cm v
  | _ => True

/-- The client is up to date. -/
structure Follows (cm : CMap) (syms : Str) (N : Net Str Str) (me : Str) (irc : Irc) : Prop where
  wired : Wired irc
  self : Self cm me irc.info
  syms : irc.info.m005modepfx.2 = syms
  base : Mirrors cm (view N me) irc.base
  quiet : irc.base.endofnames = true

variable {cm : CMap} {syms : Str} {N N' : Net Str Str} {me me' : Str} {irc : Irc} {msg : Msg}
  {post : Irc → Msg → Nat → Bool} {V : View Str Str} {κ : Str} {S D : Set Str}

theorem Decent.after (h : Decent cm N me) {e : Event Str Str} (hl : Legal (norm cm) N me e)
    (hp : Proper cm e) : Decent cm (after N e) (e.renamed me) := by
  refine ⟨?_, h.distinct.after hl⟩
  intro u hu
  cases e with
  | join v c =>
    obtain rfl | hu := people_join hu
    · exact hp
    · exact h.nicks u hu
  | leave v c => exact h.nicks u (people_leave hu)
  | quit v => exact h.nicks u (people_quit hu)
  | rename v w =>
    obtain rfl | hu := people_rename hu
    · exact hp
    · exact h.nicks u hu.1

section Listings

end Listings

section Events

variable {u v : Str}

theorem Decent.same (hd : Decent cm N me) (hu : u ∈ people N me) :
    ∀ w ∈ known (view N me), norm cm w = norm cm u → w = u :=
  fun _ hw he => hd.distinct (known_subset hw) hu he

theorem handle_NICK_noted (hs : Self cm me irc.info) {ident : Str} (hmsg : Says msg ident
    (ascii "NICK") [v]) (hfrom : From u ident) (hu : Nickname cm u) (hv : Nickname cm v)
    (hne : u ≠ me → norm cm u ≠ norm cm me) (base : Base) :
    handle_NICK { irc with base } msg msg.nargs false =
      .ok (0, { irc with base, info := { irc.info with mynick := if u = me then v else me } }) := by
  have hargs := hmsg.nargs
  have hlt : ¬msg.nargs < 3 := by
    rw [List.length_singleton] at hargs
    omega
  have hshort := hu.short
  have hnick : ident2nick 128 ident = u :=
    ident2nick_from hu.keys hfrom (Nat.lt_of_lt_of_le hshort (by decide))
  have hfit : strNcpy v MAX_NICK_LEN = v := List.take_of_length_le (Nat.le_pred_of_lt hv.short)
  have hours : istrcmp u irc.info.mynick irc.info.casemap = 0 ↔ norm cm u = norm cm me := by
    rw [hs.mynick, hs.casemap]
    exact same_iff hu hs.nick
  simp only [handle_NICK, hmsg.present, hlt, hmsg.ident, hmsg.fields 0 v rfl, ok_bind, hnick,
    hours, hfit, Bool.not_true, Bool.false_eq_true, or_self, if_false]
  by_cases he : u = me
  · rw [if_pos (congrArg _ he), if_pos he]
  · rw [if_neg (hne he), if_neg he, ← hs.mynick]

end Events

end Srsirc.NetworkRun
