import Srsirc.Outgoing
import Srsirc.Session

namespace Srsirc.Transfer

open CharMap Conn LineReading Outgoing ReadBuffer Reassembly Session

def body (line : Str) : Str := if crlf <:+ line then line.take (line.length - 2) else line

/-- A line that is one message, and not too long for the other side. -/
structure Sendable (line : Str) : Prop where
  plain : Plain (body line)
  ne_nil : body line ≠ []
  fits : (body line).length < workbufSz

theorem framed_eq (line : Str) : framed line = body line ++ crlf := by
  rw [framed, body]
  split
  · next h =>
    obtain ⟨pre, rfl⟩ := h
    simp [crlf]
  · rfl

section Streams

variable {w s : Str} {ws : List Str}

theorem prefix_append_cases {a b : Str} (h : s <+: a ++ b) :
    s <+: a ∨ ∃ t, s = a ++ t ∧ t <+: b := by
  obtain hs | ⟨t, rfl⟩ := List.prefix_or_prefix_of_prefix h (List.prefix_append a b)
  · exact .inl hs
  · exact .inr ⟨t, rfl, (List.prefix_append_right_inj a).1 h⟩

theorem candidates_framed (hw : Plain w) (hne : w ≠ []) (s : Str) :
    candidates (w ++ crlf ++ s) = w :: candidates s := by
  have hcut : w ++ crlf ++ s = w ++ 0x0d :: 0x0a :: s := by simp [crlf]
  rw [hcut, candidates_line hw (by decide), candidates_skip (by decide),
    List.filter_cons_of_pos (by simp [hne])]
  rfl

theorem candidates_short (hw : Plain w) (hlen : w.length < workbufSz) : candidates w = [] := by
  rw [candidates_plain hw, List.filter_cons_of_neg (by simpa using hlen)]
  rfl

/-- A part of a line is not a line yet, unless only the end of the CRLF is missing. -/
theorem candidates_part (hw : Plain w) (hne : w ≠ []) (hlen : w.length < workbufSz)
    (hs : s <+: w ++ crlf) : candidates s = [] ∨ candidates s = [w] := by
  obtain hs | ⟨t, rfl, ht⟩ := prefix_append_cases hs
  · left
    refine candidates_short (fun c hc => hw c (hs.subset hc)) ?_
    exact hs.length_le.trans_lt hlen
  · obtain rfl | ⟨e, rfl, he⟩ := List.prefix_cons_iff.1 ht
    · left
      rw [List.append_nil]
      exact candidates_short hw hlen
    · right
      have hend : candidates e = [] := by
        obtain rfl | ⟨e', rfl, he'⟩ := List.prefix_cons_iff.1 he
        · rfl
        · obtain rfl := List.prefix_nil.1 he'
          rfl
      rw [candidates_line hw (by decide), hend, List.filter_cons_of_pos (by simp [hne])]
      rfl

theorem candidates_prefix (hws : ∀ w ∈ ws, Plain w ∧ w ≠ [] ∧ w.length < workbufSz)
    (hs : s <+: ws.flatMap (· ++ crlf)) : ∃ m, m ≤ ws.length ∧ candidates s = ws.take m := by
  induction ws generalizing s with
  | nil =>
    obtain rfl := List.prefix_nil.1 hs
    exact ⟨0, Nat.le_refl _, rfl⟩
  | cons w ws ih =>
    obtain ⟨hw, hne, hlen⟩ := hws w List.mem_cons_self
    rw [List.flatMap_cons] at hs
    obtain hs | ⟨t, rfl, ht⟩ := prefix_append_cases hs
    · obtain hnone | hone := candidates_part hw hne hlen hs
      · exact ⟨0, Nat.zero_le _, hnone⟩
      · exact ⟨1, by simp, hone⟩
    · obtain ⟨m, hm, hc⟩ := ih (fun w hw => hws w (List.mem_cons_of_mem _ hw)) ht
      refine ⟨m + 1, by simpa using hm, ?_⟩
      rw [candidates_framed hw hne, hc]
      rfl

theorem candidates_whole (hws : ∀ w ∈ ws, Plain w ∧ w ≠ []) (s : Str) :
    candidates (ws.flatMap (· ++ crlf) ++ s) = ws ++ candidates s := by
  induction ws with
  | nil => rfl
  | cons w ws ih =>
    obtain ⟨hw, hne⟩ := hws w List.mem_cons_self
    rw [List.flatMap_cons, List.append_assoc, candidates_framed hw hne,
      ih fun w hw => hws w (List.mem_cons_of_mem _ hw)]
    rfl

theorem expected_short {ls : List Str} (h : ∀ l ∈ ls, l.length < workbufSz) (destmax n : Nat) :
    expected destmax ls n = (ls.map (deliver destmax)).take n := by
  have hall : ls.takeWhile (fun l => decide (l.length < workbufSz)) = ls :=
    List.takeWhile_eq_self_iff.2 fun l hl => decide_eq_true (h l hl)
  rw [expected, hall]
  simp

end Streams

/-- However the bytes are taken and however they arrive, the other side gets in their order the
lines whose writes succeeded, each of them once, and after those at most the first one that did
not get through. Nothing is written behind that one. -/
theorem lines_transferred {ls : List Str} (hls : ∀ line ∈ ls, Sendable line) (shnd : Bool)
    (sink : Sink) :
    ∃ k, k ≤ ls.length ∧
      ((writeAll ls ⟨true, shnd, sink, []⟩).1 = List.replicate k true ∨
        (writeAll ls ⟨true, shnd, sink, []⟩).1 =
          List.replicate k true ++ List.replicate (ls.length - k) false) ∧
      (∃ rest, (writeAll ls ⟨true, shnd, sink, []⟩).2.wire = (ls.take k).flatMap framed ++ rest ∧
        (rest = [] ∨ ∃ line ∈ ls[k]?, rest <+: framed line)) ∧
      ∀ src, Quiet src → Source.bytes src <+: (writeAll ls ⟨true, shnd, sink, []⟩).2.wire →
        ∃ m, m ≤ k + 1 ∧
          (∀ destmax n, (results destmax n .init src).2 =
            ((ls.take m).map fun line => deliver destmax (body line)).take n) ∧
          (Source.bytes src = (writeAll ls ⟨true, shnd, sink, []⟩).2.wire → k ≤ m) := by
  have hfits : ∀ line ∈ ls, (framed line).length ≤ LONG_MAX := by
    intro line hline
    have hlen := (hls line hline).fits
    rw [framed_eq, List.length_append]
    have hmax : workbufSz + crlf.length ≤ LONG_MAX := by decide
    omega
  obtain ⟨k, hk, hoks, rest, hwire, hrest⟩ :=
    @writeAll_sent ls hfits ⟨true, shnd, sink, []⟩ rfl
  rw [List.nil_append] at hwire
  refine ⟨k, hk, hoks, ⟨rest, hwire, hrest⟩, fun src hquiet hsrc => ?_⟩
  have hbodies : ∀ w ∈ (ls.take (k + 1)).map body, Plain w ∧ w ≠ [] ∧ w.length < workbufSz := by
    intro w hw
    obtain ⟨line, hline, rfl⟩ := List.mem_map.1 hw
    have hsend := hls line (List.mem_of_mem_take hline)
    exact ⟨hsend.plain, hsend.ne_nil, hsend.fits⟩
  have hflat : ∀ ls : List Str, ls.flatMap framed = (ls.map body).flatMap (· ++ crlf) := by
    intro ls
    rw [List.flatMap_map]
    exact congrArg (fun f => ls.flatMap f) (funext framed_eq)
  rw [hwire] at hsrc ⊢
  have hpre : (ls.take k).flatMap framed ++ rest <+: (ls.take (k + 1)).flatMap framed := by
    rw [List.take_add_one, List.flatMap_append]
    obtain rfl | ⟨line, hline, hpart⟩ := hrest
    · rw [List.append_nil]
      exact List.prefix_append _ _
    · rw [Option.mem_def.1 hline, Option.toList_some, List.flatMap_singleton]
      exact (List.prefix_append_right_inj _).2 hpart
  rw [hflat (ls.take (k + 1))] at hpre
  obtain ⟨m, hm, hcand⟩ := candidates_prefix hbodies (hsrc.trans hpre)
  rw [List.length_map, List.length_take] at hm
  rw [← List.map_take, List.take_take, Nat.min_eq_left (by omega)] at hcand
  refine ⟨m, by omega, fun destmax n => ?_, fun hall => ?_⟩
  · have hshort : ∀ l ∈ (ls.take m).map body, l.length < workbufSz := by
      intro l hl
      obtain ⟨line, hline, rfl⟩ := List.mem_map.1 hl
      exact (hls line (List.mem_of_mem_take hline)).fits
    rw [(results_of_stream destmax n src hquiet).1, hcand, expected_short hshort, List.map_map]
    rfl
  · have hwhole : ∀ w ∈ (ls.take k).map body, Plain w ∧ w ≠ [] := by
      intro w hw
      obtain ⟨line, hline, rfl⟩ := List.mem_map.1 hw
      have hsend := hls line (List.mem_of_mem_take hline)
      exact ⟨hsend.plain, hsend.ne_nil⟩
    rw [hall, hflat, candidates_whole hwhole] at hcand
    have hlen := congrArg List.length hcand
    simp only [List.length_append, List.length_map, List.length_take] at hlen
    omega

def jammed : Sink := [.takes 2, .busy 1, .takes 6, .busy 1, .takes 100, .takes 0, .failure]

def greeting : List Str := [ascii "NICK a\r\n", ascii "JOIN #b", ascii "QUIT"]

theorem lines_transferred_jammed :
    ∃ k, k ≤ greeting.length ∧
      ((writeAll greeting ⟨true, true, jammed, []⟩).1 = List.replicate k true ∨
        (writeAll greeting ⟨true, true, jammed, []⟩).1 =
          List.replicate k true ++ List.replicate (greeting.length - k) false) ∧
      (∃ rest, (writeAll greeting ⟨true, true, jammed, []⟩).2.wire =
          (greeting.take k).flatMap framed ++ rest ∧
        (rest = [] ∨ ∃ line ∈ greeting[k]?, rest <+: framed line)) ∧
      ∀ src, Quiet src → Source.bytes src <+: (writeAll greeting ⟨true, true, jammed, []⟩).2.wire →
        ∃ m, m ≤ k + 1 ∧
          (∀ destmax n, (results destmax n .init src).2 =
            ((greeting.take m).map fun line => deliver destmax (body line)).take n) ∧
          (Source.bytes src = (writeAll greeting ⟨true, true, jammed, []⟩).2.wire → k ≤ m) := by
  refine lines_transferred ?_ true jammed
  have hall : ∀ line ∈ greeting, (∀ c ∈ body line, isDelim c = false) ∧ body line ≠ [] ∧
      (body line).length < workbufSz := by decide +kernel
  exact fun line hline => ⟨(hall line hline).1, (hall line hline).2.1, (hall line hline).2.2⟩

example : writeAll greeting ⟨true, true, jammed, []⟩ = ([true, false, false],
    ⟨false, true, [], ascii "NICK a\r\nJOIN #b\r"⟩) := by rfl

end Srsirc.Transfer
