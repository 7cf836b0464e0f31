import Srsirc.Connect
import Srsirc.Fallible

namespace Srsirc.LogonBuffer

open CharMap Message Context Conn Connect Fallible

def INT_MAX : Nat := 2 ^ 31 - 1

/-- The variables of `send_logon`: the string in `aBuf`, and where it goes on. -/
structure Buf where
  text : Str
  pBuf : Int
  rem : Int
  deriving DecidableEq

def Buf.init : Buf := ⟨[], 0, 512⟩

/-- What `snprintf` returns, which fails where an `int` cannot tell the length. -/
def told (s : Str) : Int := if s.length ≤ INT_MAX then s.length else -1

/-- `r = snprintf(pBuf, rem, ..)`. -/
def Buf.snprintf (b : Buf) (s : Str) : Except Fault (Int × Buf) :=
  if b.pBuf < 0 then .error .overrun
  else .ok (told s, { b with text := b.text.take b.pBuf.toNat ++ s.take (b.rem - 1).toNat })

def Buf.advance (b : Buf) (r : Int) : Buf :=
  let r := if b.rem < r then b.rem else r
  { b with pBuf := b.pBuf + r, rem := b.rem - r }

def Buf.append (b : Buf) (s : Str) : Except Fault Buf :=
  (b.snprintf s).map fun r => r.2.advance r.1

def Buf.finish (b : Buf) (s : Str) : Except Fault (Option Str) := do
  let (r, b) ← b.snprintf s
  if b.rem < r then .ok none else .ok (some b.text)

def capLine (irc : Irc) : Str := if irc.v3caps = [] then [] else ascii "CAP LS 302" ++ crlf

def passLine (irc : Irc) : Str :=
  match irc.pass with
  | none => []
  | some pass => if pass = [] then [] else ascii "PASS :" ++ pass ++ crlf

def Buf.appendCaps (b : Buf) (irc : Irc) : Except Fault Buf :=
  if irc.v3caps = [] then .ok b else b.append (ascii "CAP LS 302" ++ crlf)

def Buf.appendPass (b : Buf) (irc : Irc) : Except Fault Buf :=
  match irc.pass with
  | none => .ok b
  | some pass => if pass = [] then .ok b else b.append (ascii "PASS :" ++ pass ++ crlf)

/-- What `send_logon` hands to `irc_write`, if it does. -/
def handed (irc : Irc) : Except Fault (Option Str) :=
  if !irc.con.online then .ok none
  else do
    let b ← Buf.init.appendCaps irc
    if b.rem = 0 then .ok none
    else do
      let b ← b.appendPass irc
      if b.rem = 0 then .ok none else b.finish (registration irc)

def sequence (irc : Irc) : Str := logonIntro irc ++ registration irc

/-- All of the sequence is written if it is shorter than the buffer, and else nothing. -/
def Whole (irc : Irc) : Prop :=
  handed irc = .ok (if (sequence irc).length < 512 then some (sequence irc) else none)

/-- The sequence does not fill the buffer to the last byte, and no piece of it that is formatted
is longer than an `int` can tell; if the password is, the code fails as it should just if it goes
on behind the capabilities with a registration that does not fit. -/
def Regular (irc : Irc) : Prop :=
  if (passLine irc).length ≤ INT_MAX then
    512 ≤ (logonIntro irc).length ∨ (registration irc).length ≤ INT_MAX ∧
      (sequence irc).length ≠ 512
  else irc.v3caps ≠ [] ∧ 501 < (registration irc).length ∧ (registration irc).length ≤ INT_MAX

instance : DecidablePred Regular := fun _ => inferInstanceAs (Decidable (ite _ _ _))

theorem logonIntro_eq (irc : Irc) : logonIntro irc = capLine irc ++ passLine irc := rfl

def room (text : Str) : Buf := ⟨text, text.length, 512 - text.length⟩

theorem told_of_le {s : Str} (h : s.length ≤ INT_MAX) : told s = s.length := if_pos h

theorem told_of_not_le {s : Str} (h : ¬s.length ≤ INT_MAX) : told s = -1 := if_neg h

theorem advance_eq {b : Buf} {r : Int} (h : r ≤ b.rem) :
    b.advance r = { b with pBuf := b.pBuf + r, rem := b.rem - r } := by
  rw [Buf.advance, if_neg (Int.not_lt.2 h)]

theorem advance_full {b : Buf} {r : Int} (h : b.rem ≤ r) : (b.advance r).rem = 0 := by
  rw [Buf.advance]
  dsimp only
  split
  · exact Int.sub_self _
  · omega

theorem finish_eq {b : Buf} (h : 0 ≤ b.pBuf) (hr : 0 ≤ b.rem) (s : Str) : b.finish s =
    .ok (if s.length ≤ INT_MAX ∧ b.rem < s.length then none
      else some (b.text.take b.pBuf.toNat ++ s.take (b.rem - 1).toNat)) := by
  rw [Buf.finish, Buf.snprintf, if_neg (Int.not_lt.2 h), ok_bind]
  dsimp only
  by_cases hint : s.length ≤ INT_MAX
  · rw [told_of_le hint]
    by_cases hlt : b.rem < s.length
    · rw [if_pos hlt, if_pos ⟨hint, hlt⟩]
    · rw [if_neg hlt, if_neg fun h => hlt h.2]
  · rw [told_of_not_le hint, if_neg (by omega), if_neg fun h => hint h.1]

section Room

variable {text s : Str}

theorem room_append_eq (text s : Str) : (room text).append s = .ok
    (Buf.advance ⟨text ++ s.take (511 - text.length), text.length,
      512 - text.length⟩ (told s)) := by
  have htake : (512 - (text.length : Int) - 1).toNat = 511 - text.length := by omega
  rw [Buf.append, Buf.snprintf, room, if_neg (Int.not_lt.2 (Int.natCast_nonneg _)), htake,
    Int.toNat_natCast, List.take_length]
  rfl

theorem room_append (h : text.length + s.length < 512) :
    (room text).append s = .ok (room (text ++ s)) := by
  have hint : s.length ≤ INT_MAX := by
    rw [INT_MAX]
    omega
  have hle : (s.length : Int) ≤ 512 - text.length := by omega
  rw [room_append_eq, told_of_le hint, advance_eq hle, List.take_of_length_le (by omega), room,
    List.length_append, Int.natCast_add, Int.sub_sub]

theorem room_append_full (hint : s.length ≤ INT_MAX) (h : 512 ≤ text.length + s.length) :
    ∃ b, (room text).append s = .ok b ∧ b.rem = 0 := by
  rw [room_append_eq, told_of_le hint]
  refine ⟨_, rfl, advance_full ?_⟩
  show (512 : Int) - text.length ≤ s.length
  omega

/-- What is too long for an `int` takes the last byte of the text away, and leaves room. -/
theorem room_append_failed (hint : ¬s.length ≤ INT_MAX) (ht : text.length < 512) :
    ∃ b, (room text).append s = .ok b ∧ b.pBuf = text.length - 1 ∧ b.rem = 513 - text.length := by
  have hle : (-1 : Int) ≤ 512 - text.length := by omega
  rw [room_append_eq, told_of_not_le hint, advance_eq hle]
  refine ⟨_, rfl, rfl, ?_⟩
  show (512 : Int) - text.length - -1 = 513 - text.length
  omega

end Room

theorem finish_room {text : Str} (ht : text.length < 512) (s : Str) : (room text).finish s =
    .ok (if s.length ≤ INT_MAX ∧ 512 < (text ++ s).length then none
      else some (text ++ s.take (511 - text.length))) := by
  have htake : ((room text).rem - 1).toNat = 511 - text.length := by
    simp only [room]
    omega
  have hlt : (room text).rem < s.length ↔ 512 < (text ++ s).length := by
    rw [List.length_append]
    simp only [room]
    omega
  rw [finish_eq (Int.natCast_nonneg _) (show (0 : Int) ≤ 512 - text.length by omega), htake]
  simp only [hlt]
  simp [room]

theorem capLine_length (irc : Irc) : (capLine irc).length ≤ 12 := by
  rw [capLine]
  split <;> decide

theorem handed_eq {irc : Irc} (h : irc.con.online = true) : handed irc =
    (room (capLine irc)).append (passLine irc) >>= fun b =>
      if b.rem = 0 then .ok none else b.finish (registration irc) := by
  have hcap := capLine_length irc
  have hrem : (room (capLine irc)).rem ≠ 0 := by
    simp only [room]
    omega
  have hcaps : Buf.init.appendCaps irc = .ok (room (capLine irc)) := by
    rw [Buf.appendCaps, capLine]
    split
    · rfl
    · exact @room_append [] _ (by decide)
  have hsame : (room (capLine irc)).append [] = .ok (room (capLine irc)) := by
    rw [room_append (by rw [List.length_nil]; omega), List.append_nil]
  have hpass :
      (room (capLine irc)).appendPass irc = (room (capLine irc)).append (passLine irc) := by
    rw [Buf.appendPass, passLine]
    cases irc.pass with
    | none => exact hsame.symm
    | some pass =>
      dsimp only
      split
      · exact hsame.symm
      · rfl
  rw [handed, h, Bool.not_true, if_neg Bool.false_ne_true, hcaps, ok_bind, if_neg hrem, hpass]

variable {irc : Irc}

theorem sequence_length (irc : Irc) :
    (sequence irc).length =
      (capLine irc).length + (passLine irc).length + (registration irc).length := by
  rw [sequence, logonIntro_eq, List.length_append, List.length_append]

theorem whole_iff_of_room (h : irc.con.online = true) (hroom : (logonIntro irc).length < 512) :
    Whole irc ↔ (registration irc).length ≤ INT_MAX ∧ (sequence irc).length ≠ 512 := by
  have hlen : (sequence irc).length = (logonIntro irc).length + (registration irc).length :=
    List.length_append
  have happend : (room (capLine irc)).append (passLine irc) = .ok (room (logonIntro irc)) :=
    room_append (by rwa [← List.length_append])
  have hrem : (room (logonIntro irc)).rem ≠ 0 := by
    simp only [room]
    omega
  rw [Whole, handed_eq h, happend, ok_bind, if_neg hrem, finish_room hroom, ← sequence]
  by_cases hint : (registration irc).length ≤ INT_MAX
  · simp only [hint, true_and]
    obtain hlt | heq | hgt := Nat.lt_trichotomy (sequence irc).length 512
    · rw [if_neg (Nat.lt_asymm hlt), if_pos hlt, List.take_of_length_le (by omega)]
      exact ⟨fun _ => hlt.ne, fun _ => rfl⟩
    · rw [heq, if_neg (Nat.lt_irrefl _), if_neg (Nat.lt_irrefl _)]
      exact ⟨fun h => (nomatch h), fun h => absurd rfl h⟩
    · rw [if_pos hgt, if_neg (Nat.lt_asymm hgt)]
      exact ⟨fun _ => hgt.ne', fun _ => rfl⟩
  · have hge : ¬(sequence irc).length < 512 := by
      rw [INT_MAX] at hint
      omega
    simp only [hint, false_and, if_false, iff_false, if_neg hge]
    intro h
    cases h

theorem whole_of_full (h : irc.con.online = true) (hint : (passLine irc).length ≤ INT_MAX)
    (hfull : 512 ≤ (logonIntro irc).length) : Whole irc := by
  have hge : ¬(sequence irc).length < 512 := by
    rw [sequence, List.length_append]
    omega
  rw [logonIntro_eq, List.length_append] at hfull
  obtain ⟨b, hb, hrem⟩ := room_append_full hint hfull
  rw [Whole, handed_eq h, hb, ok_bind, if_pos hrem, if_neg hge]

theorem whole_iff_of_failed (h : irc.con.online = true) (hint : ¬(passLine irc).length ≤ INT_MAX) :
    Whole irc ↔ irc.v3caps ≠ [] ∧ 501 < (registration irc).length ∧
      (registration irc).length ≤ INT_MAX := by
  have hcap := capLine_length irc
  have hge : ¬(sequence irc).length < 512 := by
    rw [sequence_length]
    rw [INT_MAX] at hint
    omega
  obtain ⟨b, hb, hp, hrem⟩ := @room_append_failed (capLine irc) _ hint (by omega)
  have hrem0 : b.rem ≠ 0 := by omega
  rw [Whole, handed_eq h, hb, ok_bind, if_neg hrem0, if_neg hge]
  by_cases hcaps : irc.v3caps = []
  · have hneg : b.pBuf < 0 := by
      rw [hp, capLine, if_pos hcaps]
      decide
    rw [Buf.finish, Buf.snprintf, if_pos hneg]
    exact ⟨fun h => (nomatch h), fun h => absurd hcaps h.1⟩
  · have hlen : (capLine irc).length = 12 := by
      rw [capLine, if_neg hcaps]
      rfl
    rw [hlen] at hp hrem
    rw [finish_eq (by omega) (by omega), hrem]
    split
    · next hfull => exact ⟨fun _ => ⟨hcaps, by omega, hfull.1⟩, fun _ => rfl⟩
    · next hfull =>
      refine ⟨fun h => (nomatch h), fun h => absurd ⟨h.2.2, ?_⟩ hfull⟩
      omega

/-- The logon sequence is written as a whole or not at all just if it is regular. -/
theorem logon_whole_iff (irc : Irc) (honline : irc.con.online = true) :
    handed irc = .ok (if (sequence irc).length < 512 then some (sequence irc) else none) ↔
      Regular irc := by
  rw [← Whole, Regular]
  split
  · next hint =>
    by_cases hfull : 512 ≤ (logonIntro irc).length
    · exact ⟨fun _ => Or.inl hfull, fun _ => whole_of_full honline hint hfull⟩
    · refine (whole_iff_of_room honline (Nat.lt_of_not_le hfull)).trans ?_
      exact ⟨Or.inr, fun h => h.resolve_left hfull⟩
  · next hint => exact whole_iff_of_failed honline hint

def online (fname : Str) : Irc :=
  let irc := ircInit (0, 0) [] (serving [])
  { irc with con := { irc.con with online := true }, fname }

theorem logon_whole_sample :
    let irc := online (ascii "serious business irc")
    handed irc = .ok (if (sequence irc).length < 512 then some (sequence irc) else none) :=
  (logon_whole_iff (online (ascii "serious business irc")) rfl).2 (by decide +kernel)

/-- A sequence of 512 bytes. -/
theorem logon_cut_short : (sequence (online (List.replicate 479 0x61))).length = 512 ∧
    handed (online (List.replicate 479 0x61)) =
      .ok (some (sequence (online (List.replicate 479 0x61))).dropLast) ∧
      ¬Whole (online (List.replicate 479 0x61)) := by
  have hlen : (sequence (online (List.replicate 479 0x61))).length = 512 := by decide +kernel
  have hcut : (handed (online (List.replicate 479 0x61))).toOption.any
      (· = some (sequence (online (List.replicate 479 0x61))).dropLast) = true := by decide +kernel
  obtain ⟨line, hline, hsome⟩ := ok_of_toOption hcut
  rw [of_decide_eq_true hsome] at hline
  refine ⟨hlen, hline, fun h => ?_⟩
  rw [Whole, hline, hlen, if_neg (Nat.lt_irrefl _)] at h
  cases h

/-- What the buffer comes to is what is sent, as long as an `int` can tell all lengths. -/
theorem sendLogon_eq (hpass : (passLine irc).length ≤ INT_MAX)
    (hreg : (registration irc).length ≤ INT_MAX) :
    handed irc = .ok none ∧ sendLogon irc = (false, irc) ∨
      ∃ line, handed irc = .ok (some line) ∧ sendLogon irc = ircWrite irc line := by
  rw [sendLogon]
  cases honline : irc.con.online with
  | false =>
    refine Or.inl ⟨?_, rfl⟩
    rw [handed, honline]
    rfl
  | true =>
    rw [Bool.not_true, if_neg Bool.false_ne_true]
    by_cases hfull : 512 ≤ (logonIntro irc).length
    · have hge : ¬(sequence irc).length < 512 := by
        rw [sequence, List.length_append]
        omega
      have hwhole := whole_of_full honline hpass hfull
      rw [Whole, if_neg hge] at hwhole
      exact Or.inl ⟨hwhole, if_pos hfull⟩
    · have happend : (room (capLine irc)).append (passLine irc) = .ok (room (logonIntro irc)) :=
        room_append (by rw [← List.length_append]; exact Nat.lt_of_not_le hfull)
      have hrem : (room (logonIntro irc)).rem ≠ 0 := by
        simp only [room]
        omega
      rw [handed_eq honline, happend, ok_bind, if_neg hrem, finish_room (Nat.lt_of_not_le hfull),
        if_neg hfull]
      simp only [hreg, true_and]
      split
      · exact Or.inl ⟨rfl, rfl⟩
      · refine Or.inr ⟨_, rfl, congrArg _ ?_⟩
        rw [CoreHandlers.snprintf, List.take_append, List.take_of_length_le (by omega)]

end Srsirc.LogonBuffer
