import Mathlib.Data.List.DropRight
import Srsirc.Conn

namespace Srsirc.Outgoing

open CharMap Conn Context

/-- What a `send` or `SSL_write` runs into. It takes at least one byte. Where it would block,
`sel` is what `lsi_b_select` then returns. -/
inductive Intake
  | takes (n : Nat)
  | busy (sel : Int)
  | failure

/-- What is still to happen; past its end nothing is taken any more. -/
abbrev Sink := List Intake

def LONG_MAX : Nat := 2 ^ 63 - 1

/-- The loop that writes `buf`, of which `bc` bytes are written. `goesOn` tells whether it goes
on after a `select`. There is no return value where it never ends. -/
def writeLoop (goesOn : Int → Bool) (buf : Str) (bc : Nat) : Sink → Option Int × Nat × Sink
  | [] => (if bc < buf.length then none else some (min bc LONG_MAX : Nat), bc, [])
  | x :: sink =>
    if bc < buf.length then
      match x with
      | .takes n => writeLoop goesOn buf (min (bc + (n + 1)) buf.length) sink
      | .busy sel => if goesOn sel then writeLoop goesOn buf bc sink else (some (-1), bc, sink)
      | .failure => (some (-1), bc, sink)
    else (some (min bc LONG_MAX : Nat), bc, x :: sink)

/-- `lsi_b_write`, which tries again at once. -/
def bWrite : Str → Nat → Sink → Option Int × Nat × Sink := writeLoop fun _ => true

/-- `lsi_b_write_ssl`, which waits for the socket. -/
def bWriteSsl : Str → Nat → Sink → Option Int × Nat × Sink := writeLoop fun sel => 0 < sel

structure Outlet where
  online : Bool
  shnd : Bool
  sink : Sink
  wire : Str

/-- `lsi_io_write`, on top of `send_wrap`. -/
def ioWrite (buf : Str) (o : Outlet) : Option Bool × Outlet :=
  let (r, bc, sink) := (if o.shnd then bWriteSsl else bWrite) buf 0 o.sink
  (r.map fun r : Int => decide (r = buf.length), { o with sink, wire := o.wire ++ buf.take bc })

/-- `lsi_conn_write_raw` -/
def writeRaw (buf : Str) (o : Outlet) : Option Bool × Outlet :=
  if !o.online then (some false, o)
  else
    match ioWrite buf o with
    | (some false, o) => (some false, { o with online := false })
    | r => r

/-- `lsi_conn_write` -/
def writeLine (line : Str) (o : Outlet) : Option Bool × Outlet :=
  match writeRaw line o with
  | (some true, o) => writeRaw (if crlf <:+ line then [] else crlf) o
  | r => r

def writeAll : List Str → Outlet → List Bool × Outlet
  | [], o => ([], o)
  | line :: ls, o =>
    match writeLine line o with
    | (none, o) => ([], o)
    | (some ok, o) =>
      let (oks, o) := writeAll ls o
      (ok :: oks, o)

/-- How a write that does not get everything out can end: it hangs, or the connection is
given up. -/
def Cut (online : Bool) : Option Bool → Prop
  | none => online = true
  | some ok => ok = false ∧ online = false

inductive Written (o : Outlet) (buf : Str) : Option Bool × Outlet → Prop
  | whole (sink : Sink) : Written o buf (some true, { o with sink, wire := o.wire ++ buf })
  | part {r : Option Bool} {online : Bool} (sink : Sink) {n : Nat} (hn : n < buf.length)
      (hr : Cut online r) :
      Written o buf (r, { o with online, sink, wire := o.wire ++ buf.take n })

inductive Looped (buf : Str) : Option Int × Nat × Sink → Prop
  | whole (sink : Sink) : Looped buf (some buf.length, buf.length, sink)
  | part {r : Option Int} (hr : r = none ∨ r = some (-1)) {n : Nat} (hn : n < buf.length)
      (sink : Sink) : Looped buf (r, n, sink)

theorem writeLoop_looped (goesOn : Int → Bool) {buf : Str} (hbuf : buf.length ≤ LONG_MAX)
    (sink : Sink) {bc : Nat} (hbc : bc ≤ buf.length) :
    Looped buf (writeLoop goesOn buf bc sink) := by
  have hwhole : ∀ {bc : Nat} (sink : Sink), bc ≤ buf.length → ¬bc < buf.length →
      Looped buf (some (min bc LONG_MAX : Nat), bc, sink) := by
    intro bc sink hle hlt
    obtain rfl : bc = buf.length := by omega
    rw [Nat.min_eq_left hbuf]
    exact .whole sink
  induction sink generalizing bc with
  | nil =>
    rw [writeLoop]
    split
    · next hlt => exact .part (.inl rfl) hlt []
    · next hlt => exact hwhole [] hbc hlt
  | cons x sink ih =>
    rw [writeLoop.eq_def]
    dsimp only
    split
    · next hlt =>
      cases x with
      | takes n => exact ih (Nat.min_le_right _ _)
      | busy sel =>
        dsimp only
        split
        · exact ih hbc
        · exact .part (.inr rfl) hlt sink
      | failure => exact .part (.inr rfl) hlt sink
    · next hlt => exact hwhole _ hbc hlt

theorem writeRaw_written {o : Outlet} (hon : o.online = true) {buf : Str}
    (hbuf : buf.length ≤ LONG_MAX) : Written o buf (writeRaw buf o) := by
  have hloop : Looped buf ((if o.shnd then bWriteSsl else bWrite) buf 0 o.sink) := by
    cases o.shnd <;> exact writeLoop_looped _ hbuf o.sink (Nat.zero_le _)
  rw [writeRaw, if_neg (by simp [hon]), ioWrite]
  generalize (if o.shnd then bWriteSsl else bWrite) buf 0 o.sink = r at hloop
  cases hloop with
  | whole sink =>
    simp only [Option.map_some, decide_true, List.take_length]
    exact .whole sink
  | part hr hn sink =>
    obtain rfl | rfl := hr
    · have hhangs : Cut o.online none := hon
      exact .part sink hn hhangs
    · have hbad : decide ((-1 : Int) = buf.length) = false := decide_eq_false (by omega)
      simp only [Option.map_some, hbad]
      have hfails : Cut false (some false) := ⟨rfl, rfl⟩
      exact .part sink hn hfails

def framed (line : Str) : Str := line ++ if crlf <:+ line then [] else crlf

theorem writeLine_written {o : Outlet} (hon : o.online = true) {line : Str}
    (hlen : (framed line).length ≤ LONG_MAX) : Written o (framed line) (writeLine line o) := by
  rw [framed] at hlen ⊢
  generalize hrest : (if crlf <:+ line then [] else crlf) = rest at hlen ⊢
  rw [List.length_append] at hlen
  have hfirst : Written o line (writeRaw line o) := writeRaw_written hon (by omega)
  rw [writeLine, hrest]
  generalize writeRaw line o = r at hfirst
  cases hfirst with
  | whole sink =>
    have hon' : { o with sink, wire := o.wire ++ line }.online = true := hon
    have hsecond := @writeRaw_written _ hon' rest (by omega)
    dsimp only
    generalize writeRaw rest { o with sink, wire := o.wire ++ line } = r at hsecond
    cases hsecond with
    | whole sink' =>
      rw [List.append_assoc]
      exact .whole sink'
    | @part r online sink' n hn hr =>
      have htake : line ++ rest.take n = (line ++ rest).take (line.length + n) := by
        rw [List.take_length_add_append]
      rw [List.append_assoc, htake]
      exact .part sink' (by rw [List.length_append]; omega) hr
  | @part r online sink n hn hr =>
    have htake : line.take n = (line ++ rest).take n :=
      (List.take_append_of_le_length (Nat.le_of_lt hn)).symm
    have hcut : Written o (line ++ rest)
        (r, { o with online, sink, wire := o.wire ++ line.take n }) := by
      rw [htake]
      exact .part sink (by rw [List.length_append]; omega) hr
    cases r with
    | none => exact hcut
    | some ok =>
      obtain ⟨rfl, rfl⟩ := hr
      exact hcut

theorem writeAll_offline {o : Outlet} (hoff : o.online = false) (ls : List Str) :
    writeAll ls o = (List.replicate ls.length false, o) := by
  induction ls with
  | nil => rfl
  | cons line ls ih =>
    rw [writeAll, writeLine, writeRaw, if_pos (by simp [hoff])]
    dsimp only
    rw [ih]
    rfl

/-- What has come out of writing some lines: the first `k` of them, and a part of the next one
if that did not get through. Nothing is written after that. -/
structure Sent (wire : Str) (ls : List Str) (oks : List Bool) (wire' : Str) (k : Nat) : Prop where
  le : k ≤ ls.length
  oks : oks = List.replicate k true ∨
    oks = List.replicate k true ++ List.replicate (ls.length - k) false
  wire : ∃ rest, wire' = wire ++ (ls.take k).flatMap framed ++ rest ∧
    (rest = [] ∨ ∃ line ∈ ls[k]?, rest <+: framed line)

theorem writeAll_sent (ls : List Str) (hlen : ∀ line ∈ ls, (framed line).length ≤ LONG_MAX)
    {o : Outlet} (hon : o.online = true) :
    ∃ k, Sent o.wire ls (writeAll ls o).1 (writeAll ls o).2.wire k := by
  induction ls generalizing o with
  | nil => exact ⟨0, Nat.le_refl _, .inl rfl, [], by simp [writeAll], .inl rfl⟩
  | cons line ls ih =>
    have hw := writeLine_written hon (hlen line List.mem_cons_self)
    rw [writeAll]
    generalize writeLine line o = r at hw
    cases hw with
    | whole sink =>
      obtain ⟨k, hle, hoks, rest, hwire, hrest⟩ :=
        ih (fun l hl => hlen l (List.mem_cons_of_mem _ hl))
          (o := { o with sink, wire := o.wire ++ framed line }) hon
      refine ⟨k + 1, by simpa using hle, ?_, rest, ?_, by simpa using hrest⟩
      · obtain hoks | hoks := hoks
        · exact .inl (by simp [hoks, List.replicate_succ])
        · exact .inr (by simp [hoks, List.replicate_succ])
      · rw [hwire, List.take_succ_cons, List.flatMap_cons]
        simp only [List.append_assoc]
    | @part r online sink n hn hr =>
      have hsent : ∀ oks, (oks = [] ∨ oks = List.replicate (ls.length + 1) false) →
          Sent o.wire (line :: ls) oks (o.wire ++ (framed line).take n) 0 := by
        intro oks hoks
        refine ⟨Nat.zero_le _, hoks.imp id id, (framed line).take n, by simp, .inr ⟨line, ?_, ?_⟩⟩
        · rfl
        · exact List.take_prefix _ _
      cases r with
      | none => exact ⟨0, hsent [] (.inl rfl)⟩
      | some ok =>
        obtain ⟨rfl, rfl⟩ := hr
        refine ⟨0, ?_⟩
        dsimp only
        rw [writeAll_offline rfl]
        exact hsent _ (.inr rfl)

section Refinement

variable {con : Iconn} {o o' : Outlet} {buf line : Str} {ok : Bool}

def answering (con : Iconn) (answers : List Bool) : Iconn :=
  { con with world := { con.world with write := answers } }

/-- The connection tells what the loop has done, as far as the writes that succeeded. -/
structure Tells (con : Iconn) (o : Outlet) (con' : Iconn) (o' : Outlet) (ok : Bool) : Prop where
  online : con'.online = o'.online
  sent : ∃ bufs, con'.sent = con.sent ++ bufs ∧
    o.wire ++ (bufs.map Prod.snd).flatten <+: o'.wire ∧
    (ok = true → o'.wire = o.wire ++ (bufs.map Prod.snd).flatten)

theorem writeRaw_refined (hon : con.online = o.online) (h : writeRaw buf o = (some ok, o'))
    (hbuf : buf.length ≤ LONG_MAX) (answers : List Bool) :
    ∃ con', connWriteRaw (answering con (ok :: answers)) buf = (ok, con') ∧
      Tells con o con' o' ok ∧ (ok = true → con'.world.write = answers) := by
  cases hup : o.online with
  | false =>
    rw [writeRaw, if_pos (by simp [hup])] at h
    cases h
    refine ⟨_, if_pos (by simp [answering, hon, hup]), ⟨hon, [], ?_⟩, by simp⟩
    simp [answering]
  | true =>
    have hw := writeRaw_written hup hbuf
    rw [h] at hw
    have hneg : ¬ (!(answering con (ok :: answers)).online) = true := by simp [answering, hon, hup]
    cases hw with
    | whole sink =>
      exact ⟨_, if_neg hneg, ⟨hon, [(con.shnd, buf)], rfl, by simp, by simp⟩, fun _ => rfl⟩
    | part sink hn hr =>
      obtain ⟨rfl, rfl⟩ := hr
      exact ⟨_, if_neg hneg, ⟨rfl, [], by simp [connReset, answering], by simp, by simp⟩, by simp⟩

theorem Tells.trans {con₁ con₂ : Iconn} {o₁ o₂ : Outlet} (h : Tells con o con₁ o₁ true)
    (h' : Tells con₁ o₁ con₂ o₂ ok) : Tells con o con₂ o₂ ok := by
  obtain ⟨-, bufs, hsent, -, hwire⟩ := h
  obtain ⟨hon, bufs', hsent', hpre, hwire'⟩ := h'
  refine ⟨hon, bufs ++ bufs', ?_, ?_, fun hok => ?_⟩
  · rw [hsent', hsent, List.append_assoc]
  · rwa [List.map_append, List.flatten_append, ← List.append_assoc, ← hwire rfl]
  · rw [hwire' hok, hwire rfl, List.map_append, List.flatten_append, List.append_assoc]

/-- What the connection is told about its writes is what they come to. -/
theorem writeLine_refined (hon : con.online = o.online) (h : writeLine line o = (some ok, o'))
    (hlen : (framed line).length ≤ LONG_MAX) :
    ∃ answers con', connWrite (answering con answers) line = (ok, con') ∧
      Tells con o con' o' ok := by
  rw [framed, List.length_append] at hlen
  rw [writeLine] at h
  cases hfirst : writeRaw line o with
  | mk r o₁ =>
    rw [hfirst] at h
    cases r with
    | none => cases h
    | some first =>
      obtain ⟨con₁, hcon₁, htells₁, hleft⟩ := writeRaw_refined hon hfirst (by omega) [ok]
      cases first with
      | false =>
        cases h
        refine ⟨[false, false], con₁, ?_, htells₁⟩
        rw [connWrite, hcon₁]
      | true =>
        obtain ⟨con₂, hcon₂, htells₂, -⟩ := writeRaw_refined htells₁.online h (by omega) []
        refine ⟨[true, ok], con₂, ?_, htells₁.trans htells₂⟩
        rw [connWrite, hcon₁, ← hcon₂, answering, ← hleft rfl]

end Refinement

end Srsirc.Outgoing
