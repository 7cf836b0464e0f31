import Srsirc.InputLines
import Srsirc.MainLoop

namespace Srsirc.Conveyance

open CharMap Fallible InputLines MainLoop Memory Message SendOrder SendQueue TerminatedLines
open UserInput UserMessage

section Saying

/-- What `handle_usermsg` queues for a line, which it gets in a buffer of 1024 bytes. -/
def spoken (sett : Sett) (line : Str) : Except Fault (List Str) :=
  (handleUsermsg sett (line.take 1023 ++ [0]) (Serv.init 0 0)).map Serv.outQ

def spokenAll (sett : Sett) : List Str → Except Fault (List Str)
  | [] => .ok []
  | line :: ls => do
    let said ← spoken sett line
    let rest ← spokenAll sett ls
    .ok (said ++ rest)

variable {sett : Sett} {said : List Str} {line : Str}

theorem printf_outQ (text : Str) (s : Serv) :
    (printf text s).2 = { s with outQ := s.outQ ++ [queuedLine text] } := by
  rw [printf, enqueue_eq]

theorem handleUsermsg_eq (sett : Sett) (ln : Mem) (s : Serv) : handleUsermsg sett ln s =
    ((handleUsermsg sett ln (Serv.init 0 0)).map Serv.outQ).map
      fun said => { s with outQ := s.outQ ++ said } := by
  have hsay : ∀ text, (.ok (printf text s).2 : Except Fault Serv) =
      ((Except.ok (printf text (Serv.init 0 0)).2 : Except Fault Serv).map Serv.outQ).map
        fun said => { s with outQ := s.outQ ++ said } := by
    intro text
    rw [printf_outQ, printf_outQ]
    rfl
  rw [handleUsermsg, handleUsermsg]
  generalize strip ln (cstr ln 0).length = ln
  split
  · simp [Except.map, Serv.init]
  · split
    · exact hsay _
    · split
      · split
        · rfl
        · next tok ln' _ =>
          cases strAt ln' (tok + (cstr ln' tok).length + 1) with
          | error e => rfl
          | ok text => exact hsay _
      · exact hsay _

end Saying

section Queue

variable {opt : Options} {s s' : Serv} {w w' : World}

end Queue

section Lines

variable {i i' : Input} {src src' : Stdin} {pre d post : Mem}

end Lines

section Rounds

variable {opt : Options} {src : Stdin} {l l' : Loop}

/-- A message that was read has a command, and a PRIVMSG that tells who sent it also has a
target and a text. -/
def Proper (rd : ServerRead) : Prop :=
  rd.ret = 1 → ∃ cmd, rd.tok.fld 1 = .ok cmd ∧
    (cmd = ascii "PRIVMSG" → rd.tok.present 0 = true →
      rd.tok.present 2 = true ∧ rd.tok.present 3 = true)

/-- The user's lines that were read have been said in that order, and then, if there are no more,
that we quit. -/
structure Conveys (opt : Options) (src : Stdin) (l : Loop) : Prop where
  proper : ∀ rd ∈ l.reads, Proper rd
  conveyed : ∃ ls s said, Ready l.input l.stdin s ∧
    lines newline src.bytes = ls ++ lines newline s ∧ spokenAll opt.user ls = .ok said ∧
    (accepted l.log).map Attempt.line ++ l.serv.outQ =
      said ++ (if l.ignoreuser then [queuedLine (quitLine opt)] else []) ∧
    (l.ignoreuser = true → lines newline s = [])

structure Alike (l l' : Loop) : Prop where
  input : l'.input = l.input
  stdin : l'.stdin = l.stdin
  ignoreuser : l'.ignoreuser = l.ignoreuser
  queue : (accepted l'.log).map Attempt.line ++ l'.serv.outQ =
    (accepted l.log).map Attempt.line ++ l.serv.outQ
  reads : ∀ rd ∈ l'.reads, rd ∈ l.reads

theorem Alike.refl (l : Loop) : Alike l l := ⟨rfl, rfl, rfl, rfl, fun _ h => h⟩

theorem Alike.trans {l'' : Loop} (h : Alike l l') (h' : Alike l' l'') : Alike l l'' :=
  ⟨h'.input.trans h.input, h'.stdin.trans h.stdin, h'.ignoreuser.trans h.ignoreuser,
    h'.queue.trans h.queue, fun rd hrd => h.reads rd (h'.reads rd hrd)⟩

theorem Conveys.alike (h : Conveys opt src l) (ha : Alike l l') : Conveys opt src l' := by
  obtain ⟨hproper, ls, s, said, hready, hlines, hsaid, hqueue, hended⟩ := h
  refine ⟨fun rd hrd => hproper rd (ha.reads rd hrd), ls, s, said, ?_, hlines, hsaid, ?_, ?_⟩
  · rwa [ha.input, ha.stdin]
  · rwa [ha.queue, ha.ignoreuser]
  · rwa [ha.ignoreuser]

end Rounds

def chatting : Options :=
  ⟨0, 0, [], false, ascii "#a", none, false, false, ascii "bye", 3000000, 0, false, true, true⟩

end Srsirc.Conveyance
