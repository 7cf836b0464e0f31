import Srsirc.CaseMapping
import Srsirc.CoreHandlers
import Srsirc.UserInput
import Srsirc.UserMessage

namespace Srsirc.MainLoop

open CharMap CoreHandlers Message SendQueue UserInput

structure Options where
  linedelay : Nat
  hbeatUs : Nat
  srvlist : List Str
  nojoin : Bool
  chanlist : Str
  esc : Option Str
  trgmode : Bool
  notices : Bool
  qmsg : Str
  waitquitUs : Nat
  cfwaitUs : Nat
  reconnect : Bool
  ignorePm : Bool
  ignoreCs : Bool

def Options.serv (opt : Options) : Settings :=
  ⟨opt.linedelay, opt.hbeatUs, opt.srvlist, opt.nojoin, opt.chanlist⟩

def Options.user (opt : Options) : UserMessage.Sett :=
  ⟨opt.esc, opt.trgmode, opt.notices, opt.chanlist⟩

inductive Hook
  | ping
  | pong
  | isupport (cm : CMap)

/-- What one `irc_read` does: the handlers it calls, what it returns, and the message. -/
structure ServerRead where
  hooks : List Hook
  ret : Int
  tok : Msg
  ret_mem : ret = -1 ∨ ret = 0 ∨ ret = 1

/-- What a `select` runs into: whether the connection is an SSL one, and whether it succeeds. -/
structure Selected where
  ssl : Bool
  ok : Bool

/-- A `select` at the time `now`, with its timeout, what that was derived from, and the lines that
had been tried by then. -/
structure Nap where
  now : Nat
  timeout : Nat
  tquit : Nat
  serv : Serv
  log : List Attempt

/-- All that the main loop works on. `log` has the lines of the queue that were tried, and `naps`
the times that the loop went to sleep. -/
structure Loop where
  serv : Serv
  world : World
  casemap : CMap
  input : Input
  stdin : Stdin
  reads : List ServerRead
  selects : List Selected
  ignoreuser : Bool
  nextop : Nat
  stdout : Str
  log : List Attempt
  naps : List Nap

/-- Where `icat_core_run` begins, with the first connection established. -/
def Loop.start (serv : Serv) (world : World) (stdin : Stdin) (reads : List ServerRead)
    (selects : List Selected) : Loop :=
  ⟨serv, world, .rfc1459, .init, stdin, reads, selects, false, 0, [], [], []⟩

/-- `icat_ismychan` -/
def ismychan (chanlist chan : Str) : Bool :=
  strstr ((ascii "," ++ chanlist ++ ascii ",").take 513) ((ascii "," ++ chan ++ ascii ",").take 511)

/-- `icat_user_printf`, on the text its format produces. -/
def userPrintf (text : Str) (stdout : Str) : Str := stdout ++ text.take 1023

/-- What `handle_ircmsg` prints, if it does. -/
def handleIrcmsg (opt : Options) (casemap : CMap) (tok : Msg) : Except Fault (Option Str) :=
  if !tok.present 0 then .ok none
  else do
    let ident ← tok.fld 0
    let nick := ident2nick 32 ident
    if opt.ignoreCs ∧ istrcmp nick (ascii "ChanServ") casemap = 0 then .ok none
    else do
      let dst ← tok.fld 2
      if opt.trgmode then do
        let text ← tok.fld 3
        .ok (some (nick ++ ascii " " ++ ident ++ ascii " " ++ dst ++ ascii " " ++ text ++ [0x0a]))
      else if ismychan opt.chanlist dst ∨ !opt.ignorePm then do
        let text ← tok.fld 3
        .ok (some (text ++ [0x0a]))
      else .ok none

def Hook.run (l : Loop) : Hook → Loop
  | .ping =>
    let (serv, world) := handlePING l.serv l.world
    { l with serv, world }
  | .pong => { l with serv := handlePONG l.serv }
  | .isupport casemap => { l with casemap }

def fromServer (opt : Options) (l : Loop) : Except Fault (Option Bool × Loop) :=
  if !l.serv.on then .ok (some true, l)
  else
    match l.reads with
    | [] => .ok (some true, { l with world := l.world.tick })
    | rd :: reads => do
      let l := rd.hooks.foldl Hook.run { l with reads, world := l.world.tick }
      let l := { l with serv := SendQueue.read rd.ret l.serv }
      if rd.ret < 0 then .ok (none, l)
      else if rd.ret = 1 then do
        let cmd ← rd.tok.fld 1
        if cmd = ascii "PRIVMSG" then do
          let text ← handleIrcmsg opt l.casemap rd.tok
          .ok (some false, { l with stdout := text.elim l.stdout (userPrintf · l.stdout) })
        else .ok (some false, l)
      else .ok (some true, l)

def quitLine (opt : Options) : Str := ascii "QUIT :" ++ opt.qmsg ++ ascii "\r\n"

def fromUser (opt : Options) (idle : Bool) (l : Loop) : Except Fault (Bool × Loop) :=
  if l.ignoreuser then .ok (idle, l)
  else
    match UserInput.canread l.input l.stdin with
    | none => .error .overrun
    | some (true, input, stdin) =>
      match readline 1024 input stdin with
      | none => .error .overrun
      | some ((_, ln), input, stdin) => do
        let serv ← UserMessage.handleUsermsg opt.user (ln ++ [0]) l.serv
        .ok (false, { l with serv, input, stdin })
    | some (false, input, stdin) =>
      if input.eof then
        let serv := (printf (quitLine opt) l.serv).2
        .ok (idle, { l with serv, input, stdin, ignoreuser := true })
      else .ok (idle, { l with input, stdin })

def leaves (opt : Options) (l : Loop) : Bool × World :=
  let offline := !l.serv.on && (!opt.reconnect || l.input.eof)
  if l.serv.quitat = 0 then (offline, l.world)
  else if !l.serv.on then (true, l.world)
  else
    let (t, world) := l.world.tstamp
    (decide ((l.serv.quitat + opt.waitquitUs) % 2 ^ 64 < t), world)

def attend (opt : Options) (idle : Bool) (l : Loop) : Bool × Loop :=
  let (t, world) := l.world.tstamp
  if t < l.nextop then (idle, { l with world })
  else
    match operate opt.serv l.serv world with
    | (a, true, serv, world) => (idle, { l with serv, world, log := l.log ++ a.toList })
    | (a, false, serv, world) =>
      let on := l.serv.on
      let l := { l with serv, world, log := l.log ++ a.toList }
      if on then (false, l)
      else
        let (t, world) := l.world.tstamp
        (false, { l with world, nextop := (t + opt.cfwaitUs) % 2 ^ 64 })

/-- `icat_serv_attention_at` -/
def attentionAt (opt : Options) (s : Serv) : Nat :=
  let attat := if opt.hbeatUs = 0 then 0 else s.nexthb
  if s.outQ ≠ [] ∧ (attat = 0 ∨ s.nextsend < attat) then s.nextsend else attat

/-- The timeout at the time `now`, unless something has to be done at once. -/
def timeoutAt (opt : Options) (tquit now : Nat) (ssl : Bool) (s : Serv) : Option Nat :=
  let due := if tquit = 0 then attentionAt opt s else (tquit + opt.waitquitUs) % 2 ^ 64
  if due ≠ 0 ∧ due ≤ now then none
  else some (if ssl ∧ 10000000 < due - now then 10000000 else due - now)

def doze (opt : Options) (tquit : Nat) (l : Loop) : Loop :=
  if l.serv.on then
    let (now, world) := l.world.tstamp
    let sel := l.selects.headD ⟨false, true⟩
    match timeoutAt opt tquit now sel.ssl l.serv with
    | none => { l with world }
    | some timeout =>
      { l with
        world := if sel.ok then world.tick else world.tick.tick
        selects := l.selects.tail
        naps := l.naps ++ [⟨now, timeout, tquit, l.serv, l.log⟩] }
  else { l with world := l.world.tick }

def proceed (opt : Options) (idle : Bool) (l : Loop) : Bool × Loop :=
  match leaves opt l with
  | (true, world) => (false, { l with world })
  | (false, world) =>
    match attend opt idle { l with world } with
    | (true, l') => (true, doze opt l.serv.quitat l')
    | (false, l') => (true, l')

/-- A round of the loop in `icat_core_run`, which tells whether there is another one. -/
def round (opt : Options) (l : Loop) : Except Fault (Bool × Loop) := do
  match ← fromServer opt l with
  | (none, l) => .ok (true, l)
  | (some idle, l) =>
    let (idle, l) ← fromUser opt idle l
    .ok (proceed opt idle l)

/-- Up to `k` rounds, unless the loop is left before. -/
def rounds (opt : Options) : Nat → Loop → Except Fault (Bool × Loop)
  | 0, l => .ok (true, l)
  | k + 1, l => do
    match ← round opt l with
    | (false, l) => .ok (false, l)
    | (true, l) => rounds opt k l

end Srsirc.MainLoop
