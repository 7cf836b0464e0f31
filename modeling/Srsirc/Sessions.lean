import Srsirc.NetworkRun
import Srsirc.Topics

namespace Srsirc.Sessions

open CharMap Context CoreHandlers Dispatch DispatchOrder Fallible HandlerTable Message Mirror
open MirrorSteps NamesListing NetworkRun OneCasemap Presence RefCount Registrations Registry
open ReportedSteps ServerInfo ServerReports Topics Track TrackInfo UserBase Wiring

/-- The network as it is, with the topics of its rooms: the text, and who has set it. In `told` are
the times that the server has told of topics since we are in their rooms. -/
structure Scene where
  net : Net Str Str
  me : Str
  topics : Str → Option (Str × Str)
  told : Str → Nat

def Scene.known (s : Scene) (κ : Str) : Topic :=
  ⟨(s.topics κ).map Prod.fst, (s.topics κ).map Prod.snd, s.told κ⟩

def toldAfter (me : Str) (told : Str → Nat) : Event Str Str → Str → Nat
  | .join u κ => if u = me then Function.update told κ 0 else told
  | _ => told

def Scene.after (s : Scene) (e : Event Str Str) : Scene :=
  { s with net := Presence.after s.net e, me := e.renamed s.me, told := toldAfter s.me s.told e }

def Scene.tell (s : Scene) (κ : Str) (since : Nat) : Scene :=
  { s with told := Function.update s.told κ since }

def Scene.title (s : Scene) (κ : Str) (topic : Option (Str × Str)) : Scene :=
  { s with topics := Function.update s.topics κ topic }

def Announces (cm : CMap) (κ text who : Str) (since : Nat) (ls : List Msg) : Prop :=
  ∃ m m' ident ident' target target' name name' time, ls = [m, m'] ∧
    Says m ident (ascii "332") [target, name, text] ∧ norm cm name = κ ∧
    Says m' ident' (ascii "333") [target', name', who, time] ∧ norm cm name' = κ ∧
    strtoull time = since

def Ignored (cmd : Str) : Prop := ∀ dumb m, ∀ p ∈ hndsOf dumb m, ascii p.1 ≠ cmd

inductive Session (cm : CMap) (syms : Str) : Scene → List Msg → Scene → Prop
  | done {s : Scene} : Session cm syms s [] s
  | event {s s' : Scene} {e : Event Str Str} {ls ls' : List Msg}
      (hlegal : Legal (norm cm) s.net s.me e) (hproper : Proper cm e)
      (hls : Reports cm syms s.net s.me e ls)
      (htopic : ∀ κ, e = .join s.me κ → s.topics κ = none)
      (hrest : Session cm syms (s.after e) ls' s') : Session cm syms s (ls ++ ls') s'
  | entered {s s' : Scene} {κ text who ident name : Str} {since : Nat} {msg : Msg}
      {ls ls₂ ls' : List Msg} (hlegal : Legal (norm cm) s.net s.me (.join s.me κ))
      (htopic : s.topics κ = some (text, who)) (hfrom : From s.me ident)
      (hname : norm cm name = κ) (hlen : κ.length < MAX_CHAN_LEN)
      (hmsg : Says msg ident (ascii "JOIN") [name]) (hls : Announces cm κ text who since ls)
      (hlist : Listing cm syms κ (insert s.me (s.net κ)) ls₂)
      (hrest : Session cm syms ((s.after (.join s.me κ)).tell κ since) ls' s') :
      Session cm syms s ((msg :: ls ++ ls₂) ++ ls') s'
  | names {s s' : Scene} {κ : Str} {ls ls' : List Msg} (hme : s.me ∈ s.net κ)
      (hls : Listing cm syms κ (s.net κ) ls) (hrest : Session cm syms s ls' s') :
      Session cm syms s (ls ++ ls') s'
  | topic {s s' : Scene} {κ ident name text : Str} {msg : Msg} {ls' : List Msg}
      (hme : s.me ∈ s.net κ) (hname : norm cm name = κ)
      (hmsg : Says msg ident (ascii "TOPIC") [name, text])
      (hrest : Session cm syms (s.title κ (some (text, ident2nick MAX_NICK_LEN ident))) ls' s') :
      Session cm syms s (msg :: ls') s'
  | elsewhere {s s' : Scene} {κ : Str} {topic : Option (Str × Str)} {ls' : List Msg}
      (hme : s.me ∉ s.net κ) (hrest : Session cm syms (s.title κ topic) ls' s') :
      Session cm syms s ls' s'
  | asked {s s' : Scene} {κ text who : Str} {since : Nat} {ls ls' : List Msg}
      (hme : s.me ∈ s.net κ) (htopic : s.topics κ = some (text, who))
      (hls : Announces cm κ text who since ls) (hrest : Session cm syms (s.tell κ since) ls' s') :
      Session cm syms s (ls ++ ls') s'
  | chatter {s s' : Scene} {cmd : String} {ident target text : Str} {msg : Msg} {ls' : List Msg}
      (hcmd : cmd = "PRIVMSG" ∨ cmd = "NOTICE") (hmsg : Says msg ident (ascii cmd) [target, text])
      (hrest : Session cm syms s ls' s') : Session cm syms s (msg :: ls') s'
  | other {s s' : Scene} {cmd : Str} {msg : Msg} {ls' : List Msg} (hcmd : msg.fld 1 = .ok cmd)
      (hno : Ignored cmd) (hrest : Session cm syms s ls' s') : Session cm syms s (msg :: ls') s'

section Knowledge

variable {K K' : Str → Topic} {b b' : Base} {κ : Str} {f : Topic → Topic} {cm : CMap}
  {V : View Str Str} {t : Topic}

def Tells (K : Str → Topic) (b : Base) : Prop :=
  ∀ κ c t, b.chans.lookup κ = some c → topicAt b c = some t → t = K κ

theorem Tells.elsewhere (h : Tells K b)
    (hK : ∀ κ, (b.chans.lookup κ).isSome → K' κ = K κ) : Tells K' b := by
  intro κ c t hc ht
  rw [h κ c t hc ht, hK κ (by rw [hc]; rfl)]

theorem Tells.opened (h : Tells K b) (hm : Mirrors cm V b) {name : Str}
    (hV : V (norm cm name) = none) :
    Tells (Function.update K (norm cm name) Topic.blank) (addChan b cm name).2 := by
  intro κ c t hc ht
  obtain ⟨rfl, rfl⟩ | ⟨hne, hc, ht⟩ := opened_topics hm hV hc ht
  · rw [Function.update_self]
  · rw [Function.update_of_ne hne]
    exact h κ c t hc ht

end Knowledge

section Lines

variable {cm : CMap} {syms : Str} {irc : Irc} {msg : Msg} {post : Irc → Msg → Nat → Bool}
  {V : View Str Str} {K : Str → Topic} {κ : Str} {S : Set Str} {N : Net Str Str} {me : Str}

end Lines

section Runs

variable {cm : CMap} {syms : Str} {s s' : Scene} {irc : Irc} {post : Irc → Msg → Nat → Bool}

end Runs

end Srsirc.Sessions
