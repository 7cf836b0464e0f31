import Srsirc.Schedule

namespace Srsirc.QuitPhase

open CharMap Conveyance Fallible MainLoop Schedule SendOrder SendQueue UserInput

variable {opt : Options} {l₀ l : Loop}

section Sending

variable (sett : Settings) (s : Serv) (w : World)

theorem sendTime_connects : (sendTime s w).2.connects = w.connects := by
  rw [sendTime]
  split
  · rfl
  · exact tstamp_connects w

theorem sentLine_connects (line : Str) (rest : List Str) :
    (sentLine sett line rest s w).2.connects = w.connects := by
  rw [sentLine, quitSeen]
  cases isQuit line with
  | false => exact tstamp_connects w
  | true => exact (tstamp_connects w.tstamp.2).trans (tstamp_connects w)

theorem processSendq_connects : (processSendq sett s w).2.2.2.connects = w.connects := by
  have ht := sendTime_connects s w
  rw [processSendq]
  split
  · rfl
  · generalize sendTime s w = r at ht
    obtain ⟨due, w₁⟩ := r
    have hw : w₁.toSrv.2.connects = w.connects := (toSrv_connects w₁).trans ht
    cases due with
    | false => exact ht
    | true =>
      dsimp only
      generalize w₁.toSrv = r at hw
      obtain ⟨ok, w₂⟩ := r
      cases ok with
      | false => exact hw
      | true => exact (sentLine_connects sett s w₂ _ _).trans hw

theorem doHeartbeat_connects : (doHeartbeat sett s w).2.2.connects = w.connects := by
  have hw : w.tstamp.2.tstamp.2.toSrv.2.connects = w.connects := by simp
  rw [doHeartbeat]
  split
  · rfl
  · dsimp only
    split
    · exact tstamp_connects w
    · split
      · exact tstamp_connects w
      · generalize w.tstamp.2.tstamp.2.toSrv = r at hw
        obtain ⟨ok, w'⟩ := r
        cases ok <;> exact hw

variable {s}

theorem operate_connects (hon : s.on = true) :
    (operate sett s w).2.2.2.connects = w.connects := by
  have hp := processSendq_connects sett s w
  have hb := doHeartbeat_connects sett (processSendq sett s w).2.2.1 (processSendq sett s w).2.2.2
  rw [SendQueue.operate, if_neg (by simp [hon])]
  generalize processSendq sett s w = r at hp hb
  obtain ⟨a, n, s', w'⟩ := r
  dsimp only
  split
  · exact hp
  · exact hb.trans hp

end Sending

theorem attend_connects (idle : Bool) (hon : l.serv.on = true) :
    (attend opt idle l).2.world.connects = l.world.connects := by
  have ht := tstamp_connects l.world
  have hp := (operate_connects opt.serv l.world.tstamp.2 hon).trans ht
  rw [attend]
  dsimp only
  split
  · exact ht
  · generalize operate opt.serv l.serv l.world.tstamp.2 = r at hp
    obtain ⟨a, ok, serv, world⟩ := r
    cases ok <;> exact hp

section Ending

def Final (opt : Options) (l : Loop) : Prop :=
  opt.reconnect = false ∨ l.input.eof = true ∨ l.serv.quitat ≠ 0

theorem leaves_final (h : Final opt l) (hgoes : (leaves opt l).1 = false) : l.serv.on = true := by
  cases hon : l.serv.on with
  | true => rfl
  | false =>
    rw [leaves, hon] at hgoes
    obtain h | h | h := h
    · simp [h] at hgoes
    · simp [h] at hgoes
    · simp [h] at hgoes

/-- Since `l₀` no connection was tried or made. -/
structure Ending (opt : Options) (l₀ l : Loop) : Prop where
  clock : 0 < l.world.now
  final : Final opt l
  connects : l.world.connects = l₀.world.connects
  on : l.serv.on = true → l₀.serv.on = true

theorem Ending.calm {l' : Loop} (h : Ending opt l₀ l) (hc : Calm l l') : Ending opt l₀ l' := by
  refine ⟨h.clock.trans_le hc.later.now_le, h.final.imp id ?_, hc.connects.trans h.connects,
    fun hon => h.on (hc.on hon)⟩
  exact Or.imp hc.eof fun hq => hc.quitat.symm ▸ hq

theorem Ending.attend (h : Ending opt l₀ l) (hon : l.serv.on = true) (idle : Bool) :
    Ending opt l₀ (attend opt idle l).2 := by
  have hc : (MainLoop.attend opt idle l).2.world.connects = l.world.connects :=
    attend_connects idle hon
  obtain ⟨⟨a, -, hp⟩, hinput, -⟩ := attend_attended opt idle l
  refine ⟨h.clock.trans_le hp.later.now_le, h.final.imp id ?_, hc.trans h.connects,
    fun _ => h.on hon⟩
  refine Or.imp (fun heof => by rw [hinput, heof]) fun hq => ?_
  obtain ⟨heq, -⟩ | ⟨b, hb, -, -, hle, -⟩ := hp.quitat
  · rwa [heq]
  · have htime := (hp.time b hb).1
    have hclock := h.clock
    omega

theorem Ending.doze {tquit : Nat} (h : Ending opt l₀ l) :
    Ending opt l₀ (doze opt tquit l) := by
  have hd := doze_dozed opt tquit l
  refine ⟨h.clock.trans_le hd.later.now_le, ?_, hd.connects.trans h.connects, ?_⟩
  · rw [Final, hd.input, hd.serv]
    exact h.final
  · rw [hd.serv]
    exact h.on

theorem Ending.proceed (idle : Bool) (h : Ending opt l₀ l) :
    Ending opt l₀ (proceed opt idle l).2 := by
  have hleft := h.calm (leaves_calm opt l)
  have hon := leaves_final h.final
  rw [MainLoop.proceed]
  generalize leaves opt l = r at hleft hon
  obtain ⟨left, world⟩ := r
  cases left with
  | true => exact hleft
  | false =>
    have hattend := hleft.attend (hon rfl) idle
    dsimp only
    generalize MainLoop.attend opt idle { l with world } = r at hattend
    obtain ⟨idle, l'⟩ := r
    cases idle with
    | true => exact hattend.doze
    | false => exact hattend

/-- Once there is nothing to connect for, no connection is tried or made any more. -/
theorem rounds_ending (h : Final opt l) (hclock : 0 < l.world.now) (k : Nat) :
    Ensures (rounds opt k l) fun r => Ending opt l r.2 :=
  rounds_keep (fun _ _ => Ending.calm) (fun idle _ => Ending.proceed idle) k
    ⟨hclock, h, rfl, id⟩

end Ending

section Quitting

/-- An accepted QUIT was seen at `s_quitat` or before, and nothing was seen in the future. -/
structure Marked (l : Loop) : Prop where
  clock : 0 < l.world.now
  past : l.serv.quitat ≤ l.world.now
  seen : ∀ a ∈ accepted l.log, isQuit a.line = true → 0 < a.time ∧ a.time ≤ l.serv.quitat

theorem Marked.calm {l' : Loop} (h : Marked l) (hc : Calm l l') : Marked l' := by
  obtain ⟨hclock, hpast, hseen⟩ := h
  refine ⟨hclock.trans_le hc.later.now_le, ?_, ?_⟩
  · rw [hc.quitat]
    exact hpast.trans hc.later.now_le
  · rw [hc.log, hc.quitat]
    exact hseen

theorem mem_accepted_append {log : List Attempt} {a : Option Attempt} {b : Attempt}
    (hb : b ∈ accepted (log ++ a.toList)) : b ∈ accepted log ∨ b ∈ a ∧ b.ok = true := by
  obtain ⟨hmem, hok⟩ := List.mem_filter.1 hb
  obtain hmem | hmem := List.mem_append.1 hmem
  · exact .inl (List.mem_filter.2 ⟨hmem, hok⟩)
  · exact .inr ⟨Option.mem_toList.1 hmem, hok⟩

theorem Marked.attend (h : Marked l) (idle : Bool) : Marked (attend opt idle l).2 := by
  obtain ⟨hclock, hpast, hseen⟩ := h
  obtain ⟨⟨a, hlog, hp⟩, -, -⟩ := attend_attended opt idle l
  have hnow := hp.later.now_le
  obtain ⟨heq, hnone⟩ | ⟨q, hq, -, -, hle, hpast'⟩ := hp.quitat
  · refine ⟨hclock.trans_le hnow, by omega, fun b hb hquit => ?_⟩
    rw [hlog] at hb
    obtain hb | ⟨hb, hok⟩ := mem_accepted_append hb
    · rw [heq]
      exact hseen b hb hquit
    · rw [hnone b hb hok] at hquit
      cases hquit
  · refine ⟨hclock.trans_le hnow, hpast', fun b hb hquit => ?_⟩
    obtain ⟨hfrom, -⟩ := hp.time q hq
    rw [hlog] at hb
    obtain hb | ⟨hb, hok⟩ := mem_accepted_append hb
    · obtain ⟨hpos, hle'⟩ := hseen b hb hquit
      exact ⟨hpos, by omega⟩
    · obtain rfl := Option.mem_unique hb hq
      exact ⟨by omega, hle⟩

theorem Marked.doze {tquit : Nat} (h : Marked l) : Marked (doze opt tquit l) := by
  have hd := doze_dozed opt tquit l
  obtain ⟨hclock, hpast, hseen⟩ := h
  refine ⟨hclock.trans_le hd.later.now_le, ?_, ?_⟩
  · rw [hd.serv]
    exact hpast.trans hd.later.now_le
  · rw [hd.log, hd.serv]
    exact hseen

theorem Marked.proceed (idle : Bool) (h : Marked l) : Marked (proceed opt idle l).2 := by
  have hleft := h.calm (leaves_calm opt l)
  rw [MainLoop.proceed]
  generalize leaves opt l = r at hleft
  obtain ⟨left, world⟩ := r
  cases left with
  | true => exact hleft
  | false =>
    have hattend : Marked (MainLoop.attend opt idle { l with world }).2 := hleft.attend idle
    dsimp only
    generalize MainLoop.attend opt idle { l with world } = r at hattend
    obtain ⟨idle, l'⟩ := r
    cases idle with
    | true => exact hattend.doze
    | false => exact hattend

theorem rounds_marked (h : Marked l) (k : Nat) :
    Ensures (rounds opt k l) fun r => Marked r.2 :=
  rounds_keep (fun _ _ => Marked.calm) (fun idle _ => Marked.proceed idle) k h

/-- It is too late to wait for the server's answer to the QUIT. -/
structure Overdue (opt : Options) (l : Loop) : Prop where
  sent : l.serv.quitat ≠ 0
  passed : l.serv.quitat + opt.waitquitUs < l.world.now

theorem Overdue.calm {l' : Loop} (h : Overdue opt l) (hc : Calm l l') : Overdue opt l' :=
  ⟨hc.quitat.symm ▸ h.sent, hc.quitat.symm ▸ h.passed.trans_le hc.later.now_le⟩

theorem proceed_leaves {idle : Bool} (h : l.serv.quitat ≠ 0)
    (hoff : l.serv.on = false ∨ l.serv.quitat + opt.waitquitUs < l.world.now) :
    (proceed opt idle l).1 = false := by
  have hleaves : (leaves opt l).1 = true := by
    rw [leaves, if_neg h]
    cases hon : l.serv.on with
    | false => rfl
    | true =>
      have hlate := hoff.resolve_left (by simp [hon])
      have hnow := (tstamp_later l.world).now_le
      have hmod := Nat.mod_le (l.serv.quitat + opt.waitquitUs) (2 ^ 64)
      exact decide_eq_true (hmod.trans_lt (hlate.trans_le hnow))
  rw [proceed]
  generalize leaves opt l = r at hleaves
  obtain ⟨left, world⟩ := r
  cases hleaves
  rfl

theorem fromServer_lost (opt : Options) (l : Loop) :
    Ensures (fromServer opt l) fun r => r.1 = none → r.2.serv.on = false := by
  rw [fromServer]
  refine Ensures.ite (fun _ => Ensures.ok fun h => absurd h (by simp)) fun hon => ?_
  cases l.reads with
  | nil => exact Ensures.ok fun h => absurd h (by simp)
  | cons rd reads =>
    refine Ensures.ite (fun hneg => Ensures.ok fun _ => ?_) fun _ => Ensures.ite (fun _ => ?_)
      fun _ => Ensures.ok fun h => absurd h (by simp)
    · have hret : rd.ret = -1 := by
        have hmem := rd.ret_mem
        omega
      dsimp only
      rw [SendQueue.read, hret]
      split
      · rfl
      · next h => simpa using h
    · refine Ensures.value fun cmd =>
        Ensures.ite (fun _ => Ensures.value fun text => ?_) fun _ => ?_
      all_goals exact Ensures.ok fun h => absurd h (by simp)

theorem round_offline (h : l.serv.quitat ≠ 0) (hoff : l.serv.on = false) :
    Ensures (round opt l) fun r => r.1 = false := by
  rw [MainLoop.round, fromServer, if_pos (by simp [hoff])]
  refine (fromUser_calm opt true l).bind fun r hr => Ensures.ok ?_
  refine proceed_leaves (hr.quitat.symm ▸ h) (.inl ?_)
  cases hon : r.2.serv.on with
  | false => rfl
  | true =>
    rw [hr.on hon] at hoff
    cases hoff

theorem round_overdue (h : Overdue opt l) :
    Ensures (round opt l) fun r => r.1 = true → r.2.serv.quitat ≠ 0 ∧ r.2.serv.on = false := by
  rw [MainLoop.round]
  have hboth := fun r hr => And.intro (fromServer_calm opt l r hr) (fromServer_lost opt l r hr)
  refine Ensures.bind hboth fun r hr => ?_
  obtain ⟨idle, l₁⟩ := r
  obtain ⟨hcalm, hlost⟩ := hr
  have h₁ : Overdue opt l₁ := h.calm hcalm
  cases idle with
  | none => exact Ensures.ok fun _ => ⟨h₁.sent, hlost rfl⟩
  | some idle =>
    refine (fromUser_calm opt idle l₁).bind fun r hr => Ensures.ok fun hgoes => ?_
    have h₂ := h₁.calm hr
    rw [proceed_leaves h₂.sent (.inr h₂.passed)] at hgoes
    cases hgoes

theorem rounds_overdue (h : Overdue opt l) (k : Nat) :
    Ensures (rounds opt (k + 2) l) fun r => r.1 = false := by
  rw [rounds]
  refine (round_overdue h).bind fun r hr => ?_
  obtain ⟨goes, l₁⟩ := r
  cases goes with
  | false => exact Ensures.ok rfl
  | true =>
    obtain ⟨hsent, hoff⟩ := hr rfl
    dsimp only
    rw [rounds]
    refine (round_offline hsent hoff).bind fun r hr => ?_
    obtain ⟨goes, l₂⟩ := r
    cases hr
    exact Ensures.ok rfl

end Quitting

/-- Once a QUIT was sent, the input has ended or we do not reconnect, no connection is tried or
made any more, in however many rounds; and when the time to wait for the server is over after a
QUIT, two rounds later the loop has been left. -/
theorem quit_final {opt : Options} {serv : Serv} {world : World} {src : Stdin}
    {reads : List ServerRead} {selects : List Selected} (hserv : serv.quitat = 0)
    (hclock : 0 < world.now) (k : Nat) :
    Ensures (rounds opt k (.start serv world src reads selects)) fun r =>
      (opt.reconnect = false ∨ r.2.input.eof = true ∨
        ∃ a ∈ accepted r.2.log, isQuit a.line = true) →
      ∀ k', Ensures (rounds opt k' r.2) fun r' =>
        r'.2.world.connects = r.2.world.connects ∧
        (r'.2.serv.on = true → r.2.serv.on = true) ∧
        ((∃ a ∈ accepted r.2.log, isQuit a.line = true) →
          r.2.serv.quitat + opt.waitquitUs < r.2.world.now → 2 ≤ k' → r'.1 = false) := by
  have hstart : Marked (.start serv world src reads selects) := by
    refine ⟨hclock, ?_, fun a ha => absurd ha (by simp [Loop.start, accepted])⟩
    change serv.quitat ≤ world.now
    omega
  refine (rounds_marked hstart k).mono fun r hr hfinal k' => ?_
  have hquit : (∃ a ∈ accepted r.2.log, isQuit a.line = true) → r.2.serv.quitat ≠ 0 := by
    rintro ⟨a, ha, hq⟩
    have hseen := hr.seen a ha hq
    omega
  have hend := rounds_ending (hfinal.imp id (Or.imp id hquit)) hr.clock k'
  intro r' hr'
  obtain ⟨-, -, hconnects, hon⟩ := hend r' hr'
  refine ⟨hconnects, hon, fun hsent hlate hk => ?_⟩
  obtain ⟨k, rfl⟩ := Nat.exists_eq_add_of_le' hk
  exact rounds_overdue ⟨hquit hsent, hlate⟩ k r' hr'

def persistent : Options :=
  { chatting with srvlist := [ascii "irc.example.org"], reconnect := true }

def farewell : Stdin := [.chunk 0x68 [0x0a]]

def silent : World :=
  ⟨1000, List.replicate 17 0 ++ [3000001], [true, true], [false, true]⟩

theorem quit_final_silent :
    Ensures (rounds persistent 3 (.start (Serv.init 0 0) silent farewell [] [])) fun r =>
      (persistent.reconnect = false ∨ r.2.input.eof = true ∨
        ∃ a ∈ accepted r.2.log, isQuit a.line = true) →
      ∀ k', Ensures (rounds persistent k' r.2) fun r' =>
        r'.2.world.connects = r.2.world.connects ∧
        (r'.2.serv.on = true → r.2.serv.on = true) ∧
        ((∃ a ∈ accepted r.2.log, isQuit a.line = true) →
          r.2.serv.quitat + persistent.waitquitUs < r.2.world.now → 2 ≤ k' → r'.1 = false) :=
  quit_final rfl (by decide) 3

end Srsirc.QuitPhase
