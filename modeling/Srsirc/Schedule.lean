import Srsirc.Conveyance

namespace Srsirc.Schedule

open CharMap Conveyance Fallible MainLoop Memory Message SendOrder SendQueue UserInput UserMessage

section Input

variable {i i' : Input} {src src' : Stdin} {b : Bool}

theorem store_eof {p : Nat} {c : UInt8} (h : i.store p c = some i') : i'.eof = i.eof := by
  rw [Input.store] at h
  split at h
  · cases h
    rfl
  · cases h

theorem receive_eof (h : receive i src = some (b, i', src')) (heof : i.eof = true) :
    i'.eof = true := by
  rw [receive, if_pos heof] at h
  cases h
  exact heof

theorem readMore_eof (h : readMore i src = some (b, i', src')) (heof : i.eof = true) :
    i'.eof = true := by
  rw [readMore] at h
  generalize src.canread = x at h
  obtain ⟨n, src₁⟩ := x
  dsimp only at h
  split at h
  · cases h
    exact heof
  · split at h
    · split at h
      · simp only [Option.bind_eq_bind, Option.bind_eq_some_iff, Option.pure_def,
          Option.some.injEq, Prod.mk.injEq] at h
        obtain ⟨i₁, h₁, i₂, h₂, -, rfl, -⟩ := h
        rw [store_eof h₂, store_eof h₁]
        exact heof
      · exact receive_eof h heof
    · exact receive_eof h heof

theorem canread_eof (h : UserInput.canread i src = some (b, i', src')) (heof : i.eof = true) :
    i'.eof = true := by
  rw [UserInput.canread] at h
  split at h
  · exact readMore_eof h heof
  · simp only [Option.bind_eq_bind, Option.bind_eq_some_iff] at h
    obtain ⟨i₁, h₁, h⟩ := h
    have heof₁ : i₁.eof = true := (store_eof h₁).trans heof
    split at h
    · cases h
      exact heof₁
    · exact readMore_eof h heof₁

theorem readline_eof {destsz : Nat} {r : Nat × Str}
    (h : readline destsz i src = some (r, i', src')) (heof : i.eof = true) : i'.eof = true := by
  rw [readline] at h
  simp only [Option.bind_eq_bind, Option.bind_eq_some_iff] at h
  obtain ⟨⟨ready, i₁, src₁⟩, hc, h⟩ := h
  have heof₁ := canread_eof hc heof
  cases ready with
  | false =>
    cases h
    exact heof₁
  | true =>
    simp only [Option.bind_eq_some_iff] at h
    obtain ⟨i₂, hst, k, -, h⟩ := h
    simp only [Option.ite_none_left_eq_some, Option.pure_def, Option.some.injEq,
      Prod.mk.injEq] at h
    obtain ⟨-, -, rfl, -⟩ := h
    exact (store_eof hst).trans heof₁

end Input

section Clock

variable (w : World)

@[simp] theorem tick_connects : w.tick.connects = w.connects := by
  rw [World.tick]
  split <;> rfl

@[simp] theorem tstamp_connects : w.tstamp.2.connects = w.connects := tick_connects w

@[simp] theorem toSrv_connects : w.toSrv.2.connects = w.connects := tick_connects w

end Clock

section Parts

variable {opt : Options} {l l' : Loop}

structure Calm (l l' : Loop) : Prop where
  quitat : l'.serv.quitat = l.serv.quitat
  nextsend : l'.serv.nextsend = l.serv.nextsend
  nexthb : l'.serv.nexthb = l.serv.nexthb
  log : l'.log = l.log
  naps : l'.naps = l.naps
  connects : l'.world.connects = l.world.connects
  later : Later l.world l'.world
  on : l'.serv.on = true → l.serv.on = true
  eof : l.input.eof = true → l'.input.eof = true

theorem Calm.refl (l : Loop) : Calm l l :=
  ⟨rfl, rfl, rfl, rfl, rfl, rfl, Later.refl _, id, id⟩

theorem Calm.trans {l'' : Loop} (h : Calm l l') (h' : Calm l' l'') : Calm l l'' :=
  ⟨h'.quitat.trans h.quitat, h'.nextsend.trans h.nextsend, h'.nexthb.trans h.nexthb,
    h'.log.trans h.log, h'.naps.trans h.naps, h'.connects.trans h.connects, h.later.trans h'.later,
    fun hon => h.on (h'.on hon), fun heof => h'.eof (h.eof heof)⟩

theorem Calm.world {world : World} (hl : Later l.world world)
    (hc : world.connects = l.world.connects) : Calm l { l with world } :=
  ⟨rfl, rfl, rfl, rfl, rfl, hc, hl, id, id⟩

theorem hook_calm (l : Loop) (hook : Hook) : Calm l (hook.run l) := by
  cases hook with
  | ping =>
    have hl := toSrv_later l.world
    have hc := toSrv_connects l.world
    rw [Hook.run, handlePING]
    generalize l.world.toSrv = r at hl hc
    obtain ⟨ok, w⟩ := r
    cases ok with
    | true => exact ⟨rfl, rfl, rfl, rfl, rfl, hc, hl, id, id⟩
    | false => exact ⟨rfl, rfl, rfl, rfl, rfl, hc, hl, fun hon => absurd hon (by simp), id⟩
  | pong | isupport => exact ⟨rfl, rfl, rfl, rfl, rfl, rfl, Later.refl _, id, id⟩

theorem hooks_calm (hooks : List Hook) (l : Loop) : Calm l (hooks.foldl Hook.run l) := by
  induction hooks generalizing l with
  | nil => exact Calm.refl l
  | cons hook hooks ih => exact (hook_calm l hook).trans (ih _)

theorem read_calm (r : Int) (l : Loop) : Calm l { l with serv := SendQueue.read r l.serv } := by
  rw [SendQueue.read]
  split
  · exact ⟨rfl, rfl, rfl, rfl, rfl, rfl, Later.refl _, fun hon => absurd hon (by simp), id⟩
  · exact Calm.refl l

theorem fromServer_calm (opt : Options) (l : Loop) :
    Ensures (fromServer opt l) fun r => Calm l r.2 := by
  rw [fromServer]
  refine Ensures.ite (fun _ => Ensures.ok (Calm.refl l)) fun _ => ?_
  cases l.reads with
  | nil => exact Ensures.ok ⟨rfl, rfl, rfl, rfl, rfl, tick_connects _, tick_later _, id, id⟩
  | cons rd reads =>
    have hnext : Calm l { l with reads, world := l.world.tick } :=
      ⟨rfl, rfl, rfl, rfl, rfl, tick_connects _, tick_later _, id, id⟩
    have hcalm := (hnext.trans (hooks_calm rd.hooks _)).trans (read_calm rd.ret _)
    refine Ensures.ite (fun _ => Ensures.ok hcalm) fun _ => Ensures.ite (fun _ => ?_) fun _ =>
      Ensures.ok hcalm
    refine Ensures.value fun cmd => Ensures.ite (fun _ => Ensures.value fun text => ?_) fun _ =>
      Ensures.ok hcalm
    exact Ensures.ok (hcalm.trans ⟨rfl, rfl, rfl, rfl, rfl, rfl, Later.refl _, id, id⟩)

theorem handleUsermsg_queues (sett : Sett) (ln : Mem) (s : Serv) :
    Ensures (handleUsermsg sett ln s) fun s' => ∃ q, s' = { s with outQ := q } := by
  rw [handleUsermsg_eq]
  generalize (handleUsermsg sett ln (Serv.init 0 0)).map Serv.outQ = said
  cases said with
  | error e => exact Ensures.error
  | ok said => exact Ensures.ok ⟨_, rfl⟩

theorem fromUser_calm (opt : Options) (idle : Bool) (l : Loop) :
    Ensures (fromUser opt idle l) fun r => Calm l r.2 := by
  rw [fromUser]
  refine Ensures.ite (fun _ => Ensures.ok (Calm.refl l)) fun _ => ?_
  cases hc : UserInput.canread l.input l.stdin with
  | none => exact Ensures.error
  | some r =>
    obtain ⟨b, input, stdin⟩ := r
    have heof : l.input.eof = true → input.eof = true := canread_eof hc
    cases b with
    | true =>
      dsimp only
      cases hr : readline 1024 input stdin with
      | none => exact Ensures.error
      | some r =>
        obtain ⟨⟨_, ln⟩, input', stdin'⟩ := r
        refine (handleUsermsg_queues _ _ _).bind fun serv hserv => Ensures.ok ?_
        obtain ⟨q, rfl⟩ := hserv
        exact ⟨rfl, rfl, rfl, rfl, rfl, rfl, Later.refl _, id,
          fun h => readline_eof hr (heof h)⟩
    | false =>
      refine Ensures.ite (fun _ => Ensures.ok ?_) fun _ => Ensures.ok ?_
      all_goals exact ⟨rfl, rfl, rfl, rfl, rfl, rfl, Later.refl _, id, heof⟩

theorem leaves_calm (opt : Options) (l : Loop) : Calm l { l with world := (leaves opt l).2 } := by
  rw [leaves]
  dsimp only
  repeat' split
  all_goals first
    | exact Calm.refl l
    | exact Calm.world (tstamp_later _) (tstamp_connects _)

end Parts

section Operation

variable {sett : Settings} {s s' : Serv} {w w' : World} {a : Option Attempt}

/-- Something is to be done `delay` after a time the clock has shown meanwhile. -/
def Due (delay : Nat) (w w' : World) (at' : Nat) : Prop :=
  ∃ t, w.now ≤ t ∧ t ≤ w'.now ∧ at' = (t + delay) % 2 ^ 64

/-- What is planned when the server's side has worked, and what it has tried to send is `a`. -/
structure Planned (sett : Settings) (s : Serv) (w : World) (a : Option Attempt) (s' : Serv)
    (w' : World) : Prop where
  later : Later w w'
  time : ∀ b ∈ a, w.now ≤ b.time ∧ b.time ≤ w'.now
  quitat : (s'.quitat = s.quitat ∧ ∀ b ∈ a, b.ok = true → isQuit b.line = false) ∨
    ∃ b ∈ a, b.ok = true ∧ isQuit b.line = true ∧ b.time ≤ s'.quitat ∧ s'.quitat ≤ w'.now
  nextsend : (s'.nextsend = s.nextsend ∧ ∀ b ∈ a, b.ok = false) ∨
    Due sett.linedelay w w' s'.nextsend
  nexthb : s'.nexthb = s.nexthb ∨ Due sett.hbeatUs w w' s'.nexthb

theorem Planned.calm (hl : Later w w') (hq : s'.quitat = s.quitat)
    (hs : s'.nextsend = s.nextsend) (hb : s'.nexthb = s.nexthb ∨ Due sett.hbeatUs w w' s'.nexthb) :
    Planned sett s w none s' w' :=
  ⟨hl, fun _ h => absurd h (by simp), .inl ⟨hq, fun _ h => absurd h (by simp)⟩,
    .inl ⟨hs, fun _ h => absurd h (by simp)⟩, hb⟩

theorem Due.mono {delay at' : Nat} {w₁ w₂ : World} (h : Due delay w w' at') (hl : Later w₁ w)
    (hl' : Later w' w₂) : Due delay w₁ w₂ at' := by
  obtain ⟨t, h₁, h₂, rfl⟩ := h
  exact ⟨t, hl.now_le.trans h₁, h₂.trans hl'.now_le, rfl⟩

/-- Nothing is tried later than what is in front of the queue. -/
theorem Planned.trans {s'' : Serv} {w'' : World} (h : Planned sett s w a s' w')
    (h' : Planned sett s' w' none s'' w'') : Planned sett s w a s'' w'' := by
  have hq : s''.quitat = s'.quitat := by
    obtain ⟨hq, -⟩ | ⟨b, hb, -⟩ := h'.quitat
    · exact hq
    · exact absurd hb (by simp)
  refine ⟨h.later.trans h'.later, fun b hb => ?_, ?_, ?_, ?_⟩
  · exact ⟨(h.time b hb).1, (h.time b hb).2.trans h'.later.now_le⟩
  · rw [hq]
    refine h.quitat.imp id ?_
    rintro ⟨b, hb, hok, hquit, h₁, h₂⟩
    exact ⟨b, hb, hok, hquit, h₁, h₂.trans h'.later.now_le⟩
  · obtain ⟨hn, -⟩ | hdue := h'.nextsend
    · rw [hn]
      exact h.nextsend.imp id fun hdue => hdue.mono (Later.refl w) h'.later
    · exact .inr (hdue.mono h.later (Later.refl w''))
  · obtain hn | hdue := h'.nexthb
    · rw [hn]
      exact h.nexthb.imp id fun hdue => hdue.mono (Later.refl w) h'.later
    · exact .inr (hdue.mono h.later (Later.refl w''))

theorem sentLine_planned (sett : Settings) (line : Str) (rest : List Str) (s : Serv) (w : World)
    (free : Nat) : Planned sett s w (some ⟨line, w.now, free, true⟩)
      (sentLine sett line rest s w).1 (sentLine sett line rest s w).2 := by
  have ht := tstamp_later w
  have ht' := tstamp_later w.tstamp.2
  rw [sentLine, quitSeen]
  cases hquit : isQuit line with
  | false =>
    refine ⟨ht, ?_, .inl ⟨rfl, ?_⟩, .inr ⟨_, ht.now_le, Nat.le_refl _, rfl⟩, .inl rfl⟩
    · rintro b ⟨⟩
      exact ⟨Nat.le_refl _, ht.now_le⟩
    · rintro b ⟨⟩ -
      exact hquit
  | true =>
    have hl := ht.trans ht'
    refine ⟨hl, ?_, .inr ⟨_, rfl, rfl, hquit, ht.now_le, ht'.now_le⟩,
      .inr ⟨_, hl.now_le, Nat.le_refl _, rfl⟩, .inl rfl⟩
    rintro b ⟨⟩
    exact ⟨Nat.le_refl _, hl.now_le⟩

theorem Planned.after {w₀ : World} (hl : Later w₀ w) (h : Planned sett s w a s' w') :
    Planned sett s w₀ a s' w' := by
  refine ⟨hl.trans h.later, fun b hb => ?_, h.quitat, ?_, ?_⟩
  · exact ⟨hl.now_le.trans (h.time b hb).1, (h.time b hb).2⟩
  · exact h.nextsend.imp id fun hdue => hdue.mono hl (Later.refl w')
  · exact h.nexthb.imp id fun hdue => hdue.mono hl (Later.refl w')

theorem processSendq_planned (sett : Settings) (s : Serv) (w : World) :
    Planned sett s w (processSendq sett s w).1 (processSendq sett s w).2.2.1
      (processSendq sett s w).2.2.2 := by
  rw [processSendq]
  split
  · exact .calm (Later.refl w) rfl rfl (.inl rfl)
  · next line rest _ =>
    have ht := sendTime_later s w
    generalize sendTime s w = r at ht
    obtain ⟨due, w₁⟩ := r
    cases due with
    | false => exact .calm ht rfl rfl (.inl rfl)
    | true =>
      have hw := toSrv_later w₁
      dsimp only
      generalize w₁.toSrv = r at hw
      obtain ⟨ok, w₂⟩ := r
      have hl : Later w w₂ := ht.trans hw
      cases ok with
      | true => exact (sentLine_planned sett line rest s w₂ _).after hl
      | false =>
        refine ⟨hl, ?_, .inl ⟨rfl, ?_⟩, .inl ⟨rfl, ?_⟩, .inl rfl⟩
        · rintro b ⟨⟩
          exact ⟨hl.now_le, Nat.le_refl _⟩
        · rintro b ⟨⟩ ⟨⟩
        · rintro b ⟨⟩
          rfl

theorem doHeartbeat_planned (sett : Settings) (s : Serv) (w : World) :
    Planned sett s w none (doHeartbeat sett s w).2.1 (doHeartbeat sett s w).2.2 := by
  have ht := tstamp_later w
  have ht' := ht.trans (tstamp_later w.tstamp.2)
  have hw := ht'.trans (toSrv_later w.tstamp.2.tstamp.2)
  have hdue : Due sett.hbeatUs w w.tstamp.2.tstamp.2.toSrv.2
      ((w.tstamp.2.tstamp.1 + sett.hbeatUs) % 2 ^ 64) :=
    ⟨_, ht'.now_le, (toSrv_later _).now_le, rfl⟩
  rw [doHeartbeat]
  split
  · exact .calm (Later.refl w) rfl rfl (.inl rfl)
  · dsimp only
    split
    · exact .calm ht rfl rfl (.inl rfl)
    · split
      · exact .calm ht rfl rfl (.inl rfl)
      · generalize w.tstamp.2.tstamp.2.toSrv = r at hw hdue
        obtain ⟨ok, w'⟩ := r
        cases ok <;> exact .calm hw rfl rfl (.inr hdue)

theorem tryconnect_planned (sett : Settings) (srvs : List Str) (s : Serv) (w : World) :
    Planned sett s w none (tryconnect sett srvs s w).2.1 (tryconnect sett srvs s w).2.2 := by
  induction srvs generalizing w with
  | nil => exact .calm (Later.refl w) rfl rfl (.inl rfl)
  | cons _ srvs ih =>
    have hl := connect_later w
    rw [tryconnect]
    generalize w.connect = r at hl
    obtain ⟨ok, w₁⟩ := r
    cases ok with
    | false => exact (ih w₁).after hl
    | true =>
      have ht := tstamp_later w₁
      dsimp only
      split
      · exact .calm (hl.trans (ht.trans (toSrv_later _))) rfl rfl
          (.inr ⟨_, hl.now_le.trans ht.now_le, (toSrv_later _).now_le, rfl⟩)
      · exact .calm (hl.trans ht) rfl rfl
          (.inr ⟨_, hl.now_le.trans ht.now_le, Nat.le_refl _, rfl⟩)

theorem operate_planned (sett : Settings) (s : Serv) (w : World) :
    Planned sett s w (operate sett s w).1 (operate sett s w).2.2.1 (operate sett s w).2.2.2 := by
  have hc := tryconnect_planned sett sett.srvlist s w
  have hp := processSendq_planned sett s w
  have hb := doHeartbeat_planned sett (processSendq sett s w).2.2.1 (processSendq sett s w).2.2.2
  rw [SendQueue.operate]
  split
  · split
    · exact .calm (Later.refl w) rfl rfl (.inl rfl)
    · generalize tryconnect sett sett.srvlist s w = r at hc
      obtain ⟨ok, s', w'⟩ := r
      cases ok with
      | false => exact hc
      | true => exact ⟨hc.later, hc.time, hc.quitat, hc.nextsend, hc.nexthb⟩
  · generalize processSendq sett s w = r at hp hb
    obtain ⟨a, n, s', w'⟩ := r
    dsimp only
    split
    · exact hp
    · exact hp.trans hb

end Operation

section Attention

variable {opt : Options} {l l' : Loop}

structure Attended (opt : Options) (l l' : Loop) : Prop where
  planned : ∃ a, l'.log = l.log ++ a.toList ∧
    Planned opt.serv l.serv l.world a l'.serv l'.world
  input : l'.input = l.input
  naps : l'.naps = l.naps

theorem attend_attended (opt : Options) (idle : Bool) (l : Loop) :
    Attended opt l (attend opt idle l).2 := by
  have ht := tstamp_later l.world
  have hp := operate_planned opt.serv l.serv l.world.tstamp.2
  rw [attend]
  dsimp only
  split
  · exact ⟨⟨none, (List.append_nil _).symm, .calm ht rfl rfl (.inl rfl)⟩, rfl, rfl⟩
  · generalize operate opt.serv l.serv l.world.tstamp.2 = r at hp
    obtain ⟨a, ok, serv, world⟩ := r
    have hdone := hp.after ht
    cases ok with
    | true => exact ⟨⟨a, rfl, hdone⟩, rfl, rfl⟩
    | false =>
      dsimp only
      split
      · exact ⟨⟨a, rfl, hdone⟩, rfl, rfl⟩
      · exact ⟨⟨a, rfl, hdone.trans (.calm (tstamp_later _) rfl rfl (.inl rfl))⟩, rfl, rfl⟩

structure Dozed (opt : Options) (tquit : Nat) (l l' : Loop) : Prop where
  serv : l'.serv = l.serv
  log : l'.log = l.log
  input : l'.input = l.input
  later : Later l.world l'.world
  connects : l'.world.connects = l.world.connects
  naps : ∀ n ∈ l'.naps, n ∈ l.naps ∨ n.serv = l.serv ∧ n.log = l.log ∧ n.tquit = tquit ∧
    l.world.now ≤ n.now ∧ n.now ≤ l'.world.now ∧
    ∃ ssl, timeoutAt opt tquit n.now ssl l.serv = some n.timeout

theorem doze_dozed (opt : Options) (tquit : Nat) (l : Loop) :
    Dozed opt tquit l (doze opt tquit l) := by
  have ht := tstamp_later l.world
  have hw := tick_later l.world.tstamp.2
  have hw' := tick_later l.world.tstamp.2.tick
  rw [doze]
  split
  · dsimp only
    cases hto : timeoutAt opt tquit l.world.tstamp.1 (l.selects.headD ⟨false, true⟩).ssl l.serv with
    | none => exact ⟨rfl, rfl, rfl, ht, tstamp_connects _, fun _ h => .inl h⟩
    | some timeout =>
      have hl : Later l.world (if (l.selects.headD ⟨false, true⟩).ok then l.world.tstamp.2.tick
          else l.world.tstamp.2.tick.tick) := by
        split
        · exact ht.trans hw
        · exact ht.trans (hw.trans hw')
      refine ⟨rfl, rfl, rfl, hl, ?_, fun n hn => ?_⟩
      · dsimp only
        split <;> simp
      · obtain hn | hn := List.mem_append.1 hn
        · exact .inl hn
        · obtain rfl := List.mem_singleton.1 hn
          refine .inr ⟨rfl, rfl, rfl, ht.now_le, ?_, _, hto⟩
          dsimp only
          split
          · exact hw.now_le
          · exact hw.now_le.trans hw'.now_le
  · exact ⟨rfl, rfl, rfl, tick_later _, tick_connects _, fun _ h => .inl h⟩

end Attention

section Rounds

variable {opt : Options} {P : Loop → Prop} {l : Loop}

theorem rounds_keep (hcalm : ∀ l l', P l → Calm l l' → P l')
    (hproceed : ∀ idle l, P l → P (proceed opt idle l).2) (k : Nat) (h : P l) :
    Ensures (rounds opt k l) fun r => P r.2 := by
  have hround : ∀ l, P l → Ensures (round opt l) fun r => P r.2 := by
    intro l h
    refine (fromServer_calm opt l).bind fun r hr => ?_
    obtain ⟨idle, l₁⟩ := r
    have h₁ : P l₁ := hcalm l l₁ h hr
    cases idle with
    | none => exact Ensures.ok h₁
    | some idle =>
      refine (fromUser_calm opt idle l₁).bind fun r hr => ?_
      exact Ensures.ok (hproceed r.1 r.2 (hcalm l₁ r.2 h₁ hr))
  induction k generalizing l with
  | zero => exact Ensures.ok h
  | succ k ih =>
    refine (hround l h).bind fun r hr => ?_
    obtain ⟨goes, l₁⟩ := r
    cases goes with
    | false => exact Ensures.ok hr
    | true => exact ih hr

end Rounds

end Srsirc.Schedule
