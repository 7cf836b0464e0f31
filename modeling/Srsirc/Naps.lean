import Srsirc.QuitPhase

namespace Srsirc.Naps

open CharMap Conveyance Fallible MainLoop QuitPhase Schedule SendOrder SendQueue UserInput

/-- The clock does not run over before anything that is planned. -/
structure Ample (opt : Options) (w : World) : Prop where
  line : w.horizon + opt.linedelay < 2 ^ 64
  beat : w.horizon + opt.hbeatUs < 2 ^ 64
  quit : w.horizon + opt.waitquitUs < 2 ^ 64

theorem Ample.later {opt : Options} {w w' : World} (h : Ample opt w) (hl : Later w w') :
    Ample opt w' := by
  obtain ⟨h₁, h₂, h₃⟩ := h
  exact ⟨by rwa [hl.horizon], by rwa [hl.horizon], by rwa [hl.horizon]⟩

def Ends (n : Nap) (due : Nat) : Prop := 0 < n.timeout ∧ n.now + n.timeout ≤ due

/-- The loop wakes up for the end of the wait after a QUIT, for the next line and for the next
heartbeat. It knows of the QUIT unless that was sent just now. -/
structure Punctual (opt : Options) (n : Nap) : Prop where
  quit : n.tquit ≠ 0 → Ends n (n.tquit + opt.waitquitUs)
  line : n.tquit = 0 → n.serv.outQ ≠ [] → accepted n.log ≠ [] → Ends n n.serv.nextsend
  beat : n.tquit = 0 → opt.hbeatUs ≠ 0 → n.serv.outQ = [] ∨ accepted n.log ≠ [] →
    Ends n n.serv.nexthb
  known : n.tquit = n.serv.quitat ∨
    ∃ a ∈ n.log.getLast?, a.ok = true ∧ isQuit a.line = true

section Timeouts

variable {opt : Options} {s : Serv}

theorem attentionAt_line (hq : s.outQ ≠ []) (hn : 0 < s.nextsend) :
    0 < attentionAt opt s ∧ attentionAt opt s ≤ s.nextsend := by
  rw [attentionAt]
  generalize (if opt.hbeatUs = 0 then 0 else s.nexthb) = attat
  by_cases h : attat = 0 ∨ s.nextsend < attat
  · rw [if_pos ⟨hq, h⟩]
    exact ⟨hn, Nat.le_refl _⟩
  · rw [if_neg fun h' => h h'.2]
    omega

theorem attentionAt_beat (hb : opt.hbeatUs ≠ 0) (hn : 0 < s.nexthb)
    (hq : s.outQ = [] ∨ 0 < s.nextsend) :
    0 < attentionAt opt s ∧ attentionAt opt s ≤ s.nexthb := by
  rw [attentionAt, if_neg hb]
  split
  · next h =>
    have hsend := hq.resolve_left h.1
    omega
  · exact ⟨hn, Nat.le_refl _⟩

/-- When something is due, the loop sleeps at most until then. -/
theorem timeoutAt_ends {tquit now timeout due : Nat} {ssl : Bool}
    (h : timeoutAt opt tquit now ssl s = some timeout)
    (hdue : (if tquit = 0 then attentionAt opt s else (tquit + opt.waitquitUs) % 2 ^ 64) = due)
    (hpos : 0 < due) : 0 < timeout ∧ now + timeout ≤ due := by
  rw [timeoutAt, hdue] at h
  split at h
  · cases h
  · next hnow =>
    have hlater : now < due := by
      by_contra hge
      exact hnow ⟨by omega, by omega⟩
    cases h
    split <;> omega

end Timeouts

section Rounds

variable {opt : Options} {l : Loop}

/-- What is planned lies ahead of zero, the value for nothing. -/
structure Timed (opt : Options) (l : Loop) : Prop where
  clock : 0 < l.world.now
  ample : Ample opt l.world
  past : l.serv.quitat ≤ l.world.now
  sent : accepted l.log ≠ [] → 0 < l.serv.nextsend
  beat : opt.hbeatUs ≠ 0 → 0 < l.serv.nexthb
  naps : ∀ n ∈ l.naps, Punctual opt n

theorem Timed.calm {l' : Loop} (h : Timed opt l) (hc : Calm l l') : Timed opt l' := by
  obtain ⟨hclock, hample, hpast, hsent, hbeat, hnaps⟩ := h
  refine ⟨hclock.trans_le hc.later.now_le, hample.later hc.later, ?_, ?_, ?_, ?_⟩
  · rw [hc.quitat]
    exact hpast.trans hc.later.now_le
  · rw [hc.log, hc.nextsend]
    exact hsent
  · rw [hc.nexthb]
    exact hbeat
  · rw [hc.naps]
    exact hnaps

theorem due_pos {delay at' : Nat} {w w' : World} (hclock : 0 < w.now) (hl : Later w w')
    (hfits : w.horizon + delay < 2 ^ 64) (h : Due delay w w' at') : 0 < at' := by
  obtain ⟨t, hfrom, hto, rfl⟩ := h
  have hle := hl.now_le_horizon
  rw [Nat.mod_eq_of_lt (by omega)]
  omega

theorem Timed.attend (h : Timed opt l) (idle : Bool) : Timed opt (attend opt idle l).2 := by
  obtain ⟨hclock, hample, hpast, hsent, hbeat, hnaps⟩ := h
  obtain ⟨⟨a, hlog, hp⟩, -, hsame⟩ := attend_attended opt idle l
  have hnow := hp.later.now_le
  refine ⟨hclock.trans_le hnow, hample.later hp.later, ?_, ?_, fun hb => ?_, ?_⟩
  · obtain ⟨heq, -⟩ | ⟨_, -, -, -, -, hpast'⟩ := hp.quitat
    · omega
    · exact hpast'
  · obtain ⟨heq, hnone⟩ | hdue := hp.nextsend
    · intro hne
      obtain ⟨b, hb⟩ := List.exists_mem_of_ne_nil _ hne
      rw [hlog] at hb
      obtain hb | ⟨hb, hok⟩ := mem_accepted_append hb
      · rw [heq]
        exact hsent (List.ne_nil_of_mem hb)
      · rw [hnone b hb] at hok
        cases hok
    · exact fun _ => due_pos hclock hp.later hample.line hdue
  · obtain heq | hdue := hp.nexthb
    · rw [heq]
      exact hbeat hb
    · exact due_pos hclock hp.later hample.beat hdue
  · rw [hsame]
    exact hnaps

/-- What `tquit` is when the loop waits. -/
def Known (tquit : Nat) (l : Loop) : Prop :=
  tquit = l.serv.quitat ∨ ∃ a ∈ l.log.getLast?, a.ok = true ∧ isQuit a.line = true

theorem attend_known (opt : Options) (idle : Bool) (l : Loop) :
    Known l.serv.quitat (attend opt idle l).2 := by
  obtain ⟨⟨a, hlog, hp⟩, -, -⟩ := attend_attended opt idle l
  obtain ⟨heq, -⟩ | ⟨b, hb, hok, hquit, -⟩ := hp.quitat
  · exact .inl heq.symm
  · refine .inr ⟨b, ?_, hok, hquit⟩
    rw [hlog, Option.mem_def.1 hb, Option.toList_some, List.getLast?_concat]
    rfl

theorem Timed.doze {tquit : Nat} (h : Timed opt l) (htquit : tquit ≤ l.world.now)
    (hknown : Known tquit l) : Timed opt (doze opt tquit l) := by
  have hd := doze_dozed opt tquit l
  obtain ⟨hclock, hample, hpast, hsent, hbeat, hnaps⟩ := h
  refine ⟨hclock.trans_le hd.later.now_le, hample.later hd.later, ?_, ?_, ?_, fun n hn => ?_⟩
  · rw [hd.serv]
    exact hpast.trans hd.later.now_le
  · rw [hd.log, hd.serv]
    exact hsent
  · rw [hd.serv]
    exact hbeat
  · obtain hn | ⟨hs, hlog, rfl, -, -, ssl, hto⟩ := hd.naps n hn
    · exact hnaps n hn
    · refine ⟨fun hq => ?_, fun hq hout hacc => ?_, fun hq hb hout => ?_, ?_⟩
      · have hle : n.tquit ≤ l.world.horizon := htquit.trans (Nat.le_add_right _ _)
        have hquit := hample.quit
        refine timeoutAt_ends hto ?_ (by omega)
        rw [if_neg hq, Nat.mod_eq_of_lt (by omega)]
      · rw [hs] at hout ⊢
        rw [hlog] at hacc
        obtain ⟨hpos, hle⟩ := @attentionAt_line opt _ hout (hsent hacc)
        obtain ⟨hlong, hends⟩ := timeoutAt_ends hto (if_pos hq) hpos
        exact ⟨hlong, hends.trans hle⟩
      · rw [hs, hlog] at hout
        rw [hs]
        obtain ⟨hpos, hle⟩ := attentionAt_beat hb (hbeat hb) (hout.imp id hsent)
        obtain ⟨hlong, hends⟩ := timeoutAt_ends hto (if_pos hq) hpos
        exact ⟨hlong, hends.trans hle⟩
      · rw [hs, hlog]
        exact hknown

theorem Timed.proceed (idle : Bool) (h : Timed opt l) : Timed opt (proceed opt idle l).2 := by
  have hleft := h.calm (leaves_calm opt l)
  rw [MainLoop.proceed]
  generalize leaves opt l = r at hleft
  obtain ⟨left, world⟩ := r
  cases left with
  | true => exact hleft
  | false =>
    have hattend : Timed opt (MainLoop.attend opt idle { l with world }).2 := hleft.attend idle
    have hknown := attend_known opt idle { l with world }
    have hpast := hleft.past.trans
      (attend_attended opt idle { l with world }).planned.choose_spec.2.later.now_le
    dsimp only at hpast hknown ⊢
    generalize MainLoop.attend opt idle { l with world } = r at hattend hknown hpast
    obtain ⟨idle, l'⟩ := r
    cases idle with
    | true => exact hattend.doze hpast hknown
    | false => exact hattend

end Rounds

/-- Whatever happens, the loop never sleeps beyond the time that something is due. -/
theorem naps_punctual {opt : Options} {serv : Serv} {world : World} {src : Stdin}
    {reads : List ServerRead} {selects : List Selected} (hquitat : serv.quitat = 0)
    (hnexthb : opt.hbeatUs ≠ 0 → serv.nexthb ≠ 0) (hclock : 0 < world.now)
    (hample : Ample opt world) (k : Nat) :
    Ensures (rounds opt k (.start serv world src reads selects)) fun r =>
      ∀ n ∈ r.2.naps, Punctual opt n := by
  have hstart : Timed opt (.start serv world src reads selects) := by
    refine ⟨hclock, hample, ?_, fun h => absurd rfl h, fun hb => Nat.pos_of_ne_zero (hnexthb hb),
      fun _ hn => absurd hn List.not_mem_nil⟩
    change serv.quitat ≤ world.now
    omega
  refine (rounds_keep (fun _ _ => Timed.calm) (fun idle _ => Timed.proceed idle) k hstart).mono ?_
  exact fun r hr => hr.naps

def patient : Options := { persistent with linedelay := 2000000, hbeatUs := 5000000 }

def twice : Stdin := [.chunk 0x68 [0x0a, 0x69, 0x0a], .idle, .idle, .idle]

def woken : World :=
  ⟨1000, List.replicate 17 0 ++ [1800000] ++ List.replicate 12 0 ++ [1200000] ++
    List.replicate 20 0, [true, true, true], []⟩

theorem naps_punctual_woken :
    Ensures (rounds patient 7 (.start (Serv.init 5001000 0) woken twice [] [])) fun r =>
      ∀ n ∈ r.2.naps, Punctual patient n :=
  naps_punctual rfl (by decide) (by decide) ⟨by decide, by decide, by decide⟩ 7

/-- But a line that is in the queue before anything was sent can be left there when the
connection is back: then nothing is due, and the loop sleeps without an end. -/
example : ((rounds persistent 4 (.start (Serv.init 0 0) ⟨1000, [], [false], [true]⟩
    [.idle, .chunk 0x68 [0x0a], .idle, .idle] [] [])).toOption.any fun r =>
      r.2.naps.any fun n => n.timeout = 0 ∧ n.serv.outQ ≠ []) = true := by decide +kernel

end Srsirc.Naps
