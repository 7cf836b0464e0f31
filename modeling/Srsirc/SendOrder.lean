import Srsirc.SendQueue

namespace Srsirc.SendOrder

open CharMap SendQueue

structure Later (w w' : World) : Prop where
  now_le : w.now ≤ w'.now
  horizon : w'.horizon = w.horizon

theorem Later.refl (w : World) : Later w w := ⟨Nat.le_refl _, rfl⟩

theorem Later.trans {w w' w'' : World} (h : Later w w') (h' : Later w' w'') : Later w w'' :=
  ⟨h.now_le.trans h'.now_le, h'.horizon.trans h.horizon⟩

theorem Later.now_le_horizon {w w' : World} (h : Later w w') : w'.now ≤ w.horizon := by
  rw [← h.horizon]
  exact Nat.le_add_right _ _

theorem tick_later (w : World) : Later w w.tick := by
  obtain ⟨now, ticks, writes, connects⟩ := w
  cases ticks with
  | nil => exact Later.refl _
  | cons d ds => exact ⟨Nat.le_add_right _ _, by simp [World.tick, World.horizon, Nat.add_assoc]⟩

theorem tstamp_later (w : World) : Later w w.tstamp.2 := tick_later w

theorem toSrv_later (w : World) : Later w w.toSrv.2 :=
  ⟨(tick_later w).now_le, (tick_later w).horizon⟩

theorem connect_later (w : World) : Later w w.connect.2 := ⟨Nat.le_refl _, rfl⟩

structure Frame (s : Serv) (w : World) (s' : Serv) (w' : World) : Prop where
  outQ : s'.outQ = s.outQ
  nextsend : s'.nextsend = s.nextsend
  later : Later w w'

theorem handlePING_frame (s : Serv) (w : World) :
    Frame s w (handlePING s w).1 (handlePING s w).2 := by
  have hl := toSrv_later w
  simp only [handlePING]
  split
  all_goals
    next h =>
    rw [h] at hl
    exact ⟨rfl, rfl, hl⟩

theorem doHeartbeat_frame (sett : Settings) (s : Serv) (w : World) :
    Frame s w (doHeartbeat sett s w).2.1 (doHeartbeat sett s w).2.2 := by
  have hl := tstamp_later w
  have hl' := hl.trans (tstamp_later w.tstamp.2)
  have hl'' := hl'.trans (toSrv_later w.tstamp.2.tstamp.2)
  simp only [doHeartbeat]
  split
  · exact ⟨rfl, rfl, Later.refl w⟩
  · split
    · exact ⟨rfl, rfl, hl⟩
    · split
      · exact ⟨rfl, rfl, hl⟩
      · split
        all_goals
          next h =>
          rw [h] at hl''
          exact ⟨rfl, rfl, hl''⟩

theorem tryconnect_frame (sett : Settings) (srvs : List Str) (s : Serv) (w : World) :
    Frame s w (tryconnect sett srvs s w).2.1 (tryconnect sett srvs s w).2.2 := by
  induction srvs generalizing w with
  | nil => exact ⟨rfl, rfl, Later.refl w⟩
  | cons _ srvs ih =>
    have hl := connect_later w
    simp only [tryconnect]
    split
    · next h =>
      rw [h] at hl
      have hi := ih w.connect.2
      rw [h] at hi
      exact ⟨hi.outQ, hi.nextsend, hl.trans hi.later⟩
    · next h =>
      rw [h] at hl
      have ht := hl.trans (tstamp_later _)
      refine ⟨rfl, rfl, ?_⟩
      split
      · exact ht.trans (toSrv_later _)
      · exact ht

theorem sendTime_later (s : Serv) (w : World) : Later w (sendTime s w).2 := by
  simp only [sendTime]
  split
  · exact Later.refl w
  · exact tstamp_later w

theorem sendTime_due {s : Serv} {w : World} (h : (sendTime s w).1 = true) (hf : s.freelines = 0) :
    s.nextsend ≤ (sendTime s w).2.now := by
  rw [sendTime, if_neg (by omega)] at h ⊢
  exact of_decide_eq_true h

theorem sentLine_frame (sett : Settings) (line : Str) (rest : List Str) (s : Serv) (w : World) :
    (sentLine sett line rest s w).1.outQ = rest ∧ Later w (sentLine sett line rest s w).2 ∧
      (sentLine sett line rest s w).1.nextsend =
        ((sentLine sett line rest s w).2.now + sett.linedelay) % 2 ^ 64 := by
  have hq : Later w (quitSeen line s w).2 := by
    rw [quitSeen]
    split
    · exact tstamp_later w
    · exact Later.refl w
  exact ⟨rfl, hq.trans (tstamp_later _), rfl⟩

/-- How `processSendq` can end. -/
inductive Processed (sett : Settings) (s : Serv) (w : World) :
    Option Attempt × Int × Serv × World → Prop
  | idle {w' : World} (hl : Later w w') : Processed sett s w (none, 0, s, w')
  | failed {a : Attempt} {s' : Serv} {w' : World} (ha : s.outQ.head? = some a.line)
      (hok : a.ok = false) (hf : Frame s w s' w') : Processed sett s w (some a, -1, s', w')
  | sent {a : Attempt} {s' : Serv} {w' : World} (hq : s.outQ = a.line :: s'.outQ)
      (hok : a.ok = true) (hl : Later w w') (hdue : a.free = 0 → s.nextsend ≤ a.time)
      (htime : a.time ≤ w'.now) (hnext : s'.nextsend = (w'.now + sett.linedelay) % 2 ^ 64) :
      Processed sett s w (some a, 1, s', w')

theorem processSendq_processed (sett : Settings) (s : Serv) (w : World) :
    Processed sett s w (processSendq sett s w) := by
  simp only [processSendq]
  split
  · exact .idle (Later.refl w)
  · next line rest hq =>
    have ht := sendTime_later s w
    cases hs : sendTime s w with
    | mk due w₁ =>
      rw [hs] at ht
      cases due with
      | false => exact .idle ht
      | true =>
        have hw := toSrv_later w₁
        simp only
        cases ho : w₁.toSrv with
        | mk ok w₂ =>
          rw [ho] at hw
          cases ok with
          | false => exact .failed (by rw [hq]; rfl) rfl ⟨rfl, rfl, ht.trans hw⟩
          | true =>
            have hf := sentLine_frame sett line rest s w₂
            simp only
            generalize sentLine sett line rest s w₂ = r at hf ⊢
            obtain ⟨hrest, hl, hnext⟩ := hf
            refine .sent ?_ rfl ((ht.trans hw).trans hl) ?_ hl.now_le hnext
            · rw [hrest]
              exact hq
            · intro hfree
              have hdue := sendTime_due (w := w) (by rw [hs]) hfree
              rw [hs] at hdue
              exact hdue.trans hw.now_le

def accepted (log : List Attempt) : List Attempt := log.filter (·.ok)

/-- A later line that no free line lets through keeps its distance. -/
def Apart (linedelay : Nat) (a b : Attempt) : Prop := b.free = 0 → a.time + linedelay ≤ b.time

/-- What holds of the lines queued and tried so far. -/
structure Orderly (sett : Settings) (lines : List Str) (log : List Attempt) (s : Serv) : Prop where
  fifo : (accepted log).map (·.line) ++ s.outQ = lines
  tried : ∀ pre a post, log = pre ++ a :: post → lines[(accepted pre).length]? = some a.line
  apart : (accepted log).IsChain (Apart sett.linedelay)
  next : ∀ a ∈ (accepted log).getLast?, a.time + sett.linedelay ≤ s.nextsend

variable {sett : Settings} {lines : List Str} {log : List Attempt} {s s' : Serv} {w w' : World}

theorem Orderly.frame (h : Orderly sett lines log s) (hq : s'.outQ = s.outQ)
    (hn : s'.nextsend = s.nextsend) : Orderly sett lines log s' :=
  ⟨hq ▸ h.fifo, h.tried, h.apart, hn ▸ h.next⟩

theorem enqueue_eq (line : Str) (q : List Str) : enqueue line q = q ++ [line] := by
  induction q with
  | nil => rfl
  | cons l q ih => rw [enqueue, ih, List.cons_append]

theorem Orderly.printf (h : Orderly sett lines log s) (text : Str) :
    Orderly sett (lines ++ [queuedLine text]) log (printf text s).2 := by
  refine ⟨?_, ?_, h.apart, h.next⟩
  · rw [SendQueue.printf, enqueue_eq, ← List.append_assoc, h.fifo]
  · intro pre a post hlog
    have ht := h.tried pre a post hlog
    obtain ⟨hlt, -⟩ := List.getElem?_eq_some_iff.mp ht
    rw [List.getElem?_append_left hlt, ht]

/-- A new attempt at the line in front of the queue. -/
theorem tried_concat (h : Orderly sett lines log s) {a : Attempt}
    (ha : s.outQ.head? = some a.line) :
    ∀ pre b post, log ++ [a] = pre ++ b :: post → lines[(accepted pre).length]? = some b.line := by
  intro pre b post hlog
  obtain rfl | ⟨init, p, rfl⟩ := List.eq_nil_or_concat' post
  · obtain ⟨rfl, hab⟩ := List.append_inj' hlog rfl
    obtain rfl := List.singleton_inj.mp hab
    obtain ⟨rest, hq⟩ := List.head?_eq_some_iff.mp ha
    rw [← h.fifo, hq]
    simp
  · have hsplit : log ++ [a] = (pre ++ b :: init) ++ [p] := by rw [hlog]; simp
    exact h.tried pre b init (List.append_inj' hsplit rfl).1

theorem accepted_concat (log : List Attempt) (a : Attempt) :
    accepted (log ++ [a]) = accepted log ++ if a.ok then [a] else [] := by
  cases ha : a.ok <;> simp [accepted, ha]

theorem Orderly.failed (h : Orderly sett lines log s) {a : Attempt}
    (ha : s.outQ.head? = some a.line) (hok : a.ok = false) (hq : s'.outQ = s.outQ)
    (hn : s'.nextsend = s.nextsend) : Orderly sett lines (log ++ [a]) s' := by
  have hacc : accepted (log ++ [a]) = accepted log := by simp [accepted_concat, hok]
  refine ⟨?_, tried_concat h ha, ?_, ?_⟩
  · rw [hacc, hq, h.fifo]
  · rw [hacc]
    exact h.apart
  · rw [hacc, hn]
    exact h.next

theorem Orderly.sent (h : Orderly sett lines log s) {a : Attempt}
    (hq : s.outQ = a.line :: s'.outQ) (hok : a.ok = true) (hdue : a.free = 0 → s.nextsend ≤ a.time)
    (hnext : a.time + sett.linedelay ≤ s'.nextsend) : Orderly sett lines (log ++ [a]) s' := by
  have hacc : accepted (log ++ [a]) = accepted log ++ [a] := by simp [accepted_concat, hok]
  refine ⟨?_, tried_concat h (by rw [hq]; rfl), ?_, ?_⟩
  · rw [hacc, ← h.fifo, hq]
    simp
  · rw [hacc, List.isChain_append]
    refine ⟨h.apart, by simp, ?_⟩
    intro b hb c hc hfree
    obtain rfl : a = c := by simpa using hc
    exact (h.next b hb).trans (hdue hfree)
  · rw [hacc]
    intro b hb
    obtain rfl : a = b := by simpa using hb
    exact hnext

theorem Orderly.processed (h : Orderly sett lines log s)
    (hclock : w.horizon + sett.linedelay < 2 ^ 64)
    {r : Option Attempt × Int × Serv × World} (hr : Processed sett s w r) :
    Orderly sett lines (log ++ r.1.toList) r.2.2.1 ∧ Later w r.2.2.2 := by
  cases hr with
  | idle hl => exact ⟨by simpa using h, hl⟩
  | failed ha hok hf => exact ⟨h.failed ha hok hf.outQ hf.nextsend, hf.later⟩
  | sent hq hok hl hdue htime hnext =>
    have hle := hl.now_le_horizon
    refine ⟨h.sent hq hok hdue ?_, hl⟩
    rw [hnext, Nat.mod_eq_of_lt (by omega)]
    omega

theorem Orderly.operate (h : Orderly sett lines log s)
    (hclock : w.horizon + sett.linedelay < 2 ^ 64) :
    Orderly sett lines (log ++ (operate sett s w).1.toList) (operate sett s w).2.2.1 ∧
      Later w (operate sett s w).2.2.2 := by
  have hc := tryconnect_frame sett sett.srvlist s w
  have hp := h.processed hclock (processSendq_processed sett s w)
  have hb := doHeartbeat_frame sett (processSendq sett s w).2.2.1 (processSendq sett s w).2.2.2
  simp only [SendQueue.operate]
  split
  · split
    · exact ⟨by simpa using h, Later.refl w⟩
    · split
      all_goals
        next ht =>
        rw [ht] at hc
        rw [Option.toList_none, List.append_nil]
        exact ⟨h.frame hc.outQ hc.nextsend, hc.later⟩
  · split
    · exact hp
    · exact ⟨hp.1.frame hb.outQ hb.nextsend, hp.2.trans hb.later⟩

theorem Orderly.call (h : Orderly sett lines log s) (hclock : w.horizon + sett.linedelay < 2 ^ 64)
    (call : Call) :
    Orderly sett (lines ++ queued [call]) (log ++ (call.run sett s w).1) (call.run sett s w).2.1 ∧
      Later w (call.run sett s w).2.2 := by
  cases call with
  | printf text => exact ⟨by simpa [Call.run, queued] using h.printf text, Later.refl w⟩
  | operate => simpa [Call.run, queued] using h.operate hclock
  | read r =>
    refine ⟨?_, Later.refl w⟩
    have hr : (SendQueue.read r s).outQ = s.outQ ∧ (SendQueue.read r s).nextsend = s.nextsend := by
      rw [SendQueue.read]
      split <;> exact ⟨rfl, rfl⟩
    simpa [Call.run, queued] using h.frame hr.1 hr.2
  | ping =>
    have hf := handlePING_frame s w
    exact ⟨by simpa [Call.run, queued] using h.frame hf.outQ hf.nextsend, hf.later⟩
  | pong =>
    have hf : Orderly sett lines log (handlePONG s) := h.frame rfl rfl
    exact ⟨by simpa [Call.run, queued] using hf, Later.refl w⟩

theorem Orderly.run (calls : List Call) :
    ∀ {lines : List Str} {log : List Attempt} {s : Serv} {w : World}, Orderly sett lines log s →
      w.horizon + sett.linedelay < 2 ^ 64 →
      Orderly sett (lines ++ queued calls) (log ++ (run sett s w calls).1)
        (run sett s w calls).2.1 := by
  induction calls with
  | nil =>
    intro lines log s w h _
    simpa [SendQueue.run, queued] using h
  | cons call calls ih =>
    intro lines log s w h hclock
    obtain ⟨hcall, hlater⟩ := h.call hclock call
    have hrest := ih hcall (by rw [hlater.horizon]; exact hclock)
    have hqueued : queued (call :: calls) = queued [call] ++ queued calls := by
      simp only [queued, ← List.filterMap_append, List.singleton_append]
    rw [hqueued, ← List.append_assoc]
    simpa only [SendQueue.run, List.append_assoc] using hrest

theorem orderly_init (sett : Settings) (nexthb freelines : Nat) :
    Orderly sett [] [] (Serv.init nexthb freelines) :=
  ⟨rfl, by simp, by simp [accepted], by simp [accepted]⟩

/-- In every run the lines that are accepted, together with those still in the queue, are the
queued ones in order; every attempt is at the first line not accepted before; and a line that is
sent without a free line keeps the delay behind the one before it. -/
theorem sent_in_order (sett : Settings) (nexthb freelines : Nat) (calls : List Call) (w : World)
    (hclock : w.horizon + sett.linedelay < 2 ^ 64) :
    Orderly sett (queued calls) (run sett (Serv.init nexthb freelines) w calls).1
      (run sett (Serv.init nexthb freelines) w calls).2.1 := by
  simpa using (orderly_init sett nexthb freelines).run calls hclock

def slow : Settings := ⟨2000000, 0, [ascii "irc.example.org"], true, []⟩

def flaky : World := ⟨1000, [0, 7, 0, 0, 0, 0, 1500000, 600000], [false, true, true], [true]⟩

def chat : List Call :=
  [.printf (ascii "PRIVMSG #c :a"), .printf (ascii "QUIT"), .operate, .operate, .operate, .operate,
    .operate]

theorem sent_in_order_flaky :
    Orderly slow (queued chat) (run slow (Serv.init 0 0) flaky chat).1
      (run slow (Serv.init 0 0) flaky chat).2.1 :=
  sent_in_order slow 0 0 chat flaky (by decide)

example : (run slow (Serv.init 0 0) flaky chat).1.map (·.ok) = [false, true, true] := by decide

end Srsirc.SendOrder
