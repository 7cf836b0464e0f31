import Srsirc.InputLines

namespace Srsirc.OverlongLines

open CharMap Memory UserInput InputLines TerminatedLines

/-- A run that stays inside the buffer, in which every newline that is looked for is found. -/
def Safe (src : Stdin) (calls : List Call) : Prop :=
  ∃ log i src', run Input.init src calls = some (log, i, src') ∧ Bounds i

def Sane (i : Input) (src : Stdin) : Prop :=
  ∀ calls : List Call, (∀ call ∈ calls, call.Fits) → run i src calls ≠ none

structure Stands (i : Input) (src : Stdin) (s : Str) : Prop where
  layout : ∃ pre d post, Layout i pre d post ∧ s = d ++ src.bytes
  ended : i.eof = true → src = []
  nonzero : ∀ c ∈ s, c ≠ 0

variable {i i' : Input} {src src' : Stdin} {pre d post : Mem} {s : Str}

theorem Sane.step (h : Sane i src) {call : Call} (hc : call.Fits) {log : List Taken}
    (hrun : call.run i src = some (log, i', src')) : Sane i' src' := by
  intro calls hcalls hno
  refine h (call :: calls) (List.forall_mem_cons.2 ⟨hc, hcalls⟩) ?_
  simp [run, hrun, hno]

theorem Sane.canread (h : Sane i src) : canread i src ≠ none := by
  intro hno
  refine h [.canread] (by simp [Call.Fits]) ?_
  simp [run, Call.run, hno]

/-- In a full buffer the newline goes to the last byte, and the terminator behind that. -/
theorem canread_full (h : Layout i pre d post) (hz : ∀ c ∈ d, c ≠ 0) (hn : newline ∉ d)
    (hfull : d.length = bufsz) :
    ∃ i' post', Layout i' pre d (0 :: post') ∧ UserInput.canread i src =
      if (src.canread).1 ≤ 0 then some (false, i', (src.canread).2) else none := by
  have hcnt := h.bufCnt
  have hne : ¬bufCnt i = 0 := by
    rw [hcnt, hfull]
    decide
  obtain ⟨i', post', hst, hl, -⟩ := h.sentinel
  refine ⟨i', post', hl, ?_⟩
  simp only [UserInput.canread, if_neg hne, hst, Option.bind_eq_bind, Option.bind_some]
  rw [if_neg (mt (isSome_findNewline hl hz).1 hn), readMore]
  dsimp only
  split
  · rfl
  · have hsz := hl.size
    have hrem := hl.bufRem
    rw [List.length_cons] at hsz hrem
    have hpre : pre.length = 0 := by omega
    have hhead : i'.bufhead = 0 := hl.bufhead.trans hpre
    have htail : i'.buftail = bufsz := by rw [hl.buftail, hpre, hfull, Nat.zero_add]
    have hlen : i'.inbuf.length = bufsz + 1 := by
      rw [hl.inbuf, List.length_append, List.length_append, List.length_cons]
      exact hsz
    rw [if_pos (by omega), if_pos hhead, Input.store, if_pos (by omega), Option.bind_eq_bind,
      Option.bind_some, Input.store, if_neg (by dsimp only; rw [List.length_set]; omega)]
    rfl

/-- Once the buffer is full of a line that goes on, some call leads out of it. -/
theorem full_insane (h : Layout i pre d post) (hz : ∀ c ∈ d, c ≠ 0) (hn : newline ∉ d)
    (hfull : d.length = bufsz) : ¬Sane i src := by
  intro hsane
  induction src generalizing i post with
  | nil =>
    obtain ⟨_, _, -, hcan⟩ := @canread_full _ [] _ _ _ h hz hn hfull
    exact hsane.canread hcan
  | cons a src ih =>
    obtain ⟨i', post', hl, hcan⟩ := @canread_full _ (a :: src) _ _ _ h hz hn hfull
    have hnext : (Stdin.canread (a :: src)).1 ≤ 0 → Sane i' (Stdin.canread (a :: src)).2 := by
      intro hle
      rw [if_pos hle] at hcan
      exact @Sane.step _ _ _ _ hsane .canread trivial _ (by rw [Call.run, hcan]; rfl)
    cases a with
    | idle | pollFailure => exact ih hl (hnext (by simp [Stdin.canread]))
    | chunk | readFailure =>
      refine hsane.canread (hcan.trans (if_neg ?_))
      simp [Stdin.canread]

theorem fits_plain {w : Str} (hn : newline ∉ w) (hlt : w.length < bufsz) :
    Fits newline bufsz w := by
  refine ⟨?_, ?_⟩
  · rw [lines_plain hn]
    exact fun l hl => by cases hl
  · rw [unterminated_plain hn]
    exact hlt

theorem fits_line {w t : Str} (hn : newline ∉ w) (hle : w.length + 1 ≤ bufsz)
    (ht : Fits newline bufsz t) : Fits newline bufsz (w ++ newline :: t) := by
  refine ⟨?_, ?_⟩
  · rw [lines_line hn, List.forall_mem_cons, List.length_append]
    exact ⟨hle, ht.lines⟩
  · rw [unterminated_line hn]
    exact ht.unterminated

theorem fits_of_sane (hst : Stands i src s) (h : Sane i src) : Fits newline bufsz s := by
  induction hm : left src s using Nat.strong_induction_on generalizing i src s with
  | _ m ih =>
    obtain ⟨⟨pre, d, post, hl, rfl⟩, heof, hz⟩ := hst
    have hd : ∀ c ∈ d, c ≠ 0 := fun c hc => hz c (List.mem_append_left _ hc)
    have hgo : newline ∉ d → bufRem i = 0 → i.bufhead = 0 → (src.canread).1 ≤ 0 := by
      intro hn hrem hhead
      have hsz := hl.size
      have hroom := hl.bufRem
      rw [hl.bufhead] at hhead
      obtain ⟨_, _, -, hcan⟩ := @canread_full _ src _ _ _ hl hd hn (by omega)
      by_contra hpos
      exact h.canread (hcan.trans (if_neg hpos))
    obtain ⟨b, i', src', t, hcan, ⟨pre', post', hl'⟩, heof', hb, hsize, hline, hnone⟩ :=
      canread_room hl heof hz hgo
    have hs : d ++ src.bytes = (d ++ t) ++ src'.bytes := by rw [hb, List.append_assoc]
    have hdt : ∀ c ∈ d ++ t, c ≠ 0 := fun c hc => hz c (hs ▸ List.mem_append_left _ hc)
    cases b with
    | false =>
      have hsane : Sane i' src' :=
        @Sane.step _ _ _ _ h .canread trivial _ (by rw [Call.run, hcan]; rfl)
      obtain hlt | ⟨hend, hn⟩ := hnone rfl
      · refine ih _ ?_ ⟨⟨pre', d ++ t, post', hl', hs⟩, heof', hz⟩ hsane rfl
        rw [← hm, left, left]
        omega
      · rw [hs, hend, List.append_nil]
        have hsz := hl'.size
        have hroom := hl'.room
        refine fits_plain hn (Nat.lt_of_le_of_ne (by omega) fun hfull => ?_)
        exact full_insane hl' hdt hn hfull hsane
    | true =>
      obtain ⟨w, e, hcut, hw⟩ := List.eq_append_cons_of_mem (hline rfl)
      rw [hcut] at hl' hdt hs
      have hlong : w.length + 1 ≤ bufsz := by
        have hsz := hl'.size
        have hroom := hl'.room
        rw [List.length_append, List.length_cons] at hsz
        omega
      obtain ⟨i'', post'', hread, hl'', he⟩ :=
        readline_line hcan hl' hw hdt hlong (Nat.one_pos)
      have hsane : Sane i'' src' :=
        @Sane.step _ _ _ _ h (.readline 1) Nat.one_pos _ (by rw [Call.run, hread]; rfl)
      rw [List.append_assoc, List.cons_append] at hs
      rw [hs]
      refine fits_line hw hlong (ih _ ?_ ⟨⟨_, e, post'', hl'', rfl⟩, ?_, ?_⟩ hsane rfl)
      · rw [← hm, hs]
        exact left_line hw hsize
      · exact fun hon => heof' (he.symm.trans hon)
      · intro c hc
        refine hz c ?_
        rw [hs]
        exact List.mem_append_right _ (List.mem_cons_of_mem _ hc)

theorem exists_bytes (s : Str) : ∃ src : Stdin, src.bytes = s := by
  cases s with
  | nil => exact ⟨[], rfl⟩
  | cons c s => exact ⟨[.chunk c s], by rw [Stdin.bytes, Stdin.bytes, List.append_nil]⟩

/-- A stream is harmless, however it arrives and whatever is called, just if its lines fit the
buffer. -/
theorem survives_iff (s : Str) (hz : ∀ c ∈ s, c ≠ 0) :
    (∀ src : Stdin, src.bytes = s → ∀ calls : List Call, (∀ call ∈ calls, call.Fits) →
      Safe src calls) ↔ Fits newline bufsz s := by
  constructor
  · intro hall
    obtain ⟨src, rfl⟩ := exists_bytes s
    refine fits_of_sane ⟨⟨[], [], _, layout_init, rfl⟩, fun h => absurd h (by decide), hz⟩ ?_
    intro calls hcalls hno
    obtain ⟨_, _, _, hrun, -⟩ := hall src rfl calls hcalls
    rw [hno] at hrun
    cases hrun
  · rintro hfit src rfl calls hcalls
    obtain ⟨_, log, i, src', _, hrun, hserved, -⟩ := run_ready hcalls (ready_init hz hfit)
    exact ⟨log, i, src', hrun, ready_bounds hserved.ready⟩

theorem survives_typed : Safe typed [.canread, .readline 2, .readline 8] :=
  (survives_iff typed.bytes (by decide +kernel)).2 ⟨by decide +kernel, by decide +kernel⟩ typed rfl
    [.canread, .readline 2, .readline 8] (by simp [Call.Fits])

theorem run_overlong {c : UInt8} {t : Str} (hlen : (c :: t).length = bufsz)
    (hz : ∀ b ∈ c :: t, b ≠ 0) (hn : newline ∉ c :: t) :
    run Input.init [.chunk c t] [.canread, .canread] = none := by
  have hread : Stdin.read bufsz [.chunk c t] = (((c :: t).length : Int), c :: t, ([] : Stdin)) := by
    simp only [Stdin.read, List.take_of_length_le (Nat.le_of_eq hlen),
      List.drop_eq_nil_of_le (Nat.le_of_eq hlen)]
  have hroom : (c :: t).length < (List.replicate (bufsz + 1) (0 : UInt8)).length := by
    rw [hlen, List.length_replicate]
    exact Nat.lt_succ_self _
  obtain ⟨i', post', hst, hl, -⟩ := (layout_init.receive hroom).sentinel
  obtain ⟨i'', _, -, hfull⟩ := @canread_full _ [] _ _ _ hl hz hn hlen
  have hfirst : UserInput.canread Input.init [.chunk c t] =
      some ((findNewline i').isSome, i', []) := by
    have hpos : ¬((c :: t).length : Int) < 0 := by omega
    have hne : ¬((c :: t).length : Int) = 0 := by
      rw [hlen]
      decide
    rw [UserInput.canread, if_pos (show bufCnt Input.init = 0 from rfl), readMore]
    dsimp only [Stdin.canread]
    rw [if_neg (by decide), if_neg (by decide), receive, if_neg (by decide),
      show bufRem Input.init = bufsz from rfl, hread]
    dsimp only
    rw [if_neg hpos, if_neg hne, Int.toNat_natCast, hst]
    rfl
  have hsecond : UserInput.canread i' [] = none := hfull
  simp [run, Call.run, hfirst, hsecond]

/-- 4096 bytes without a newline. -/
theorem survives_not :
    ∃ src : Stdin, (∀ c ∈ src.bytes, c ≠ 0) ∧ ¬Safe src [.canread, .canread] := by
  have hall : ∀ c ∈ (0x61 : UInt8) :: List.replicate 4095 0x61, c = 0x61 := fun c hc =>
    (List.mem_cons.1 hc).elim id List.eq_of_mem_replicate
  have hno : run Input.init [.chunk 0x61 (List.replicate 4095 0x61)] [.canread, .canread] = none :=
    run_overlong (by rw [List.length_cons, List.length_replicate]; rfl)
      (fun c hc => by rw [hall c hc]; decide) fun hin => absurd (hall _ hin) (by decide)
  refine ⟨[.chunk 0x61 (List.replicate 4095 0x61)], fun c hc => ?_, ?_⟩
  · rw [Stdin.bytes, Stdin.bytes, List.append_nil] at hc
    rw [hall c hc]
    decide
  · rintro ⟨log, i, src', hrun, -⟩
    rw [hno] at hrun
    cases hrun

end Srsirc.OverlongLines
