import Srsirc.Reassembly

namespace Srsirc.Session

open CharMap Memory ReadBuffer BufferData LineReading TagGrammar Reassembly

/-- Repeated calls of `ioRead` up to the first that does not time out; `k` bounds
the number of calls. -/
def nextResult (destmax : Nat) : Nat → Readctx → Source →
    List Point × Option (Outcome × Readctx × Source)
  | 0, _, _ => ([], none)
  | k + 1, r, src =>
    match ioRead destmax r src with
    | (log, none) => (log, none)
    | (log, some (reply, r, src)) =>
      if reply.ret = 0 then (log ++ (nextResult destmax k r src).1, (nextResult destmax k r src).2)
      else (log, some (observe reply, r, src))

/-- The first `n` results other than timeouts. -/
def results (destmax : Nat) : Nat → Readctx → Source → List Point × List Outcome
  | 0, _, _ => ([], [])
  | n + 1, r, src =>
    match nextResult destmax (src.size + 1) r src with
    | (log, none) => (log, [])
    | (log, some (o, r, src)) =>
      (log ++ (results destmax n r src).1, o :: (results destmax n r src).2)

/-- The results for given lines: each is delivered in turn, but from the first
one that does not fit on, every call fails. -/
def expected (destmax : Nat) (ls : List Str) (n : Nat) : List Outcome :=
  let whole := ls.takeWhile fun l => l.length < workbufSz
  (whole.map (deliver destmax) ++
    if whole.length < ls.length then List.replicate n Outcome.failure else []).take n

theorem expected_nil (destmax n : Nat) : expected destmax [] n = [] := by simp [expected]

theorem expected_line (destmax : Nat) {l : Str} (hl : l.length < workbufSz)
    (ls : List Str) (n : Nat) :
    expected destmax (l :: ls) (n + 1) = deliver destmax l :: expected destmax ls n := by
  have htake : (l :: ls).takeWhile (fun l => decide (l.length < workbufSz)) =
      l :: ls.takeWhile fun l => decide (l.length < workbufSz) :=
    List.takeWhile_cons_of_pos (decide_eq_true hl)
  rw [expected, expected, htake]
  simp only [List.map_cons, List.length_cons, Nat.add_lt_add_iff_right, List.cons_append,
    List.take_succ_cons]
  by_cases h : (ls.takeWhile fun l => decide (l.length < workbufSz)).length < ls.length
  · simp only [h, if_true, List.take_append, List.take_replicate, List.length_map]
    congr 3
    omega
  · simp only [h, if_false, List.append_nil]

theorem expected_long (destmax : Nat) {l : Str} (hl : workbufSz ≤ l.length)
    (ls : List Str) (n : Nat) :
    expected destmax (l :: ls) (n + 1) = .failure :: expected destmax (l :: ls) n := by
  have htake : (l :: ls).takeWhile (fun l => decide (l.length < workbufSz)) = [] :=
    List.takeWhile_cons_of_neg (by simpa using hl)
  rw [expected, expected, htake]
  simp [List.replicate_succ]

/-- How the wait for a result on the lines `ls` ends. -/
inductive Next (destmax : Nat) (ls : List Str) : Option (Outcome × Readctx × Source) → Prop
  | blocked (hls : ls = []) : Next destmax ls none
  | long {r : Readctx} {src : Source} {l : Str} {ls' : List Str} (hp : Pending r src ls)
      (hls : ls = l :: ls') (hl : workbufSz ≤ l.length) :
      Next destmax ls (some (.failure, r, src))
  | line {r : Readctx} {src : Source} {w : Str} {ls' : List Str} (hp : Pending r src ls')
      (hls : ls = w :: ls') (hl : w.length < workbufSz) :
      Next destmax ls (some (deliver destmax w, r, src))

theorem nextResult_next (destmax k : Nat) {r : Readctx} {src : Source} {ls : List Str}
    (h : Pending r src ls) (hk : src.size < k) :
    (∀ p ∈ (nextResult destmax k r src).1, PointOk p) ∧
      Next destmax ls (nextResult destmax k r src).2 := by
  induction k generalizing r src with
  | zero => omega
  | succ k ih =>
    obtain ⟨hlog, hr⟩ := ioRead_replied destmax h
    rw [nextResult]
    generalize ioRead destmax r src = reply at hlog hr ⊢
    obtain ⟨log, out⟩ := reply
    cases hr with
    | blocked hls => exact ⟨hlog, .blocked hls⟩
    | timeout hret hp hn =>
      obtain ⟨hlog', hnext⟩ := ih hp (by omega)
      simp only [hret, if_true]
      refine ⟨?_, hnext⟩
      intro p hp
      obtain hp | hp := List.mem_append.mp hp
      · exact hlog p hp
      · exact hlog' p hp
    | @full r' src' reply l ls' hret hp hls hl =>
      have hobs : observe reply = .failure := by simp [observe, hret]
      simp only [hret, show ¬(-1 : Int) = 0 by decide, if_false, hobs]
      exact ⟨hlog, .long hp hls hl⟩
    | line hret ho hp hls hl =>
      simp only [hret, if_false, ho]
      exact ⟨hlog, .line hp hls hl⟩

theorem results_expected (destmax n : Nat) {r : Readctx} {src : Source} {ls : List Str}
    (h : Pending r src ls) :
    (∀ p ∈ (results destmax n r src).1, PointOk p) ∧
      (results destmax n r src).2 = expected destmax ls n := by
  induction n generalizing r src ls with
  | zero => exact ⟨by simp [results], by simp [results, expected]⟩
  | succ n ih =>
    obtain ⟨hlog, hn⟩ := nextResult_next destmax (src.size + 1) h (Nat.lt_succ_self _)
    rw [results]
    generalize nextResult destmax (src.size + 1) r src = next at hlog hn ⊢
    obtain ⟨log, out⟩ := next
    have happ : ∀ log', (∀ p ∈ log', PointOk p) → ∀ p ∈ log ++ log', PointOk p := by
      intro log' hlog' p hp
      obtain hp | hp := List.mem_append.mp hp
      · exact hlog p hp
      · exact hlog' p hp
    cases hn with
    | blocked hls =>
      rw [hls, expected_nil]
      exact ⟨hlog, rfl⟩
    | long hp hls hl =>
      obtain ⟨hlog', hres⟩ := ih hp
      refine ⟨happ _ hlog', ?_⟩
      simp only [hres]
      rw [hls, expected_long destmax hl]
    | line hp hls hl =>
      obtain ⟨hlog', hres⟩ := ih hp
      refine ⟨happ _ hlog', ?_⟩
      simp only [hres]
      rw [hls, expected_line destmax hl]

theorem pending_init {src : Source} (hq : Quiet src) :
    Pending Readctx.init src (candidates (Source.bytes src)) :=
  Layout.pending layout_init hq

/-- However the bytes arrive, the results are those of the lines of the stream. -/
theorem results_of_stream (destmax n : Nat) (src : Source) (hq : Quiet src) :
    (results destmax n .init src).2 = expected destmax (candidates (Source.bytes src)) n ∧
      ∀ p ∈ (results destmax n .init src).1, PointOk p := by
  obtain ⟨hlog, hres⟩ := results_expected destmax n (pending_init hq)
  exact ⟨hres, hlog⟩

/-- A message cut in three, with a timeout in between. -/
theorem results_of_stream_cut :
    let src : Source := [.chunk 0x50 [0x49], .timeout, .chunk 0x4e (ascii "G x\r"), .chunk 0x0a []]
    (results 0 2 .init src).2 = expected 0 (candidates (Source.bytes src)) 2 ∧
      ∀ p ∈ (results 0 2 .init src).1, PointOk p :=
  results_of_stream 0 2 _ (by simp [Quiet])

end Srsirc.Session
