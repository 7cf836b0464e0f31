import Srsirc.LineReading
import Srsirc.TagGrammar

namespace Srsirc.Reassembly

open CharMap Memory ReadBuffer BufferData LineReading TagGrammar

/-- The nonempty lines of a stream, with the unterminated end of it once it is too
long to become a line. -/
def candidates (s : Str) : List Str :=
  let segs := s.splitOnP isDelim
  segs.dropLast.filter (· ≠ []) ++ [segs.getLastD []].filter (workbufSz ≤ ·.length)

theorem candidates_line {w : Str} {d : UInt8} (hw : Plain w) (hd : isDelim d = true) (s : Str) :
    candidates (w ++ d :: s) = [w].filter (· ≠ []) ++ candidates s := by
  have hsplit : (w ++ d :: s).splitOnP isDelim = w :: s.splitOnP isDelim :=
    List.splitOnP_append_cons_of_forall_mem hw d hd s
  obtain ⟨x, xs, hx⟩ := List.exists_cons_of_ne_nil (List.splitOnP_ne_nil isDelim s)
  rw [candidates, candidates, hsplit, hx, List.dropLast_cons_cons, List.filter_cons]
  by_cases hne : w = [] <;> simp [hne]

theorem candidates_plain {s : Str} (hs : Plain s) :
    candidates s = [s].filter (workbufSz ≤ ·.length) := by
  have hsplit : s.splitOnP isDelim = [s] :=
    List.splitOnP_eq_singleton hs
  rw [candidates, hsplit]
  rfl

theorem candidates_skip {d : UInt8} (hd : isDelim d = true) (s : Str) :
    candidates (d :: s) = candidates s :=
  candidates_line (w := []) (by simp [Plain]) hd s

theorem candidates_long {w : Str} (hw : Plain w) (hlen : workbufSz ≤ w.length) (s : Str) :
    ∃ l ls, candidates (w ++ s) = l :: ls ∧ workbufSz ≤ l.length := by
  have hne : w ≠ [] := by
    rintro rfl
    exact absurd hlen (by decide)
  obtain hs | ⟨u, d, e, rfl, hu, hd⟩ := plain_or_line s
  · have hp : Plain (w ++ s) := by
      intro c hc
      obtain hc | hc := List.mem_append.mp hc
      · exact hw c hc
      · exact hs c hc
    have hl : workbufSz ≤ (w ++ s).length := by simp; omega
    refine ⟨w ++ s, [], ?_, hl⟩
    rw [candidates_plain hp, List.filter_cons_of_pos (by simpa using hl)]
    rfl
  · have hp : Plain (w ++ u) := by
      intro c hc
      obtain hc | hc := List.mem_append.mp hc
      · exact hw c hc
      · exact hu c hc
    refine ⟨w ++ u, candidates e, ?_, by simp; omega⟩
    rw [← List.append_assoc, candidates_line hp hd, List.filter_cons_of_pos (by simp [hne])]
    rfl

theorem taken_none {s : Str} {r : Readctx} (h : Taken s (r, none)) :
    ∃ pre e post, Layout r pre e post ∧ Plain e ∧
      ∀ t, candidates (s ++ t) = candidates (e ++ t) := by
  generalize hout : (r, (none : Option (Nat × Nat))) = out at h
  induction h with
  | none hl hs =>
    obtain ⟨rfl, _⟩ := Prod.mk.inj hout
    exact ⟨_, _, _, hl, hs, fun _ => rfl⟩
  | line => simp at hout
  | skip hd _ ih =>
    obtain ⟨pre, e, post, hl, he, hc⟩ := ih hout
    exact ⟨pre, e, post, hl, he, fun t => (candidates_skip hd _).trans (hc t)⟩

theorem taken_line {s : Str} {r : Readctx} {start len : Nat} (h : Taken s (r, some (start, len))) :
    ∃ pre w d e post, start = pre.length ∧ len = w.length ∧
      Layout r (pre ++ (w ++ [d])) e post ∧
      ∀ t, candidates (s ++ t) = w :: candidates (e ++ t) := by
  generalize hout : (r, some (start, len)) = out at h
  induction h with
  | none => simp at hout
  | line hl hw hne hd =>
    obtain ⟨rfl, hpos⟩ := Prod.mk.inj hout
    obtain ⟨rfl, rfl⟩ := Prod.mk.inj (Option.some.inj hpos)
    refine ⟨_, _, _, _, _, rfl, rfl, hl, fun t => ?_⟩
    rw [List.append_assoc, List.cons_append, candidates_line hw hd,
      List.filter_cons_of_pos (by simpa using hne)]
    rfl
  | skip hd _ ih =>
    obtain ⟨pre, w, d, e, post, hs, hn, hl, hc⟩ := ih hout
    exact ⟨pre, w, d, e, post, hs, hn, hl, fun t => (candidates_skip hd _).trans (hc t)⟩

/-- A connection with the lines `ls` ahead, in the buffer or still to arrive. -/
structure Pending (r : Readctx) (src : Source) (ls : List Str) : Prop where
  bounds : Bounds r
  quiet : Quiet src
  lines : candidates (r.data ++ Source.bytes src) = ls

theorem Layout.pending {r : Readctx} {pre s post : Mem} {src : Source} (hl : Layout r pre s post)
    (hq : Quiet src) : Pending r src (candidates (s ++ Source.bytes src)) :=
  ⟨hl.bounds, hq, by rw [hl.data]⟩

/-- How waiting for the next one of the lines `ls` can end, with less than `n` left to read
after a timeout. -/
inductive Got (ls : List Str) (n : Nat) : Option (Awaited × Readctx × Source) → Prop
  | blocked (hls : ls = []) : Got ls n none
  | timeout {r : Readctx} {src : Source} (hp : Pending r src ls) (hn : src.size < n) :
      Got ls n (some (.code 0, r, src))
  | full {r : Readctx} {src : Source} {l : Str} {ls' : List Str} (hp : Pending r src ls)
      (hls : ls = l :: ls') (hl : workbufSz ≤ l.length) : Got ls n (some (.code (-1), r, src))
  | line {r : Readctx} {src : Source} {pre w e post : Mem} {d : UInt8}
      (hl : Layout r (pre ++ (w ++ [d])) e post) (hq : Quiet src)
      (hls : ls = w :: candidates (e ++ Source.bytes src)) :
      Got ls n (some (.line pre.length w.length, r, src))

theorem Got.mono {ls : List Str} {n n' : Nat} {out : Option (Awaited × Readctx × Source)}
    (h : Got ls n out) (hn : n ≤ n') : Got ls n' out := by
  cases h with
  | blocked hls => exact .blocked hls
  | timeout hp hs => exact .timeout hp (by omega)
  | full hp hls hl => exact .full hp hls hl
  | line hl hq hls => exact .line hl hq hls

theorem awaitLine_got (k : Nat) {r : Readctx} {pre s post : Mem} (h : Layout r pre s post)
    {src : Source} (hq : Quiet src) (hk : src.size < k) :
    (∀ p ∈ (awaitLine k r src).1, PointOk p) ∧
      Got (candidates (s ++ Source.bytes src)) src.size (awaitLine k r src).2 := by
  induction k generalizing r pre s post src with
  | zero => omega
  | succ k ih =>
    obtain ⟨hlog, ht⟩ := takeLine_taken (r.eptr - r.wptr) h (by rw [h.eptr, h.wptr]; omega)
    rw [awaitLine]
    generalize takeLine (r.eptr - r.wptr) r = taken at hlog ht ⊢
    obtain ⟨log, r', out⟩ := taken
    cases out with
    | some p =>
      obtain ⟨pre', w, d, e, post', hs, hn, hl, hc⟩ := @taken_line _ _ p.1 p.2 ht
      refine ⟨hlog, ?_⟩
      simp only [hs, hn]
      exact .line hl hq (hc _)
    | none =>
      obtain ⟨pre', e, post', hl, he, hc⟩ := taken_none ht
      rw [hc]
      obtain ⟨hlog', hm⟩ := readMore_more hl hq
      dsimp only
      generalize readMore r' src = more at hlog' hm ⊢
      obtain ⟨log', out⟩ := more
      have happ : ∀ p ∈ log ++ log', PointOk p := by
        intro p hp
        obtain hp | hp := List.mem_append.mp hp
        · exact hlog p hp
        · exact hlog' p hp
      cases hm with
      | blocked hb hs =>
        refine ⟨happ, .blocked ?_⟩
        rw [hb, List.append_nil, candidates_plain he]
        simpa using hs
      | timeout hr hl' =>
        refine ⟨happ, .timeout ?_ hr.size⟩
        rw [hr.bytes]
        exact Layout.pending hl' hr.quiet
      | full hl' hs =>
        obtain ⟨l, ls, hls, hlen⟩ := candidates_long he hs (Source.bytes src)
        exact ⟨happ, .full (Layout.pending hl' hq) hls hlen⟩
      | received hr ht hl' =>
        obtain ⟨hlog₁, hg⟩ := ih hl' hr.quiet (by have := hr.size; omega)
        simp only [show ¬(1 : Int) ≤ 0 by decide, if_false]
        refine ⟨?_, ?_⟩
        · intro p hp
          obtain hp | hp := List.mem_append.mp hp
          · exact happ p hp
          · exact hlog₁ p hp
        · rw [hr.bytes, ← List.append_assoc]
          exact hg.mono (Nat.le_of_lt hr.size)

/-- What a line of the stream means to the library, on its own. -/
def deliver (destmax : Nat) (l : Str) : Outcome := observe (parseLine destmax (l ++ [0]) 0)

theorem deliver_eq (destmax : Nat) (l : Str) :
    deliver destmax l = meaning destmax (l.takeWhile (· != 0)) := by
  have h := parseLine_parsed destmax [] (l.takeWhile (· != 0)) (l.dropWhile (· != 0) ++ [0]).tail
    (takeWhile_ne_zero l) (p := 0) rfl
  rw [← terminated_split l [], List.nil_append] at h
  exact h.observed

theorem parseLine_deliver (destmax : Nat) (pre l post : Mem) {p : Nat} (hp : p = pre.length) :
    ∃ l', l'.length = l.length ∧
      (parseLine destmax (pre ++ (l ++ 0 :: post)) p).mem = pre ++ (l' ++ 0 :: post) ∧
      observe (parseLine destmax (pre ++ (l ++ 0 :: post)) p) = deliver destmax l ∧
      ((parseLine destmax (pre ++ (l ++ 0 :: post)) p).ret = 1 ∨
        (parseLine destmax (pre ++ (l ++ 0 :: post)) p).ret = -1) := by
  have hzero := takeWhile_ne_zero l
  have hd := deliver_eq destmax l
  have h := parseLine_parsed destmax pre (l.takeWhile (· != 0))
    (l.dropWhile (· != 0) ++ 0 :: post).tail hzero hp
  have hsplit := terminated_split l post
  rw [← hsplit] at h
  obtain ⟨s', hlen, hmem⟩ := h.mem
  refine ⟨s' ++ l.dropWhile (· != 0), ?_, ?_, h.observed.trans hd.symm, h.ret⟩
  · rw [List.length_append, hlen, ← List.length_append, List.takeWhile_append_dropWhile]
  · nth_rewrite 1 [← List.takeWhile_append_dropWhile (p := fun c : UInt8 => c != 0) (l := l)]
      at hsplit
    rw [List.append_assoc] at hsplit
    have hv := List.append_cancel_left hsplit
    rw [hmem, ← hv, List.append_assoc]

/-- How a call of `ioRead` on the lines `ls` can end. -/
inductive Replied (destmax : Nat) (ls : List Str) (n : Nat) :
    Option (Reply × Readctx × Source) → Prop
  | blocked (hls : ls = []) : Replied destmax ls n none
  | timeout {r : Readctx} {src : Source} {reply : Reply} (hr : reply.ret = 0)
      (hp : Pending r src ls) (hn : src.size < n) : Replied destmax ls n (some (reply, r, src))
  | full {r : Readctx} {src : Source} {reply : Reply} {l : Str} {ls' : List Str}
      (hr : reply.ret = -1) (hp : Pending r src ls) (hls : ls = l :: ls')
      (hl : workbufSz ≤ l.length) : Replied destmax ls n (some (reply, r, src))
  | line {r : Readctx} {src : Source} {reply : Reply} {w : Str} {ls' : List Str}
      (hr : reply.ret ≠ 0) (ho : observe reply = deliver destmax w) (hp : Pending r src ls')
      (hls : ls = w :: ls') (hl : w.length < workbufSz) :
        Replied destmax ls n (some (reply, r, src))

theorem skipDelims_layout {r : Readctx} {pre s post : Mem} (h : Layout r pre s post) :
    ∃ pre' s' post', Layout (skipDelims r) pre' s' post' ∧
      ∀ t, candidates (s' ++ t) = candidates (s ++ t) := by
  have hskip : ∀ u t : Str, candidates (u ++ t) =
      candidates (u.dropWhile isDelim ++ t) := by
    intro u t
    induction u with
    | nil => rfl
    | cons c u ih =>
      by_cases hc : isDelim c = true
      · rw [List.cons_append, candidates_skip hc, ih, List.dropWhile_cons_of_pos hc]
      · rw [List.dropWhile_cons_of_neg hc]
  have hl : Layout { r with wptr := r.wptr + (s.takeWhile isDelim).length }
      (pre ++ s.takeWhile isDelim) (s.dropWhile isDelim) post :=
    (h.cast (List.takeWhile_append_dropWhile (p := isDelim)).symm).advance rfl
  rw [skipDelims, h.data]
  by_cases he : r.wptr + (s.takeWhile isDelim).length = r.eptr
  · have hnil : s.dropWhile isDelim = [] := by
      have hw := hl.wptr
      have hep := hl.eptr
      have hz : (s.dropWhile isDelim).length = 0 := by simp only at hw hep; omega
      exact List.length_eq_zero_iff.mp hz
    simp only [he, if_true]
    refine ⟨[], [], _, (hl.cast hnil).reset, fun t => ?_⟩
    rw [hskip s t, hnil]
  · simp only [he, if_false]
    exact ⟨_, _, _, hl, fun t => (hskip s t).symm⟩

theorem ioRead_replied (destmax : Nat) {r : Readctx} {src : Source} {ls : List Str}
    (h : Pending r src ls) :
    (∀ p ∈ (ioRead destmax r src).1, PointOk p) ∧
      Replied destmax ls src.size (ioRead destmax r src).2 := by
  obtain ⟨hb, hq, rfl⟩ := h
  obtain ⟨pre, post, hl⟩ := hb.layout
  obtain ⟨pre', s', post', hl', hc⟩ := skipDelims_layout hl
  obtain ⟨hlog, hg⟩ := awaitLine_got (src.size + 1) hl' hq (Nat.lt_succ_self _)
  rw [hc] at hg
  rw [ioRead]
  dsimp only
  generalize awaitLine (src.size + 1) (skipDelims r) src = awaited at hlog hg ⊢
  obtain ⟨log, out⟩ := awaited
  have hlog' : ∀ q : Readctx, Bounds q →
      ∀ p ∈ (skipDelims r).point none :: log ++ [q.point none], PointOk p := by
    intro q hb p hp
    obtain hp | hp := List.mem_append.mp hp
    · exact List.forall_mem_cons.mpr ⟨point_ok hl'.bounds, hlog⟩ p hp
    · obtain rfl := List.mem_singleton.mp hp
      exact point_ok hb
  cases hg with
  | blocked hls => exact ⟨List.forall_mem_cons.mpr ⟨point_ok hl'.bounds, hlog⟩, .blocked hls⟩
  | timeout hp hn => exact ⟨hlog' _ hp.bounds, .timeout rfl hp hn⟩
  | full hp hls hlen => exact ⟨hlog' _ hp.bounds, .full rfl hp hls hlen⟩
  | @line r' src' pre w e post d hl hq hls =>
    refine ⟨hlog' _ hl.bounds, ?_⟩
    have hset : r'.workbuf.set (pre.length + w.length) 0 = pre ++ (w ++ 0 :: (e ++ post)) := by
      rw [hl.workbuf]
      simp
    obtain ⟨w', hlen, hmem, ho, hr⟩ :=
      parseLine_deliver destmax pre w (e ++ post) (p := pre.length) rfl
    have hw : w.length < workbufSz := by
      have hs := hl.size
      have hroom := hl.room
      simp only [List.length_append, List.length_singleton] at hs
      omega
    simp only [hset]
    refine .line (by obtain hr | hr := hr <;> simp [hr]) ho ?_ hls hw
    have hcons := @Layout.consumed _ _ _ _ (pre ++ (w' ++ [0])) hl (by simp [hlen])
    have heq : pre ++ (w' ++ 0 :: (e ++ post)) = pre ++ (w' ++ [0]) ++ (e ++ post) := by simp
    rw [hmem, heq]
    exact Layout.pending hcons hq

end Srsirc.Reassembly
