import Mathlib.Data.List.Forall2
import Srsirc.BufferData
import Srsirc.TerminatedLines
import Srsirc.UserInput

namespace Srsirc.InputLines

open CharMap Memory UserInput TerminatedLines
open ReadBuffer (overwrite take_chunk)
open BufferData (overwrite_eq)

structure Bounds (i : Input) : Prop where
  head_le : i.bufhead ≤ i.buftail
  tail_le : i.buftail ≤ bufsz

/-- An input buffer given by its data and what stands around it. -/
structure Layout (i : Input) (pre s post : Mem) : Prop where
  inbuf : i.inbuf = pre ++ (s ++ post)
  bufhead : i.bufhead = pre.length
  buftail : i.buftail = pre.length + s.length
  size : pre.length + (s.length + post.length) = bufsz + 1
  room : 0 < post.length

variable {i : Input} {pre s post : Mem} {src : Stdin}

theorem Layout.bounds (h : Layout i pre s post) : Bounds i := by
  have hsz := h.size
  have hr := h.room
  refine ⟨?_, ?_⟩
  · rw [h.bufhead, h.buftail]
    omega
  · rw [h.buftail]
    omega

theorem layout_init : Layout Input.init [] [] (List.replicate (bufsz + 1) 0) :=
  ⟨by simp [Input.init], rfl, rfl, by simp, by simp⟩

theorem Layout.bufCnt (h : Layout i pre s post) : bufCnt i = s.length := by
  rw [UserInput.bufCnt, h.bufhead, h.buftail]
  omega

theorem Layout.bufRem (h : Layout i pre s post) : bufRem i + 1 = post.length := by
  have hsz := h.size
  have hr := h.room
  rw [UserInput.bufRem, h.bufCnt, h.bufhead]
  omega

theorem Layout.sentinel (h : Layout i pre s post) :
    ∃ i' post', i.store i.buftail 0 = some i' ∧ Layout i' pre s (0 :: post') ∧ i'.eof = i.eof := by
  obtain ⟨hb, hh, ht, hsz, hr⟩ := h
  obtain ⟨z, post, rfl⟩ := List.exists_cons_of_length_pos hr
  have hin : i.buftail < i.inbuf.length := by
    rw [hb, ht]
    simp
  refine ⟨{ i with inbuf := i.inbuf.set i.buftail 0 }, post, if_pos hin, ⟨?_, hh, ht, ?_, ?_⟩, rfl⟩
  · simp [hb, ht]
  · simpa using hsz
  · simp

theorem Layout.cstr (h : Layout i pre s (0 :: post)) (hs : ∀ c ∈ s, c ≠ 0) :
    cstr i.inbuf i.bufhead = s := by
  rw [h.inbuf, cstr_at h.bufhead, takeWhile_nonzero hs]

theorem Layout.compact (h : Layout i pre s post) :
    ∃ post', Layout (compact i) [] s post' ∧ post'.length = pre.length + post.length := by
  obtain ⟨hb, hh, ht, hsz, hr⟩ := h
  have hcnt := Layout.bufCnt ⟨hb, hh, ht, hsz, hr⟩
  have hlen : ((pre ++ (s ++ post)).drop s.length).length = pre.length + post.length := by
    simp
    omega
  refine ⟨(pre ++ (s ++ post)).drop s.length, ⟨?_, rfl, ?_, ?_, ?_⟩, hlen⟩
  · simp [UserInput.compact, overwrite, hcnt, hb, hh]
  · simp [UserInput.compact, hh, ht]
  · rw [hlen]
    simp
    omega
  · omega

theorem Layout.receive {t : Mem} (h : Layout i pre s post) (ht : t.length < post.length) :
    Layout { i with inbuf := overwrite i.inbuf i.buftail t, buftail := i.buftail + t.length } pre
      (s ++ t) (post.drop t.length) := by
  obtain ⟨hb, hh, htl, hsz, hr⟩ := h
  have htake : (post.take t.length).length = t.length := by
    rw [List.length_take]
    omega
  refine ⟨?_, hh, ?_, ?_, ?_⟩
  · simp only
    rw [hb, ← List.append_assoc, ← List.take_append_drop t.length post,
      overwrite_eq (pre ++ s) _ _ t htake (by simp [htl])]
    simp
  · simp [htl, Nat.add_assoc]
  · simp only [List.length_append, List.length_drop]
    omega
  · rw [List.length_drop]
    omega

theorem Layout.advance {w : Mem} (h : Layout i pre (w ++ s) post) :
    Layout { i with bufhead := i.bufhead + w.length } (pre ++ w) s post := by
  obtain ⟨hb, hh, ht, hsz, hr⟩ := h
  simp only [List.length_append] at ht hsz
  exact ⟨by simp [hb], by simp [hh], by simp [ht, Nat.add_assoc], by simp; omega, hr⟩

theorem read_cases {sz : Nat} (hsz : 1 ≤ sz) (src : Stdin) :
    (src.read sz = (0, [], []) ∧ src.bytes = []) ∨
    (∃ src', src.read sz = (-1, [], src') ∧ src.bytes = src'.bytes ∧ src'.size < src.size) ∨
    ∃ t src', src.read sz = (t.length, t, src') ∧ t ≠ [] ∧ t.length ≤ sz ∧
      src.bytes = t ++ src'.bytes ∧ src'.size < src.size := by
  induction src with
  | nil => exact Or.inl ⟨rfl, rfl⟩
  | cons a src ih =>
    cases a with
    | idle | pollFailure =>
      obtain ⟨hr, hb⟩ | ⟨src', hr, hb, hs⟩ | ⟨t, src', hr, ht, hle, hb, hs⟩ := ih
      · exact Or.inl ⟨hr, hb⟩
      · exact Or.inr (Or.inl ⟨src', hr, hb, by simp only [Stdin.size]; omega⟩)
      · exact Or.inr (Or.inr ⟨t, src', hr, ht, hle, hb, by simp only [Stdin.size]; omega⟩)
    | readFailure => exact Or.inr (Or.inl ⟨src, rfl, rfl, by simp [Stdin.size]⟩)
    | chunk c s =>
      refine Or.inr (Or.inr ?_)
      obtain ⟨hpos, hlen, ⟨hd, ht⟩ | ⟨c', s', hd, hlt, ht⟩⟩ := take_chunk hsz c s
      · refine ⟨(c :: s).take sz, src, ?_, List.ne_nil_of_length_pos hpos, hlen, ?_, ?_⟩
        · simp only [Stdin.read, hd]
        · rw [ht]
          rfl
        · simp only [Stdin.size]
          omega
      · refine ⟨(c :: s).take sz, .chunk c' s' :: src, ?_, List.ne_nil_of_length_pos hpos,
          hlen, ?_, ?_⟩
        · simp only [Stdin.read, hd]
        · calc Stdin.bytes (.chunk c s :: src)
              = c :: s ++ Stdin.bytes src := rfl
            _ = (c :: s).take sz ++ c' :: s' ++ Stdin.bytes src := by rw [ht]
            _ = (c :: s).take sz ++ Stdin.bytes (.chunk c' s' :: src) := by simp [Stdin.bytes]
        · simp only [Stdin.size]
          omega

def newline : UInt8 := 0x0a

/-- How `canread` ends on the data `d`: it has read `t` behind it. -/
structure Polled (d : Str) (src : Stdin) (b : Bool) (i' : Input) (src' : Stdin) (t : Str) :
    Prop where
  layout : ∃ pre post, Layout i' pre (d ++ t) post
  ended : i'.eof = true → src' = []
  bytes : src.bytes = t ++ src'.bytes
  size : src'.size ≤ src.size
  line : b = true → newline ∈ d ++ t
  none : b = false → src'.size < src.size ∨ src'.bytes = [] ∧ newline ∉ d ++ t

theorem findNewline_eq {d : Str} (h : Layout i pre d (0 :: post)) (hd : ∀ c ∈ d, c ≠ 0) :
    findNewline i = d.findIdx? (· == newline) := by
  rw [findNewline, h.cstr hd]
  rfl

theorem isSome_findNewline {d : Str} (h : Layout i pre d (0 :: post)) (hd : ∀ c ∈ d, c ≠ 0) :
    (findNewline i).isSome = true ↔ newline ∈ d := by
  rw [findNewline_eq h hd, List.findIdx?_isSome]
  simp

theorem receive_polled {d : Str} (h : Layout i pre d post) (hroom : 1 < post.length)
    (heof : i.eof = true → src = []) (hn : newline ∉ d) (hz : ∀ c ∈ d ++ src.bytes, c ≠ 0) :
    ∃ b i' src' t, receive i src = some (b, i', src') ∧ Polled d src b i' src' t := by
  have hl : Layout i pre (d ++ []) post := by rwa [List.append_nil]
  have hrem := h.bufRem
  by_cases he : i.eof = true
  · have hsrc := heof he
    refine ⟨false, i, src, [], if_pos he, ⟨_, _, hl⟩, heof, rfl, Nat.le_refl _, by simp, ?_⟩
    rw [hsrc]
    exact fun _ => Or.inr ⟨rfl, by simpa using hn⟩
  · obtain ⟨hr, hb⟩ | ⟨src', hr, hb, hs⟩ | ⟨t, src', hr, ht, hlen, hb, hs⟩ :=
      read_cases (show 1 ≤ bufRem i by omega) src
    · refine ⟨false, { i with eof := true }, [], [], by simp [receive, he, hr], ?_⟩
      exact ⟨⟨_, _, hl.inbuf, hl.bufhead, hl.buftail, hl.size, hl.room⟩, fun _ => rfl, hb,
        Nat.zero_le _, by simp, fun _ => Or.inr ⟨rfl, by simpa using hn⟩⟩
    · refine ⟨false, i, src', [], by simp [receive, he, hr], ⟨_, _, hl⟩, fun h => absurd h he, hb,
        hs.le, by simp, fun _ => Or.inl hs⟩
    · have hpos := List.length_pos_of_ne_nil ht
      obtain ⟨i', post', hst, hl', he'⟩ := (h.receive (t := t) (by omega)).sentinel
      have hdt : ∀ c ∈ d ++ t, c ≠ 0 := fun c hc => hz c (by
        rw [hb, ← List.append_assoc]
        exact List.mem_append_left _ hc)
      refine ⟨(findNewline i').isSome, i', src', t, ?_, ⟨_, _, hl'⟩, ?_, hb, hs.le, ?_, ?_⟩
      · have hneg : ¬(t.length : Int) < 0 := by omega
        have hne : ¬(t.length : Int) = 0 := by omega
        simp only [receive, if_neg he, hr, if_neg hneg, if_neg hne, Int.toNat_natCast, hst]
        rfl
      · exact fun h => absurd (he'.symm.trans h) he
      · exact (isSome_findNewline hl' hdt).1
      · exact fun _ => Or.inl hs

/-- A read needs room, which the buffer has, or makes by moving the data to the front. -/
theorem readMore_room {d : Str} (h : Layout i pre d post) (heof : i.eof = true → src = [])
    (hn : newline ∉ d) (hz : ∀ c ∈ d ++ src.bytes, c ≠ 0)
    (hgo : bufRem i = 0 → i.bufhead = 0 → (src.canread).1 ≤ 0) :
    ∃ b i' src' t, readMore i src = some (b, i', src') ∧ Polled d src b i' src' t := by
  have hl : Layout i pre (d ++ []) post := by rwa [List.append_nil]
  have hsz := h.size
  have hr := h.room
  have hrem := h.bufRem
  have hread : 0 < (src.canread).1 → ∃ b i' src' t,
      readMore i src = some (b, i', src') ∧ Polled d src b i' src' t := by
    intro hpos
    have hsrc : src.canread = (1, src) := by
      cases src with
      | nil => rfl
      | cons a src =>
        cases a with
        | chunk | readFailure => rfl
        | idle | pollFailure => simp [Stdin.canread] at hpos
    simp only [readMore, hsrc, show ¬(1 : Int) ≤ 0 by decide, if_false]
    by_cases hfull : bufRem i = 0
    · obtain ⟨post', hc, hlen⟩ := h.compact
      have hhead : i.bufhead ≠ 0 := fun hzero => absurd (hgo hfull hzero) (by omega)
      rw [if_pos hfull, if_neg hhead]
      have hroom : 1 < post'.length := by
        rw [h.bufhead] at hhead
        omega
      exact receive_polled hc hroom heof hn hz
    · rw [if_neg hfull]
      exact receive_polled h (by omega) heof hn hz
  cases src with
  | nil => exact hread (by decide)
  | cons a src =>
    cases a with
    | chunk | readFailure => exact hread (by simp [Stdin.canread])
    | idle | pollFailure =>
      have hs : Stdin.size src < 1 + Stdin.size src := by omega
      refine ⟨false, i, src, [], by simp [readMore, Stdin.canread], ⟨_, _, hl⟩, ?_, rfl, hs.le,
        by simp, fun _ => Or.inl hs⟩
      exact fun h => absurd (heof h) (by simp)

theorem canread_room {d : Str} (h : Layout i pre d post) (heof : i.eof = true → src = [])
    (hz : ∀ c ∈ d ++ src.bytes, c ≠ 0)
    (hgo : newline ∉ d → bufRem i = 0 → i.bufhead = 0 → (src.canread).1 ≤ 0) :
    ∃ b i' src' t, canread i src = some (b, i', src') ∧ Polled d src b i' src' t := by
  have hcnt := h.bufCnt
  by_cases hd : d = []
  · rw [canread, if_pos (by simp [hcnt, hd])]
    exact readMore_room h heof (by simp [hd]) hz (hgo (by simp [hd]))
  · have hne : ¬bufCnt i = 0 := by simpa [hcnt] using hd
    have hdz : ∀ c ∈ d, c ≠ 0 := fun c hc => hz c (List.mem_append_left _ hc)
    obtain ⟨i', post', hst, hl, he⟩ := h.sentinel
    simp only [canread, if_neg hne, hst, Option.bind_eq_bind, Option.bind_some]
    by_cases hn : newline ∈ d
    · have hl' : Layout i' pre (d ++ []) (0 :: post') := by rwa [List.append_nil]
      rw [if_pos ((isSome_findNewline hl hdz).2 hn)]
      exact ⟨true, i', src, [], rfl, ⟨_, _, hl'⟩, fun h => heof (he.symm.trans h), rfl,
        Nat.le_refl _, fun _ => by simpa using hn, by simp⟩
    · rw [if_neg (mt (isSome_findNewline hl hdz).1 hn)]
      refine readMore_room hl (fun h => heof (he.symm.trans h)) hn hz fun hfull hhead => ?_
      have hrem := hl.bufRem
      have hrem' := h.bufRem
      have hsz := hl.size
      have hsz' := h.size
      exact hgo hn (by omega) (by rw [h.bufhead, ← hl.bufhead, hhead])

theorem canread_polled {d : Str} (h : Layout i pre d post) (heof : i.eof = true → src = [])
    (hz : ∀ c ∈ d ++ src.bytes, c ≠ 0) (hfit : Fits newline bufsz (d ++ src.bytes)) :
    ∃ b i' src' t, canread i src = some (b, i', src') ∧ Polled d src b i' src' t := by
  refine canread_room h heof hz fun hn hfull hhead => ?_
  have hlt := hfit.length_lt hn
  have hrem := h.bufRem
  have hsz := h.size
  rw [h.bufhead] at hhead
  omega

/-- The buffer stands in front of what is still to come, and `s` is all that has not been
handed out. -/
structure Ready (i : Input) (src : Stdin) (s : Str) : Prop where
  layout : ∃ pre d post, Layout i pre d post ∧ s = d ++ src.bytes
  ended : i.eof = true → src = []
  nonzero : ∀ c ∈ s, c ≠ 0
  fits : Fits newline bufsz s

theorem ready_bounds {s : Str} (h : Ready i src s) : Bounds i := by
  obtain ⟨pre, d, post, hl, -⟩ := h.layout
  exact hl.bounds

/-- The line `l` was handed out, cut to what fits. -/
structure Delivers (a : Taken) (l : Str) : Prop where
  ret : a.ret = l.length
  dest : a.dest = l.take (a.destsz - 1)

def left (src : Stdin) (s : Str) : Nat := src.size + (lines newline s).length

/-- What a call that takes the lines `ls` out of `s` does. -/
structure Served (src : Stdin) (s : Str) (ls : List Str) (log : List Taken) (i' : Input)
    (src' : Stdin) (s' : Str) : Prop where
  ready : Ready i' src' s'
  lines : lines newline s = ls ++ lines newline s'
  delivers : List.Forall₂ Delivers log ls
  left : left src' s' ≤ left src s

theorem canread_ready {s : Str} (h : Ready i src s) :
    ∃ b i' src', canread i src = some (b, i', src') ∧ Ready i' src' s ∧ left src' s ≤ left src s ∧
      (b = true → src'.size ≤ src.size ∧
        ∃ pre d post, Layout i' pre d post ∧ s = d ++ src'.bytes ∧ newline ∈ d) ∧
      (b = false → left src' s < left src s ∨ lines newline s = []) := by
  obtain ⟨⟨pre, d, post, hl, rfl⟩, heof, hz, hfit⟩ := h
  obtain ⟨b, i', src', t, hc, ⟨pre', post', hl'⟩, heof', hb, hs, ht, hf⟩ :=
    canread_polled hl heof hz hfit
  have hstream : d ++ src.bytes = (d ++ t) ++ src'.bytes := by rw [hb, List.append_assoc]
  refine ⟨b, i', src', hc, ⟨⟨pre', d ++ t, post', hl', hstream⟩, heof', hz, hfit⟩, ?_, ?_, ?_⟩
  · simp only [left]
    omega
  · intro hbt
    exact ⟨hs, pre', d ++ t, post', hl', hstream, ht hbt⟩
  · intro hbf
    obtain hlt | ⟨hend, hn⟩ := hf hbf
    · left
      simp only [InputLines.left]
      omega
    · right
      rw [hstream, hend, List.append_nil]
      exact lines_plain hn

theorem cut_eq {n destsz : Nat} (hn : n ≤ bufsz) (hd : 0 < destsz) :
    (if destsz ≤ n then (destsz + 2 ^ 64 - 1) % 2 ^ 64 else n) = min (destsz - 1) n := by
  have hb : bufsz = 4096 := rfl
  split
  · next h =>
    have hmod : (destsz + 2 ^ 64 - 1) % 2 ^ 64 = destsz - 1 := by omega
    omega
  · omega

/-- The newline is found where it stands, and what is handed out is the line up to it. -/
theorem readline_line {i' : Input} {src' : Stdin} {w e : Str} {destsz : Nat}
    (hc : canread i src = some (true, i', src')) (hl : Layout i' pre (w ++ newline :: e) post)
    (hw : newline ∉ w) (hz : ∀ c ∈ w ++ newline :: e, c ≠ 0) (hlong : w.length + 1 ≤ bufsz)
    (hd : 0 < destsz) :
    ∃ i'' post', readline destsz i src =
        some ((w.length + 1, (w ++ [newline]).take (destsz - 1)), i'', src') ∧
      Layout i'' (pre ++ (w ++ [newline])) e post' ∧ i''.eof = i'.eof := by
  obtain ⟨i'', post', hst, hl', he⟩ := hl.sentinel
  have hcut : w ++ newline :: e = (w ++ [newline]) ++ e := by simp
  have hlen : (w ++ [newline]).length = w.length + 1 := by simp
  have hk : findNewline i'' = some w.length := by
    rw [findNewline_eq hl' hz, List.findIdx?_append,
      List.findIdx?_eq_none_iff.2 (beq_of_notMem hw), List.findIdx?_cons]
    simp
  have hcstr : cstr i''.inbuf i''.bufhead = (w ++ [newline]) ++ e := by rw [hl'.cstr hz, hcut]
  have htake : ((w ++ [newline]) ++ e).take (min (destsz - 1) (w.length + 1)) =
      (w ++ [newline]).take (destsz - 1) := by
    rw [List.take_append_of_le_length (by omega), ← hlen, List.take_eq_take_iff]
    omega
  have hadv : Layout { i'' with bufhead := i''.bufhead + (w.length + 1) } (pre ++ (w ++ [newline]))
      e (0 :: post') := by
    rw [hcut] at hl'
    exact hlen ▸ hl'.advance
  refine ⟨{ i'' with bufhead := i''.bufhead + (w.length + 1) }, 0 :: post', ?_, hadv, he⟩
  have hfit : ¬destsz ≤ min (destsz - 1) (w.length + 1) := by omega
  simp only [readline, hc, hst, hk, Option.bind_eq_bind, Option.bind_some, cut_eq hlong hd,
    if_neg hfit, hcstr, htake, pure]

theorem readline_none {i' : Input} {src' : Stdin} {destsz : Nat}
    (hc : canread i src = some (false, i', src')) :
    readline destsz i src = some ((0, []), i', src') := by
  rw [readline, hc]
  rfl

theorem left_line {src' : Stdin} {w t : Str} (hw : newline ∉ w) (hs : src'.size ≤ src.size) :
    left src' t < left src (w ++ newline :: t) := by
  rw [left, left, lines_line hw, List.length_cons]
  omega

theorem readline_ready {s : Str} (h : Ready i src s) {destsz : Nat} (hd : 0 < destsz) :
    ∃ ls log i' src' s', (Call.readline destsz).run i src = some (log, i', src') ∧
      Served src s ls log i' src' s' ∧ (left src' s' < left src s ∨ lines newline s = []) := by
  obtain ⟨b, i', src', hc, hr, hle, ht, hf⟩ := canread_ready h
  cases b with
  | false =>
    refine ⟨[], [], i', src', s, ?_, ⟨hr, rfl, .nil, hle⟩, hf rfl⟩
    simp [Call.run, readline_none hc]
  | true =>
    obtain ⟨hsz, pre, d, post, hl, rfl, hn⟩ := ht rfl
    obtain ⟨w, e, rfl, hw⟩ := List.eq_append_cons_of_mem hn
    have hcut : w ++ newline :: e ++ src'.bytes = w ++ newline :: (e ++ src'.bytes) := by simp
    rw [hcut] at h ⊢
    have hlines := lines_line hw (e ++ src'.bytes)
    have hlong : (w ++ [newline]).length ≤ bufsz := h.fits.lines _ (by rw [hlines]; simp)
    rw [List.length_append, List.length_singleton] at hlong
    have hz : ∀ c ∈ w ++ newline :: e, c ≠ 0 := by
      intro c hc
      apply h.nonzero c
      rw [← hcut]
      exact List.mem_append_left _ hc
    obtain ⟨i'', post', hread, hl'', he⟩ := readline_line hc hl hw hz hlong hd
    have hlt := left_line (t := e ++ src'.bytes) hw hsz
    refine ⟨[w ++ [newline]], [⟨destsz, w.length + 1, (w ++ [newline]).take (destsz - 1)⟩], i'',
      src', e ++ src'.bytes, ?_, ⟨⟨⟨_, _, _, hl'', rfl⟩, ?_, ?_, h.fits.tail hw⟩, hlines, ?_, ?_⟩,
      ?_⟩
    · simp [Call.run, hread]
    · exact fun h => hr.ended (he.symm.trans h)
    · intro c hc
      apply h.nonzero c
      simp [List.mem_append.1 hc]
    · exact .cons ⟨by simp, rfl⟩ .nil
    · exact hlt.le
    · exact Or.inl hlt

theorem call_ready {s : Str} (h : Ready i src s) {call : Call} (hd : call.Fits) :
    ∃ ls log i' src' s', call.run i src = some (log, i', src') ∧
      Served src s ls log i' src' s' ∧
      (call.isReadline = true → left src' s' < left src s ∨ lines newline s = []) := by
  cases call with
  | canread =>
    obtain ⟨b, i', src', hc, hr, hle, -, -⟩ := canread_ready h
    refine ⟨[], [], i', src', s, ?_, ⟨hr, rfl, .nil, hle⟩, by simp [Call.isReadline]⟩
    simp [Call.run, hc]
  | readline destsz =>
    obtain ⟨ls, log, i', src', s', hrun, hserved, hleft⟩ := readline_ready h hd
    exact ⟨ls, log, i', src', s', hrun, hserved, fun _ => hleft⟩

theorem run_ready {calls : List Call} (hd : ∀ call ∈ calls, call.Fits) :
    ∀ {i : Input} {src : Stdin} {s : Str}, Ready i src s →
    ∃ ls log i' src' s', run i src calls = some (log, i', src') ∧
      Served src s ls log i' src' s' ∧
      (lines newline s' = [] ∨ left src' s' + calls.countP Call.isReadline ≤ left src s) := by
  induction calls with
  | nil =>
    intro i src s h
    exact ⟨[], [], i, src, s, rfl, ⟨h, rfl, .nil, Nat.le_refl _⟩, Or.inr (Nat.le_refl _)⟩
  | cons call calls ih =>
    intro i src s h
    obtain ⟨ls, log, i', src', s', hrun, hserved, hleft⟩ := call_ready h (hd call (by simp))
    obtain ⟨ls', log', i'', src'', s'', hrun', hserved', hleft'⟩ :=
      ih (fun c hc => hd c (List.mem_cons_of_mem _ hc)) hserved.ready
    have hlines : lines newline s = (ls ++ ls') ++ lines newline s'' := by
      rw [hserved.lines, hserved'.lines, List.append_assoc]
    refine ⟨ls ++ ls', log ++ log', i'', src'', s'', ?_, ⟨hserved'.ready, hlines,
      List.rel_append hserved.delivers hserved'.delivers, hserved'.left.trans hserved.left⟩, ?_⟩
    · simp [run, hrun, hrun']
    · by_cases hnil : lines newline s'' = []
      · exact Or.inl hnil
      · right
        have hnext := hleft'.resolve_left hnil
        have hle := hserved.left
        cases hr : call.isReadline with
        | false =>
          rw [List.countP_cons_of_neg (by simp [hr])]
          omega
        | true =>
          have hne : lines newline s ≠ [] := by
            rw [hlines]
            simp [hnil]
          have hlt := (hleft hr).resolve_right hne
          rw [List.countP_cons_of_pos hr]
          omega

theorem ready_init {src : Stdin} (hz : ∀ c ∈ src.bytes, c ≠ 0)
    (hfit : Fits newline bufsz src.bytes) : Ready Input.init src src.bytes :=
  ⟨⟨[], [], _, layout_init, rfl⟩, fun h => absurd h (by decide), hz, hfit⟩

/-- Whatever calls are made and however the stream arrives, no call overruns the buffer, the
lines handed out are the first ones of the stream, and with enough calls they are all of them. -/
theorem lines_delivered (src : Stdin) (calls : List Call) (hz : ∀ c ∈ src.bytes, c ≠ 0)
    (hfit : Fits newline bufsz src.bytes) (hd : ∀ call ∈ calls, call.Fits) :
    ∃ log i src', run Input.init src calls = some (log, i, src') ∧ Bounds i ∧
      List.Forall₂ Delivers log ((lines newline src.bytes).take log.length) ∧
      (src.size + (lines newline src.bytes).length ≤ calls.countP Call.isReadline →
        log.length = (lines newline src.bytes).length) := by
  obtain ⟨ls, log, i, src', s', hrun, hserved, hleft⟩ := run_ready hd (ready_init hz hfit)
  have hlen := hserved.delivers.length_eq
  have hlines := hserved.lines
  refine ⟨log, i, src', hrun, ready_bounds hserved.ready, ?_, ?_⟩
  · rw [hlines, hlen, List.take_left']
    · exact hserved.delivers
    · rfl
  · intro hmany
    have hnil : lines newline s' = [] := by
      obtain hnil | hleft := hleft
      · exact hnil
      · rw [← List.length_eq_zero_iff]
        simp only [left] at hleft
        omega
    rw [hlines, hnil, List.append_nil, hlen]

def typed : Stdin := [.chunk 0x68 [], .idle, .chunk 0x69 [0x0a, 0x79], .chunk 0x6f [0x0a]]

theorem lines_delivered_typed :
    ∃ log i src', run Input.init typed [.readline 2, .canread, .readline 8] = some (log, i, src') ∧
      Bounds i ∧ List.Forall₂ Delivers log ((lines newline typed.bytes).take log.length) ∧
      (typed.size + (lines newline typed.bytes).length ≤
          [Call.readline 2, .canread, .readline 8].countP Call.isReadline →
        log.length = (lines newline typed.bytes).length) :=
  lines_delivered typed [.readline 2, .canread, .readline 8] (by decide +kernel)
    ⟨by decide +kernel, by decide +kernel⟩ (by simp [Call.Fits])

end Srsirc.InputLines
