import Srsirc.BufferData

namespace Srsirc.LineReading

open CharMap Memory ReadBuffer BufferData

def Source.bytes : Source → Str
  | [] => []
  | .chunk c s :: src => c :: (s ++ Source.bytes src)
  | _ :: src => Source.bytes src

/-- Neither the end of the stream nor a failure is ahead. -/
def Quiet (src : Source) : Prop := ∀ a ∈ src, a ≠ .eof ∧ a ≠ .failure

theorem quiet_tail {a : Arrival} {src : Source} (h : Quiet (a :: src)) : Quiet src :=
  fun b hb => h b (List.mem_cons_of_mem a hb)

theorem quiet_chunk {c : UInt8} {s : Str} {src : Source} (h : Quiet src) :
    Quiet (.chunk c s :: src) := by
  intro a ha
  obtain rfl | ha := List.mem_cons.mp ha
  · exact ⟨by simp, by simp⟩
  · exact h a ha

/-- What is left of a source after a read that took `t` from it. -/
structure Rest (src : Source) (t : Str) (src' : Source) : Prop where
  bytes : Source.bytes src = t ++ Source.bytes src'
  size : src'.size < src.size
  quiet : Quiet src'

theorem read_cases {sz : Nat} (hsz : 1 ≤ sz) {src : Source} (hq : Quiet src) :
    (src.read sz = none ∧ Source.bytes src = []) ∨
    (∃ src', src.read sz = some (0, [], src') ∧ Rest src [] src') ∨
    ∃ t src', src.read sz = some (t.length, t, src') ∧ t ≠ [] ∧ t.length ≤ sz ∧
      Rest src t src' := by
  cases src with
  | nil => exact Or.inl ⟨rfl, rfl⟩
  | cons a src =>
    have ha := hq a List.mem_cons_self
    have hq' := quiet_tail hq
    cases a with
    | eof => exact absurd rfl ha.1
    | failure => exact absurd rfl ha.2
    | timeout => exact Or.inr (Or.inl ⟨src, rfl, rfl, by simp [Source.size], hq'⟩)
    | chunk c s =>
      refine Or.inr (Or.inr ?_)
      obtain ⟨hpos, hlen, ⟨hd, ht⟩ | ⟨c', s', hd, hlt, ht⟩⟩ := take_chunk hsz c s
      · refine ⟨(c :: s).take sz, src, ?_, List.ne_nil_of_length_pos hpos, hlen, ?_, ?_, hq'⟩
        · simp only [Source.read, hd]
        · rw [ht]
          rfl
        · simp only [Source.size]
          omega
      · refine ⟨(c :: s).take sz, .chunk c' s' :: src, ?_, List.ne_nil_of_length_pos hpos,
          hlen, ?_, ?_,
          quiet_chunk hq'⟩
        · simp only [Source.read, hd]
        · calc Source.bytes (.chunk c s :: src)
              = c :: s ++ Source.bytes src := rfl
            _ = (c :: s).take sz ++ c' :: s' ++ Source.bytes src := by rw [ht]
            _ = (c :: s).take sz ++ Source.bytes (.chunk c' s' :: src) := by simp [Source.bytes]
        · simp only [Source.size]
          omega

variable {r : Readctx} {pre s post : Mem}

/-- How the attempt to read more data behind `s` can end. -/
inductive More (s : Str) (src : Source) : Option (Int × Readctx × Source) → Prop
  | blocked (hb : Source.bytes src = []) (hs : s.length < workbufSz) : More s src none
  | timeout {r' : Readctx} {pre post : Mem} {src' : Source} (hr : Rest src [] src')
      (hl : Layout r' pre s post) : More s src (some (0, r', src'))
  | full {r' : Readctx} {pre post : Mem} (hl : Layout r' pre s post) (hs : workbufSz ≤ s.length) :
      More s src (some (-1, r', src))
  | received {r' : Readctx} {pre post : Mem} {src' : Source} {t : Str} (hr : Rest src t src')
      (ht : t ≠ []) (hl : Layout r' pre (s ++ t) post) : More s src (some (1, r', src'))

theorem fill_more (h : Layout r pre s post) (hroom : 1 < post.length) {src : Source}
    (hq : Quiet src) :
    (∀ p ∈ (fill r src).1, PointOk p) ∧ More s src (fill r src).2 := by
  have hsz := h.size
  have he := h.eptr
  have hask : 1 ≤ workbufSz - r.eptr := by omega
  have hpost : post.length = workbufSz - r.eptr + 1 := by omega
  refine ⟨?_, ?_⟩
  · simp only [fill, List.mem_singleton, forall_eq]
    refine ⟨h.bounds.wptr_le, h.bounds.eptr_le, ?_⟩
    rintro sz hsz
    obtain rfl := Option.some.inj hsz
    exact ⟨hask, Nat.le_refl _⟩
  · obtain ⟨hr, hb⟩ | ⟨src', hr, hrest⟩ | ⟨t, src', hr, ht, hlen, hrest⟩ := read_cases hask hq
    · simp only [fill, hr]
      exact .blocked hb (by omega)
    · simp only [fill, hr, Int.le_refl, if_true]
      exact .timeout hrest h
    · have hpos : ¬(t.length : Int) ≤ 0 := by
        have := List.length_pos_of_ne_nil ht
        omega
      simp only [fill, hr, if_neg hpos]
      exact .received hrest ht (h.receive (by omega) (by simp))

theorem readMore_more (h : Layout r pre s post) {src : Source} (hq : Quiet src) :
    (∀ p ∈ (readMore r src).1, PointOk p) ∧ More s src (readMore r src).2 := by
  have hsz := h.size
  have he := h.eptr
  have hw := h.wptr
  have hr := h.room
  by_cases hfull : workbufSz - r.eptr = 0
  · by_cases hfront : r.wptr = 0
    · simp only [readMore, hfull, hfront, if_true]
      refine ⟨by simp, .full h ?_⟩
      omega
    · obtain ⟨post', hl, hlen⟩ := h.compact
      simp only [readMore, hfull, hfront, if_true, if_false]
      exact fill_more hl (by omega) hq
  · simp only [readMore, hfull, if_false]
    exact fill_more h (by omega) hq

def Plain (s : Str) : Prop := ∀ c ∈ s, isDelim c = false

theorem findIdx?_plain (hs : Plain s) : s.findIdx? isDelim = none :=
  List.findIdx?_eq_none_iff.mpr hs

theorem findIdx?_line {w : Str} {d : UInt8} (hw : Plain w) (hd : isDelim d = true) (e : Str) :
    (w ++ d :: e).findIdx? isDelim = some w.length := by
  induction w with
  | nil => simp [List.findIdx?_cons, hd]
  | cons c w ih =>
    obtain ⟨hc, hw⟩ := List.forall_mem_cons.mp hw
    simp [List.findIdx?_cons, hc, ih hw]

theorem plain_or_line (s : Str) :
    Plain s ∨ ∃ w d e, s = w ++ d :: e ∧ Plain w ∧ isDelim d = true := by
  induction s with
  | nil => exact Or.inl (by simp [Plain])
  | cons c s ih =>
    by_cases hc : isDelim c = true
    · exact Or.inr ⟨[], c, s, rfl, by simp [Plain], hc⟩
    · have hc : isDelim c = false := by simpa using hc
      obtain hs | ⟨w, d, e, rfl, hw, hd⟩ := ih
      · exact Or.inl (List.forall_mem_cons.mpr ⟨hc, hs⟩)
      · exact Or.inr ⟨c :: w, d, e, rfl, List.forall_mem_cons.mpr ⟨hc, hw⟩, hd⟩

/-- How the search in the data `s` ends: without a line, or in front of the delimiter of one. -/
inductive Taken : Str → Readctx × Option (Nat × Nat) → Prop
  | none {r : Readctx} {pre s post : Mem} (hl : Layout r pre s post) (hs : Plain s) :
      Taken s (r, none)
  | line {r : Readctx} {pre w e post : Mem} {d : UInt8} (hl : Layout r (pre ++ (w ++ [d])) e post)
      (hw : Plain w) (hne : w ≠ []) (hd : isDelim d = true) :
      Taken (w ++ d :: e) (r, some (pre.length, w.length))
  | skip {s : Str} {d : UInt8} {out : Readctx × Option (Nat × Nat)} (hd : isDelim d = true)
      (ht : Taken s out) : Taken (d :: s) out

theorem takeLine_taken (k : Nat) (h : Layout r pre s post) (hk : s.length ≤ k) :
    (∀ p ∈ (takeLine k r).1, PointOk p) ∧ Taken s (takeLine k r).2 := by
  induction k generalizing r pre s post with
  | zero =>
    obtain rfl := List.length_eq_zero_iff.mp (Nat.le_zero.mp hk)
    obtain ⟨r', post', hf, hl⟩ := h.findDelim
    rw [takeLine, hf]
    simp only [List.findIdx?_nil, List.mem_singleton, forall_eq]
    exact ⟨point_ok hl.bounds, .none hl (by simp [Plain])⟩
  | succ k ih =>
    obtain ⟨r', post', hf, hl⟩ := h.findDelim
    obtain hs | ⟨w, d, e, rfl, hw, hd⟩ := plain_or_line s
    · rw [findIdx?_plain hs] at hf
      rw [takeLine, hf]
      simp only [List.mem_singleton, forall_eq]
      exact ⟨point_ok hl.bounds, .none hl hs⟩
    · rw [findIdx?_line hw hd] at hf
      cases w with
      | nil =>
        have hl' : Layout r' pre ([d] ++ e) post' := hl
        obtain ⟨hlog, ht⟩ := ih (hl'.advance (n := 1) rfl) (by simpa using hk)
        rw [takeLine, hf]
        simp only [List.length_nil, if_true]
        refine ⟨?_, .skip hd ht⟩
        intro p hp
        obtain rfl | hp := List.mem_cons.mp hp
        · exact point_ok hl.bounds
        · exact hlog p hp
      | cons c w =>
        have hl' : Layout r' pre ((c :: w ++ [d]) ++ e) post' := hl.cast (by simp)
        have hadv := hl'.advance (n := 1 + (c :: w).length) (by simp; omega)
        have hn : ¬(c :: w).length = 0 := by simp
        rw [takeLine, hf]
        simp only [if_neg hn, List.mem_singleton, forall_eq]
        refine ⟨point_ok hl.bounds, ?_⟩
        rw [hl.wptr] at hadv ⊢
        exact .line (by simpa [Nat.add_assoc] using hadv) hw (by simp) hd

end Srsirc.LineReading
