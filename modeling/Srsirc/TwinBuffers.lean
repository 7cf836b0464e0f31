import Srsirc.Reassembly

namespace Srsirc.TwinBuffers

open CharMap Memory ReadBuffer BufferData LineReading TagGrammar Reassembly

/-- Two buffers with the same data at the same place. -/
inductive Twin (r r' : Readctx) : Prop
  | intro {pre pre' s post post' : Mem} (hlen : pre'.length = pre.length) (hl : Layout r pre s post)
      (hl' : Layout r' pre' s post')

theorem Twin.refl {r : Readctx} (hb : Bounds r) : Twin r r := by
  obtain ⟨pre, post, hl⟩ := hb.layout
  exact ⟨rfl, hl, hl⟩

theorem Twin.wptr {r r' : Readctx} (h : Twin r r') : r'.wptr = r.wptr := by
  obtain ⟨hlen, hl, hl'⟩ := h
  rw [hl.wptr, hl'.wptr, hlen]

theorem Twin.eptr {r r' : Readctx} (h : Twin r r') : r'.eptr = r.eptr := by
  obtain ⟨hlen, hl, hl'⟩ := h
  rw [hl.eptr, hl'.eptr, hlen]

theorem Twin.bounds {r r' : Readctx} (h : Twin r r') : Bounds r := by
  obtain ⟨_, hl, _⟩ := h
  exact hl.bounds

inductive TwinTaken : Readctx × Option (Nat × Nat) → Readctx × Option (Nat × Nat) → Prop
  | none {r r' : Readctx} (h : Twin r r') : TwinTaken (r, none) (r', none)
  | line {r r' : Readctx} {pre pre' w e post post' : Mem} {d : UInt8}
      (hlen : pre'.length = pre.length)
      (hl : Layout r (pre ++ (w ++ [d])) e post) (hl' : Layout r' (pre' ++ (w ++ [d])) e post') :
      TwinTaken (r, some (pre.length, w.length)) (r', some (pre.length, w.length))

section Equations

variable {r q : Readctx} {n : Nat} (k : Nat)

theorem takeLine_plain (hf : findDelim r = (q, none)) :
    takeLine k r = ([q.point none], q, none) := by
  cases k <;> simp [takeLine, hf]

theorem takeLine_word (hf : findDelim r = (q, some n)) (hn : n ≠ 0) :
    takeLine k r = ([q.point none], { q with wptr := q.wptr + 1 + n }, some (q.wptr, n)) := by
  cases k <;> simp [takeLine, hf, hn]

theorem takeLine_stop (hf : findDelim r = (q, some 0)) :
    takeLine 0 r = ([q.point none], q, none) := by
  simp [takeLine, hf]

theorem takeLine_skip (hf : findDelim r = (q, some 0)) :
    (takeLine (k + 1) r).2 = (takeLine k { q with wptr := q.wptr + 1 }).2 := by
  rw [takeLine, hf]
  rfl

end Equations

theorem takeLine_twin (k : Nat) {r r' : Readctx} {pre pre' s post post' : Mem}
    (hlen : pre'.length = pre.length) (hl : Layout r pre s post) (hl' : Layout r' pre' s post') :
    TwinTaken (takeLine k r).2 (takeLine k r').2 := by
  induction s generalizing k r r' pre pre' post post' with
  | nil =>
    obtain ⟨q, post, hf, hq⟩ := hl.findDelim
    obtain ⟨q', post', hf', hq'⟩ := hl'.findDelim
    rw [takeLine_plain k hf, takeLine_plain k hf']
    exact TwinTaken.none ⟨hlen, hq, hq'⟩
  | cons c s ih =>
    obtain ⟨q, post, hf, hq⟩ := hl.findDelim
    obtain ⟨q', post', hf', hq'⟩ := hl'.findDelim
    obtain hs | ⟨w, d, e, heq, hw, hd⟩ := plain_or_line (c :: s)
    · rw [findIdx?_plain hs] at hf hf'
      rw [takeLine_plain k hf, takeLine_plain k hf']
      exact TwinTaken.none ⟨hlen, hq, hq'⟩
    · rw [heq, findIdx?_line hw hd] at hf hf'
      cases w with
      | nil =>
        cases k with
        | zero =>
          rw [takeLine_stop hf, takeLine_stop hf']
          exact TwinTaken.none ⟨hlen, hq, hq'⟩
        | succ k =>
          have hadv : Layout q pre ([c] ++ s) post := hq
          have hadv' : Layout q' pre' ([c] ++ s) post' := hq'
          rw [takeLine_skip k hf, takeLine_skip k hf']
          exact ih k (by simp [hlen]) (hadv.advance rfl) (hadv'.advance rfl)
      | cons c' w =>
        have hadv := (hq.cast (show _ = (c' :: w ++ [d]) ++ e by simp [heq])).advance
          (n := 1 + (c' :: w).length) (by simp; omega)
        have hadv' := (hq'.cast (show _ = (c' :: w ++ [d]) ++ e by simp [heq])).advance
          (n := 1 + (c' :: w).length) (by simp; omega)
        rw [← Nat.add_assoc] at hadv hadv'
        rw [takeLine_word k hf (by simp), takeLine_word k hf' (by simp), hq.wptr, hq'.wptr, hlen]
        rw [hq.wptr] at hadv
        rw [hq'.wptr, hlen] at hadv'
        exact TwinTaken.line hlen hadv hadv'

inductive TwinMore : Option (Int × Readctx × Source) → Option (Int × Readctx × Source) → Prop
  | blocked : TwinMore none none
  | more {n : Int} {r r' : Readctx} {src : Source} (h : Twin r r') :
      TwinMore (some (n, r, src)) (some (n, r', src))

theorem read_length {sz : Nat} {src src' : Source} {n : Int} {t : Str}
    (h : src.read sz = some (n, t, src')) (hn : 0 < n) : t.length ≤ sz ∧ n = t.length := by
  cases src with
  | nil => cases h
  | cons a src =>
    cases a with
    | timeout | eof | failure =>
      cases h
      omega
    | chunk c s =>
      rw [Source.read] at h
      split at h <;>
      · cases h
        exact ⟨List.length_take_le _ _, rfl⟩

theorem fill_twin {r r' : Readctx} {pre pre' s post post' : Mem} (hlen : pre'.length = pre.length)
    (hl : Layout r pre s post) (hl' : Layout r' pre' s post') (src : Source) :
    TwinMore (fill r src).2 (fill r' src).2 := by
  have heptr : r'.eptr = r.eptr := by rw [hl.eptr, hl'.eptr, hlen]
  have hroom : post'.length = post.length ∧ workbufSz - r.eptr < post.length := by
    have h₁ := hl.size
    have h₂ := hl'.size
    have h₃ := hl.eptr
    have h₄ := hl.room
    omega
  simp only [fill, heptr]
  split
  · exact TwinMore.blocked
  · next n t src' hread =>
    split
    · exact TwinMore.more ⟨hlen, hl, hl'⟩
    · next hn =>
      obtain ⟨ht, htn⟩ := read_length hread (by omega)
      have hnat : n.toNat = t.length := by omega
      have hr := hl.receive (t := t) (by omega) hnat
      have hr' := hl'.receive (t := t) (by omega) hnat
      rw [heptr] at hr'
      exact TwinMore.more ⟨hlen, hr, hr'⟩

theorem readMore_twin {r r' : Readctx} (h : Twin r r') (src : Source) :
    TwinMore (readMore r src).2 (readMore r' src).2 := by
  rw [readMore, readMore, h.eptr, h.wptr]
  obtain ⟨hlen, hl, hl'⟩ := h
  split
  · split
    · exact TwinMore.more ⟨hlen, hl, hl'⟩
    · obtain ⟨_, hc, _⟩ := hl.compact
      obtain ⟨_, hc', _⟩ := hl'.compact
      exact fill_twin rfl hc hc' src
  · exact fill_twin hlen hl hl' src

inductive TwinAwaited : Option (Awaited × Readctx × Source) →
    Option (Awaited × Readctx × Source) → Prop
  | blocked : TwinAwaited none none
  | code {n : Int} {r r' : Readctx} {src : Source} (h : Twin r r') (hn : n ≤ 0) :
      TwinAwaited (some (.code n, r, src)) (some (.code n, r', src))
  | line {r r' : Readctx} {pre pre' w e post post' : Mem} {d : UInt8} {src : Source}
      (hlen : pre'.length = pre.length) (hl : Layout r (pre ++ (w ++ [d])) e post)
      (hl' : Layout r' (pre' ++ (w ++ [d])) e post') :
      TwinAwaited (some (.line pre.length w.length, r, src))
        (some (.line pre.length w.length, r', src))

theorem awaitLine_twin (k : Nat) {r r' : Readctx} (h : Twin r r') (src : Source) :
    TwinAwaited (awaitLine k r src).2 (awaitLine k r' src).2 := by
  induction k generalizing r r' src with
  | zero => exact TwinAwaited.blocked
  | succ k ih =>
    have ht : TwinTaken (takeLine (r.eptr - r.wptr) r).2 (takeLine (r'.eptr - r'.wptr) r').2 := by
      rw [h.eptr, h.wptr]
      obtain ⟨hlen, hl, hl'⟩ := h
      exact takeLine_twin _ hlen hl hl'
    rw [awaitLine, awaitLine]
    generalize takeLine (r.eptr - r.wptr) r = taken at ht ⊢
    generalize takeLine (r'.eptr - r'.wptr) r' = taken' at ht ⊢
    obtain ⟨log, out⟩ := taken
    obtain ⟨log', out'⟩ := taken'
    cases ht with
    | line hlen hl hl' => exact TwinAwaited.line hlen hl hl'
    | @none q q' hq =>
      have hm := readMore_twin hq src
      dsimp only
      generalize readMore q src = more at hm ⊢
      generalize readMore q' src = more' at hm ⊢
      obtain ⟨log₁, out⟩ := more
      obtain ⟨log₁', out'⟩ := more'
      cases hm with
      | blocked => exact TwinAwaited.blocked
      | more hq' =>
        dsimp only
        split
        · next hn => exact TwinAwaited.code hq' hn
        · exact ih hq' _

theorem skipDelims_twin {r r' : Readctx} (h : Twin r r') : Twin (skipDelims r) (skipDelims r') := by
  have hw := h.wptr
  have he := h.eptr
  obtain @⟨pre, pre', s, post, post', hlen, hl, hl'⟩ := h
  have hcut := (List.takeWhile_append_dropWhile (p := isDelim) (l := s)).symm
  have hadv := (hl.cast hcut).advance rfl
  have hadv' := (hl'.cast hcut).advance rfl
  rw [skipDelims, skipDelims, hl.data, hl'.data]
  dsimp only
  rw [hw, he]
  split
  · next hend =>
    have hnil : s.dropWhile isDelim = [] := by
      have hlength := congrArg List.length hcut
      have hwptr := hl.wptr
      have heptr := hl.eptr
      rw [List.length_append] at hlength
      exact List.length_eq_zero_iff.1 (by omega)
    exact ⟨rfl, (hadv.cast hnil).reset, (hadv'.cast hnil).reset⟩
  · rw [hw, he] at hadv'
    exact ⟨by rw [List.length_append, List.length_append, hlen], hadv, hadv'⟩

theorem skipDelims_drained {r : Readctx} (hb : Bounds r) (hs : ∀ c ∈ r.data, isDelim c = true) :
    skipDelims r = { r with wptr := 0, eptr := 0 } := by
  have htake : r.data.takeWhile isDelim = r.data := List.takeWhile_eq_self_iff.2 hs
  have hle := hb.wptr_le
  rw [skipDelims, htake, length_data hb]
  simp only [Nat.add_sub_cancel' hle, if_true]

inductive TwinReply : Option (Reply × Readctx × Source) → Option (Reply × Readctx × Source) → Prop
  | blocked : TwinReply none none
  | reply {reply reply' : Reply} {r r' : Readctx} {src : Source} (h : Twin r r')
      (hone : reply.ret ≤ 0 ∨ reply.ret = 1) (hret : reply'.ret =
        reply.ret) (hobs : observe reply' = observe reply) :
      TwinReply (some (reply, r, src)) (some (reply', r', src))

theorem ret_of_observe {reply reply' : Reply} (h : reply.ret = 1 ∨ reply.ret = -1)
    (h' : reply'.ret = 1 ∨ reply'.ret = -1) (hobs : observe reply' = observe reply) :
    reply'.ret = reply.ret := by
  obtain h | h := h <;> obtain h' | h' := h' <;> simp [observe, h, h'] at hobs ⊢

theorem ioRead_twin (destmax : Nat) {r r' : Readctx} (h : Twin (skipDelims r) (skipDelims r'))
    (src : Source) : TwinReply (ioRead destmax r src).2 (ioRead destmax r' src).2 := by
  have ha := awaitLine_twin (src.size + 1) h src
  rw [ioRead, ioRead]
  dsimp only
  generalize awaitLine (src.size + 1) (skipDelims r) src = awaited at ha ⊢
  generalize awaitLine (src.size + 1) (skipDelims r') src = awaited' at ha ⊢
  obtain ⟨log, out⟩ := awaited
  obtain ⟨log', out'⟩ := awaited'
  cases ha with
  | blocked => exact TwinReply.blocked
  | code hq hn => exact TwinReply.reply hq (Or.inl hn) rfl rfl
  | @line q q' pre pre' w e post post' d src hlen hl hl' =>
    have hset : q.workbuf.set (pre.length + w.length) 0 = pre ++ (w ++ 0 :: (e ++ post)) := by
      rw [hl.workbuf]
      simp
    have hset' : q'.workbuf.set (pre.length + w.length) 0 = pre' ++ (w ++ 0 :: (e ++ post')) := by
      rw [hl'.workbuf, ← hlen]
      simp
    obtain ⟨v, hv, hmem, hobs, hret⟩ :=
      parseLine_deliver destmax pre w (e ++ post) (p := pre.length) rfl
    obtain ⟨v', hv', hmem', hobs', hret'⟩ :=
      parseLine_deliver destmax pre' w (e ++ post') (p := pre.length) hlen.symm
    simp only [hset, hset']
    have hobs₂ := hobs'.trans hobs.symm
    have hcons := @Layout.consumed _ _ _ _ (pre ++ (v ++ [0])) hl (by simp [hv])
    have hcons' := @Layout.consumed _ _ _ _ (pre' ++ (v' ++ [0])) hl' (by simp [hv'])
    have hmem₂ := hmem.trans (show _ = pre ++ (v ++ [0]) ++ (e ++ post) by simp)
    have hmem₂' := hmem'.trans (show _ = pre' ++ (v' ++ [0]) ++ (e ++ post') by simp)
    rw [← hmem₂] at hcons
    rw [← hmem₂'] at hcons'
    exact TwinReply.reply ⟨by simp [hlen, hv, hv'], hcons, hcons'⟩ (by omega)
      (ret_of_observe hret hret' hobs₂) hobs₂

end Srsirc.TwinBuffers
