import Srsirc.ReadBuffer

namespace Srsirc.BufferData

open CharMap Memory ReadBuffer

/-- The pointers stay in the buffer, and its last byte is never data. -/
structure Bounds (r : Readctx) : Prop where
  size : r.workbuf.length = workbufSz + 1
  wptr_le : r.wptr ≤ r.eptr
  eptr_le : r.eptr ≤ workbufSz

structure PointOk (p : Point) : Prop where
  wptr_le : p.wptr ≤ p.eptr
  eptr_le : p.eptr ≤ workbufSz
  asked : ∀ sz, p.asked = some sz → 1 ≤ sz ∧ sz ≤ workbufSz - p.eptr

/-- A buffer in bounds, given by its data and what stands around it. -/
structure Layout (r : Readctx) (pre s post : Mem) : Prop where
  workbuf : r.workbuf = pre ++ (s ++ post)
  wptr : r.wptr = pre.length
  eptr : r.eptr = pre.length + s.length
  size : pre.length + (s.length + post.length) = workbufSz + 1
  room : 0 < post.length

variable {r : Readctx} {pre s post : Mem}

theorem Layout.bounds (h : Layout r pre s post) : Bounds r := by
  have hs := h.size
  have hr := h.room
  refine ⟨?_, ?_, ?_⟩
  · rw [h.workbuf, List.length_append, List.length_append]
    omega
  · rw [h.wptr, h.eptr]
    omega
  · rw [h.eptr]
    omega

theorem Layout.data (h : Layout r pre s post) : r.data = s := by
  rw [Readctx.data, h.workbuf, h.wptr, h.eptr]
  simp

theorem Layout.cast {s' : Mem} (h : Layout r pre s post) (hs : s = s') : Layout r pre s' post :=
  hs ▸ h

theorem length_data (hb : Bounds r) : r.data.length = r.eptr - r.wptr := by
  have hsz := hb.size
  have he := hb.eptr_le
  simp only [Readctx.data, List.length_take, List.length_drop]
  omega

theorem Bounds.layout (hb : Bounds r) : ∃ pre post, Layout r pre r.data post := by
  have hlen := length_data hb
  have hsz := hb.size
  have hw := hb.wptr_le
  have he := hb.eptr_le
  have hd : r.workbuf.drop r.wptr = r.data ++ r.workbuf.drop r.eptr := by
    rw [Readctx.data, show r.eptr = r.wptr + (r.eptr - r.wptr) by omega, ← List.drop_drop,
      Nat.add_sub_cancel_left, List.take_append_drop]
  have htake : (r.workbuf.take r.wptr).length = r.wptr := by
    rw [List.length_take]
    omega
  have hdrop : (r.workbuf.drop r.eptr).length = workbufSz + 1 - r.eptr := by
    rw [List.length_drop, hsz]
  refine ⟨r.workbuf.take r.wptr, r.workbuf.drop r.eptr, ?_, htake.symm, ?_, ?_, ?_⟩
  · rw [← hd, List.take_append_drop]
  · omega
  · omega
  · omega

theorem point_ok (hb : Bounds r) : PointOk (r.point none) :=
  ⟨hb.wptr_le, hb.eptr_le, fun _ h => by cases h⟩

theorem layout_init : Layout Readctx.init [] [] (List.replicate (workbufSz + 1) 0) :=
  ⟨by simp [Readctx.init], rfl, rfl, by simp, by simp⟩

theorem Layout.advance {w : Mem} (h : Layout r pre (w ++ s) post) {n : Nat} (hn : n = w.length) :
    Layout { r with wptr := r.wptr + n } (pre ++ w) s post := by
  obtain ⟨hw, hp, he, hs, hr⟩ := h
  subst hn
  simp only [List.length_append] at he hs
  exact ⟨by simp [hw], by simp [hp], by simp [he, Nat.add_assoc], by simp; omega, hr⟩

theorem Layout.reset (h : Layout r pre [] post) :
    Layout { r with wptr := 0, eptr := 0 } [] [] (pre ++ post) := by
  obtain ⟨hw, hp, he, hs, hr⟩ := h
  refine ⟨by simp [hw], rfl, rfl, ?_, ?_⟩ <;> simp at hs ⊢ <;> omega

theorem Layout.findDelim (h : Layout r pre s post) :
    ∃ r' post', findDelim r = (r', s.findIdx? isDelim) ∧ Layout r' pre s post' := by
  obtain ⟨hw, hp, he, hs, hr⟩ := h
  refine ⟨{ r with workbuf := r.workbuf.set r.eptr 0 }, post.set 0 0, ?_, ⟨?_, hp, he, ?_, ?_⟩⟩
  · rw [ReadBuffer.findDelim, Layout.data ⟨hw, hp, he, hs, hr⟩]
  · simp [hw, he]
  · simpa using hs
  · simpa using hr

theorem overwrite_eq (pre mid post t : Mem) (hm : mid.length = t.length) {p : Nat}
    (hp : p = pre.length) : overwrite (pre ++ (mid ++ post)) p t = pre ++ (t ++ post) := by
  simp [overwrite, hp, ← hm]

theorem Layout.compact (h : Layout r pre s post) :
    ∃ post', Layout (compact r) [] s post' ∧ post'.length = pre.length + post.length := by
  obtain ⟨hw, hp, he, hs, hr⟩ := h
  have hd := Layout.data ⟨hw, hp, he, hs, hr⟩
  have hlen : ((pre ++ (s ++ post)).drop s.length).length = pre.length + post.length := by
    simp
    omega
  refine ⟨(pre ++ (s ++ post)).drop s.length, ⟨?_, rfl, ?_, ?_, ?_⟩, hlen⟩
  · simp [ReadBuffer.compact, overwrite, hd, hw]
  · simp [ReadBuffer.compact, hp, he]
  · rw [hlen]
    simp
    omega
  · omega

theorem Layout.receive {t : Mem} (h : Layout r pre s post) (ht : t.length < post.length)
    {n : Nat} (hn : n = t.length) :
    Layout ⟨overwrite r.workbuf r.eptr t, r.wptr, r.eptr + n⟩ pre (s ++ t)
      (post.drop t.length) := by
  obtain ⟨hw, hp, he, hs, hr⟩ := h
  have htake : (post.take t.length).length = t.length := by
    rw [List.length_take]
    omega
  refine ⟨?_, hp, ?_, ?_, ?_⟩
  · rw [hw, ← List.append_assoc, ← List.take_append_drop t.length post,
      overwrite_eq (pre ++ s) _ _ t htake (by simp [he])]
    simp
  · simp [he, hn, Nat.add_assoc]
  · simp only [List.length_append, List.length_drop]
    omega
  · rw [List.length_drop]
    omega

theorem Layout.consumed {pre' : Mem} (h : Layout r pre s post) (hp : pre'.length = pre.length) :
    Layout { r with workbuf := pre' ++ (s ++ post) } pre' s post :=
  ⟨rfl, by simp [h.wptr, hp], by simp [h.eptr, hp], by rw [hp]; exact h.size, h.room⟩

end Srsirc.BufferData
