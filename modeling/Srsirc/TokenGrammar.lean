import Srsirc.Tokenize

namespace Srsirc.TokenGrammar

open CharMap Memory Tokenize

def word (d : UInt8) (s : Str) : Str := s.takeWhile (· != d)

def rest (d : UInt8) (s : Str) : Str := (s.dropWhile (· != d)).dropWhile (· == d)

def gap (d : UInt8) (s : Str) : Nat := ((s.dropWhile (· != d)).takeWhile (· == d)).length

def cut (d : UInt8) (s : Str) : Str := word d s ++ List.replicate (gap d s) 0 ++ rest d s

theorem length_split (d : UInt8) (s : Str) :
    (word d s).length + (gap d s + (rest d s).length) = s.length := by
  rw [gap, rest, ← List.length_append, List.takeWhile_append_dropWhile, word, ← List.length_append,
    List.takeWhile_append_dropWhile]

theorem length_cut (d : UInt8) (s : Str) : (cut d s).length = s.length := by
  simp only [cut, List.length_append, List.length_replicate, ← length_split d s, Nat.add_assoc]

theorem mem_rest {d : UInt8} {s : Str} {c : UInt8} (h : c ∈ rest d s) : c ∈ s :=
  (List.dropWhile_sublist _).mem ((List.dropWhile_sublist _).mem h)

theorem mem_word {d : UInt8} {s : Str} {c : UInt8} (h : c ∈ word d s) : c ∈ s :=
  (List.takeWhile_sublist _).mem h

theorem split_delim (d : UInt8) (s : Str) :
    word d (d :: s) = [] ∧ gap d (d :: s) = (s.takeWhile (· == d)).length + 1 ∧
      rest d (d :: s) = s.dropWhile (· == d) := by
  simp [word, gap, rest]

theorem split_other {d c : UInt8} (h : c ≠ d) (s : Str) :
    word d (c :: s) = c :: word d s ∧ gap d (c :: s) = gap d s ∧ rest d (c :: s) = rest d s := by
  simp [word, gap, rest, h]

theorem bne_of_notMem {d : UInt8} {w : Str} (hw : d ∉ w) : ∀ c ∈ w, (c != d) = true := by
  intro c hc
  have hne : c ≠ d := fun he => hw (he ▸ hc)
  simpa using hne

theorem split_words {d : UInt8} {w : Str} (hw : d ∉ w) (s : Str) :
    word d (w ++ d :: s) = w ∧ rest d (w ++ d :: s) = s.dropWhile (· == d) := by
  have hall := bne_of_notMem hw
  rw [word, rest, List.takeWhile_append_of_pos hall, List.dropWhile_append_of_pos hall]
  simp

theorem split_single {d : UInt8} {w : Str} (hw : d ∉ w) : word d w = w ∧ rest d w = [] := by
  have hall := bne_of_notMem hw
  rw [word, rest, List.takeWhile_eq_self_iff.2 hall, List.dropWhile_eq_nil_iff.2 hall]
  exact ⟨rfl, rfl⟩

theorem dropWhile_head {d : UInt8} {s : Str} (h : s.head? ≠ some d) : s.dropWhile (· == d) = s := by
  cases s with
  | nil => rfl
  | cons c s => exact List.dropWhile_cons_of_neg (by simpa using h)

theorem length_rest_le (d c : UInt8) (s : Str) : (rest d (c :: s)).length ≤ s.length := by
  have h := length_split d (c :: s)
  by_cases hc : c = d
  · obtain ⟨_, hg, _⟩ := split_delim d s
    rw [hc, hg, List.length_cons] at h
    rw [hc]
    omega
  · obtain ⟨hw, _, _⟩ := split_other hc s
    rw [hw, List.length_cons, List.length_cons] at h
    omega

theorem gap_pos {d : UInt8} {s : Str} (h : rest d s ≠ []) : 0 < gap d s := by
  induction s with
  | nil => simp [rest] at h
  | cons c s ih =>
    by_cases hc : c = d
    · rw [hc, (split_delim d s).2.1]
      omega
    · obtain ⟨_, hg, hr⟩ := split_other hc s
      rw [hg]
      exact ih (hr ▸ h)

theorem head_rest {d : UInt8} {s : Str} : (rest d s).head? ≠ some d := by
  intro h
  have hn := List.head?_dropWhile_not (· == d) (s.dropWhile (· != d))
  rw [show (s.dropWhile (· != d)).dropWhile (· == d) = rest d s from rfl, h] at hn
  simp at hn

theorem zeroRun_eq (d : UInt8) (mem : Mem) :
    zeroRun d mem = (List.replicate (mem.takeWhile (· == d)).length 0 ++ mem.dropWhile (· == d),
      (mem.takeWhile (· == d)).length) := by
  induction mem with
  | nil => rfl
  | cons c mem ih => by_cases hc : c = d <;> simp [zeroRun, hc, ih, List.replicate_succ]

theorem zeroRun_cut {d : UInt8} (hd : d ≠ 0) (s post : Str) :
    zeroRun d (d :: (s ++ 0 :: post)) = (cut d (d :: s) ++ 0 :: post, gap d (d :: s)) := by
  obtain ⟨hw, hg, hr⟩ := split_delim d s
  have hz : (fun c => c == d) (0 : UInt8) = false := by simpa using hd.symm
  have ht := takeWhile_append_stop (p := fun c => c == d) hz (d :: s) post
  have hw' := dropWhile_append_stop (p := fun c => c == d) hz (d :: s) post
  rw [← List.cons_append, zeroRun_eq, ht, hw', cut, hw, hg, hr]
  simp

theorem getD_cut {d : UInt8} (s post : Str) :
    (cut d s ++ 0 :: post).getD ((word d s).length + gap d s) 0 = (rest d s).headD 0 := by
  have hlen : (word d s ++ List.replicate (gap d s) 0).length = (word d s).length + gap d s := by
    simp
  rw [cut, List.append_assoc, ← hlen, List.getD_eq_getElem?_getD,
    List.getElem?_append_right (Nat.le_refl _), Nat.sub_self]
  cases rest d s <;> rfl

theorem headD_rest_ne {d : UInt8} {s : Str} (hs : ∀ c ∈ s, c ≠ 0) (hn : rest d s ≠ []) :
    (rest d s).headD 0 ≠ 0 := by
  cases hr : rest d s with
  | nil => exact absurd hr hn
  | cons c r => exact hs c (mem_rest (hr ▸ List.mem_cons_self))

theorem nextTokFrom_eq {d : UInt8} (hd : d ≠ 0) (s post : Str) (hs : ∀ c ∈ s, c ≠ 0) :
    nextTokFrom d (s ++ 0 :: post) = (cut d s ++ 0 :: post,
      if rest d s = [] then none else some ((word d s).length + gap d s)) := by
  induction s with
  | nil => simp [nextTokFrom, cut, word, gap, rest]
  | cons c s ih =>
    obtain ⟨hc, hs'⟩ := List.forall_mem_cons.mp hs
    by_cases hcd : c = d
    · subst hcd
      have hg := getD_cut (d := c) (c :: s) post
      rw [(split_delim c s).1, List.length_nil, Nat.zero_add] at hg
      rw [List.cons_append, nextTokFrom, if_neg hc, if_neg (by simp), zeroRun_cut hd,
        (split_delim c s).1, List.length_nil, Nat.zero_add]
      simp only [hg]
      by_cases hn : rest c (c :: s) = []
      · simp [hn]
      · rw [if_neg (headD_rest_ne hs hn), if_neg hn]
    · obtain ⟨hw, hg, hr⟩ := split_other hcd s
      rw [List.cons_append, nextTokFrom, if_neg hc, if_pos hcd, ih hs', cut, cut, hw, hg, hr]
      by_cases hn : rest d s = [] <;> simp [hn, Nat.add_right_comm]

theorem nextTok_eq {d : UInt8} (hd : d ≠ 0) (pre s post : Str) (hs : ∀ c ∈ s, c ≠ 0) {p : Nat}
    (hp : p = pre.length) :
    nextTok (pre ++ (s ++ 0 :: post)) p d = (pre ++ (cut d s ++ 0 :: post),
      if rest d s = [] then none else some (pre.length + ((word d s).length + gap d s))) := by
  subst hp
  rw [nextTok, List.drop_left, List.take_left, nextTokFrom_eq hd s post hs]
  by_cases hn : rest d s = [] <;> simp [hn]

end Srsirc.TokenGrammar
