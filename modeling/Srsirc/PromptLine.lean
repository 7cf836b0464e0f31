import Srsirc.MessageTags
import Srsirc.Transport

namespace Srsirc.PromptLine

open CharMap Memory ReadBuffer BufferData LineReading Reassembly Context Conn MessageTags

/-- What arrives before the transport times out, fails or comes to its end. -/
def promptly : Source → Str
  | .chunk c s :: src => c :: (s ++ promptly src)
  | _ => []

def Prompt (src : Source) : Prop := ∀ a ∈ src, ∃ c s, a = .chunk c s

variable {src rest : Source} {r : Readctx}

theorem Prompt.quiet (h : Prompt src) : Quiet src := by
  intro a ha
  obtain ⟨c, s, rfl⟩ := h a ha
  exact ⟨nofun, nofun⟩

theorem prompt_split (src : Source) :
    ∃ src₁ rest, src = src₁ ++ rest ∧ Prompt src₁ ∧ Source.bytes src₁ = promptly src := by
  induction src with
  | nil => exact ⟨[], [], rfl, nofun, rfl⟩
  | cons a src ih =>
    cases a with
    | chunk c s =>
      obtain ⟨src₁, rest, rfl, hp, hbytes⟩ := ih
      refine ⟨.chunk c s :: src₁, rest, rfl, ?_, ?_⟩
      · intro a ha
        obtain rfl | ha := List.mem_cons.1 ha
        · exact ⟨c, s, rfl⟩
        · exact hp a ha
      · rw [Source.bytes, hbytes, promptly]
    | timeout => exact ⟨[], _, rfl, nofun, rfl⟩
    | eof => exact ⟨[], _, rfl, nofun, rfl⟩
    | failure => exact ⟨[], _, rfl, nofun, rfl⟩

theorem size_append (src rest : Source) : (src ++ rest).size = src.size + rest.size := by
  induction src with
  | nil => exact (Nat.zero_add _).symm
  | cons a src ih =>
    rw [List.cons_append]
    cases a <;> simp only [Source.size, ih, Nat.add_assoc]

/-- A read that finds bytes does not look at what is behind them. -/
theorem read_prompt {sz : Nat} (hsz : 1 ≤ sz) (hp : Prompt src) {n : Int} {t : Str} {src' : Source}
    (h : src.read sz = some (n, t, src')) :
    0 < n ∧ Prompt src' ∧ (src ++ rest).read sz = some (n, t, src' ++ rest) := by
  cases src with
  | nil => cases h
  | cons a src =>
    obtain ⟨c, s, rfl⟩ := hp a List.mem_cons_self
    have hp' : Prompt src := fun a ha => hp a (List.mem_cons_of_mem _ ha)
    have hlen := (take_chunk hsz c s).1
    rw [List.cons_append]
    simp only [Source.read] at h ⊢
    split at h
    · cases h
      exact ⟨by omega, hp', rfl⟩
    · next c' s' _ =>
      cases h
      refine ⟨by omega, ?_, rfl⟩
      intro a ha
      obtain rfl | ha := List.mem_cons.1 ha
      · exact ⟨c', s', rfl⟩
      · exact hp' a ha

theorem fill_prompt (hroom : 1 ≤ workbufSz - r.eptr) (hp : Prompt src) {n : Int} {r' : Readctx}
    {src' : Source} (h : (fill r src).2 = some (n, r', src')) :
    n ≠ 0 ∧ Prompt src' ∧ (fill r (src ++ rest)).2 = some (n, r', src' ++ rest) := by
  rw [fill] at h ⊢
  dsimp only at h ⊢
  split at h
  · cases h
  · next heq =>
    obtain ⟨hn, hp', hread⟩ := @read_prompt _ rest _ hroom hp _ _ _ heq
    rw [hread]
    rw [if_neg (by omega)] at h
    cases h
    exact ⟨by decide, hp', by simp [hn]⟩

theorem readMore_prompt (hb : Bounds r) (hp : Prompt src) {n : Int} {r' : Readctx} {src' : Source}
    (h : (readMore r src).2 = some (n, r', src')) :
    n ≠ 0 ∧ Prompt src' ∧ (readMore r (src ++ rest)).2 = some (n, r', src' ++ rest) := by
  rw [readMore] at h ⊢
  split at h
  · next hfull =>
    rw [if_pos hfull]
    split at h
    · next hfront =>
      rw [if_pos hfront]
      cases h
      exact ⟨by decide, hp, rfl⟩
    · next hfront =>
      rw [if_neg hfront]
      refine fill_prompt ?_ hp h
      have hw := hb.wptr_le
      have he := hb.eptr_le
      rw [compact]
      dsimp only
      omega
  · next hroom =>
    rw [if_neg hroom]
    exact fill_prompt (by omega) hp h

theorem awaitLine_prompt (k : Nat) (hb : Bounds r) (hp : Prompt src) {out : Awaited} {r' : Readctx}
    {src' : Source} (h : (awaitLine k r src).2 = some (out, r', src')) {k' : Nat} (hk : k ≤ k') :
    out ≠ .code 0 ∧ (awaitLine k' r (src ++ rest)).2 = some (out, r', src' ++ rest) := by
  induction k generalizing r src k' with
  | zero => cases h
  | succ k ih =>
    obtain ⟨k', rfl⟩ : ∃ j, k' = j + 1 := ⟨k' - 1, by omega⟩
    obtain ⟨pre, post, hl⟩ := hb.layout
    obtain ⟨_, ht⟩ := takeLine_taken (r.eptr - r.wptr) hl (length_data hb).le
    rw [awaitLine] at h ⊢
    generalize takeLine (r.eptr - r.wptr) r = taken at ht h ⊢
    obtain ⟨log, r₁, found⟩ := taken
    cases found with
    | some p =>
      cases h
      exact ⟨fun hcode => by (cases hcode), rfl⟩
    | none =>
      obtain ⟨_, _, _, hl₁, _, _⟩ := taken_none ht
      have hmore := (readMore_more hl₁ hp.quiet).2
      dsimp only at h ⊢
      cases hread : readMore r₁ src with
      | mk log' more =>
        rw [hread] at h hmore
        cases more with
        | none => cases h
        | some m =>
          obtain ⟨n, r₂, src₂⟩ := m
          obtain ⟨hn, hp₂, hread'⟩ :=
            @readMore_prompt _ rest _ hl₁.bounds hp n r₂ src₂ (by rw [hread])
          cases hread₂ : readMore r₁ (src ++ rest) with
          | mk log₂ more₂ =>
            rw [hread₂] at hread'
            obtain rfl : more₂ = _ := hread'
            dsimp only at h ⊢
            split at h
            · next hneg =>
              rw [if_pos hneg]
              cases h
              exact ⟨fun hcode => hn (Awaited.code.inj hcode), rfl⟩
            · next hpos =>
              rw [if_neg hpos]
              cases hmore with
              | timeout => exact absurd rfl hn
              | full => exact absurd (by decide) hpos
              | received _ _ hl₂ => exact ih hl₂.bounds hp₂ h (by omega)

/-- What a call of `ioRead` comes to when it hears the line `l`. -/
inductive Heard (destmax : Nat) (l : Str) : Option (Reply × Readctx × Source) → Nat → Prop
  | long {reply : Reply} {r : Readctx} {src : Source} (hl : workbufSz ≤ l.length) (hb : Bounds r)
      (hret : reply.ret = -1) : Heard destmax l (some (reply, r, src)) destmax
  | line {pre post : Mem} {r : Readctx} {src : Source} (hl : l.length < workbufSz) (hb : Bounds r)
      (hmem : r.workbuf = (parseLine destmax (pre ++ (l ++ 0 :: post)) pre.length).mem) :
      Heard destmax l (some (parseLine destmax (pre ++ (l ++ 0 :: post)) pre.length, r, src))
        (lineNtags destmax (pre ++ (l ++ 0 :: post)) pre.length)

theorem ioRead_heard (destmax : Nat) {l : Str} (hb : Bounds r)
    (hl : (candidates (r.data ++ promptly src)).head? = some l) :
    Heard destmax l (ioRead destmax r src).2 (ioNtags destmax r src) := by
  obtain ⟨src₁, rest, rfl, hp, hbytes⟩ := prompt_split src
  obtain ⟨ls, hls⟩ := List.head?_eq_some_iff.1 hl
  obtain ⟨_, _, hlay⟩ := hb.layout
  obtain ⟨_, s, _, hlay', hc⟩ := skipDelims_layout hlay
  have hgot := (awaitLine_got (src₁.size + 1) hlay' hp.quiet (Nat.lt_succ_self _)).2
  rw [hc, hbytes, hls] at hgot
  have hsize : src₁.size + 1 ≤ (src₁ ++ rest).size + 1 := by
    rw [size_append]
    omega
  have hfwd := fun out r' src' h =>
    @awaitLine_prompt src₁ rest _ (src₁.size + 1) hlay'.bounds hp out r' src' h _ hsize
  rw [ioRead, ioNtags]
  dsimp only
  generalize (awaitLine (src₁.size + 1) (skipDelims r) src₁).2 = out at hgot hfwd
  generalize awaitLine ((src₁ ++ rest).size + 1) (skipDelims r) (src₁ ++ rest) = full at hfwd ⊢
  obtain ⟨log, full⟩ := full
  cases hgot with
  | blocked hnil => cases hnil
  | timeout => exact absurd rfl (hfwd _ _ _ rfl).1
  | full hpend heq hlong =>
    obtain ⟨rfl, _⟩ := List.cons.inj heq
    obtain rfl : full = _ := (hfwd _ _ _ rfl).2
    exact .long hlong hpend.bounds rfl
  | @line r' src' pre w e post d hlay₂ _ heq =>
    obtain ⟨rfl, _⟩ := List.cons.inj heq
    obtain rfl : full = _ := (hfwd _ _ _ rfl).2
    have hset : r'.workbuf.set (pre.length + l.length) 0 = pre ++ (l ++ 0 :: (e ++ post)) := by
      rw [hlay₂.workbuf]
      simp
    have hlen : l.length < workbufSz := by
      have hs := hlay₂.size
      have hroom := hlay₂.room
      simp only [List.length_append, List.length_singleton] at hs
      omega
    dsimp only
    rw [hset]
    refine .line hlen ?_ rfl
    obtain ⟨l', hlen', hmem, _, _⟩ :=
      parseLine_deliver destmax pre l (e ++ post) (p := pre.length) rfl
    have hcons := @Layout.consumed _ _ _ _ (pre ++ (l' ++ [0])) hlay₂ (by simp [hlen'])
    have heq : pre ++ (l' ++ 0 :: (e ++ post)) = pre ++ (l' ++ [0]) ++ (e ++ post) := by simp
    rw [hmem, heq]
    exact hcons.bounds

end Srsirc.PromptLine
