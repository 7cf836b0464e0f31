import Mathlib.Logic.Basic
import Srsirc.LineGrammar
import Srsirc.ReadBuffer

namespace Srsirc.TagGrammar

open CharMap Memory Tokenize TokenGrammar LineGrammar ReadBuffer

def tagsOf : Str → List Str
  | [] => [[]]
  | c :: s => word 0x3b (c :: s) ::
      if rest 0x3b (c :: s) = [] then [] else tagsOf (rest 0x3b (c :: s))
termination_by s => s.length
decreasing_by
  have := length_rest_le 0x3b c s
  simp
  omega

theorem tagsOf_eq (s : Str) :
    tagsOf s = word 0x3b s :: if rest 0x3b s = [] then [] else tagsOf (rest 0x3b s) := by
  cases s with
  | nil => rw [tagsOf]; rfl
  | cons c s => rw [tagsOf]

theorem length_rest_lt {d : UInt8} {s : Str} (h : rest d s ≠ []) :
    (rest d s).length < s.length := by
  cases s with
  | nil => exact absurd rfl h
  | cons c s => exact Nat.lt_succ_of_le (length_rest_le d c s)

/-- The loop changes nothing but the tags `s`, and what it stores does not depend on
what follows them. -/
theorem tagLoop_eq (k room : Nat) (pre s : Str) (hs : ∀ c ∈ s, c ≠ 0) (hk : s.length < k) {p : Nat}
    (hp : p = pre.length) :
    ∃ s' qs, s'.length = s.length ∧ s'.takeWhile (· != 0) = word 0x3b s ∧
      ∀ post, tagLoop room k (pre ++ (s ++ 0 :: post)) p = (pre ++ (s' ++ 0 :: post), qs) ∧
        qs.map (cstr (pre ++ (s' ++ 0 :: post))) = (tagsOf s).take room := by
  induction k generalizing room pre s p with
  | zero => omega
  | succ k ih =>
    by_cases hn : rest 0x3b s = []
    · refine ⟨cut 0x3b s, if room = 0 then [] else [p], length_cut _ _, ?_, ?_⟩
      · rw [cut, hn, takeWhile_cut hs [] (Or.inl rfl)]
      · intro post
        refine ⟨?_, ?_⟩
        · rw [tagLoop, nextTok_eq (by decide) pre s post hs hp, if_pos hn]
        · rw [tagsOf_eq, if_pos hn]
          cases room with
          | zero => simp
          | succ room =>
            simp only [Nat.add_one_ne_zero, if_false, List.map_cons, List.map_nil,
              List.take_succ_cons,
              List.take_nil]
            rw [cstr_at hp, cut, hn, takeWhile_cut hs [] (Or.inl rfl)]
    · let pre₁ := pre ++ (word 0x3b s ++ List.replicate (gap 0x3b s) 0)
      have hlen : pre₁.length = pre.length + ((word 0x3b s).length + gap 0x3b s) := by simp [pre₁]
      have hlt := length_rest_lt hn
      obtain ⟨t', qs, hlen', _, ht⟩ :=
        ih (room - 1) pre₁ (rest 0x3b s) (fun x hx => hs x (mem_rest hx)) (by omega) hlen.symm
      refine ⟨word 0x3b s ++ List.replicate (gap 0x3b s) 0 ++ t',
        (if room = 0 then [] else [p]) ++ qs, ?_, ?_, ?_⟩
      · have hsplit := length_split 0x3b s
        simp only [List.length_append, List.length_replicate]
        omega
      · rw [takeWhile_cut hs _ (Or.inr (gap_pos hn))]
      · intro post
        obtain ⟨hloop, htexts⟩ := ht post
        have hcut : pre ++ (cut 0x3b s ++ 0 :: post) = pre₁ ++ (rest 0x3b s ++ 0 :: post) := by
          simp [pre₁, cut]
        have hmem : pre₁ ++ (t' ++ 0 :: post) =
            pre ++ (word 0x3b s ++ List.replicate (gap 0x3b s) 0 ++ t' ++ 0 :: post) := by
          simp [pre₁]
        refine ⟨?_, ?_⟩
        · rw [tagLoop, nextTok_eq (by decide) pre s post hs hp, if_neg hn, hcut]
          simp only [hloop, hmem]
        · rw [tagsOf_eq, if_neg hn, ← hmem, List.map_append, htexts]
          cases room with
          | zero => simp
          | succ room =>
            simp only [Nat.add_one_ne_zero, if_false, List.map_cons, List.map_nil,
              List.take_succ_cons,
              Nat.add_sub_cancel, List.singleton_append]
            rw [hmem, cstr_at hp, takeWhile_cut hs _ (Or.inr (gap_pos hn))]

/-- What a line stands for, with room for `destmax` tags. -/
inductive Outcome
  | failure
  | message (tags : List Str) (fields : List (Option Str))

def untagged (tags : List Str) (s : Str) : Outcome :=
  if Accepted s then .message tags (tokarr (fieldsBy (slots 16) s)) else .failure

def meaning (destmax : Nat) (s : Str) : Outcome :=
  if s.head? = some 0x40 then
    let body := (s.tail.dropWhile (· != 0x20)).tail
    if body = [] then .failure
    else untagged ((tagsOf (word 0x20 s.tail)).take destmax) body
  else untagged [] s

def observe (r : Reply) : Outcome :=
  if r.ret = 1 then .message (r.tags.map (cstr r.mem)) (r.tok.map (Option.map (cstr r.mem)))
  else .failure

theorem finish_untagged (pre s post : Str) (hs : ∀ c ∈ s, c ≠ 0) (tags : List Nat) {p : Nat}
    (hp : p = pre.length) :
    ∃ s', s'.length = s.length ∧ (tokenize (pre ++ (s ++ 0 :: post)) p).2.1 =
      pre ++ (s' ++ 0 :: post) ∧
      let r := tokenize (pre ++ (s ++ 0 :: post)) p
      observe ⟨if r.1 then 1 else -1, r.2.1, tags, r.2.2⟩ =
        untagged (tags.map (cstr (pre ++ (s' ++ 0 :: post)))) s := by
  by_cases ha : Accepted s
  · have ht := tokenize_accepted pre s post hs ha hp
    obtain ⟨s', hlen, hmem⟩ := ht.mem
    refine ⟨s', hlen, hmem, ?_⟩
    simp only [ht.ok, if_true, observe]
    rw [ht.texts, hmem, untagged, if_pos ha]
  · obtain ⟨s', tok, hlen, ht⟩ := tokenize_rejected pre s post hs ha hp
    refine ⟨s', hlen, by rw [ht], ?_⟩
    rw [ht, untagged, if_neg ha]
    rfl

theorem getD_line (pre s post : Str) {p : Nat} (hp : p = pre.length) :
    (pre ++ (s ++ 0 :: post)).getD p 0 = s.headD 0 := by
  rw [hp, List.getD_eq_getElem?_getD, List.getElem?_append_right (Nat.le_refl _), Nat.sub_self]
  cases s <;> rfl

/-- What the parsing of the line `s` at the end of `pre` comes to. -/
structure Parsed (destmax : Nat) (pre s post : Str) (r : Reply) : Prop where
  mem : ∃ s', s'.length = s.length ∧ r.mem = pre ++ (s' ++ 0 :: post)
  observed : observe r = meaning destmax s
  ret : r.ret = 1 ∨ r.ret = -1

theorem parseLine_untagged (destmax : Nat) (pre s post : Str) (hs : ∀ c ∈ s, c ≠ 0)
    (ht : s.head? ≠ some 0x40) {p : Nat} (hp : p = pre.length) :
    Parsed destmax pre s post (parseLine destmax (pre ++ (s ++ 0 :: post)) p) := by
  have hne : s.headD 0 ≠ 0x40 := by
    cases s with
    | nil => decide
    | cons c s => simpa using ht
  obtain ⟨s', hlen, hmem, hobs⟩ := finish_untagged pre s post hs [] hp
  simp only [parseLine, getD_line pre s post hp, if_neg hne]
  refine ⟨⟨s', hlen, hmem⟩, ?_, ?_⟩
  · rw [hobs, meaning, if_neg ht]
    rfl
  · exact ite_eq_or_eq _ _ _

theorem meaning_tags (destmax : Nat) (w body : Str) (hw : 0x20 ∉ w) :
    meaning destmax (0x40 :: (w ++ 0x20 :: body)) =
      if body = [] then .failure else untagged ((tagsOf w).take destmax) body := by
  have hne : ∀ c ∈ w, (c != 0x20) = true := by
    intro c hc
    have : c ≠ 0x20 := fun he => hw (he ▸ hc)
    simpa using this
  simp [meaning, word, List.takeWhile_append_of_pos hne, List.dropWhile_append_of_pos hne]

theorem extractTags_eq (destmax : Nat) (pre w body post : Str) (hw : ∀ c ∈ w, c ≠ 0)
    (hb : ∀ c ∈ body, c ≠ 0) (hsp : 0x20 ∉ w) {p : Nat} (hp : p = pre.length) :
    ∃ w' qs, w'.length = w.length ∧
      extractTags (pre ++ (w ++ 0x20 :: body ++ 0 :: post)) p destmax =
        (pre ++ (w' ++ 0 :: (body ++ 0 :: post)), some (p + w.length + 1), qs) ∧
      ∀ post', qs.map (cstr (pre ++ (w' ++ 0 :: post'))) = (tagsOf w).take destmax := by
  obtain ⟨w', qs, hlen, _, hloop⟩ :=
    tagLoop_eq (w.length + 1) destmax pre w hw (Nat.lt_succ_self _) hp
  refine ⟨w', qs, hlen, ?_, fun post' => (hloop post').2⟩
  have hall : ∀ c ∈ w ++ 0x20 :: body, c ≠ 0 := by
    intro c hc
    obtain hc | hc := List.mem_append.mp hc
    · exact hw c hc
    · obtain rfl | hc := List.mem_cons.mp hc
      · decide
      · exact hb c hc
  have hcstr : cstr (pre ++ (w ++ 0x20 :: body ++ 0 :: post)) p = w ++ 0x20 :: body := by
    rw [cstr_at hp, takeWhile_nonzero hall]
  have hidx : (w ++ 0x20 :: body).idxOf 0x20 = w.length := by
    rw [List.idxOf_append_of_notMem hsp]
    simp
  have hset : (pre ++ (w ++ 0x20 :: body ++ 0 :: post)).set (p + w.length) 0 =
      pre ++ (w ++ 0 :: (body ++ 0 :: post)) := by
    simp [hp]
  rw [extractTags, hcstr, hidx, if_neg (by simp), hset, (hloop _).1]

theorem parseLine_tags (destmax : Nat) (pre w body post : Str) (hw : ∀ c ∈ w, c ≠ 0)
    (hb : ∀ c ∈ body, c ≠ 0) (hsp : 0x20 ∉ w) {p : Nat} (hp : p = pre.length) :
    Parsed destmax pre (0x40 :: (w ++ 0x20 :: body)) post
      (parseLine destmax (pre ++ (0x40 :: (w ++ 0x20 :: body) ++ 0 :: post)) p) := by
  have hp₁ : p + 1 = (pre ++ [(0x40 : UInt8)]).length := by simp [hp]
  obtain ⟨w', qs, hlen, hext, htags⟩ := extractTags_eq destmax _ w body post hw hb hsp hp₁
  have hget := getD_line pre (0x40 :: (w ++ 0x20 :: body)) post hp
  have hmem : pre ++ (0x40 :: (w ++ 0x20 :: body) ++ 0 :: post) =
      pre ++ [0x40] ++ (w ++ 0x20 :: body ++ 0 :: post) := by simp
  -- the rest of the line starts behind the terminated tags
  have hp₂ : p + 1 + w.length + 1 = (pre ++ [0x40] ++ (w' ++ [0])).length := by
    simp only [List.length_append, List.length_singleton]
    omega
  have hmem₂ : ∀ post', pre ++ [0x40] ++ (w' ++ 0 :: post') =
      pre ++ [0x40] ++ (w' ++ [0]) ++ post' := by simp
  have hget₂ := getD_line (pre ++ [0x40] ++ (w' ++ [0])) body post hp₂
  rw [← hmem₂] at hget₂
  simp only [parseLine, hget, List.headD_cons, if_true]
  rw [hmem, hext]
  simp only [hget₂]
  cases body with
  | nil =>
    simp only [List.headD_nil, if_true]
    refine ⟨⟨0x40 :: (w' ++ [0]), by simp [hlen], by simp⟩, ?_, Or.inr rfl⟩
    rw [meaning_tags destmax w [] hsp]
    rfl
  | cons c body =>
    have hc : (c :: body).headD 0 ≠ 0 := hb c List.mem_cons_self
    rw [if_neg hc]
    obtain ⟨b', hblen, hbmem, hobs⟩ := finish_untagged _ (c :: body) post hb qs hp₂
    rw [hmem₂]
    refine ⟨⟨0x40 :: (w' ++ 0 :: b'), by simp [hlen, hblen], ?_⟩, ?_, ?_⟩
    · rw [hbmem]
      simp
    · rw [hobs, meaning_tags destmax w _ hsp, if_neg (List.cons_ne_nil c body), ← hmem₂, htags]
    · exact ite_eq_or_eq _ _ _

theorem parseLine_onlyTags (destmax : Nat) (pre t post : Str) (ht : ∀ c ∈ t, c ≠ 0)
    (hsp : 0x20 ∉ t) {p : Nat} (hp : p = pre.length) :
    Parsed destmax pre (0x40 :: t) post
      (parseLine destmax (pre ++ (0x40 :: t ++ 0 :: post)) p) := by
  have hp₁ : p + 1 = (pre ++ [(0x40 : UInt8)]).length := by simp [hp]
  have hmem : pre ++ (0x40 :: t ++ 0 :: post) = pre ++ [0x40] ++ (t ++ 0 :: post) := by simp
  have hget := getD_line pre (0x40 :: t) post hp
  have hcstr : cstr (pre ++ (0x40 :: t ++ 0 :: post)) (p + 1) = t := by
    rw [hmem, cstr_at hp₁, takeWhile_nonzero ht]
  have hidx : t.idxOf 0x20 = t.length := List.idxOf_eq_length hsp
  have hdrop : t.dropWhile (· != 0x20) = [] := by
    rw [List.dropWhile_eq_nil_iff]
    intro c hc
    have hne : c ≠ 0x20 := fun he => hsp (he ▸ hc)
    simpa using hne
  simp only [parseLine, hget, List.headD_cons, if_true, extractTags, hcstr, hidx]
  exact ⟨⟨_, rfl, rfl⟩, by simp [observe, meaning, hdrop], Or.inr rfl⟩

/-- A line means the same wherever it stands, and its parsing changes no other byte. -/
theorem parseLine_parsed (destmax : Nat) (pre s post : Str) (hs : ∀ c ∈ s, c ≠ 0) {p : Nat}
    (hp : p = pre.length) :
    Parsed destmax pre s post (parseLine destmax (pre ++ (s ++ 0 :: post)) p) := by
  by_cases hc : s.head? = some 0x40
  · obtain ⟨t, rfl⟩ := List.head?_eq_some_iff.mp hc
    have ht := (List.forall_mem_cons.mp hs).2
    by_cases hsp : 0x20 ∈ t
    · obtain ⟨w, body, rfl, hw⟩ := List.eq_append_cons_of_mem hsp
      have hw0 : ∀ c ∈ w, c ≠ 0 := fun c hc => ht c (List.mem_append_left _ hc)
      have hb0 : ∀ c ∈ body, c ≠ 0 :=
        fun c hc => ht c (List.mem_append_right _ (List.mem_cons_of_mem _ hc))
      exact parseLine_tags destmax pre w body post hw0 hb0 hw hp
    · exact parseLine_onlyTags destmax pre t post ht hsp hp
  · exact parseLine_untagged destmax pre s post hs hc hp

end Srsirc.TagGrammar
