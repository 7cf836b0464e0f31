import Srsirc.TokenGrammar

namespace Srsirc.LineGrammar

open CharMap Memory Tokenize TokenGrammar

/-- The parameters of a line from the first one on. The trailing one starts with
a colon and keeps its spaces. -/
def params : Str → List Str
  | [] => []
  | c :: s => if c = 0x3a then [s] else word 0x20 (c :: s) :: params (rest 0x20 (c :: s))
termination_by s => s.length
decreasing_by
  have := length_rest_le 0x20 c s
  simp
  omega

/-- Up to `k` parameters; the last possible one is not terminated. -/
def slots : Nat → Str → List Str
  | 0, _ => []
  | _ + 1, [] => []
  | k + 1, c :: s =>
    if c = 0x3a then [s]
    else (if k = 0 then c :: s else word 0x20 (c :: s)) :: slots k (rest 0x20 (c :: s))

theorem slots_eq (s : Str) (k : Nat) (h : (params s).length < k) : slots k s = params s := by
  induction k generalizing s with
  | zero => omega
  | succ k ih =>
    cases s with
    | nil => simp [slots, params]
    | cons c s =>
      rw [params] at h
      rw [slots, params]
      by_cases hc : c = 0x3a
      · simp [hc]
      · rw [if_neg hc, List.length_cons] at h
        have hk : k ≠ 0 := by omega
        rw [if_neg hc, if_neg hc, if_neg hk, ih _ (by omega)]

theorem slots_few (k : Nat) (s : Str) (h : (slots k s).length < k) : slots k s = params s := by
  induction k generalizing s with
  | zero => omega
  | succ k ih =>
    cases s with
    | nil => rw [slots, params]
    | cons c s =>
      rw [slots] at h ⊢
      rw [params]
      by_cases hc : c = 0x3a
      · rw [if_pos hc, if_pos hc]
      · rw [if_neg hc, List.length_cons] at h
        have hk : k ≠ 0 := by omega
        rw [if_neg hc, if_neg hc, if_neg hk, ih _ (by omega)]

theorem length_slots_le (k : Nat) (s : Str) : (slots k s).length ≤ k := by
  induction k generalizing s with
  | zero => exact Nat.le_refl _
  | succ k ih =>
    cases s with
    | nil => exact Nat.zero_le _
    | cons c s =>
      rw [slots]
      split
      · exact Nat.succ_le_succ (Nat.zero_le k)
      · exact Nat.succ_le_succ (ih _)

/-- Whether a line is a message: it starts with a command or with a prefix followed by one. -/
def Accepted (s : Str) : Prop :=
  s ≠ [] ∧ s.head? ≠ some 0x20 ∧ (s.head? = some 0x3a → rest 0x20 s ≠ [])

instance (s : Str) : Decidable (Accepted s) := inferInstanceAs (Decidable (_ ∧ _ ∧ _))

def fromCmd (s : Str) : Str := if s.head? = some 0x3a then rest 0x20 s else s

/-- The prefix, the command and the parameters `ps` finds behind it. -/
def fieldsBy (ps : Str → List Str) (s : Str) : List (Option Str) :=
  (if s.head? = some 0x3a then some (word 0x20 s.tail) else none) ::
    some (word 0x20 (fromCmd s)) :: (ps (rest 0x20 (fromCmd s))).map some

def fields (s : Str) : List (Option Str) := fieldsBy params s

/-- What the loop over the parameters makes of the string `s` at the end of `pre`. -/
structure Split (k : Nat) (pre s post : Str) (r : Mem × List Nat) (s' : Str) : Prop where
  mem : r.1 = pre ++ (s' ++ 0 :: post)
  length : s'.length = s.length
  first : s'.takeWhile (· != 0) = if k = 0 then s else word 0x20 s
  texts : r.2.map (cstr r.1) = slots k (rest 0x20 s)
  inside : ∀ q ∈ r.2, Inside r.1 pre.length s.length q

theorem takeWhile_cut {d : UInt8} {s : Str} (hs : ∀ c ∈ s, c ≠ 0) (t : Str)
    (ht : t = [] ∨ 0 < gap d s) :
    (word d s ++ List.replicate (gap d s) 0 ++ t).takeWhile (· != 0) = word d s := by
  have hw : ∀ c ∈ word d s, (c != 0) = true := fun c hc => by simpa using hs c (mem_word hc)
  rw [List.append_assoc, List.takeWhile_append_of_pos hw]
  cases hg : gap d s with
  | zero =>
    obtain rfl | hpos := ht
    · simp
    · omega
  | succ j => simp [List.replicate_succ]

theorem tokenizeArgs_split (k : Nat) (pre s post : Str) (hs : ∀ c ∈ s, c ≠ 0) {p : Nat}
    (hp : p = pre.length) :
    ∃ s', Split k pre s post (tokenizeArgs k (pre ++ (s ++ 0 :: post)) p) s' := by
  induction k generalizing pre s p with
  | zero =>
    exact ⟨s, rfl, rfl, by simpa using takeWhile_nonzero hs, by simp [tokenizeArgs, slots],
      by simp [tokenizeArgs]⟩
  | succ k ih =>
    have hsplit := length_split 0x20 s
    rw [tokenizeArgs, nextTok_eq (by decide) pre s post hs hp]
    cases hr : rest 0x20 s with
    | nil =>
      refine ⟨cut 0x20 s, rfl, length_cut _ _, ?_, by simp [slots, hr], by simp⟩
      rw [cut, hr, takeWhile_cut hs [] (Or.inl rfl), if_neg (by simp)]
    | cons c t =>
      -- the loop goes on behind the delimiters, at the end of `pre₁`
      let pre₁ := pre ++ (word 0x20 s ++ List.replicate (gap 0x20 s) 0)
      have hlen : pre₁.length = pre.length + ((word 0x20 s).length + gap 0x20 s) := by simp [pre₁]
      have hmem : pre ++ (cut 0x20 s ++ 0 :: post) = pre₁ ++ (c :: t ++ 0 :: post) := by
        simp [pre₁, cut, hr]
      have hget : (pre ++ (cut 0x20 s ++ 0 :: post)).getD pre₁.length 0 = c := by
        rw [hmem, List.getD_eq_getElem?_getD, List.getElem?_append_right (Nat.le_refl _)]
        simp
      have hrs : ∀ x ∈ c :: t, x ≠ 0 := fun x hx => hs x (mem_rest (hr ▸ hx))
      have hpos : 0 < gap 0x20 s := gap_pos (hr ▸ List.cons_ne_nil c t)
      rw [if_neg (List.cons_ne_nil c t), ← hlen]
      simp only [hget]
      rw [hr] at hsplit
      by_cases hc : c = 0x3a
      · rw [if_pos hc]
        have hmem' : pre ++ (cut 0x20 s ++ 0 :: post) = (pre₁ ++ [c]) ++ (t ++ 0 :: post) := by
          simp [hmem]
        have hq : pre₁.length + 1 = (pre₁ ++ [c]).length := by simp
        refine ⟨cut 0x20 s, rfl, length_cut _ _, ?_, ?_, ?_⟩
        · rw [cut, takeWhile_cut hs _ (Or.inr hpos), if_neg (by simp)]
        · simp only [List.map_cons, List.map_nil]
          rw [hmem', cstr_at hq, takeWhile_nonzero (List.forall_mem_cons.mp hrs).2]
          simp [slots, hr, hc]
        · simp only [List.mem_singleton]
          rintro q rfl
          rw [hmem']
          refine (inside_at hq).mono (by omega) ?_
          simp only [List.length_cons] at hsplit
          omega
      · rw [if_neg hc, hmem]
        obtain ⟨t', ht⟩ := ih pre₁ (c :: t) hrs rfl
        refine ⟨word 0x20 s ++ List.replicate (gap 0x20 s) 0 ++ t', ?_, ?_, ?_, ?_, ?_⟩
        · exact ht.mem.trans (by simp [pre₁])
        · have htl := ht.length
          simp only [List.length_append, List.length_replicate]
          omega
        · rw [takeWhile_cut hs _ (Or.inr hpos), if_neg (by simp)]
        · simp only [List.map_cons, ht.texts]
          rw [ht.mem, cstr_at rfl, ht.first, hr, slots, if_neg hc]
        · intro q hq
          obtain rfl | hq := List.mem_cons.mp hq
          · simp only [ht.mem]
            refine (inside_at rfl).mono (by omega) ?_
            rw [ht.length]
            omega
          · exact (ht.inside q hq).mono (by omega) (by omega)

/-- What `tokenize` leaves behind for the accepted line `s` at the end of `pre`. -/
structure Tokenized (ps : Str → List Str) (pre s post : Str)
    (r : Bool × Mem × List (Option Nat)) : Prop where
  ok : r.1 = true
  mem : ∃ s', s'.length = s.length ∧ r.2.1 = pre ++ (s' ++ 0 :: post)
  texts : r.2.2.map (Option.map (cstr r.2.1)) = tokarr (fieldsBy ps s)
  inside : ∀ q, some q ∈ r.2.2 → Inside r.2.1 pre.length s.length q

theorem map_tokarr {α β : Type} (f : α → β) (tok : List (Option α)) :
    (tokarr tok).map (Option.map f) = tokarr (tok.map (Option.map f)) := by
  simp [tokarr]

theorem mem_tokarr {q : Nat} {tok : List (Option Nat)} (h : some q ∈ tokarr tok) :
    some q ∈ tok := by
  simpa [tokarr] using h

theorem tokenizeCmd_split (pre s post : Str) (hs : ∀ c ∈ s, c ≠ 0) (pfx : Option Nat) {p : Nat}
    (hp : p = pre.length) :
    ∃ s' mem tok, tokenizeCmd (pre ++ (s ++ 0 :: post)) p pfx = (true, mem, tok) ∧
      mem = pre ++ (s' ++ 0 :: post) ∧ s'.length = s.length ∧
      tok.map (Option.map (cstr mem)) = tokarr (pfx.map (cstr mem) ::
        some (word 0x20 s) :: (slots 16 (rest 0x20 s)).map some) ∧
      ∀ q, some q ∈ tok → some q = pfx ∨ Inside mem pre.length s.length q := by
  obtain ⟨s', h⟩ := tokenizeArgs_split (tokarrSize - 2) pre s post hs hp
  refine ⟨s', _, _, rfl, h.mem, h.length, ?_, ?_⟩
  · have hcmd : cstr (tokenizeArgs (tokarrSize - 2) (pre ++ (s ++ 0 :: post)) p).1 p =
        word 0x20 s := by
      rw [h.mem, cstr_at hp, h.first, if_neg (by decide)]
    rw [map_tokarr, List.map_cons, List.map_cons, List.map_map, Option.map_some, hcmd,
      show slots 16 = slots (tokarrSize - 2) from rfl, ← h.texts, List.map_map]
    rfl
  · intro q hq
    have hq := mem_tokarr hq
    simp only [List.mem_cons, List.mem_map, Option.some.injEq, exists_eq_right] at hq
    obtain hq | rfl | hq := hq
    · exact Or.inl hq
    · refine Or.inr ?_
      rw [h.mem, ← hp, ← h.length]
      exact inside_at hp
    · exact Or.inr (h.inside q hq)

theorem tokenize_command (pre s post : Str) (hs : ∀ c ∈ s, c ≠ 0) (hne : s ≠ [])
    (hsp : s.head? ≠ some 0x20) (hpfx : s.head? ≠ some 0x3a) {p : Nat} (hp : p = pre.length) :
    Tokenized (slots 16) pre s post (tokenize (pre ++ (s ++ 0 :: post)) p) := by
  obtain ⟨s', mem, tok, hr, hmem, hlen, htexts, hin⟩ := tokenizeCmd_split pre s post hs none hp
  have ht : tokenize (pre ++ (s ++ 0 :: post)) p = (true, mem, tok) := by
    cases s with
    | nil => exact absurd rfl hne
    | cons c s =>
      have hc := hs c List.mem_cons_self
      simp only [List.head?_cons, ne_eq, Option.some.injEq] at hsp hpfx
      rw [← hr, tokenize, hp]
      simp [hc, hsp, hpfx]
  rw [ht]
  refine ⟨rfl, ⟨s', hlen, hmem⟩, ?_, ?_⟩
  · rw [htexts, fieldsBy, fromCmd, if_neg hpfx, if_neg hpfx]
    rfl
  · intro q hq
    obtain hq | hq := hin q hq
    · cases hq
    · exact hq

theorem tokenize_prefixed (pre u post : Str) (hs : ∀ c ∈ 0x3a :: u, c ≠ 0)
    (hn : rest 0x20 (0x3a :: u) ≠ []) {p : Nat} (hp : p = pre.length) :
    Tokenized (slots 16) pre (0x3a :: u) post
      (tokenize (pre ++ ((0x3a :: u) ++ 0 :: post)) p) := by
  obtain ⟨hword, hgap, hrest⟩ := split_other (d := 0x20) (c := 0x3a) (by decide) u
  have hsplit := length_split 0x20 (0x3a :: u)
  have hus := (List.forall_mem_cons.mp hs).2
  let pre₁ := pre ++ (word 0x20 (0x3a :: u) ++ List.replicate (gap 0x20 (0x3a :: u)) 0)
  have hlen₁ : pre₁.length =
      pre.length + ((word 0x20 (0x3a :: u)).length + gap 0x20 (0x3a :: u)) := by simp [pre₁]
  have hrs : ∀ x ∈ rest 0x20 (0x3a :: u), x ≠ 0 := fun x hx => hs x (mem_rest hx)
  obtain ⟨t', mem, tok, hr, hmem, hlen, htexts, hin⟩ :=
    tokenizeCmd_split pre₁ _ post hrs (some (p + 1)) hlen₁.symm
  have ht : tokenize (pre ++ ((0x3a :: u) ++ 0 :: post)) p = (true, mem, tok) := by
    have hget : (pre ++ ((0x3a :: u) ++ 0 :: post)).getD p 0 = 0x3a := by simp [hp]
    have hcut : pre ++ (cut 0x20 (0x3a :: u) ++ 0 :: post) =
        pre₁ ++ (rest 0x20 (0x3a :: u) ++ 0 :: post) := by simp [pre₁, cut]
    simp only [tokenize]
    rw [hget, if_pos rfl, nextTok_eq (by decide) pre _ post hs hp, if_neg hn, hcut, ← hr]
  -- the prefix ends where its first delimiter stood
  have htail : mem = (pre ++ [0x3a]) ++
      (word 0x20 u ++ List.replicate (gap 0x20 u) 0 ++ t' ++ 0 :: post) := by
    simp [hmem, pre₁, hword, hgap]
  have hp' : p + 1 = (pre ++ [(0x3a : UInt8)]).length := by simp [hp]
  have hpos : 0 < gap 0x20 u := hgap ▸ gap_pos hn
  rw [ht]
  refine ⟨rfl,
    ⟨word 0x20 (0x3a :: u) ++ List.replicate (gap 0x20 (0x3a :: u)) 0 ++ t', ?_, ?_⟩, ?_, ?_⟩
  · simp only [List.length_append, List.length_replicate]
    omega
  · simp [hmem, pre₁]
  · rw [htexts, Option.map_some, htail, cstr_at hp', takeWhile_cut hus _ (Or.inr hpos)]
    rfl
  · intro q hq
    obtain hq | hq := hin q hq
    · obtain rfl := Option.some.inj hq
      rw [htail]
      refine (inside_at hp').mono (by omega) ?_
      rw [hword, hgap] at hsplit
      simp only [List.length_cons] at hsplit
      simp only [List.length_append, List.length_replicate, List.length_cons]
      omega
    · exact hq.mono (by omega) (by omega)

/-- The general form: up to sixteen parameters, the last of which takes what is left. -/
theorem tokenize_accepted (pre s post : Str) (hs : ∀ c ∈ s, c ≠ 0) (ha : Accepted s) {p : Nat}
    (hp : p = pre.length) :
    Tokenized (slots 16) pre s post (tokenize (pre ++ (s ++ 0 :: post)) p) := by
  obtain ⟨hne, hsp, hpfx⟩ := ha
  by_cases hc : s.head? = some 0x3a
  · obtain ⟨u, rfl⟩ := List.head?_eq_some_iff.mp hc
    exact tokenize_prefixed pre u post hs (hpfx rfl) hp
  · exact tokenize_command pre s post hs hne hsp hc hp

theorem tokenize_rejected (pre s post : Str) (hs : ∀ c ∈ s, c ≠ 0) (ha : ¬Accepted s) {p : Nat}
    (hp : p = pre.length) :
    ∃ s' tok, s'.length = s.length ∧
      tokenize (pre ++ (s ++ 0 :: post)) p = (false, pre ++ (s' ++ 0 :: post), tok) := by
  cases s with
  | nil => exact ⟨[], tokarr [], rfl, by simp [tokenize, hp]⟩
  | cons c u =>
    have hget : (pre ++ ((c :: u) ++ 0 :: post)).getD p 0 = c := by simp [hp]
    by_cases hc : c = 0x3a
    · subst hc
      have hn : rest 0x20 (0x3a :: u) = [] := by
        by_contra hn
        exact ha ⟨by simp, by simp, fun _ => hn⟩
      refine ⟨cut 0x20 (0x3a :: u), tokarr [some (p + 1)], length_cut _ _, ?_⟩
      simp only [tokenize]
      rw [hget, if_pos rfl, nextTok_eq (by decide) pre _ post hs hp, if_pos hn]
    · have hsp : c = 0x20 := by
        by_contra hsp
        exact ha ⟨by simp, by simpa using hsp, by simp [hc]⟩
      refine ⟨c :: u, tokarr [], rfl, ?_⟩
      simp only [tokenize]
      rw [hget, if_neg hc, if_pos hsp]

/-- The tokenizer accepts exactly its grammar, finds the fields in order and stays inside
the line. -/
theorem tokenize_grammar (pre s post : Str) (hs : ∀ c ∈ s, c ≠ 0 ∧ c ≠ 0x0d ∧ c ≠ 0x0a)
    (hp : (params (rest 0x20 (fromCmd s))).length ≤ 15) :
    ((tokenize (pre ++ (s ++ 0 :: post)) pre.length).1 = true ↔ Accepted s) ∧
    (∃ s', s'.length = s.length ∧
      (tokenize (pre ++ (s ++ 0 :: post)) pre.length).2.1 = pre ++ (s' ++ 0 :: post)) ∧
    (Accepted s →
      Tokenized params pre s post (tokenize (pre ++ (s ++ 0 :: post)) pre.length)) := by
  have hs' : ∀ c ∈ s, c ≠ 0 := fun c hc => (hs c hc).1
  by_cases ha : Accepted s
  · have ht := tokenize_accepted pre s post hs' ha rfl
    refine ⟨by simp [ht.ok, ha], ht.mem, fun _ => ⟨ht.ok, ht.mem, ?_, ht.inside⟩⟩
    rw [ht.texts, fieldsBy, slots_eq _ 16 (by omega)]
    rfl
  · obtain ⟨s', tok, hlen, ht⟩ := tokenize_rejected pre s post hs' ha rfl
    exact ⟨by simp [ht, ha], ⟨s', hlen, by rw [ht]⟩, fun h => absurd h ha⟩

theorem tokenize_grammar_join :
    ((tokenize (ascii "xy" ++ (ascii ":me JOIN  #a :b c" ++ 0 :: [])) 2).1 = true ↔
      Accepted (ascii ":me JOIN  #a :b c")) ∧
    (∃ s', s'.length = (ascii ":me JOIN  #a :b c").length ∧
      (tokenize (ascii "xy" ++ (ascii ":me JOIN  #a :b c" ++ 0 :: [])) 2).2.1 =
        ascii "xy" ++ (s' ++ 0 :: [])) ∧
    (Accepted (ascii ":me JOIN  #a :b c") →
      Tokenized params (ascii "xy") (ascii ":me JOIN  #a :b c") []
        (tokenize (ascii "xy" ++ (ascii ":me JOIN  #a :b c" ++ 0 :: [])) 2)) :=
  tokenize_grammar (ascii "xy") (ascii ":me JOIN  #a :b c") [] (by decide +kernel)
    (by decide +kernel)

end Srsirc.LineGrammar
