import Srsirc.Assembly

namespace Srsirc.Retokenize

open CharMap Memory Tokenize TokenGrammar LineGrammar Assembly

structure Middle (p : Str) : Prop where
  nonempty : p ≠ []
  plain : p.head? ≠ some 0x3a
  nospace : 0x20 ∉ p

theorem Middle.head (h : Middle p) (t : Str) : (p ++ t).head? = p.head? ∧ p.head? ≠ some 0x20 := by
  have hsp := h.nospace
  cases p with
  | nil => exact absurd rfl h.nonempty
  | cons c p =>
    refine ⟨rfl, fun hc => hsp ?_⟩
    rw [Option.some.inj hc]
    exact List.mem_cons_self

theorem nospace_word (s : Str) : 0x20 ∉ word 0x20 s := by
  intro hm
  simpa using List.mem_takeWhile_imp hm

theorem params_middle (s : Str) (hs : s.head? ≠ some 0x20) :
    ∀ p ∈ (params s).dropLast, Middle p := by
  induction s using params.induct with
  | case1 =>
    rw [params]
    exact fun _ hp => absurd hp List.not_mem_nil
  | case2 s =>
    rw [params, if_pos rfl]
    exact fun _ hp => absurd hp List.not_mem_nil
  | case3 c s hc ih =>
    have hsp : c ≠ 0x20 := fun he => hs (congrArg some he)
    rw [params, if_neg hc]
    cases hr : params (rest 0x20 (c :: s)) with
    | nil => exact fun _ hp => absurd hp List.not_mem_nil
    | cons q qs =>
      rw [hr] at ih
      rw [List.dropLast_cons_cons]
      refine List.forall_mem_cons.2 ⟨⟨?_, ?_, nospace_word _⟩, ih head_rest⟩
      · rw [(split_other hsp s).1]
        exact List.cons_ne_nil _ _
      · rw [(split_other hsp s).1]
        exact fun he => hc (Option.some.inj he)

/-- What the last parameter becomes. -/
def readBack (coltr : Bool) (p : Str) : List Str :=
  if coltr = true ∨ 0x20 ∈ p then [p] else if p.head? = some 0x3a then [p.tail]
    else if p = [] then [] else [p]

theorem length_readBack (coltr : Bool) (p : Str) : (readBack coltr p).length ≤ 1 := by
  rw [readBack]
  split
  · exact Nat.le_refl _
  · split
    · exact Nat.le_refl _
    · split
      · exact Nat.zero_le _
      · exact Nat.le_refl _

theorem readBack_eq (coltr : Bool) (p : Str) :
    readBack coltr p = [p] ↔ coltr = true ∨ 0x20 ∈ p ∨ p ≠ [] ∧ p.head? ≠ some 0x3a := by
  rw [readBack, ← or_assoc]
  split
  · next h => exact iff_of_true rfl (Or.inl h)
  · next h =>
    rw [or_iff_right h]
    split
    · next hcolon =>
      refine iff_of_false (fun he => ?_) fun hp => hp.2 hcolon
      obtain ⟨t, rfl⟩ := List.head?_eq_some_iff.1 hcolon
      have hlen := congrArg List.length (List.cons.inj he).1
      rw [List.tail_cons, List.length_cons] at hlen
      omega
    · next hcolon =>
      split
      · next hnil => exact iff_of_false nofun fun hp => hp.1 hnil
      · next hne => exact iff_of_true rfl ⟨hne, hcolon⟩

theorem colon_iff {coltr : Bool} {p : Str} {ps : List Str} {k : Nat} :
    Colon coltr p (ps.map some ++ List.replicate k none) ↔ ps = [] ∧ (coltr = true ∨ 0x20 ∈ p) := by
  rw [Colon]
  cases ps with
  | nil => cases k <;> simp [List.replicate_succ]
  | cons q ps => simp

theorem params_last (coltr : Bool) (p : Str) :
    params ((if coltr = true ∨ 0x20 ∈ p then 0x3a :: p else p).dropWhile (· == 0x20)) =
      readBack coltr p := by
  rw [readBack]
  split
  · rw [List.dropWhile_cons_of_neg (by decide), params, if_pos rfl]
  · next h =>
    have hsp : 0x20 ∉ p := fun hm => h (Or.inr hm)
    cases p with
    | nil => rw [List.dropWhile_nil, params, if_neg (fun h => by cases h), if_pos rfl]
    | cons c p =>
      have hc : c ≠ 0x20 := fun he => hsp (he ▸ List.mem_cons_self)
      obtain ⟨hword, hrest⟩ := split_single hsp
      have hhead : (c :: p).head? ≠ some 0x20 := fun he => hc (Option.some.inj he)
      have hiff : (c :: p).head? = some 0x3a ↔ c = 0x3a := Option.some_inj
      rw [dropWhile_head hhead, params, hword, hrest, params]
      simp only [hiff]
      by_cases hcolon : c = 0x3a
      · rw [if_pos hcolon, if_pos hcolon, List.tail_cons]
      · rw [if_neg hcolon, if_neg hcolon, if_neg (List.cons_ne_nil _ _)]

theorem params_paramsText (coltr : Bool) (k : Nat) (ps : List Str)
    (hps : ∀ p ∈ ps.dropLast, Middle p) :
    params ((paramsText coltr (ps.map some ++ List.replicate k none)).dropWhile (· == 0x20)) =
      ps.dropLast ++ (ps.getLast?.map (readBack coltr)).getD [] := by
  have hnil : paramsText coltr (([] : List Str).map some ++ List.replicate k none) =
      [] := by cases k <;> rfl
  induction ps with
  | nil =>
    rw [hnil, List.dropWhile_nil, params]
    rfl
  | cons p ps ih =>
    have hcolon := @colon_iff coltr p ps k
    rw [List.map_cons, List.cons_append, paramsText, List.dropWhile_cons_of_pos rfl]
    cases ps with
    | nil =>
      have hlast := params_last coltr p
      have hiff : Colon coltr p (([] : List Str).map some ++ List.replicate k none) ↔
          coltr = true ∨ 0x20 ∈ p :=
        hcolon.trans (and_iff_right rfl)
      rw [hnil, List.append_nil]
      simp only [hiff]
      exact hlast
    | cons q ps =>
      obtain ⟨hp, hps'⟩ := List.forall_mem_cons.1 hps
      have hnext := ih hps'
      rw [if_neg (fun hc => List.cons_ne_nil _ _ (hcolon.1 hc).1)]
      rw [List.map_cons, List.cons_append, paramsText] at hnext ⊢
      generalize (if Colon coltr q (ps.map some ++ List.replicate k none) then 0x3a :: q else q) ++
        paramsText coltr (ps.map some ++ List.replicate k none) = t at hnext ⊢
      rw [List.dropWhile_cons_of_pos rfl] at hnext
      obtain ⟨hhead, hsp⟩ := hp.head (0x20 :: t)
      obtain ⟨hword, hrest⟩ := split_words hp.nospace t
      have hplain := hp.plain
      rw [← hhead] at hsp hplain
      rw [dropWhile_head hsp]
      cases hl : p ++ 0x20 :: t with
      | nil => simp at hl
      | cons c s =>
        rw [hl] at hword hrest hplain
        rw [params, if_neg (fun he => hplain (congrArg some he)), hword, hrest, hnext]
        rfl

theorem split_cmd {cmd t : Str} (hcmd : 0x20 ∉ cmd) (ht : t = [] ∨ t.head? = some 0x20) :
    word 0x20 (cmd ++ t) = cmd ∧ rest 0x20 (cmd ++ t) = t.dropWhile (· == 0x20) := by
  obtain rfl | ht := ht
  · rw [List.append_nil]
    exact split_single hcmd
  · obtain ⟨t, rfl⟩ := List.head?_eq_some_iff.1 ht
    rw [List.dropWhile_cons_of_pos rfl]
    exact split_words hcmd t

structure Leading (pfx : Option Str) (cmd : Str) : Prop where
  front : ∀ p, pfx = some p → 0x20 ∉ p
  nonempty : cmd ≠ []
  nospace : 0x20 ∉ cmd
  plain : pfx = none → cmd.head? ≠ some 0x3a

theorem leading_fields (s : Str) (h : Accepted s) :
    Leading (if s.head? = some 0x3a then some (word 0x20 s.tail)
      else none) (word 0x20 (fromCmd s)) := by
  obtain ⟨hne, hsp, hrest⟩ := h
  have hcmd : fromCmd s ≠ [] ∧ (fromCmd s).head? ≠ some 0x20 := by
    rw [fromCmd]
    split
    · next hc => exact ⟨hrest hc, head_rest⟩
    · exact ⟨hne, hsp⟩
  obtain ⟨c, t, hct⟩ := List.exists_cons_of_ne_nil hcmd.1
  have hword : word 0x20 (fromCmd s) = c :: word 0x20 t := by
    rw [hct]
    exact (split_other (fun he => hcmd.2 (by rw [hct, he]; rfl)) t).1
  refine ⟨fun p hp => ?_, ?_, nospace_word _, fun hnone => ?_⟩
  · split at hp
    · rw [← Option.some.inj hp]
      exact nospace_word _
    · cases hp
  · rw [hword]
    exact List.cons_ne_nil _ _
  · split at hnone
    · cases hnone
    · next hc =>
      have hfrom : fromCmd s = s := if_neg hc
      rw [hword]
      rwa [← hfrom, hct] at hc

theorem fields_leading {pfx : Option Str} {cmd t : Str} (h : Leading pfx cmd)
    (ht : t = [] ∨ t.head? = some 0x20)
    (ps : Str → List Str) : Accepted (start pfx cmd ++ t) ∧
      fieldsBy ps (start pfx cmd ++ t) =
        pfx :: some cmd :: (ps (t.dropWhile (· == 0x20))).map some := by
  obtain ⟨hword, hrest⟩ := split_cmd h.nospace ht
  have hhead : (cmd ++ t).head? = cmd.head? := by
    rw [List.head?_append_of_ne_nil _ h.nonempty]
  have hne : cmd ++ t ≠ [] := List.append_ne_nil_of_left_ne_nil h.nonempty t
  have hsp : (cmd ++ t).head? ≠ some 0x20 := by
    rw [hhead]
    intro hc
    exact h.nospace (List.mem_of_head? hc)
  cases pfx with
  | none =>
    have hplain : (cmd ++ t).head? ≠ some 0x3a := by
      rw [hhead]
      exact h.plain rfl
    have hstart : start none cmd = cmd := rfl
    rw [hstart, fieldsBy, fromCmd, if_neg hplain, if_neg hplain, hword, hrest]
    exact ⟨⟨hne, hsp, fun hc => absurd hc hplain⟩, rfl⟩
  | some p =>
    have hstart : start (some p) cmd ++ t = 0x3a :: (p ++ 0x20 :: (cmd ++ t)) := by
      rw [start, List.cons_append, List.append_assoc, List.cons_append]
    obtain ⟨hwordp, hrestp⟩ := split_words (h.front p rfl) (cmd ++ t)
    have hfrom : rest 0x20 (0x3a :: (p ++ 0x20 :: (cmd ++ t))) = cmd ++ t := by
      rw [(split_other (by decide) _).2.2, hrestp, dropWhile_head hsp]
    rw [hstart, fieldsBy, fromCmd]
    simp only [List.head?_cons, if_true, List.tail_cons, hwordp, hfrom, hword, hrest]
    refine ⟨⟨List.cons_ne_nil _ _, by simp, fun _ => ?_⟩, trivial⟩
    rw [hfrom]
    exact hne

/-- The token array that `tokenize` stores, as strings. -/
def tokens (mem : Mem) (p : Nat) : List (Option Str) :=
  (tokenize mem p).2.2.map (Option.map (cstr (tokenize mem p).2.1))

def withoutEnd (mem : Mem) : Mem := mem.set ((cstr mem 0).length - 2) 0

def paramsOf (s : Str) : List Str := params (rest 0x20 (fromCmd s))

/-- The last parameter of a line, if any, either gets a colon or does not need it. -/
def Kept (coltr : Bool) (s : Str) : Prop :=
  ∀ p, (paramsOf s).getLast? = some p → coltr = true ∨ 0x20 ∈ p ∨ p ≠ [] ∧ p.head? ≠ some 0x3a

theorem tokens_accepted (pre s post : Str) (hs : ∀ c ∈ s, c ≠ 0) (ha : Accepted s) :
    tokens (pre ++ (s ++ 0 :: post)) pre.length = tokarr (fieldsBy (slots 16) s) :=
  (tokenize_accepted pre s post hs ha rfl).texts

theorem tokens_nonzero (mem : Mem) (p : Nat) : ∀ w, some w ∈ tokens mem p → ∀ c ∈ w, c ≠ 0 := by
  intro w hw
  obtain ⟨entry, _, hentry⟩ := List.mem_map.1 hw
  obtain ⟨q, _, rfl⟩ := Option.map_eq_some_iff.1 hentry
  exact takeWhile_ne_zero _

theorem tokarr_inj {a b : Option Str} {ps qs : List Str}
    (h : tokarr (a :: b :: ps.map some) = tokarr (a :: b :: qs.map some)) : ps = qs := by
  have hps := congrArg (fun tok => (tok.drop 2).filterMap id) h
  simpa [tokarr] using hps

theorem tokens_few (pre s post : Str) (hs : ∀ c ∈ s, c ≠ 0) (ha : Accepted s)
    (hfew : (tokens (pre ++ (s ++ 0 :: post)) pre.length).getD 17 none = none) :
    tokens (pre ++ (s ++ 0 :: post)) pre.length = tokarr (fields s) ∧ (paramsOf s).length < 16 := by
  have htok := tokens_accepted pre s post hs ha
  rw [htok, fieldsBy] at hfew
  have hlen : (slots 16 (rest 0x20 (fromCmd s))).length < 16 := by
    by_contra hge
    have hlt : 15 < (slots 16 (rest 0x20 (fromCmd s))).length := by omega
    simp [tokarr, List.getD_eq_getElem?_getD, List.getElem?_append_left, hlt] at hfew
  have hslots := slots_few 16 _ hlen
  rw [htok, fieldsBy, hslots]
  rw [hslots] at hlen
  exact ⟨rfl, hlen⟩

/-- What comes back when the line for a message is tokenized. -/
theorem tokens_line (coltr : Bool) {pfx : Option Str} {cmd : Str} {ps : List Str}
    (h : Leading pfx cmd)
    (hps : ∀ p ∈ ps.dropLast, Middle p) (hlen : ps.length < 16) (post : Str)
    (hs : ∀ c ∈ lineOf coltr (tokarr (pfx :: some cmd :: ps.map some)), c ≠ 0) :
    let line := lineOf coltr (tokarr (pfx :: some cmd :: ps.map some))
    (tokenize (line ++ 0 :: post) 0).1 = true ∧ tokens (line ++ 0 :: post) 0 =
      tokarr (pfx :: some
        cmd :: (ps.dropLast ++ (ps.getLast?.map (readBack coltr)).getD []).map some) := by
  intro line
  let k := tokarrSize - (pfx :: some cmd :: ps.map some).length
  let t := paramsText coltr (ps.map some ++ List.replicate k none)
  have hline : line = start pfx cmd ++ t := rfl
  have ht : t = [] ∨ t.head? = some 0x20 := by
    cases ps with
    | nil => exact Or.inl rfl
    | cons p ps => exact Or.inr rfl
  have hparams := params_paramsText coltr k ps hps
  obtain ⟨hacc, hfields⟩ := fields_leading h ht (slots 16)
  rw [← hline] at hacc hfields
  have hfew : (ps.dropLast ++ (ps.getLast?.map (readBack coltr)).getD []).length < 16 := by
    obtain hnil | ⟨init, p, rfl⟩ := List.eq_nil_or_concat' ps
    · rw [hnil]
      exact Nat.zero_lt_succ 15
    · have hback := length_readBack coltr p
      simp only [List.length_append, List.length_singleton] at hlen
      simp only [List.dropLast_concat, List.getLast?_concat, Option.map_some, Option.getD_some,
        List.length_append]
      omega
  have hok := (tokenize_accepted [] line post hs hacc rfl).ok
  have htok := tokens_accepted [] line post hs hacc
  rw [← hparams] at hfew
  rw [hfields, slots_eq _ 16 hfew, hparams] at htok
  exact ⟨hok, htok⟩

theorem kept_iff (coltr : Bool) (ps : List Str) :
    ps.dropLast ++ (ps.getLast?.map (readBack coltr)).getD [] = ps ↔
      ∀ p, ps.getLast? = some p → coltr = true ∨ 0x20 ∈ p ∨ p ≠ [] ∧ p.head? ≠ some 0x3a := by
  obtain rfl | ⟨init, p, rfl⟩ := List.eq_nil_or_concat' ps
  · exact iff_of_true rfl nofun
  · rw [List.getLast?_concat, List.dropLast_concat, Option.map_some, Option.getD_some,
      List.append_right_inj,
      readBack_eq]
    exact ⟨fun h q hq => Option.some.inj hq ▸ h, fun h => h p rfl⟩

/-- Printing a message and tokenizing what was printed leads back to it if and only if its
last parameter is kept. -/
theorem tokenize_snrcmsg (pre s post : Str) (hs : ∀ c ∈ s, c ≠ 0)
    (hok : (tokenize (pre ++ (s ++ 0 :: post)) pre.length).1 = true)
    (hfew : (tokens (pre ++ (s ++ 0 :: post)) pre.length).getD 17 none = none) (coltr : Bool)
      (dest : Mem)
    (destsz : Nat) (hdest : destsz ≤ dest.length)
    (hlarge : (lineOf coltr (tokens (pre ++ (s ++ 0 :: post)) pre.length)).length + 2 < destsz) :
    (∃ dest', snrcmsg dest destsz (tokens (pre ++ (s ++ 0 :: post)) pre.length) coltr = .ok dest' ∧
      (tokenize (withoutEnd dest') 0).1 = true ∧
        tokens (withoutEnd dest') 0 = tokens (pre ++ (s ++ 0 :: post)) pre.length) ↔
          Kept coltr s := by
  have hacc : Accepted s := by
    by_contra hrej
    obtain ⟨_, _, _, ht⟩ := tokenize_rejected pre s post hs hrej (p := pre.length) rfl
    rw [ht] at hok
    cases hok
  have hnonzero := tokens_nonzero (pre ++ (s ++ 0 :: post)) pre.length
  obtain ⟨htok, hlen⟩ := tokens_few pre s post hs hacc hfew
  have hlead := leading_fields s hacc
  have hmid : ∀ p ∈ (paramsOf s).dropLast, Middle p := params_middle _ head_rest
  rw [htok, fields, fieldsBy] at hnonzero hlarge ⊢
  generalize (if s.head? = some 0x3a then some (word 0x20 s.tail) else none) = pfx at *
  generalize word 0x20 (fromCmd s) = cmd at *
  rw [show params (rest 0x20 (fromCmd s)) = paramsOf s from rfl] at *
  obtain ⟨dest', hwrites, hholds⟩ :=
    @snrcmsg_writes dest destsz _ cmd rfl hnonzero coltr hdest hlarge
  obtain ⟨z, hz⟩ := hholds.text
  have hwithout : withoutEnd dest' =
      lineOf coltr (tokarr (pfx :: some cmd :: (paramsOf s).map some)) ++ 0 ::
        (0x0a :: 0 :: z) := by
    rw [withoutEnd, hholds.cstr, hz]
    simp
  have hline0 := (List.forall_mem_append.1 hholds.nonzero).1
  obtain ⟨hok', htok'⟩ := tokens_line coltr hlead hmid hlen (0x0a :: 0 :: z) hline0
  rw [← hwithout] at hok' htok'
  rw [Kept, ← kept_iff]
  constructor
  · rintro ⟨dest'', hwrites', _, hsame⟩
    obtain rfl := Except.ok.inj (hwrites'.symm.trans hwrites)
    exact tokarr_inj (htok'.symm.trans hsame)
  · intro hkept
    refine ⟨dest', hwrites, hok', ?_⟩
    rw [htok', hkept]

theorem tokenize_snrcmsg_join :
    (∃ dest', snrcmsg (List.replicate 64 0) 64 (tokens (ascii ":me JOIN #a :b c" ++ [0]) 0)
      false = .ok dest' ∧
      (tokenize (withoutEnd dest') 0).1 = true ∧
        tokens (withoutEnd dest') 0 = tokens (ascii ":me JOIN #a :b c" ++ [0]) 0) ↔
      Kept false (ascii ":me JOIN #a :b c") :=
  tokenize_snrcmsg [] (ascii ":me JOIN #a :b c") [] (by decide +kernel) (by decide +kernel)
    (by decide +kernel) false
    (List.replicate 64 0) 64 (by decide) (by decide +kernel)

/-- Without a colon, an empty parameter is lost. -/
theorem tokenize_snrcmsg_empty : (tokenize (ascii "PING :" ++ [0]) 0).1 = true ∧
    (tokens (ascii "PING :" ++ [0]) 0).getD 17 none = none ∧
    (lineOf false (tokens (ascii "PING :" ++ [0]) 0)).length + 2 < 64 ∧
    ¬∃ dest', snrcmsg (List.replicate 64 0) 64 (tokens (ascii "PING :" ++ [0]) 0)
      false = .ok dest' ∧
      (tokenize (withoutEnd dest') 0).1 = true ∧
        tokens (withoutEnd dest') 0 = tokens (ascii "PING :" ++ [0]) 0 := by
  refine ⟨by decide +kernel, by decide +kernel, by decide +kernel, ?_⟩
  rintro ⟨dest', hwrites, _, hsame⟩
  have hlost :
      (snrcmsg (List.replicate 64 0) 64 (tokens (ascii "PING :" ++ [0]) 0) false).toOption.all
      (fun dest' => tokens (withoutEnd dest') 0 ≠ tokens (ascii "PING :" ++ [0]) 0) =
        true := by decide +kernel
  rw [hwrites] at hlost
  exact of_decide_eq_true hlost hsame

end Srsirc.Retokenize
