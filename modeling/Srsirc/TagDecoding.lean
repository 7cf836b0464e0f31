import Srsirc.TagsCurrent

namespace Srsirc.TagDecoding

open CharMap BucketList Memory Message ReadBuffer TokenGrammar TagGrammar Reassembly Context Conn
open Dispatch
open MessageTags TagCache TagReads TagsCurrent Fallible

def meant (c : UInt8) : UInt8 :=
  if c = 0x3a then 0x3b else if c = 0x73 then 0x20 else if c = 0x72 then 0x0d
    else if c = 0x6e then 0x0a else c

def unescape : Str → Str
  | [] => []
  | c :: s =>
    if c = 0x5c then
      match s with
      | [] => []
      | c' :: s' => meant c' :: unescape s'
    else c :: unescape s

def escapeChar (c : UInt8) : Str :=
  if c = 0x3b then [0x5c, 0x3a] else if c = 0x20 then [0x5c, 0x73]
    else if c = 0x5c then [0x5c, 0x5c]
  else if c = 0x0d then [0x5c, 0x72] else if c = 0x0a then [0x5c, 0x6e] else [c]

def escape (v : Str) : Str := v.flatMap escapeChar

theorem unescape_backslash (c : UInt8) (s : Str) :
    unescape (0x5c :: c :: s) = meant c :: unescape s := by
  rw [unescape, if_pos rfl]

theorem unescape_cons {c : UInt8} (h : c ≠ 0x5c) (s : Str) :
    unescape (c :: s) = c :: unescape s := by
  rw [unescape.eq_def]
  exact if_neg h

theorem unescape_escapeChar (c : UInt8) (s : Str) :
    unescape (escapeChar c ++ s) = c :: unescape s := by
  by_cases h : c ∈ [0x3b, 0x20, 0x5c, 0x0d, 0x0a]
  · simp only [List.mem_cons, List.not_mem_nil, or_false] at h
    obtain rfl | rfl | rfl | rfl | rfl := h <;> exact unescape_backslash _ s
  · simp only [List.mem_cons, List.not_mem_nil, or_false, not_or] at h
    obtain ⟨h₁, h₂, h₃, h₄, h₅⟩ := h
    rw [escapeChar, if_neg h₁, if_neg h₂, if_neg h₃, if_neg h₄, if_neg h₅]
    exact unescape_cons h₃ s

theorem unescape_escape (v : Str) : unescape (escape v) = v := by
  induction v with
  | nil => rfl
  | cons c v ih =>
    rw [escape, List.flatMap_cons, unescape_escapeChar]
    exact congrArg (c :: ·) ih

theorem unescChar_true (c : UInt8) : unescChar true c = meant c := by
  rw [unescChar, meant, if_pos rfl]
  by_cases h : c = 0x3a
  · rw [h]
    rfl
  · rw [if_neg h, if_neg h]

theorem length_unescape (s : Str) : (unescape s).length ≤ s.length := by
  induction s using unescape.induct with
  | case1 => exact Nat.le_refl _
  | case2 => exact Nat.zero_le _
  | case3 c s ih =>
    rw [unescape_backslash, List.length_cons, List.length_cons, List.length_cons]
    omega
  | case4 c s hc ih =>
    rw [unescape_cons hc, List.length_cons, List.length_cons]
    omega

theorem meant_ne_zero {c : UInt8} (h : c ≠ 0) : meant c ≠ 0 := by
  rw [meant]
  split
  · decide
  · split
    · decide
    · split
      · decide
      · split
        · decide
        · exact h

theorem unescape_nonzero (s : Str) (h : ∀ c ∈ s, c ≠ 0) : ∀ c ∈ unescape s, c ≠ 0 := by
  induction s using unescape.induct with
  | case1 => exact h
  | case2 => exact nofun
  | case3 c s ih =>
    obtain ⟨_, hc, hs⟩ := List.forall_mem_cons.1 h |>.imp_right List.forall_mem_cons.1
    rw [unescape_backslash]
    exact List.forall_mem_cons.2 ⟨meant_ne_zero hc, ih hs⟩
  | case4 c s hc ih =>
    obtain ⟨h0, hs⟩ := List.forall_mem_cons.1 h
    rw [unescape_cons hc]
    exact List.forall_mem_cons.2 ⟨h0, ih hs⟩

theorem unescape_plain {w : Str} (hw : 0x5c ∉ w) (s : Str) :
    unescape (w ++ s) = w ++ unescape s := by
  induction w with
  | nil => rfl
  | cons c w ih =>
    have hc : c ≠ 0x5c := fun hc => hw (hc ▸ List.mem_cons_self)
    have hw' : 0x5c ∉ w := fun hm => hw (List.mem_cons_of_mem _ hm)
    rw [List.cons_append, unescape_cons hc, ih hw', List.cons_append]

/-- The loop takes off the escapes; after a backslash, `escnext` stands for it. -/
theorem decodeLoop_eq {destsz : Nat} (s : Str) (escnext : Bool) (dest : Str)
    (h : dest.length + s.length < destsz) : decodeLoop destsz s escnext dest =
      dest ++ unescape (if escnext then 0x5c :: s else s) ++ [0] := by
  induction s generalizing escnext dest with
  | nil =>
    rw [decodeLoop, if_neg (by simpa using h)]
    cases escnext <;> simp [unescape]
  | cons c s ih =>
    rw [List.length_cons] at h
    rw [decodeLoop, if_neg (by omega)]
    by_cases hc : c = 0x5c
    · subst hc
      rw [if_pos rfl]
      cases escnext with
      | true =>
        have hlen : (dest ++ [(0x5c : UInt8)]).length + s.length < destsz := by
          rw [List.length_append, List.length_singleton]
          omega
        rw [if_pos rfl, if_pos rfl, Bool.not_true, ih _ _ hlen, if_neg (by decide),
          unescape_backslash]
        simp [meant]
      | false =>
        rw [if_neg (by decide), if_neg (by decide), Bool.not_false, ih _ _ (by omega), if_pos rfl]
    · have hlen : (dest ++ [unescChar escnext c]).length + s.length < destsz := by
        rw [List.length_append, List.length_singleton]
        omega
      rw [if_neg hc, ih _ _ hlen, if_neg (by decide)]
      cases escnext with
      | true =>
        rw [if_pos rfl, unescape_backslash, unescChar_true]
        simp
      | false =>
        rw [if_neg (by decide), unescape_cons hc]
        simp [unescChar]

/-- A tag as the standard has it, with all escapes in its value. -/
structure Proper (tag : Str) : Prop where
  nonempty : tag ≠ []
  short : tag.length ≤ 511
  plain : ∀ c ∈ tag, c ≠ 0 ∧ c ≠ 0x0d ∧ c ≠ 0x0a ∧ c ≠ 0x20 ∧ c ≠ 0x3b
  key : 0x5c ∉ tag.takeWhile (· != 0x3d)

def keyOf (tag : Str) : Str := (splitText tag).1

def valueOf (tag : Str) : Option Str := (splitText tag).2.map unescape

variable {tag : Str} {ts : List Str}

theorem decodeV3tag_proper (h : Proper tag) :
    decodeV3tag MAX_V3TAGLEN tag = unescape tag ++ [0] := by
  have hshort := h.short
  have hlen : ([] : Str).length + tag.length < MAX_V3TAGLEN := by
    rw [List.length_nil, MAX_V3TAGLEN]
    omega
  have hle := length_unescape tag
  have hloop : decodeLoop MAX_V3TAGLEN tag false [] = unescape tag ++ [0] :=
    decodeLoop_eq tag false [] hlen
  rw [decodeV3tag, hloop]
  split
  · next hfull =>
    rw [List.length_append, List.length_singleton, MAX_V3TAGLEN] at hfull
    have hlast : MAX_V3TAGLEN - 1 = (unescape tag).length := by
      rw [MAX_V3TAGLEN]
      omega
    rw [hlast]
    simp
  · rfl

/-- What there is to read of a proper tag is its key and its value. -/
theorem parsed_proper (h : Proper tag) : parsed tag = (keyOf tag, valueOf tag) := by
  have h0 : ∀ c ∈ tag, c ≠ 0 := fun c hc => (h.plain c hc).1
  have hcstr := @cstr_at [] (unescape tag) [] 0 rfl
  rw [List.nil_append, takeWhile_nonzero (unescape_nonzero tag h0)] at hcstr
  rw [parsed, decodeV3tag_proper h, hcstr, keyOf, valueOf]
  have hkey := h.key
  by_cases heq : 0x3d ∈ tag
  · obtain ⟨key, value, rfl, hnot⟩ := List.eq_append_cons_of_mem heq
    have hback : 0x5c ∉ key := by
      have hfst : (key ++ 0x3d :: value).takeWhile (· != 0x3d) = key :=
        congrArg Prod.fst (splitText_key hnot value)
      rwa [hfst] at hkey
    rw [unescape_plain hback, unescape_cons (by decide), splitText_key hnot, splitText_key hnot]
    rfl
  · have hback : 0x5c ∉ tag := by
      have hfst : tag.takeWhile (· != 0x3d) = tag := congrArg Prod.fst (splitText_none heq)
      rwa [hfst] at hkey
    have hplain := unescape_plain hback []
    rw [List.append_nil, unescape, List.append_nil] at hplain
    rw [hplain, splitText_none heq]
    rfl

def joined (ts : List Str) : Str := [0x3b].intercalate ts

theorem Proper.separate (h : Proper tag) : 0x3b ∉ tag := fun hm => (h.plain _ hm).2.2.2.2 rfl

theorem joined_cons (tag : Str) (ts : List Str) :
    joined (tag :: ts) = tag ++ if ts = [] then [] else 0x3b :: joined ts := by
  cases ts with
  | nil => rw [joined, List.intercalate_singleton, if_pos rfl, List.append_nil]
  | cons next ts =>
    rw [joined, List.intercalate_cons_cons, List.append_assoc, if_neg (List.cons_ne_nil _ _)]
    rfl

theorem joined_head (h : Proper tag) (ts : List Str) :
    joined (tag :: ts) ≠ [] ∧ (joined (tag :: ts)).head? ≠ some 0x3b := by
  have hnot := h.separate
  rw [joined_cons]
  cases tag with
  | nil => exact absurd rfl h.nonempty
  | cons c tag =>
    refine ⟨List.cons_ne_nil _ _, fun hc => ?_⟩
    obtain rfl : c = 0x3b := Option.some.inj hc
    exact hnot List.mem_cons_self

theorem joined_plain (hts : ∀ tag ∈ ts, Proper tag) : ∀ c ∈ joined ts, c ≠ 0 ∧ c ≠ 0x20 := by
  induction ts with
  | nil => exact nofun
  | cons tag ts ih =>
    obtain ⟨htag, hts⟩ := List.forall_mem_cons.1 hts
    intro c hc
    rw [joined_cons] at hc
    obtain hc | hc := List.mem_append.1 hc
    · obtain ⟨h0, _, _, hsp, _⟩ := htag.plain c hc
      exact ⟨h0, hsp⟩
    · split at hc
      · cases hc
      · obtain rfl | hc := List.mem_cons.1 hc
        · decide
        · exact ih hts c hc

theorem tagsOf_joined (hne : ts ≠ []) (hts : ∀ tag ∈ ts, Proper tag) : tagsOf (joined ts) = ts := by
  induction ts with
  | nil => exact absurd rfl hne
  | cons tag ts ih =>
    obtain ⟨htag, hts⟩ := List.forall_mem_cons.1 hts
    have hnot := htag.separate
    cases ts with
    | nil =>
      obtain ⟨hword, hrest⟩ := split_single hnot
      rw [joined_cons, if_pos rfl, List.append_nil, tagsOf_eq, hword, if_pos hrest]
    | cons next ts =>
      have hnext := joined_head (List.forall_mem_cons.1 hts).1 ts
      obtain ⟨hword, hrest⟩ := split_words hnot (joined (next :: ts))
      rw [dropWhile_head hnext.2] at hrest
      rw [joined_cons, if_neg (List.cons_ne_nil _ _), tagsOf_eq, hword, hrest, if_neg hnext.1,
        ih (List.cons_ne_nil _ _) hts]

theorem lineTags_joined (hne : ts ≠ []) (hts : ∀ tag ∈ ts, Proper tag) {message : Str}
    (hd : deliver MAX_V3TAGS (0x40 :: (joined ts ++ 0x20 :: message)) ≠ .failure) :
    lineTags (0x40 :: (joined ts ++ 0x20 :: message)) = ts.take MAX_V3TAGS := by
  have hplain := joined_plain hts
  have hsp : 0x20 ∉ joined ts := fun hm => (hplain _ hm).2 rfl
  have hpass : ∀ c ∈ 0x40 :: joined ts ++ [0x20], (c != 0) = true := by
    intro c hc
    simp only [List.cons_append, List.mem_cons, List.mem_append, List.not_mem_nil, or_false] at hc
    obtain rfl | hc | rfl := hc
    · decide
    · simpa using (hplain c hc).1
    · decide
  have hcut : (0x40 :: (joined ts ++ 0x20 :: message)).takeWhile (· != 0) =
      0x40 :: (joined ts ++ 0x20 :: message.takeWhile (· != 0)) := by
    have h : (0x40 :: joined ts ++ [0x20] ++ message).takeWhile (· != 0) =
        0x40 :: joined ts ++ [0x20] ++ message.takeWhile (· != 0) :=
          List.takeWhile_append_of_pos hpass
    simpa using h
  rw [lineTags]
  rw [deliver_eq, hcut, meaning_tags _ _ _ hsp, tagsOf_joined hne hts] at hd ⊢
  split at hd
  · exact absurd rfl hd
  · next hbody =>
    rw [if_neg hbody]
    rw [untagged] at hd ⊢
    split at hd
    · next hacc =>
      rw [if_pos hacc]
      rfl
    · exact absurd rfl hd

end Srsirc.TagDecoding
