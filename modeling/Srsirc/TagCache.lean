import Srsirc.Fallible
import Srsirc.MessageTags

namespace Srsirc.TagCache

open CharMap Memory Message ReadBuffer MessageTags Fallible

/-- The parts of a text in front of and behind its first `=`. -/
def splitText (w : Str) : Str × Option Str :=
  (w.takeWhile (· != 0x3d), if 0x3d ∈ w then some (w.dropWhile (· != 0x3d)).tail else none)

def parsed (tag : Str) : Str × Option Str := splitText (cstr (decodeV3tag MAX_V3TAGLEN tag) 0)

def texts (r : Mem × V3tag) : Str × Option Str := (cstr r.1 r.2.key, r.2.value.map (cstr r.1))

theorem splitText_key {key : Str} (hkey : 0x3d ∉ key) (value : Str) :
    splitText (key ++ 0x3d :: value) = (key, some value) := by
  have hall : ∀ c ∈ key, (c != 0x3d) = true := by
    intro c hc
    have hne : c ≠ 0x3d := fun he => hkey (he ▸ hc)
    simpa using hne
  rw [splitText, if_pos (by simp), List.takeWhile_append_of_pos hall,
    List.dropWhile_append_of_pos hall]
  simp

theorem splitText_none {w : Str} (hw : 0x3d ∉ w) : splitText w = (w, none) := by
  have hall : ∀ c ∈ w, (c != 0x3d) = true := by
    intro c hc
    have hne : c ≠ 0x3d := fun he => hw (he ▸ hc)
    simpa using hne
  rw [splitText, if_neg hw, List.takeWhile_eq_self_iff.2 hall]

theorem splitTag_texts {w : Str} (hw : ∀ c ∈ w, c ≠ 0) (z : Mem) :
    texts (splitTag (w ++ 0 :: z)) = splitText w := by
  have hcstr : cstr (w ++ 0 :: z) 0 = w := by
    have h := @cstr_at [] w z 0 rfl
    rwa [List.nil_append, takeWhile_nonzero hw] at h
  rw [splitTag, hcstr]
  by_cases heq : 0x3d ∈ w
  · obtain ⟨key, value, rfl, hkey⟩ := List.eq_append_cons_of_mem heq
    have hidx : (key ++ 0x3d :: value).idxOf 0x3d = key.length := by
      rw [List.idxOf_append_of_notMem hkey]
      simp
    have hkey0 : ∀ c ∈ key, c ≠ 0 := fun c hc => hw c (List.mem_append_left _ hc)
    have hvalue0 : ∀ c ∈ value, c ≠ 0 := fun c hc =>
      hw c (List.mem_append_right _ (List.mem_cons_of_mem _ hc))
    have hset :
        (key ++ 0x3d :: value ++ 0 :: z).set key.length 0 = key ++ 0 :: (value ++ 0 :: z) := by simp
    have hfront := @cstr_at [] key (value ++ 0 :: z) 0 rfl
    have hback := @cstr_at (key ++ [0]) value z (key.length + 1) (by simp)
    rw [List.nil_append, takeWhile_nonzero hkey0] at hfront
    rw [List.append_assoc, List.singleton_append, takeWhile_nonzero hvalue0] at hback
    rw [hidx, if_neg (by simp), hset, splitText_key hkey, texts]
    simp only [Option.map_some, hfront, hback]
  · rw [List.idxOf_eq_length heq, if_pos rfl, splitText_none heq, texts]
    simp only [hcstr, Option.map_none]

/-- Whatever is decoded has an end. -/
theorem decode_terminated (tag : Str) :
    ∃ w z, decodeV3tag MAX_V3TAGLEN tag = w ++ 0 :: z ∧ ∀ c ∈ w, c ≠ 0 := by
  have hzero : ∀ (s : Str) (e : Bool) (dest : Str),
      MAX_V3TAGLEN ≤ (decodeLoop MAX_V3TAGLEN s e dest).length ∨
        0 ∈ decodeLoop MAX_V3TAGLEN s e dest := by
    intro s
    induction s with
    | nil =>
      intro e dest
      rw [decodeLoop]
      split
      · next hlong => exact Or.inl hlong
      · exact Or.inr (by simp)
    | cons c s ih =>
      intro e dest
      rw [decodeLoop]
      split
      · next hlong => exact Or.inl hlong
      · split
        · exact ih _ _
        · exact ih _ _
  have hmem : 0 ∈ decodeV3tag MAX_V3TAGLEN tag := by
    rw [decodeV3tag]
    split
    · next hlong =>
      have hpos : 0 < MAX_V3TAGLEN := by decide
      exact List.mem_set (by omega) 0
    · next hshort => exact (hzero tag false []).resolve_left hshort
  obtain ⟨w, z, heq, hw⟩ := List.eq_append_cons_of_mem hmem
  exact ⟨w, z, heq, fun c hc h0 => hw (h0 ▸ hc)⟩

/-- The tags `ts` are in the receive buffer, and what was decoded is theirs. -/
structure Holding (workbuf : Mem) (t : Tags) (ts : List Str) : Prop where
  count : t.v3ntags = ts.length
  short : ts.length ≤ MAX_V3TAGS
  dec : t.v3tagsDec.length = MAX_V3TAGS
  entries : t.v3tags.length = MAX_V3TAGS
  raw : ∀ (i : Nat) tag, ts[i]? = some tag → ∃ p, t.v3tagsRaw[i]? = some (some p) ∧
      cstr workbuf p = tag
  cached : ∀ (i : Nat) tag, ts[i]? = some tag → (t.v3tagsDec.getD i []).getD 0 0 ≠ 0 →
    tagAt t i = .ok (parsed tag)

variable {workbuf : Mem} {t : Tags} {ts : List Str} {i : Nat} {tag : Str}

theorem getD_some {l : List (Option Nat)} {p : Nat} (h : l[i]? = some (some p)) :
    l.getD i none = some p := by
  rw [List.getD_eq_getElem?_getD, h, Option.getD_some]

theorem Holding.decoded (h : Holding workbuf t ts) (hi : ts[i]? = some tag) :
    Returns (decoded workbuf t i) fun t' => Holding workbuf t' ts ∧
      tagAt t' i = .ok (parsed tag) := by
  rw [MessageTags.decoded]
  refine Returns.ite (fun _ => ?_) fun hfull => Returns.ok ⟨h, h.cached i tag hi hfull⟩
  obtain ⟨p, hp, htag⟩ := h.raw i tag hi
  have hlt : i < ts.length := (List.getElem?_eq_some_iff.1 hi).1
  have hle := h.short
  have hdec := h.dec
  have hentries := h.entries
  obtain ⟨w, z, hw, hw0⟩ := decode_terminated tag
  rw [mkv3tag, getD_some hp]
  dsimp only
  rw [htag]
  have hover : ∃ z', overwrite (t.v3tagsDec.getD i []) 0 (decodeV3tag MAX_V3TAGLEN tag) =
      w ++ 0 :: z' := by
    rw [overwrite, hw, List.take_zero, List.nil_append, List.append_assoc, List.cons_append]
    exact ⟨_, rfl⟩
  obtain ⟨z', hover⟩ := hover
  have htexts := splitTag_texts hw0 z'
  have hparsed : splitText w = parsed tag := by
    have hcstr := @cstr_at [] w z 0 rfl
    rw [List.nil_append, takeWhile_nonzero hw0] at hcstr
    rw [parsed, hw, hcstr]
  rw [hover]
  generalize splitTag (w ++ 0 :: z') = r at htexts
  have hat :
      tagAt { t with v3tagsDec := t.v3tagsDec.set i r.1, v3tags := t.v3tags.set i (some r.2) } i =
      .ok (parsed tag) := by
    have hd : i < t.v3tagsDec.length := by omega
    have he : i < t.v3tags.length := by omega
    rw [← hparsed, ← htexts, tagAt]
    simp only [List.getD_eq_getElem?_getD, List.getElem?_set_self he, List.getElem?_set_self hd,
      Option.getD_some]
    rfl
  refine Returns.ok ⟨⟨h.count, hle, ?_, ?_, h.raw, fun j tag' hj hfull => ?_⟩, hat⟩
  · rw [List.length_set, hdec]
  · rw [List.length_set, hentries]
  · by_cases hij : i = j
    · subst hij
      obtain rfl := Option.some.inj (hi.symm.trans hj)
      exact hat
    · have hold := h.cached j tag' hj
      simp only [tagAt, List.getD_eq_getElem?_getD, List.getElem?_set_ne hij] at hold hfull ⊢
      exact hold hfull

/-- `irc_v3tag` returns what there is to read of the tag. -/
theorem Holding.v3tag (h : Holding workbuf t ts) (ind : Nat) :
    Returns (ircV3tag workbuf t ind) fun r => r.1 = ts[ind]?.map parsed ∧
      Holding workbuf r.2 ts := by
  rw [ircV3tag]
  refine Returns.ite (fun hout => Returns.ok ⟨?_, h⟩) fun hin => ?_
  · cases hts : ts[ind]? with
    | none => rfl
    | some tag =>
      have hlt : ind < ts.length := (List.getElem?_eq_some_iff.1 hts).1
      obtain ⟨p, hp, _⟩ := h.raw ind tag hts
      rw [getD_some hp, h.count] at hout
      obtain hout | hout := hout
      · omega
      · cases hout
  · have hlt : ind < ts.length := by
      rw [← h.count]
      omega
    have hts : ts[ind]? = some ts[ind] := List.getElem?_eq_getElem hlt
    refine (h.decoded hts).bind fun t' ⟨h', hat⟩ => ?_
    rw [hat, ok_bind, hts]
    exact Returns.ok ⟨rfl, h'⟩

theorem Holding.bykeyFrom (key : Str) (k : Nat) (h : Holding workbuf t ts)
    (hk : i + k = ts.length) :
    Returns (bykeyFrom workbuf key k i t) fun r =>
      r.1 = (((ts.drop i).map parsed).find? fun tag => caseEq key tag.1).map Prod.snd ∧
        Holding workbuf r.2 ts := by
  induction k generalizing i t with
  | zero =>
    rw [List.drop_eq_nil_of_le (by omega)]
    exact Returns.ok ⟨rfl, h⟩
  | succ k ih =>
    have hlt : i < ts.length := by omega
    rw [MessageTags.bykeyFrom, List.drop_eq_getElem_cons hlt, List.map_cons, List.find?_cons]
    refine (h.decoded (List.getElem?_eq_getElem hlt)).bind fun t' ⟨h', hat⟩ => ?_
    rw [hat, ok_bind]
    cases hcase : caseEq key (parsed ts[i]).1 with
    | true => exact Returns.ok ⟨rfl, h'⟩
    | false => exact ih h' (by omega)

/-- `irc_v3tag_bykey` returns the value of the first tag with the key. -/
theorem Holding.v3tagBykey (h : Holding workbuf t ts) (key : Str) :
    Returns (ircV3tagBykey workbuf t key) fun r =>
      r.1 = ((ts.map parsed).find? fun tag => caseEq key tag.1).map Prod.snd ∧
        Holding workbuf r.2 ts := by
  rw [ircV3tagBykey, h.count]
  exact @Holding.bykeyFrom _ _ ts 0 key _ h (Nat.zero_add _)

end Srsirc.TagCache
