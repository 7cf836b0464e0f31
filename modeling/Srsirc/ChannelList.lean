import Srsirc.MainLoop

namespace Srsirc.ChannelList

open CharMap MainLoop

def MAX_CHANLIST : Nat := 512

/-- `STRACAT`, for one of the lists. -/
def strACat (dest src : Str) : Str := dest ++ src.take (MAX_CHANLIST - (dest.length + 1))

structure Lists where
  chanlist : Str
  keylist : Str

/-- The words of an argument, as `strtok` finds them. -/
def words (arg : Str) : List Str := (arg.splitOn 0x20).filter (· ≠ [])

def chanOf (tok : Str) : Str := tok.takeWhile (· != 0x2c)

def keyOf (tok : Str) : Str :=
  if 0x2c ∈ tok then (tok.dropWhile (· != 0x2c)).tail else ascii "x"

/-- What the loop for `-C` does with a word. -/
def addChan (first : Bool) (tok : Str) (l : Lists) : Lists :=
  let l := if first then l
    else ⟨strACat l.chanlist (ascii ","), strACat l.keylist (ascii ",")⟩
  ⟨strACat l.chanlist (chanOf tok), strACat l.keylist (keyOf tok)⟩

/-- The case of `-C` in `process_args`; `none` where the first word is missing. -/
def processChans (arg : Str) (l : Lists) : Option Lists :=
  match words arg with
  | [] => none
  | w :: ws => some (ws.foldl (fun l w => addChan false w l) (addChan true w l))

section Joining

variable {c : Str} {cs : List Str}

theorem intercalate_eq (c : Str) (cs : List Str) :
    [0x2c].intercalate (c :: cs) = c ++ cs.flatMap (0x2c :: ·) := by
  induction cs generalizing c with
  | nil => simp
  | cons d cs ih => rw [List.intercalate_cons_cons, ih, List.flatMap_cons]; simp

theorem strACat_fits {dest src : Str} (h : (dest ++ src).length < MAX_CHANLIST) :
    strACat dest src = dest ++ src := by
  rw [List.length_append] at h
  rw [strACat, List.take_of_length_le (by omega)]

theorem addChan_fits {tok : Str} {l : Lists}
    (hc : (l.chanlist ++ 0x2c :: chanOf tok).length < MAX_CHANLIST)
    (hk : (l.keylist ++ 0x2c :: keyOf tok).length < MAX_CHANLIST) :
    addChan false tok l = ⟨l.chanlist ++ 0x2c :: chanOf tok, l.keylist ++ 0x2c :: keyOf tok⟩ := by
  have hcomma : ascii "," = [0x2c] := rfl
  have hcat : ∀ dest src : Str, (dest ++ 0x2c :: src).length < MAX_CHANLIST →
      strACat (strACat dest [0x2c]) src = dest ++ 0x2c :: src := by
    intro dest src h
    have hsplit : dest ++ 0x2c :: src = dest ++ [0x2c] ++ src := by simp
    rw [hsplit] at h ⊢
    rw [strACat_fits, strACat_fits]
    · rw [List.length_append] at h
      omega
    · rw [strACat_fits]
      · exact h
      · rw [List.length_append] at h
        omega
  simp only [addChan, Bool.false_eq_true, if_false, hcomma, hcat _ _ hc, hcat _ _ hk]

theorem addChans_fit (ws : List Str) {l : Lists}
    (hc : (l.chanlist ++ ws.flatMap (0x2c :: chanOf ·)).length < MAX_CHANLIST)
    (hk : (l.keylist ++ ws.flatMap (0x2c :: keyOf ·)).length < MAX_CHANLIST) :
    ws.foldl (fun l w => addChan false w l) l =
      ⟨l.chanlist ++ ws.flatMap (0x2c :: chanOf ·), l.keylist ++ ws.flatMap (0x2c :: keyOf ·)⟩ := by
  induction ws generalizing l with
  | nil => simp
  | cons w ws ih =>
    simp only [List.flatMap_cons, ← List.append_assoc] at hc hk
    have hc' := hc
    have hk' := hk
    rw [List.length_append] at hc' hk'
    rw [List.foldl_cons, addChan_fits (by omega) (by omega), ih hc hk]
    simp

end Joining

section Searching

variable {c : Str} {cs : List Str}

theorem strstr_iff {s pat : Str} : CoreHandlers.strstr s pat = true ↔ pat <:+: s := by
  rw [CoreHandlers.strstr, List.any_eq_true, List.infix_iff_prefix_suffix]
  simp only [List.isPrefixOf_iff_prefix, List.mem_tails]
  constructor
  · rintro ⟨t, hs, hp⟩
    exact ⟨t, hp, hs⟩
  · rintro ⟨t, hp, hs⟩
    exact ⟨t, hs, hp⟩

theorem infix_behind {p s : Str} (hc : 0x2c ∉ c) :
    0x2c :: p <:+: c ++ s ↔ 0x2c :: p <:+: s := by
  induction c with
  | nil => rfl
  | cons d c ih =>
    obtain ⟨hd, hc⟩ := not_or.1 (mt List.mem_cons.2 hc)
    rw [List.cons_append, List.infix_cons_iff, ih hc, List.cons_prefix_cons]
    simp [hd]

/-- Items are equal if they are up to their commas. -/
theorem framed_prefix {d s : Str} (hc : 0x2c ∉ c) (hd : 0x2c ∉ d) :
    c ++ [0x2c] <+: d ++ 0x2c :: s ↔ c = d := by
  induction c generalizing d with
  | nil =>
    cases d with
    | nil => simp
    | cons y d =>
      obtain ⟨hy, _⟩ := not_or.1 (mt List.mem_cons.2 hd)
      simp [hy]
  | cons x c ih =>
    obtain ⟨hx, hc⟩ := not_or.1 (mt List.mem_cons.2 hc)
    cases d with
    | nil => simp [Ne.symm hx]
    | cons y d =>
      obtain ⟨_, hd⟩ := not_or.1 (mt List.mem_cons.2 hd)
      rw [List.cons_append, List.cons_append, List.cons_prefix_cons, ih hc hd, List.cons.injEq]

theorem infix_items (hc : 0x2c ∉ c) (hcs : ∀ d ∈ cs, 0x2c ∉ d) :
    0x2c :: (c ++ [0x2c]) <:+: cs.flatMap (0x2c :: ·) ++ [0x2c] ↔ c ∈ cs := by
  induction cs with
  | nil => simp [List.infix_cons_iff]
  | cons d cs ih =>
    have hd := hcs d List.mem_cons_self
    have hnext : ∃ s, cs.flatMap (0x2c :: ·) ++ [0x2c] = 0x2c :: s := by
      cases cs with
      | nil => exact ⟨[], rfl⟩
      | cons e cs => exact ⟨_, rfl⟩
    have ih := ih fun e he => hcs e (List.mem_cons_of_mem _ he)
    rw [List.flatMap_cons, List.append_assoc, List.cons_append, List.infix_cons_iff,
      infix_behind hd, ih, List.cons_prefix_cons]
    obtain ⟨s, hs⟩ := hnext
    rw [hs, framed_prefix hc hd, List.mem_cons]
    simp

theorem ismychan_iff (hne : cs ≠ []) (hcs : ∀ d ∈ cs, 0x2c ∉ d) (hc : 0x2c ∉ c)
    (hlen : c.length ≤ 509) (hfit : ([0x2c].intercalate cs).length < MAX_CHANLIST) :
    ismychan ([0x2c].intercalate cs) c = true ↔ c ∈ cs := by
  obtain ⟨d, ds, rfl⟩ := List.exists_cons_of_ne_nil hne
  have hcomma : ascii "," = [0x2c] := rfl
  have hmax : MAX_CHANLIST = 512 := rfl
  rw [ismychan, strstr_iff, List.take_of_length_le, List.take_of_length_le, hcomma, intercalate_eq]
  · have hitems := @infix_items c (d :: ds) hc hcs
    simpa using hitems
  · simp [hcomma]
    omega
  · simp only [hcomma, List.length_append, List.length_singleton]
    omega

end Searching

theorem chanOf_plain (tok : Str) : 0x2c ∉ chanOf tok := by
  intro hmem
  have hne := List.mem_takeWhile_imp hmem
  simp at hne

theorem processChans_fits {arg : Str} (hne : words arg ≠ [])
    (hc : ([0x2c].intercalate ((words arg).map chanOf)).length < MAX_CHANLIST)
    (hk : ([0x2c].intercalate ((words arg).map keyOf)).length < MAX_CHANLIST) :
    processChans arg ⟨[], []⟩ = some ⟨[0x2c].intercalate ((words arg).map chanOf),
      [0x2c].intercalate ((words arg).map keyOf)⟩ := by
  obtain ⟨w, ws, hw⟩ := List.exists_cons_of_ne_nil hne
  rw [hw, List.map_cons, intercalate_eq, List.flatMap_map] at hc hk
  have hc' := hc
  have hk' := hk
  rw [List.length_append] at hc' hk'
  have hfirst : addChan true w ⟨[], []⟩ = ⟨chanOf w, keyOf w⟩ := by
    have hcat : ∀ src : Str, src.length < MAX_CHANLIST → strACat [] src = src :=
      fun src h => strACat_fits h
    simp only [addChan, if_true, hcat _ (show (chanOf w).length < MAX_CHANLIST by omega),
      hcat _ (show (keyOf w).length < MAX_CHANLIST by omega)]
  rw [processChans, hw]
  dsimp only
  rw [hfirst, addChans_fit ws hc hk]
  simp only [List.map_cons, intercalate_eq, List.flatMap_map]

/-- The channels that are joined, with the keys that go with them, are those of the argument, and
just their messages are taken for ones to a channel of ours. -/
theorem channels_agreed {arg : Str} (hne : words arg ≠ [])
    (hkey : ∀ w ∈ words arg, 0x2c ∉ keyOf w)
    (hc : ([0x2c].intercalate ((words arg).map chanOf)).length < MAX_CHANLIST)
    (hk : ([0x2c].intercalate ((words arg).map keyOf)).length < MAX_CHANLIST) :
    ∃ l, processChans arg ⟨[], []⟩ = some l ∧
      l.chanlist.splitOn 0x2c = (words arg).map chanOf ∧
      l.keylist.splitOn 0x2c = (words arg).map keyOf ∧
      ∀ chan, 0x2c ∉ chan → chan.length ≤ 509 →
        (ismychan l.chanlist chan = true ↔ chan ∈ (words arg).map chanOf) := by
  have hplain : ∀ d ∈ (words arg).map chanOf, 0x2c ∉ d := by
    intro d hd
    obtain ⟨w, _, rfl⟩ := List.mem_map.1 hd
    exact chanOf_plain w
  have hplain' : ∀ d ∈ (words arg).map keyOf, 0x2c ∉ d := by
    intro d hd
    obtain ⟨w, hw, rfl⟩ := List.mem_map.1 hd
    exact hkey w hw
  have hmap : ∀ f : Str → Str, (words arg).map f ≠ [] := fun f h => hne (List.map_eq_nil_iff.1 h)
  refine ⟨_, processChans_fits hne hc hk, ?_, ?_, fun chan hchan hlen => ?_⟩
  · exact List.splitOn_intercalate _ hplain (hmap chanOf)
  · exact List.splitOn_intercalate _ hplain' (hmap keyOf)
  · exact ismychan_iff (hmap chanOf) hplain hchan hlen hc

theorem channels_agreed_three :
    ∃ l, processChans (ascii "#a #b,sesame  #c") ⟨[], []⟩ = some l ∧
      l.chanlist.splitOn 0x2c = (words (ascii "#a #b,sesame  #c")).map chanOf ∧
      l.keylist.splitOn 0x2c = (words (ascii "#a #b,sesame  #c")).map keyOf ∧
      ∀ chan, 0x2c ∉ chan → chan.length ≤ 509 →
        (ismychan l.chanlist chan = true ↔
          chan ∈ (words (ascii "#a #b,sesame  #c")).map chanOf) :=
  channels_agreed (by decide +kernel) (by decide +kernel) (by decide +kernel) (by decide +kernel)

/-- A second `-C` does not put a comma in front of its first channel. -/
example : (processChans (ascii "#b") ⟨ascii "#a", ascii "x"⟩).map Lists.chanlist =
    some (ascii "#a#b") := by decide +kernel

end Srsirc.ChannelList
