import Srsirc.ModePrefixes

namespace Srsirc.PrefixArray

open CharMap HeapCells Memory Message ServerInfo UserBase ChannelModes ModePrefixes

def peek (mem : Mem) (p : Nat) : Except Fault UInt8 :=
  match mem[p]? with
  | none => .error .overrun
  | some c => .ok c

def poke (mem : Mem) (p : Nat) (c : UInt8) : Except Fault Mem :=
  if p < mem.length then .ok (mem.set p c) else .error .overrun

/-- `strchr` for a byte other than zero. -/
def findByte (c : UInt8) : Mem → Except Fault (Option Nat)
  | [] => .error .overrun
  | b :: mem => if b = c then .ok (some 0) else if b = 0 then .ok none else
    (findByte c mem).map (Option.map (· + 1))

def strlen : Mem → Except Fault Nat
  | [] => .error .overrun
  | b :: mem => if b = 0 then .ok 0 else (strlen mem).map (· + 1)

/-- The loop that moves what is behind a removed symbol, one byte at a time. In the array there
are `k` bytes from `p` on. -/
def closeGap : Nat → Mem → Nat → Except Fault Mem
  | 0, _, _ => .error .overrun
  | k + 1, mem, p => do
    let c ← peek mem p
    if c = 0 then .ok mem
    else do
      let mem ← poke mem (p - 1) c
      let mem ← poke mem p 0
      closeGap k mem (p + 1)

def findPlace (info : Info) (sym : UInt8) : Mem → Except Fault Nat
  | [] => .error .overrun
  | c :: mem => if c ≠ 0 ∧ stronger info c sym then (findPlace info sym mem).map (· + 1) else .ok 0

/-- The loop that moves the bytes from `p` on, the last one first. Those from `o` on are done. -/
def openGap (p : Nat) : Nat → Mem → Except Fault Mem
  | 0, mem => .ok mem
  | o + 1, mem =>
    if p ≤ o then do
      let c ← peek mem o
      let mem ← poke mem (o + 1) c
      openGap p o mem
    else .ok mem

/-- `lsi_ucb_update_modepfx` on the array in the record of a member. -/
def updateModepfxArray (info : Info) (modepfx : Mem) (sym : UInt8) (enab : Bool) :
    Except Fault (Bool × Mem) := do
  let p ← findByte sym modepfx
  if enab = p.isSome then .ok (false, modepfx)
  else
    match p with
    | some p => do
      let modepfx ← poke modepfx p 0
      let modepfx ← closeGap (modepfx.length - (p + 1)) modepfx (p + 1)
      .ok (true, modepfx)
    | none => do
      let len ← strlen modepfx
      if MAX_MODEPFX ≤ len + 1 then .ok (false, modepfx)
      else do
        let p ← findPlace info sym modepfx
        let rest ← strlen (modepfx.drop p)
        let modepfx ← openGap p (p + rest + 1) modepfx
        let modepfx ← poke modepfx p sym
        .ok (true, modepfx)

section Bytes

variable {mem before mid rest : Mem} {c x : UInt8}

theorem peek_at (before : Mem) (c : UInt8) (rest : Mem) :
    peek (before ++ c :: rest) before.length = .ok c := by
  rw [peek, List.getElem?_append_right (Nat.le_refl _), Nat.sub_self]
  rfl

theorem poke_at (before : Mem) (c x : UInt8) (rest : Mem) :
    poke (before ++ c :: rest) before.length x = .ok (before ++ x :: rest) := by
  rw [poke, if_pos (by rw [List.length_append, List.length_cons]; omega),
    List.set_append_right _ _ (Nat.le_refl _), Nat.sub_self, List.set_cons_zero]

theorem strlen_terminated {s : Str} (h0 : 0 ∉ s) (rest : Mem) :
    strlen (s ++ 0 :: rest) = .ok s.length := by
  induction s with
  | nil => rfl
  | cons b s ih =>
    obtain ⟨hb, hs⟩ := not_or.1 fun h => h0 (List.mem_cons.2 h)
    rw [List.cons_append, strlen, if_neg (Ne.symm hb), ih hs]
    rfl

theorem findByte_found {s : Str} (h0 : 0 ∉ s) (hc : c ∉ s) (rest : Mem) :
    findByte c (s ++ c :: rest) = .ok (some s.length) := by
  induction s with
  | nil => rw [List.nil_append, findByte, if_pos rfl, List.length_nil]
  | cons b s ih =>
    obtain ⟨hb, hs⟩ := not_or.1 fun h => h0 (List.mem_cons.2 h)
    obtain ⟨hbc, hcs⟩ := not_or.1 fun h => hc (List.mem_cons.2 h)
    rw [List.cons_append, findByte, if_neg (Ne.symm hbc), if_neg (Ne.symm hb), ih hs hcs]
    rfl

theorem findByte_missing {s : Str} (h0 : 0 ∉ s) (hc : c ∉ s) (hc0 : c ≠ 0) (rest : Mem) :
    findByte c (s ++ 0 :: rest) = .ok none := by
  induction s with
  | nil => rw [List.nil_append, findByte, if_neg (Ne.symm hc0), if_pos rfl]
  | cons b s ih =>
    obtain ⟨hb, hs⟩ := not_or.1 fun h => h0 (List.mem_cons.2 h)
    obtain ⟨hbc, hcs⟩ := not_or.1 fun h => hc (List.mem_cons.2 h)
    rw [List.cons_append, findByte, if_neg (Ne.symm hbc), if_neg (Ne.symm hb), ih hs hcs]
    rfl

theorem peek_next (before : Mem) (x c : UInt8) (rest : Mem) :
    peek (before ++ x :: c :: rest) (before.length + 1) = .ok c := by
  have h := peek_at (before ++ [x]) c rest
  rwa [List.length_append, List.append_assoc] at h

theorem poke_next (before : Mem) (x c y : UInt8) (rest : Mem) :
    poke (before ++ x :: c :: rest) (before.length + 1) y = .ok (before ++ x :: y :: rest) := by
  have h := poke_at (before ++ [x]) c y rest
  rwa [List.length_append, List.append_assoc, List.append_assoc] at h

/-- The bytes up to the terminator move down by one, and a zero stays behind. -/
theorem closeGap_moves {k : Nat} {s : Str} (h0 : 0 ∉ s) (before rest : Mem) (hk : s.length < k) :
    closeGap k (before ++ 0 :: (s ++ 0 :: rest)) (before.length + 1) =
      .ok (before ++ (s ++ 0 :: 0 :: rest)) := by
  induction s generalizing before k with
  | nil =>
    obtain ⟨k, rfl⟩ : ∃ k', k = k' + 1 := ⟨k - 1, (Nat.succ_pred_eq_of_pos hk).symm⟩
    rw [closeGap, List.nil_append, peek_next]
    rfl
  | cons b s ih =>
    obtain ⟨k, rfl⟩ : ∃ k', k = k' + 1 :=
      ⟨k - 1, (Nat.succ_pred_eq_of_pos (Nat.zero_lt_of_lt hk)).symm⟩
    obtain ⟨hb, hs⟩ := not_or.1 fun h => h0 (List.mem_cons.2 h)
    have hnext := @ih k hs (before ++ [b]) (Nat.lt_of_succ_lt_succ hk)
    rw [List.length_append, List.append_assoc, List.append_assoc] at hnext
    rw [closeGap, List.cons_append, peek_next]
    simp only [bind, Except.bind]
    rw [if_neg (Ne.symm hb), Nat.add_sub_cancel, poke_at]
    dsimp only
    rw [poke_next]
    exact hnext

theorem openGap_done (p : Nat) (mem : Mem) : openGap p p mem = .ok mem := by
  cases p with
  | zero => rfl
  | succ p => exact if_neg (by omega)

/-- The bytes of the middle move up by one, over the byte behind them, and make room for another. -/
theorem openGap_moves (before mid : Mem) (j x : UInt8) (rest : Mem) :
    (openGap before.length (before.length + mid.length) (before ++ (mid ++ j :: rest))).bind
      (fun mem => poke mem before.length x) = .ok (before ++ x :: (mid ++ rest)) := by
  induction mid using List.reverseRecOn generalizing j rest with
  | nil =>
    rw [List.length_nil, Nat.add_zero, openGap_done]
    exact poke_at before j x rest
  | append_singleton mid c ih =>
    have hpeek := peek_at (before ++ mid) c (j :: rest)
    have hpoke := poke_next (before ++ mid) c j c rest
    rw [List.length_append, List.append_assoc] at hpeek hpoke
    rw [List.length_append, List.length_singleton, ← Nat.add_assoc, openGap,
      if_pos (Nat.le_add_right _ _),
      List.append_assoc, List.singleton_append, hpeek]
    simp only [bind, Except.bind] at ih ⊢
    rw [hpoke, List.append_assoc, List.append_assoc]
    exact ih c (c :: rest)

theorem findPlace_weaker {info : Info} {sym : UInt8} {s : Str} (h0 : 0 ∉ s) (rest : Mem) :
    findPlace info sym (s ++ 0 :: rest) = .ok (s.takeWhile (stronger info · sym)).length := by
  induction s with
  | nil => rw [List.nil_append, findPlace, if_neg (by simp)]; rfl
  | cons b s ih =>
    obtain ⟨hb, hs⟩ := not_or.1 fun h => h0 (List.mem_cons.2 h)
    rw [List.cons_append, findPlace, List.takeWhile_cons]
    cases hst : stronger info b sym with
    | false => rw [if_neg (by simp)]; rfl
    | true => rw [if_pos ⟨Ne.symm hb, rfl⟩, ih hs]; rfl

end Bytes

structure Holds (mem : Mem) (s : Str) : Prop where
  size : mem.length = MAX_MODEPFX
  nonzero : 0 ∉ s
  string : ∃ rest, mem = s ++ 0 :: rest

variable {info : Info} {mem : Mem} {s : Str} {sym : UInt8}

theorem array_removed {before after rest : Mem} (h0 : 0 ∉ before ++ sym :: after)
    (hbefore : sym ∉ before) :
    updateModepfxArray info (before ++ sym :: after ++ 0 :: rest) sym false =
      .ok (true, before ++ (after ++ 0 :: 0 :: rest)) := by
  have hnone := fun hm => h0 (List.mem_append_left _ hm)
  have hafter := fun hm => h0 (List.mem_append_right _ (List.mem_cons_of_mem _ hm))
  rw [List.append_assoc, List.cons_append, updateModepfxArray, findByte_found hnone hbefore]
  simp only [bind, Except.bind, Option.isSome_some, Bool.false_eq_true, if_false]
  rw [poke_at]
  dsimp only
  rw [closeGap_moves hafter]
  simp
  omega

theorem array_inserted {rest : Mem} {j : UInt8} (h0 : 0 ∉ s) (hsym : sym ≠ 0) (hmem : sym ∉ s)
    (hlen : s.length + 1 < MAX_MODEPFX) :
    let before := s.takeWhile (stronger info · sym)
    updateModepfxArray info (s ++ 0 :: j :: rest) sym true =
      .ok (true, before ++ sym :: s.drop before.length ++ 0 :: rest) := by
  intro before
  have hsplit : before ++ s.drop before.length = s := by
    rw [drop_takeWhile, List.takeWhile_append_dropWhile]
  generalize s.drop before.length = after at hsplit ⊢
  have hafter : 0 ∉ after := fun hm => h0 (hsplit ▸ List.mem_append_right _ hm)
  have hrest : (s ++ 0 :: j :: rest).drop before.length = after ++ 0 :: j :: rest := by
    rw [← hsplit, List.append_assoc, List.drop_left]
  have hmove := openGap_moves before (after ++ [0]) j sym rest
  rw [List.length_append, List.length_singleton, ← Nat.add_assoc, List.append_assoc,
    List.append_assoc,
    List.singleton_append, ← List.append_assoc, hsplit] at hmove
  rw [updateModepfxArray, findByte_missing h0 hmem hsym]
  simp only [bind, Except.bind, Option.isSome_none, Bool.true_eq_false, if_false] at hmove ⊢
  rw [strlen_terminated h0]
  dsimp only
  rw [if_neg (Nat.not_le_of_lt hlen), findPlace_weaker h0]
  dsimp only
  rw [hrest, strlen_terminated hafter]
  dsimp only
  cases hgap : openGap before.length (before.length + after.length + 1) (s ++ 0 :: j :: rest) with
  | error e =>
    rw [hgap] at hmove
    cases hmove
  | ok mem =>
    rw [hgap] at hmove
    dsimp only at hmove ⊢
    rw [hmove, List.append_assoc]
    rfl

theorem inserted_perm (info : Info) (s : Str) (sym : UInt8) :
    (s.takeWhile (stronger info · sym) ++ sym :: s.drop
      (s.takeWhile (stronger info · sym)).length).Perm
      (sym :: s) := by
  rw [drop_takeWhile]
  refine List.perm_middle.trans ?_
  rw [List.takeWhile_append_dropWhile]

/-- The function on the array does what its description on strings does. -/
theorem updateModepfxArray_refines (h : Holds mem s) (hsym : sym ≠ 0) (enab : Bool) :
    ∃ mem', updateModepfxArray info mem sym enab =
      .ok ((updatedModepfx info s sym enab).isSome, mem') ∧
      Holds mem' ((updatedModepfx info s sym enab).getD s) ∧
      ((updatedModepfx info s sym enab).isSome = false → mem' = mem) := by
  obtain ⟨hsize, h0, rest, rfl⟩ := h
  rw [updatedModepfx]
  by_cases hmem : sym ∈ s
  · obtain ⟨before, after, rfl, hbefore⟩ := List.eq_append_cons_of_mem hmem
    rw [strchr_at hsym hbefore]
    cases enab with
    | false =>
      have hsub : (before ++ after).Sublist (before ++ sym :: after) :=
        List.Sublist.append_left (List.sublist_cons_self sym after) before
      refine ⟨_, array_removed h0 hbefore, ⟨?_, ?_, 0 :: rest, ?_⟩, fun hno => by cases hno⟩
      · rw [← hsize]
        simp
        omega
      · simpa using fun hm => h0 (hsub.subset hm)
      · simp
    | true =>
      refine ⟨_, ?_, ⟨hsize, h0, rest, rfl⟩, fun _ => rfl⟩
      rw [updateModepfxArray, List.append_assoc, List.cons_append,
        findByte_found (fun hm => h0 (List.mem_append_left _ hm)) hbefore]
      rfl
  · rw [strchr_missing hsym hmem]
    by_cases hfits : enab = true ∧ s.length + 1 < MAX_MODEPFX
    · obtain ⟨rfl, hlen⟩ := hfits
      obtain ⟨j, rest, rfl⟩ : ∃ j rest', rest = j :: rest' := by
        cases rest with
        | nil =>
          rw [List.length_append, List.length_singleton] at hsize
          omega
        | cons j rest => exact ⟨j, rest, rfl⟩
      have hperm := inserted_perm info s sym
      rw [if_neg (by simp; omega)]
      refine ⟨_, array_inserted h0 hsym hmem hlen, ⟨?_, fun hm => ?_, rest, rfl⟩,
        fun hno => by cases hno⟩
      · rw [List.length_append, hperm.length_eq, ← hsize, List.length_append]
        simp only [List.length_cons]
        omega
      · obtain he | hm := List.mem_cons.1 (hperm.subset hm)
        · exact hsym he.symm
        · exact h0 hm
    · have hnone : (!enab) = true ∨ MAX_MODEPFX ≤ s.length + 1 := by
        cases enab with
        | false => exact Or.inl rfl
        | true => exact Or.inr (Nat.le_of_not_lt fun hlt => hfits ⟨rfl, hlt⟩)
      rw [if_pos hnone]
      refine ⟨_, ?_, ⟨hsize, h0, rest, rfl⟩, fun _ => rfl⟩
      rw [updateModepfxArray, findByte_missing h0 hmem hsym]
      cases enab with
      | false => rfl
      | true =>
        have hfull : MAX_MODEPFX ≤ s.length + 1 := hnone.resolve_left (by decide)
        simp only [bind, Except.bind, Option.isSome_none, Bool.true_eq_false, if_false]
        rw [strlen_terminated h0]
        exact if_pos hfull

structure Changed (syms : Str) (sym : UInt8) (enab : Bool) (s s' : Str) : Prop where
  ranked : Ranked syms s'
  has : sym ∈ s' ↔ enab = true
  others : ∀ c, c ≠ sym → (c ∈ s' ↔ c ∈ s)

def Refused (s : Str) (sym : UInt8) (enab : Bool) : Prop :=
  (sym ∈ s ↔ enab = true) ∨ enab = true ∧ 7 < s.length + 1

theorem updatedModepfx_none (hsym : sym ≠ 0) (s : Str) (enab : Bool) :
    updatedModepfx info s sym enab = none ↔ Refused s sym enab := by
  have hmax : MAX_MODEPFX = 8 := rfl
  rw [updatedModepfx, Refused]
  by_cases hmem : sym ∈ s
  · obtain ⟨i, hi⟩ := Option.isSome_iff_exists.1 ((isSome_strchr hsym).2 hmem)
    rw [hi]
    cases enab <;> simp [hmem]
  · rw [strchr_missing hsym hmem]
    cases enab with
    | false => simp [hmem]
    | true =>
      simp only [hmem, false_iff, Bool.not_true, Bool.false_eq_true, false_or, not_true_eq_false,
        true_and, hmax]
      split
      · exact iff_of_true rfl (by omega)
      · exact iff_of_false (by simp) (by omega)

theorem updatedModepfx_changed {s' : Str} {enab : Bool} (h0 : 0 ∉ info.m005modepfx.2)
    (hs : Ranked info.m005modepfx.2 s) (hsym : sym ∈ info.m005modepfx.2)
    (h : updatedModepfx info s sym enab = some s') : Changed info.m005modepfx.2 sym enab s s' := by
  have hsym0 : sym ≠ 0 := fun he => h0 (he ▸ hsym)
  have hs0 : 0 ∉ s := fun hm => h0 (hs.known 0 hm)
  have hranked := (updated_kept ⟨hs, hs0⟩ (fun _ => hsym) h).1
  by_cases hmem : sym ∈ s
  · obtain ⟨before, after, rfl, hbefore⟩ := List.eq_append_cons_of_mem hmem
    rw [updatedModepfx, strchr_at hsym0 hbefore] at h
    cases enab with
    | true => cases h
    | false =>
      have hafter : sym ∉ after := (List.nodup_cons.1 (List.nodup_append.1 hs.distinct).2.1).1
      have htake : (before ++ sym :: after).take before.length = before := List.take_left
      have hdrop : (before ++ sym :: after).drop (before.length + 1) = after := by
        rw [← List.drop_drop, List.drop_left, List.drop_one, List.tail_cons]
      dsimp only at h
      rw [htake, hdrop, if_neg Bool.false_ne_true, Option.some.injEq] at h
      obtain rfl := h
      exact ⟨hranked, by simp [hbefore, hafter], fun c hc => by simp [hc]⟩
  · rw [updatedModepfx, strchr_missing hsym0 hmem] at h
    dsimp only at h
    split at h
    · cases h
    · next hfits =>
      obtain rfl : enab = true := by
        cases enab with
        | true => rfl
        | false => exact absurd (Or.inl rfl) hfits
      rw [Option.some.injEq] at h
      obtain rfl := h
      have hperm := inserted_perm info s sym
      refine ⟨hranked, iff_of_true (hperm.symm.subset List.mem_cons_self) rfl, fun c hc => ?_⟩
      rw [hperm.mem_iff, List.mem_cons, or_iff_right hc]

/-- The prefix of a member is kept canonical. -/
theorem updateModepfx_canonical (h0 : 0 ∉ info.m005modepfx.2) (h : Holds mem s)
    (hs : Ranked info.m005modepfx.2 s) (hsym : sym ∈ info.m005modepfx.2) (enab : Bool) :
    ∃ ok mem', updateModepfxArray info mem sym enab = .ok (ok, mem') ∧
      (Refused s sym enab → ok = false ∧ mem' = mem) ∧
      (¬Refused s sym enab → ok = true ∧ ∃ s', Holds mem' s' ∧
        Changed info.m005modepfx.2 sym enab s s') := by
  have hsym0 : sym ≠ 0 := fun he => h0 (he ▸ hsym)
  obtain ⟨mem', hrun, hholds, hsame⟩ := updateModepfxArray_refines h hsym0 enab
  refine ⟨_, mem', hrun, fun href => ?_, fun hno => ?_⟩
  · rw [(updatedModepfx_none hsym0 s enab).2 href] at hsame ⊢
    exact ⟨rfl, hsame rfl⟩
  · cases hup : updatedModepfx info s sym enab with
    | none => exact absurd ((updatedModepfx_none hsym0 s enab).1 hup) hno
    | some s' =>
      rw [hup] at hholds
      exact ⟨rfl, s', hholds, updatedModepfx_changed h0 hs hsym hup⟩

theorem updateModepfx_canonical_op : ∃ ok mem',
    updateModepfxArray .init [0x2b, 0, 1, 2, 3, 4, 5, 6] 0x40 true = .ok (ok, mem') ∧
      (Refused [0x2b] 0x40 true → ok = false ∧ mem' = [0x2b, 0, 1, 2, 3, 4, 5, 6]) ∧
      (¬Refused [0x2b] 0x40 true → ok = true ∧
        ∃ s', Holds mem' s' ∧ Changed Info.init.m005modepfx.2 0x40 true [0x2b] s') :=
  @updateModepfx_canonical .init _ [0x2b] 0x40 (by decide +kernel) ⟨rfl,
    by decide, [1, 2, 3, 4, 5, 6], rfl⟩
    (by decide +kernel) (by decide +kernel) true

/-- In a base, where the prefix is a string, the same is stored. -/
theorem updateModepfx_stored {b : Base} {c : Ptr} {ch : Chan} {nick : Str} {m : Memb}
    (hc : b.chan c = .ok ch)
    (hm : ch.memb.get nick = some m) (h : Holds mem m.modepfx) (hsym : sym ≠ 0) (enab : Bool) :
    ∃ ok mem' s', updateModepfxArray info mem sym enab = .ok (ok, mem') ∧ Holds mem' s' ∧
      updateModepfx info b c nick sym enab =
        .ok (if ok then b.setChan c { ch with memb := ch.memb.store nick { m with modepfx := s' } }
          else b) := by
  obtain ⟨mem', hrun, hholds, _⟩ := @updateModepfxArray_refines info _ _ _ h hsym enab
  refine ⟨_, mem', _, hrun, hholds, ?_⟩
  rw [updateModepfx, hc]
  simp only [bind, Except.bind, hm]
  cases updatedModepfx info m.modepfx sym enab <;> rfl

end Srsirc.PrefixArray
