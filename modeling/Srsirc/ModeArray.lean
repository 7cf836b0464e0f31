import Srsirc.BoundedStore
import Srsirc.ChannelModes

namespace Srsirc.ModeArray

open CharMap Memory Message ReadBuffer ServerInfo ChannelModes BoundedStore
open BucketList (Alloc)

/-- The loop's variables: the count of results, the array for them, the place of the next one,
the sign in force and the place of the next argument. -/
structure Scan where
  nummodes : Nat
  modearr : List (Option Mem)
  j : Nat
  enable : Bool
  i : Nat

def modeBlock (enable : Bool) (c : UInt8) (arg : Option Str) : Except Fault Mem := do
  let size := match arg with
    | some arg => 3 + (arg.length + 1)
    | none => 3
  let block := List.replicate size 0
  let block ← store block 0 [if enable then 0x2b else 0x2d]
  let block ← store block 1 [c]
  let block ← store block 2 [if arg.isSome then 0x20 else 0]
  match arg with
  | some arg => store block 3 (arg ++ [0])
  | none => .ok block

/-- `modearr[j] = block`. -/
def Scan.put (st : Scan) (i : Nat) (block : Mem) : Except Fault Scan :=
  if st.j < st.modearr.length then
    .ok { st with modearr := st.modearr.set st.j (some block), j := st.j + 1, i }
  else .error .overrun

/-- The loop of `lsi_ut_parse_MODE` over the modes. -/
def scanModes (info : Info) (msg : Msg) (ac : Nat) :
    Str → Scan → Alloc → Except Fault (Option (List (Option Mem) × Nat) × Alloc)
  | [], st, al => .ok (some (st.modearr, st.nummodes), al)
  | c :: s, st, al =>
    if c = 0x2b then scanModes info msg ac s { st with enable := true } al
    else if c = 0x2d then scanModes info msg ac s { st with enable := false } al
    else
      match takesArg info st.enable c with
      | none => scanModes info msg ac s { st with nummodes := st.nummodes - 1 } al
      | some withArg => do
        let (arg, i) ← if withArg then (modeArg msg ac st.i).map fun r => (some r.1, r.2)
            else .ok (none, st.i)
        match BucketList.malloc al with
        | (false, al) => .ok (none, al)
        | (true, al) => do
          let block ← modeBlock st.enable c arg
          let st ← st.put i block
          scanModes info msg ac s st al

/-- `lsi_ut_parse_MODE`, with the array it returns and `*num`. -/
def parseMODEArray (info : Info) (msg : Msg) (is324 : Bool) (al : Alloc) :
    Except Fault (Option (List (Option Mem) × Nat) × Alloc) := do
  let k := if is324 then 1 else 0
  let modes ← msg.fld (3 + k)
  match BucketList.malloc al with
  | (false, al) => .ok (none, al)
  | (true, al) =>
    let nummodes := modes.length - (modes.count 0x2d + modes.count 0x2b)
    match BucketList.malloc al with
    | (false, al) => .ok (none, al)
    | (true, al) =>
      scanModes info msg msg.nargs modes ⟨nummodes, List.replicate nummodes none, 0, true, 4 + k⟩ al

def text (m : ModeChange) : Mem := (if m.enab then 0x2b else 0x2d) :: (m.modestr ++ [0])

theorem modeBlock_text (m : ModeChange) : modeBlock m.enab m.mode m.arg = .ok (text m) := by
  obtain ⟨enab, mode, arg⟩ := m
  cases arg with
  | none => rfl
  | some arg =>
    have hsize :
        (List.replicate (3 + (arg.length + 1)) (0 : UInt8)).length = 3 + (arg.length + 1) :=
      List.length_replicate
    rw [modeBlock]
    dsimp only
    rw [store_ok (by rw [hsize, List.length_singleton]; omega)]
    simp only [bind, Except.bind]
    rw [store_behind (s := [_]) (p := 1) rfl (by rw [hsize, List.length_singleton]; omega)]
    dsimp only
    rw [store_behind (s := [_] ++ [_]) (p := 2) rfl (by rw [hsize, List.length_singleton]; omega)]
    dsimp only
    rw [store_behind (s := [_] ++ [_] ++ [_]) (p := 3) rfl (by rw [hsize]; simp), overwrite_whole]
    · rfl
    · rw [hsize]
      simp
      omega

variable {info : Info} {msg : Msg} {ac : Nat} {s : Str}

def filled (front : List Mem) (r : Nat) (ms : List ModeChange) : List (Option Mem) × Nat :=
  ((front ++ ms.map text).map some ++ List.replicate (r - ms.length) none, front.length + ms.length)

def isSign (c : UInt8) : Bool := c == 0x2b || c == 0x2d

theorem filled_cons (front : List Mem) (r : Nat) (m : ModeChange) (ms : List ModeChange) :
    filled (front ++ [text m]) r ms = filled front (r + 1) (m :: ms) := by
  simp only [filled, List.map_cons, List.length_cons, List.length_append, List.length_nil,
    List.append_assoc,
    List.cons_append, List.nil_append, Nat.add_sub_add_right]
  congr 1
  omega

theorem put_block {st : Scan} {front : List Mem} {r : Nat} (hj : st.j = front.length)
    (harr : st.modearr = front.map some ++ List.replicate (r + 1) none) (i : Nat) (block : Mem) :
    st.put i block = .ok { st with
      modearr := (front ++ [block]).map some ++ List.replicate r none, j :=
        front.length + 1, i } := by
  have hlt : st.j < st.modearr.length := by
    rw [hj, harr, List.length_append, List.length_map, List.length_replicate]
    omega
  have hset :
      st.modearr.set st.j (some block) = (front ++ [block]).map some ++ List.replicate r none := by
    rw [harr, hj, List.set_append_right _ _ (by rw [List.length_map]), List.length_map,
      Nat.sub_self,
      List.replicate_succ, List.set_cons_zero]
    simp
  rw [Scan.put, if_pos hlt, hset, hj]

/-- The array is filled from the front, with the mode changes in their order. -/
theorem scanModes_filled {st : Scan} {front : List Mem} {r : Nat} (hj : st.j = front.length)
    (harr : st.modearr = front.map some ++ List.replicate r none)
    (hr : (s.filter fun c => !isSign c).length ≤ r)
    (hnum : st.nummodes = front.length + (s.filter fun c => !isSign c).length) (al : Alloc) :
    scanModes info msg ac s st al =
      (parseModes info msg ac s st.enable st.i al).map fun x => (x.1.map (filled front r), x.2) := by
  induction s generalizing st front r al with
  | nil =>
    rw [scanModes, parseModes, harr, hnum]
    simp [Except.map, filled]
  | cons c s ih =>
    rw [scanModes, parseModes]
    by_cases hplus : c = 0x2b
    · rw [if_pos hplus, if_pos hplus]
      rw [List.filter_cons_of_neg (by simp [isSign, hplus])] at hr hnum
      exact @ih { st with enable := true } front r hj harr hr hnum al
    by_cases hminus : c = 0x2d
    · rw [if_neg hplus, if_neg hplus, if_pos hminus, if_pos hminus]
      rw [List.filter_cons_of_neg (by simp [isSign, hminus])] at hr hnum
      exact @ih { st with enable := false } front r hj harr hr hnum al
    rw [if_neg hplus, if_neg hplus, if_neg hminus, if_neg hminus]
    rw [List.filter_cons_of_pos (by simp [isSign, hplus, hminus]), List.length_cons] at hr hnum
    cases htakes : takesArg info st.enable c with
    | none =>
      exact @ih { st with nummodes := st.nummodes - 1 } front r hj harr (by omega)
        (by dsimp only; omega) al
    | some withArg =>
      obtain ⟨r, rfl⟩ : ∃ r', r = r' + 1 := ⟨r - 1, by omega⟩
      -- what is done once the argument is known
      have hnext : ∀ (arg : Option Str) (i : Nat),
          (BucketList.allocated al fun al => do
            let block ← modeBlock st.enable c arg
            let st ← st.put i block
            scanModes info msg ac s st al) =
          Except.map (fun x => (x.1.map (filled front (r + 1)), x.2))
            (BucketList.allocated al fun al => do
              let x ← parseModes info msg ac s st.enable i al
              .ok (x.1.map (⟨st.enable, c, arg⟩ :: ·), x.2)) := by
        intro arg i
        rw [BucketList.allocated, BucketList.allocated]
        cases BucketList.malloc al with
        | mk ok al =>
          cases ok with
          | false => rfl
          | true =>
            dsimp only
            rw [modeBlock_text ⟨st.enable, c, arg⟩]
            simp only [bind, Except.bind]
            rw [put_block hj harr]
            dsimp only
            rw [@ih _ (front ++ [text ⟨st.enable, c, arg⟩]) r (by simp) rfl (by omega)
              (by simp; omega) al]
            cases parseModes info msg ac s st.enable i al with
            | error e => rfl
            | ok x =>
              obtain ⟨_ | ms, al⟩ := x
              · rfl
              · simp only [Except.map, Option.map_some, filled_cons]
      cases withArg with
      | false => exact hnext none st.i
      | true =>
        simp only [if_true]
        cases modeArg msg ac st.i with
        | error e => rfl
        | ok x => exact hnext (some x.1) x.2

theorem nummodes_eq (s : Str) :
    s.length - (s.count 0x2d + s.count 0x2b) = (s.filter fun c => !isSign c).length := by
  suffices h :
      s.length = (s.count 0x2d + s.count 0x2b) + (s.filter fun c => !isSign c).length by omega
  induction s with
  | nil => rfl
  | cons c s ih =>
    by_cases hplus : c = 0x2b
    · rw [List.filter_cons_of_neg (by simp [isSign, hplus]), hplus, List.count_cons_self,
        List.count_cons_of_ne (by decide), List.length_cons]
      omega
    by_cases hminus : c = 0x2d
    · rw [List.filter_cons_of_neg (by simp [isSign, hminus]), hminus, List.count_cons_self,
        List.count_cons_of_ne (by decide), List.length_cons]
      omega
    rw [List.filter_cons_of_pos (by simp [isSign, hplus, hminus]), List.count_cons_of_ne hplus,
      List.count_cons_of_ne hminus, List.length_cons, List.length_cons]
    omega

/-- The function on the array does what its description in terms of lists does. -/
theorem parseMODEArray_filled {is324 : Bool} {word : Str}
    (hword : msg.fld (3 + if is324 then 1 else 0) = .ok word)
    (al : Alloc) : parseMODEArray info msg is324 al =
      (parseMODE info msg is324 al).map fun x =>
        (x.1.map (filled [] (word.filter fun c => !isSign c).length), x.2) := by
  rw [parseMODEArray, parseMODE]
  simp only [hword, bind, Except.bind]
  obtain ⟨_ | _, al⟩ := BucketList.malloc al
  · rfl
  · dsimp only
    obtain ⟨_ | _, al⟩ := BucketList.malloc al
    · rfl
    · refine scanModes_filled rfl ?_ (Nat.le_refl _) ?_ al
      · rw [nummodes_eq]
        rfl
      · rw [nummodes_eq, List.length_nil, Nat.zero_add]

end Srsirc.ModeArray
