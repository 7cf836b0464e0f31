import Mathlib.Data.List.GetD
import Mathlib.Data.List.ReduceOption
import Srsirc.CoreHandlers
import Srsirc.Fallible

namespace Srsirc.CloneArray

open CharMap HeapCells Memory Message Fallible
open BucketList (Alloc)

inductive Block
  | arr (slots : List (Option Ptr))
  | str (s : Str)

/-- The blocks, the allocations still to come, and what was passed to `free`. -/
structure Store where
  heap : Heap Block
  al : Alloc
  freed : List Ptr

def Store.malloc (m : Store) (block : Block) : Option Ptr × Store :=
  match BucketList.malloc m.al with
  | (false, al) => (none, { m with al })
  | (true, al) => (some m.heap.next, { m with heap := m.heap.new block, al })

/-- `free`, which does nothing to a null pointer. -/
def Store.free (m : Store) : Option Ptr → Except Fault Store
  | none => .ok m
  | some p =>
    match m.heap.get p with
    | none => .error .doubleFree
    | some _ => .ok { m with heap := m.heap.free p, freed := m.freed ++ [p] }

/-- `(*res)[i] = p`. -/
def Store.setSlot (m : Store) (res : Ptr) (i : Nat) (p : Option Ptr) : Except Fault Store :=
  match m.heap.get res with
  | some (.arr slots) => .ok { m with heap := m.heap.set res (.arr (slots.set i p)) }
  | _ => .error .badPtr

/-- `(*res)[i]`. -/
def Store.slot (m : Store) (res : Ptr) (i : Nat) : Except Fault (Option Ptr) :=
  match m.heap.get res with
  | some (.arr slots) => .ok (slots.getD i none)
  | _ => .error .badPtr

def COUNTOF : Nat := 18

/-- The loop of `lsi_ut_freearr`, over `k` slots from `i` on. -/
def freeSlots (arr : Ptr) : Nat → Nat → Store → Except Fault Store
  | 0, _, m => .ok m
  | k + 1, i, m => do
    let p ← m.slot arr i
    let m ← m.free p
    freeSlots arr k (i + 1) m

/-- `lsi_ut_freearr`. -/
def freearr (arr : Ptr) (m : Store) : Except Fault Store := do
  let m ← freeSlots arr COUNTOF 0 m
  m.free (some arr)

/-- The loop of `lsi_ut_clonearr` from slot `i` on, which tells whether it got to the end. -/
def copySlots (res : Ptr) : List (Option Str) → Nat → Store → Except Fault (Bool × Store)
  | [], _, m => .ok (true, m)
  | none :: arr, i, m => do
    let m ← m.setSlot res i none
    copySlots res arr (i + 1) m
  | some s :: arr, i, m => do
    let (p, m) := m.malloc (.str s)
    let m ← m.setSlot res i p
    if p.isNone then .ok (false, m) else copySlots res arr (i + 1) m

/-- `lsi_ut_clonearr`, where `junk` is what the new array holds at first. -/
def clonearr (junk : List (Option Ptr)) (arr : List (Option Str)) (m : Store) :
    Except Fault (Option Ptr × Store) :=
  match m.malloc (.arr junk) with
  | (none, m) => .ok (none, m)
  | (some res, m) => do
    let (ok, m) ← copySlots res arr 0 m
    if ok then .ok (some res, m)
    else do
      let m ← freearr res m
      .ok (none, m)

/-- A slot of the copy: null where the original is, else a new block with an equal string. -/
def Copied (m m' : Store) : Option Str → Option Ptr → Prop
  | none, p => p = none
  | some s, p => ∃ q, p = some q ∧ m.heap.next ≤ q ∧ m'.heap.get q = some (.str s)

/-- An array of copies, in blocks of their own, or nothing at all: then the blocks that were
allocated meanwhile are freed, each once, and no other. -/
def AllOrNothing (arr : List (Option Str)) (m : Store) (r : Option Ptr × Store) : Prop :=
  (∀ p < m.heap.next, r.2.heap.get p = m.heap.get p) ∧
  match r.1 with
  | some res => m.heap.next ≤ res ∧ r.2.freed = m.freed ∧
      ∃ slots, r.2.heap.get res = some (.arr slots) ∧ List.Forall₂ (Copied m r.2) arr slots ∧
        slots.reduceOption.Nodup
  | none => ∃ fs, r.2.freed = m.freed ++ fs ∧
      fs.Perm (List.range' m.heap.next (r.2.heap.next - m.heap.next))

def copied : Alloc → List (Option Str) → List (Option Str)
  | _, [] => []
  | al, none :: arr => none :: copied al arr
  | al, some s :: arr =>
    match BucketList.malloc al with
    | (false, _) => []
    | (true, al) => some s :: copied al arr

/-- The pointers to copies that are made one after the other, the first of them at `n`. -/
def copies (n : Ptr) : List (Option Str) → List (Option Ptr)
  | [] => []
  | none :: arr => none :: copies n arr
  | some _ :: arr => some n :: copies (n + 1) arr

def state (h : Heap Block) (slots : List (Option Ptr)) (strs : List Str) : Heap Block :=
  ⟨h.cells ++ some (.arr slots) :: strs.map fun s => some (.str s)⟩

variable {h : Heap Block} {slots junk : List (Option Ptr)} {strs : List Str}
  {arr done : List (Option Str)} {al : Alloc} {freed : List Ptr} {n : Ptr}

theorem length_copies : (copies n arr).length = arr.length := by
  induction arr generalizing n with
  | nil => rfl
  | cons o arr ih => cases o <;> simp [copies, ih]

theorem copies_append (arr arr' : List (Option Str)) (n : Ptr) :
    copies n (arr ++ arr') = copies n arr ++ copies (n + arr.reduceOption.length) arr' := by
  induction arr generalizing n with
  | nil => rfl
  | cons o arr ih =>
    cases o with
    | none =>
      rw [List.cons_append, copies, ih, copies, List.reduceOption_cons_of_none, List.cons_append]
    | some s =>
      rw [List.cons_append, copies, ih, copies, List.reduceOption_cons_of_some, List.cons_append,
        List.length_cons, Nat.add_assoc, Nat.add_comm 1]

theorem reduce_copies (arr : List (Option Str)) (n : Ptr) :
    (copies n arr).reduceOption = List.range' n arr.reduceOption.length := by
  induction arr generalizing n with
  | nil => rfl
  | cons o arr ih =>
    cases o with
    | none => rw [copies, List.reduceOption_cons_of_none, ih, List.reduceOption_cons_of_none]
    | some s =>
      rw [copies, List.reduceOption_cons_of_some, ih, List.reduceOption_cons_of_some,
        List.length_cons, List.range'_succ]

theorem next_state : (state h slots strs).next = h.next + 1 + strs.length := by
  rw [Heap.next, state, List.length_append, List.length_cons, List.length_map, Heap.next,
    Nat.add_right_comm, Nat.add_assoc]

theorem get_state_old {p : Ptr} (hp : p < h.next) : (state h slots strs).get p = h.get p := by
  rw [Heap.get, state, List.getElem?_append_left hp, Heap.get]

theorem get_state_arr : (state h slots strs).get h.next = some (.arr slots) := by
  rw [Heap.get, state, Heap.next, List.getElem?_append_right (Nat.le_refl _), Nat.sub_self]
  rfl

theorem get_state_str {i : Nat} {s : Str} (hs : strs[i]? = some s) :
    (state h slots strs).get (h.next + 1 + i) = some (.str s) := by
  rw [Heap.get, state, Heap.next, List.getElem?_append_right (by omega),
    show h.cells.length + 1 + i - h.cells.length = i + 1 by omega, List.getElem?_cons_succ,
    List.getElem?_map, hs]
  rfl

theorem set_state (slots' : List (Option Ptr)) :
    (state h slots strs).set h.next (.arr slots') = state h slots' strs := by
  rw [Heap.set, state, Heap.next, List.set_append_right _ _ (Nat.le_refl _), Nat.sub_self]
  rfl

theorem new_state (s : Str) : (state h slots strs).new (.str s) = state h slots (strs ++ [s]) := by
  rw [Heap.new, state, state, List.map_append, List.append_assoc]
  rfl

theorem setSlot_state {o p : Option Ptr} (hi : slots.length = n) :
    Store.setSlot ⟨state h (slots ++ o :: junk) strs, al, freed⟩ h.next n p =
      .ok ⟨state h (slots ++ p :: junk) strs, al, freed⟩ := by
  rw [Store.setSlot]
  dsimp only
  rw [get_state_arr]
  dsimp only
  rw [set_state, List.set_append_right _ _ (Nat.le_of_eq hi), hi, Nat.sub_self,
    List.set_cons_zero]

theorem malloc_refused {m : Store} (hal : BucketList.malloc m.al = (false, al)) (block : Block) :
    m.malloc block = (none, { m with al }) := by
  rw [Store.malloc, hal]

theorem malloc_granted {m : Store} (hal : BucketList.malloc m.al = (true, al)) (block : Block) :
    m.malloc block = (some m.heap.next, { m with heap := m.heap.new block, al }) := by
  rw [Store.malloc, hal]

theorem copySlots_state (hj : junk.length = arr.length) :
    ∃ al', copySlots h.next arr done.length
        ⟨state h (copies (h.next + 1) done ++ junk) done.reduceOption, al, freed⟩ =
      .ok (if (copied al arr).length = arr.length then
        (true, ⟨state h (copies (h.next + 1) (done ++ arr)) (done ++ arr).reduceOption, al', freed⟩)
      else
        (false, ⟨state h (copies (h.next + 1) (done ++ copied al arr) ++
          none :: junk.drop ((copied al arr).length + 1))
          (done ++ copied al arr).reduceOption, al', freed⟩)) := by
  induction arr generalizing done junk al with
  | nil =>
    obtain rfl := List.length_eq_zero_iff.1 hj
    refine ⟨al, ?_⟩
    rw [copySlots, List.append_nil, List.append_nil]
    rfl
  | cons o arr ih =>
    cases junk with
    | nil => cases hj
    | cons j junk =>
      have hj' : junk.length = arr.length := Nat.succ.inj hj
      have hlen : (done ++ [o]).length = done.length + 1 := List.length_append
      cases o with
      | none =>
        have hnext : copies (h.next + 1) (done ++ [none]) = copies (h.next + 1) done ++ [none] :=
          copies_append _ _ _
        have hred : (done ++ [none]).reduceOption = done.reduceOption := by
          rw [List.reduceOption_append]
          exact List.append_nil _
        obtain ⟨al', hrest⟩ := @ih junk (done ++ [none]) al hj'
        simp only [hlen, hnext, hred, List.append_assoc, List.singleton_append] at hrest
        refine ⟨al', ?_⟩
        rw [copySlots, setSlot_state length_copies]
        simp only [copied, List.length_cons, Nat.add_right_cancel_iff, List.drop_succ_cons]
        exact hrest
      | some s =>
        obtain ⟨ok, al₁, hal⟩ : ∃ ok al₁, BucketList.malloc al = (ok, al₁) := ⟨_, _, rfl⟩
        cases ok with
        | false =>
          have hstop : copied al (some s :: arr) = [] := by rw [copied, hal]
          refine ⟨al₁, ?_⟩
          rw [copySlots, malloc_refused hal, hstop, if_neg (by simp)]
          dsimp only
          rw [setSlot_state length_copies, List.append_nil]
          rfl
        | true =>
          have hgo : copied al (some s :: arr) = some s :: copied al₁ arr := by rw [copied, hal]
          have hnext : copies (h.next + 1) (done ++ [some s]) =
              copies (h.next + 1) done ++ [some (h.next + 1 + done.reduceOption.length)] :=
            copies_append _ _ _
          have hred : (done ++ [some s]).reduceOption = done.reduceOption ++ [s] :=
            List.reduceOption_append _ _
          obtain ⟨al', hrest⟩ := @ih junk (done ++ [some s]) al₁ hj'
          simp only [hlen, hnext, hred, List.append_assoc, List.singleton_append] at hrest
          refine ⟨al', ?_⟩
          rw [copySlots, malloc_granted hal, hgo]
          dsimp only
          rw [new_state, next_state, setSlot_state length_copies]
          simp only [List.length_cons, Nat.add_right_cancel_iff, List.drop_succ_cons]
          exact hrest

section Free

variable {m m' : Store} {res : Ptr}

/-- What `free` does to the blocks: one is gone, and the others are as before. -/
theorem free_cases {p : Option Ptr} (hm : m.free p = .ok m') :
    m'.freed = m.freed ++ p.toList ∧ m'.heap.next = m.heap.next ∧
      (∀ q, m'.heap.get q = none ∨ m'.heap.get q = m.heap.get q) ∧
      ∀ q, p ≠ some q → m'.heap.get q = m.heap.get q := by
  cases p with
  | none =>
    cases hm
    exact ⟨(List.append_nil _).symm, rfl, fun _ => Or.inr rfl, fun _ _ => rfl⟩
  | some p =>
    rw [Store.free] at hm
    cases hp : m.heap.get p with
    | none =>
      rw [hp] at hm
      cases hm
    | some block =>
      rw [hp] at hm
      cases hm
      refine ⟨rfl, List.length_set, fun q => ?_, fun q hq => ?_⟩
      · rw [get_free, Function.update_apply]
        split
        · exact Or.inl rfl
        · exact Or.inr rfl
      · rw [get_free, Function.update_of_ne]
        rintro rfl
        exact hq rfl

theorem free_live {p : Option Ptr} (hp : ∀ q, p = some q → (m.heap.get q).isSome) :
    ∃ m', m.free p = .ok m' := by
  cases p with
  | none => exact ⟨m, rfl⟩
  | some p =>
    obtain ⟨block, hblock⟩ := Option.isSome_iff_exists.1 (hp p rfl)
    rw [Store.free, hblock]
    exact ⟨_, rfl⟩

theorem freeSlots_log {k i : Nat} (hk : i + k ≤ slots.length)
    (hres : ∀ block, m.heap.get res = some block → block = .arr slots) :
    Ensures (freeSlots res k i m) fun m' =>
      m'.freed = m.freed ++ ((slots.drop i).take k).reduceOption ∧
        m'.heap.next = m.heap.next := by
  induction k generalizing i m with
  | zero => exact Ensures.ok ⟨(List.append_nil _).symm, rfl⟩
  | succ k ih =>
    refine Ensures.bind_of fun p hp => Ensures.bind_of fun m₁ hm₁ => ?_
    obtain ⟨hfreed, hnext, hget, -⟩ := free_cases hm₁
    have hslot : slots.drop i = p :: slots.drop (i + 1) := by
      rw [Store.slot] at hp
      split at hp
      · next slots' harr =>
        obtain rfl : slots' = slots := by
          injection hres _ harr
        cases hp
        rw [List.getD_eq_getElem _ _ (by omega), List.drop_eq_getElem_cons]
      · cases hp
    refine (@ih m₁ (i + 1) (by omega) ?_).mono fun m₂ hm₂ => ?_
    · intro block hblock
      obtain hnone | hsame := hget res
      · rw [hnone] at hblock
        cases hblock
      · exact hres block (hsame ▸ hblock)
    · refine ⟨?_, hm₂.2.trans hnext⟩
      rw [hm₂.1, hfreed, hslot, List.take_succ_cons, List.append_assoc]
      cases p <;> rfl

/-- Where all that the slots hold is live and held once, and the array is not among it, all of it
can be freed. -/
theorem freeSlots_live {k i : Nat} (hk : i + k ≤ slots.length)
    (hres : m.heap.get res = some (.arr slots))
    (hnodup : ((slots.drop i).take k).reduceOption.Nodup)
    (hlive : ∀ q ∈ ((slots.drop i).take k).reduceOption, q ≠ res ∧ (m.heap.get q).isSome) :
    Returns (freeSlots res k i m) fun m' =>
      ∀ q, q ∉ ((slots.drop i).take k).reduceOption → m'.heap.get q = m.heap.get q := by
  induction k generalizing i m with
  | zero => exact Returns.ok fun _ _ => rfl
  | succ k ih =>
    have hi : i < slots.length := by omega
    have hslot : (slots.drop i).take (k + 1) = slots[i] :: (slots.drop (i + 1)).take k := by
      rw [List.drop_eq_getElem_cons hi, List.take_succ_cons]
    have hread : m.slot res i = .ok slots[i] := by
      rw [Store.slot, hres]
      dsimp only
      rw [List.getD_eq_getElem _ _ hi]
    have hfree : ∀ q, slots[i] = some q → q ≠ res ∧ (m.heap.get q).isSome := by
      intro q hq
      refine hlive q ?_
      rw [hslot, hq, List.reduceOption_cons_of_some]
      exact List.mem_cons_self
    obtain ⟨m₁, hm₁⟩ := free_live fun q hq => (hfree q hq).2
    obtain ⟨-, -, -, hother⟩ := free_cases hm₁
    have hkeep : ∀ q ∈ ((slots.drop (i + 1)).take k).reduceOption, slots[i] ≠ some q := by
      intro q hq heq
      rw [hslot, heq, List.reduceOption_cons_of_some] at hnodup
      exact (List.nodup_cons.1 hnodup).1 hq
    have hsub : ∀ q, q ∈ ((slots.drop (i + 1)).take k).reduceOption →
        q ∈ ((slots.drop i).take (k + 1)).reduceOption := by
      intro q hq
      rw [hslot]
      exact List.reduceOption_mem_iff.2 (List.mem_cons_of_mem _ (List.reduceOption_mem_iff.1 hq))
    rw [freeSlots, hread, ok_bind, hm₁, ok_bind]
    refine (@ih m₁ (i + 1) (by omega) ?_ ?_ ?_).mono fun m₂ hm₂ q hq => ?_
    · rw [hother res fun heq => (hfree res heq).1 rfl, hres]
    · rw [hslot] at hnodup
      exact hnodup.sublist ((List.sublist_cons_self _ _).filterMap id)
    · intro q hq
      obtain ⟨hne, hsome⟩ := hlive q (hsub q hq)
      exact ⟨hne, hother q (hkeep q hq) ▸ hsome⟩
    · rw [hm₂ q fun hin => hq (hsub q hin), hother]
      intro heq
      rw [hslot, heq, List.reduceOption_cons_of_some] at hq
      exact hq List.mem_cons_self

end Free

theorem reduce_nil {l : List (Option Ptr)} : l.reduceOption = [] ↔ ∀ p ∈ l, p = none :=
  List.filterMap_eq_nil_iff

theorem copied_state (m : Store) {m' : Store} {pre : List Str}
    (hm : m'.heap = state m.heap slots (pre ++ arr.reduceOption)) :
    List.Forall₂ (Copied m m') arr (copies (m.heap.next + 1 + pre.length) arr) := by
  induction arr generalizing pre with
  | nil => exact List.Forall₂.nil
  | cons o arr ih =>
    cases o with
    | none => exact List.Forall₂.cons rfl (ih hm)
    | some s =>
      rw [List.reduceOption_cons_of_some] at hm
      refine List.Forall₂.cons ⟨_, rfl, (Nat.le_succ _).trans (Nat.le_add_right _ _), ?_⟩ ?_
      · rw [hm]
        exact get_state_str (by simp)
      · have hrest := @ih (pre ++ [s]) (by rw [hm, List.append_assoc]; rfl)
        rwa [List.length_append] at hrest

theorem allOrNothing_copied (m : Store) (arr : List (Option Str)) (al : Alloc) :
    AllOrNothing arr m (some m.heap.next,
      ⟨state m.heap (copies (m.heap.next + 1) arr) arr.reduceOption, al, m.freed⟩) := by
  refine ⟨fun p hp => get_state_old hp, Nat.le_refl _, rfl, _, get_state_arr, ?_, ?_⟩
  · exact @copied_state _ _ m _ [] rfl
  · rw [reduce_copies]
    exact List.nodup_range'

def unfinished (n : Ptr) (junk : List (Option Ptr)) (done : List (Option Str)) :
    List (Option Ptr) :=
  copies n done ++ none :: junk.drop (done.length + 1)

theorem length_unfinished (hd : done.length < junk.length) :
    (unfinished n junk done).length = junk.length := by
  rw [unfinished, List.length_append, length_copies, List.length_cons, List.length_drop]
  omega

theorem reduce_unfinished : (unfinished n junk done).reduceOption =
    List.range' n done.reduceOption.length ++ (junk.drop (done.length + 1)).reduceOption := by
  rw [unfinished, List.reduceOption_append, reduce_copies, List.reduceOption_cons_of_none]

section Failed

variable {m : Store} {m' : Store}

/-- The state when the copy behind `done` has failed. -/
def failed (m : Store) (junk : List (Option Ptr)) (done : List (Option Str)) (al : Alloc) : Store :=
  ⟨state m.heap (unfinished (m.heap.next + 1) junk done) done.reduceOption, al, m.freed⟩

theorem all_slots (hj : junk.length = COUNTOF) (hd : done.length < COUNTOF) :
    ((unfinished n junk done).drop 0).take COUNTOF = unfinished n junk done := by
  rw [List.drop_zero, List.take_of_length_le]
  rw [length_unfinished (hj ▸ hd), hj]

/-- What the destructor frees: the copies, whatever was in the slots behind, and the array. -/
theorem freearr_log (hj : junk.length = COUNTOF) (hd : done.length < COUNTOF)
    (hrun : freearr m.heap.next (failed m junk done al) = .ok m') :
    m'.freed = m.freed ++ (List.range' (m.heap.next + 1) done.reduceOption.length ++
        (junk.drop (done.length + 1)).reduceOption ++ [m.heap.next]) ∧
      m'.heap.next = m.heap.next + 1 + done.reduceOption.length := by
  obtain ⟨m₁, hslots, hlast⟩ := bind_ok_iff.1 hrun
  have harr : ∀ block, (failed m junk done al).heap.get m.heap.next = some block →
      block = .arr (unfinished (m.heap.next + 1) junk done) := by
    intro block hblock
    rw [failed, get_state_arr] at hblock
    exact (Option.some.inj hblock).symm
  obtain ⟨hfreed, hnext⟩ :=
    freeSlots_log (i := 0) (by rw [length_unfinished (hj ▸ hd), hj]; exact Nat.le_refl _)
      harr m₁ hslots
  obtain ⟨hfreed', hnext', -⟩ := free_cases hlast
  refine ⟨?_, ?_⟩
  · rw [hfreed', hfreed, all_slots hj hd, reduce_unfinished, failed, List.append_assoc,
      List.append_assoc, List.append_assoc]
    rfl
  · rw [hnext', hnext, failed, next_state]

theorem freearr_ok (hj : junk.length = COUNTOF) (hd : done.length < COUNTOF)
    (hnull : ∀ p ∈ junk.drop (done.length + 1), p = none) :
    Returns (freearr m.heap.next (failed m junk done al)) fun m' =>
      ∀ p < m.heap.next, m'.heap.get p = m.heap.get p := by
  have hred : (unfinished (m.heap.next + 1) junk done).reduceOption =
      List.range' (m.heap.next + 1) done.reduceOption.length := by
    rw [reduce_unfinished, reduce_nil.2 hnull, List.append_nil]
  have hres : (failed m junk done al).heap.get m.heap.next =
      some (.arr (unfinished (m.heap.next + 1) junk done)) := get_state_arr
  have hnot : ∀ q ≤ m.heap.next, q ∉ (unfinished (m.heap.next + 1) junk done).reduceOption := by
    intro q hq hin
    rw [hred, List.mem_range'_1] at hin
    exact absurd hin.1 (Nat.not_le.2 (Nat.lt_succ_of_le hq))
  have hslots : Returns (freeSlots m.heap.next COUNTOF 0 (failed m junk done al)) fun m' =>
      ∀ q, q ∉ (unfinished (m.heap.next + 1) junk done).reduceOption →
        m'.heap.get q = (failed m junk done al).heap.get q := by
    have hlive := @freeSlots_live _ (failed m junk done al) _ COUNTOF 0
      (by rw [length_unfinished (hj ▸ hd), hj]; exact Nat.le_refl _) hres
    rw [all_slots hj hd] at hlive
    refine hlive ?_ fun q hq => ?_
    · rw [hred]
      exact List.nodup_range'
    · rw [hred, List.mem_range'_1] at hq
      obtain ⟨i, rfl⟩ := Nat.exists_eq_add_of_le hq.1
      have hi : i < done.reduceOption.length := Nat.lt_of_add_lt_add_left hq.2
      refine ⟨Nat.ne_of_gt (Nat.lt_of_lt_of_le (Nat.lt_succ_self _) hq.1), ?_⟩
      rw [failed, get_state_str (List.getElem?_eq_getElem hi)]
      rfl
  refine hslots.bind fun m₁ hm₁ => ?_
  have harr := (hm₁ m.heap.next (hnot _ (Nat.le_refl _))).trans hres
  obtain ⟨m₂, hm₂⟩ := @free_live m₁ (some m.heap.next) fun q hq => by
    cases hq
    rw [harr]
    rfl
  refine ⟨m₂, hm₂, fun p hp => ?_⟩
  obtain ⟨-, -, -, hother⟩ := free_cases hm₂
  rw [hother p fun heq => Nat.ne_of_gt hp (Option.some.inj heq), hm₁ p (hnot p (Nat.le_of_lt hp)),
    failed, get_state_old hp]

theorem length_own (n : Ptr) (k : Nat) : n + 1 + k - n = k + 1 := by
  rw [Nat.add_assoc, Nat.add_sub_cancel_left, Nat.add_comm]

/-- What is freed are the blocks of this call just if the slots behind hold nothing. -/
theorem freearr_iff (hj : junk.length = COUNTOF) (hd : done.length < COUNTOF) :
    (∃ m', freearr m.heap.next (failed m junk done al) = .ok m' ∧
        AllOrNothing arr m (none, m')) ↔
      ∀ p ∈ junk.drop (done.length + 1), p = none := by
  constructor
  · rintro ⟨m', hrun, -, fs, hfs, hperm⟩
    obtain ⟨hfreed, hnext⟩ := freearr_log hj hd hrun
    have hlen := hperm.length_eq
    rw [List.append_cancel_left (hfs.symm.trans hfreed)] at hlen
    simp only [List.length_append, List.length_range', List.length_singleton] at hlen
    rw [hnext, length_own] at hlen
    refine reduce_nil.1 (List.length_eq_zero_iff.1 ?_)
    omega
  · intro hnull
    obtain ⟨m', hrun, hold⟩ := @freearr_ok _ _ al m hj hd hnull
    obtain ⟨hfreed, hnext⟩ := freearr_log hj hd hrun
    refine ⟨m', hrun, hold, _, hfreed, ?_⟩
    rw [reduce_nil.2 hnull, List.append_nil, hnext, length_own, List.range'_succ]
    exact List.perm_append_singleton _ _

end Failed

theorem length_copied_le (al : Alloc) (arr : List (Option Str)) :
    (copied al arr).length ≤ arr.length := by
  induction arr generalizing al with
  | nil => exact Nat.le_refl _
  | cons o arr ih =>
    cases o with
    | none => exact Nat.succ_le_succ (ih al)
    | some s =>
      rw [copied]
      split
      · exact Nat.zero_le _
      · exact Nat.succ_le_succ (ih _)

theorem clonearr_granted {m : Store} (hj : junk.length = arr.length)
    (hal : BucketList.malloc m.al = (true, al)) :
    ∃ al', clonearr junk arr m = if (copied al arr).length = arr.length then
        .ok (some m.heap.next,
          ⟨state m.heap (copies (m.heap.next + 1) arr) arr.reduceOption, al', m.freed⟩)
      else freearr m.heap.next (failed m junk (copied al arr) al') >>= fun m => .ok (none, m) := by
  obtain ⟨al', hloop⟩ := @copySlots_state m.heap junk arr [] al m.freed hj
  refine ⟨al', ?_⟩
  have hrun : copySlots m.heap.next arr 0 ⟨m.heap.new (.arr junk), al, m.freed⟩ = _ := hloop
  rw [clonearr, malloc_granted hal]
  dsimp only
  rw [hrun, ok_bind]
  split
  · rfl
  · rfl

/-- A message is cloned all or nothing just if no copy fails, or if the slots behind the one whose
copy fails happen to hold null pointers from the start. -/
theorem clonearr_iff (junk : List (Option Ptr)) (arr : List (Option Str)) (m : Store)
    (hj : junk.length = COUNTOF) (ha : arr.length = COUNTOF) :
    (∃ r, clonearr junk arr m = .ok r ∧ AllOrNothing arr m r) ↔
      ((BucketList.malloc m.al).1 = true →
        (copied (BucketList.malloc m.al).2 arr).length < arr.length →
        ∀ p ∈ junk.drop ((copied (BucketList.malloc m.al).2 arr).length + 1), p = none) := by
  obtain ⟨ok, al, hal⟩ : ∃ ok al, BucketList.malloc m.al = (ok, al) := ⟨_, _, rfl⟩
  rw [hal]
  cases ok with
  | false =>
    have hrun : clonearr junk arr m = .ok (none, { m with al }) := by
      rw [clonearr, malloc_refused hal]
    refine ⟨fun _ => False.elim ∘ Bool.false_ne_true,
      fun _ => ⟨_, hrun, fun _ _ => rfl, [], ?_, ?_⟩⟩
    · exact (List.append_nil _).symm
    · dsimp only
      rw [Nat.sub_self]
      exact List.Perm.refl _
  | true =>
    obtain ⟨al', hrun⟩ := clonearr_granted (hj.trans ha.symm) hal
    rw [hrun]
    by_cases hwhole : (copied al arr).length = arr.length
    · rw [if_pos hwhole]
      refine ⟨fun _ _ hlt => absurd hwhole (Nat.ne_of_lt hlt), fun _ => ?_⟩
      exact ⟨_, rfl, allOrNothing_copied m arr al'⟩
    · have hlt : (copied al arr).length < arr.length :=
        Nat.lt_of_le_of_ne (length_copied_le al arr) hwhole
      have hiff := @freearr_iff _ arr _ al' m hj (ha ▸ hlt)
      rw [if_neg hwhole]
      constructor
      · rintro ⟨r, hr, hall⟩ - -
        obtain ⟨m', hfree, hm'⟩ := bind_ok_iff.1 hr
        cases hm'
        exact hiff.1 ⟨m', hfree, hall⟩
      · intro hnull
        obtain ⟨m', hfree, hall⟩ := hiff.2 (hnull rfl hlt)
        exact ⟨(none, m'), by rw [hfree]; rfl, hall⟩

theorem clonearr_null_slots : ∃ r, clonearr (List.replicate 18 none)
    (some [97] :: some [98] :: List.replicate 16 none) ⟨⟨[]⟩, [true, true, false], []⟩ = .ok r ∧
      AllOrNothing (some [97] :: some [98] :: List.replicate 16 none)
        ⟨⟨[]⟩, [true, true, false], []⟩ r :=
  (clonearr_iff _ _ _ rfl rfl).2 fun _ _ _ hp => List.eq_of_mem_replicate (List.mem_of_mem_drop hp)

/-- The second copy fails, and what is freed then was never set. -/
theorem clonearr_frees_junk : ¬∃ r, clonearr (List.replicate 18 (some 7))
    (some [97] :: some [98] :: List.replicate 16 none) ⟨⟨[]⟩, [true, true, false], []⟩ = .ok r ∧
      AllOrNothing (some [97] :: some [98] :: List.replicate 16 none)
        ⟨⟨[]⟩, [true, true, false], []⟩ r := by
  rintro ⟨r, hr, -⟩
  cases hr

/-- What the other description of the cloning takes for a bad pointer is a copy that fails. -/
theorem clonedFields_copied (mem : Mem) (tok : List (Option Nat)) (al : Alloc) :
    (CoreHandlers.clonedFields mem tok al).1 =
      if (copied al (tok.map fun p => p.map (cstr mem))).length = tok.length then
        some (tok.map fun p => p.map (cstr mem))
      else none := by
  induction tok generalizing al with
  | nil => rfl
  | cons p tok ih =>
    cases p with
    | none =>
      rw [CoreHandlers.clonedFields, ih al, List.map_cons, Option.map_none, copied,
        List.length_cons, List.length_cons]
      simp only [Nat.add_right_cancel_iff]
      split <;> rfl
    | some p =>
      obtain ⟨ok, al₁, hal⟩ : ∃ ok al₁, BucketList.malloc al = (ok, al₁) := ⟨_, _, rfl⟩
      rw [CoreHandlers.clonedFields, List.map_cons, Option.map_some, copied, hal]
      cases ok with
      | false =>
        dsimp only
        rw [if_neg (by simp)]
      | true =>
        simp only [ih al₁, List.length_cons, Nat.add_right_cancel_iff]
        split <;> rfl

end Srsirc.CloneArray
