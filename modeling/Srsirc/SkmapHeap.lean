import Srsirc.Allocations
import Srsirc.HeapCells
import Srsirc.IterDeletion

namespace Srsirc.SkmapHeap

open CharMap BucketList StringMap HeapCells
open Allocations (put_failed)
open IterDeletion (delNode)

/-- A map with its lists in memory, where a list that was disposed of is no more. -/
structure Table (n : Nat) (V : Type) where
  buck : Fin n → Option Ptr
  lists : Heap (Bucklist V)
  count : Nat
  iterating : Bool
  bit : Nat
  cm : CMap

variable {n : Nat} {V : Type}

def Table.init (n : Nat) (V : Type) (cm : CMap) : Table n V :=
  ⟨fun _ => none, .empty, 0, false, 0, cm⟩

def Table.setList (h : Table n V) (p : Ptr) (l : Bucklist V) : Table n V :=
  { h with lists := h.lists.set p l }

def Table.setBuck (h : Table n V) (i : Fin n) (p : Option Ptr) : Table n V :=
  { h with buck := Function.update h.buck i p }

/-- `lsi_bucklist_dispose`, which does nothing to a null pointer. -/
def dispose (h : Table n V) : Option Ptr → Option (Table n V)
  | none => some h
  | some p => (h.lists.get p).map fun _ => { h with lists := h.lists.free p }

/-- What `lsi_skmap_put` does at the label `fail`. -/
def putFail (h : Table n V) (i : Fin n) (allocated : Bool) (kl : Option Ptr) (al : Alloc) :
    Option (Bool × Table n V × Alloc) :=
  if allocated then (dispose h kl).map fun h => (false, h.setBuck i none, al)
    else some (false, h, al)

/-- The second half of `lsi_skmap_put`. -/
def putIn (h : Table n V) (i : Fin n) (allocated : Bool) (p : Ptr) (key : Str) (elem : V)
    (al : Alloc) :
    Option (Bool × Table n V × Alloc) :=
  (h.lists.get p).bind fun kl =>
    match find h.cm kl key with
    | some _ => some (true, h.setList p (replace h.cm kl key elem).2, al)
    | none =>
      match malloc al with
      | (false, al) => putFail h i allocated (some p) al
      | (true, al) =>
        match insert kl 0 key elem al with
        | (false, _, al) => putFail h i allocated (some p) al
        | (true, kl, al) => some (true, { h.setList p kl with count := h.count + 1 }, al)

/-- `lsi_skmap_put`; `none` where a list is used that was disposed of. -/
def put [NeZero n] (h : Table n V) (key : Str) (elem : V) (al : Alloc) :
    Option (Bool × Table n V × Alloc) :=
  let i := slot h.cm key
  match h.buck i with
  | some p => putIn h i false p key elem al
  | none =>
    match malloc al with
    | (false, al) => putFail (h.setBuck i none) i true none al
    | (true, al) =>
      let p := h.lists.next
      putIn { h.setBuck i (some p) with lists := h.lists.new BucketList.init } i true p key elem al

def get [NeZero n] (h : Table n V) (key : Str) : Option (Option V) :=
  match h.buck (slot h.cm key) with
  | none => some none
  | some p => (h.lists.get p).map fun kl => find h.cm kl key

def del [NeZero n] (h : Table n V) (key : Str) : Option (Option V × Table n V) :=
  match h.buck (slot h.cm key) with
  | none => some (none, h)
  | some p => (h.lists.get p).map fun kl =>
    match remove h.cm kl key with
    | (none, _) => (none, h)
    | (some e, kl) => (some e.2, { h.setList p kl with count := h.count - 1 })

/-- The loop of `lsi_skmap_clear`. -/
def clearBucks (h : Table n V) : List (Fin n) → Option (Table n V)
  | [] => some h
  | i :: is =>
    match h.buck i with
    | none => clearBucks h is
    | some p => (dispose h (some p)).bind fun h => clearBucks (h.setBuck i none) is

def clear (h : Table n V) : Option (Table n V) :=
  (clearBucks h (List.finRange n)).map fun h => { h with count := 0 }

def skip (h : Table n V) (bit : Nat) : Option Bool :=
  if hb : bit < n then
    match h.buck ⟨bit, hb⟩ with
    | none => some true
    | some p => (h.lists.get p).map isempty
  else some false

def seek (h : Table n V) : Nat → Nat → Option Nat
  | 0, bit => some bit
  | k + 1, bit => (skip h bit).bind fun skipped => if skipped then seek h k (bit + 1) else some bit

def enter (h : Table n V) : Option (Option (Str × V) × Table n V) :=
  if hb : h.bit < n then
    match h.buck ⟨h.bit, hb⟩ with
    | none => some (none, { h with iterating := true })
    | some p => (h.lists.get p).map fun l =>
      ((BucketList.first l).1, { h.setList p (BucketList.first l).2 with iterating := true })
  else some (none, { h with iterating := false })

def first (h : Table n V) : Option (Option (Str × V) × Table n V) :=
  (seek h n 0).bind fun bit => enter { h with bit }

def next (h : Table n V) : Option (Option (Str × V) × Table n V) :=
  if !h.iterating then some (none, h)
  else
    let step := if hb : h.bit < n then
        match h.buck ⟨h.bit, hb⟩ with
        | none => some none
        | some p => (h.lists.get p).map fun l =>
          some ((BucketList.next l).1, h.setList p (BucketList.next l).2)
      else some none
    step.bind fun
      | some (some e, h) => some (some e, h)
      | _ => (seek h n (h.bit + 1)).bind fun bit => enter { h with bit }

def nexts : Nat → Table n V → Option (List (Str × V) × Table n V)
  | 0, h => some ([], h)
  | k + 1, h => (next h).bind fun
    | (none, h) => some ([], h)
    | (some e, h) => (nexts k h).map fun r => (e :: r.1, r.2)

def scan (k : Nat) (h : Table n V) : Option (List (Str × V) × Table n V) :=
  (first h).bind fun
    | (none, h) => some ([], h)
    | (some e, h) => (nexts k h).map fun r => (e :: r.1, r.2)

/-- `lsi_skmap_del_iter`; `none` where there is nothing to be deleted. -/
def delIter (h : Table n V) : Option (Table n V) :=
  if !h.iterating then some h
  else if hb : h.bit < n then
    match h.buck ⟨h.bit, hb⟩ with
    | none => none
    | some p => (h.lists.get p).bind fun l => (delNode l).map (h.setList p)
  else none

def Table.view (h : Table n V) : Skmap n V :=
  ⟨fun i => (h.buck i).bind h.lists.get, h.count, h.iterating, h.bit, h.cm⟩

/-- There is no list in two places, and none that was disposed of. -/
structure Sound (h : Table n V) : Prop where
  live : ∀ i p, h.buck i = some p → (h.lists.get p).isSome
  apart : ∀ i j p, h.buck i = some p → h.buck j = some p → i = j

def Does {α : Type} (r : Option (α × Table n V)) (a : α × Skmap n V) : Prop :=
  ∃ h, r = some (a.1, h) ∧ Sound h ∧ h.view = a.2

variable {h : Table n V} {i : Fin n} {p : Ptr}

theorem Sound.list (hs : Sound h) (hp : h.buck i = some p) :
    ∃ l, h.lists.get p = some l ∧ h.view.buck i = some l := by
  obtain ⟨l, hl⟩ := Option.isSome_iff_exists.1 (hs.live i p hp)
  exact ⟨l, hl, by rw [Table.view]; simp only [hp]; exact hl⟩

theorem view_none (hp : h.buck i = none) : h.view.buck i = none := by
  rw [Table.view]
  simp only [hp]
  rfl

theorem setList_does (hs : Sound h) (hp : h.buck i = some p) (l : Bucklist V) :
    Sound (h.setList p l) ∧ (h.setList p l).view = StringMap.setBuck h.view i l := by
  obtain ⟨l₀, hl₀, _⟩ := hs.list hp
  have hget := get_set hl₀ l
  refine ⟨⟨fun j q hq => ?_, hs.apart⟩, ?_⟩
  · rw [Table.setList]
    simp only [hget, Function.update_apply]
    split
    · rfl
    · exact hs.live j q hq
  · rw [Table.setList, Table.view, StringMap.setBuck, Table.view]
    simp only [hget, Skmap.mk.injEq, and_true]
    funext j
    rw [Function.update_apply]
    split
    · next hj =>
      rw [hj, hp]
      exact Function.update_self ..
    · next hj =>
      cases hq : h.buck j with
      | none => rfl
      | some q =>
        have hne : q ≠ p := fun he => hj (hs.apart j i p (he ▸ hq) hp)
        exact Function.update_of_ne hne ..

theorem freed_does (hs : Sound h) (hp : h.buck i = some p) :
    let h' := { h with lists := h.lists.free p }.setBuck i none
    Sound h' ∧ h'.view = { h.view with buck := Function.update h.view.buck i none } := by
  intro h'
  have hbuck : ∀ j q, h'.buck j = some q → j ≠ i ∧ h.buck j = some q := by
    intro j q hq
    have hq : Function.update h.buck i none j = some q := hq
    rw [Function.update_apply] at hq
    split at hq
    · cases hq
    · next hj => exact ⟨hj, hq⟩
  have hget : ∀ j q, j ≠ i → h.buck j = some q → (h.lists.free p).get q = h.lists.get q := by
    intro j q hj hq
    rw [get_free, Function.update_of_ne]
    exact fun he => hj (hs.apart j i p (he ▸ hq) hp)
  refine ⟨⟨fun j q hq => ?_, fun j k q hj hk => ?_⟩, ?_⟩
  · obtain ⟨hj, hq⟩ := hbuck j q hq
    exact (congrArg Option.isSome (hget j q hj hq)).trans (hs.live j q hq)
  · exact hs.apart j k q (hbuck j q hj).2 (hbuck k q hk).2
  · rw [Table.view, Table.view, Skmap.mk.injEq]
    refine ⟨?_, rfl, rfl, rfl, rfl⟩
    funext j
    by_cases hj : j = i
    · rw [hj, Function.update_self, show h'.buck i = none from Function.update_self ..]
      rfl
    · rw [Function.update_of_ne hj, show h'.buck j = h.buck j from Function.update_of_ne hj ..]
      dsimp only
      cases hq : h.buck j with
      | none => rfl
      | some q => exact hget j q hj hq

theorem setBuck_empty (hp : h.buck i = none) : h.setBuck i none = h := by
  rw [Table.setBuck, ← hp, Function.update_eq_self]

def Table.grown (h : Table n V) (i : Fin n) : Table n V :=
  { h.setBuck i (some h.lists.next) with lists := h.lists.new BucketList.init }

theorem grown_get (h : Table n V) (i : Fin n) :
    (h.grown i).lists.get h.lists.next = some BucketList.init := by
  rw [Table.grown, get_new, Function.update_self]

theorem grown_buck (h : Table n V) (i : Fin n) : (h.grown i).buck i = some h.lists.next :=
  Function.update_self ..

theorem old_ne (hs : Sound h) {j : Fin n} {q : Ptr} (hq : h.buck j = some q) :
    q ≠ h.lists.next := by
  obtain ⟨l, hl⟩ := Option.isSome_iff_exists.1 (hs.live j q hq)
  exact Nat.ne_of_lt (lt_next hl)

theorem grown_does (hs : Sound h) (i : Fin n) :
    Sound (h.grown i) ∧ (h.grown i).view = StringMap.setBuck h.view i BucketList.init := by
  have hbuck : ∀ j q, (h.grown i).buck j = some q → j = i ∧ q = h.lists.next ∨ j ≠ i ∧
      h.buck j = some q := by
    intro j q hq
    rw [Table.grown, Table.setBuck] at hq
    simp only [Function.update_apply] at hq
    split at hq
    · next hj => exact Or.inl ⟨hj, (Option.some.inj hq).symm⟩
    · next hj => exact Or.inr ⟨hj, hq⟩
  refine ⟨⟨fun j q hq => ?_, fun j k q hj hk => ?_⟩, ?_⟩
  · obtain ⟨rfl, rfl⟩ | ⟨_, hq⟩ := hbuck j q hq
    · rw [grown_get]
      rfl
    · rw [Table.grown, get_new, Function.update_of_ne (old_ne hs hq)]
      exact hs.live j q hq
  · obtain ⟨hji, hnew⟩ | ⟨_, hj'⟩ := hbuck j q hj
    · obtain ⟨hki, _⟩ | ⟨_, hk'⟩ := hbuck k q hk
      · rw [hji, hki]
      · exact absurd hnew (old_ne hs hk')
    · obtain ⟨_, hnew⟩ | ⟨_, hk'⟩ := hbuck k q hk
      · exact absurd hnew (old_ne hs hj')
      · exact hs.apart j k q hj' hk'
  · rw [StringMap.setBuck, Table.view, Table.view, Skmap.mk.injEq]
    refine ⟨?_, rfl, rfl, rfl, rfl⟩
    funext j
    rw [Function.update_apply]
    split
    · next hj =>
      rw [hj, grown_buck]
      exact grown_get h i
    · next hj =>
      rw [Table.grown, Table.setBuck]
      simp only [Function.update_of_ne hj]
      cases hq : h.buck j with
      | none => rfl
      | some q =>
        rw [get_new, Option.bind_some, Option.bind_some, Function.update_of_ne (old_ne hs hq)]

/-- What was allocated for the slot is given back. -/
theorem grown_undone (hs : Sound h) (hp : h.buck i = none) (al : Alloc) :
    ∃ h', putFail (h.grown i) i true (some h.lists.next) al = some (false, h', al) ∧ Sound h' ∧
      h'.view = h.view := by
  refine ⟨_, by rw [putFail, if_pos rfl, dispose, grown_get]; rfl, ?_⟩
  have hbuck : Function.update (h.grown i).buck i none = h.buck := by
    rw [Table.grown, Table.setBuck]
    simp only [Function.update_idem]
    rw [← hp, Function.update_eq_self]
  have hget : ∀ j q, h.buck j = some q →
      (((h.lists.new BucketList.init).free h.lists.next).get q = h.lists.get q) := by
    intro j q hq
    rw [get_free, Function.update_of_ne (old_ne hs hq), get_new,
      Function.update_of_ne (old_ne hs hq)]
  refine ⟨⟨fun j q hq => ?_, fun j k q hj hk => ?_⟩, ?_⟩
  · have hq : h.buck j = some q := by rwa [← hbuck]
    exact (congrArg Option.isSome (hget j q hq)).trans (hs.live j q hq)
  · exact hs.apart j k q (by rwa [← hbuck]) (by rwa [← hbuck])
  · rw [Table.view, Table.view, Skmap.mk.injEq]
    refine ⟨?_, rfl, rfl, rfl, rfl⟩
    funext j
    rw [Table.setBuck]
    simp only [hbuck]
    cases hq : h.buck j with
    | none => rfl
    | some q => exact hget j q hq

def Puts (r : Option (Bool × Table n V × Alloc)) (a : Bool × Skmap n V × Alloc) : Prop :=
  ∃ h, r = some (a.1, h, a.2.2) ∧ Sound h ∧ h.view = a.2.1

/-- The second half of an insertion, where a failure leads back to the map `m`. -/
theorem putIn_puts {allocated : Bool} {l : Bucklist V} {m : Skmap n V} (hs : Sound h)
    (hp : h.buck i = some p)
    (hl : h.lists.get p = some l) (hcm : h.cm = m.cm)
    (hset : ∀ l, StringMap.setBuck h.view i l = StringMap.setBuck m i l)
    (hfail : ∀ al, ∃ h', putFail h i allocated (some p) al = some (false, h', al) ∧ Sound h' ∧
      h'.view = m)
    (key : Str) (elem : V) (al : Alloc) :
    Puts (putIn h i allocated p key elem al) (StringMap.putIn m i l key elem al) := by
  have hcount : h.count = m.count := congrArg Skmap.count (hset l)
  rw [putIn, hl, StringMap.putIn, ← hcm, Option.bind_some]
  cases hfind : find h.cm l key with
  | some e =>
    obtain ⟨hs', hview⟩ := setList_does hs hp (replace h.cm l key elem).2
    exact ⟨_, rfl, hs', hview.trans (hset _)⟩
  | none =>
    obtain ⟨ok, al⟩ := malloc al
    cases ok with
    | false => exact hfail al
    | true =>
      dsimp only
      obtain ⟨ok, kl, al⟩ := insert l 0 key elem al
      cases ok with
      | false => exact hfail al
      | true =>
        obtain ⟨hs', hview⟩ := setList_does hs hp kl
        refine ⟨_, rfl, ⟨hs'.live, hs'.apart⟩, ?_⟩
        rw [hset] at hview
        dsimp only
        rw [← hcount, ← hview]
        rfl

theorem put_puts [NeZero n] (hs : Sound h) (key : Str) (elem : V) (al : Alloc) :
    Puts (put h key elem al) (StringMap.put h.view key elem al) := by
  rw [put, StringMap.put]
  have hcm : h.view.cm = h.cm := rfl
  rw [hcm]
  cases hp : h.buck (slot h.cm key) with
  | some p =>
    obtain ⟨l, hl, hview⟩ := hs.list hp
    simp only [hview]
    exact putIn_puts hs hp hl rfl (fun _ => rfl) (fun al => ⟨h, rfl, hs, rfl⟩) key elem al
  | none =>
    simp only [view_none hp]
    obtain ⟨ok, al⟩ := malloc al
    cases ok with
    | false =>
      refine ⟨h, ?_, hs, rfl⟩
      simp only [putFail, if_true, dispose, Option.map_some, setBuck_empty hp]
    | true =>
      obtain ⟨hs', hview⟩ := grown_does hs (slot h.cm key)
      refine putIn_puts hs' (grown_buck h _) (grown_get h _) rfl (fun l => ?_)
        (grown_undone hs hp) key elem al
      rw [hview, StringMap.setBuck, StringMap.setBuck, StringMap.setBuck, Function.update_idem]

theorem get_eq [NeZero n] (hs : Sound h) (key : Str) :
    get h key = some (StringMap.get h.view key) := by
  rw [get, StringMap.get, show h.view.cm = h.cm from rfl]
  cases hp : h.buck (slot h.cm key) with
  | none => simp only [view_none hp]
  | some p =>
    obtain ⟨l, hl, hview⟩ := hs.list hp
    simp only [hview, hl, Option.map_some]

theorem del_does [NeZero n] (hs : Sound h) (key : Str) :
    Does (del h key) (StringMap.del h.view key) := by
  rw [del, StringMap.del, show h.view.cm = h.cm from rfl]
  cases hp : h.buck (slot h.cm key) with
  | none =>
    simp only [view_none hp]
    exact ⟨h, rfl, hs, rfl⟩
  | some p =>
    obtain ⟨l, hl, hview⟩ := hs.list hp
    simp only [hview, hl, Option.map_some]
    cases hrem : remove h.cm l key with
    | mk e kl =>
      cases e with
      | none => exact ⟨h, rfl, hs, rfl⟩
      | some e =>
        obtain ⟨hs', hview'⟩ := setList_does hs hp kl
        refine ⟨_, rfl, ⟨hs'.live, hs'.apart⟩, ?_⟩
        dsimp only
        rw [← hview']
        rfl

theorem clearBucks_clears (is : List (Fin n)) (hs : Sound h) :
    ∃ h', clearBucks h is = some h' ∧ Sound h' ∧
    h'.view = { h.view with buck := fun j => if j ∈ is then none else h.view.buck j } := by
  induction is generalizing h with
  | nil => exact ⟨h, rfl, hs, by simp⟩
  | cons i is ih =>
    have hstep : ∃ h₁, clearBucks h (i :: is) = clearBucks h₁ is ∧ Sound h₁ ∧
        h₁.view = { h.view with buck := Function.update h.view.buck i none } := by
      rw [clearBucks]
      cases hp : h.buck i with
      | none =>
        refine ⟨h, rfl, hs, ?_⟩
        rw [← view_none hp, Function.update_eq_self]
      | some p =>
        obtain ⟨l, hl, _⟩ := hs.list hp
        refine ⟨_, ?_, freed_does hs hp⟩
        simp only [dispose, hl, Option.map_some, Option.bind_some]
    obtain ⟨h₁, hrun, hs₁, hview₁⟩ := hstep
    obtain ⟨h', hrun', hs', hview'⟩ := ih hs₁
    refine ⟨h', hrun.trans hrun', hs', ?_⟩
    rw [hview', hview₁]
    simp only [Skmap.mk.injEq, and_true]
    funext j
    rw [Function.update_apply]
    by_cases hj : j = i <;> simp [hj]

theorem clear_does (hs : Sound h) :
    ∃ h', clear h = some h' ∧ Sound h' ∧ h'.view = StringMap.clear h.view := by
  obtain ⟨h', hrun, hs', hview⟩ := clearBucks_clears (List.finRange n) hs
  refine ⟨{ h' with count := 0 }, by rw [clear, hrun]; rfl, ⟨hs'.live, hs'.apart⟩, ?_⟩
  have heq : { h' with count := 0 }.view = { h'.view with count := 0 } := rfl
  rw [heq, hview, StringMap.clear]
  simp

theorem skip_eq (hs : Sound h) (bit : Nat) : skip h bit = some (StringMap.skip h.view bit) := by
  rw [skip, StringMap.skip]
  split
  · next hb =>
    cases hp : h.buck ⟨bit, hb⟩ with
    | none => simp only [view_none hp]
    | some p =>
      obtain ⟨l, hl, hview⟩ := hs.list hp
      simp only [hview, hl, Option.map_some]
  · rfl

theorem seek_eq (hs : Sound h) (k bit : Nat) :
    seek h k bit = some (StringMap.seek h.view k bit) := by
  induction k generalizing bit with
  | zero => rfl
  | succ k ih =>
    rw [seek, skip_eq hs, StringMap.seek, Option.bind_some, ih]
    split <;> rfl

theorem enter_does (hs : Sound h) : Does (enter h) (StringMap.enter h.view) := by
  rw [enter, StringMap.enter]
  have hbit : h.view.bit = h.bit := rfl
  simp only [hbit]
  split
  · next hb =>
    cases hp : h.buck ⟨h.bit, hb⟩ with
    | none =>
      simp only [view_none hp]
      exact ⟨_, rfl, ⟨hs.live, hs.apart⟩, rfl⟩
    | some p =>
      obtain ⟨l, hl, hview⟩ := hs.list hp
      obtain ⟨hs', hview'⟩ := setList_does hs hp (BucketList.first l).2
      simp only [hview, hl, Option.map_some]
      refine ⟨_, rfl, ⟨hs'.live, hs'.apart⟩, ?_⟩
      rw [← hview']
      rfl
  · exact ⟨_, rfl, ⟨hs.live, hs.apart⟩, rfl⟩

theorem enter_next_does (hs : Sound h) (bit : Nat) :
    Does ((seek h n bit).bind fun bit => enter { h with bit })
    (StringMap.enter { h.view with bit := StringMap.seek h.view n bit }) := by
  rw [seek_eq hs, Option.bind_some]
  exact enter_does (h := { h with bit := StringMap.seek h.view n bit }) ⟨hs.live, hs.apart⟩

theorem first_does (hs : Sound h) : Does (first h) (StringMap.first h.view) := enter_next_does hs 0

theorem next_does (hs : Sound h) : Does (next h) (StringMap.next h.view) := by
  rw [next, StringMap.next]
  have hbit : h.view.bit = h.bit := rfl
  have hiter : h.view.iterating = h.iterating := rfl
  simp only [hbit, hiter]
  split
  · exact ⟨h, rfl, hs, rfl⟩
  · split
    · next hb =>
      cases hp : h.buck ⟨h.bit, hb⟩ with
      | none =>
        simp only [view_none hp, Option.map_none, Option.bind_some]
        exact enter_next_does hs (h.bit + 1)
      | some p =>
        obtain ⟨l, hl, hview⟩ := hs.list hp
        obtain ⟨hs', hview'⟩ := setList_does hs hp (BucketList.next l).2
        simp only [hview, hl, Option.map_some, Option.bind_some]
        cases (BucketList.next l).1 with
        | none => exact enter_next_does hs (h.bit + 1)
        | some e => exact ⟨_, rfl, hs', hview'⟩
    · exact enter_next_does hs (h.bit + 1)

theorem nexts_does (k : Nat) (hs : Sound h) : Does (nexts k h) (StringMap.nexts k h.view) := by
  induction k generalizing h with
  | zero => exact ⟨h, rfl, hs, rfl⟩
  | succ k ih =>
    obtain ⟨h₁, hrun, hs₁, hview⟩ := next_does hs
    rw [nexts, hrun, StringMap.nexts, Option.bind_some]
    cases hn : StringMap.next h.view with
    | mk e m =>
      rw [hn] at hview
      cases e with
      | none => exact ⟨h₁, rfl, hs₁, hview⟩
      | some e =>
        obtain ⟨h', hrun', hs', hview'⟩ := ih hs₁
        obtain rfl : h₁.view = m := hview
        exact ⟨h', by simp only [hrun', Option.map_some], hs', hview'⟩

theorem scan_does (k : Nat) (hs : Sound h) : Does (scan k h) (StringMap.scan k h.view) := by
  obtain ⟨h₁, hrun, hs₁, hview⟩ := first_does hs
  rw [scan, hrun, StringMap.scan, Option.bind_some]
  cases hn : StringMap.first h.view with
  | mk e m =>
    rw [hn] at hview
    cases e with
    | none => exact ⟨h₁, rfl, hs₁, hview⟩
    | some e =>
      obtain ⟨h', hrun', hs', hview'⟩ := nexts_does k hs₁
      obtain rfl : h₁.view = m := hview
      exact ⟨h', by simp only [hrun', Option.map_some], hs', hview'⟩

theorem delIter_eq (hs : Sound h) :
    (delIter h).map Table.view = IterDeletion.delIter h.view ∧ ∀ h' ∈ delIter h, Sound h' := by
  rw [delIter, IterDeletion.delIter]
  have hbit : h.view.bit = h.bit := rfl
  have hiter : h.view.iterating = h.iterating := rfl
  simp only [hbit, hiter]
  split
  · exact ⟨rfl, fun h' hh => Option.some.inj hh ▸ hs⟩
  · split
    · next hb =>
      cases hp : h.buck ⟨h.bit, hb⟩ with
      | none =>
        simp only [view_none hp]
        exact ⟨rfl, fun _ hh => by cases hh⟩
      | some p =>
        obtain ⟨l, hl, hview⟩ := hs.list hp
        simp only [hview, hl, Option.bind_some]
        cases delNode l with
        | none => exact ⟨rfl, fun _ hh => by cases hh⟩
        | some l' =>
          obtain ⟨hs', hview'⟩ := setList_does hs hp l'
          exact ⟨congrArg some hview', fun h' hh => Option.some.inj hh ▸ hs'⟩
    · exact ⟨rfl, fun _ hh => by cases hh⟩

/-- The calls on a table. Those that put something in come with their allocations. -/
inductive Call (V : Type)
  | put (key : Str) (elem : V) (al : Alloc)
  | get (key : Str)
  | del (key : Str)
  | clear
  | scan (k : Nat)
  | first
  | next
  | delIter

variable [NeZero n]

def call (h : Table n V) : Call V → Option (Table n V)
  | .put key elem al => (put h key elem al).map fun r => r.2.1
  | .get key => (get h key).map fun _ => h
  | .del key => (del h key).map Prod.snd
  | .clear => clear h
  | .scan k => (scan k h).map Prod.snd
  | .first => (first h).map Prod.snd
  | .next => (next h).map Prod.snd
  | .delIter => some ((delIter h).getD h)

def calls (h : Table n V) : List (Call V) → Option (Table n V)
  | [] => some h
  | c :: cs => (call h c).bind fun h => calls h cs

theorem call_sound (hs : Sound h) (c : Call V) : ∃ h', call h c = some h' ∧ Sound h' := by
  cases c with
  | put key elem al =>
    obtain ⟨h', hrun, hs', _⟩ := put_puts hs key elem al
    exact ⟨h', by rw [call, hrun]; rfl, hs'⟩
  | get key => exact ⟨h, by rw [call, get_eq hs]; rfl, hs⟩
  | del key =>
    obtain ⟨h', hrun, hs', _⟩ := del_does hs key
    exact ⟨h', by rw [call, hrun]; rfl, hs'⟩
  | clear =>
    obtain ⟨h', hrun, hs', _⟩ := clear_does hs
    exact ⟨h', hrun, hs'⟩
  | scan k =>
    obtain ⟨h', hrun, hs', _⟩ := scan_does k hs
    exact ⟨h', by rw [call, hrun]; rfl, hs'⟩
  | first =>
    obtain ⟨h', hrun, hs', _⟩ := first_does hs
    exact ⟨h', by rw [call, hrun]; rfl, hs'⟩
  | next =>
    obtain ⟨h', hrun, hs', _⟩ := next_does hs
    exact ⟨h', by rw [call, hrun]; rfl, hs'⟩
  | delIter =>
    refine ⟨_, rfl, ?_⟩
    cases hd : delIter h with
    | none => exact hs
    | some h' => exact (delIter_eq hs).2 h' hd

theorem calls_sound (hs : Sound h) (cs : List (Call V)) :
    ∃ h', calls h cs = some h' ∧ Sound h' := by
  induction cs generalizing h with
  | nil => exact ⟨h, rfl, hs⟩
  | cons c cs ih =>
    obtain ⟨h₁, hrun, hs₁⟩ := call_sound hs c
    rw [calls, hrun]
    exact ih hs₁

omit [NeZero n] in
theorem sound_init (cm : CMap) : Sound (Table.init n V cm) :=
  ⟨fun _ _ h => (nomatch h), fun _ _ _ h => (nomatch h)⟩

structure Unseen (h h' : Table n V) : Prop where
  get : ∀ key, get h' key = get h key
  count : h'.count = h.count
  scan : ∀ k, (scan k h').map Prod.fst = (scan k h).map Prod.fst

theorem unseen_of_view {h h' : Table n V} (hs : Sound h) (hs' : Sound h') (hv : h'.view = h.view) :
    Unseen h h' := by
  refine ⟨fun key => by rw [get_eq hs, get_eq hs', hv], congrArg Skmap.count hv, fun k => ?_⟩
  obtain ⟨h₁, hrun, _⟩ := scan_does k hs
  obtain ⟨h₁', hrun', _⟩ := scan_does k hs'
  rw [hrun, hrun', hv]
  rfl

/-- A failed insertion cannot be seen, and none of a key that is there fails. Whatever was called
before, no list is used or left in the table that was disposed of. -/
theorem put_unseen (n : Nat) [NeZero n] (V : Type) (cm : CMap) (cs : List (Call V)) (key : Str)
    (elem : V) (al : Alloc) :
    ∃ h ok h' al', calls (Table.init n V cm) cs = some h ∧ put h key elem al = some (ok, h', al') ∧
      (∀ i p, h'.buck i = some p → (h'.lists.get p).isSome) ∧ (ok = false → Unseen h h') ∧
      (∀ v, get h key = some (some v) → ok = true) := by
  obtain ⟨h, hrun, hs⟩ := calls_sound (@sound_init n V cm) cs
  obtain ⟨h', hput, hs', hview⟩ := put_puts hs key elem al
  refine ⟨h, _, h', _, hrun, hput, hs'.live, fun hf => ?_, fun v hv => ?_⟩
  · exact unseen_of_view hs hs' (hview.trans (put_failed hf).1)
  · by_contra hno
    rw [get_eq hs, (put_failed (Bool.eq_false_of_not_eq_true hno)).2] at hv
    cases hv

/-- The copy of the key cannot be allocated, when the list for it already is. -/
theorem put_unseen_copy : ∃ h ok h' al',
    calls (Table.init 4 Nat .ascii) [.put (ascii "a") 1 [], .del (ascii "a")] = some h ∧
      put h (ascii "b") 2 [true, false] = some (ok, h', al') ∧
      (∀ i p, h'.buck i = some p → (h'.lists.get p).isSome) ∧ (ok = false → Unseen h h') ∧
      (∀ v, get h (ascii "b") = some (some v) → ok = true) :=
  put_unseen 4 Nat .ascii [.put (ascii "a") 1 [], .del (ascii "a")] (ascii "b") 2 [true, false]

end Srsirc.SkmapHeap
