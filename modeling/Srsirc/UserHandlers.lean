import Srsirc.Fallible
import Srsirc.UserBase

namespace Srsirc.UserHandlers

open CharMap HeapCells Message Fallible
open BucketList (Alloc)

variable {Cb σ : Type}

structure Umsghnd (Cb : Type) where
  cmd : Str
  hndfn : Cb

/-- The slots of an array. One whose command is empty is free. -/
abbrev Slots (Cb : Type) := List (Option (Umsghnd Cb))

structure Uhnds where
  harr : Ptr
  hcnt : Nat

structure Uctx (Cb : Type) where
  uprehnds : Uhnds
  uposthnds : Uhnds
  arrays : Heap (Slots Cb)
  al : Alloc

def Uctx.init (al : Alloc) : Uctx Cb :=
  ⟨⟨0, 8⟩, ⟨1, 8⟩, (Heap.empty.new (List.replicate 8 none)).new (List.replicate 8 none), al⟩

def Uctx.hnds (u : Uctx Cb) (pre : Bool) : Uhnds := if pre then u.uprehnds else u.uposthnds

def Uctx.setHnds (u : Uctx Cb) (pre : Bool) (h : Uhnds) : Uctx Cb :=
  if pre then { u with uprehnds := h } else { u with uposthnds := h }

def Uctx.read (u : Uctx Cb) (harr : Ptr) : Except Fault (Slots Cb) :=
  match u.arrays.get harr with
  | none => .error .badPtr
  | some slots => .ok slots

def slotOf (cmd : Str) (hndfn : Cb) : Option (Umsghnd Cb) :=
  if strNcpy cmd 32 = [] then none else some ⟨strNcpy cmd 32, hndfn⟩

/-- `lsi_msg_reguhnd`. -/
def reguhnd (u : Uctx Cb) (cmd : Str) (hndfn : Cb) (pre : Bool) :
    Except Fault (Bool × Uctx Cb) := do
  let harr := (u.hnds pre).harr
  let hcnt := (u.hnds pre).hcnt
  let slots ← u.read harr
  match slots.findIdx? Option.isNone with
  | some i => .ok (true, { u with arrays := u.arrays.set harr (slots.set i (slotOf cmd hndfn)) })
  | none =>
    match BucketList.malloc u.al with
    | (false, al) => .ok (false, { u with al })
    | (true, al) =>
      let slots := (slots ++ List.replicate hcnt none).set hcnt (slotOf cmd hndfn)
      let u' : Uctx Cb := { u with arrays := (u.arrays.free harr).new slots, al }
      .ok (true, u'.setHnds pre ⟨u.arrays.next, hcnt * 2⟩)

/-- What a callback does: it registers handlers, each time told whether that worked, and
returns at last. Apart from that it may do with its own state what it likes. -/
inductive Act (Cb σ : Type)
  | done (ok : Bool) (s : σ)
  | reg (cmd : Str) (hndfn : Cb) (pre : Bool) (k : Bool → Act Cb σ)

def Act.exec : Act Cb σ → Uctx Cb → Except Fault (Bool × σ × Uctx Cb)
  | .done ok s, u => .ok (ok, s, u)
  | .reg cmd hndfn pre k, u => do
    let (ok, u) ← reguhnd u cmd hndfn pre
    (k ok).exec u

/-- What a pass comes to, with the calls it made: the slots and the callbacks. -/
structure Pass (Cb σ : Type) where
  ok : Bool
  calls : List (Nat × Cb)
  s : σ
  u : Uctx Cb

/-- The loop of `dispatch_uhnd` over the `k` slots of `harr` from slot `i` on. -/
def dispatchFrom (call : Cb → Bool → σ → Act Cb σ) (cmd : Str) (pre : Bool) (harr : Ptr) :
    Nat → Nat → σ → Uctx Cb → Except Fault (Pass Cb σ)
  | 0, _, s, u => .ok ⟨true, [], s, u⟩
  | k + 1, i, s, u => do
    let slots ← u.read harr
    match slots[i]? with
    | none => .error .overrun
    | some none => dispatchFrom call cmd pre harr k (i + 1) s u
    | some (some e) =>
      if e.cmd ≠ cmd then dispatchFrom call cmd pre harr k (i + 1) s u
      else do
        let (ok, s, u) ← (call e.hndfn pre s).exec u
        if !ok then .ok ⟨false, [(i, e.hndfn)], s, u⟩
        else do
          let p ← dispatchFrom call cmd pre harr k (i + 1) s u
          .ok { p with calls := (i, e.hndfn) :: p.calls }

/-- `dispatch_uhnd`, with what each callback does. -/
def dispatchUhnd (call : Cb → Bool → σ → Act Cb σ) (cmd : Str) (pre : Bool) (s : σ) (u : Uctx Cb) :
    Except Fault (Pass Cb σ) :=
  dispatchFrom call cmd pre (u.hnds pre).harr (u.hnds pre).hcnt 0 s u

def Uctx.slots (u : Uctx Cb) (pre : Bool) : Slots Cb := (u.arrays.get (u.hnds pre).harr).getD []

structure Owned (u : Uctx Cb) : Prop where
  live : ∀ pre, u.arrays.get (u.hnds pre).harr = some (u.slots pre)
  length : ∀ pre, (u.slots pre).length = (u.hnds pre).hcnt
  apart : u.uprehnds.harr ≠ u.uposthnds.harr

/-- What was registered is still where it was. -/
def Extends (slots slots' : Slots Cb) : Prop :=
  ∀ (j : Nat) (e : Umsghnd Cb), slots[j]? = some (some e) → slots'[j]? = some (some e)

def Moves (u : Uctx Cb) (pre : Bool) : Prop :=
  none ∉ u.slots pre ∧ (BucketList.malloc u.al).1 = true

variable {u u' : Uctx Cb}

theorem Extends.refl (slots : Slots Cb) : Extends slots slots := fun _ _ h => h

theorem Extends.trans {slots slots' slots'' : Slots Cb} (h : Extends slots slots')
    (h' : Extends slots' slots'') : Extends slots slots'' := fun j e hj => h' j e (h j e hj)

theorem owned_init (al : Alloc) : Owned (Uctx.init al : Uctx Cb) := by
  refine ⟨fun pre => ?_, fun pre => ?_, Nat.zero_ne_one⟩
  · cases pre <;> rfl
  · cases pre <;> rfl

theorem Owned.ne (h : Owned u) {pre pre' : Bool} (hne : pre' ≠ pre) :
    (u.hnds pre').harr ≠ (u.hnds pre).harr := by
  cases pre <;> cases pre'
  · exact absurd rfl hne
  · exact h.apart
  · exact h.apart.symm
  · exact absurd rfl hne

structure Registered (u : Uctx Cb) (kind pre : Bool) (u' : Uctx Cb) : Prop where
  stays : ¬(kind = pre ∧ Moves u pre) → u'.hnds pre = u.hnds pre ∧
      Extends (u.slots pre) (u'.slots pre)
  moves : kind = pre ∧ Moves u pre →
    (u.hnds pre).harr < u'.arrays.next ∧ u'.arrays.get (u.hnds pre).harr = none
  dead : ∀ p, p < u.arrays.next → u.arrays.get p = none → p < u'.arrays.next ∧
      u'.arrays.get p = none

@[simp] theorem hnds_setHnds (u : Uctx Cb) (pre : Bool) (h : Uhnds) :
    (u.setHnds pre h).hnds pre = h := by
  cases pre <;> rfl

theorem hnds_setHnds_ne (u : Uctx Cb) {pre pre' : Bool} (hne : pre' ≠ pre) (h : Uhnds) :
    (u.setHnds pre h).hnds pre' = u.hnds pre' := by
  cases pre <;> cases pre' <;> first | rfl | exact absurd rfl hne

@[simp] theorem arrays_setHnds (u : Uctx Cb) (pre : Bool) (h : Uhnds) :
    (u.setHnds pre h).arrays = u.arrays := by
  cases pre <;> rfl

theorem slots_eq {pre : Bool} {slots : Slots Cb} (h : u.arrays.get (u.hnds pre).harr = some slots) :
    u.slots pre = slots := by
  rw [Uctx.slots, h, Option.getD_some]

theorem owned_of {u : Uctx Cb} (h : ∀ pre, ∃ slots, u.arrays.get (u.hnds pre).harr = some slots ∧
    slots.length = (u.hnds pre).hcnt) (hne : (u.hnds true).harr ≠ (u.hnds false).harr) :
      Owned u := by
  refine ⟨fun pre => ?_, fun pre => ?_, hne⟩
  · obtain ⟨slots, hget, _⟩ := h pre
    rw [hget, slots_eq hget]
  · obtain ⟨slots, hget, hlen⟩ := h pre
    rw [slots_eq hget, hlen]

theorem reguhnd_free (h : Owned u) {kind : Bool} {i : Nat}
    (hi : (u.slots kind).findIdx? Option.isNone = some i) (cmd : Str) (hndfn : Cb) :
    ∃ u', reguhnd u cmd hndfn kind = .ok (true, u') ∧ Owned u' ∧
      ∀ pre, Registered u kind pre u' := by
  have hget : ∀ pre, u.arrays.get (u.hnds pre).harr = some (u.slots pre) := h.live
  let slots' := (u.slots kind).set i (slotOf cmd hndfn)
  let u' : Uctx Cb := { u with arrays := u.arrays.set (u.hnds kind).harr slots' }
  have hget' : u'.arrays.get = Function.update u.arrays.get (u.hnds kind).harr (some slots') :=
    get_set (hget kind) slots'
  have hhnds : ∀ pre, u'.hnds pre = u.hnds pre := fun pre => by cases pre <;> rfl
  have hfree : (u.slots kind)[i]? = some none := by
    obtain ⟨hlt, hnone, _⟩ := List.findIdx?_eq_some_iff_getElem.1 hi
    rw [List.getElem?_eq_getElem hlt, Option.isNone_iff_eq_none.1 hnone]
  have hslots : ∀ pre, u'.arrays.get (u'.hnds pre).harr =
      some (if pre = kind then slots' else u.slots pre) := by
    intro pre
    rw [hhnds, hget', Function.update_apply]
    by_cases hp : pre = kind
    · rw [hp, if_pos rfl, if_pos rfl]
    · rw [if_neg (h.ne hp), if_neg hp, hget]
  refine ⟨u', ?_, owned_of (fun pre => ⟨_, hslots pre, ?_⟩) h.apart,
    fun pre => ⟨fun _ => ⟨hhnds pre, ?_⟩, ?_, ?_⟩⟩
  · rw [reguhnd, Uctx.read, hget, ok_bind]
    simp only [hi]
    rfl
  · rw [hhnds, ← h.length]
    split
    · next hp => rw [hp, List.length_set]
    · rfl
  · rw [slots_eq (hslots pre)]
    split
    · next hp =>
      intro j e hj
      have hne : i ≠ j := by
        rintro rfl
        rw [hp, hfree] at hj
        cases hj
      rw [List.getElem?_set_ne hne, ← hp, hj]
    · exact Extends.refl _
  · rintro ⟨rfl, hfull, _⟩
    exact absurd (List.mem_of_getElem? hfree) hfull
  · intro p hp hdead
    refine ⟨hp.trans_eq (List.length_set ..).symm, ?_⟩
    rw [hget', Function.update_of_ne, hdead]
    rintro rfl
    rw [hget] at hdead
    cases hdead

theorem reguhnd_stuck (h : Owned u) {kind : Bool}
    (hfull : (u.slots kind).findIdx? Option.isNone = none)
    {al : Alloc} (hal : BucketList.malloc u.al = (false, al)) (cmd : Str) (hndfn : Cb) :
    ∃ u', reguhnd u cmd hndfn kind = .ok (false, u') ∧ Owned u' ∧
      ∀ pre, Registered u kind pre u' := by
  refine ⟨{ u with al }, ?_, ⟨h.live, h.length, h.apart⟩,
    fun pre => ⟨fun _ => ⟨rfl, Extends.refl _⟩, ?_, ?_⟩⟩
  · rw [reguhnd, Uctx.read, h.live, ok_bind]
    simp only [hfull, hal]
  · rintro ⟨_, _, hmal⟩
    rw [hal] at hmal
    cases hmal
  · exact fun p hp hdead => ⟨hp, hdead⟩

theorem reguhnd_moved (h : Owned u) {kind : Bool}
    (hfull : (u.slots kind).findIdx? Option.isNone = none)
    {al : Alloc} (hal : BucketList.malloc u.al = (true, al)) (cmd : Str) (hndfn : Cb) :
    ∃ u', reguhnd u cmd hndfn kind = .ok (true, u') ∧ Owned u' ∧
      ∀ pre, Registered u kind pre u' := by
  let slots' := (u.slots kind ++ List.replicate (u.hnds kind).hcnt none).set (u.hnds kind).hcnt
    (slotOf cmd hndfn)
  let u₁ : Uctx Cb := { u with arrays := (u.arrays.free (u.hnds kind).harr).new slots', al }
  let u' := u₁.setHnds kind ⟨u.arrays.next, (u.hnds kind).hcnt * 2⟩
  have hnext : (u.arrays.free (u.hnds kind).harr).next = u.arrays.next := List.length_set ..
  have hget' :
      u'.arrays.get = Function.update (Function.update u.arrays.get (u.hnds kind).harr none)
      u.arrays.next (some slots') := by
    rw [arrays_setHnds, get_new, get_free, hnext]
  have hlt : ∀ {p slots}, u.arrays.get p = some slots → p ≠ u.arrays.next := fun hp =>
    Nat.ne_of_lt (lt_next hp)
  have hself : u'.hnds kind = ⟨u.arrays.next, (u.hnds kind).hcnt * 2⟩ := hnds_setHnds _ _ _
  have hother : ∀ {pre}, pre ≠ kind → u'.hnds pre = u.hnds pre := by
    intro pre hp
    have hset := hnds_setHnds_ne u₁ hp ⟨u.arrays.next, (u.hnds kind).hcnt * 2⟩
    rw [hset]
    cases pre <;> rfl
  have hslots : ∀ {pre}, pre ≠ kind → u'.arrays.get (u.hnds pre).harr = some (u.slots pre) := by
    intro pre hp
    rw [hget', Function.update_of_ne (hlt (h.live pre)), Function.update_of_ne (h.ne hp), h.live]
  have hnew : u'.arrays.get u.arrays.next = some slots' := by rw [hget', Function.update_self]
  have hlen : u'.arrays.next = u.arrays.next + 1 := by
    rw [arrays_setHnds]
    exact (List.length_append ..).trans (congrArg (· + 1) hnext)
  have hfull' : none ∉ u.slots kind := by
    intro hnone
    have hall := List.findIdx?_eq_none_iff.1 hfull none hnone
    cases hall
  refine ⟨u', ?_, owned_of (fun pre => ?_) ?_, fun pre => ⟨fun hstay => ?_, ?_, ?_⟩⟩
  · rw [reguhnd, Uctx.read, h.live, ok_bind]
    simp only [hfull, hal]
    rfl
  · by_cases hp : pre = kind
    · rw [hp, hself]
      refine ⟨slots', hnew, ?_⟩
      rw [List.length_set, List.length_append, List.length_replicate, h.length, Nat.mul_two]
    · rw [hother hp]
      exact ⟨_, hslots hp, h.length pre⟩
  · cases kind
    · rw [hself, hother (by decide)]
      exact hlt (h.live true)
    · rw [hself, hother (by decide)]
      exact (hlt (h.live false)).symm
  · by_cases hp : kind = pre
    · exact absurd ⟨hp, hp ▸ hfull', by rw [hal]⟩ hstay
    · have hp := Ne.symm hp
      refine ⟨hother hp, ?_⟩
      have hget := hslots hp
      rw [← hother hp] at hget
      rw [slots_eq hget]
      exact Extends.refl _
  · rintro ⟨rfl, _⟩
    refine ⟨by rw [hlen]; exact Nat.lt_succ_of_lt (lt_next (h.live kind)), ?_⟩
    rw [hget', Function.update_of_ne (hlt (h.live kind)), Function.update_self]
  · intro p hp hdead
    refine ⟨by rw [hlen]; exact Nat.lt_succ_of_lt hp, ?_⟩
    rw [hget', Function.update_of_ne (Nat.ne_of_lt hp), Function.update_apply]
    split
    · rfl
    · exact hdead

/-- A registration goes well as far as memory is concerned, and takes the old array away
only where it moves it. -/
theorem reguhnd_spec (h : Owned u) (cmd : Str) (hndfn : Cb) (kind : Bool) :
    ∃ ok u', reguhnd u cmd hndfn kind = .ok (ok, u') ∧ Owned u' ∧
      ∀ pre, Registered u kind pre u' := by
  cases hi : (u.slots kind).findIdx? Option.isNone with
  | some i => exact ⟨true, reguhnd_free h hi cmd hndfn⟩
  | none =>
    cases hal : BucketList.malloc u.al with
    | mk ok al =>
      cases ok
      · exact ⟨false, reguhnd_stuck h hi hal cmd hndfn⟩
      · exact ⟨true, reguhnd_moved h hi hal cmd hndfn⟩

end Srsirc.UserHandlers
