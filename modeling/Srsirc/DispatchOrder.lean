import Srsirc.HandlerFrames
import Srsirc.HandlerTable

namespace Srsirc.DispatchOrder

open CharMap Message UserBase Context Conn CoreHandlers Capabilities Dispatch Connect Registry
open HandlerFrames HandlerTable Fallible

def slot (cmd : Str) (o : Option Msghnd) : Option Msghnd := o.filter fun e => e.cmd = cmd

/-- The handlers for a command from slot `i` on, in slot order. -/
def registered (cmd : Str) (i : Nat) (tbl : Msghnds) : List Msghnd :=
  (tbl.val.drop i).filterMap (slot cmd)

/-- The handlers are called in turn until the flags that have come together forbid to
proceed. -/
def callAll (msg : Msg) (logon : Bool) : List Msghnd → Flags → Irc → Except Fault (Flags × Irc)
  | [], res, irc => .ok (res, irc)
  | e :: es, res, irc => do
    let (r, irc) ← run e.hndfn irc msg msg.nargs logon
    if (res ||| r).has CANT_PROCEED then .ok (res ||| r, irc)
      else callAll msg logon es (res ||| r) irc

/-- The handler of 005 is the one that registers handlers. Its command is none of theirs. -/
def Steadfast (cmd : Str) (tbl : Msghnds) : Prop :=
  ∀ e ∈ occupied tbl, e.cmd = cmd → e.hndfn = .handle_005 →
    (∀ p ∈ trackHnds, ascii p.1 ≠ cmd) ∧ ∀ e' ∈ occupied tbl, e'.cmd = cmd → e'.module ≠ .track

def SameFor (cmd : Str) (tbl tbl' : Msghnds) : Prop :=
  ∀ j : Nat, tbl'.val[j]?.bind (slot cmd) = tbl.val[j]?.bind (slot cmd)

section Same

variable {cmd : Str} {tbl tbl' tbl'' : Msghnds}

theorem SameFor.refl (tbl : Msghnds) : SameFor cmd tbl tbl := fun _ => rfl

theorem SameFor.trans (h : SameFor cmd tbl tbl') (h' : SameFor cmd tbl' tbl'') :
    SameFor cmd tbl tbl'' :=
  fun j => (h' j).trans (h j)

theorem slot_eq_some {o : Option Msghnd} {e : Msghnd} :
    slot cmd o = some e ↔ o = some e ∧ e.cmd = cmd := by
  rw [slot, Option.filter_eq_some_iff, decide_eq_true_eq]

theorem filterMap_eq {α β : Type} {f : α → Option β} {l l' : List α}
    (h : ∀ j : Nat, l'[j]?.bind f = l[j]?.bind f) : l'.filterMap f = l.filterMap f := by
  induction l generalizing l' with
  | nil =>
    rw [List.filterMap_nil, List.filterMap_eq_nil_iff]
    intro a ha
    obtain ⟨j, hj⟩ := List.getElem?_of_mem ha
    have hnone := h j
    rwa [hj] at hnone
  | cons a l ih =>
    cases l' with
    | nil =>
      rw [List.filterMap_nil, eq_comm, List.filterMap_eq_nil_iff]
      intro b hb
      obtain ⟨j, hj⟩ := List.getElem?_of_mem hb
      have hnone := h j
      rw [hj] at hnone
      exact hnone.symm
    | cons b l' =>
      have hhead : f b = f a := h 0
      rw [List.filterMap_cons, List.filterMap_cons, hhead, ih fun j => h (j + 1)]

theorem SameFor.registered (h : SameFor cmd tbl tbl') (i : Nat) :
    registered cmd i tbl' = registered cmd i tbl := by
  apply filterMap_eq
  intro j
  rw [List.getElem?_drop, List.getElem?_drop]
  exact h (i + j)

theorem SameFor.mem (h : SameFor cmd tbl tbl') {e : Msghnd} (hcmd : e.cmd = cmd) :
    e ∈ occupied tbl' → e ∈ occupied tbl := by
  rw [mem_occupied, mem_occupied]
  intro he
  obtain ⟨j, hj⟩ := List.getElem?_of_mem he
  have hslot := h j
  rw [hj, Option.bind_some, slot_eq_some.2 ⟨rfl, hcmd⟩] at hslot
  obtain ⟨o, ho, hoe⟩ := Option.bind_eq_some_iff.1 hslot.symm
  obtain ⟨rfl, _⟩ := slot_eq_some.1 hoe
  exact List.mem_of_getElem? ho

theorem SameFor.steadfast (h : SameFor cmd tbl tbl') (hs : Steadfast cmd tbl) :
    Steadfast cmd tbl' := by
  intro e he hcmd h005
  obtain ⟨hnone, hmod⟩ := hs e (h.mem hcmd he) hcmd h005
  exact ⟨hnone, fun e' he' hcmd' => hmod e' (h.mem hcmd' he') hcmd'⟩

theorem slot_other {e : Msghnd} (hne : e.cmd ≠ cmd) : slot cmd (some e) = none := by
  rw [slot, Option.filter_some_neg (by simpa using hne)]

theorem setFirstFree_slots {e : Msghnd} (hne : e.cmd ≠ cmd) (l : List (Option Msghnd)) (j : Nat) :
    (setFirstFree e l)[j]?.bind (slot cmd) = l[j]?.bind (slot cmd) := by
  induction l generalizing j with
  | nil => rfl
  | cons o l ih =>
    cases o with
    | none =>
      cases j with
      | zero => exact slot_other hne
      | succ j => rfl
    | some e' =>
      cases j with
      | zero => rfl
      | succ j => exact ih j

theorem sameFor_add {e : Msghnd} (hne : e.cmd ≠ cmd) (tbl : Msghnds) :
    SameFor cmd tbl (tbl.add e) :=
  setFirstFree_slots hne tbl.val

theorem sameFor_double (cmd : Str) (tbl : Msghnds) : SameFor cmd tbl tbl.double := by
  intro j
  rw [Msghnds.double, List.getElem?_append]
  split
  · rfl
  · next hlen =>
    rw [List.getElem?_eq_none (Nat.not_lt.1 hlen), List.getElem?_replicate]
    split <;> rfl

theorem sameFor_without {m : Module} (h : ∀ e ∈ occupied tbl, e.cmd = cmd → e.module ≠ m) :
    SameFor cmd tbl (tbl.without m) := by
  intro j
  rw [Msghnds.without, List.getElem?_map]
  rcases hj : tbl.val[j]? with _ | _ | e
  · rfl
  · rfl
  · rw [Option.map_some, Option.bind_some, Option.bind_some]
    by_cases hcmd : e.cmd = cmd
    · have hm := h e (mem_occupied.2 (List.mem_of_getElem? hj)) hcmd
      rw [Option.filter_some_pos (by simpa using hm)]
    · rw [slot_other hcmd]
      by_cases hm : e.module = m
      · rw [Option.filter_some_neg (by simpa using hm)]
        rfl
      · rw [Option.filter_some_pos (by simpa using hm), slot_other hcmd]

theorem reghnd_sameFor (irc : Irc) {c : Str} (hne : strNcpy c 32 ≠ cmd) (h : Hnd) (m : Module) :
    SameFor cmd irc.msghnds (reghnd irc c h m).2.msghnds := by
  rw [reghnd]
  split
  · exact sameFor_add hne _
  · rw [Irc.malloc]
    split
    · next heq =>
      obtain ⟨_, rfl⟩ := Prod.mk.inj heq
      exact SameFor.refl _
    · next heq =>
      obtain ⟨_, rfl⟩ := Prod.mk.inj heq
      exact (sameFor_double cmd _).trans (sameFor_add hne _)

theorem reghnds_sameFor (hs : List (String × Hnd)) (m : Module)
    (hne : ∀ p ∈ hs, strNcpy (ascii p.1) 32 ≠ cmd) (irc : Irc) :
    SameFor cmd irc.msghnds (reghnds hs m irc).2.msghnds := by
  induction hs generalizing irc with
  | nil => exact SameFor.refl _
  | cons p hs ih =>
    have hstep := reghnd_sameFor irc (hne p List.mem_cons_self) p.2 m
    rw [reghnds]
    split
    · next irc₁ hreg =>
      rw [hreg] at hstep
      exact hstep
    · next irc₁ hreg =>
      rw [hreg] at hstep
      exact hstep.trans (ih (fun q hq => hne q (List.mem_cons_of_mem _ hq)) irc₁)

theorem trkInit_sameFor (irc : Irc) (hne : ∀ p ∈ trackHnds, ascii p.1 ≠ cmd)
    (hmod : ∀ e ∈ occupied irc.msghnds, e.cmd = cmd → e.module ≠ .track) :
    SameFor cmd irc.msghnds (trkInit irc).2.msghnds := by
  have hshort : ∀ p ∈ trackHnds, strNcpy (ascii p.1) 32 ≠ cmd := by
    intro p hp
    have hlen := short_hndsOf false .track p hp
    rw [strNcpy, List.take_of_length_le (by omega)]
    exact hne p hp
  have hreg := reghnds_sameFor trackHnds .track hshort irc
  rw [trkInit]
  split
  · next irc₁ h₁ =>
    rw [h₁] at hreg
    exact hreg.trans (sameFor_without fun e he hcmd => hmod e (hreg.mem hcmd he) hcmd)
  · next irc₁ h₁ =>
    rw [h₁] at hreg
    have hucb : (ucbInit irc₁).2.msghnds = irc₁.msghnds := by
      obtain ⟨_, hbase⟩ := ucbInit_spec irc₁
      rw [hbase]
    split
    · next irc₂ h₂ =>
      rw [h₂] at hucb
      refine hreg.trans ?_
      rw [← hucb]
      exact sameFor_without fun e he hcmd => hmod e (hreg.mem hcmd (hucb ▸ he)) hcmd
    · next irc₂ h₂ =>
      rw [h₂] at hucb
      dsimp only at hucb ⊢
      rw [hucb]
      exact hreg

end Same

section Order

variable {msg : Msg} {cmd : Str} {logon : Bool} {irc irc' : Irc}

theorem run_sameFor {e : Msghnd} (hs : Steadfast cmd irc.msghnds) (he : some e ∈ irc.msghnds.val)
    (hcmd : e.cmd = cmd) : Ensures (run e.hndfn irc msg msg.nargs logon) fun r =>
      SameFor cmd irc.msghnds r.2.msghnds := by
  by_cases h005 : e.hndfn = .handle_005
  · obtain ⟨hne, hmod⟩ := hs e (mem_occupied.2 he) hcmd h005
    refine (run_tracks irc msg msg.nargs logon e.hndfn).mono fun r hr => ?_
    obtain ⟨hsame, _⟩ | ⟨_, irc₁, hold, hnew, _⟩ := hr
    · rw [hsame]
      exact SameFor.refl _
    · rw [hnew, ← hold]
      exact trkInit_sameFor irc₁ hne (hold ▸ hmod)
  · refine (run_within irc msg msg.nargs logon h005).mono fun r hr => ?_
    obtain ⟨_, _, _, _, _, _, heq⟩ := hr
    rw [heq]
    exact SameFor.refl _

/-- The table does not outgrow the rounds of the loop: the tracking begins once at most. -/
structure Room (n : Nat) (irc : Irc) : Prop where
  length : irc.msghnds.val.length ≤ 2 * n + 30
  occupied : irc.trackingEnab = false → (occupied irc.msghnds).length ≤ n

theorem Room.init (irc : Irc) : Room irc.msghnds.val.length irc :=
  ⟨by omega, fun _ => List.reduceOption_length_le _⟩

theorem Room.tracks {n : Nat} (hr : Room n irc) (h : Tracks irc irc') : Room n irc' := by
  obtain ⟨htbl, hon⟩ | ⟨hoff, irc₁, hold, hnew, hon⟩ := h
  · exact ⟨htbl ▸ hr.length, fun h => htbl ▸ hr.occupied (hon ▸ h)⟩
  · have hocc := hr.occupied hoff
    obtain ⟨hcases, hlen⟩ := trkInit_occupied irc₁
    rw [hold] at hcases hlen
    refine ⟨?_, fun hoff' => ?_⟩
    · have hlength := hr.length
      rw [hnew]
      omega
    · rw [hon] at hoff'
      obtain ⟨hok, _⟩ | ⟨_, hperm⟩ := hcases
      · rw [hoff'] at hok
        cases hok
      · rw [hnew, hperm.length_eq]
        exact (List.length_filter_le _ _).trans hocc

theorem registered_none {i : Nat} {tbl : Msghnds} (h : tbl.val[i]? = none) :
    registered cmd i tbl = [] := by
  rw [registered, List.drop_of_length_le (List.getElem?_eq_none_iff.1 h), List.filterMap_nil]

theorem registered_some {i : Nat} {tbl : Msghnds} {o : Option Msghnd} (h : tbl.val[i]? = some o) :
    registered cmd i tbl = (slot cmd o).toList ++ registered cmd (i + 1) tbl := by
  obtain ⟨hi, hio⟩ := List.getElem?_eq_some_iff.1 h
  rw [registered, registered, List.drop_eq_getElem_cons hi, hio, List.filterMap_cons]
  cases slot cmd o <;> rfl

/-- The loop over the table calls the handlers that are registered when it begins. -/
theorem dispatch_eq {n : Nat} (k : Nat) {i : Nat} {res : Flags} (hr : Room n irc)
    (hs : Steadfast cmd irc.msghnds) (hk : 2 * n + 30 < i + k) :
    dispatch msg cmd logon k i res irc =
      callAll msg logon (registered cmd i irc.msghnds) res irc := by
  induction k generalizing i res irc with
  | zero =>
    have hlen := hr.length
    rw [registered_none (List.getElem?_eq_none (by omega))]
    rfl
  | succ k ih =>
    rw [dispatch]
    split
    · next hend =>
      rw [registered_none hend]
      rfl
    · next hfree =>
      rw [registered_some hfree, ih hr hs (by omega)]
      rfl
    · next e hslot =>
      rw [registered_some hslot]
      split
      · next hne =>
        rw [slot_other hne, ih hr hs (by omega)]
        rfl
      · next hcmd =>
        have hcmd := not_not.1 hcmd
        have he := List.mem_of_getElem? hslot
        rw [slot_eq_some.2 ⟨rfl, hcmd⟩, Option.toList_some, List.singleton_append, callAll]
        cases hrun : run e.hndfn irc msg msg.nargs logon with
        | error f => rfl
        | ok r =>
          obtain ⟨r, irc'⟩ := r
          have hsame : SameFor cmd irc.msghnds irc'.msghnds := run_sameFor hs he hcmd _ hrun
          have hroom : Room n irc' := hr.tracks (run_tracks irc msg msg.nargs logon e.hndfn _ hrun)
          rw [ok_bind, ok_bind]
          dsimp only
          rw [ih hroom (hsame.steadfast hs) (by omega), hsame.registered]

/-- During the logon precisely the registered handlers are called, in slot order. -/
theorem msgHandle_eq (users : UserHnds) (irc : Irc) (msg : Msg)
    (hs : ∀ cmd, msg.fld 1 = .ok cmd → Steadfast cmd irc.msghnds) :
    msgHandle users irc msg true =
      msg.fld 1 >>= fun cmd => callAll msg true (registered cmd 0 irc.msghnds) 0 irc := by
  have hhandle : msgHandle users irc msg true = msg.fld 1 >>= fun cmd =>
      dispatch msg cmd true (2 * irc.msghnds.val.length + 32) 0 0 irc := by
    simp only [msgHandle, if_true, Bool.not_true, Bool.false_eq_true, if_false]
    refine bind_congr fun cmd => ?_
    cases dispatch msg cmd true (2 * irc.msghnds.val.length + 32) 0 0 irc with
    | error f => rfl
    | ok r =>
      rw [ok_bind]
      split <;> rfl
  rw [hhandle]
  cases hcmd : msg.fld 1 with
  | error f => rfl
  | ok cmd =>
    rw [ok_bind, ok_bind]
    exact dispatch_eq _ (Room.init irc) (hs cmd hcmd) (by omega)

end Order

end Srsirc.DispatchOrder
