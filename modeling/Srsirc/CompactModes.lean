import Srsirc.FiledNames
import Srsirc.ModeChanges

namespace Srsirc.CompactModes

open CharMap Dictionary HeapCells Message ServerInfo UserBase ChannelModes
open Fallible FiledNames Slots ModeEntries ModeChanges

/-- What is done to the modes of a channel. A removal goes by the classes that the modes have
at the time. -/
inductive Op
  | add (modestr : Str)
  | drop (info : Info) (modestr : Str)
  | clear

def Op.run (c : Ptr) (b : Base) : Op → Except Fault (Bool × Base)
  | .add modestr => addChanmode b c modestr
  | .drop info modestr => dropChanmode info b c modestr
  | .clear => (clearChanmodes b c).map fun b => (true, b)

def runAll (c : Ptr) : List Op → Base → Except Fault Base
  | [], b => .ok b
  | op :: ops, b => op.run c b >>= fun r => runAll c ops r.2

def modesAt (b : Base) (c : Ptr) : List (Option Str) :=
  match b.chanHeap.get c with
  | none => []
  | some ch => ch.modes

def stored (b : Base) (c : Ptr) : List Str := (modesAt b c).reduceOption

/-- The modes that `lsi_ucb_dump` comes to. -/
def dumpModes : List (Option Str) → List Str
  | [] => []
  | none :: _ => []
  | some s :: modes => s :: dumpModes modes

/-- What a call does to the modes that are stored, by its result. -/
def Law : Op → Bool → List Str → List Str → Prop
  | .add modestr, true, es, es' => es'.Perm (modestr :: es)
  | .drop info modestr, true, es, es' => ∃ e, Meant info modestr e ∧ (e :: es').Perm es
  | .drop info modestr, false, es, es' => es' = es ∧ ∀ e ∈ es, ¬Meant info modestr e
  | .add _, false, es, es' => es' = es
  | .clear, _, _, es' => es' = []

variable {b b' : Base} {c : Ptr} {ch ch' : Chan} {info : Info} {modestr : Str}

theorem modesAt_eq (hch : b.chanHeap.get c = some ch) : modesAt b c = ch.modes := by
  rw [modesAt, hch]

theorem get_setChan (hch : b.chanHeap.get c = some ch) (ch' : Chan) :
    (b.setChan c ch').chanHeap.get c = some ch' := by
  rw [Base.setChan, get_set hch, Function.update_self]

theorem dumpModes_eq (modes : List (Option Str)) :
    dumpModes modes = (modes.takeWhile Option.isSome).reduceOption := by
  induction modes with
  | nil => rfl
  | cons o modes ih =>
    cases o with
    | none => rfl
    | some s => simpa [dumpModes] using ih

theorem dump_compact {modes : List (Option Str)} (h : Compact modes) :
    dumpModes modes = modes.reduceOption := by
  obtain ⟨es, n, rfl⟩ := h
  rw [dumpModes_eq, takeWhile_front, reduce_front]
  simpa using reduce_front es 0

/-- The channel is there, with room for modes and no hole among them. -/
structure Sound (c : Ptr) (b : Base) : Prop where
  chan : ∃ ch, b.chanHeap.get c = some ch
  room : modesAt b c ≠ []
  compact : Compact (modesAt b c)

theorem Sound.setChan (hch : b.chanHeap.get c = some ch) (hne : ch'.modes ≠ [])
    (hc : Compact ch'.modes) : Sound c (b.setChan c ch') := by
  have hget := get_setChan hch ch'
  refine ⟨⟨ch', hget⟩, ?_, ?_⟩
  · rwa [modesAt_eq hget]
  · rwa [modesAt_eq hget]

theorem stored_put (hch : b.chanHeap.get c = some ch) {modes : List (Option Str)}
    (hred : modes.reduceOption = ch.modes.reduceOption) (hcomp : Compact modes)
    (hfree : none ∈ modes) (s : Option Str) :
    let b' := b.setChan c { ch with modes := modes.set (modes.takeWhile Option.isSome).length s }
    Sound c b' ∧ match s with
      | some s => (stored b' c).Perm (s :: ch.modes.reduceOption)
      | none => stored b' c = ch.modes.reduceOption := by
  have hslot := firstFree hfree
  refine ⟨Sound.setChan hch ?_ (hcomp.fill hfree s), ?_⟩
  · exact fun hnil => List.ne_nil_of_mem hfree ((List.set_eq_nil_iff _ _).1 hnil)
  · simp only [stored, modesAt_eq (get_setChan hch _), ← hred]
    cases s with
    | some s => exact reduce_fill hslot s
    | none =>
      obtain ⟨hlt, hnone⟩ := List.getElem?_eq_some_iff.1 hslot
      have hsame := List.set_getElem_self hlt
      rw [hnone] at hsame
      simp only [hsame]

theorem addChanmode_law (h : Sound c b) (modestr : Str) :
    Returns (addChanmode b c modestr) fun r =>
      Sound c r.2 ∧ Law (.add modestr) r.1 (stored b c) (stored r.2 c) := by
  obtain ⟨ch, hch⟩ := h.chan
  have hcomp : Compact ch.modes := modesAt_eq hch ▸ h.compact
  have hne : ch.modes ≠ [] := modesAt_eq hch ▸ h.room
  have hput : ∀ (b₁ : Base) (modes : List (Option Str)), b₁.chanHeap = b.chanHeap →
      modes.reduceOption = ch.modes.reduceOption → Compact modes → none ∈ modes →
      ∀ s, s = none ∨ s = some modestr →
      let b' := b₁.setChan c { ch with
        modes := modes.set (modes.takeWhile Option.isSome).length s }
      Sound c b' ∧ Law (.add modestr) s.isSome (stored b c) (stored b' c) := by
    intro b₁ modes hheap hred hcm hfree s hs
    obtain ⟨hsound, hstored⟩ := stored_put (hheap ▸ hch) hred hcm hfree s
    refine ⟨hsound, ?_⟩
    obtain rfl | rfl := hs
    · simpa [Law, stored, modesAt_eq hch] using hstored
    · simpa [Law, stored, modesAt_eq hch] using hstored
  have hdup : ∀ b₁ : Base, (b₁.strdup modestr).1 = none ∨
      (b₁.strdup modestr).1 = some modestr := by
    intro b₁
    rw [Base.strdup]
    split
    · exact Or.inr rfl
    · exact Or.inl rfl
  rw [addChanmode, Base.chan, hch, ok_bind]
  dsimp only
  split
  · next hfree =>
    simp only [Bool.not_true, Bool.false_eq_true, if_false]
    exact Returns.ok (hput (b.strdup modestr).2 _ rfl rfl hcomp hfree _ (hdup b))
  · split
    · exact Returns.ok ⟨⟨⟨ch, hch⟩, h.room, h.compact⟩, rfl⟩
    · refine Returns.ok (hput (b.malloc.2.strdup modestr).2 _ rfl ?_ (hcomp.grow _) ?_ _ (hdup _))
      · rw [List.reduceOption_append, List.reduceOption_replicate_none, List.append_nil]
      · exact List.mem_append_right _ (List.mem_replicate.2
          ⟨fun h0 => hne (List.length_eq_zero_iff.1 h0), rfl⟩)

theorem dropChanmode_law (h : Sound c b) (info : Info) (modestr : Str) :
    Returns (dropChanmode info b c modestr) fun r =>
      Sound c r.2 ∧ Law (.drop info modestr) r.1 (stored b c) (stored r.2 c) := by
  obtain ⟨ch, hch⟩ := h.chan
  have hcomp : Compact ch.modes := modesAt_eq hch ▸ h.compact
  have hne : ch.modes ≠ [] := modesAt_eq hch ▸ h.room
  have hbefore : stored b c = ch.modes.reduceOption := by rw [stored, modesAt_eq hch]
  rw [dropChanmode, Base.chan, hch, ok_bind]
  split
  · next hnone => exact Returns.ok ⟨h, rfl, hbefore ▸ findChanmode_none hnone⟩
  · next i hi =>
    obtain ⟨e, hslot, hmeant⟩ := findChanmode_some hi
    have hpos := List.length_pos_iff.2 hne
    refine Returns.ok ⟨Sound.setChan hch ?_ (hcomp.move hslot rfl), e, hmeant, ?_⟩
    · dsimp only
      split
      · exact fun hnil => hne ((List.set_eq_nil_iff _ _).1 hnil)
      · exact fun hnil => hne ((List.set_eq_nil_iff _ _).1 ((List.set_eq_nil_iff _ _).1 hnil))
    · rw [hbefore, stored, modesAt_eq (get_setChan hch _)]
      dsimp only
      split
      · exact reduce_clear hslot
      · next hlast => exact reduce_move hslot (by omega) hlast

theorem clearChanmodes_law (h : Sound c b) :
    Returns (clearChanmodes b c) fun b' => Sound c b' ∧ stored b' c = [] := by
  obtain ⟨ch, hch⟩ := h.chan
  have hne : ch.modes ≠ [] := modesAt_eq hch ▸ h.room
  rw [clearChanmodes, Base.chan, hch, ok_bind]
  refine Returns.ok ⟨Sound.setChan hch ?_ (compact_cleared _), ?_⟩
  · exact fun hnil => hne (List.map_eq_nil_iff.1 hnil)
  · rw [stored, modesAt_eq (get_setChan hch _), List.map_const', List.reduceOption_replicate_none]

/-- One call keeps the array sound, and changes what is stored by the law. -/
theorem op_law (h : Sound c b) (op : Op) :
    Returns (op.run c b) fun r => Sound c r.2 ∧ Law op r.1 (stored b c) (stored r.2 c) := by
  cases op with
  | add modestr => exact addChanmode_law h modestr
  | drop info modestr => exact dropChanmode_law h info modestr
  | clear => exact (clearChanmodes_law h).map fun b' hb' => hb'

theorem runAll_sound {ops : List Op} (h : Sound c b) : Returns (runAll c ops b) (Sound c) := by
  induction ops generalizing b with
  | nil => exact Returns.ok h
  | cons op ops ih => exact (op_law h op).bind fun r hr => ih hr.1

theorem addChan_sound {cm : CMap} {name : Str} (h : addChan b cm name = (some c, b')) :
    Sound c b' := by
  obtain ⟨rfl, al, rfl⟩ := addChan_some h
  have hch : (b.chanHeap.new (newChan cm name)).get b.chanHeap.next = some (newChan cm name) := by
    rw [get_new, Function.update_self]
  refine ⟨⟨_, hch⟩, ?_, ?_⟩
  · rw [modesAt_eq hch]
    exact List.cons_ne_nil _ _
  · rw [modesAt_eq hch]
    exact compact_empty 16

/-- On a channel that was added, whatever is done to its modes and whichever allocations fail,
the modes that are stored come first in the array, so that a dump has them all, and a call
adds its mode, removes one that is meant, or leaves what is stored as it is. -/
theorem modes_compact {cm : CMap} {name : Str} (h : addChan b cm name = (some c, b'))
    (ops : List Op) :
    ∃ b₁, runAll c ops b' = .ok b₁ ∧ Compact (modesAt b₁ c) ∧
      dumpModes (modesAt b₁ c) = stored b₁ c ∧
      ∀ op, ∃ ok b₂, op.run c b₁ = .ok (ok, b₂) ∧ Compact (modesAt b₂ c) ∧
        Law op ok (stored b₁ c) (stored b₂ c) := by
  obtain ⟨b₁, hrun, hs⟩ := @runAll_sound _ _ ops (addChan_sound h)
  refine ⟨b₁, hrun, hs.compact, dump_compact hs.compact, fun op => ?_⟩
  obtain ⟨⟨ok, b₂⟩, hop, hs', hlaw⟩ := op_law hs op
  exact ⟨ok, b₂, hop, hs'.compact, hlaw⟩

/-- The array of a channel grows for its seventeenth mode, and a removal fills the gap. -/
theorem modes_compact_grown :
    ∃ c b b₁, addChan (Base.init .rfc1459) .rfc1459 (ascii "#a") = (some c, b) ∧
      runAll c (List.replicate 17 (.add (ascii "b m!*@*")) ++
        [.add (ascii "n"), .drop .init (ascii "b m!*@*")]) b = .ok b₁ ∧
      Compact (modesAt b₁ c) ∧ dumpModes (modesAt b₁ c) = stored b₁ c := by
  obtain ⟨c, -, b, -, hadd, -⟩ := init_added (ascii "#a") []
  obtain ⟨b₁, hrun, hcomp, hdump, -⟩ := modes_compact hadd
    (List.replicate 17 (.add (ascii "b m!*@*")) ++ [.add (ascii "n"),
      .drop .init (ascii "b m!*@*")])
  exact ⟨c, b, b₁, hadd, hrun, hcomp, hdump⟩

end Srsirc.CompactModes
