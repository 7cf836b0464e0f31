import Mathlib.Data.List.ReduceOption
import Srsirc.Registry

namespace Srsirc.HandlerTable

open CharMap Message UserBase Context Connect Registry

/-- The handlers in the occupied slots, in slot order. -/
def occupied (tbl : Msghnds) : List Msghnd := tbl.val.reduceOption

inductive Op
  | register (cmd : Str) (hndfn : Hnd) (module : Module)
  | unregister (module : Module)

def Op.exec (irc : Irc) : Op → Irc
  | .register cmd hndfn module => (reghnd irc cmd hndfn module).2
  | .unregister module => unregall irc module

def Op.note (regs : List Msghnd) : Op → List Msghnd
  | .register cmd hndfn module => ⟨cmd, hndfn, module⟩ :: regs
  | .unregister module => regs.filter fun e => e.module ≠ module

/-- The command of a registration fits into its slot, and is not the mark of a free one. -/
def Op.Fits : Op → Prop
  | .register cmd _ _ => 1 ≤ cmd.length ∧ cmd.length ≤ 31
  | .unregister _ => True

instance : DecidablePred Op.Fits
  | .register _ _ _ => inferInstanceAs (Decidable (_ ∧ _))
  | .unregister _ => inferInstanceAs (Decidable True)

section Slots

variable {e : Msghnd} {tbl : List (Option Msghnd)}

theorem setFirstFree_perm (h : none ∈ tbl) :
    (setFirstFree e tbl).reduceOption.Perm (e :: tbl.reduceOption) := by
  induction tbl with
  | nil => cases h
  | cons y tbl ih =>
    cases y with
    | none => exact List.Perm.refl _
    | some y =>
      have htail : none ∈ tbl := by simpa using h
      exact ((ih htail).cons y).trans (List.Perm.swap e y _)

theorem setFirstFree_length : (setFirstFree e tbl).length = tbl.length := by
  induction tbl with
  | nil => rfl
  | cons y tbl ih =>
    cases y with
    | none => rfl
    | some y => rw [setFirstFree, List.length_cons, ih, List.length_cons]

theorem reduceOption_full {l : List (Option Msghnd)} (h : none ∉ l) :
    l.reduceOption.length = l.length := by
  induction l with
  | nil => rfl
  | cons y l ih =>
    cases y with
    | none => exact absurd List.mem_cons_self h
    | some y =>
      rw [List.reduceOption_cons_of_some, List.length_cons, List.length_cons,
        ih fun hl => h (List.mem_cons_of_mem _ hl)]

theorem reduceOption_map_filter (q : Msghnd → Bool) (l : List (Option Msghnd)) :
    (l.map (Option.filter q)).reduceOption = l.reduceOption.filter q := by
  induction l with
  | nil => rfl
  | cons y l ih =>
    cases y with
    | none => exact ih
    | some y =>
      rw [List.map_cons, Option.filter_some, List.reduceOption_cons_of_some, List.filter_cons]
      split
      · rw [List.reduceOption_cons_of_some, ih]
      · rw [List.reduceOption_cons_of_none, ih]

end Slots

theorem mem_occupied {tbl : Msghnds} {e : Msghnd} : e ∈ occupied tbl ↔ some e ∈ tbl.val :=
  List.reduceOption_mem_iff

theorem occupied_add (tbl : Msghnds) (e : Msghnd) (h : none ∈ tbl.val) :
    (occupied (tbl.add e)).Perm (e :: occupied tbl) := setFirstFree_perm h

theorem occupied_double (tbl : Msghnds) : occupied tbl.double = occupied tbl := by
  rw [occupied, Msghnds.double, List.reduceOption_append, List.reduceOption_replicate_none,
    List.append_nil, occupied]

theorem occupied_without (tbl : Msghnds) (m : Module) :
    occupied (tbl.without m) = (occupied tbl).filter fun e => e.module ≠ m :=
  reduceOption_map_filter _ _

/-- A registration ends up in the table once, unless there is no memory for a larger one. -/
theorem reghnd_cases (irc : Irc) (cmd : Str) (h : Hnd) (m : Module) :
    (reghnd irc cmd h m).1 = true ∧
        (occupied (reghnd irc cmd h m).2.msghnds).Perm
          (⟨strNcpy cmd 32, h, m⟩ :: occupied irc.msghnds) ∨
      (reghnd irc cmd h m).1 = false ∧ (reghnd irc cmd h m).2.msghnds = irc.msghnds := by
  rw [reghnd]
  split
  · next hfree => exact Or.inl ⟨rfl, occupied_add _ _ hfree⟩
  · rw [Irc.malloc]
    split
    · next heq =>
      obtain ⟨_, rfl⟩ := Prod.mk.inj heq
      exact Or.inr ⟨rfl, rfl⟩
    · next heq =>
      obtain ⟨_, rfl⟩ := Prod.mk.inj heq
      refine Or.inl ⟨rfl, ?_⟩
      have hadd := occupied_add irc.msghnds.double ⟨strNcpy cmd 32, h, m⟩ (none_mem_double _)
      rwa [occupied_double] at hadd

theorem reghnd_length (irc : Irc) (cmd : Str) (h : Hnd) (m : Module) :
    (reghnd irc cmd h m).2.msghnds.val.length ≤
      max irc.msghnds.val.length (2 * (occupied irc.msghnds).length) := by
  rw [reghnd]
  split
  · rw [Msghnds.add, setFirstFree_length]
    exact Nat.le_max_left _ _
  · next hfull =>
    rw [Irc.malloc]
    split
    · next heq =>
      obtain ⟨_, rfl⟩ := Prod.mk.inj heq
      exact Nat.le_max_left _ _
    · next heq =>
      obtain ⟨_, rfl⟩ := Prod.mk.inj heq
      have hlen := reduceOption_full hfull
      rw [Msghnds.add, setFirstFree_length, Msghnds.double, List.length_append,
        List.length_replicate,
        occupied, hlen, Nat.two_mul]
      exact Nat.le_max_right _ _

theorem reghnd_al {irc : Irc} (hal : irc.base.al = []) (cmd : Str) (h : Hnd) (m : Module) :
    (reghnd irc cmd h m).1 = true ∧ (reghnd irc cmd h m).2.base.al = [] := by
  have hmal : irc.malloc = (true, irc) := by
    rw [Irc.malloc, Base.malloc, hal]
    simp only [BucketList.malloc, ← hal]
  rw [reghnd]
  split
  · exact ⟨rfl, hal⟩
  · rw [hmal]
    exact ⟨rfl, hal⟩

theorem exec_step {irc : Irc} (hal : irc.base.al = []) {op : Op} (hfit : op.Fits)
    {regs : List Msghnd}
    (h : (occupied irc.msghnds).Perm regs) :
    (op.exec irc).base.al = [] ∧ (occupied (op.exec irc).msghnds).Perm (op.note regs) := by
  cases op with
  | register cmd hndfn module =>
    obtain ⟨hok, hal'⟩ := reghnd_al hal cmd hndfn module
    obtain ⟨_, hperm⟩ | ⟨hno, _⟩ := reghnd_cases irc cmd hndfn module
    · have hcmd : strNcpy cmd 32 = cmd := List.take_of_length_le hfit.2
      rw [hcmd] at hperm
      exact ⟨hal', hperm.trans (h.cons _)⟩
    · rw [hok] at hno
      cases hno
  | unregister module =>
    refine ⟨hal, ?_⟩
    rw [Op.exec, unregall, occupied_without]
    exact h.filter _

/-- The occupied slots are the registrations that were not unregistered, each once. -/
theorem exec_occupied (ops : List Op) (hfit : ∀ op ∈ ops, op.Fits) {irc : Irc}
    (hal : irc.base.al = [])
    {regs : List Msghnd} (h : (occupied irc.msghnds).Perm regs) :
    (occupied (ops.foldl Op.exec irc).msghnds).Perm (ops.foldl Op.note regs) := by
  induction ops generalizing irc regs with
  | nil => exact h
  | cons op ops ih =>
    obtain ⟨hal', h'⟩ := exec_step hal (hfit op List.mem_cons_self) h
    exact ih (fun op' hop' => hfit op' (List.mem_cons_of_mem _ hop')) hal' h'

section Modules

variable {m : Module} {irc irc' : Irc} {ok : Bool}

def entry (m : Module) (p : String × Hnd) : Msghnd := ⟨ascii p.1, p.2, m⟩

theorem reghnds_occupied (hs : List (String × Hnd)) (hlen : ∀ p ∈ hs, (ascii p.1).length < 32)
    (h : reghnds hs m irc = (ok, irc')) : ∃ pre, pre <+: hs ∧ (ok = true → pre = hs) ∧
      (occupied irc'.msghnds).Perm (pre.map (entry m) ++ occupied irc.msghnds) := by
  induction hs generalizing irc with
  | nil =>
    cases h
    exact ⟨[], List.nil_prefix, fun _ => rfl, List.Perm.refl _⟩
  | cons p hs ih =>
    have hshort := hlen p List.mem_cons_self
    have hcmd : strNcpy (ascii p.1) 32 = ascii p.1 := List.take_of_length_le (by omega)
    have hcases := reghnd_cases irc (ascii p.1) p.2 m
    rw [hcmd] at hcases
    rw [reghnds] at h
    split at h
    · next irc₁ hreg =>
      cases h
      rw [hreg] at hcases
      obtain ⟨hok, _⟩ | ⟨_, hsame⟩ := hcases
      · cases hok
      · exact ⟨[], List.nil_prefix, fun hok => (Bool.false_ne_true hok).elim, by rw [hsame]; rfl⟩
    · next irc₁ hreg =>
      rw [hreg] at hcases
      obtain ⟨_, hperm⟩ | ⟨hno, _⟩ := hcases
      · obtain ⟨pre, hpre, hall, hperm'⟩ := ih (fun q hq => hlen q (List.mem_cons_of_mem _ hq)) h
        refine ⟨p :: pre, List.prefix_cons_inj p |>.2 hpre, fun hok => by rw [hall hok], ?_⟩
        exact hperm'.trans ((hperm.append_left _).trans List.perm_middle)
      · cases hno

theorem reghnds_length (hs : List (String × Hnd)) (m : Module) (irc : Irc) :
    (reghnds hs m irc).2.msghnds.val.length ≤
      max irc.msghnds.val.length (2 * ((occupied irc.msghnds).length + hs.length - 1)) := by
  induction hs generalizing irc with
  | nil => exact Nat.le_max_left _ _
  | cons p hs ih =>
    have hlen := reghnd_length irc (ascii p.1) p.2 m
    have hcount : (occupied (reghnd irc (ascii p.1) p.2 m).2.msghnds).length ≤
        (occupied irc.msghnds).length + 1 := by
      obtain ⟨_, hperm⟩ | ⟨_, hsame⟩ := reghnd_cases irc (ascii p.1) p.2 m
      · rw [hperm.length_eq, List.length_cons]
      · rw [hsame]
        exact Nat.le_succ _
    rw [reghnds, List.length_cons]
    split
    · next irc₁ hreg =>
      rw [hreg] at hlen
      dsimp only at hlen ⊢
      omega
    · next irc₁ hreg =>
      have hrest := ih irc₁
      rw [hreg] at hlen hcount
      dsimp only at hlen hcount
      omega

theorem filter_entries (pre : List (String × Hnd)) (m : Module) :
    ((pre.map (entry m)).filter fun e => e.module ≠ m) = [] := by
  rw [List.filter_eq_nil_iff]
  intro e he
  obtain ⟨p, _, rfl⟩ := List.mem_map.1 he
  simp [entry]

theorem trkInit_occupied (irc : Irc) :
    ((trkInit irc).1 = true ∧
        (occupied (trkInit irc).2.msghnds).Perm
          (trackHnds.map (entry .track) ++ occupied irc.msghnds) ∨
      (trkInit irc).1 = false ∧ (occupied (trkInit irc).2.msghnds).Perm
        ((occupied irc.msghnds).filter fun e => e.module ≠ .track)) ∧
    (trkInit irc).2.msghnds.val.length ≤
      max irc.msghnds.val.length (2 * ((occupied irc.msghnds).length + 15)) := by
  have hlen := reghnds_length trackHnds .track irc
  have hwithout : ∀ {ok irc₁}, reghnds trackHnds .track irc = (ok, irc₁) →
      (occupied (irc₁.msghnds.without .track)).Perm
        ((occupied irc.msghnds).filter fun e => e.module ≠ .track) := by
    intro ok irc₁ hreg
    obtain ⟨pre, _, _, hperm⟩ := reghnds_occupied trackHnds (short_hndsOf false .track) hreg
    rw [occupied_without]
    have hfilter := hperm.filter fun e => e.module ≠ .track
    rwa [List.filter_append, filter_entries, List.nil_append] at hfilter
  rw [trkInit]
  split
  · next irc₁ hreg =>
    rw [hreg] at hlen
    exact ⟨Or.inr ⟨rfl, hwithout hreg⟩,
      by rw [unregall, Msghnds.without, List.length_map]; exact hlen⟩
  · next irc₁ hreg =>
    rw [hreg] at hlen
    have hucb : (ucbInit irc₁).2.msghnds = irc₁.msghnds := by
      obtain ⟨_, hbase⟩ := ucbInit_spec irc₁
      rw [hbase]
    split
    · next irc₂ hinit =>
      rw [hinit] at hucb
      dsimp only at hucb
      refine ⟨Or.inr ⟨rfl, ?_⟩, ?_⟩
      · rw [unregall, hucb]
        exact hwithout hreg
      · rw [unregall, Msghnds.without, List.length_map, hucb]
        exact hlen
    · next irc₂ hinit =>
      rw [hinit] at hucb
      dsimp only at hucb ⊢
      rw [hucb]
      obtain ⟨pre, _, hall, hperm⟩ := reghnds_occupied trackHnds (short_hndsOf false .track) hreg
      exact ⟨Or.inl ⟨rfl, hall rfl ▸ hperm⟩, hlen⟩

end Modules

end Srsirc.HandlerTable
