import Srsirc.HandlerCalls
import Srsirc.ModePrefixes
import Srsirc.OneCasemap

namespace Srsirc.PrefixTable

open CharMap Dictionary HeapCells Message ServerInfo UserBase Context Conn CoreHandlers Dispatch
open Connect
open Registry Fallible MapAgreement Casemapping HandlerCalls OneCasemap ModePrefixes

/-- The table that `handle_005_PREFIX` accepts. -/
def accepted (val : Str) : Option (Str × Str) :=
  let r := handle_005_PREFIX .init val
  if r.1.has CANT_PROCEED then none else some r.2.m005modepfx

def tableOf (attr : Str) : Option (Str × Str) :=
  let nam := attr.takeWhile (· != 0x3d)
  if sameIgnoringCase nam "CASEMAPPING" then none
  else if sameIgnoringCase nam "PREFIX" then accepted (attr.drop (nam.length + 1))
  else none

def offered (msg : Msg) : Option (Str × Str) := lastBy tableOf msg (msg.nargs - 1 - 3) 3

/-- The prefixes of all members are ranked by these symbols. -/
def Suited (syms : Str) (b : Base) : Prop :=
  ∀ c ch, b.chanHeap.get c = some ch → ∀ m ∈ ch.memb.vals, Ranked syms m.modepfx

/-- The prefixes of all members are ranked by the table in force. -/
def Within (irc : Irc) : Prop := Suited irc.info.m005modepfx.2 irc.base

/-- The table that a 005 sets has the symbols that are in use, in the order in which they are
used. -/
def Fits (irc : Irc) : Event → Prop
  | .message msg _ => msg.fld 1 = .ok (ascii "005") →
      ∀ table ∈ offered msg, Suited table.2 irc.base
  | .other _ _ => True

def FitsAll (users : UserHnds) : List Event → Irc → Prop
  | [], _ => True
  | e :: es, irc => Fits irc e ∧ ∀ irc', happen users irc e = .ok irc' → FitsAll users es irc'

theorem suited_iff {syms : Str} {b : Base} : Suited syms b ↔
    ∀ o ∈ b.chanHeap.cells, ∀ ch ∈ o, ∀ m ∈ ch.memb.vals, Ranked syms m.modepfx := by
  constructor
  · rintro h _ ho ch rfl
    obtain ⟨c, hc⟩ := List.getElem?_of_mem ho
    exact h c ch (by rw [Heap.get, hc]; rfl)
  · intro h c ch hc
    rw [Heap.get, Option.getD_eq_iff] at hc
    obtain hc | ⟨_, hc⟩ := hc
    · exact h _ (List.mem_of_getElem? hc) ch rfl
    · cases hc

instance (syms : Str) (b : Base) : Decidable (Suited syms b) := decidable_of_iff _ suited_iff.symm

instance : DecidablePred Within := fun _ => inferInstanceAs (Decidable (Suited _ _))

instance (irc : Irc) : DecidablePred (Fits irc)
  | .message msg _ => inferInstanceAs (Decidable (msg.fld 1 = .ok (ascii "005") →
      ∀ table ∈ offered msg, Suited table.2 irc.base))
  | .other _ _ => .isTrue trivial

instance decidableFitsAll (users : UserHnds) : ∀ es irc, Decidable (FitsAll users es irc)
  | [], _ => .isTrue trivial
  | e :: es, irc =>
    have : Decidable (∀ irc', happen users irc e = .ok irc' → FitsAll users es irc') :=
      match happen users irc e with
      | .error _ => .isTrue fun _ h => by cases h
      | .ok irc' =>
        have := decidableFitsAll users es irc'
        decidable_of_iff (FitsAll users es irc') ⟨fun h _ he => Except.ok.inj he ▸ h,
          fun h => h irc' rfl⟩
    inferInstanceAs (Decidable (Fits irc e ∧ _))

def hndCompared (msg : Msg) : Hnd × Irc → List (UInt8 × UInt8)
  | (.h_MODE, irc) => h_MODE_compared irc.info msg msg.nargs irc.base
  | _ => []

theorem tableOf_bad {attr : Str} (hb : badAttr attr = true) : tableOf attr = none := by
  simp only [badAttr, Bool.and_eq_true, Bool.not_eq_true'] at hb
  obtain ⟨⟨hcm, hpfx⟩, hflags⟩ := hb
  simp only [tableOf, hcm, hpfx, accepted, hflags, if_true, Bool.false_eq_true, if_false]

theorem handle_005_PREFIX_table (info : Info) (val : Str) :
    (handle_005_PREFIX info val).2.m005modepfx = (accepted val).getD info.m005modepfx := by
  have hbad : PROTO_ERR.has CANT_PROCEED = true := by decide
  have hgood : Flags.has 0 CANT_PROCEED = false := by decide
  cases val with
  | nil => simp [handle_005_PREFIX, accepted, hbad]
  | cons c rest =>
    rw [accepted, handle_005_PREFIX, handle_005_PREFIX]
    cases (strNcpy rest 32).findIdx? (· == 0x29) with
    | none => simp [hbad]
    | some i =>
      dsimp only
      split
      · simp
      · simp [hgood]

theorem handleAttr_table (info : Info) (attr : Str) {val : Option Str}
    (hval : ∀ v, val = some v → v = attr.drop ((attr.takeWhile (· != 0x3d)).length + 1)) :
    Ensures (handleAttr info (attr.takeWhile (· != 0x3d)) val) fun r =>
      r.2.m005modepfx = (tableOf attr).getD info.m005modepfx := by
  rw [tableOf]
  generalize attr.takeWhile (· != 0x3d) = nam at hval ⊢
  cases val with
  | none =>
    refine Ensures.ite (fun _ => Ensures.error) fun h =>
      Ensures.ite (fun _ => Ensures.error) fun hp => ?_
    rw [if_neg h, if_neg hp]
    exact Ensures.ite (fun _ => Ensures.error) fun _ =>
      Ensures.ite (fun _ => Ensures.error) fun _ => Ensures.ok rfl
  | some v =>
    obtain rfl := hval v rfl
    refine Ensures.ite (fun h => Ensures.ok ?_) fun h =>
      Ensures.ite (fun hp => Ensures.ok ?_) fun hp => ?_
    · rw [if_pos h]
      rfl
    · rw [if_neg h, if_pos hp]
      exact handle_005_PREFIX_table _ _
    · rw [if_neg h, if_neg hp]
      exact Ensures.ite (fun _ => Ensures.ok rfl) fun _ =>
        Ensures.ite (fun _ => Ensures.ok rfl) fun _ => Ensures.ok rfl

theorem noteAttr_table (irc : Irc) (attr : Str) : Ensures (noteAttr irc attr) fun r =>
    r.2.base.chanHeap = irc.base.chanHeap ∧
      r.2.info.m005modepfx = (tableOf attr).getD irc.info.m005modepfx := by
  rw [noteAttr]
  dsimp only [Irc.strdup, Base.strdup]
  refine (handleAttr_table _ attr ?_).bind fun r h => ?_
  · intro v hv
    split at hv
    · exact (Option.some.inj hv).symm
    · cases hv
  · exact Ensures.ok ⟨rfl, h⟩

theorem noteAttrs_table (msg : Msg) (irc : Irc) :
    Ensures (noteAttrs msg (msg.nargs - 1 - 3) 3 irc) fun r =>
    r.2.2.base.chanHeap = irc.base.chanHeap ∧
      r.2.2.info.m005modepfx = (offered msg).getD irc.info.m005modepfx := by
  refine noteAttrs_rule (g := fun irc => irc.info.m005modepfx)
    (R := fun irc irc' => irc'.base.chanHeap = irc.base.chanHeap) (fun _ => rfl)
    (fun _ _ _ h h' => h'.trans h) (fun _ => tableOf_bad) (fun irc attr r hr => ?_) msg _ 3 irc
  obtain ⟨hheap, htable⟩ := noteAttr_table irc attr r hr
  exact ⟨hheap, htable, (noteAttr_noted irc attr r hr).2⟩

theorem reghnds_heap (hs : List (String × Hnd)) {m : Module} {irc irc' : Irc} {ok : Bool}
    (h : reghnds hs m irc = (ok, irc')) : irc'.base.chanHeap = irc.base.chanHeap := by
  induction hs generalizing irc with
  | nil =>
    cases h
    rfl
  | cons p hs ih =>
    have hreg : (reghnd irc (ascii p.1) p.2 m).2.base.chanHeap = irc.base.chanHeap := by
      rw [reghnd]
      dsimp only [Irc.malloc]
      split
      · rfl
      · split
        · next heq =>
          obtain ⟨_, rfl⟩ := Prod.mk.inj heq
          rfl
        · next heq =>
          obtain ⟨_, rfl⟩ := Prod.mk.inj heq
          rfl
    rw [reghnds] at h
    split at h
    · next heq =>
      rw [heq] at hreg
      cases h
      exact hreg
    · next heq =>
      rw [heq] at hreg
      exact (ih h).trans hreg

theorem ucbInit_heap (irc : Irc) :
    (ucbInit irc).2.base.chanHeap = irc.base.chanHeap ∨ (ucbInit irc).2.base.chanHeap = .empty := by
  rw [ucbInit]
  dsimp only [Irc.malloc]
  split
  · exact Or.inl rfl
  · split
    · exact Or.inl rfl
    · split
      · exact Or.inl rfl
      · split
        · exact Or.inl rfl
        · exact Or.inr rfl

theorem trkInit_heap (irc : Irc) :
    (trkInit irc).2.base.chanHeap = irc.base.chanHeap ∨ (trkInit irc).2.base.chanHeap = .empty := by
  rw [trkInit]
  split
  · next irc₁ h =>
    have hreg := reghnds_heap _ h
    exact Or.inl hreg
  · next irc₁ h =>
    have hucb := ucbInit_heap irc₁
    rw [reghnds_heap _ h] at hucb
    split <;> next h₂ => rwa [h₂] at hucb

theorem suited_empty {b : Base} (h : b.chanHeap = .empty) (syms : Str) : Suited syms b := by
  intro c ch hc
  rw [h, get_empty] at hc
  cases hc

theorem stocked_iff {info : Info} {b : Base} : Stocked info b ↔
    ∀ c ch, b.chanHeap.get c = some ch → ∀ m ∈ ch.memb.vals, Kept info.m005modepfx.2 m.modepfx :=
  ⟨fun h c ch hc => (h.memb c ch hc).modepfx,
    fun h => ⟨trivial, trivial, fun c ch hc => ⟨trivial, h c ch hc⟩⟩⟩

structure Held (msg : Msg) (cmd : Str) (irc : Irc) : Prop where
  table : Table irc
  stocked : Stocked irc.info irc.base
  fits : cmd = ascii "005" → ∀ table, offered msg = some table → Suited table.2 irc.base

theorem handle_005_held {irc : Irc} {msg : Msg} (h : Held msg (ascii "005") irc) (logon : Bool) :
    Ensures (handle_005 irc msg msg.nargs logon) fun r => Stocked r.2.info r.2.base ∧
      ∀ table, offered msg = some table → Suited table.2 r.2.base := by
  refine (noteAttrs_table msg irc).bind fun ⟨ret, haveCasemap, irc₁⟩ ⟨hheap, htable⟩ => ?_
  dsimp only at hheap htable ⊢
  have hafter : ∀ irc₂ : Irc, irc₂.info.m005modepfx = irc₁.info.m005modepfx →
      irc₂.base.chanHeap = irc.base.chanHeap ∨ irc₂.base.chanHeap = .empty →
      Stocked irc₂.info irc₂.base ∧ ∀ table, offered msg = some table →
        Suited table.2 irc₂.base := by
    rintro irc₂ hinfo (hsame | hempty)
    · refine ⟨stocked_iff.2 fun c ch hc m hm => ?_, fun table ht c ch hc => ?_⟩
      · rw [hsame] at hc
        have hk := stocked_iff.1 h.stocked c ch hc m hm
        rw [hinfo, htable]
        cases ht : offered msg with
        | none => exact hk
        | some table => exact ⟨h.fits rfl table ht c ch hc m hm, hk.2⟩
      · rw [hsame] at hc
        exact h.fits rfl table ht c ch hc
    · refine ⟨stocked_iff.2 fun c ch hc => ?_, fun table _ => suited_empty hempty _⟩
      rw [hempty, get_empty] at hc
      cases hc
  have hstay := hafter irc₁ rfl (Or.inl hheap)
  refine Ensures.ite (fun _ => Ensures.ok hstay) fun _ => Ensures.ite (fun _ => ?_) fun _ =>
    Ensures.ok hstay
  have hinit := trkInit_heap irc₁
  obtain ⟨_, _, _, haside⟩ := trkInit_spec irc₁
  rw [hheap] at hinit
  split
  · next irc₂ h₂ =>
    rw [h₂] at hinit haside
    exact Ensures.ok (hafter irc₂ (by rw [show irc₂ = _ from haside]) hinit)
  · next irc₂ h₂ =>
    rw [h₂] at hinit haside
    exact Ensures.ok
      (hafter { irc₂ with trackingEnab := true } (by rw [show irc₂ = _ from haside]) hinit)

theorem hnd_005 {dumb : Bool} {m : Module} :
    ∀ p ∈ hndsOf dumb m, ascii p.1 = ascii "005" → p.2 = .handle_005 := by
  cases dumb <;> cases m <;> decide

theorem run_held {irc : Irc} {e : Msghnd} {msg : Msg} {cmd : Str} {logon : Bool}
    (h : Held msg cmd irc)
    (he : some e ∈ irc.msghnds.val) (hcmd : e.cmd = cmd) :
    Ensures (run e.hndfn irc msg msg.nargs logon) fun r => Held msg cmd r.2 := by
  intro r hr
  have ht := h.table.kept (CapSpecs.run_conduct e.hndfn irc msg msg.nargs logon r hr).kept
  obtain ⟨c, hc, hec⟩ := h.table.known e he
  by_cases h005 : e.hndfn = .handle_005
  · rw [h005] at hc hr
    obtain rfl : cmd = ascii "005" := by rw [← hcmd, hec, cmd_005 hc]
    obtain ⟨hs, hf⟩ := handle_005_held h logon r hr
    exact ⟨ht, hs, fun _ => hf⟩
  · have hst := run_steady h005 irc msg msg.nargs logon r hr
    refine ⟨ht, ?_, fun h5 => absurd (hnd_005 _ hc ?_) h005⟩
    · rw [Stocked, hst.modepfx]
      exact hst.fitted _ _ trivial (suits_kept _) h.stocked
    · rw [← h5, ← hcmd, hec]

variable {pre post : Irc → Msg → Nat → Bool}

structure Sound (irc : Irc) : Prop where
  table : Table irc
  stocked : Stocked irc.info irc.base

theorem Sound.held {irc : Irc} {msg : Msg} {cmd : Str} {logon : Bool} (h : Sound irc)
    (hf : Fits irc (.message msg logon)) (hcmd : msg.fld 1 = .ok cmd) : Held msg cmd irc :=
  ⟨h.table, h.stocked, fun h5 => hf (h5 ▸ hcmd)⟩

theorem msgHandle_sound {irc : Irc} {msg : Msg} {logon : Bool} (h : Sound irc)
    (hf : Fits irc (.message msg logon)) :
    Ensures (msgHandle (onlookers pre post) irc msg logon) fun r => Sound r.2 := by
  apply msgHandle_onlookers (J := Held msg) (K := Sound)
  · exact fun _ _ _ h he hc => run_held h he hc
  · exact fun _ _ h => ⟨h.table, h.stocked⟩
  · exact h
  · exact fun cmd hcmd => h.held hf hcmd

theorem msgCalls_found {irc : Irc} {msg : Msg} {logon : Bool} (h : Sound irc)
    (hf : Fits irc (.message msg logon)) : ∀ call ∈ msgCalls (onlookers pre post) irc msg logon,
      ∀ p ∈ hndCompared msg call, Found call.2.info p := by
  have hcalls :
      ∀ call ∈ msgCalls (onlookers pre post) irc msg logon, Stocked call.2.info call.2.base := by
    have hgo : ∀ cmd, msg.fld 1 = .ok cmd →
        ∀ call ∈ dispatchCalls msg cmd logon (2 * irc.msghnds.val.length + 32) 0 0 irc,
          Stocked call.2.info call.2.base := fun cmd hcmd call hc =>
      (dispatchCalls_rule (fun _ _ h he hc => run_held h he hc) _ (h.held hf hcmd) call hc).stocked
    have hnone : ∀ call ∈ ([] : List (Hnd × Irc)), Stocked call.2.info call.2.base :=
      fun _ hc => absurd hc List.not_mem_nil
    rw [msgCalls]
    cases hcmd : msg.fld 1 with
    | error e =>
      split
      · exact hnone
      · exact hnone
    | ok cmd =>
      cases logon with
      | true => exact hgo cmd hcmd
      | false =>
        simp only [onlookers, Bool.false_eq_true, if_false]
        cases pre irc msg msg.nargs with
        | false => exact hnone
        | true => exact hgo cmd hcmd
  intro call hc p hp
  unfold hndCompared at hp
  split at hp
  · exact h_MODE_found msg msg.nargs (hcalls _ hc) p hp
  · cases hp

theorem happen_sound {irc : Irc} {e : Event} (h : Sound irc) (hf : Fits irc e) :
    Ensures (happen (onlookers pre post) irc e) Sound := by
  cases e with
  | message msg logon => exact (msgHandle_sound h hf).map fun _ h => h
  | other con mynick => exact Ensures.ok ⟨⟨h.table.known, h.table.has⟩, h.stocked⟩

theorem happenAll_sound (es' es : List Event) {irc : Irc} (h : Sound irc)
    (hf : FitsAll (onlookers pre post) (es' ++ es) irc) :
    Ensures (happenAll (onlookers pre post) es' irc) fun irc' =>
      Sound irc' ∧ FitsAll (onlookers pre post) es irc' := by
  induction es' generalizing irc with
  | nil => exact Ensures.ok ⟨h, hf⟩
  | cons e es' ih =>
    rw [happenAll]
    cases hstep : happen (onlookers pre post) irc e with
    | error x => exact Ensures.error
    | ok irc' => exact ih (happen_sound h hf.1 irc' hstep) (hf.2 irc' hstep)

theorem openConn_heap {irc irc' : Irc} (h : openConn irc = (true, irc')) :
    irc'.base.chanHeap = .empty := by
  rw [openConn] at h
  dsimp only at h
  split at h
  · cases h
  · next irc₁ h₁ =>
    split at h
    · cases h
    · next irc₂ h₂ =>
      have hreg₁ := reghnds_heap _ h₁
      have hreg₂ := reghnds_heap _ h₂
      obtain ⟨_, rfl⟩ := Prod.mk.inj h
      exact hreg₂.trans hreg₁

/-- During a connection in which no 005 takes away a symbol that is in use or ranks it otherwise,
the prefixes of all members are made of the symbols of the table, ranked by power, and
`compare_modepfx` is called for symbols of the table only. -/
theorem modepfx_within {irc irc₁ : Irc} (hopen : openConn irc = (true, irc₁)) (es : List Event)
    (hf : FitsAll (onlookers pre post) es irc₁) :
    (∀ es', es' <+: es → ∀ irc', happenAll (onlookers pre post) es' irc₁ = .ok irc' → Within irc') ∧
      ∀ es' msg logon, es' ++ [.message msg logon] <+: es →
        ∀ irc', happenAll (onlookers pre post) es' irc₁ = .ok irc' →
          ∀ call ∈ msgCalls (onlookers pre post) irc' msg logon,
            ∀ p ∈ hndCompared msg call, Found call.2.info p := by
  have hsound : Sound irc₁ := by
    refine ⟨(openConn_spec hopen).1, stocked_iff.2 fun c ch hc => ?_⟩
    rw [openConn_heap hopen, get_empty] at hc
    cases hc
  refine ⟨fun es' hpre irc' hrun => ?_, fun es' msg logon hpre irc' hrun => ?_⟩
  · obtain ⟨rest, rfl⟩ := hpre
    have h := (happenAll_sound es' rest hsound hf irc' hrun).1
    exact fun c ch hc m hm => (stocked_iff.1 h.stocked c ch hc m hm).1
  · obtain ⟨rest, rfl⟩ := hpre
    rw [List.append_assoc] at hf
    obtain ⟨h, hrest⟩ := happenAll_sound es' _ hsound hf irc' hrun
    exact msgCalls_found h hrest.1

def joined : List Event :=
  [heard ":s 005 me CASEMAPPING=rfc1459 :ok", .other (openConn tracked).2.con (ascii "me"),
    heard ":me!u@h JOIN #a", heard ":s 353 me = #a :me @bob"]

theorem modepfx_within_grown :
    ∃ irc, happenAll noUsers (joined ++ [heard ":s 005 me PREFIX=(qaov)~&@+ :ok"])
      (openConn tracked).2 = .ok irc ∧
      Within irc := by
  have hopen : openConn tracked = (true, (openConn tracked).2) := Prod.ext (by decide +kernel) rfl
  obtain ⟨irc, hrun, _⟩ := @ok_of_toOption _ _ (happenAll noUsers
    (joined ++ [heard ":s 005 me PREFIX=(qaov)~&@+ :ok"]) (openConn tracked).2) (fun _ => true)
      (by decide +kernel)
  exact ⟨irc, hrun, (@modepfx_within (fun _ _ _ => true) (fun _ _ _ => true) _ _ hopen
    (joined ++ [heard ":s 005 me PREFIX=(qaov)~&@+ :ok"]) (by decide +kernel)).1 _
      List.prefix_rfl irc hrun⟩

/-- A second 005 takes away a symbol that is in use, which is then looked for in vain. -/
theorem modepfx_outside :
    ∃ irc, happenAll noUsers (joined ++ [heard ":s 005 me PREFIX=(qa)~& :ok"])
      (openConn tracked).2 = .ok irc ∧
      ¬Within irc ∧ ∃ call ∈ msgCalls noUsers irc (.ofLine (ascii ":s!u@h MODE #a +a bob")) false,
        ∃ p ∈ hndCompared (.ofLine (ascii ":s!u@h MODE #a +a bob")) call,
          strchr call.2.info.m005modepfx.2 p.1 = none := by
  have h :
      (happenAll noUsers (joined ++ [heard ":s 005 me PREFIX=(qa)~& :ok"])
        (openConn tracked).2).toOption.any
      (fun irc => ¬Within irc ∧
        ∃ call ∈ msgCalls noUsers irc (.ofLine (ascii ":s!u@h MODE #a +a bob")) false,
        ∃ p ∈ hndCompared (.ofLine (ascii ":s!u@h MODE #a +a bob")) call,
          strchr call.2.info.m005modepfx.2 p.1 = none) = true := by
    decide +kernel
  obtain ⟨irc, hirc, hq⟩ := ok_of_toOption h
  exact ⟨irc, hirc, of_decide_eq_true hq⟩

end Srsirc.PrefixTable
