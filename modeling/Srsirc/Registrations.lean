import Mathlib.Logic.Relation
import Srsirc.DispatchOrder
import Srsirc.LogonRun

namespace Srsirc.Registrations

open CharMap Message UserBase Context Conn CoreHandlers Dispatch Connect Registry LogonRun
open HandlerCalls HandlerFrames HandlerTable DispatchOrder Fallible

def Leaves (irc irc' : Irc) : Prop :=
  irc'.msghnds = irc.msghnds ∧ irc'.trackingEnab = irc.trackingEnab

/-- What can happen to a context: attempts to connect, which may come to nothing at any
point, messages, and calls that do not concern the handlers, such as changes of the mode. -/
inductive Happens : Irc → Irc → Prop
  | connect {users : UserHnds} {k : Nat} {irc : Irc} {c : Connected}
      (h : connect users k irc = some (.ok c)) : Happens irc c.irc
  | handle {users : UserHnds} {irc irc' : Irc} {msg : Msg} {logon : Bool} {flags : Flags}
      (hpre : ∀ irc msg n, Leaves irc (users.pre irc msg n).2)
      (hpost : ∀ irc msg n, Leaves irc (users.post irc msg n).2)
      (h : msgHandle users irc msg logon = .ok (flags, irc')) : Happens irc irc'
  | other {irc irc' : Irc} (h : Leaves irc irc') : Happens irc irc'

def Reachable (irc : Irc) : Prop :=
  ∃ rand al world, Relation.ReflTransGen Happens (ircInit rand al world) irc

def key (e : Msghnd) : Module × Str := (e.module, e.cmd)

/-- No part of the library is registered for a command twice. -/
structure Roll (irc : Irc) : Prop where
  once : ((occupied irc.msghnds).map key).Nodup
  known : ∀ e ∈ occupied irc.msghnds, ∃ dumb, Known dumb e
  off : irc.trackingEnab = false → ∀ e ∈ occupied irc.msghnds, e.module ≠ .track

variable {irc irc' : Irc}

theorem Roll.leaves (h : Roll irc) (hl : Leaves irc irc') : Roll irc' := by
  obtain ⟨htbl, hon⟩ := hl
  exact ⟨htbl ▸ h.once, htbl ▸ h.known, by rw [htbl, hon]; exact h.off⟩

theorem Roll.fewer (h : Roll irc) {q : Msghnd → Bool}
    (hperm : (occupied irc'.msghnds).Perm ((occupied irc.msghnds).filter q))
    (hoff : irc'.trackingEnab = false → irc.trackingEnab = false ∨ ∀ e, q e = true →
      e.module ≠ .track) :
    Roll irc' := by
  have hmem : ∀ e, e ∈ occupied irc'.msghnds → e ∈ occupied irc.msghnds ∧ q e = true := fun e he =>
    List.mem_filter.1 (hperm.mem_iff.1 he)
  refine ⟨?_, fun e he => h.known e (hmem e he).1, fun hno e he => ?_⟩
  · rw [(hperm.map key).nodup_iff]
    exact h.once.sublist (List.filter_sublist.map key)
  · obtain hno | hq := hoff hno
    · exact h.off hno e (hmem e he).1
    · exact hq e (hmem e he).2

theorem Roll.unregall (h : Roll irc) (m : Module) : Roll (unregall irc m) := by
  apply h.fewer (List.Perm.of_eq (occupied_without irc.msghnds m))
  exact fun hno => Or.inl hno

theorem nodup_hndsOf (dumb : Bool) (m : Module) :
    ((hndsOf dumb m).map fun p => ascii p.1).Nodup := by
  cases dumb <;> cases m <;> decide +kernel

theorem Roll.more (h : Roll irc) {dumb : Bool} {m : Module} {pre : List (String × Hnd)}
    (hpre : pre <+: hndsOf dumb m) (hnone : ∀ e ∈ occupied irc.msghnds, e.module ≠ m)
    (hperm : (occupied irc'.msghnds).Perm (pre.map (entry m) ++ occupied irc.msghnds))
    (hoff : irc'.trackingEnab = false → irc.trackingEnab = false ∧ m ≠ .track) : Roll irc' := by
  have hmem : ∀ e, e ∈ occupied irc'.msghnds →
      (∃ p ∈ pre, entry m p = e) ∨ e ∈ occupied irc.msghnds := by
    intro e he
    obtain he | he := List.mem_append.1 (hperm.mem_iff.1 he)
    · exact Or.inl (List.mem_map.1 he)
    · exact Or.inr he
  refine ⟨?_, fun e he => ?_, fun hno e he => ?_⟩
  · rw [(hperm.map key).nodup_iff, List.map_append, List.nodup_append']
    refine ⟨?_, h.once, fun κ hnew hold => ?_⟩
    · have hcmds : (pre.map fun p => ascii p.1).Nodup :=
        (nodup_hndsOf dumb m).sublist (hpre.sublist.map _)
      apply List.Nodup.of_map Prod.snd
      rwa [List.map_map, List.map_map]
    · obtain ⟨e, he, rfl⟩ := List.mem_map.1 hnew
      obtain ⟨p, _, rfl⟩ := List.mem_map.1 he
      obtain ⟨e', he', hkey⟩ := List.mem_map.1 hold
      exact hnone e' he' (congrArg Prod.fst hkey)
  · obtain ⟨p, hp, rfl⟩ | he := hmem e he
    · exact ⟨dumb, p.1, hpre.subset hp, rfl⟩
    · exact h.known e he
  · obtain ⟨hno, hm⟩ := hoff hno
    obtain ⟨p, _, rfl⟩ | he := hmem e he
    · exact hm
    · exact h.off hno e he

theorem Roll.reghnds (h : Roll irc) {ok : Bool} {m : Module} (hm : m ≠ .track)
    (hnone : ∀ e ∈ occupied irc.msghnds, e.module ≠ m)
    (heq : reghnds (hndsOf irc.dumb m) m irc = (ok, irc')) : Roll irc' := by
  obtain ⟨pre, hpre, _, hperm⟩ := reghnds_occupied _ (short_hndsOf irc.dumb m) heq
  obtain ⟨_, ⟨_, _, rfl⟩, _⟩ := reghnds_spec _ (fun _ hp => hp) (short_hndsOf irc.dumb m) heq
  exact h.more hpre hnone hperm fun hno => ⟨hno, hm⟩

theorem Roll.tracks (h : Roll irc) (ht : Tracks irc irc') : Roll irc' := by
  obtain hl | ⟨hoff, irc₁, hold, hnew, hon⟩ := ht
  · exact h.leaves hl
  · have hcases := (trkInit_occupied irc₁).1
    rw [hold, ← hnew, ← hon] at hcases
    obtain ⟨hok, hperm⟩ | ⟨_, hperm⟩ := hcases
    · refine h.more (List.prefix_refl (hndsOf false .track)) (h.off hoff) hperm fun hno => ?_
      rw [hok] at hno
      cases hno
    · exact h.fewer hperm fun _ => Or.inl hoff

theorem Roll.msgHandle (h : Roll irc) {users : UserHnds} {msg : Msg} {logon : Bool}
    (hpre : logon = false → ∀ irc msg n, Leaves irc (users.pre irc msg n).2)
    (hpost : logon = false → ∀ irc msg n, Leaves irc (users.post irc msg n).2) :
    Ensures (msgHandle users irc msg logon) fun r => Roll r.2 := by
  refine msgHandle_rule (fun hnd irc hroll => ?_) (fun hl irc hroll => ?_)
    (fun hl irc hroll => ?_) h
  · exact (run_tracks irc msg msg.nargs logon hnd).mono fun r hr => hroll.tracks hr
  · exact hroll.leaves (hpre hl irc msg _)
  · exact hroll.leaves (hpost hl irc msg _)

theorem not_mem_unregall (irc : Irc) (m : Module) :
    ∀ e ∈ occupied (unregall irc m).msghnds, e.module ≠ m := fun _ he =>
  (not_mem_without irc.msghnds (mem_occupied.1 he)).2

theorem Roll.openConn (h : Roll irc) : Roll (openConn irc).2 := by
  have hoff : Roll { trkDeinit irc with trackingEnab := false } := by
    apply h.fewer (List.Perm.of_eq (occupied_without irc.msghnds .track))
    exact fun _ => Or.inr fun e he => by simpa using he
  rw [Connect.openConn]
  dsimp only
  generalize ({ trkDeinit irc with trackingEnab := false } : Irc) = irc₀ at hoff
  split
  · next irc₁ hreg =>
      exact (hoff.unregall .core).reghnds (by decide) (not_mem_unregall irc₀ .core) hreg
  · next irc₁ hreg =>
    have hcore := (hoff.unregall .core).reghnds (by decide) (not_mem_unregall irc₀ .core) hreg
    split
    · next irc₂ hreg₂ =>
      exact (hcore.unregall .v3).reghnds (by decide) (not_mem_unregall irc₁ .v3) hreg₂
    · next irc₂ hreg₂ =>
      have hv3 := (hcore.unregall .v3).reghnds (by decide) (not_mem_unregall irc₁ .v3) hreg₂
      exact hv3.leaves ⟨rfl, rfl⟩

theorem between_roll : Between fun irc irc' => Roll irc → Roll irc' where
  opened _ h := h.openConn
  time _ h := h.leaves ⟨rfl, rfl⟩
  read _ _ _ _ _ h := h.leaves ⟨rfl, rfl⟩
  write _ _ h := h.leaves ⟨rfl, rfl⟩
  reset _ h := h.leaves ⟨rfl, rfl⟩
  info _ _ h := h.leaves ⟨rfl, rfl⟩

theorem Roll.worked {calls : List (Hnd × Irc)} (h : Roll irc)
    (hw : Worked (fun irc irc' => Roll irc → Roll irc') irc calls irc') : Roll irc' := by
  induction hw with
  | refl => exact h
  | between _ ht ih => exact ht ih
  | @call _ irc' hnd msg logon r _ hrun ih =>
    exact ih.tracks (run_tracks irc' msg msg.nargs logon hnd r hrun)

theorem Roll.connect (h : Roll irc) {users : UserHnds} {k : Nat} {c : Connected}
    (hc : connect users k irc = some (.ok c)) : Roll c.irc :=
      h.worked (connect_worked between_roll hc)

theorem Roll.happens (h : Roll irc) (hh : Happens irc irc') : Roll irc' := by
  cases hh with
  | connect hc => exact h.connect hc
  | handle hpre hpost hm => exact h.msgHandle (fun _ => hpre) (fun _ => hpost) _ hm
  | other hl => exact h.leaves hl

theorem Reachable.roll (h : Reachable irc) : Roll irc := by
  obtain ⟨rand, al, world, hsteps⟩ := h
  induction hsteps with
  | refl =>
    have hnone : occupied (ircInit rand al world).msghnds = [] := List.reduceOption_replicate_none
    exact ⟨by rw [hnone]; exact List.nodup_nil, by simp [hnone], by simp [hnone]⟩
  | tail _ hstep ih => exact ih.happens hstep

theorem cmd_005 (dumb : Bool) (m : Module) : ∀ p ∈ hndsOf dumb m, p.2 = .handle_005 →
    p.1 = "005" := by
  cases dumb <;> cases m <;> decide

theorem Roll.steadfast (h : Roll irc) (cmd : Str) : Steadfast cmd irc.msghnds := by
  intro e he hcmd h005
  have hnot : ∀ p ∈ trackHnds, ascii p.1 ≠ ascii "005" := by decide +kernel
  obtain ⟨dumb, c, hc, hec⟩ := h.known e he
  obtain rfl : c = "005" := cmd_005 dumb e.module _ hc h005
  rw [← hcmd, hec]
  refine ⟨hnot, fun e' he' hcmd' hm => ?_⟩
  obtain ⟨dumb', c', hc', hec'⟩ := h.known e' he'
  rw [hm] at hc'
  exact hnot _ hc' (hec'.symm.trans hcmd')

theorem Roll.msgHandle_eq (h : Roll irc) (users : UserHnds) (msg : Msg) :
    Dispatch.msgHandle users irc msg true =
    msg.fld 1 >>= fun cmd => callAll msg true (registered cmd 0 irc.msghnds) 0 irc :=
  DispatchOrder.msgHandle_eq users irc msg fun cmd _ => h.steadfast cmd

theorem registered_eq (cmd : Str) (tbl : Msghnds) :
    registered cmd 0 tbl = (occupied tbl).filter fun e => e.cmd = cmd := by
  rw [registered, List.drop_zero, occupied]
  induction tbl.val with
  | nil => rfl
  | cons o l ih =>
    cases o with
    | none => exact ih
    | some e =>
      rw [List.filterMap_cons, List.reduceOption_cons_of_some, List.filter_cons, ih, slot,
        Option.filter_some]
      by_cases hcmd : e.cmd = cmd <;> simp [hcmd]

/-- The only part of the library with a handler for a command has one handler for it. -/
theorem Roll.registered (h : Roll irc) {e : Msghnd} (he : e ∈ occupied irc.msghnds)
    (hm : ∀ e' ∈ occupied irc.msghnds, e'.cmd = e.cmd → e'.module = e.module) :
    registered e.cmd 0 irc.msghnds = [e] := by
  have hmem : ∀ e', e' ∈ (occupied irc.msghnds).filter (fun x => x.cmd = e.cmd) ↔ e' ∈ [e] := by
    intro e'
    rw [List.mem_filter, decide_eq_true_eq, List.mem_singleton]
    constructor
    · rintro ⟨he', hcmd⟩
      exact List.inj_on_of_nodup_map h.once he' he (Prod.ext (hm e' he' hcmd) hcmd)
    · rintro rfl
      exact ⟨he, rfl⟩
  rw [registered_eq]
  apply List.perm_singleton.1
  refine (List.perm_ext_iff_of_nodup ?_ (List.nodup_singleton e)).2 hmem
  exact (List.Nodup.of_map key h.once).filter _

theorem callAll_one (msg : Msg) (logon : Bool) (e : Msghnd) (irc : Irc) :
    callAll msg logon [e] 0 irc = run e.hndfn irc msg msg.nargs logon := by
  rw [callAll]
  cases run e.hndfn irc msg msg.nargs logon with
  | error f => rfl
  | ok r =>
    have hzero : 0 ||| r.1 = r.1 := UInt16.zero_or
    rw [ok_bind]
    dsimp only
    rw [hzero]
    split <;> rfl

/-- The registrations are in the table, each once. During the logon, a message is handed to
precisely the handlers that are registered for its command. However often the program
connects and begins to track, no part of the library is registered for a command twice. -/
theorem handlers_exact :
    (∀ (ops : List Op) (irc : Irc), (∀ op ∈ ops, op.Fits) → irc.base.al = [] →
      occupied irc.msghnds = [] →
      (occupied (ops.foldl Op.exec irc).msghnds).Perm (ops.foldl Op.note [])) ∧
    (∀ (users : UserHnds) (irc : Irc) (msg : Msg),
      (∀ cmd, msg.fld 1 = .ok cmd → Steadfast cmd irc.msghnds) →
      msgHandle users irc msg true =
        msg.fld 1 >>= fun cmd => callAll msg true (registered cmd 0 irc.msghnds) 0 irc) ∧
    ∀ irc, Reachable irc → ((occupied irc.msghnds).map key).Nodup ∧
      ∀ (users : UserHnds) (msg : Msg), msgHandle users irc msg true =
        msg.fld 1 >>= fun cmd => callAll msg true (registered cmd 0 irc.msghnds) 0 irc := by
  refine ⟨fun ops irc hfit hal hnone => ?_, DispatchOrder.msgHandle_eq,
    fun irc h => ⟨h.roll.once, fun users msg => ?_⟩⟩
  · exact exec_occupied ops hfit hal (List.Perm.of_eq hnone)
  · exact h.roll.msgHandle_eq users msg

theorem handlers_exact_sample :
    let irc := ircInit (0, 0) [] (serving [])
    let ops : List Op := [.register (ascii "PING") .handle_PING .core,
      .register (ascii "JOIN") .h_JOIN .track, .unregister .core]
    (occupied (ops.foldl Op.exec irc).msghnds).Perm [⟨ascii "JOIN", .h_JOIN, .track⟩] ∧
      msgHandle noUsers (openConn irc).2 (.ofLine (ascii "PING :x")) true =
        callAll (.ofLine (ascii "PING :x")) true [⟨ascii "PING", .handle_PING, .core⟩] 0
          (openConn irc).2 ∧
      ((occupied (openConn irc).2.msghnds).map key).Nodup := by
  obtain ⟨hops, hcalls, honce⟩ := handlers_exact
  have hnone : occupied (ircInit (0, 0) [] (serving [])).msghnds = [] :=
    List.reduceOption_replicate_none
  have hreach : Reachable (openConn (ircInit (0, 0) [] (serving []))).2 :=
    ⟨(0, 0), [], serving [], .single (@Happens.connect noUsers 0 _ ⟨false, _, []⟩ rfl)⟩
  refine ⟨hops _ _ ?_ rfl hnone, ?_, (honce _ hreach).1⟩
  · decide +kernel
  · have hping : (Msg.ofLine (ascii "PING :x")).fld 1 = .ok (ascii "PING") := by decide +kernel
    have htable : registered (ascii "PING") 0
        (openConn (ircInit (0, 0) [] (serving []))).2.msghnds =
          [⟨ascii "PING", .handle_PING, .core⟩] := by decide +kernel
    rw [hcalls _ _ _ fun cmd _ => hreach.roll.steadfast cmd, hping, ok_bind, htable]

end Srsirc.Registrations
