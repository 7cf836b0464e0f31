import Srsirc.ConnFrames
import Srsirc.LogonRun
import Srsirc.TwinBuffers

namespace Srsirc.Transport

open CharMap Memory Message ReadBuffer BufferData TagGrammar Reassembly TwinBuffers Context Conn
open CoreHandlers Capabilities Connect ConnFrames HandlerSpecs CapSpecs LogonRun

/-- What has become of a connection by calls of the library. -/
inductive Reached : Iconn → Prop
  | init (world : World) : Reached (connInit world)
  | settings {con : Iconn} (h : Reached con) (host : Str) (proxied ssl sctx : Bool) :
      Reached { con with host, proxied, ssl, sctx }
  | connect {con : Iconn} (h : Reached con) : Reached (connConnect con).2
  | reset {con : Iconn} (h : Reached con) : Reached (connReset con)
  | time {con : Iconn} (h : Reached con) : Reached (askInTime con).2
  | read {con con' : Iconn} {ntags : Nat} {inc : Incoming} (h : Reached con)
      (hr : connRead con ntags = some (inc, con')) : Reached con'
  | write {con : Iconn} (h : Reached con) (buf : Str) : Reached (connWriteRaw con buf).2
  | upgrade {con : Iconn} (h : Reached con) : Reached (upgrade con).2

theorem bounds_reset {r : Readctx} (hb : Bounds r) : Bounds { r with wptr := 0, eptr := 0 } :=
  ⟨hb.size, Nat.le_refl _, Nat.zero_le _⟩

theorem ioRead_bounds {ntags : Nat} {r r' : Readctx} {src src' : Source} {reply : Reply}
    (hb : Bounds r) (h : (ioRead ntags r src).2 = some (reply, r', src')) : Bounds r' := by
  have ht := ioRead_twin ntags (skipDelims_twin (Twin.refl hb)) src
  rw [h] at ht
  cases ht with
  | reply ht => exact ht.bounds

structure Keeps (con con' : Iconn) : Prop where
  rctx : con'.rctx = con.rctx
  online : con'.online = false → con.online = false

theorem connConnect_keeps (con : Iconn) : Keeps con (connConnect con).2 := by
  obtain ⟨con', h, hr | hr⟩ := connConnect_ends con
  · rw [hr]
    exact ⟨h.rctx, fun hoff => h.online ▸ hoff⟩
  · rw [hr]
    exact ⟨h.rctx, fun hoff => Bool.noConfusion hoff⟩

theorem upgrade_keeps (con : Iconn) : Keeps con (upgrade con).2 := by
  obtain ⟨con', h, hr | hr⟩ := upgrade_ends con <;>
  · rw [hr]
    exact ⟨h.rctx, fun hoff => h.online ▸ hoff⟩

/-- The pointers into the buffer are in bounds, and nothing is left in the buffer of a
connection that is down. -/
structure Sound (con : Iconn) : Prop where
  bounds : Bounds con.rctx
  offline : con.online = false → con.rctx.wptr = con.rctx.eptr

theorem Sound.keeps {con con' : Iconn} (h : Sound con) (hk : Keeps con con') : Sound con' :=
  ⟨hk.rctx ▸ h.bounds, fun hoff => hk.rctx ▸ h.offline (hk.online hoff)⟩

theorem Sound.down {con con' : Iconn} (hb : Bounds con.rctx)
    (hr : con'.rctx = { con.rctx with wptr := 0, eptr := 0 }) : Sound con' :=
  ⟨hr ▸ bounds_reset hb, fun _ => by rw [hr]⟩

theorem Sound.write {con : Iconn} (h : Sound con) (buf : Str) : Sound (connWriteRaw con buf).2 := by
  rw [connWriteRaw, askWrite]
  split
  · exact h
  · cases (ask con.world.write).1 with
    | false => exact Sound.down h.bounds rfl
    | true => exact ⟨h.bounds, h.offline⟩

theorem setSource_online (con : Iconn) (src : Source) : (setSource con src).online = con.online :=
  rfl

theorem Sound.read {con con' : Iconn} {ntags : Nat} {inc : Incoming} (h : Sound con)
    (hr : connRead con ntags = some (inc, con')) : Sound con' := by
  rw [connRead] at hr
  split at hr
  · cases hr
    exact h
  · next hon =>
    split at hr
    · cases hr
    · next reply rctx src heq =>
      have hb := ioRead_bounds h.bounds heq
      have hup : ∀ hoff : (setSource con src).online = false, rctx.wptr = rctx.eptr := by
        intro hoff
        rw [setSource_online] at hoff
        simp [hoff] at hon
      dsimp only at hr
      split at hr
      · cases hr
        exact ⟨hb, hup⟩
      · split at hr
        · cases hr
          exact ⟨bounds_reset hb, fun _ => rfl⟩
        · cases hr
          exact ⟨hb, hup⟩

theorem Reached.sound {con : Iconn} (h : Reached con) : Sound con := by
  induction h with
  | init => exact ⟨layout_init.bounds, fun _ => rfl⟩
  | settings _ _ _ _ _ ih => exact ⟨ih.bounds, ih.offline⟩
  | connect _ ih => exact ih.keeps (connConnect_keeps _)
  | reset _ ih => exact Sound.down ih.bounds rfl
  | time _ ih => exact ⟨ih.bounds, ih.offline⟩
  | read _ hr ih => exact ih.read hr
  | write _ buf ih => exact ih.write buf
  | upgrade _ ih => exact ih.keeps (upgrade_keeps _)

/-- What may be done with a connection after a handler. -/
inductive Use
  | read (ntags : Nat)
  | write (buf : Str)

def outcome : Incoming → List Outcome
  | .failed => [.failure]
  | .timeout => []
  | .message msg tags => [observe ⟨1, msg.mem, tags, msg.tok⟩]

def delivered : List Use → Iconn → List Outcome
  | [], _ => []
  | .write buf :: us, con => delivered us (connWriteRaw con buf).2
  | .read ntags :: us, con =>
    match connRead con ntags with
    | none => []
    | some (inc, con) => outcome inc ++ delivered us con

def receiving (con : Iconn) (tls : Source) : Iconn := { con with peer := { con.peer with tls } }

def drained (con : Iconn) : Iconn := { con with rctx := { con.rctx with wptr := 0, eptr := 0 } }

def Akin (con con' : Iconn) : Prop :=
  ∃ rctx colonTrail, con' = { con with rctx, colonTrail } ∧
    Twin (skipDelims con.rctx) (skipDelims rctx)

theorem layout_reset {r : Readctx} (hsize : r.workbuf.length = workbufSz + 1) :
    Layout { r with wptr := 0, eptr := 0 } [] [] r.workbuf :=
  ⟨rfl, rfl, rfl, by simp [hsize], by omega⟩

theorem skipDelims_workbuf (r : Readctx) : (skipDelims r).workbuf = r.workbuf := by
  rw [skipDelims]
  dsimp only
  split <;> rfl

theorem twin_reset {r r' : Readctx} (h : Twin (skipDelims r) (skipDelims r')) :
    Twin (skipDelims { r with wptr := 0, eptr := 0 })
      (skipDelims { r' with wptr := 0, eptr := 0 }) := by
  have hsize := h.bounds.size
  rw [skipDelims_workbuf] at hsize
  obtain ⟨hlen, hl, hl'⟩ := h
  have hsize' := hl'.bounds.size
  rw [skipDelims_workbuf] at hsize'
  exact skipDelims_twin ⟨rfl, layout_reset hsize, layout_reset hsize'⟩

theorem akin_write {con con' : Iconn} (h : Akin con con') (buf : Str) :
    Akin (connWriteRaw con buf).2 (connWriteRaw con' buf).2 := by
  obtain ⟨rctx, colonTrail, rfl, ht⟩ := h
  simp only [connWriteRaw, askWrite]
  split
  · exact ⟨_, _, rfl, ht⟩
  · cases (ask con.world.write).1
    · exact ⟨_, _, rfl, twin_reset ht⟩
    · exact ⟨_, _, rfl, ht⟩

inductive AkinRead : Option (Incoming × Iconn) → Option (Incoming × Iconn) → Prop
  | blocked : AkinRead none none
  | read {inc inc' : Incoming} {con con' : Iconn} (hinc : outcome inc' =
      outcome inc) (h : Akin con con') :
      AkinRead (some (inc, con)) (some (inc', con'))

theorem connRead_akin {con con' : Iconn} (h : Akin con con') (ntags : Nat) :
    AkinRead (connRead con ntags) (connRead con' ntags) := by
  obtain ⟨rctx, colonTrail, rfl, ht⟩ := h
  have hread := ioRead_twin ntags ht (source con)
  rw [connRead, connRead]
  dsimp only
  split
  · exact AkinRead.read rfl ⟨_, _, rfl, ht⟩
  · have hsrc : source { con with rctx, colonTrail } = source con := rfl
    rw [hsrc]
    generalize (ioRead ntags con.rctx (source con)).2 = out at hread ⊢
    generalize (ioRead ntags rctx (source con)).2 = out' at hread ⊢
    cases hread with
    | blocked => exact AkinRead.blocked
    | @reply reply reply' r r' src ht' hone hret hobs =>
      have hkeep := skipDelims_twin ht'
      dsimp only
      rw [hret]
      split
      · exact AkinRead.read rfl ⟨_, _, rfl, hkeep⟩
      · split
        · exact AkinRead.read rfl ⟨_, _, rfl, twin_reset hkeep⟩
        · next hzero hneg =>
          have hone' : reply.ret = 1 := by omega
          refine AkinRead.read ?_ ⟨_, _, rfl, hkeep⟩
          simp only [observe, hret, hone', if_true] at hobs
          simp only [outcome, observe, if_true, hobs]

theorem delivered_akin (us : List Use) {con con' : Iconn} (h : Akin con con') :
    delivered us con' = delivered us con := by
  induction us generalizing con con' with
  | nil => rfl
  | cons u us ih =>
    cases u with
    | write buf => exact ih (akin_write h buf)
    | read ntags =>
      have hread := connRead_akin h ntags
      rw [delivered, delivered]
      generalize connRead con ntags = out at hread ⊢
      generalize connRead con' ntags = out' at hread ⊢
      cases hread with
      | blocked => rfl
      | read hinc h' =>
        dsimp only
        rw [hinc, ih h']

end Srsirc.Transport
