import Srsirc.Transport

namespace Srsirc.OfflineRelease

open CharMap ReadBuffer Context Conn Connect
open Consocket hiding consocket

inductive Call
  | connect
  | read (ntags : Nat)
  | write (line : Str)
  | setSsl (on : Bool)
  | reset
  | settings (host : Str) (proxied : Bool)

/-- `none` where a read blocks for good. -/
def Call.run (con : Iconn) : Call → Option Iconn
  | .connect => some (connConnect con).2
  | .read ntags => (connRead con ntags).map Prod.snd
  | .write line => some (connWrite con line).2
  | .setSsl on => some (connSetSsl con on).2
  | .reset => some (connReset con)
  | .settings host proxied => some { con with host, proxied }

/-- A connection that is online has one of the sockets that were obtained for it, and one that
is offline has given everything back. -/
structure Released (con : Iconn) : Prop where
  obtained : con.online = true → con.sck ∈ con.obtained
  sck : con.online = false → con.sck = -1
  shnd : con.online = false → con.shnd = false
  buffer : con.online = false → con.rctx.wptr = 0 ∧ con.rctx.eptr = 0

/-- What a connect does for a proxy works out. -/
def PastProxy (con : Iconn) : Prop :=
  con.proxied = true → (ask con.world.inTime).1 = true ∧ (ask con.world.blocking).1 = true ∧
    (ask con.world.proxy).1 = true

def modes (con : Iconn) : List Bool :=
  if con.proxied then (ask con.world.blocking).2 else con.world.blocking

/-- The handshake works out, and the way back to nonblocking mode does or does not. -/
def Secured (blocking sslize : List Bool) (back : Bool) : Prop :=
  (ask blocking).1 = true ∧ (ask sslize).1 = true ∧ (ask (ask blocking).2).1 = back

/-- A connect will fail behind the handshake. -/
def LeavesHandle (con : Iconn) : Prop :=
  con.online = false ∧ con.ssl = true ∧
    (∃ d ∈ con.world.dials.head?, usable d.outcome.sck = true) ∧ PastProxy con ∧
      Secured (modes con) con.world.sslize false

/-- The hard timeout is over at an address that is come to. -/
def Overdue (d : Dial) : Prop :=
  ¬InTime (stretch d.softto d.hardto d.addrs.length) (hardDeadline d.hardto d.clock).1 d.addrs
    (hardDeadline d.hardto d.clock).2

/-- A connect will not find a socket in time, while all that is behind it works out. -/
def TakesZero (con : Iconn) : Prop :=
  con.online = false ∧ (∃ d ∈ con.world.dials.head?, Overdue d) ∧ PastProxy con ∧
    (con.ssl = true → Secured (modes con) con.world.sslize true)

def GoesDown (con : Iconn) : Call → Prop
  | .reset => True
  | .read ntags => con.online = true ∧ ∃ reply rctx src,
      (ioRead ntags con.rctx (source con)).2 = some (reply, rctx, src) ∧ reply.ret < 0
  | .write _ => con.online = true ∧
      ((ask con.world.write).1 = false ∨ (ask (ask con.world.write).2).1 = false)
  | _ => False

/-- The call does not meet one of the three slips: TLS is still switched on when a connection
with a handle goes down, no connect leaves a handle behind, and none takes the descriptor 0 of
a hard timeout for a socket. -/
structure Fits (con : Iconn) (call : Call) : Prop where
  down : GoesDown con call → con.shnd = true → con.ssl = true
  connect : call = .connect → ¬LeavesHandle con ∧ ¬TakesZero con

variable {con con' : Iconn}

/-- A connection has gone down as `lsi_conn_reset` takes it down. -/
structure Down (con con' : Iconn) : Prop where
  sck : con'.sck = -1
  shnd : con'.shnd = (con.shnd && !con.ssl)
  online : con'.online = false
  buffer : con'.rctx.wptr = 0 ∧ con'.rctx.eptr = 0

theorem Down.released_iff (h : Down con con') :
    Released con' ↔ (con.shnd = true → con.ssl = true) := by
  constructor
  · intro hr hs
    have hoff := hr.shnd h.online
    simpa [h.shnd, hs] using hoff
  · intro himp
    refine ⟨fun hon => ?_, fun _ => h.sck, fun _ => ?_, fun _ => h.buffer⟩
    · exact Bool.noConfusion (h.online.symm.trans hon)
    rw [h.shnd]
    cases hs : con.shnd with
    | false => rfl
    | true => simp [himp hs]

theorem connReset_down (con : Iconn) : Down con (connReset con) := ⟨rfl, rfl, rfl, rfl, rfl⟩

theorem Released.congr (h : Released con) (hsck : con'.sck = con.sck)
    (hob : con'.obtained = con.obtained) (hshnd : con'.shnd = con.shnd)
    (hon : con'.online = con.online) (hw : con'.rctx.wptr = con.rctx.wptr)
    (he : con'.rctx.eptr = con.rctx.eptr) : Released con' := by
  refine ⟨?_, ?_, ?_, ?_⟩
  · rw [hsck, hob, hon]
    exact h.obtained
  · rw [hsck, hon]
    exact h.sck
  · rw [hshnd, hon]
    exact h.shnd
  · rw [hon, hw, he]
    exact h.buffer

structure Opened (con : Iconn) : Prop where
  online : con.online = false
  shnd : con.shnd = false
  buffer : con.rctx.wptr = 0 ∧ con.rctx.eptr = 0

theorem Released.hungUp (hoff : con.online = false) (hshnd : con.shnd = false)
    (hbuf : con.rctx.wptr = 0 ∧ con.rctx.eptr = 0) : Released (hangUp con).2 :=
  ⟨fun hon => Bool.noConfusion (hoff.symm.trans hon), fun _ => rfl, fun _ => hshnd, fun _ => hbuf⟩

theorem released_up_iff :
    Released { con with online := true } ↔ con.sck ∈ con.obtained :=
  ⟨fun h => h.obtained rfl, fun h => ⟨fun _ => h, fun hoff => Bool.noConfusion hoff,
    fun hoff => Bool.noConfusion hoff, fun hoff => Bool.noConfusion hoff⟩⟩

theorem connectSsl_released_iff (h : Opened con) : Released (connectSsl con).2 ↔
    ¬Secured con.world.blocking con.world.sslize false ∧
      (Secured con.world.blocking con.world.sslize true → con.sck ∈ con.obtained) := by
  have hoff := h.online
  have hbuf := h.buffer
  rw [connectSsl]
  split
  · next hc =>
    obtain ⟨h₁, rfl⟩ := Prod.mk.inj hc
    have hnot : ∀ back, ¬Secured con.world.blocking con.world.sslize back :=
      fun back hs => Bool.noConfusion (h₁.symm.trans hs.1)
    exact iff_of_true (Released.hungUp hoff h.shnd hbuf) ⟨hnot _, fun hs => (hnot _ hs).elim⟩
  · next hc =>
    obtain ⟨h₁, rfl⟩ := Prod.mk.inj hc
    split
    · next hc =>
      obtain ⟨h₂, rfl⟩ := Prod.mk.inj hc
      have hnot : ∀ back, ¬Secured con.world.blocking con.world.sslize back :=
        fun back hs => Bool.noConfusion (h₂.symm.trans hs.2.1)
      exact iff_of_true (Released.hungUp hoff h₂ hbuf) ⟨hnot _, fun hs => (hnot _ hs).elim⟩
    · next hc =>
      obtain ⟨h₂, rfl⟩ := Prod.mk.inj hc
      split
      · next hc =>
        obtain ⟨h₃, rfl⟩ := Prod.mk.inj hc
        refine iff_of_false (fun hr => ?_) fun hn => hn.1 ⟨h₁, h₂, h₃⟩
        exact Bool.noConfusion (h₂.symm.trans (hr.shnd hoff))
      · next hc =>
        obtain ⟨h₃, rfl⟩ := Prod.mk.inj hc
        rw [released_up_iff]
        refine ⟨fun hmem => ⟨fun hs => ?_, fun _ => hmem⟩, fun hr => hr.2 ⟨h₁, h₂, h₃⟩⟩
        exact Bool.noConfusion (h₃.symm.trans hs.2.2)

theorem connectDirect_released_iff (h : Opened con) : Released (connectDirect con).2 ↔
    ¬(con.ssl = true ∧ Secured con.world.blocking con.world.sslize false) ∧
      ((con.ssl = true → Secured con.world.blocking con.world.sslize true) →
        con.sck ∈ con.obtained) := by
  rw [connectDirect]
  split
  · next hssl =>
    rw [connectSsl_released_iff h]
    simp only [hssl, true_and, true_implies]
  · next hssl =>
    rw [released_up_iff]
    refine ⟨fun hmem => ⟨fun hs => hssl hs.1, fun _ => hmem⟩, fun hr => hr.2 fun hs => ?_⟩
    exact absurd hs hssl

/-- The descriptor in hand is one that was obtained, unless the dial was overdue. -/
theorem obtained_iff {d : Dial} (h : usable d.outcome.sck = true) :
    d.outcome.sck ∈ d.outcome.obtained ↔ ¬Overdue d := by
  rw [Outcome.mem_obtained_iff h, Overdue, not_not]
  exact consocket_sound_iff 256 d.addrs d.softto d.hardto d.clock

theorem usable_of_overdue {d : Dial} (h : Overdue d) : usable d.outcome.sck = true := by
  have hzero : d.outcome.sck = 0 :=
    consocket_zero fun hs => h ((consocket_sound_iff 256 d.addrs d.softto d.hardto d.clock).1 hs)
  rw [hzero]
  rfl

section Dialed

variable {d : Dial}

theorem not_dialed (hp : ¬PastProxy con) :
    ¬(con.ssl = true ∧ PastProxy con ∧ Secured (modes con) con.world.sslize false) ∧
      ¬(Overdue d ∧ PastProxy con ∧
        (con.ssl = true → Secured (modes con) con.world.sslize true)) :=
  ⟨fun hl => hp hl.2.1, fun hz => hp hz.2.1⟩

/-- Past the proxy, a connect goes on with what the dial has left in `con'`. -/
theorem dialed_released_iff (hu : usable d.outcome.sck = true) (hp : PastProxy con)
    (ho : Opened con') (hsck : con'.sck = d.outcome.sck)
    (hob : con'.obtained = d.outcome.obtained) (hssl : con'.ssl = con.ssl)
    (hblock : con'.world.blocking = modes con) (hsslize : con'.world.sslize = con.world.sslize) :
    Released (connectDirect con').2 ↔
      ¬(con.ssl = true ∧ PastProxy con ∧ Secured (modes con) con.world.sslize false) ∧
        ¬(Overdue d ∧ PastProxy con ∧
          (con.ssl = true → Secured (modes con) con.world.sslize true)) := by
  rw [connectDirect_released_iff ho, hsck, hob, hssl, hblock, hsslize, obtained_iff hu]
  simp only [hp, true_and, not_and]
  exact and_congr_right fun _ => ⟨fun hz hd hs => hz hs hd, fun hz hs hd => hz hd hs⟩

end Dialed

/-- Each failure of a connect gives back what it has, but for the last one. -/
theorem connConnect_released_iff (h : Released con) :
    Released (connConnect con).2 ↔ ¬LeavesHandle con ∧ ¬TakesZero con := by
  rw [connConnect]
  dsimp only
  split
  · next hon =>
    refine iff_of_true h ⟨fun hl => ?_, fun hz => ?_⟩
    · exact Bool.noConfusion (hon.symm.trans hl.1)
    · exact Bool.noConfusion (hon.symm.trans hz.1)
  · next hon =>
    have hoff : con.online = false := by simpa using hon
    cases hdials : con.world.dials with
    | nil =>
      have hc : consocket con = (⟨[], -1, none⟩, con) := by rw [consocket, hdials]
      rw [hc]
      refine iff_of_true h ⟨fun hl => ?_, fun hz => ?_⟩
      · obtain ⟨_, _, ⟨d, hd, _⟩, _⟩ := hl
        simp [hdials] at hd
      · obtain ⟨_, ⟨d, hd, _⟩, _⟩ := hz
        simp [hdials] at hd
    | cons d dials =>
      have hc : consocket con = (d.outcome,
          { con with peer := d.peer, world := { con.world with dials } }) := by
        rw [consocket, hdials]
      have hhead : ∀ {P : Dial → Prop}, (∃ d ∈ con.world.dials.head?, P d) ↔ P d := by
        simp [hdials]
      rw [hc, LeavesHandle, TakesZero, hhead, hhead]
      split
      · next hu =>
        refine iff_of_true (h.congr rfl rfl rfl rfl rfl rfl) ⟨fun hl => ?_, fun hz => ?_⟩
        · simp [hl.2.2.1] at hu
        · simp [usable_of_overdue hz.2.1] at hu
      · next hu =>
        replace hu : usable d.outcome.sck = true := by simpa using hu
        simp only [hoff, hu, true_and]
        split
        · next hprox =>
          split
          · next hc =>
            obtain ⟨h₁, rfl⟩ := Prod.mk.inj hc
            refine iff_of_true (Released.hungUp rfl rfl (h.buffer hoff)) (not_dialed fun hp => ?_)
            exact Bool.noConfusion (h₁.symm.trans (hp hprox).1)
          · next hc =>
            obtain ⟨h₁, rfl⟩ := Prod.mk.inj hc
            split
            · next hc =>
              obtain ⟨h₂, rfl⟩ := Prod.mk.inj hc
              refine iff_of_true (Released.hungUp rfl rfl (h.buffer hoff)) (not_dialed fun hp => ?_)
              exact Bool.noConfusion (h₂.symm.trans (hp hprox).2.1)
            · next hc =>
              obtain ⟨h₂, rfl⟩ := Prod.mk.inj hc
              split
              · next hc =>
                obtain ⟨h₃, rfl⟩ := Prod.mk.inj hc
                refine iff_of_true (Released.hungUp rfl rfl (h.buffer hoff)) (not_dialed fun hp => ?_)
                exact Bool.noConfusion (h₃.symm.trans (hp hprox).2.2)
              · next hc =>
                obtain ⟨h₃, rfl⟩ := Prod.mk.inj hc
                have hp : PastProxy con := fun _ => ⟨h₁, h₂, h₃⟩
                refine dialed_released_iff hu hp ⟨rfl, rfl, h.buffer hoff⟩ rfl rfl rfl ?_ rfl
                exact (if_pos hprox).symm
        · next hprox =>
          have hp : PastProxy con := fun hp => absurd hp hprox
          refine dialed_released_iff hu hp ⟨rfl, rfl, h.buffer hoff⟩ rfl rfl rfl ?_ rfl
          exact (if_neg hprox).symm

theorem connRead_released_iff {ntags : Nat} {inc : Incoming} (h : Released con)
    (hr : connRead con ntags = some (inc, con')) :
    Released con' ↔ (GoesDown con (.read ntags) → con.shnd = true → con.ssl = true) := by
  rw [connRead] at hr
  split at hr
  · next hoff =>
    cases hr
    exact iff_of_true h fun hd => by simp [hd.1] at hoff
  · next hon =>
    replace hon : con.online = true := by simpa using hon
    have hup : ∀ {con'' : Iconn}, con''.online = true → con''.sck = con.sck →
        con''.obtained = con.obtained → Released con'' := by
      intro con'' h₁ h₂ h₃
      refine ⟨fun _ => ?_, fun hoff => ?_, fun hoff => ?_, fun hoff => ?_⟩
      · rw [h₂, h₃]
        exact h.obtained hon
      · exact Bool.noConfusion (h₁.symm.trans hoff)
      · exact Bool.noConfusion (h₁.symm.trans hoff)
      · exact Bool.noConfusion (h₁.symm.trans hoff)
    have hstays : ∀ {reply : Reply} {rctx : Readctx} {src : Source},
        (ioRead ntags con.rctx (source con)).2 = some (reply, rctx, src) → 0 ≤ reply.ret →
          ¬GoesDown con (.read ntags) := by
      rintro reply rctx src heq hret ⟨_, _, _, _, heq', hneg⟩
      rw [heq] at heq'
      cases heq'
      omega
    split at hr
    · cases hr
    · next reply rctx src heq =>
      dsimp only at hr
      split at hr
      · next hz =>
        cases hr
        exact iff_of_true (hup hon rfl rfl) fun hd => absurd hd (hstays heq (by omega))
      · split at hr
        · next hneg =>
          cases hr
          have hd : GoesDown con (.read ntags) := ⟨hon, _, _, _, heq, hneg⟩
          simp only [hd, true_implies]
          exact Down.released_iff ⟨rfl, rfl, rfl, rfl, rfl⟩
        · next hz hneg =>
          cases hr
          exact iff_of_true (hup hon rfl rfl) fun hd => absurd hd (hstays heq (by omega))

def written (con : Iconn) (buf : Str) : Iconn :=
  { con with
    world := { con.world with write := (ask con.world.write).2 }
    sent := con.sent ++ [(con.shnd, buf)] }

theorem connWriteRaw_cases (con : Iconn) (buf : Str) :
    (con.online = false ∧ connWriteRaw con buf = (false, con)) ∨
    (con.online = true ∧ (ask con.world.write).1 = false ∧
      ∃ con', connWriteRaw con buf = (false, con') ∧ Down con con') ∨
    (con.online = true ∧ (ask con.world.write).1 = true ∧
      connWriteRaw con buf = (true, written con buf)) := by
  rw [connWriteRaw]
  split
  · next hoff => exact .inl ⟨by simpa using hoff, rfl⟩
  · next hon =>
    replace hon : con.online = true := by simpa using hon
    split
    · next hw =>
      obtain ⟨hfail, rfl⟩ := Prod.mk.inj hw
      exact .inr (.inl ⟨hon, hfail, _, rfl, ⟨rfl, rfl, rfl, rfl, rfl⟩⟩)
    · next hw =>
      obtain ⟨hok, rfl⟩ := Prod.mk.inj hw
      exact .inr (.inr ⟨hon, hok, rfl⟩)

theorem connWrite_released_iff (h : Released con) (line : Str) :
    Released (connWrite con line).2 ↔
      (GoesDown con (.write line) → con.shnd = true → con.ssl = true) := by
  rw [connWrite]
  obtain ⟨hoff, heq⟩ | ⟨hon, hfail, _, heq, hd⟩ | ⟨hon, hok, heq⟩ := connWriteRaw_cases con line
  · rw [heq]
    exact iff_of_true h fun hd => Bool.noConfusion (hoff.symm.trans hd.1)
  · rw [heq]
    simp only [GoesDown, hon, hfail, true_and, true_or, true_implies]
    exact hd.released_iff
  · rw [heq]
    have hw : Released (written con line) := h.congr rfl rfl rfl rfl rfl rfl
    have hdown : GoesDown con (.write line) ↔ (ask (written con line).world.write).1 = false := by
      simp [GoesDown, hon, hok, written]
    rw [hdown]
    dsimp only
    generalize (if crlf <:+ line then [] else crlf) = rest
    obtain ⟨hoff', heq'⟩ | ⟨_, hfail', _, heq', hd⟩ | ⟨_, hok', heq'⟩ :=
      connWriteRaw_cases (written con line) rest
    · exact absurd (hon.symm.trans hoff') (by decide)
    · rw [heq']
      simp only [hfail', true_implies]
      exact hd.released_iff
    · rw [heq']
      exact iff_of_true (hw.congr rfl rfl rfl rfl rfl rfl) fun hfail => by simp [hok'] at hfail

theorem connSetSsl_released (h : Released con) (on : Bool) : Released (connSetSsl con on).2 := by
  rw [connSetSsl]
  split
  · split
    · next hc =>
      obtain ⟨_, rfl⟩ := Prod.mk.inj hc
      exact h.congr rfl rfl rfl rfl rfl rfl
    · next hc =>
      obtain ⟨_, rfl⟩ := Prod.mk.inj hc
      exact h.congr rfl rfl rfl rfl rfl rfl
  · exact h.congr rfl rfl rfl rfl rfl rfl

/-- A call keeps the promise exactly if it does not meet one of the slips. -/
theorem Call.run_released_iff {call : Call} (h : Released con) (hr : call.run con = some con') :
    Released con' ↔ Fits con call := by
  cases call with
  | connect =>
    cases hr
    rw [connConnect_released_iff h]
    exact ⟨fun hl => ⟨fun hd => hd.elim, fun _ => hl⟩, fun hf => hf.connect rfl⟩
  | read ntags =>
    obtain ⟨⟨inc, _⟩, heq, rfl⟩ := Option.map_eq_some_iff.1 hr
    rw [connRead_released_iff h heq]
    exact ⟨fun hd => ⟨hd, fun hc => by cases hc⟩, Fits.down⟩
  | write line =>
    cases hr
    rw [connWrite_released_iff h]
    exact ⟨fun hd => ⟨hd, fun hc => by cases hc⟩, Fits.down⟩
  | setSsl on =>
    cases hr
    exact iff_of_true (connSetSsl_released h on) ⟨fun hd => hd.elim, fun hc => by cases hc⟩
  | reset =>
    cases hr
    rw [(connReset_down con).released_iff]
    exact ⟨fun hd => ⟨fun _ => hd, fun hc => by cases hc⟩, fun hf => hf.down trivial⟩
  | settings host proxied =>
    cases hr
    exact iff_of_true (h.congr rfl rfl rfl rfl rfl rfl) ⟨fun hd => hd.elim, fun hc => by cases hc⟩

theorem released_init (world : World) : Released (connInit world) :=
  ⟨fun hon => Bool.noConfusion hon, fun _ => rfl, fun _ => rfl, fun _ => ⟨rfl, rfl⟩⟩

/-- A sequence of calls, each with the state that it found. -/
inductive Run (world : World) : List (Iconn × Call) → Iconn → Prop
  | init : Run world [] (connInit world)
  | call {hist : List (Iconn × Call)} {con con' : Iconn} {call : Call} (h : Run world hist con)
      (hr : call.run con = some con') : Run world (hist ++ [(con, call)]) con'

/-- In all states of a run, a connection that is online has a socket obtained for it, and one
that is offline has no socket, no handle and nothing in its buffer, if and only if no call of
the run meets one of the slips. -/
theorem offline_released_iff {world : World} {hist : List (Iconn × Call)} {con : Iconn}
    (h : Run world hist con) :
    ((∀ s ∈ hist, Released s.1) ∧ Released con) ↔ ∀ s ∈ hist, Fits s.1 s.2 := by
  induction h with
  | init => simp [released_init]
  | @call hist con con' call _ hr ih =>
    have hstep := fun hrel : Released con => Call.run_released_iff hrel hr
    simp only [List.forall_mem_append, List.forall_mem_singleton]
    rw [← ih]
    exact and_congr_right fun hall => hstep hall.2

/-- TLS on, a connection, a line, a reset. -/
theorem released_secure :
    let con₀ := connInit (serving [⟨[], []⟩])
    let con₁ := (connSetSsl con₀ true).2
    let con₂ := (connConnect con₁).2
    let con₃ := (connWrite con₂ (ascii "PING x")).2
    (con₃.sck = 5 ∧ con₃.shnd = true) ∧
      ((∀ s ∈ [(con₀, Call.setSsl true), (con₁, .connect), (con₂, .write (ascii "PING x")),
      (con₃, .reset)], Released s.1) ∧ Released (connReset con₃)) := by
  intro con₀ con₁ con₂ con₃
  have hrun : Run (serving [⟨[], []⟩]) [(con₀, Call.setSsl true), (con₁, .connect),
      (con₂, .write (ascii "PING x")), (con₃, .reset)] (connReset con₃) :=
    .call (.call (.call (.call .init rfl) rfl) rfl) rfl
  refine ⟨by decide +kernel, (offline_released_iff hrun).2 ?_⟩
  simp only [List.forall_mem_cons, List.not_mem_nil, false_implies, implies_true, and_true]
  refine ⟨⟨fun hd => hd.elim, fun hc => by cases hc⟩,
    ⟨fun hd => hd.elim, fun _ => ⟨fun hl => ?_, fun hz => ?_⟩⟩,
    ⟨fun _ _ => rfl, fun hc => by cases hc⟩, ⟨fun _ _ => rfl, fun hc => by cases hc⟩⟩
  · exact Bool.noConfusion hl.2.2.2.2.2.2
  · obtain ⟨d, hd, hover⟩ := hz.2.1
    obtain rfl := Option.some.inj hd
    exact hover (inTime_zero _ _ _)

def late : Dial :=
  { answering ⟨[], []⟩ with
    hardto := 1000000
    clock := fun i => 1700000000000000 + 1000000 * i.toUInt64 }

/-- A handle stays behind when the socket cannot be made nonblocking again, and when TLS is
switched off before the reset. A hard timeout puts the connection online with descriptor 0. -/
theorem handle_left :
    (let con₀ := connInit { serving [⟨[], []⟩] with blocking := [true, false] }
      let con₁ := (connSetSsl con₀ true).2
      let con₂ := (connConnect con₁).2
      Run con₀.world [(con₀, Call.setSsl true), (con₁, .connect)] con₂ ∧
        con₂.online = false ∧ con₂.shnd = true) ∧
    (let con₀ := connInit (serving [⟨[], []⟩])
      let con₁ := (connSetSsl con₀ true).2
      let con₂ := (connConnect con₁).2
      let con₃ := (connSetSsl con₂ false).2
      Run con₀.world [(con₀, Call.setSsl true), (con₁, .connect), (con₂, .setSsl false),
        (con₃, .reset)]
          (connReset con₃) ∧
        (connReset con₃).online = false ∧ (connReset con₃).shnd = true) ∧
    (let con₀ := connInit { serving [] with dials := [late] }
      let con₁ := (connConnect con₀).2
      Run con₀.world [(con₀, Call.connect)] con₁ ∧
        con₁.online = true ∧ con₁.sck = 0 ∧ con₁.obtained = []) := by
  refine ⟨⟨?_, by decide +kernel⟩, ⟨?_, by decide +kernel⟩, ⟨?_, by decide +kernel⟩⟩
  · exact .call (.call .init rfl) rfl
  · exact .call (.call (.call (.call .init rfl) rfl) rfl) rfl
  · exact .call .init rfl

end Srsirc.OfflineRelease
