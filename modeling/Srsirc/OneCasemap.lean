import Srsirc.CapSpecs
import Srsirc.Casemapping

namespace Srsirc.OneCasemap

open CharMap Dictionary HeapCells Message ServerInfo UserBase Context Conn CoreHandlers Dispatch
open Connect
open Registry Fallible MapAgreement Casemapping HandlerSpecs

def casemapOf (attr : Str) : Option CMap :=
  let nam := attr.takeWhile (· != 0x3d)
  if sameIgnoringCase nam "CASEMAPPING" then
    some (handle_005_CASEMAPPING .init (attr.drop (nam.length + 1))).2.casemap
  else none

/-- An attribute after which no other is looked at. -/
def badAttr (attr : Str) : Bool :=
  let nam := attr.takeWhile (· != 0x3d)
  !sameIgnoringCase nam "CASEMAPPING" && sameIgnoringCase nam "PREFIX" &&
    (handle_005_PREFIX .init (attr.drop (nam.length + 1))).1.has CANT_PROCEED

/-- The last casemapping that is set by `k` attributes from `z` on. -/
def setBy (msg : Msg) : Nat → Nat → Option CMap
  | 0, _ => none
  | k + 1, z =>
    match msg.fld z with
    | .error _ => none
    | .ok attr => if badAttr attr then none else (setBy msg k (z + 1)).or (casemapOf attr)

def announced (msg : Msg) : Option CMap := setBy msg (msg.nargs - 1 - 3) 3

/-- All maps that the tracking uses go by the casemapping of the context. -/
def Uniform (irc : Irc) : Prop :=
  irc.base.chans.cm = irc.info.casemap ∧ irc.base.users.cm = irc.info.casemap ∧
    ∀ c ∈ irc.base.chans.vals, ∀ ch, irc.base.chanHeap.get c = some ch →
      ch.memb.cm = irc.info.casemap

/-- What happens during a connection: a message is handled, or there is something else to
the connection, or our nick is noted. -/
inductive Event
  | message (msg : Msg) (logon : Bool)
  | other (con : Iconn) (mynick : Str)

def onlookers (pre post : Irc → Msg → Nat → Bool) : UserHnds :=
  ⟨fun irc msg nargs => (pre irc msg nargs, irc), fun irc msg nargs => (post irc msg nargs, irc)⟩

def happen (users : UserHnds) (irc : Irc) : Event → Except Fault Irc
  | .message msg logon => (msgHandle users irc msg logon).map Prod.snd
  | .other con mynick => .ok { irc with con, info := { irc.info with mynick } }

def happenAll (users : UserHnds) : List Event → Irc → Except Fault Irc
  | [], irc => .ok irc
  | e :: es, irc => happen users irc e >>= happenAll users es

/-- While there is tracking, a 005 does not change the casemapping. -/
def Stays (irc : Irc) : Event → Prop
  | .message msg _ => msg.fld 1 = .ok (ascii "005") → irc.trackingEnab = true →
      ∀ cm, announced msg = some cm → cm = irc.info.casemap
  | .other _ _ => True

def StaysAll (users : UserHnds) : List Event → Irc → Prop
  | [], _ => True
  | e :: es, irc => Stays irc e ∧ ∀ irc', happen users irc e = .ok irc' → StaysAll users es irc'

theorem handle_005_PREFIX_spec (info : Info) (val : Str) :
    (handle_005_PREFIX info val).1 = (handle_005_PREFIX .init val).1 ∧
      (handle_005_PREFIX info val).2.casemap = info.casemap := by
  cases val with
  | nil => exact ⟨rfl, rfl⟩
  | cons c rest =>
    simp only [handle_005_PREFIX]
    split
    · exact ⟨rfl, rfl⟩
    · split <;> exact ⟨rfl, rfl⟩

theorem handleAttr_casemap (info : Info) (attr : Str) {val : Option Str}
    (hval : ∀ v, val = some v → v = attr.drop ((attr.takeWhile (· != 0x3d)).length + 1)) :
    Ensures (handleAttr info (attr.takeWhile (· != 0x3d)) val) fun r =>
      r.2.casemap = (casemapOf attr).getD info.casemap ∧ r.1.has CANT_PROCEED = badAttr attr := by
  obtain ⟨hflags, hcm⟩ :=
    handle_005_PREFIX_spec info (attr.drop ((attr.takeWhile (· != 0x3d)).length + 1))
  rw [casemapOf, badAttr]
  generalize attr.takeWhile (· != 0x3d) = nam at hval hflags hcm ⊢
  cases val with
  | none =>
    refine Ensures.ite (fun _ => Ensures.error) fun h =>
      Ensures.ite (fun _ => Ensures.error) fun hp => ?_
    refine Ensures.ite (fun _ => Ensures.error) fun _ =>
      Ensures.ite (fun _ => Ensures.error) fun _ => ?_
    exact Ensures.ok (by simp [h, hp, Flags.has])
  | some v =>
    obtain rfl := hval v rfl
    refine Ensures.ite (fun h => Ensures.ok ?_) fun h =>
      Ensures.ite (fun hp => Ensures.ok ?_) fun hp => ?_
    · simp [h, handle_005_CASEMAPPING, Flags.has]
    · simp [h, hp, hcm, hflags]
    · have hout : (if sameIgnoringCase nam "CASEMAPPING" = true then some
          (handle_005_CASEMAPPING .init (attr.drop (nam.length + 1))).2.casemap else none) =
            none := if_neg h
      have hbad : (!sameIgnoringCase nam "CASEMAPPING" && sameIgnoringCase nam "PREFIX" &&
          (handle_005_PREFIX .init (attr.drop (nam.length + 1))).1.has CANT_PROCEED) =
            false := by simp [hp]
      rw [hout, hbad]
      have hzero : Flags.has 0 CANT_PROCEED = false := by decide
      exact Ensures.ite (fun _ => Ensures.ok ⟨rfl, hzero⟩) fun _ =>
        Ensures.ite (fun _ => Ensures.ok ⟨rfl, hzero⟩) fun _ => Ensures.ok ⟨rfl, hzero⟩

structure Noted (cm : Option CMap) (irc irc' : Irc) : Prop where
  casemap : irc'.info.casemap = cm.getD irc.info.casemap
  enab : irc'.trackingEnab = irc.trackingEnab
  maps : ∀ cm, Mapped cm irc.base → Mapped cm irc'.base

theorem noteAttr_noted (irc : Irc) (attr : Str) : Ensures (noteAttr irc attr) fun r =>
    Noted (casemapOf attr) irc r.2 ∧ r.1.has CANT_PROCEED = badAttr attr := by
  rw [noteAttr]
  dsimp only [Irc.strdup, Base.strdup]
  refine (handleAttr_casemap _ attr ?_).bind fun r ⟨hcm, hbad⟩ => ?_
  · intro v hv
    split at hv
    · exact (Option.some.inj hv).symm
    · cases hv
  · exact Ensures.ok ⟨⟨hcm, rfl, fun _ hm => ⟨hm.chans, hm.users, hm.memb⟩⟩, hbad⟩

/-- What the last of `k` attributes from `z` on that sets something sets it to. -/
def lastBy {α : Type} (f : Str → Option α) (msg : Msg) : Nat → Nat → Option α
  | 0, _ => none
  | k + 1, z =>
    match msg.fld z with
    | .error _ => none
    | .ok attr => if badAttr attr then none else (lastBy f msg k (z + 1)).or (f attr)

theorem setBy_eq (msg : Msg) (k z : Nat) : setBy msg k z = lastBy casemapOf msg k z := by
  induction k generalizing z with
  | zero => rfl
  | succ k ih =>
    rw [setBy, lastBy]
    cases msg.fld z with
    | error e => rfl
    | ok attr => rw [ih]

/-- What each attribute does, the loop over them does. -/
theorem noteAttrs_rule {α : Type} {f : Str → Option α} {g : Irc → α} {R : Irc → Irc → Prop}
    (hrefl : ∀ irc, R irc irc) (htrans : ∀ irc irc' irc'', R irc irc' → R irc' irc'' → R irc irc'')
    (hbad : ∀ attr, badAttr attr = true → f attr = none)
    (hstep : ∀ irc attr, Ensures (noteAttr irc attr) fun r =>
      R irc r.2 ∧ g r.2 = (f attr).getD (g irc) ∧ r.1.has CANT_PROCEED = badAttr attr)
    (msg : Msg) (k z : Nat) (irc : Irc) : Ensures (noteAttrs msg k z irc) fun r =>
      R irc r.2.2 ∧ g r.2.2 = (lastBy f msg k z).getD (g irc) := by
  induction k generalizing z irc with
  | zero => exact Ensures.ok ⟨hrefl irc, rfl⟩
  | succ k ih =>
    rw [noteAttrs, lastBy]
    cases msg.fld z with
    | error e => exact Ensures.error
    | ok attr =>
      refine (hstep irc attr).bind fun ⟨ret, irc₁⟩ ⟨h, hval, hflags⟩ => ?_
      dsimp only at h hval hflags ⊢
      rw [hflags]
      refine Ensures.ite (fun hb => ?_) fun hb => (ih (z + 1) irc₁).bind fun r' h' => ?_
      · rw [hbad attr hb] at hval
        simp only [hb, if_true]
        exact Ensures.ok ⟨h, hval⟩
      · simp only [hb]
        refine Ensures.ok ⟨htrans _ _ _ h h'.1, ?_⟩
        rw [h'.2, hval]
        cases lastBy f msg k (z + 1) <;> rfl

theorem casemapOf_bad {attr : Str} (hb : badAttr attr = true) : casemapOf attr = none := by
  simp only [badAttr, Bool.and_eq_true, Bool.not_eq_true'] at hb
  rw [casemapOf, hb.1.1]
  rfl

theorem noteAttrs_noted (msg : Msg) (k z : Nat) (irc : Irc) :
    Ensures (noteAttrs msg k z irc) fun r =>
    Noted (setBy msg k z) irc r.2.2 := by
  rw [setBy_eq]
  refine (noteAttrs_rule (g := fun irc => irc.info.casemap) (R := fun irc irc' =>
    irc'.trackingEnab = irc.trackingEnab ∧ ∀ cm, Mapped cm irc.base → Mapped cm irc'.base)
    (fun _ => ⟨rfl, fun _ hm => hm⟩)
    (fun _ _ _ h h' => ⟨h'.1.trans h.1, fun cm hm => h'.2 cm (h.2 cm hm)⟩) (fun _ => casemapOf_bad)
    (fun irc attr => ?_) msg k z irc).mono fun r h => ⟨h.2, h.1.1, h.1.2⟩
  exact (noteAttr_noted irc attr).mono fun r h => ⟨⟨h.1.enab, h.1.maps⟩, h.1.casemap, h.2⟩

theorem trkInit_maps {irc irc' : Irc} {ok : Bool} (h : trkInit irc = (ok, irc')) :
    irc'.info.casemap = irc.info.casemap ∧ irc'.trackingEnab = irc.trackingEnab ∧
      (ok = true → Mapped irc.info.casemap irc'.base) := by
  obtain ⟨_, hirc⟩ := trkInit_spec irc
  rw [h] at hirc
  obtain ⟨_, _, hirc⟩ := hirc
  dsimp only at hirc
  refine ⟨by rw [hirc], by rw [hirc], ?_⟩
  rintro rfl
  rw [trkInit] at h
  split at h
  · cases h
  · next irc₁ hreg =>
    have hinfo : irc₁.info = irc.info := by
      obtain ⟨_, ⟨_, _, rfl⟩, _⟩ := reghnds_spec (m := .track) trackHnds (fun _ hp => hp)
        (short_hndsOf irc.dumb .track) hreg
      rfl
    split at h
    · cases h
    · next irc₂ hucb =>
      cases h
      rw [← hinfo]
      rw [ucbInit] at hucb
      dsimp only [Irc.malloc] at hucb
      split at hucb
      · cases hucb
      · split at hucb
        · cases hucb
        · split at hucb
          · cases hucb
          · split at hucb
            · cases hucb
            · cases hucb
              exact mapped_init _ _ _

def Agreed (irc : Irc) : Prop := irc.trackingEnab = true → Mapped irc.info.casemap irc.base

/-- The casemapping that a 005 sets is no news while there is tracking. -/
def Known005 (msg : Msg) (cmd : Str) (irc : Irc) : Prop :=
  cmd = ascii "005" → irc.trackingEnab = true → ∀ cm, announced msg = some cm →
    cm = irc.info.casemap

theorem handle_005_agreed {irc : Irc} {msg : Msg} {cmd : Str} (ha : Agreed irc)
    (hk : Known005 msg cmd irc) (hcmd : cmd = ascii "005") (logon : Bool) :
    Ensures (handle_005 irc msg msg.nargs logon) fun r => Agreed r.2 ∧ Known005 msg cmd r.2 := by
  refine (noteAttrs_noted msg _ 3 irc).bind fun ⟨ret, haveCasemap, irc₁⟩ hn => ?_
  dsimp only at hn ⊢
  have hset : ∀ cm, announced msg = some cm → cm = irc₁.info.casemap := by
    intro cm hcm
    rw [hn.casemap, show setBy msg (msg.nargs - 1 - 3) 3 = some cm from hcm]
    rfl
  have hkeep : Agreed irc₁ := by
    intro he
    rw [hn.enab] at he
    have hsame : irc₁.info.casemap = irc.info.casemap := by
      rw [hn.casemap]
      cases hs : setBy msg (msg.nargs - 1 - 3) 3 with
      | none => rfl
      | some cm => exact hk hcmd he cm hs
    rw [hsame]
    exact hn.maps _ (ha he)
  have hstay : Ensures (.ok (ret, irc₁) : Except Fault (Flags × Irc)) fun r =>
      Agreed r.2 ∧ Known005 msg cmd r.2 := Ensures.ok ⟨hkeep, fun _ _ => hset⟩
  refine Ensures.ite (fun _ => hstay) fun _ => Ensures.ite (fun hg => ?_) fun _ => hstay
  obtain ⟨_, _, hoff⟩ := hg
  split
  · next irc₂ h =>
    obtain ⟨_, he, _⟩ := trkInit_maps h
    have hoff₂ : irc₂.trackingEnab = false := by
      rw [he]
      simpa using hoff
    refine Ensures.ok ⟨fun hon => ?_, fun _ hon => ?_⟩
    · rw [hoff₂] at hon
      cases hon
    · rw [hoff₂] at hon
      cases hon
  · next irc₂ h =>
    obtain ⟨hcm, _, hm⟩ := trkInit_maps h
    refine Ensures.ok ⟨fun _ => ?_, fun _ _ cm hs => ?_⟩
    · have := hm rfl
      rwa [← hcm] at this
    · rw [hset cm hs]
      exact hcm.symm

theorem cmd_005 {dumb : Bool} {m : Module} {c : String} (h : (c, .handle_005) ∈ hndsOf dumb m) :
    c = "005" := by
  cases dumb <;> cases m <;> simp_all [hndsOf, coreHnds, v3Hnds, trackHnds]

structure Held (msg : Msg) (cmd : Str) (irc : Irc) : Prop where
  table : Table irc
  agreed : Agreed irc
  known : Known005 msg cmd irc

theorem run_held {irc : Irc} {e : Msghnd} {msg : Msg} {cmd : Str} {logon : Bool}
    (h : Held msg cmd irc)
    (he : some e ∈ irc.msghnds.val) (hcmd : e.cmd = cmd) :
    Ensures (run e.hndfn irc msg msg.nargs logon) fun r => Held msg cmd r.2 := by
  intro r hr
  have ht := h.table.kept (CapSpecs.run_conduct e.hndfn irc msg msg.nargs logon r hr).kept
  by_cases h005 : e.hndfn = .handle_005
  · obtain ⟨c, hc, hec⟩ := h.table.known e he
    rw [h005] at hc hr
    have hcmd₅ : cmd = ascii "005" := by rw [← hcmd, hec, cmd_005 hc]
    obtain ⟨ha, hk⟩ := handle_005_agreed h.agreed h.known hcmd₅ logon r hr
    exact ⟨ht, ha, hk⟩
  · obtain ⟨hcm, hen, hm⟩ := run_level h005 irc msg msg.nargs logon r hr
    refine ⟨ht, fun hon => ?_, fun hc hon cm hs => ?_⟩
    · rw [hcm]
      exact hm (h.agreed (hen ▸ hon))
    · rw [hcm]
      exact h.known hc (hen ▸ hon) cm hs

variable {pre post : Irc → Msg → Nat → Bool}

/-- What each handler for the command preserves, the handling of a message does when the
user's handlers only look on. -/
theorem msgHandle_onlookers {J : Str → Irc → Prop} {K : Irc → Prop} {irc : Irc} {msg : Msg}
    {logon : Bool}
    (hstep : ∀ cmd irc e, J cmd irc → some e ∈ irc.msghnds.val → e.cmd = cmd →
      Ensures (run e.hndfn irc msg msg.nargs logon) fun r => J cmd r.2)
    (hleave : ∀ cmd irc, J cmd irc → K irc) (hk : K irc) (henter : ∀ cmd, msg.fld 1 = .ok cmd →
      J cmd irc) :
    Ensures (msgHandle (onlookers pre post) irc msg logon) fun r => K r.2 := by
  have hgo : Ensures (do
      let cmd ← msg.fld 1
      let r ← dispatch msg cmd logon (2 * irc.msghnds.val.length + 32) 0 0 irc
      if r.1.has CANT_PROCEED then .ok (r.1, r.2)
      else
        let x := if logon then (true, r.2) else (onlookers pre post).post r.2 msg msg.nargs
        .ok (if x.1 then r.1 else r.1 ||| USER_ERR, x.2) :
          Except Fault (Flags × Irc)) fun r => K r.2 := by
    cases hcmd : msg.fld 1 with
    | error e => exact Ensures.error
    | ok cmd =>
      refine (dispatch_rule (hstep cmd) _ (henter cmd hcmd)).bind fun r hr => ?_
      refine Ensures.ite (fun _ => Ensures.ok (hleave cmd _ hr)) fun _ => ?_
      cases logon <;> exact Ensures.ok (hleave cmd _ hr)
  rw [msgHandle]
  cases logon with
  | true => exact hgo
  | false => exact Ensures.ite (fun _ => Ensures.ok hk) fun _ => hgo

theorem msgHandle_held {irc : Irc} {msg : Msg} {logon : Bool} (ht : Table irc) (ha : Agreed irc)
    (hk : Stays irc (.message msg logon)) :
    Ensures (msgHandle (onlookers pre post) irc msg logon) fun r => Table r.2 ∧ Agreed r.2 := by
  apply msgHandle_onlookers (J := Held msg) (K := fun irc => Table irc ∧ Agreed irc)
  · exact fun _ _ _ h he hc => run_held h he hc
  · exact fun _ _ h => ⟨h.table, h.agreed⟩
  · exact ⟨ht, ha⟩
  · exact fun cmd hcmd => ⟨ht, ha, fun hc => hk (hc ▸ hcmd)⟩

theorem happen_held {irc : Irc} {e : Event} (ht : Table irc) (ha : Agreed irc) (hs : Stays irc e) :
    Ensures (happen (onlookers pre post) irc e) fun irc' => Table irc' ∧ Agreed irc' := by
  cases e with
  | message msg logon => exact (msgHandle_held ht ha hs).map fun _ h => h
  | other con mynick => exact Ensures.ok ⟨⟨ht.known, ht.has⟩, ha⟩

theorem happenAll_agreed (es : List Event) {irc : Irc} (ht : Table irc) (ha : Agreed irc)
    (hs : StaysAll (onlookers pre post) es irc) {es' : List Event} (hpre : es' <+: es) :
    Ensures (happenAll (onlookers pre post) es' irc) Agreed := by
  induction es generalizing irc es' with
  | nil =>
    obtain rfl := List.prefix_nil.1 hpre
    exact Ensures.ok ha
  | cons e es ih =>
    obtain rfl | ⟨es', rfl, htail⟩ := List.prefix_cons_iff.1 hpre
    · exact Ensures.ok ha
    · rw [happenAll]
      cases hstep : happen (onlookers pre post) irc e with
      | error x => exact Ensures.error
      | ok irc' =>
        obtain ⟨ht', ha'⟩ := happen_held ht ha hs.1 irc' hstep
        exact ih ht' ha' (hs.2 irc' hstep) htail

theorem openConn_enab {irc irc' : Irc} (h : openConn irc = (true, irc')) :
    irc'.trackingEnab = false := by
  rw [openConn] at h
  dsimp only at h
  split at h
  · cases h
  · next irc₁ h₁ =>
    split at h
    · cases h
    · next irc₂ h₂ =>
      obtain ⟨_, ⟨_, _, rfl⟩, _⟩ := reghnds_spec (m := .core) _ (fun _ hp => hp)
        (short_hndsOf _ .core) h₁
      obtain ⟨_, ⟨_, _, rfl⟩, _⟩ := reghnds_spec (m := .v3) _ (fun _ hp => hp)
        (short_hndsOf _ .v3) h₂
      obtain ⟨_, rfl⟩ := Prod.mk.inj h
      rfl

/-- During a connection in which no 005 changes the casemapping once the tracking has begun,
all maps go by the casemapping of the context whenever there is tracking. -/
theorem one_casemapping {irc irc₁ : Irc} (hopen : openConn irc = (true, irc₁)) (es : List Event)
    (hs : StaysAll (onlookers pre post) es irc₁) :
    ∀ es', es' <+: es → ∀ irc', happenAll (onlookers pre post) es' irc₁ = .ok irc' →
      irc'.trackingEnab = true → Uniform irc' := by
  intro es' hpre irc' hrun hon
  obtain ⟨ht, _⟩ := openConn_spec hopen
  have ha : Agreed irc₁ := by
    intro hon
    rw [openConn_enab hopen] at hon
    cases hon
  have hm := happenAll_agreed es ht ha hs hpre irc' hrun hon
  exact ⟨hm.chans, hm.users, fun c _ ch hch => hm.memb c ch hch⟩

def tracked : Irc := { ircInit (0, 0) [] (serving [⟨[], []⟩]) with tracking := true }

def heard (line : String) : Event := .message (.ofLine (ascii line)) false

def joining : List Event := [heard ":s 005 me CASEMAPPING=ascii :ok", heard ":srsirc!u@h JOIN #a"]

theorem one_casemapping_join :
    ∃ irc, happenAll noUsers joining (openConn tracked).2 = .ok irc ∧ irc.trackingEnab = true ∧
      Uniform irc := by
  have hopen : openConn tracked = (true, (openConn tracked).2) := Prod.ext (by decide +kernel) rfl
  obtain ⟨irc, hrun, hon⟩ := @ok_of_toOption _ _ (happenAll noUsers joining (openConn tracked).2)
    (fun irc => irc.trackingEnab) (by decide +kernel)
  refine ⟨irc, hrun, hon, @one_casemapping (fun _ _ _ => true) (fun _ _ _ => true) _ _ hopen joining
    ⟨fun _ hon => ?_, fun _ _ => ⟨fun hcmd => ?_, fun _ _ => trivial⟩⟩ _ List.prefix_rfl
      irc hrun hon⟩
  · exact absurd hon (by decide +kernel)
  · exact absurd hcmd (by decide +kernel)

/-- A second 005 changes the casemapping under the maps. -/
theorem casemapping_changed :
    ∃ irc, happenAll noUsers [heard ":s 005 me CASEMAPPING=rfc1459 :ok",
        heard ":s 005 me CASEMAPPING=ascii :ok"] (openConn tracked).2 = .ok irc ∧
      irc.trackingEnab = true ∧ ¬Uniform irc := by
  have h : (some (happenAll noUsers [heard ":s 005 me CASEMAPPING=rfc1459 :ok",
      heard ":s 005 me CASEMAPPING=ascii :ok"] (openConn tracked).2) |>.bind Except.toOption).any
        (fun irc => irc.trackingEnab && irc.base.chans.cm != irc.info.casemap) = true := by
    decide +kernel
  obtain ⟨irc, hirc, hq⟩ := ok_of_any h
  rw [Bool.and_eq_true, bne_iff_ne] at hq
  exact ⟨irc, Option.some.inj hirc, hq.1, fun hu => hq.2 hu.1⟩

end Srsirc.OneCasemap
