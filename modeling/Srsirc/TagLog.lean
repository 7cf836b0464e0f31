import Srsirc.OneCasemap
import Srsirc.Registrations
import Srsirc.Teardown

namespace Srsirc.TagLog

open CharMap Dictionary Fallible HeapCells Message ServerInfo UserBase Context Conn CoreHandlers
open Dispatch
open Connect HandlerCalls Registry TrackRule TagBalance Teardown
open BucketList (Alloc)

/-- `lsi_ucb_tag_chan`. -/
def ucbTagChan (b : Base) (c : Ptr) (tag : Option Ptr) (autofree : Bool) : Except Fault Base := do
  let ch ← b.chan c
  .ok (Base.setChan { b with freed := freeTag ch.tag ch.freetag b.freed } c { ch with tag, freetag := autofree })

/-- `lsi_ucb_tag_user`. -/
def ucbTagUser (b : Base) (p : Ptr) (tag : Option Ptr) (autofree : Bool) : Except Fault Base := do
  let u ← b.user p
  .ok (Base.setUser { b with freed := freeTag u.tag u.freetag b.freed } p { u with tag, freetag := autofree })

/-- `irc_tag_chan`. Unless there is tracking there are no maps, and nothing is found. -/
def ircTagChan (irc : Irc) (chname : Str) (tag : Option Ptr) (autofree : Bool) :
    Except Fault (Bool × Irc) :=
  match if irc.trackingEnab then getChan irc.base chname else none with
  | none => .ok (false, irc)
  | some c => do
    let base ← ucbTagChan irc.base c tag autofree
    .ok (true, { irc with base })

/-- `irc_tag_user`. -/
def ircTagUser (irc : Irc) (ident : Str) (tag : Option Ptr) (autofree : Bool) :
    Except Fault (Bool × Irc) :=
  match if irc.trackingEnab then getUser irc.base ident else none with
  | none => .ok (false, irc)
  | some p => do
    let base ← ucbTagUser irc.base p tag autofree
    .ok (true, { irc with base })

/-- What `lsi_trk_deinit` does about the records, if there are maps with records. -/
def releaseAll (irc : Irc) : Except Fault Irc :=
  if irc.trackingEnab then do
    let base ← ucbClear irc.base
    .ok { irc with base }
  else .ok irc

/-- `irc_connect`, which first releases what it has tracked so far. -/
def ircConnect (users : UserHnds) (k : Nat) (irc : Irc) : Option (Except Fault Irc) :=
  match releaseAll irc with
  | .error e => some (.error e)
  | .ok irc => (connect users k irc).map fun r => r.map Connected.irc

/-- The tags that have been freed after `irc_dispose`. -/
def ircDispose (irc : Irc) : Except Fault (List (Option Ptr)) :=
  (releaseAll irc).map fun irc => irc.base.freed

inductive Call
  | tagChan (chname : Str) (tag : Option Ptr) (autofree : Bool)
  | tagUser (ident : Str) (tag : Option Ptr) (autofree : Bool)
  | message (msg : Msg)
  | connect (k : Nat)
  | set (conf : Irc)

structure Session where
  irc : Irc
  tagged : List (Option Ptr × Bool)

def Session.attach (s : Session) (tag : Option Ptr) (autofree : Bool) (r : Bool × Irc) : Session :=
  ⟨r.2, if r.1 then (tag, autofree) :: s.tagged else s.tagged⟩

def perform (users : UserHnds) (s : Session) : Call → Option (Except Fault Session)
  | .tagChan chname tag autofree =>
    some ((ircTagChan s.irc chname tag autofree).map (s.attach tag autofree))
  | .tagUser ident tag autofree =>
    some ((ircTagUser s.irc ident tag autofree).map (s.attach tag autofree))
  | .message msg => some ((msgHandle users s.irc msg false).map fun r => { s with irc := r.2 })
  | .connect k => (ircConnect users k s.irc).map fun r => r.map fun irc => { s with irc }
  | .set conf => some (.ok { s with irc := { conf with
      base := s.irc.base, trackingEnab := s.irc.trackingEnab, msghnds := s.irc.msghnds } })

def performAll (users : UserHnds) : List Call → Session → Option (Except Fault Session)
  | [], s => some (.ok s)
  | call :: calls, s =>
    match perform users s call with
    | some (.ok s) => performAll users calls s
    | r => r

/-- All tags that are to be freed would be, if the records were released now. -/
def Orderly (irc : Irc) : Prop := irc.trackingEnab = true → Releasable irc.base

def OrderlyAll (users : UserHnds) : List Call → Session → Prop
  | [], _ => True
  | call :: calls, s => (∀ k, call = .connect k → Orderly s.irc) ∧
      ∀ s', perform users s call = some (.ok s') → OrderlyAll users calls s'

def Idle (irc : Irc) : Prop := irc.trackingEnab = false → ∀ t, held irc.base t = 0

/-- The tags are accounted for, and the tracking does not end. -/
structure Follows (irc irc' : Irc) : Prop where
  base : Settled irc.base irc'.base
  enab : irc'.trackingEnab = false → irc.trackingEnab = false

theorem Follows.idle {irc irc' : Irc} (h : Follows irc irc') (hi : Idle irc) : Idle irc' :=
  fun hoff => h.base.none (hi (h.enab hoff))

theorem Follows.trans {irc irc' irc'' : Irc} (h : Follows irc irc') (h' : Follows irc' irc'') :
    Follows irc irc'' :=
  ⟨h.base.trans h'.base, fun hoff => h.enab (h'.enab hoff)⟩

structure Renewed (b b' : Base) : Prop where
  userHeap : b'.userHeap = .empty
  chanHeap : b'.chanHeap = .empty
  freed : b'.freed = b.freed

theorem Renewed.settled {b b' : Base} (h : Renewed b b') (hb : ∀ t, held b t = 0) :
    Settled b b' := by
  refine ⟨fun t => ?_, by rw [h.freed]⟩
  rw [h.freed, hb t, held, h.userHeap, h.chanHeap]
  rfl

theorem Renewed.realloc {b b' b'' : Base} (h : Renewed b b') (hr : Realloc b' b'') :
    Renewed b b'' := by
  obtain ⟨al, rfl⟩ := hr
  exact ⟨h.userHeap, h.chanHeap, h.freed⟩

theorem Renewed.after {b b' b'' : Base} (hr : Realloc b b') (h : Renewed b' b'') :
    Renewed b b'' := by
  obtain ⟨al, rfl⟩ := hr
  exact ⟨h.userHeap, h.chanHeap, h.freed⟩

theorem reghnds_realloc (hs : List (String × Hnd)) (m : Module) (irc : Irc) :
    Realloc irc.base (reghnds hs m irc).2.base := by
  induction hs generalizing irc with
  | nil => exact .refl _
  | cons p hs ih =>
    have hreg : Realloc irc.base (reghnd irc (ascii p.1) p.2 m).2.base := by
      rw [reghnd]
      dsimp only [Irc.malloc, Base.malloc]
      split
      · exact .refl _
      · split <;> next heq =>
          obtain ⟨_, rfl⟩ := Prod.mk.inj heq
          exact ⟨_, rfl⟩
    rw [reghnds]
    split
    · next heq => rwa [heq] at hreg
    · next heq =>
      rw [heq] at hreg
      exact hreg.trans (ih _)

theorem ucbInit_base (irc : Irc) :
    Realloc irc.base (ucbInit irc).2.base ∨ Renewed irc.base (ucbInit irc).2.base := by
  rw [ucbInit]
  dsimp only [Irc.malloc, Base.malloc]
  split
  · exact Or.inl ⟨_, rfl⟩
  · split
    · exact Or.inl ⟨_, rfl⟩
    · split
      · exact Or.inl ⟨_, rfl⟩
      · split
        · exact Or.inl ⟨_, rfl⟩
        · exact Or.inr ⟨rfl, rfl, rfl⟩

theorem trkInit_base (irc : Irc) :
    Realloc irc.base (trkInit irc).2.base ∨ Renewed irc.base (trkInit irc).2.base := by
  have hreg := reghnds_realloc trackHnds .track irc
  rw [trkInit]
  split
  · next heq =>
    rw [heq] at hreg
    exact Or.inl hreg
  · next irc₁ heq =>
    rw [heq] at hreg
    have hbase : Realloc irc.base (ucbInit irc₁).2.base ∨ Renewed irc.base (ucbInit irc₁).2.base :=
      (ucbInit_base irc₁).imp hreg.trans (Renewed.after hreg)
    split <;> next heq => rwa [heq] at hbase

theorem openConn_base (irc : Irc) : Renewed irc.base (openConn irc).2.base := by
  have hnew : Renewed irc.base (trkDeinit irc).base := ⟨rfl, rfl, rfl⟩
  have hcore : ∀ irc, Realloc irc.base (imhRegall irc).2.base := fun irc => reghnds_realloc _ _ irc
  have hv3 : ∀ irc, Realloc irc.base (v3Regall irc).2.base := fun irc => reghnds_realloc _ _ irc
  have hcore := hcore (unregall { trkDeinit irc with trackingEnab := false } .core)
  rw [openConn]
  dsimp only
  split
  · next heq =>
    rw [heq] at hcore
    exact hnew.realloc hcore
  · next irc₁ heq =>
    rw [heq] at hcore
    have hv3 := hv3 (unregall irc₁ .v3)
    split <;> next heq =>
      rw [heq] at hv3
      exact (hnew.realloc hcore).realloc hv3

theorem noteAttrs_realloc (msg : Msg) (k z : Nat) (irc : Irc) :
    Ensures (noteAttrs msg k z irc) fun r =>
    r.2.2.trackingEnab = irc.trackingEnab ∧ Realloc irc.base r.2.2.base := by
  induction k generalizing z irc with
  | zero => exact Ensures.ok ⟨rfl, .refl _⟩
  | succ k ih =>
    have hattr : ∀ attr, Ensures (noteAttr irc attr) fun r =>
        r.2.trackingEnab = irc.trackingEnab ∧ Realloc irc.base r.2.base :=
      fun attr => Ensures.value fun _ => Ensures.ok ⟨rfl, _, rfl⟩
    refine Ensures.value fun attr => (hattr attr).bind fun r h =>
      Ensures.ite (fun _ => Ensures.ok h) fun _ => ?_
    exact (ih _ _).bind fun r' h' => Ensures.ok ⟨h'.1.trans h.1, h.2.trans h'.2⟩

theorem handle_005_follows {irc : Irc} (hi : Idle irc) (msg : Msg) (nargs : Nat) (logon : Bool) :
    Ensures (handle_005 irc msg nargs logon) fun r => Follows irc r.2 := by
  refine (noteAttrs_realloc msg _ 3 irc).bind fun ⟨ret, haveCasemap, irc₁⟩ ⟨henab, hr⟩ => ?_
  dsimp only at henab hr ⊢
  have hnoted : Follows irc irc₁ := ⟨settled_realloc hr, fun hoff => henab ▸ hoff⟩
  refine Ensures.ite (fun _ => Ensures.ok hnoted) fun _ => Ensures.ite (fun hg => ?_) fun _ =>
    Ensures.ok hnoted
  have hoff : irc.trackingEnab = false := by simpa [henab] using hg.2.2
  have hbase : Settled irc.base (trkInit irc₁).2.base :=
    (trkInit_base irc₁).elim (fun h => settled_realloc (hr.trans h)) fun h =>
      (Renewed.after hr h).settled (hi hoff)
  split <;> next heq =>
    rw [heq] at hbase
    exact Ensures.ok ⟨hbase, fun _ => hoff⟩

theorem run_follows {irc : Irc} (hi : Idle irc) (h : Hnd) (msg : Msg) (nargs : Nat) (logon : Bool) :
    Ensures (run h irc msg nargs logon) fun r => Follows irc r.2 := by
  by_cases ht : tracks h = true
  · refine (tracking_rule ht irc msg nargs logon).mono fun r ⟨base, heq, hbase⟩ => ?_
    rw [heq]
    exact ⟨hbase _ (settled_preserves irc.base irc.info) (.refl _), fun hoff => hoff⟩
  · by_cases h005 : h = .handle_005
    · subst h005
      exact handle_005_follows hi msg nargs logon
    · refine (Casemapping.run_quiet h005 (by simpa using ht) irc msg nargs logon).mono
        fun r hq => ?_
      exact ⟨settled_realloc hq.base, fun hoff => hq.enab ▸ hoff⟩

theorem between_settled : Between fun irc irc' => (∀ t, held irc.base t = 0) →
    Settled irc.base irc'.base where
  opened irc h := (openConn_base irc).settled h
  time _ _ := .refl _
  read _ _ _ _ _ _ := .refl _
  write _ _ _ := .refl _
  reset _ _ := .refl _
  info _ _ _ := .refl _

theorem connect_settled {users : UserHnds} {k : Nat} {irc : Irc} {r : Connected}
    (hnone : ∀ t, held irc.base t = 0)
    (h : connect users k irc = some (.ok r)) : Settled irc.base r.irc.base := by
  have hw := connect_worked between_settled h
  generalize connectCalls users k irc = calls at hw
  generalize r.irc = irc' at hw
  induction hw with
  | refl => exact .refl _
  | between _ ht ih => exact ih.trans (ht (ih.none hnone))
  | @call _ irc' hnd msg logon r _ hrun ih =>
    have hi : Idle irc' := fun _ => ih.none hnone
    exact ih.trans (run_follows hi hnd msg msg.nargs logon r hrun).base

theorem releaseAll_settled {irc : Irc} (hi : Idle irc) (ho : Orderly irc) :
    Ensures (releaseAll irc) fun irc' => Settled irc.base irc'.base ∧
      ∀ t, held irc'.base t = 0 := by
  refine Ensures.ite (fun hon => ?_) fun hoff => Ensures.ok ⟨.refl _, hi (by simpa using hoff)⟩
  exact (ucbClear_settled (ho hon)).bind fun base h => Ensures.ok h

theorem ircConnect_settled {users : UserHnds} {k : Nat} {irc irc' : Irc} (hi : Idle irc)
    (ho : Orderly irc)
    (h : ircConnect users k irc = some (.ok irc')) :
      Settled irc.base irc'.base ∧ ∀ t, held irc'.base t = 0 := by
  rw [ircConnect] at h
  split at h
  · cases h
  · next irc₁ hrel =>
    obtain ⟨hs, hnone⟩ := releaseAll_settled hi ho irc₁ hrel
    obtain ⟨x, hx, hxr⟩ := Option.map_eq_some_iff.1 h
    cases x with
    | error e => cases hxr
    | ok r =>
      cases hxr
      have hconn := connect_settled hnone hx
      exact ⟨hs.trans hconn, hconn.none hnone⟩

variable {pre post : Irc → Msg → Nat → Bool}

theorem msgHandle_follows {irc : Irc} (hi : Idle irc) (msg : Msg) (logon : Bool) :
    Ensures (msgHandle (OneCasemap.onlookers pre post) irc msg logon) fun r => Follows irc r.2 := by
  have hrefl : Follows irc irc := ⟨.refl _, fun hoff => hoff⟩
  apply OneCasemap.msgHandle_onlookers (J := fun _ irc' => Follows irc irc') (K := Follows irc)
  · intro _ irc' e h _ _
    exact (run_follows (h.idle hi) e.hndfn msg msg.nargs logon).mono fun _ h' => h.trans h'
  · exact fun _ _ h => h
  · exact hrefl
  · exact fun _ _ => hrefl

/-- A tag that was attached to be freed was freed, or a record has it. -/
structure Balanced (s : Session) : Prop where
  due : ∀ t, s.irc.base.freed.count t + held s.irc.base t = s.tagged.count (t, true)
  idle : Idle s.irc

theorem Balanced.settled {s : Session} (h : Balanced s) {irc : Irc}
    (hs : Settled s.irc.base irc.base)
    (hi : Idle irc) : Balanced { s with irc } := ⟨fun t => (hs.due t).trans (h.due t), hi⟩

theorem count_attach (tagged : List (Option Ptr × Bool)) (tag : Option Ptr) (autofree : Bool)
    (t : Option Ptr) :
    ((tag, autofree) :: tagged).count (t, true) = tagged.count (t, true) + if autofree &&
      tag == t then 1 else 0 := by
  rw [List.count_cons]
  cases autofree <;> simp

/-- With a new tag the old one is freed, if it is to be. -/
theorem ucbTagChan_due (b : Base) (c : Ptr) (tag : Option Ptr) (autofree : Bool) :
    Ensures (ucbTagChan b c tag autofree) fun b' => ∀ t, b'.freed.count t + held b' t =
      b.freed.count t + held b t + if autofree && tag == t then 1 else 0 := by
  refine Ensures.bind_of fun ch hch => Ensures.ok fun t => ?_
  have hset := CellCount.count_set (get_of_chan hch) { ch with tag, freetag := autofree } (chanHolds t)
  rw [chanHolds, chanHolds] at hset
  have hfreed := count_freeTag ch.tag ch.freetag b.freed t
  rw [held, held, Base.setChan]
  dsimp only at hset ⊢
  omega

theorem ucbTagUser_due (b : Base) (p : Ptr) (tag : Option Ptr) (autofree : Bool) :
    Ensures (ucbTagUser b p tag autofree) fun b' => ∀ t, b'.freed.count t + held b' t =
      b.freed.count t + held b t + if autofree && tag == t then 1 else 0 := by
  refine Ensures.bind_of fun u hu => Ensures.ok fun t => ?_
  have hset := CellCount.count_set (get_of_user hu) { u with tag, freetag := autofree } (userHolds t)
  rw [userHolds, userHolds] at hset
  have hfreed := count_freeTag u.tag u.freetag b.freed t
  rw [held, held, Base.setUser]
  dsimp only at hset ⊢
  omega

/-- What attaching a tag to a record of `irc` may result in. -/
def Attaches (irc : Irc) (tag : Option Ptr) (autofree : Bool) : Bool × Irc → Prop
  | (false, irc') => irc' = irc
  | (true, irc') => irc'.trackingEnab = true ∧ ∀ t, irc'.base.freed.count t + held irc'.base t =
      irc.base.freed.count t + held irc.base t + if autofree && tag == t then 1 else 0

theorem ircTagChan_attaches (irc : Irc) (chname : Str) (tag : Option Ptr) (autofree : Bool) :
    Ensures (ircTagChan irc chname tag autofree) (Attaches irc tag autofree) := by
  rw [ircTagChan]
  split
  · exact Ensures.ok rfl
  · next c hc =>
    refine (ucbTagChan_due irc.base c tag autofree).bind fun b hb => Ensures.ok ⟨?_, hb⟩
    by_contra hoff
    rw [if_neg hoff] at hc
    cases hc

theorem ircTagUser_attaches (irc : Irc) (ident : Str) (tag : Option Ptr) (autofree : Bool) :
    Ensures (ircTagUser irc ident tag autofree) (Attaches irc tag autofree) := by
  rw [ircTagUser]
  split
  · exact Ensures.ok rfl
  · next p hp =>
    refine (ucbTagUser_due irc.base p tag autofree).bind fun b hb => Ensures.ok ⟨?_, hb⟩
    by_contra hoff
    rw [if_neg hoff] at hp
    cases hp

theorem Balanced.attach {s : Session} (h : Balanced s) {tag : Option Ptr} {autofree : Bool}
    {r : Bool × Irc}
    (hr : Attaches s.irc tag autofree r) : Balanced (s.attach tag autofree r) := by
  obtain ⟨attached, irc⟩ := r
  cases attached with
  | false =>
    obtain rfl : irc = s.irc := hr
    exact h
  | true =>
    obtain ⟨hon, hdue⟩ := hr
    refine ⟨fun t => ?_, fun hoff => ?_⟩
    · rw [Session.attach, if_pos rfl, count_attach, ← h.due t]
      exact hdue t
    · rw [show irc.trackingEnab = false from hoff] at hon
      cases hon

theorem perform_balanced {s s' : Session} (h : Balanced s) {call : Call}
    (ho : ∀ k, call = .connect k → Orderly s.irc)
    (hp : perform (OneCasemap.onlookers pre post) s call = some (.ok s')) : Balanced s' := by
  cases call with
  | tagChan chname tag autofree =>
    have hr := (ircTagChan_attaches s.irc chname tag autofree).map (f := s.attach tag autofree)
      (q := Balanced)
      fun r hr => h.attach hr
    exact hr s' (Option.some.inj hp)
  | tagUser ident tag autofree =>
    have hr := (ircTagUser_attaches s.irc ident tag autofree).map (f := s.attach tag autofree)
      (q := Balanced)
      fun r hr => h.attach hr
    exact hr s' (Option.some.inj hp)
  | message msg =>
    have hr := (@msgHandle_follows pre post _ h.idle msg false).map
      (f := fun r : Flags × Irc => ({ s with irc := r.2 } : Session)) (q := Balanced)
      fun r hr => h.settled hr.base (hr.idle h.idle)
    exact hr s' (Option.some.inj hp)
  | connect k =>
    obtain ⟨x, hx, hxs⟩ := Option.map_eq_some_iff.1 hp
    cases x with
    | error e => cases hxs
    | ok irc =>
      cases hxs
      obtain ⟨hs, hnone⟩ := ircConnect_settled h.idle (ho k rfl) hx
      exact h.settled hs fun _ => hnone
  | set conf =>
    cases hp
    exact h.settled (.refl _) h.idle

theorem performAll_balanced (calls : List Call) {s s' : Session} (h : Balanced s)
    (ho : OrderlyAll (OneCasemap.onlookers pre post) calls s)
    (hp : performAll (OneCasemap.onlookers pre post) calls s = some (.ok s')) : Balanced s' := by
  induction calls generalizing s with
  | nil =>
    cases hp
    exact h
  | cons call calls ih =>
    rw [performAll] at hp
    split at hp
    · next s₁ heq => exact ih (perform_balanced h ho.1 heq) (ho.2 s₁ heq) hp
    · next hnot => exact absurd hp (hnot s')

/-- Each tag that was to be freed was freed once, and no other one was. -/
structure FreedOnce (tagged : List (Option Ptr × Bool)) (freed : List (Option Ptr)) : Prop where
  autofree : ∀ t, (t, true) ∈ tagged → freed.count t = 1
  others : ∀ t, (t, false) ∈ tagged → t ∉ freed

/-- Each tag that was to be freed was freed once or is that of one record, and no other one was
freed. -/
structure Accounted (s : Session) : Prop where
  autofree : ∀ t, (t, true) ∈ s.tagged → s.irc.base.freed.count t + held s.irc.base t = 1
  others : ∀ t, (t, false) ∈ s.tagged → t ∉ s.irc.base.freed

theorem count_once {tagged : List (Option Ptr × Bool)} (hdist : (tagged.map Prod.fst).Nodup)
    {t : Option Ptr}
    (ht : (t, true) ∈ tagged) : tagged.count (t, true) = 1 :=
  List.count_eq_one_of_mem (List.Nodup.of_map _ hdist) ht

theorem count_never {tagged : List (Option Ptr × Bool)} (hdist : (tagged.map Prod.fst).Nodup)
    {t : Option Ptr}
    (ht : (t, false) ∈ tagged) : tagged.count (t, true) = 0 := by
  refine List.count_eq_zero.2 fun htrue => ?_
  have hsame := List.inj_on_of_nodup_map hdist ht htrue rfl
  cases hsame

theorem Balanced.accounted {s : Session} (h : Balanced s) (hdist : (s.tagged.map Prod.fst).Nodup) :
    Accounted s where
  autofree t ht := (h.due t).trans (count_once hdist ht)
  others t ht hfreed := by
    have hdue := h.due t
    rw [count_never hdist ht] at hdue
    have hpos := List.count_pos_iff.2 hfreed
    omega

theorem Balanced.freedOnce {s : Session} (h : Balanced s) (hdist : (s.tagged.map Prod.fst).Nodup)
    (ho : Orderly s.irc) : Ensures (ircDispose s.irc) (FreedOnce s.tagged) := by
  refine (releaseAll_settled h.idle ho).map fun irc ⟨hs, hnone⟩ => ?_
  have hend := (h.settled hs fun _ => hnone).accounted hdist
  refine ⟨fun t ht => ?_, hend.others⟩
  have hdue := hend.autofree t ht
  rwa [hnone t] at hdue

/-- Whatever the program does with a context, if the records can be released whenever they
all are, each tag to be freed is freed once, when its record goes or gets another one, and
no other tag is freed. -/
theorem tags_freed_once (rand : Nat × Nat) (al : Alloc) (world : World) (calls : List Call)
    (s : Session)
    (hrun : performAll (OneCasemap.onlookers pre post) calls ⟨ircInit rand al world, []⟩ =
      some (.ok s))
    (hord : OrderlyAll (OneCasemap.onlookers pre post) calls ⟨ircInit rand al world, []⟩)
    (hdist : (s.tagged.map Prod.fst).Nodup) :
    Accounted s ∧
      (Orderly s.irc → ∀ freed, ircDispose s.irc = .ok freed → FreedOnce s.tagged freed) := by
  have hstart : Balanced ⟨ircInit rand al world, []⟩ := ⟨fun _ => rfl, fun _ _ => rfl⟩
  have hend := performAll_balanced calls hstart hord hrun
  exact ⟨hend.accounted hdist, fun ho => hend.freedOnce hdist ho⟩

theorem orderlyAll_of_stays (users : UserHnds) {calls : List Call}
    (h : ∀ call ∈ calls, ∀ k, call ≠ .connect k)
    (s : Session) : OrderlyAll users calls s := by
  induction calls generalizing s with
  | nil => trivial
  | cons call calls ih =>
    obtain ⟨hcall, hcalls⟩ := List.forall_mem_cons.1 h
    exact ⟨fun k hk => absurd hk (hcall k), fun s' _ => ih hcalls s'⟩

def tracker : Irc :=
  { ircInit (0, 0) [] (serving [⟨lines [":s 004 srsirc s v o o"], []⟩]) with tracking := true }

def fresh : Session := ⟨ircInit (0, 0) [] (serving []), []⟩

def heard (line : String) : Call := .message (.ofLine (ascii line))

def meet : List Call :=
  [heard ":s 005 srsirc CASEMAPPING=ascii :ok", heard ":srsirc!u@h JOIN #a",
    heard ":bob!u@h JOIN #a"]

theorem tags_freed_once_user :
    ∃ s freed, performAll noUsers
      (.set tracker :: .connect 9 :: (meet ++ [.tagUser (ascii "bob") (some 7) true]))
        fresh = some (.ok s) ∧ s.tagged = [(some 7, true)] ∧ Orderly s.irc ∧
          ircDispose s.irc = .ok freed ∧
      Accounted s ∧ FreedOnce s.tagged freed := by
  have h :
      ((performAll noUsers
        (.set tracker :: .connect 9 :: (meet ++ [.tagUser (ascii "bob") (some 7) true]))
      fresh).bind Except.toOption).any (fun s => decide (s.tagged = [(some 7, true)]) &&
        decide (Releasable s.irc.base) && (ircDispose s.irc).toOption.any fun _ =>
          true) = true := by
    decide +kernel
  obtain ⟨s, hs, hq⟩ := ok_of_any h
  rw [Bool.and_eq_true, Bool.and_eq_true, decide_eq_true_eq, decide_eq_true_eq] at hq
  obtain ⟨⟨htagged, hrel⟩, hq⟩ := hq
  obtain ⟨freed, hfreed, _⟩ := ok_of_toOption hq
  have hord : OrderlyAll noUsers
      (.set tracker :: .connect 9 :: (meet ++ [.tagUser (ascii "bob") (some 7) true])) fresh := by
    refine ⟨fun _ hk => (nomatch hk),
      fun s₁ h₁ => ⟨fun _ _ hon => ?_, fun s₂ _ => orderlyAll_of_stays _ ?_ s₂⟩⟩
    · cases h₁
      cases hon
    · simp [meet, heard]
  obtain ⟨hacc, hend⟩ :=
    tags_freed_once (0, 0) [] (serving []) _ s hs hord (by rw [htagged]; decide)
  exact ⟨s, freed, hs, htagged, fun _ => hrel, hfreed, hacc, hend (fun _ => hrel) freed hfreed⟩

/-- The tag of a channel that we are still in is not freed with it. -/
theorem tag_leaked :
    ∃ s freed, performAll noUsers
      (.set tracker :: .connect 9 :: (meet ++ [.tagChan (ascii "#a") (some 7) true]))
        fresh = some (.ok s) ∧ ircDispose s.irc = .ok freed ∧ (s.tagged.map Prod.fst).Nodup ∧
      ¬FreedOnce s.tagged freed := by
  have h :
      ((performAll noUsers
        (.set tracker :: .connect 9 :: (meet ++ [.tagChan (ascii "#a") (some 7) true]))
      fresh).bind Except.toOption).any (fun s => decide (s.tagged = [(some 7, true)]) &&
        (ircDispose s.irc).toOption.any fun freed => freed == []) = true := by
    decide +kernel
  obtain ⟨s, hs, hq⟩ := ok_of_any h
  rw [Bool.and_eq_true, decide_eq_true_eq] at hq
  obtain ⟨htagged, hq⟩ := hq
  obtain ⟨freed, hfreed, hnil⟩ := ok_of_toOption hq
  rw [beq_iff_eq] at hnil
  subst hnil
  refine ⟨s, [], hs, hfreed, by rw [htagged]; decide, fun h => ?_⟩
  have hcount := h.autofree (some 7) (by rw [htagged]; exact List.mem_singleton_self _)
  cases hcount

end Srsirc.TagLog
