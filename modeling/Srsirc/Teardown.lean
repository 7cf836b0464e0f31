import Srsirc.Members
import Srsirc.TagBalance

namespace Srsirc.Teardown

open CharMap Dictionary Fallible HeapCells Message UserBase Members TagBalance

/-- How `lsi_ucb_clear` releases a user: like everyone else does, but for the tag. -/
def leakUser (b : Base) (p : Ptr) : Except Fault Base :=
  match b.userHeap.get p with
  | none => .error .doubleFree
  | some _ => .ok { b with userHeap := b.userHeap.free p }

/-- How `lsi_ucb_clear` releases a channel. -/
def leakChan (b : Base) (c : Ptr) : Except Fault Base :=
  match b.chanHeap.get c with
  | none => .error .doubleFree
  | some _ => .ok { b with chanHeap := b.chanHeap.free c }

def clearChans : List Ptr → Base → Except Fault Base
  | [], b => .ok b
  | c :: cs, b => do
    let b ← clearMemb b c
    let b ← leakChan b c
    clearChans cs b

def clearUsers : List Ptr → Base → Except Fault Base
  | [], b => .ok b
  | p :: ps, b => do
    let b ← leakUser b p
    clearUsers ps b

/-- `lsi_ucb_clear`. It is over when there are no channels, whatever users there are. -/
def ucbClear (b : Base) : Except Fault Base :=
  if b.chans.visit.1 = [] then .ok { b with chans := b.chans.visit.2 }
  else do
    let b ← clearChans (KeyedList.vals b.chans.visit.1) { b with chans := b.chans.visit.2 }
    if b.users.visit.1 = [] then .ok { b with chans := b.chans.clear, users := b.users.visit.2 }
    else
      let b ← clearUsers (KeyedList.vals b.users.visit.1)
        { b with chans := b.chans.clear, users := b.users.visit.2 }
      .ok { b with users := b.users.clear }

def Untagged (b : Base) : Prop := ∀ c ch, b.chanHeap.get c = some ch → ch.freetag = false

/-- The users with such a tag are in channels, `R` times each, and say so. -/
def Owed (R : Ptr → Nat) (b : Base) : Prop :=
  ∀ p u, b.userHeap.get p = some u → u.freetag = true → 0 < u.nchans ∧ u.nchans = R p

/-- Tags that are to be freed are those of users alone, who are counted correctly and are in
some channel. -/
structure Releasable (b : Base) : Prop where
  chan : Untagged b
  user : Owed (refs b) b

variable {b : Base} {R : Ptr → Nat}

instance : Decidable (Untagged b) :=
  decidable_of_iff (∀ c < b.chanHeap.cells.length, (b.chanHeap.get c).all fun ch =>
    !ch.freetag) <| by
    constructor
    · intro h c ch hch
      have hc := h c (lt_next hch)
      rw [hch] at hc
      simpa using hc
    · intro h c _
      rw [Option.all_eq_true_iff_get]
      intro hsome
      rw [h c _ (Option.some_get hsome).symm]
      rfl

instance : Decidable (Owed R b) :=
  decidable_of_iff (∀ p < b.userHeap.cells.length, (b.userHeap.get p).all fun u =>
      !u.freetag || decide (0 < u.nchans ∧ u.nchans = R p)) <| by
    constructor
    · intro h p u hu hfree
      have hp := h p (lt_next hu)
      rw [hu] at hp
      simpa [hfree] using hp
    · intro h p _
      rw [Option.all_eq_true_iff_get]
      intro hsome
      rw [Bool.or_eq_true, decide_eq_true_eq, Bool.not_eq_true', or_iff_not_imp_left]
      exact fun hfree => h p _ (Option.some_get hsome).symm (by simpa using hfree)

instance : Decidable (Releasable b) :=
  decidable_of_iff (Untagged b ∧ Owed (refs b) b) ⟨fun h => ⟨h.1, h.2⟩, fun h => ⟨h.1, h.2⟩⟩

theorem Owed.of_eq {b' : Base} (h : Owed R b) (huser : b'.userHeap = b.userHeap) : Owed R b' := by
  intro p u hu
  rw [huser] at hu
  exact h p u hu

theorem Untagged.of_eq {b' : Base} (h : Untagged b) (hchan : b'.chanHeap = b.chanHeap) :
    Untagged b' := by
  intro c ch hch
  rw [hchan] at hch
  exact h c ch hch

theorem Untagged.setChan (h : Untagged b) (c : Ptr) (ch : Chan) (hch : ch.freetag = false) :
    Untagged (b.setChan c ch) := by
  intro c' ch' hget
  obtain rfl | hget := get_set_some hget
  · exact hch
  · exact h c' ch' hget

theorem unref_owed {S : Ptr → Nat} {p : Ptr} (hS : ∀ q, S q = R q + if q = p then 1 else 0)
    (h : Owed S b) :
    Ensures (unref b p true) fun b' => Owed R b' ∧ b'.chanHeap = b.chanHeap := by
  refine Ensures.bind_of fun u hu => ?_
  have hu := get_of_user hu
  have hset := get_set hu { u with nchans := decr u.nchans }
  have hothers : ∀ q v, q ≠ p → b.userHeap.get q = some v → v.freetag = true →
      0 < v.nchans ∧ v.nchans = R q := by
    intro q v hne hq hfree
    have hv := h q v hq hfree
    rwa [hS, if_neg hne] at hv
  refine Ensures.ite (fun _ => ?_) fun hmore => Ensures.ok ⟨fun q v hq hfree => ?_, rfl⟩
  · rw [Base.freeUser]
    split
    · exact Ensures.error
    · refine Ensures.ok ⟨fun q v hq hfree => ?_, rfl⟩
      dsimp only [Base.setUser] at hq
      rw [get_free, hset, Function.update_idem, Function.update_apply] at hq
      split at hq
      · cases hq
      · next hne => exact hothers q v hne hq hfree
  · rw [Base.setUser, hset, Function.update_apply] at hq
    split at hq
    · next heq =>
      subst heq
      obtain rfl := Option.some.inj hq
      obtain ⟨hpos, hn⟩ := h q u hu hfree
      rw [hS, if_pos rfl] at hn
      have hdecr : decr u.nchans = R q := by
        rw [decr, if_neg (by omega)]
        omega
      exact ⟨Nat.pos_of_ne_zero fun hzero => hmore ⟨hzero, rfl⟩, hdecr⟩
    · next hne => exact hothers q v hne hq hfree

theorem unrefAll_owed (ms : List Memb) {S : Ptr → Nat}
    (hS : ∀ q, S q = countIn ms q + R q) {b : Base}
    (h : Owed S b) : Ensures (unrefAll ms b) fun b' => Owed R b' ∧ b'.chanHeap = b.chanHeap := by
  induction ms generalizing b S with
  | nil =>
    refine Ensures.ok ⟨fun p u hu hfree => ?_, rfl⟩
    have hp := h p u hu hfree
    rwa [hS, countIn, List.countP_nil, Nat.zero_add] at hp
  | cons m ms ih =>
    have hcons : ∀ q, S q = (countIn ms q + R q) + if q = m.u then 1 else 0 := by
      intro q
      rw [hS, countIn_cons]
      omega
    refine (unref_owed hcons h).bind ?_
    rintro b₁ ⟨h₁, hchan₁⟩
    exact (ih (fun _ => rfl) h₁).mono fun b₂ h₂ => ⟨h₂.1, h₂.2.trans hchan₁⟩

theorem unref_chanHeap (b : Base) (p : Ptr) (purge : Bool) :
    Ensures (unref b p purge) fun b' => b'.chanHeap = b.chanHeap := by
  refine Ensures.bind_of fun u _ => Ensures.ite (fun _ => ?_) fun _ => Ensures.ok rfl
  rw [Base.freeUser]
  split
  · exact Ensures.error
  · exact Ensures.ok rfl

theorem unrefAll_chanHeap (ms : List Memb) (b : Base) :
    Ensures (unrefAll ms b) fun b' => b'.chanHeap = b.chanHeap := by
  induction ms generalizing b with
  | nil => exact Ensures.ok rfl
  | cons m ms ih => exact (unref_chanHeap b m.u true).bind fun b₁ h₁ => (ih b₁).mono fun _ h₂ => h₂.trans h₁

theorem get_setChan_ne {c d : Ptr} {ch : Chan} (hch : b.chan c = .ok ch) (ch' : Chan) (hd : d ≠ c) :
    (b.setChan c ch').chanHeap.get d = b.chanHeap.get d := by
  rw [Base.setChan, get_set (get_of_chan hch), Function.update_of_ne hd]

theorem clearMemb_others (b : Base) (c : Ptr) : Ensures (clearMemb b c) fun b' =>
    (∀ d, d ≠ c → b'.chanHeap.get d = b.chanHeap.get d) ∧ (Untagged b → Untagged b') := by
  refine Ensures.bind_of fun ch hch => ?_
  have hget : ∀ d, d ≠ c → (b.setChan c { ch with memb := ch.memb.visit.2 }).chanHeap.get d =
      b.chanHeap.get d :=
    fun d hd => get_setChan_ne hch _ hd
  have hfree : Untagged b → ch.freetag = false := fun h => h c ch (get_of_chan hch)
  refine Ensures.ite (fun _ => Ensures.ok ⟨hget, fun h => h.setChan c _ (hfree h)⟩) fun _ => ?_
  refine (unrefAll_chanHeap _ _).bind fun b₁ hchan => Ensures.bind_of fun ch₁ hch₁ => ?_
  refine Ensures.ok ⟨fun d hd => ?_, fun h => ?_⟩
  · rw [get_setChan_ne hch₁ _ hd, hchan, hget d hd]
  · have h₁ : Untagged b₁ := (h.setChan c { ch with memb := ch.memb.visit.2 } (hfree h)).of_eq hchan
    exact h₁.setChan c _ (h₁ c ch₁ (get_of_chan hch₁))

theorem clearMemb_owed {c : Ptr} {S : Ptr → Nat} (hS : ∀ q, S q = countIn (membersOf b c) q + R q)
    (h : Owed S b) :
    Ensures (clearMemb b c) (Owed R) := by
  refine Ensures.bind_of fun ch hch => ?_
  have hmembs : membersOf b c = ch.memb.vals := by rw [membersOf, get_of_chan hch]
  have hstart : Owed S (b.setChan c { ch with memb := ch.memb.visit.2 }) := h.of_eq rfl
  rw [hmembs] at hS
  refine Ensures.ite (fun hnil => Ensures.ok fun p u hu hfree => ?_) fun _ => ?_
  · have hnone : ch.memb.vals = [] := by rw [← visit_fst, hnil, KeyedList.vals, List.map_nil]
    have hp := hstart p u hu hfree
    rwa [hS, hnone, countIn, List.countP_nil, Nat.zero_add] at hp
  · rw [visit_fst]
    exact (unrefAll_owed _ hS hstart).bind fun b₁ h₁ => Ensures.value fun _ =>
      Ensures.ok (h₁.1.of_eq rfl)

/-- Released without their tag, what has no tag to be freed is released properly. -/
theorem leakUser_eq {p : Ptr} (h : ∀ u, b.userHeap.get p = some u → u.freetag = false) :
    leakUser b p = b.freeUser p := by
  cases hu : b.userHeap.get p with
  | none => rw [leakUser, Base.freeUser, hu]
  | some u =>
    rw [leakUser, Base.freeUser, hu]
    dsimp only
    rw [h u hu]
    rfl

theorem leakChan_eq {c : Ptr} (h : Untagged b) : leakChan b c = b.freeChan c := by
  cases hch : b.chanHeap.get c with
  | none => rw [leakChan, Base.freeChan, hch]
  | some ch =>
    rw [leakChan, Base.freeChan, hch]
    dsimp only
    rw [h c ch hch]
    rfl

theorem leakChan_gone (b : Base) (c : Ptr) : Ensures (leakChan b c) fun b' =>
    b'.userHeap = b.userHeap ∧ b'.chanHeap.get = Function.update b.chanHeap.get c none := by
  rw [leakChan]
  split
  · exact Ensures.error
  · exact Ensures.ok ⟨rfl, get_free _ _⟩

theorem clearChans_distinct (cs : List Ptr) (b : Base) : Ensures (clearChans cs b) fun _ =>
    cs.Nodup ∧ ∀ c ∈ cs, b.chanHeap.get c ≠ none := by
  induction cs generalizing b with
  | nil => exact Ensures.ok ⟨List.nodup_nil, fun _ hc => absurd hc List.not_mem_nil⟩
  | cons c cs ih =>
    have hlive : Ensures (clearMemb b c) fun b' => b.chanHeap.get c ≠ none ∧
        ∀ d, d ≠ c → b'.chanHeap.get d = b.chanHeap.get d := by
      refine fun b' hb' => ⟨fun hnone => ?_, (clearMemb_others b c b' hb').1⟩
      obtain ⟨ch, hch, _⟩ := bind_ok_iff.1 hb'
      rw [get_of_chan hch] at hnone
      cases hnone
    refine hlive.bind fun b₁ ⟨hc, hothers⟩ => (leakChan_gone b₁ c).bind fun b₂ ⟨_, hgone⟩ => ?_
    refine (ih b₂).mono fun _ ⟨hnodup, hrest⟩ => ?_
    have hne : ∀ d ∈ cs, d ≠ c := by
      rintro d hd rfl
      exact hrest d hd (by rw [hgone, Function.update_self])
    refine ⟨List.nodup_cons.2 ⟨fun hmem => hne c hmem rfl, hnodup⟩,
      List.forall_mem_cons.2 ⟨hc, fun d hd => ?_⟩⟩
    have hd' := hrest d hd
    rwa [hgone, Function.update_of_ne (hne d hd), hothers d (hne d hd)] at hd'

theorem clearChans_owed (cs : List Ptr) {b : Base} {S : Ptr → Nat} (hnodup : cs.Nodup)
    (hS : ∀ q, S q = (cs.map fun c => countIn (membersOf b c) q).sum) (h : Owed S b) :
    Ensures (clearChans cs b) (Owed fun _ => 0) := by
  induction cs generalizing b S with
  | nil =>
    refine Ensures.ok fun p u hu hfree => ?_
    have hp := h p u hu hfree
    rwa [hS] at hp
  | cons c cs ih =>
    obtain ⟨hc, hnodup⟩ := List.nodup_cons.1 hnodup
    have hcons :
        ∀ q, S q = countIn (membersOf b c) q + (cs.map fun d => countIn (membersOf b d) q).sum := by
      intro q
      rw [hS, List.map_cons, List.sum_cons]
    have hclear : Ensures (clearMemb b c) fun b' =>
        Owed (fun q => (cs.map fun d => countIn (membersOf b d) q).sum) b' ∧
          ∀ d, d ≠ c → b'.chanHeap.get d = b.chanHeap.get d :=
      fun b' hb' => ⟨clearMemb_owed hcons h b' hb', (clearMemb_others b c b' hb').1⟩
    refine hclear.bind fun b₁ ⟨h₁, hothers⟩ => (leakChan_gone b₁ c).bind fun b₂ ⟨huser, hgone⟩ => ?_
    refine ih hnodup (fun q => ?_) (h₁.of_eq huser)
    have hsame : ∀ d ∈ cs, countIn (membersOf b d) q = countIn (membersOf b₂ d) q := by
      intro d hd
      have hne : d ≠ c := fun he => hc (he ▸ hd)
      rw [membersOf, membersOf, hgone, Function.update_of_ne hne, hothers d hne]
    rw [List.map_congr_left hsame]

theorem clearChans_settled (cs : List Ptr) {b : Base} (h : Untagged b) :
    Ensures (clearChans cs b) fun b' => Settled b b' ∧ Untagged b' := by
  induction cs generalizing b with
  | nil => exact Ensures.ok ⟨.refl b, h⟩
  | cons c cs ih =>
    have hclear : Ensures (clearMemb b c) fun b' => Settled b b' ∧ Untagged b' :=
      fun b' hb' => ⟨clearMemb_settled b c b' hb', (clearMemb_others b c b' hb').2 h⟩
    have hleak : ∀ b₁, Untagged b₁ → Ensures (leakChan b₁ c) fun b' => Settled b₁ b' ∧
        Untagged b' := by
      refine fun b₁ h₁ b' hb' =>
        ⟨freeChan_settled b₁ c b' (leakChan_eq h₁ ▸ hb'), fun d ch hd => ?_⟩
      rw [(leakChan_gone b₁ c b' hb').2, Function.update_apply] at hd
      split at hd
      · cases hd
      · exact h₁ d ch hd
    refine hclear.bind fun b₁ ⟨hs₁, h₁⟩ => (hleak b₁ h₁).bind fun b₂ ⟨hs₂, h₂⟩ => ?_
    exact (ih h₂).mono fun b₃ ⟨hs₃, h₃⟩ => ⟨hs₁.trans (hs₂.trans hs₃), h₃⟩

theorem Owed.none (h : Owed (fun _ => 0) b) {p : Ptr} {u : User} (hu : b.userHeap.get p = some u) :
    u.freetag = false := by
  by_contra hfree
  obtain ⟨hpos, hzero⟩ := h p u hu (by simpa using hfree)
  exact absurd hzero (Nat.pos_iff_ne_zero.1 hpos)

theorem clearUsers_settled (ps : List Ptr) {b : Base} (h : Owed (fun _ => 0) b) :
    Ensures (clearUsers ps b) fun b' => Settled b b' ∧ Owed (fun _ => 0) b' ∧
      b'.chanHeap = b.chanHeap := by
  induction ps generalizing b with
  | nil => exact Ensures.ok ⟨.refl b, h, rfl⟩
  | cons p ps ih =>
    have hleak : Ensures (leakUser b p) fun b' =>
        Settled b b' ∧ Owed (fun _ => 0) b' ∧ b'.chanHeap = b.chanHeap := by
      have heq := leakUser_eq (p := p) fun u => h.none
      refine fun b' hb' => ⟨freeUser_settled b p b' (heq ▸ hb'), ?_⟩
      rw [leakUser] at hb'
      split at hb'
      · cases hb'
      · cases hb'
        refine ⟨fun q u hu hfree => ?_, rfl⟩
        dsimp only at hu
        rw [get_free, Function.update_apply] at hu
        split at hu
        · cases hu
        · exact h q u hu hfree
    refine hleak.bind fun b₁ ⟨hs₁, h₁, hchan₁⟩ => (ih h₁).mono fun b₂ ⟨hs₂, h₂, hchan₂⟩ => ?_
    exact ⟨hs₁.trans hs₂, h₂, hchan₂.trans hchan₁⟩

theorem held_none (huser : Owed (fun _ => 0) b) (hchan : Untagged b) (t : Option Ptr) :
    held b t = 0 := by
  have hu : ∀ p u, b.userHeap.get p = some u → userHolds t u = false := by
    intro p u hu
    rw [userHolds, huser.none hu, Bool.false_and]
  have hc : ∀ c ch, b.chanHeap.get c = some ch → chanHolds t ch = false := by
    intro c ch hch
    rw [chanHolds, hchan c ch hch, Bool.false_and]
  rw [held, CellCount.count_zero.2 hu, CellCount.count_zero.2 hc]

/-- From such a base, every tag that is to be freed is. -/
theorem ucbClear_settled (h : Releasable b) :
    Ensures (ucbClear b) fun b' => Settled b b' ∧ ∀ t, held b' t = 0 := by
  have hrefs : ∀ q, refs b q =
      ((KeyedList.vals b.chans.visit.1).map fun c => countIn (membersOf b c) q).sum := by
    intro q
    rw [visit_fst]
    rfl
  have hvisit : Settled b { b with chans := b.chans.visit.2 } := settled_of_eq rfl rfl rfl
  refine Ensures.ite (fun hnil => Ensures.ok ⟨hvisit, held_none ?_ h.chan⟩) fun _ => ?_
  · intro p u hu hfree
    have hp := h.user p u hu hfree
    rwa [hrefs, hnil] at hp
  · have hchans :
        Ensures (clearChans (KeyedList.vals b.chans.visit.1)
          { b with chans := b.chans.visit.2 }) fun b' =>
        Settled b b' ∧ Untagged b' ∧ Owed (fun _ => 0) b' := by
      intro b' hb'
      have hstart : Untagged { b with chans := b.chans.visit.2 } := h.chan.of_eq rfl
      obtain ⟨hs, hu⟩ := clearChans_settled _ hstart b' hb'
      have hnodup := (clearChans_distinct _ _ b' hb').1
      have howed : Owed (refs b) { b with chans := b.chans.visit.2 } := h.user.of_eq rfl
      exact ⟨hvisit.trans hs, hu,
        clearChans_owed (b := { b with chans := b.chans.visit.2 }) _ hnodup hrefs howed b' hb'⟩
    refine hchans.bind fun b₁ ⟨hs₁, hu₁, ho₁⟩ => ?_
    refine Ensures.ite (fun _ => Ensures.ok ⟨hs₁.trans (settled_of_eq rfl rfl rfl), ?_⟩) fun _ => ?_
    · exact held_none (ho₁.of_eq rfl) (hu₁.of_eq rfl)
    · have hstart : Owed (fun _ => 0) { b₁ with chans := b₁.chans.clear, users := b₁.users.visit.2 } := ho₁.of_eq rfl
      refine (clearUsers_settled _ hstart).bind fun b₂ ⟨hs₂, ho₂, hchan₂⟩ => Ensures.ok ⟨?_, ?_⟩
      · have hmid : Settled b₁ { b₁ with chans := b₁.chans.clear, users := b₁.users.visit.2 } :=
          settled_of_eq rfl rfl rfl
        exact hs₁.trans (hmid.trans (hs₂.trans (settled_of_eq rfl rfl rfl)))
      · exact held_none (ho₂.of_eq rfl) (hu₁.of_eq hchan₂)

end Srsirc.Teardown
