import Srsirc.Fallible
import Srsirc.TrackInfo

namespace Srsirc.MapAgreement

open CharMap Dictionary HeapCells Message ServerInfo UserBase ChannelModes Track TrackInfo Fallible
open BucketList (Alloc)

/-- Every map of the base goes by the casemapping `cm`. -/
structure Mapped (cm : CMap) (b : Base) : Prop where
  chans : b.chans.cm = cm
  users : b.users.cm = cm
  memb : ∀ c ch, b.chanHeap.get c = some ch → ch.memb.cm = cm

theorem mapped_init (cm : CMap) (al : Alloc) (freed : List (Option Ptr)) :
    Mapped cm { Base.init cm with al, freed } :=
  ⟨rfl, rfl, fun _ _ h => by cases h⟩

/-- The casemapping of a member map and the prefixes of the members are as demanded. -/
structure Fit (κ : CMap → Prop) (q : Str → Prop) (d : Dict 256 Memb) : Prop where
  cm : κ d.cm
  modepfx : ∀ m ∈ d.vals, q m.modepfx

structure Fitted (κ : CMap → Prop) (q : Str → Prop) (b : Base) : Prop where
  chans : κ b.chans.cm
  users : κ b.users.cm
  memb : ∀ c ch, b.chanHeap.get c = some ch → Fit κ q ch.memb

theorem mapped_iff {cm : CMap} {b : Base} : Mapped cm b ↔ Fitted (· = cm) (fun _ => True) b :=
  ⟨fun h => ⟨h.chans, h.users, fun c ch hc => ⟨h.memb c ch hc, fun _ _ => trivial⟩⟩,
    fun h => ⟨h.chans, h.users, fun c ch hc => (h.memb c ch hc).cm⟩⟩

variable {κ : CMap → Prop} {q : Str → Prop} {d : Dict 256 Memb} {b : Base}

section Maps

variable {n : Nat} [NeZero n] {V : Type} {d : Dict n V}

theorem cm_after_put (h : κ d.cm) (key : Str) (v : V) (al : Alloc) : κ (d.put key v al).2.1.cm := by
  rwa [cm_put]

theorem cm_after_drop (h : κ d.cm) (key : Str) : κ (d.drop key).cm := by rwa [cm_drop]

theorem cm_after_visit (h : κ d.cm) : κ d.visit.2.cm := by rwa [cm_visit]

end Maps

theorem fit_init {cm : CMap} (hcm : κ cm) : Fit κ q (.init 256 Memb cm) :=
  ⟨hcm, fun m hm => by rw [vals_init] at hm; cases hm⟩

theorem Fit.put (h : Fit κ q d) {m : Memb} (hm : q m.modepfx) (key : Str) (al : Alloc) :
    Fit κ q (d.put key m al).2.1 := by
  refine ⟨cm_after_put h.cm key m al, fun m' hm' => ?_⟩
  obtain rfl | hm' := vals_put d key m al m' hm'
  · exact hm
  · exact h.modepfx m' hm'

theorem Fit.drop (h : Fit κ q d) (key : Str) : Fit κ q (d.drop key) :=
  ⟨cm_after_drop h.cm key, fun m hm => h.modepfx m (vals_drop d key m hm)⟩

theorem Fit.visit (h : Fit κ q d) : Fit κ q d.visit.2 :=
  ⟨cm_after_visit h.cm, by rw [vals_visit]; exact h.modepfx⟩

theorem Fit.clear (h : Fit κ q d) : Fit κ q d.clear :=
  ⟨h.cm, fun m hm => by rw [vals_clear] at hm; cases hm⟩

theorem Fit.get (h : Fit κ q d) {key : Str} {m : Memb} (hm : d.get key = some m) : q m.modepfx := by
  rw [get_eq] at hm
  exact h.modepfx m ((mem_vals d m).2 ⟨_, hm⟩)

theorem Fitted.setChan (h : Fitted κ q b) {ch : Chan} (hch : Fit κ q ch.memb) (c : Ptr) :
    Fitted κ q (b.setChan c ch) := by
  refine ⟨h.chans, h.users, fun p x hx => ?_⟩
  obtain rfl | hx := get_set_some hx
  · exact hch
  · exact h.memb p x hx

theorem Fitted.changed (h : Fitted κ q b) {ch ch' : Chan} (hch : Fit κ q ch.memb)
    (hm : ch'.memb = ch.memb) (c : Ptr) : Fitted κ q (b.setChan c ch') := h.setChan (hm ▸ hch) c

theorem Fitted.al (h : Fitted κ q b) (al : Alloc) : Fitted κ q { b with al } :=
  ⟨h.chans, h.users, h.memb⟩

theorem chan_fitted (h : Fitted κ q b) (c : Ptr) :
    Ensures (b.chan c) fun ch => Fit κ q ch.memb := by
  rw [Base.chan]
  cases hc : b.chanHeap.get c with
  | none => exact Ensures.error
  | some ch => exact Ensures.ok (h.memb c ch hc)

theorem freeUser_fitted (h : Fitted κ q b) (p : Ptr) : Ensures (b.freeUser p) (Fitted κ q) := by
  rw [Base.freeUser]
  cases b.userHeap.get p with
  | none => exact Ensures.error
  | some u => exact Ensures.ok ⟨h.chans, h.users, h.memb⟩

theorem freeChan_fitted (h : Fitted κ q b) (c : Ptr) : Ensures (b.freeChan c) (Fitted κ q) := by
  rw [Base.freeChan]
  cases b.chanHeap.get c with
  | none => exact Ensures.error
  | some ch =>
    refine Ensures.ok ⟨h.chans, h.users, fun p x hx => ?_⟩
    rw [get_free, Function.update_apply] at hx
    split at hx
    · cases hx
    · exact h.memb p x hx

theorem unref_fitted (h : Fitted κ q b) (p : Ptr) (purge : Bool) :
    Ensures (unref b p purge) (Fitted κ q) := by
  refine Ensures.value fun u => Ensures.ite (fun _ => ?_) fun _ => ?_
  · have hdel : κ (b.users.drop u.nick).cm := cm_after_drop h.users u.nick
    exact freeUser_fitted (b := { b with
      users := (b.users.del u.nick).2
      userHeap := b.userHeap.set p { u with nchans := decr u.nchans } }) ⟨h.chans, hdel, h.memb⟩ p
  · exact Ensures.ok ⟨h.chans, h.users, h.memb⟩

theorem unrefAll_fitted (ms : List Memb) {b : Base} (h : Fitted κ q b) :
    Ensures (unrefAll ms b) (Fitted κ q) := by
  induction ms generalizing b with
  | nil => exact Ensures.ok h
  | cons m ms ih => exact (unref_fitted h m.u true).bind fun _ => ih

theorem fitted_if {ok : Bool} {x y : Bool × Base} (hx : Fitted κ q x.2) (hy : Fitted κ q y.2) :
    Fitted κ q (if !ok then x else y).2 := by
  cases ok
  · exact hx
  · exact hy

theorem allocChan_fitted (h : Fitted κ q b) : Fitted κ q (allocChan b).2 :=
  fitted_if (h.al _)
    (fitted_if ((h.al _).al _) (fitted_if (((h.al _).al _).al _) ((((h.al _).al _).al _).al _)))

theorem addChan_fitted (h : Fitted κ q b) {cm : CMap} (hcm : κ cm) (name : Str) :
    Fitted κ q (addChan b cm name).2 := by
  have halloc := allocChan_fitted h
  rw [addChan]
  split
  · next b₁ heq => rwa [heq] at halloc
  · next b₁ heq =>
    rw [heq] at halloc
    have hput := cm_after_put halloc.chans name b₁.chanHeap.next b₁.al
    dsimp only at halloc ⊢
    split
    · next chans al hp =>
      rw [hp] at hput
      exact ⟨hput, halloc.users, halloc.memb⟩
    · next chans al hp =>
      rw [hp] at hput
      refine ⟨hput, halloc.users, fun p x hx => ?_⟩
      rw [get_new, Function.update_apply] at hx
      split at hx
      · rw [← Option.some.inj hx]
        exact fit_init hcm
      · exact halloc.memb p x hx

theorem dropChan_fitted (h : Fitted κ q b) (c : Ptr) :
    Ensures (dropChan b c) fun r => Fitted κ q r.2 := by
  refine Ensures.value fun ch => ?_
  have hdel := cm_after_drop h.chans ch.name
  split
  · exact Ensures.ok h
  · next chans heq =>
    rw [Dict.drop, heq] at hdel
    have h₁ : Fitted κ q { b with chans } := ⟨hdel, h.users, h.memb⟩
    exact (unrefAll_fitted _ h₁).bind fun _ h₂ => (freeChan_fitted h₂ c).bind fun _ h₃ =>
      Ensures.ok h₃

theorem addMemb_fitted (h : Fitted κ q b) (c p : Ptr) {mpfxstr : Str}
    (hq : q (strNcpy mpfxstr MAX_MODEPFX)) :
    Ensures (addMemb b c p mpfxstr) fun r => Fitted κ q r.2 := by
  rw [addMemb, Base.malloc]
  split
  · next b₁ heq =>
    obtain ⟨_, rfl⟩ := Prod.mk.inj heq
    exact Ensures.ok (h.al _)
  · next b₁ heq =>
    obtain ⟨_, rfl⟩ := Prod.mk.inj heq
    refine Ensures.value fun u => (chan_fitted (h.al _) c).bind fun ch hch => ?_
    have hput :=
      hch.put (m := ⟨p, strNcpy mpfxstr MAX_MODEPFX⟩) hq u.nick (BucketList.malloc b.al).2
    split
    · next memb al hp =>
      rw [hp] at hput
      exact Ensures.ok ((h.al al).setChan hput c)
    · next memb al hp =>
      rw [hp] at hput
      have hc := @Fitted.setChan _ _ _ (h.al al) { ch with memb } hput c
      exact Ensures.ok ⟨hc.chans, hc.users, hc.memb⟩

theorem dropMemb_fitted (h : Fitted κ q b) (c p : Ptr) (purge : Bool) :
    Ensures (dropMemb b c p purge) fun r => Fitted κ q r.2 := by
  refine Ensures.value fun u => (chan_fitted h c).bind fun ch hch => ?_
  have hdel := hch.drop u.nick
  split
  · exact Ensures.ok h
  · next m memb heq =>
    rw [Dict.drop, heq] at hdel
    exact (unref_fitted (@Fitted.setChan _ _ _ h { ch with memb } hdel c) m.u purge).bind fun _
      h₁ => Ensures.ok h₁

theorem clearMemb_fitted (h : Fitted κ q b) (c : Ptr) : Ensures (clearMemb b c) (Fitted κ q) := by
  refine (chan_fitted h c).bind fun ch hch => ?_
  have h₁ := @Fitted.setChan _ _ _ h { ch with memb := ch.memb.visit.2 } hch.visit c
  refine Ensures.ite (fun _ => Ensures.ok h₁) fun _ => ?_
  refine (unrefAll_fitted _ h₁).bind fun b₂ h₂ => (chan_fitted h₂ c).bind fun ch₂ hch₂ => ?_
  exact Ensures.ok (@Fitted.setChan _ _ _ h₂ { ch₂ with memb := ch₂.memb.clear } hch₂.clear c)

theorem touchUserInt_fitted (h : Fitted κ q b) (p : Ptr) (ident : Str) :
    Ensures (touchUserInt b p ident) (Fitted κ q) := by
  refine Ensures.value fun u => ?_
  dsimp only [Base.strdup, Base.malloc]
  split <;> dsimp only <;> split <;> exact Ensures.ok ⟨h.chans, h.users, h.memb⟩

theorem touchUser_fitted (h : Fitted κ q b) (ident : Str) :
    Ensures (touchUser b ident) (Fitted κ q) := by
  rw [touchUser]
  split
  · exact Ensures.ok h
  · exact touchUserInt_fitted h _ ident

theorem addUser_fitted (h : Fitted κ q b) (ident : Str) :
    Ensures (addUser b ident) fun r => Fitted κ q r.2 := by
  simp only [addUser, Base.malloc]
  split
  · next heq =>
    obtain ⟨_, rfl⟩ := Prod.mk.inj heq
    exact Ensures.ok (h.al _)
  · next heq =>
    obtain ⟨_, rfl⟩ := Prod.mk.inj heq
    split
    · next heq =>
      obtain ⟨_, rfl⟩ := Prod.mk.inj heq
      exact Ensures.ok ((h.al _).al _)
    · next heq =>
      obtain ⟨_, rfl⟩ := Prod.mk.inj heq
      have hput := fun p al => cm_after_put h.users (ident2nick MAX_NICK_LEN ident) p al
      split
      · next users al hp =>
        have hm := hput b.userHeap.next (BucketList.malloc (BucketList.malloc b.al).2).2
        rw [show b.users.put _ _ _ = _ from hp] at hm
        exact Ensures.ok ⟨h.chans, hm, h.memb⟩
      · next users al hp =>
        have hm := hput b.userHeap.next (BucketList.malloc (BucketList.malloc b.al).2).2
        rw [show b.users.put _ _ _ = _ from hp] at hm
        exact (touchUserInt_fitted (b := { b with users, al, userHeap := b.userHeap.new _ })
          ⟨h.chans, hm, h.memb⟩ _ ident).bind fun _ h₁ => Ensures.ok h₁

theorem dropMembs_fitted (p : Ptr) (cs : List Ptr) {b : Base} (h : Fitted κ q b) :
    Ensures (dropMembs p cs b) (Fitted κ q) := by
  induction cs generalizing b with
  | nil => exact Ensures.ok h
  | cons c cs ih => exact (dropMemb_fitted h c p false).bind fun _ => ih

theorem dropUser_fitted (h : Fitted κ q b) (p : Ptr) :
    Ensures (dropUser b p) fun r => Fitted κ q r.2 := by
  refine Ensures.value fun u => ?_
  have hdel := cm_after_drop h.users u.nick
  split
  · exact Ensures.ok h
  · next users heq =>
    rw [Dict.drop, heq] at hdel
    have h₁ : Fitted κ q { b with users, chans := b.chans.visit.2 } :=
      ⟨cm_after_visit h.chans, hdel, h.memb⟩
    exact (dropMembs_fitted p _ h₁).bind fun _ h₂ => (freeUser_fitted h₂ p).bind fun _ h₃ =>
      Ensures.ok h₃

theorem renameMembs_fitted (ident newnick : Str) (cs : List Ptr) {b : Base} (h : Fitted κ q b) :
    Ensures (renameMembs ident newnick cs b) fun r => Fitted κ q r.2.2 := by
  induction cs generalizing b with
  | nil => exact Ensures.ok h
  | cons c cs ih =>
    refine (chan_fitted h c).bind fun ch hch => ?_
    split
    · exact ih h
    · next m hget =>
      have hput := hch.put (hch.get hget) newnick b.al
      split
      · next memb al hp =>
        rw [hp] at hput
        exact Ensures.ok (@Fitted.setChan _ _ _ (h.al al) { ch with memb } hput c)
      · next memb al hp =>
        rw [hp] at hput
        exact ih (@Fitted.setChan _ _ _ (h.al al) { ch with memb := (memb.del ident).2 }
          (hput.drop ident) c)

theorem renameUser_fitted (h : Fitted κ q b) (cm' : CMap) (ident newnick : Str) :
    Ensures (renameUser b cm' ident newnick) fun r => Fitted κ q r.2.2 := by
  simp only [renameUser, Base.malloc]
  split
  · exact Ensures.ok h
  · next p _ =>
    refine Ensures.value fun u =>
      Ensures.ite (fun _ => Ensures.ok ⟨h.chans, h.users, h.memb⟩) fun _ => ?_
    split
    · next heq =>
      obtain ⟨_, rfl⟩ := Prod.mk.inj heq
      exact Ensures.ok (h.al _)
    · next heq =>
      obtain ⟨_, rfl⟩ := Prod.mk.inj heq
      have hput := cm_after_put h.users newnick p (BucketList.malloc b.al).2
      split
      · next users al hp =>
        rw [show b.users.put newnick p (BucketList.malloc b.al).2 =
          (false, users, al) from hp] at hput
        exact Ensures.ok ⟨h.chans, hput, h.memb⟩
      · next users al hp =>
        rw [show b.users.put newnick p (BucketList.malloc b.al).2 =
          (true, users, al) from hp] at hput
        refine renameMembs_fitted ident newnick _ ⟨cm_after_visit h.chans, ?_, h.memb⟩
        exact cm_after_drop hput ident

end Srsirc.MapAgreement
