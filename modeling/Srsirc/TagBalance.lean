import Srsirc.CellCount
import Srsirc.TrackRule

namespace Srsirc.TagBalance

open CharMap CellCount Dictionary Fallible HeapCells Message ServerInfo UserBase ChannelModes
open TrackRule
open BucketList (Alloc)

def userHolds (t : Option Ptr) (u : User) : Bool := u.freetag && u.tag == t

def chanHolds (t : Option Ptr) (ch : Chan) : Bool := ch.freetag && ch.tag == t

/-- The number of records that a tag is to be freed with. -/
def held (b : Base) (t : Option Ptr) : Nat :=
  countCells b.userHeap (userHolds t) + countCells b.chanHeap (chanHolds t)

/-- The tags that are to be freed with a record are held or freed afterwards as before,
and what was freed stays so. -/
structure Settled (b b' : Base) : Prop where
  due : ∀ t, b'.freed.count t + held b' t = b.freed.count t + held b t
  freed : b.freed <+: b'.freed

theorem Settled.refl (b : Base) : Settled b b := ⟨fun _ => rfl, List.prefix_rfl⟩

theorem Settled.trans {a b c : Base} (h : Settled a b) (h' : Settled b c) : Settled a c :=
  ⟨fun t => (h'.due t).trans (h.due t), h.freed.trans h'.freed⟩

theorem Settled.held_le {b b' : Base} (h : Settled b b') (t : Option Ptr) :
    held b' t ≤ held b t := by
  have hdue := h.due t
  have hcount := h.freed.sublist.count_le t
  omega

theorem Settled.none {b b' : Base} (h : Settled b b') (hb : ∀ t, held b t = 0) (t : Option Ptr) :
    held b' t = 0 :=
  Nat.le_zero.1 ((h.held_le t).trans (hb t).le)

theorem settled_of_eq {b b' : Base} (huser : b'.userHeap = b.userHeap)
    (hchan : b'.chanHeap = b.chanHeap)
    (hfreed : b'.freed = b.freed) : Settled b b' := by
  refine ⟨fun t => ?_, by rw [hfreed]⟩
  rw [held, held, huser, hchan, hfreed]

variable {b : Base}

theorem settled_al (b : Base) (al : Alloc) : Settled b { b with al } := settled_of_eq rfl rfl rfl

theorem settled_realloc {b b' : Base} (h : Realloc b b') : Settled b b' := by
  obtain ⟨al, rfl⟩ := h
  exact settled_al b al

theorem get_of_user {p : Ptr} {u : User} (hu : b.user p = .ok u) : b.userHeap.get p = some u := by
  rw [Base.user] at hu
  split at hu
  · cases hu
  · next hget => rw [hget, Except.ok.inj hu]

theorem get_of_chan {c : Ptr} {ch : Chan} (hch : b.chan c = .ok ch) :
    b.chanHeap.get c = some ch := by
  rw [Base.chan] at hch
  split at hch
  · cases hch
  · next hget => rw [hget, Except.ok.inj hch]

theorem settled_setUser {p : Ptr} {u : User} (hu : b.user p = .ok u) (u' : User)
    (htag : u'.tag = u.tag)
    (hfree : u'.freetag = u.freetag) : Settled b (b.setUser p u') := by
  refine ⟨fun t => ?_, List.prefix_rfl⟩
  have hset := count_set (get_of_user hu) u' (userHolds t)
  have hsame : userHolds t u' = userHolds t u := by rw [userHolds, userHolds, htag, hfree]
  rw [hsame] at hset
  have hcount :
      countCells (b.setUser p u').userHeap (userHolds t) = countCells b.userHeap (userHolds t) :=
    Nat.add_right_cancel hset
  rw [held, hcount]
  rfl

theorem settled_setChan {c : Ptr} {ch : Chan} (hch : b.chan c = .ok ch) (ch' : Chan)
    (htag : ch'.tag = ch.tag)
    (hfree : ch'.freetag = ch.freetag) : Settled b (b.setChan c ch') := by
  refine ⟨fun t => ?_, List.prefix_rfl⟩
  have hset := count_set (get_of_chan hch) ch' (chanHolds t)
  have hsame : chanHolds t ch' = chanHolds t ch := by rw [chanHolds, chanHolds, htag, hfree]
  rw [hsame] at hset
  have hcount :
      countCells (b.setChan c ch').chanHeap (chanHolds t) = countCells b.chanHeap (chanHolds t) :=
    Nat.add_right_cancel hset
  rw [held, hcount]
  rfl

theorem settled_newUser {u : User} (hu : u.freetag = false) :
    Settled b { b with userHeap := b.userHeap.new u } := by
  refine ⟨fun t => ?_, List.prefix_rfl⟩
  rw [held, held, count_new, userHolds, hu]
  rfl

theorem settled_newChan {ch : Chan} (hch : ch.freetag = false) :
    Settled b { b with chanHeap := b.chanHeap.new ch } := by
  refine ⟨fun t => ?_, List.prefix_rfl⟩
  rw [held, held, count_new, chanHolds, hch]
  rfl

theorem count_freeTag (tag : Option Ptr) (freetag : Bool) (freed : List (Option Ptr))
    (t : Option Ptr) :
    (freeTag tag freetag freed).count t = freed.count t + if freetag && tag == t then 1 else 0 := by
  cases freetag with
  | false => rfl
  | true => rw [freeTag, if_pos rfl, List.count_append, List.count_singleton, Bool.true_and]

theorem prefix_freeTag (tag : Option Ptr) (freetag : Bool) (freed : List (Option Ptr)) :
    freed <+: freeTag tag freetag freed := by
  rw [freeTag]
  split
  · exact List.prefix_append _ _
  · exact List.prefix_rfl

theorem freeUser_settled (b : Base) (p : Ptr) : Ensures (b.freeUser p) (Settled b) := by
  rw [Base.freeUser]
  cases hu : b.userHeap.get p with
  | none => exact Ensures.error
  | some u =>
    refine Ensures.ok ⟨fun t => ?_, prefix_freeTag _ _ _⟩
    have hfree := count_free hu (userHolds t)
    rw [held, held, count_freeTag, ← hfree, userHolds]
    dsimp only
    omega

theorem freeChan_settled (b : Base) (c : Ptr) : Ensures (b.freeChan c) (Settled b) := by
  rw [Base.freeChan]
  cases hch : b.chanHeap.get c with
  | none => exact Ensures.error
  | some ch =>
    refine Ensures.ok ⟨fun t => ?_, prefix_freeTag _ _ _⟩
    have hfree := count_free hch (chanHolds t)
    rw [held, held, count_freeTag, ← hfree, chanHolds]
    dsimp only
    omega

theorem unref_settled (b : Base) (p : Ptr) (purge : Bool) :
    Ensures (unref b p purge) (Settled b) := by
  refine Ensures.bind_of fun u hu => ?_
  have hset := settled_setUser hu { u with nchans := decr u.nchans } rfl rfl
  refine Ensures.ite (fun _ => ?_) fun _ => Ensures.ok hset
  exact (freeUser_settled _ p).mono fun _ h =>
    hset.trans (Settled.trans (settled_of_eq (by rfl) (by rfl) (by rfl)) h)

theorem unrefAll_settled (ms : List Memb) (b : Base) : Ensures (unrefAll ms b) (Settled b) := by
  induction ms generalizing b with
  | nil => exact Ensures.ok (.refl b)
  | cons m ms ih => exact (unref_settled b m.u true).bind fun b₁ h₁ => (ih b₁).mono fun _ h₂ => h₁.trans h₂

theorem malloc_settled (b : Base) : Settled b b.malloc.2 := settled_al b _

theorem allocChan_settled (b : Base) : Settled b (allocChan b).2 := by
  have hif : ∀ {ok : Bool} {x y : Bool × Base}, Settled b x.2 → Settled b y.2 →
      Settled b (if !ok then x else y).2 := by
    intro ok x y hx hy
    cases ok with
    | false => exact hx
    | true => exact hy
  have h₁ := malloc_settled b
  have h₂ := h₁.trans (malloc_settled _)
  have h₃ := h₂.trans (malloc_settled _)
  exact hif h₁ (hif h₂ (hif h₃ (h₃.trans (malloc_settled _))))

theorem addChan_settled (b : Base) (cm : CMap) (name : Str) : Settled b (addChan b cm name).2 := by
  have halloc := allocChan_settled b
  rw [addChan]
  split
  · next heq => rwa [heq] at halloc
  · next b₁ heq =>
    rw [heq] at halloc
    dsimp only
    split
    · exact halloc.trans (settled_of_eq rfl rfl rfl)
    · next chans al _ =>
      have hput : Settled b₁ { b₁ with chans, al } := settled_of_eq rfl rfl rfl
      exact halloc.trans (hput.trans (settled_newChan rfl))

theorem dropChan_settled (b : Base) (c : Ptr) : Ensures (dropChan b c) fun r => Settled b r.2 := by
  refine Ensures.value fun ch => ?_
  split
  · exact Ensures.ok (.refl b)
  · next chans _ =>
    have hdel : Settled b { b with chans } := settled_of_eq rfl rfl rfl
    refine (unrefAll_settled _ _).bind fun b₁ h₁ => (freeChan_settled b₁ c).bind fun b₂ h₂ =>
      Ensures.ok ?_
    exact hdel.trans (h₁.trans h₂)

theorem addMemb_settled (b : Base) (c p : Ptr) (mpfx : Str) :
    Ensures (addMemb b c p mpfx) fun r => Settled b r.2 := by
  rw [addMemb, Base.malloc]
  split
  · next heq =>
    obtain ⟨_, rfl⟩ := Prod.mk.inj heq
    exact Ensures.ok (settled_al b _)
  · next heq =>
    obtain ⟨_, rfl⟩ := Prod.mk.inj heq
    refine Ensures.bind_of fun u hu => Ensures.bind_of fun ch hch => ?_
    split
    · next memb al _ =>
      exact Ensures.ok ((settled_al b al).trans
        (settled_setChan (b := { b with al }) hch { ch with memb } rfl rfl))
    · next memb al _ =>
      have hset :=
        (settled_al b al).trans (settled_setChan (b := { b with al }) hch { ch with memb } rfl rfl)
      exact Ensures.ok
        (hset.trans (settled_setUser (b := Base.setChan { b with al } c { ch with memb }) hu
        { u with nchans := u.nchans + 1 } rfl rfl))

theorem dropMemb_settled (b : Base) (c p : Ptr) (purge : Bool) :
    Ensures (dropMemb b c p purge) fun r => Settled b r.2 := by
  refine Ensures.value fun u => Ensures.bind_of fun ch hch => ?_
  split
  · exact Ensures.ok (.refl b)
  · next m memb _ =>
    have hset := settled_setChan hch { ch with memb } rfl rfl
    exact (unref_settled _ m.u purge).bind fun b₁ h₁ => Ensures.ok (hset.trans h₁)

theorem clearMemb_settled (b : Base) (c : Ptr) : Ensures (clearMemb b c) (Settled b) := by
  refine Ensures.bind_of fun ch hch => ?_
  have h₁ := settled_setChan hch { ch with memb := ch.memb.visit.2 } rfl rfl
  refine Ensures.ite (fun _ => Ensures.ok h₁) fun _ => ?_
  refine (unrefAll_settled _ _).bind fun b₂ h₂ => Ensures.bind_of fun ch₂ hch₂ => Ensures.ok ?_
  exact h₁.trans (h₂.trans (settled_setChan hch₂ { ch₂ with memb := ch₂.memb.clear } rfl rfl))

theorem touchUserInt_settled (b : Base) (p : Ptr) (ident : Str) :
    Ensures (touchUserInt b p ident) (Settled b) := by
  refine Ensures.bind_of fun u hu => ?_
  have hset : ∀ (u' : User) al, u'.tag = u.tag → u'.freetag = u.freetag →
      Ensures (.ok (Base.setUser { b with al } p u') : Except Fault Base) (Settled b) :=
    fun u' al htag hfree => Ensures.ok ((settled_setUser hu u' htag hfree).trans (settled_al _ al))
  dsimp only [Base.strdup, Base.malloc]
  split <;> dsimp only <;> split <;> exact hset _ _ rfl rfl

theorem touchUser_settled (b : Base) (ident : Str) : Ensures (touchUser b ident) (Settled b) := by
  rw [touchUser]
  split
  · exact Ensures.ok (.refl b)
  · exact touchUserInt_settled b _ ident

theorem addUser_settled (b : Base) (ident : Str) :
    Ensures (addUser b ident) fun r => Settled b r.2 := by
  simp only [addUser, Base.malloc]
  split
  · next heq =>
    obtain ⟨_, rfl⟩ := Prod.mk.inj heq
    exact Ensures.ok (settled_al b _)
  · next heq =>
    obtain ⟨_, rfl⟩ := Prod.mk.inj heq
    split
    · next heq =>
      obtain ⟨_, rfl⟩ := Prod.mk.inj heq
      exact Ensures.ok (settled_al b _)
    · next heq =>
      obtain ⟨_, rfl⟩ := Prod.mk.inj heq
      split
      · exact Ensures.ok (settled_of_eq rfl rfl rfl)
      · next users al _ =>
        have hput : Settled b { b with users, al } := settled_of_eq rfl rfl rfl
        have hnew := hput.trans (settled_newUser
          (u := ⟨ident2nick MAX_NICK_LEN ident, none, none, none, 0, none, false⟩) rfl)
        exact (touchUserInt_settled _ _ ident).bind fun _ h₁ => Ensures.ok (hnew.trans h₁)

theorem dropMembs_settled (p : Ptr) (cs : List Ptr) (b : Base) :
    Ensures (dropMembs p cs b) (Settled b) := by
  induction cs generalizing b with
  | nil => exact Ensures.ok (.refl b)
  | cons c cs ih => exact (dropMemb_settled b c p false).bind fun r h₁ => (ih r.2).mono fun _ h₂ => h₁.trans h₂

theorem dropUser_settled (b : Base) (p : Ptr) : Ensures (dropUser b p) fun r => Settled b r.2 := by
  refine Ensures.value fun u => ?_
  split
  · exact Ensures.ok (.refl b)
  · next users _ =>
    have hdel : Settled b { b with users, chans := b.chans.visit.2 } := settled_of_eq rfl rfl rfl
    refine (dropMembs_settled p _ _).bind fun b₁ h₁ => (freeUser_settled b₁ p).bind fun b₂ h₂ =>
      Ensures.ok ?_
    exact hdel.trans (h₁.trans h₂)

theorem renameMembs_settled (ident newnick : Str) (cs : List Ptr) (b : Base) :
    Ensures (renameMembs ident newnick cs b) fun r => Settled b r.2.2 := by
  induction cs generalizing b with
  | nil => exact Ensures.ok (.refl b)
  | cons c cs ih =>
    refine Ensures.bind_of fun ch hch => ?_
    have hset : ∀ memb al, Settled b (Base.setChan { b with al } c { ch with memb }) :=
      fun memb al =>
        (settled_al b al).trans (settled_setChan (b := { b with al }) hch { ch with memb } rfl rfl)
    split
    · exact ih b
    · split
      · exact Ensures.ok (hset _ _)
      · exact (ih _).mono fun _ h => (hset _ _).trans h

theorem renameUser_settled (b : Base) (cm : CMap) (ident newnick : Str) :
    Ensures (renameUser b cm ident newnick) fun r => Settled b r.2.2 := by
  simp only [renameUser, Base.malloc]
  split
  · exact Ensures.ok (.refl b)
  · next p _ =>
    refine Ensures.bind_of fun u hu =>
      Ensures.ite (fun _ => Ensures.ok (settled_setUser hu _ rfl rfl)) fun _ => ?_
    split
    · next heq =>
      obtain ⟨_, rfl⟩ := Prod.mk.inj heq
      exact Ensures.ok (settled_al b _)
    · next heq =>
      obtain ⟨_, rfl⟩ := Prod.mk.inj heq
      have hset : Settled b (b.setUser p { u with nick := newnick }) := settled_setUser hu _ rfl rfl
      split
      · exact Ensures.ok (hset.trans (settled_of_eq rfl rfl rfl))
      · refine (renameMembs_settled ident newnick _ _).mono fun _ h => hset.trans ?_
        exact Settled.trans (settled_of_eq (by rfl) (by rfl) (by rfl)) h

theorem updateModepfx_settled (info : Info) (b : Base) (c : Ptr) (nick : Str) (sym : UInt8)
    (enab : Bool) :
    Ensures (updateModepfx info b c nick sym enab) (Settled b) := by
  refine Ensures.bind_of fun ch hch => ?_
  split
  · exact Ensures.ok (.refl b)
  · split
    · exact Ensures.ok (.refl b)
    · next m _ _ modepfx _ =>
      exact Ensures.ok
        (settled_setChan hch { ch with memb := ch.memb.store nick { m with modepfx } } rfl rfl)

theorem settled_preserves (b₀ : Base) (info : Info) : Preserves info (Settled b₀) where
  al al h := h.trans (settled_al _ al)
  endofnames _ h := h.trans (settled_of_eq rfl rfl rfl)
  chan h hch _ htag hfree := h.trans (settled_setChan hch _ htag hfree)
  user h hu _ _ htag hfree := h.trans (settled_setUser hu _ htag hfree)
  addChan name h := h.trans (addChan_settled _ _ name)
  dropChan c h := (dropChan_settled _ c).mono fun _ h' => h.trans h'
  addMemb c p _ _ h := (addMemb_settled _ c p _).mono fun _ h' => h.trans h'
  dropMemb c p purge h := (dropMemb_settled _ c p purge).mono fun _ h' => h.trans h'
  clearMemb c h := (clearMemb_settled _ c).mono fun _ h' => h.trans h'
  touchUser ident h := (touchUser_settled _ ident).mono fun _ h' => h.trans h'
  addUser ident h := (addUser_settled _ ident).mono fun _ h' => h.trans h'
  dropUser p h := (dropUser_settled _ p).mono fun _ h' => h.trans h'
  renameUser ident newnick h := (renameUser_settled _ _ ident newnick).mono fun _ h' => h.trans h'
  updateModepfx c nick enab _ h :=
    (updateModepfx_settled _ _ c nick _ enab).mono fun _ h' => h.trans h'

end Srsirc.TagBalance
