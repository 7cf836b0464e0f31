import Srsirc.Members

namespace Srsirc.UserLifetime

open CharMap Dictionary Fallible HeapCells Members Message RefCount UserBase

variable {cm : CMap} {tight : Ptr → Prop} {b : Base} {R : Ptr → Nat} {F : Str → Ptr → Prop}

theorem user_eq {p : Ptr} {u : User} (hu : b.userHeap.get p = some u) : b.user p = .ok u := by
  rw [Base.user, hu]

theorem chan_eq {c : Ptr} {ch : Chan} (hc : b.chanHeap.get c = some ch) : b.chan c = .ok ch := by
  rw [Base.chan, hc]

theorem freeUser_eq {p : Ptr} {u : User} (hu : b.userHeap.get p = some u) :
    b.freeUser p =
      .ok { b with userHeap := b.userHeap.free p, freed := freeTag u.tag u.freetag b.freed } := by
  rw [Base.freeUser, hu]

theorem freeChan_eq {c : Ptr} {ch : Chan} (hc : b.chanHeap.get c = some ch) :
    b.freeChan c =
      .ok { b with chanHeap := b.chanHeap.free c, freed := freeTag ch.tag ch.freetag b.freed } := by
  rw [Base.freeChan, hc]

theorem noFail_eq (h : b.al = []) : ({ b with al := [] } : Base) = b := by rw [← h]

theorem decr_eq {n : Nat} (h : 0 < n) : decr n = n - 1 := if_neg (by omega)

theorem nickAt_setUser {p : Ptr} {u u' : User} (hu : b.userHeap.get p = some u)
    (hn : u'.nick = u.nick) : nickAt (b.setUser p u') = nickAt b := by
  funext q
  simp only [nickAt, Base.setUser, get_set hu, Function.update_apply]
  split
  · next hq => rw [hq, hu, Option.map_some, Option.map_some, hn]
  · rfl

theorem frame_setUser {p : Ptr} {u u' : User} (hu : b.userHeap.get p = some u)
    (hn : u'.nick = u.nick) : Frame b (b.setUser p u') :=
  ⟨rfl, rfl, rfl, fun q n h => by rwa [nickAt_setUser hu hn] at h⟩

theorem frame_freeUser (b : Base) (p : Ptr) (freed : List (Option Ptr)) :
    Frame b { b with userHeap := b.userHeap.free p, freed } := by
  refine ⟨rfl, rfl, rfl, ?_⟩
  intro q n hq
  simp only [nickAt, get_free, Function.update_apply] at hq
  split at hq
  · cases hq
  · exact hq

theorem purge_ok (h : Counted cm tight b R F) {p : Ptr} {u : User} (hu : b.userHeap.get p = some u)
    (hp : R p = 0) {tight' : Ptr → Prop} (ht : ∀ q v, tight' q → b.userHeap.get q = some v → q ≠ p →
      tight q ∧ norm cm v.nick ≠ norm cm u.nick) :
    Returns (Base.freeUser { b with users := (b.users.del u.nick).2 } p) fun b' =>
      Frame b b' ∧ b'.users.lookup = Function.update b.users.lookup (norm cm u.nick) none ∧
        Counted cm tight' b' R F := by
  rw [freeUser_eq (b := { b with users := (b.users.del u.nick).2 }) hu]
  have hl : (b.users.del u.nick).2.lookup =
      Function.update b.users.lookup (norm cm u.nick) none := by
    rw [← h.usersCm]
    exact lookup_drop _ _
  have hr := h.roster.discard hu hp ht
  rw [← get_free, ← hl] at hr
  have hf :=
    frame_freeUser { b with users := (b.users.del u.nick).2 } p (freeTag u.tag u.freetag b.freed)
  exact Returns.ok ⟨⟨hf.chans, hf.chanHeap, hf.endofnames, hf.nick⟩, hl, h.al,
    (cm_drop _ _).trans h.usersCm, hr⟩

/-- A membership ends, and takes the user along if it was the last one. The users that
are still found stay tight. -/
theorem unref_purge (h : Counted cm tight b R F) {p : Ptr} (hp : 0 < R p) :
    Returns (unref b p true) fun b' => Frame b b' ∧ Fewer b b' ∧
      Counted cm (fun q => tight q ∧ Listed b' q) b' (less R p) F := by
  obtain ⟨u, hu⟩ := h.roster.live p hp
  have hle := h.roster.counted p u hu
  rw [unref, user_eq hu, ok_bind]
  generalize hu' : ({ u with nchans := decr u.nchans } : User) = u'
  have hn : u'.nick = u.nick := by rw [← hu']
  have hc : u'.nchans = u.nchans - 1 := by
    rw [← hu']
    exact decr_eq (by omega)
  have hset := frame_setUser hu hn
  have hr := h.roster.decrement hu (congrArg (norm cm) hn) hc hp
  rw [← get_set hu] at hr
  have hdec :
      Counted cm (fun q => tight q ∧ (q = p → 1 < u.nchans)) (b.setUser p u') (less R p) F :=
    ⟨h.al, h.usersCm, hr⟩
  have hget : (b.setUser p u').userHeap.get p = some u' := by
    rw [Base.setUser, get_set hu, Function.update_self]
  by_cases hz : decr u.nchans = 0 ∧ true
  · rw [if_pos hz, ← hn]
    have hone : u.nchans - 1 = 0 := by
      rw [← decr_eq (by omega)]
      exact hz.1
    have hless : less R p p = 0 := by
      rw [less, if_pos rfl]
      omega
    have hlook : (b.setUser p u').users.lookup = b.users.lookup := rfl
    refine (@purge_ok _ _ _ _ _ hdec _ _ hget hless (fun q => tight q ∧
      ∃ κ, Function.update b.users.lookup
      (norm cm u'.nick) none κ = some q) ?_).mono ?_
    · rintro q v ⟨hq, κ, hκ⟩ hv hqp
      refine ⟨⟨hq, fun he => absurd he hqp⟩, ?_⟩
      rw [Base.setUser, get_set hu, Function.update_of_ne hqp] at hv
      obtain ⟨hne, hκ⟩ := update_none hκ
      rwa [← h.roster.self hκ hv]
    · rintro b' ⟨hf, hl, hc'⟩
      rw [hlook] at hl
      refine ⟨hset.trans hf, ?_, ?_⟩
      · intro κ q hq
        rw [hl] at hq
        exact (update_none hq).2
      · rw [← hl] at hc'
        exact hc'
  · rw [if_neg hz]
    refine Returns.ok ⟨hset, Fewer.of_eq rfl, hdec.loosen ?_⟩
    refine fun q hq => ⟨hq.1, fun _ => ?_⟩
    rw [decr_eq (by omega)] at hz
    simp only [and_true] at hz
    omega

theorem unref_keep (h : Counted cm tight b R F) {p : Ptr} (ht : ¬tight p) (hp : 0 < R p) :
    Returns (unref b p false) fun b' =>
      Frame b b' ∧ nickAt b' = nickAt b ∧ b'.users = b.users ∧
        Counted cm tight b' (less R p) F := by
  obtain ⟨u, hu⟩ := h.roster.live p hp
  have hle := h.roster.counted p u hu
  have hc : decr u.nchans = u.nchans - 1 := decr_eq (by omega)
  have hr := @Roster.decrement _ _ _ _ _ _ _ _ _ _ _ h.roster _ _ { u with nchans := decr u.nchans }
    hu rfl hc hp
  rw [← get_set hu] at hr
  rw [unref, user_eq hu, ok_bind]
  simp only [Bool.false_eq_true, and_false, if_false]
  refine Returns.ok ⟨frame_setUser hu rfl, nickAt_setUser hu rfl, rfl, h.al, h.usersCm,
    hr.weaken ?_ fun _ _ hf => hf⟩
  rintro q hq
  refine ⟨hq, ?_⟩
  rintro rfl
  exact absurd hq ht

theorem unrefAll_ok (ms : List Memb) {tight : Ptr → Prop} {b : Base}
    (h : Counted cm tight b (fun q => R q + countIn ms q) F) :
    Returns (unrefAll ms b) fun b' => Frame b b' ∧ Fewer b b' ∧
      Counted cm (fun q => tight q ∧ Listed b' q) b' R F := by
  induction ms generalizing b tight with
  | nil => exact Returns.ok ⟨Frame.refl b, Fewer.of_eq rfl, h.loosen fun _ hq => hq.1⟩
  | cons m ms ih =>
    have hpos : 0 < R m.u + countIn (m :: ms) m.u := by
      rw [countIn_cons, if_pos rfl]
      omega
    refine (unref_purge h hpos).bind ?_
    rintro b' ⟨hf, hfew, hc⟩
    have hless : less (fun q => R q + countIn (m :: ms) q) m.u = fun q => R q + countIn ms q := by
      ext q
      rw [less, countIn_cons, countIn_cons]
      split
      · next hq =>
        rw [if_pos rfl, hq]
        omega
      · rfl
    rw [hless] at hc
    refine (ih hc).mono ?_
    rintro b'' ⟨hf', hfew', hc'⟩
    refine ⟨hf.trans hf', hfew.trans hfew', hc'.loosen ?_⟩
    exact fun q hq => ⟨⟨hq.1, hfew'.listed hq.2⟩, hq.2⟩

/-- A user is seen again, and what is not known yet is filled in. -/
theorem touchUserInt_ok (h : Counted cm tight b R F) {p : Ptr} {u : User}
    (hu : b.userHeap.get p = some u) (ident : Str) :
    Returns (touchUserInt b p ident) fun b' => Frame b b' ∧ nickAt b' = nickAt b ∧
      b'.users = b.users ∧ Counted cm tight b' R F ∧
      ∃ u', b'.userHeap = b.userHeap.set p u' ∧ u'.nick = u.nick ∧ u'.nchans = u.nchans := by
  have hout : ∀ u' : User, u'.nick = u.nick → u'.nchans = u.nchans →
      Returns (.ok (b.setUser p u') : Except Fault Base) fun b' => Frame b b' ∧
        nickAt b' = nickAt b ∧
        b'.users = b.users ∧ Counted cm tight b' R F ∧
        ∃ u', b'.userHeap = b.userHeap.set p u' ∧ u'.nick = u.nick ∧ u'.nchans = u.nchans := by
    intro u' hn hc
    have hr := h.roster.touch hu (congrArg (norm cm) hn) hc
    rw [← get_set hu] at hr
    exact Returns.ok ⟨frame_setUser hu hn, nickAt_setUser hu hn, rfl, ⟨h.al, h.usersCm, hr⟩,
      u', rfl, hn, hc⟩
  simp only [touchUserInt, user_eq hu, ok_bind, strdup_eq h.al]
  split <;> simp only [strdup_eq h.al] <;> split <;> exact hout _ rfl rfl

theorem touchUser_ok (h : Counted cm tight b R F) (ident : Str) :
    Returns (touchUser b ident) fun b' => Frame b b' ∧ nickAt b' = nickAt b ∧
      b'.users = b.users ∧ Counted cm tight b' R F := by
  rw [touchUser, getUser, get_eq]
  cases hl : b.users.lookup (norm b.users.cm ident) with
  | none => exact Returns.ok ⟨Frame.refl b, rfl, rfl, h⟩
  | some p =>
    obtain ⟨u, hu, _⟩ := h.roster.found _ p hl
    exact (touchUserInt_ok h hu ident).mono fun b' ⟨hf, hn, hs, hc, _⟩ => ⟨hf, hn, hs, hc⟩

theorem addUser_ok (h : Counted cm tight b R F) (ident : Str) (hF : ∀ κ, ¬F κ b.userHeap.next)
    (ht : ∀ q, tight q → q ≠ b.userHeap.next ∧
      b.users.lookup (norm cm (ident2nick MAX_NICK_LEN ident)) ≠ some q) :
    Returns (addUser b ident) fun r => r.1 = some b.userHeap.next ∧ Counted cm tight r.2 R F ∧
      r.2.chans = b.chans ∧ r.2.chanHeap = b.chanHeap ∧ r.2.endofnames = b.endofnames ∧
      nickAt r.2 =
        Function.update (nickAt b) b.userHeap.next (some (ident2nick MAX_NICK_LEN ident)) ∧
      r.2.users.lookup = Function.update b.users.lookup (norm cm (ident2nick MAX_NICK_LEN ident))
        (some b.userHeap.next) ∧
      ∃ u, r.2.userHeap.get b.userHeap.next = some u ∧ u.nick = ident2nick MAX_NICK_LEN ident ∧
        u.nchans = 0 := by
  let u : User := ⟨ident2nick MAX_NICK_LEN ident, none, none, none, 0, none, false⟩
  have hr := h.roster.enroll (u := u) (get_next _) hF ht
  rw [← get_new] at hr
  have hl : (b.users.store (ident2nick MAX_NICK_LEN ident) b.userHeap.next).lookup =
      Function.update b.users.lookup (norm cm (ident2nick MAX_NICK_LEN ident))
        (some b.userHeap.next) := by rw [lookup_store, h.usersCm]
  rw [← hl] at hr
  have hu : (b.userHeap.new u).get b.userHeap.next = some u := by
    rw [get_new, Function.update_self]
  let b₁ : Base := { b with
    users := b.users.store (ident2nick MAX_NICK_LEN ident) b.userHeap.next, al := []
    userHeap := b.userHeap.new u }
  have hc : Counted cm tight b₁ R F := ⟨rfl, (cm_store _ _ _).trans h.usersCm, hr⟩
  simp only [addUser, malloc_eq h.al, h.al, put_nil]
  refine (touchUserInt_ok hc hu ident).bind ?_
  rintro b' ⟨hf, hn, hs, hc', u', hheap, hnick, hcount⟩
  refine Returns.ok ⟨rfl, hc', hf.chans, hf.chanHeap, hf.endofnames, ?_, by rw [hs, hl], u', ?_,
    hnick, hcount⟩
  · rw [hn]
    funext q
    simp only [nickAt, b₁, get_new, Function.update_apply]
    split <;> rfl
  · rw [hheap, get_set hu, Function.update_self]

end Srsirc.UserLifetime
