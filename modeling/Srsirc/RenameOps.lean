import Mathlib.Algebra.Order.BigOperators.Group.List
import Srsirc.MemberOps

namespace Srsirc.RenameOps

open CharMap Dictionary Fallible HeapCells Members MemberOps Message RefCount UserBase UserLifetime

variable {cm : CMap} {tight : Ptr → Prop} {b : Base}

/-- The members of a channel, where the one under `κ` has moved to `κ'`. -/
def moved (f : Str → Option Memb) (κ κ' : Str) : Str → Option Memb :=
  match f κ with
  | none => f
  | some m => Function.update (Function.update f κ' (some m)) κ none

theorem moved_some {f : Str → Option Memb} {κ κ' κ'' : Str} {m : Memb}
    (h : moved f κ κ' κ'' = some m) :
    (κ'' = κ' ∧ f κ = some m) ∨ (κ'' ≠ κ ∧ f κ'' = some m) := by
  cases hκ : f κ with
  | none =>
    simp only [moved, hκ] at h
    refine Or.inr ⟨?_, h⟩
    rintro rfl
    rw [hκ] at h
    cases h
  | some w =>
    simp only [moved, hκ] at h
    obtain ⟨hne, h⟩ := update_none h
    obtain ⟨rfl, rfl⟩ | ⟨_, h⟩ := update_some h
    · exact Or.inl ⟨rfl, rfl⟩
    · exact Or.inr ⟨hne, h⟩

/-- What a renaming does to a channel. A member with the new nick would be forgotten. -/
structure MembMoved (κ κ' : Str) (ch ch' : Chan) : Prop where
  name : ch'.name = ch.name
  cm : ch'.memb.cm = ch.memb.cm
  lookup : ch'.memb.lookup = moved ch.memb.lookup κ κ'
  count : ∀ q, countIn ch'.memb.vals q ≤ countIn ch.memb.vals q
  exact : ∀ q, (∀ m, ch.memb.lookup κ' = some m → m.u ≠ q) →
    countIn ch'.memb.vals q = countIn ch.memb.vals q

theorem membMoved_none {κ κ' : Str} {ch : Chan} (h : ch.memb.lookup κ = none) :
    MembMoved κ κ' ch ch := by
  refine ⟨rfl, rfl, ?_, fun _ => Nat.le_refl _, fun _ _ => rfl⟩
  simp only [moved, h]

theorem membMoved_some {ident newnick : Str} {ch : Chan} {m : Memb}
    (h : ch.memb.lookup (norm ch.memb.cm ident) = some m) :
    MembMoved (norm ch.memb.cm ident) (norm ch.memb.cm newnick) ch
      { ch with memb := (ch.memb.store newnick m).drop ident } := by
  have hcm : ((ch.memb.store newnick m).drop ident).cm = ch.memb.cm := by rw [cm_drop, cm_store]
  have hold : (ch.memb.store newnick m).lookup (norm (ch.memb.store newnick m).cm ident) =
      some m := by
    rw [cm_store, lookup_store, Function.update_apply]
    split
    · rfl
    · exact h
  have hdrop := countIn_drop hold
  refine ⟨rfl, hcm, ?_, ?_, ?_⟩
  · dsimp only
    rw [lookup_drop, lookup_store, cm_store, moved, h]
  · intro q
    have hst := countIn_store_le ch.memb newnick m q
    rw [← hdrop] at hst
    dsimp only
    omega
  · intro q hq
    have hst := countIn_store_ne hq m
    rw [← hdrop] at hst
    dsimp only
    omega

structure Renamed (κ κ' : Str) (cs : List Ptr) (b b' : Base) : Prop where
  same : b' = { b with chanHeap := b'.chanHeap }
  other : ∀ c, c ∉ cs → b'.chanHeap.get c = b.chanHeap.get c
  moved : ∀ c ∈ cs, ∀ ch, b.chanHeap.get c = some ch → ∃ ch', b'.chanHeap.get c = some ch' ∧
    MembMoved κ κ' ch ch'

theorem renamed_cons {κ κ' : Str} {c : Ptr} {cs : List Ptr} {b b' : Base} {ch ch' : Chan}
    (hc : c ∉ cs) (hch : b.chanHeap.get c = some ch) (hm : MembMoved κ κ' ch ch')
    (h : Renamed κ κ' cs (b.setChan c ch') b') : Renamed κ κ' (c :: cs) b b' := by
  refine ⟨h.same, ?_, ?_⟩
  · intro d hd
    rw [List.mem_cons, not_or] at hd
    rw [h.other d hd.2, Base.setChan, get_set hch, Function.update_of_ne hd.1]
  · intro d hd ch₀ hch₀
    by_cases hdc : d = c
    · subst hdc
      obtain rfl := Option.some.inj (hch.symm.trans hch₀)
      exact ⟨ch', by rw [h.other d hc, Base.setChan, get_set hch, Function.update_self], hm⟩
    · have hd' := List.mem_of_ne_of_mem hdc hd
      apply h.moved d hd' ch₀
      rw [Base.setChan, get_set hch, Function.update_of_ne hdc, hch₀]

theorem renameMembs_ok (ident newnick : Str) (cs : List Ptr) {b : Base} (hal : b.al = [])
    (hn : cs.Nodup) (hl : ∀ c ∈ cs, ∃ ch, b.chanHeap.get c = some ch ∧ ch.memb.cm = cm) :
    Returns (renameMembs ident newnick cs b) fun r => r.1 = true ∧ r.2.1 = false ∧
      Renamed (norm cm ident) (norm cm newnick) cs b r.2.2 := by
  induction cs generalizing b with
  | nil => exact Returns.ok ⟨rfl, rfl, rfl, fun _ _ => rfl, fun _ hc => by cases hc⟩
  | cons c cs ih =>
    obtain ⟨ch, hch, rfl⟩ := hl c List.mem_cons_self
    obtain ⟨hc, hn⟩ := List.nodup_cons.1 hn
    have hstep : ∀ ch', MembMoved (norm ch.memb.cm ident) (norm ch.memb.cm newnick) ch ch' →
        Returns (renameMembs ident newnick cs (b.setChan c ch')) fun r => r.1 = true ∧
          r.2.1 = false ∧
          Renamed (norm ch.memb.cm ident) (norm ch.memb.cm newnick) (c :: cs) b r.2.2 := by
      intro ch' hm
      refine (ih (b := b.setChan c ch') hal hn ?_).mono fun r ⟨h₁, h₂, hr⟩ => ?_
      · intro d hd
        obtain ⟨chd, hchd, hcm⟩ := hl d (List.mem_cons_of_mem c hd)
        refine ⟨chd, ?_, hcm⟩
        rw [Base.setChan, get_set hch, Function.update_of_ne, hchd]
        rintro rfl
        exact hc hd
      · exact ⟨h₁, h₂, renamed_cons hc hch hm hr⟩
    simp only [renameMembs, chan_eq hch, ok_bind, get_eq]
    cases hg : ch.memb.lookup (norm ch.memb.cm ident) with
    | none =>
      have hsame : b.setChan c ch = b := by
        rw [Base.setChan, set_same hch]
      have := hstep ch (membMoved_none hg)
      rwa [hsame] at this
    | some m =>
      simp only [hal, put_nil, noFail_eq hal]
      exact hstep _ (membMoved_some hg)

theorem Renamed.change {κ κ' : Str} {b b' : Base} (h : Renamed κ κ' b.chans.vals b b')
    (hi : ∀ c ∈ b.chans.vals, ∃ ch, b.chanHeap.get c = some ch) :
    Change b (fun c => if c ∈ b.chans.vals then RenameOps.moved (membAt b c) κ κ'
      else membAt b c) b' := by
  refine ⟨by rw [h.same], ?_, ?_, by rw [h.same], ?_⟩
  · ext1 c
    by_cases hc : c ∈ b.chans.vals
    · obtain ⟨ch, hch⟩ := hi c hc
      obtain ⟨ch', hch', hm⟩ := h.moved c hc ch hch
      rw [nameAt, nameAt, hch, hch', Option.map_some, Option.map_some, hm.name]
    · rw [nameAt, nameAt, h.other c hc]
  · ext1 c
    by_cases hc : c ∈ b.chans.vals
    · obtain ⟨ch, hch⟩ := hi c hc
      obtain ⟨ch', hch', hm⟩ := h.moved c hc ch hch
      rw [if_pos hc, membAt_eq hch, membAt_eq hch', hm.lookup]
    · rw [if_neg hc, membAt, membAt, h.other c hc]
  · intro p n hp
    rw [h.same] at hp
    exact hp

theorem norm_respelled {cm : CMap} {old new : Str} (h : norm cm new = norm cm old) :
    norm cm (strNcpy new (old.length + 1)) = norm cm old := by
  rw [strNcpy, Nat.add_sub_cancel, norm_take, h, List.take_of_length_le]
  exact norm_length_le cm old

theorem renameUser_none (h : Inv cm tight b) {ident : Str} (newnick : Str)
    (hl : b.users.lookup (norm cm ident) = none) :
    renameUser b cm ident newnick = .ok (false, false, b) := by
  simp only [renameUser, getUser, get_eq, h.counted.usersCm, hl]

theorem renameUser_respell (h : Inv cm tight b) {ident newnick : Str} {p : Ptr}
    (hl : b.users.lookup (norm cm ident) = some p)
    (hcase : istrcmp (ident2nick MAX_NICK_LEN ident) newnick cm = 0)
    (hk : norm cm ident = norm cm newnick) :
    ∃ u, b.userHeap.get p = some u ∧ norm cm u.nick = norm cm ident ∧
      Returns (renameUser b cm ident newnick) fun r => r.1 = true ∧ Inv cm tight r.2.2 ∧
        r.2.2 = b.setUser p { u with nick := strNcpy newnick (u.nick.length + 1) } := by
  obtain ⟨u, hu, hκ⟩ := h.counted.roster.found _ p hl
  have hkey := norm_respelled (hk.symm.trans hκ.symm)
  have hr := @Roster.touch _ _ _ _ _ _ _ _ _ _ _ h.counted.roster _ _
    { u with nick := strNcpy newnick (u.nick.length + 1) } hu
    hkey rfl
  rw [← get_set hu] at hr
  refine ⟨u, hu, hκ, ?_⟩
  simp only [renameUser, getUser, get_eq, h.counted.usersCm, hl, user_eq hu, ok_bind,
    hcase, if_true]
  exact Returns.ok ⟨rfl, ⟨⟨h.counted.al, h.counted.usersCm, hr⟩, h.chansCm, h.live, h.nodup⟩, rfl⟩

/-- Memberships are not gained by a renaming, and lost only where the new nick is taken. -/
theorem Renamed.refs_le {κ κ' : Str} {b b' : Base} (h : Renamed κ κ' b.chans.vals b b')
    (hi : ∀ c ∈ b.chans.vals, ∃ ch, b.chanHeap.get c = some ch) (q : Ptr) :
      refs b' q ≤ refs b q := by
  rw [refs, refs, h.same]
  apply List.sum_le_sum
  intro c hc
  obtain ⟨ch, hch⟩ := hi c hc
  obtain ⟨ch', hch', hm⟩ := h.moved c hc ch hch
  simp only [membersOf, hch, hch']
  exact hm.count q

theorem Renamed.refs_eq {κ κ' : Str} {b b' : Base} (h : Renamed κ κ' b.chans.vals b b')
    (hi : ∀ c ∈ b.chans.vals, ∃ ch, b.chanHeap.get c = some ch)
    {q : Ptr} (hfree : ¬Filed b κ' q) : refs b' q = refs b q := by
  rw [refs, refs, h.same]
  apply congrArg List.sum
  apply List.map_congr_left
  intro c hc
  obtain ⟨ch, hch⟩ := hi c hc
  obtain ⟨ch', hch', hm⟩ := h.moved c hc ch hch
  simp only [membersOf, hch, hch']
  refine hm.exact q fun m hm hq => hfree ⟨c, hc, m, ?_, hq⟩
  rw [membAt_eq hch, hm]

/-- A user moves to another key, in the map and in every channel. -/
theorem renameUser_move (h : Inv cm tight b) {ident newnick : Str} {p : Ptr}
    (hl : b.users.lookup (norm cm ident) = some p)
    (hcase : istrcmp (ident2nick MAX_NICK_LEN ident) newnick cm ≠ 0) {tight' : Ptr → Prop}
    (ht : ∀ q, tight' q → tight q ∧ b.users.lookup (norm cm newnick) ≠ some q) :
    Returns (renameUser b cm ident newnick) fun r => r.1 = true ∧ Inv cm tight' r.2.2 ∧
      r.2.2.chans.lookup = b.chans.lookup ∧ nameAt r.2.2 = nameAt b ∧
      (∀ c, membAt r.2.2 c = if c ∈ b.chans.vals then
        RenameOps.moved (membAt b c) (norm cm ident) (norm cm newnick) else membAt b c) ∧
      r.2.2.endofnames = b.endofnames ∧
      nickAt r.2.2 = Function.update (nickAt b) p (some newnick) ∧
      r.2.2.users.lookup = Function.update
        (Function.update b.users.lookup (norm cm newnick) (some p)) (norm cm ident) none := by
  obtain ⟨u, hu, hκ⟩ := h.counted.roster.found _ p hl
  have hlive : ∀ c ∈ b.chans.vals, ∃ ch, b.chanHeap.get c = some ch := fun c hc =>
    (h.live c hc).imp fun _ hch => hch.1
  have hb₁ : (b.setUser p { u with nick := newnick }).al = [] := h.counted.al
  simp only [renameUser, getUser, get_eq, h.counted.usersCm, hl, user_eq hu, ok_bind,
    hcase, if_false,
    malloc_eq h.counted.al, hb₁]
  simp only [Base.setUser, put_nil, visit_fst]
  generalize hu' : ({ u with nick := newnick } : User) = u'
  have hnick : u'.nick = newnick := by rw [← hu']
  generalize hb₂ : ({ b with
    users := ((b.users.store newnick p).del ident).2, userHeap := b.userHeap.set p u',
    chans := b.chans.visit.2, al := [] } : Base) = b₂
  have hchans : b₂.chans = b.chans.visit.2 := by rw [← hb₂]
  have hvals : b₂.chans.vals = b.chans.vals := by rw [hchans, vals_visit]
  have hheap : b₂.chanHeap = b.chanHeap := by rw [← hb₂]
  have hcm : b₂.users.cm = cm := by
    rw [← hb₂]
    exact ((cm_drop _ _).trans (cm_store _ _ _)).trans h.counted.usersCm
  have hlookup : b₂.users.lookup = Function.update
      (Function.update b.users.lookup (norm cm newnick) (some p)) (norm cm ident) none := by
    rw [← hb₂, ← h.counted.usersCm, ← lookup_store, ← cm_store b.users newnick p]
    exact lookup_drop _ _
  have husers : b₂.userHeap.get = Function.update b.userHeap.get p (some u') := by
    rw [← hb₂, get_set hu]
  have hrefs : refs b₂ = refs b := by
    ext q
    rw [refs, refs, hvals]
    simp only [membersOf, hheap]
  have hmemb : membAt b₂ = membAt b := by
    ext1 c
    rw [membAt, membAt, hheap]
  have hlive₂ : ∀ c ∈ b₂.chans.vals, ∃ ch, b₂.chanHeap.get c = some ch := by
    rw [hvals, hheap]
    exact hlive
  refine (renameMembs_ok ident newnick b.chans.vals (by rw [← hb₂]) h.nodup
    (by rw [hheap]; exact h.live)).mono ?_
  rintro ⟨ok, aerr, b₃⟩ ⟨hok, -, hren⟩
  have hren' : Renamed (norm cm ident) (norm cm newnick) b₂.chans.vals b₂ b₃ := by rwa [hvals]
  have hch := hren'.change hlive₂
  dsimp only at hok hren ⊢
  have hchans₃ : b₃.chans = b₂.chans := by rw [hren.same]
  have husers₃ : b₃.users = b₂.users := by rw [hren.same]
  have huheap₃ : b₃.userHeap = b₂.userHeap := by rw [hren.same]
  have hal₃ : b₃.al = [] := by rw [hren.same, ← hb₂]
  have heon₃ : b₃.endofnames = b.endofnames := by rw [hren.same, ← hb₂]
  have hmemb₃ : ∀ c, membAt b₃ c = if c ∈ b.chans.vals then
      RenameOps.moved (membAt b c) (norm cm ident) (norm cm newnick) else membAt b c := by
    intro c
    rw [hch.memb, hvals, hmemb]
  have hroster := @Roster.rename _ _ _ _ _ _ _ _ _ _ _ _ h.counted.roster _ _ u' hu (hκ ▸ hl)
    (by rw [← hu']) tight' (refs b₃) (Filed b₃) ?_ ?_ ?_
  · rw [hnick, hκ, ← hlookup, ← husers] at hroster
    refine ⟨hok, ⟨⟨hal₃, husers₃ ▸ hcm, ?_⟩, ?_, ?_, ?_⟩, ?_, ?_, hmemb₃, heon₃, ?_,
      by rw [husers₃, hlookup]⟩
    · rwa [husers₃, huheap₃]
    · rw [hchans₃, hchans, cm_visit]
      exact h.chansCm
    · intro c hc
      rw [hchans₃, hvals] at hc
      obtain ⟨ch, hch₀, hcm₀⟩ := h.live c hc
      obtain ⟨ch', hch', hm⟩ := hren.moved c hc ch (hheap ▸ hch₀)
      exact ⟨ch', hch', hm.cm.trans hcm₀⟩
    · rw [hchans₃, hvals]
      exact h.nodup
    · rw [hchans₃, hchans, lookup_visit]
    · rw [hch.name]
      ext1 c
      rw [nameAt, nameAt, hheap]
    · ext1 q
      rw [nickAt, huheap₃, husers, Function.update_apply, Function.update_apply]
      split
      · rw [Option.map_some, hnick]
      · rfl
  · intro q
    rw [← hrefs]
    exact hren'.refs_le hlive₂ q
  · rintro κ q ⟨c, hc, m, hm, hq⟩
    rw [hchans₃, hvals] at hc
    rw [hmemb₃, if_pos hc] at hm
    rw [hκ, hnick]
    obtain ⟨rfl, hold⟩ | ⟨hne, hold⟩ := moved_some hm
    · exact Or.inl ⟨rfl, c, hc, m, hold, hq⟩
    · exact Or.inr ⟨hne, c, hc, m, hold, hq⟩
  · intro q hq
    obtain ⟨hq, hne⟩ := ht q hq
    refine ⟨hq, ?_, by rwa [hnick]⟩
    rw [← hrefs]
    refine hren'.refs_eq hlive₂ fun hf => hne ?_
    rw [Filed, hvals, hmemb] at hf
    -- a user that is counted is filed under its own key
    obtain ⟨v, hv⟩ := h.counted.roster.live q ((refs_pos b q).2 ⟨_, hf⟩)
    obtain ⟨_, _, hlq⟩ := h.counted.roster.exact q v hq hv
    rwa [h.counted.roster.filed_at _ q v hf hv hlq]

end Srsirc.RenameOps
