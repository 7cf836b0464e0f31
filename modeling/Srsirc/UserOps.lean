import Srsirc.MemberOps

namespace Srsirc.UserOps

open CharMap Dictionary Fallible HeapCells Members MemberOps Message RefCount UserBase UserLifetime

variable {cm : CMap} {tight : Ptr → Prop} {b : Base}

def without (f : Ptr → Str → Option Memb) (κ : Str) (cs : List Ptr) (c : Ptr) : Str → Option Memb :=
  if c ∈ cs then Function.update (f c) κ none else f c

theorem without_cons (f : Ptr → Str → Option Memb) (κ : Str) (c : Ptr) (cs : List Ptr) :
    without (Function.update f c (Function.update (f c) κ none)) κ cs = without f κ (c :: cs) := by
  funext q
  rw [without, without]
  by_cases hq : q = c
  · simp [hq]
  · simp [hq]

theorem dropMembs_ok {p : Ptr} {n : Str} (cs : List Ptr) {b : Base} (h : Inv cm tight b)
    (hn : nickAt b p = some n) (ht : ∀ q, Filed b (norm cm n) q → ¬tight q)
    (hcs : ∀ c ∈ cs, c ∈ b.chans.vals) :
    Returns (dropMembs p cs b) fun b' => Inv cm tight b' ∧
      Change b (without (membAt b) (norm cm n) cs) b' ∧ nickAt b' = nickAt b ∧ b'.users = b.users ∧
      b'.chans = b.chans := by
  induction cs generalizing b with
  | nil =>
    have hsame : without (membAt b) (norm cm n) [] = membAt b := by
      funext c
      simp [without]
    rw [hsame]
    exact Returns.ok ⟨h, (Frame.refl b).change, rfl, rfl, rfl⟩
  | cons c cs ih =>
    obtain ⟨u, hu, rfl⟩ := of_nickAt hn
    have hc := hcs c List.mem_cons_self
    refine (@dropMemb_ok _ _ _ h _ _ _ hc hu false ?_).bind fun r ⟨hi, _, hch, hkeep⟩ => ?_
    · exact fun _ m hm => ht m.u ⟨c, hc, m, hm, rfl⟩
    · obtain ⟨hnick, husers, hchans⟩ := hkeep rfl
      have hi : Inv cm tight r.2 := hi.loosen fun _ hq => ⟨hq, fun hc => by cases hc⟩
      refine (ih hi (hnick ▸ hn) ?_ ?_).mono fun b' ⟨hi', hch', hnick', husers', hchans'⟩ => ?_
      · rintro q ⟨d, hd, m, hm, hq⟩
        rw [hchans] at hd
        rw [hch.memb, Function.update_apply] at hm
        split at hm
        · rw [Function.update_self] at hm
          cases hm
        · exact ht q ⟨d, hd, m, hm, hq⟩
      · rw [hchans]
        exact fun d hd => hcs d (List.mem_cons_of_mem c hd)
      · rw [hch.memb, without_cons] at hch'
        exact ⟨hi', hch.trans hch', hnick'.trans hnick, husers'.trans husers, hchans'.trans hchans⟩

structure Unlisted (cm : CMap) (b : Base) (κ : Str) (b' : Base) : Prop where
  al : b'.al = []
  usersCm : b'.users.cm = cm
  users : b'.users.lookup = Function.update b.users.lookup κ none
  chans : b'.chans = b.chans.visit.2
  chanHeap : b'.chanHeap = b.chanHeap
  userHeap : b'.userHeap = b.userHeap
  endofnames : b'.endofnames = b.endofnames

theorem Unlisted.vals {κ : Str} {b' : Base} (h : Unlisted cm b κ b') :
    b'.chans.vals = b.chans.vals := by
  rw [h.chans, vals_visit]

theorem Unlisted.change {κ : Str} {b' : Base} (h : Unlisted cm b κ b') :
    Change b (membAt b) b' := by
  refine ⟨by rw [h.chans, lookup_visit], ?_, ?_, h.endofnames, ?_⟩
  · ext1 c
    rw [nameAt, nameAt, h.chanHeap]
  · ext1 c
    rw [membAt, membAt, h.chanHeap]
  · intro p n hp
    rwa [nickAt, h.userHeap] at hp

theorem Unlisted.filed {κ : Str} {b' : Base} (h : Unlisted cm b κ b') {κ' : Str} {p : Ptr} :
    Filed b' κ' p ↔ Filed b κ' p := by
  rw [Filed, Filed, h.vals, h.change.memb]

/-- The user is not tight until it is freed. -/
theorem Unlisted.inv {κ : Str} {b' : Base} (h : Unlisted cm b κ b') (hi : Inv cm tight b) :
    Inv cm (fun q => tight q ∧ b.users.lookup κ ≠ some q) b' := by
  have hrefs : refs b' = refs b := by
    ext p
    rw [refs, refs, h.vals]
    simp only [membersOf, h.chanHeap]
  refine ⟨⟨h.al, h.usersCm, ?_⟩, ?_, ?_, h.vals ▸ hi.nodup⟩
  · rw [hrefs, h.users, h.userHeap]
    exact (hi.counted.roster.forget κ).weaken (fun _ ht => ht) fun _ _ hf => h.filed.1 hf
  · rw [h.chans, cm_visit]
    exact hi.chansCm
  · rw [h.vals, h.chanHeap]
    exact hi.live

theorem dropUser_ok (h : Inv cm tight b) {κ : Str} {p : Ptr} (hl : b.users.lookup κ = some p) :
    Returns (dropUser b p) fun r => Inv cm tight r.2 ∧ Fewer b r.2 ∧
      Change b (without (membAt b) κ b.chans.vals) r.2 := by
  obtain ⟨u, hu, rfl⟩ := h.counted.roster.found κ p hl
  simp only [dropUser, user_eq hu, ok_bind, del_eq, h.counted.usersCm, hl, visit_fst]
  generalize hb₁ : ({ b with users := b.users.drop u.nick, chans := b.chans.visit.2 } : Base) = b₁
  have h₁ : Unlisted cm b (norm cm u.nick) b₁ := by
    rw [← hb₁, ← h.counted.usersCm]
    exact ⟨h.counted.al, cm_drop _ _, lookup_drop _ _, rfl, rfl, rfl, rfl⟩
  have hn₁ : nickAt b₁ p = some u.nick := by
    rw [nickAt, h₁.userHeap]
    exact nickAt_eq hu
  have hcs : ∀ c ∈ b.chans.vals, c ∈ b₁.chans.vals := fun c hc => h₁.vals ▸ hc
  refine (dropMembs_ok b.chans.vals (h₁.inv h) hn₁ ?_ hcs).bind fun b₂ hb₂ => ?_
  · rintro q hf ⟨hq, hne⟩
    rw [h₁.filed] at hf
    obtain ⟨v, hv⟩ := h.counted.roster.live q ((refs_pos b q).2 ⟨_, hf⟩)
    obtain ⟨_, _, hlq⟩ := h.counted.roster.exact q v hq hv
    have hk := h.counted.roster.filed_at _ q v hf hv hlq
    exact hne (hk ▸ hlq)
  · obtain ⟨h₂, hch₂, hnick₂, husers₂, hchans₂⟩ := hb₂
    obtain ⟨u₂, hu₂, _⟩ := of_nickAt (hnick₂ ▸ hn₁)
    -- the user was filed under its own key only
    have hgone : refs b₂ p = 0 := by
      by_contra hne
      obtain ⟨κ, c, hc, m, hm, hp⟩ := (refs_pos b₂ p).1 (Nat.pos_of_ne_zero hne)
      rw [hchans₂, h₁.vals] at hc
      rw [hch₂.memb, without, if_pos hc, h₁.change.memb] at hm
      obtain ⟨hκ, hm⟩ := update_none hm
      exact hκ (h.counted.roster.filed_at κ p u ⟨c, hc, m, hm, hp⟩ hu hl)
    have hfree : ∀ κ, b₂.users.lookup κ ≠ some p := by
      intro κ hκ
      rw [husers₂, h₁.users] at hκ
      obtain ⟨hne, hκ⟩ := update_none hκ
      exact hne (h.counted.roster.self hκ hu)
    have hr :=
      @Roster.release _ _ _ _ _ _ _ _ _ _ _ h₂.counted.roster _ hgone hfree tight fun q hq hqp =>
      ⟨hq, fun he => hqp (Option.some.inj (hl.symm.trans he)).symm⟩
    rw [← get_free] at hr
    have hf := frame_freeUser b₂ p (freeTag u₂.tag u₂.freetag b₂.freed)
    have hch := h₁.change.trans (hch₂.trans hf.change)
    rw [hch₂.memb, h₁.change.memb] at hch
    have hfew : Fewer b { b₂ with
        userHeap := b₂.userHeap.free p, freed := freeTag u₂.tag u₂.freetag b₂.freed } := by
      intro κ q hq
      rw [husers₂, h₁.users] at hq
      exact (update_none hq).2
    rw [freeUser_eq hu₂, ok_bind]
    exact Returns.ok ⟨h₂.frame hf ⟨h₂.counted.al, h₂.counted.usersCm, hr⟩, hfew, hch⟩

end Srsirc.UserOps
