import Srsirc.ChannelOps
import Srsirc.NamesReply
import Srsirc.RenameOps
import Srsirc.UserOps

namespace Srsirc.Tally

open CharMap Dictionary Fallible HeapCells Members MemberOps Message NamesReply RefCount Track
open UserBase UserLifetime

/-- The invariant where, if that is asked for, the counts of all users that are found are
exact. -/
abbrev Tallied (cm : CMap) (strict : Prop) (b : Base) : Prop :=
  Inv cm (fun q => strict ∧ Listed b q) b

/-- The user at `p` is not on the channel at `c`. -/
def Apart (b : Base) (c p : Ptr) : Prop := ∀ m ∈ membersOf b c, m.u ≠ p

/-- No user that is found by that nick is on the channel at `c`. -/
def NewTo (b : Base) (c : Ptr) (nick : Str) : Prop := ∀ p, getUser b nick = some p → Apart b c p

variable {cm : CMap} {b : Base} {strict : Prop}

theorem getChan_eq {tight : Ptr → Prop} (h : Inv cm tight b) (name : Str) :
    getChan b name = b.chans.lookup (norm cm name) := by
  rw [getChan, get_eq, h.chansCm]

theorem getUser_eq {tight : Ptr → Prop} (h : Inv cm tight b) (ident : Str) :
    getUser b ident = b.users.lookup (norm cm ident) := by
  rw [getUser, get_eq, h.counted.usersCm]

theorem mem_of_getChan {name : Str} {c : Ptr} (hc : getChan b name = some c) :
    c ∈ b.chans.vals := by
  rw [getChan, get_eq] at hc
  exact (mem_vals _ _).2 ⟨_, hc⟩

theorem mem_of_lookup {b' : Base} (h : b'.chans.lookup = b.chans.lookup) {c : Ptr}
    (hc : c ∈ b.chans.vals) : c ∈ b'.chans.vals := by
  rw [mem_vals] at hc ⊢
  rwa [h]

theorem not_filed_next {tight : Ptr → Prop} (h : Inv cm tight b) (κ : Str) :
    ¬Filed b κ b.userHeap.next := by
  intro hf
  obtain ⟨u, hu⟩ := h.counted.roster.live _ ((refs_pos b _).2 ⟨κ, hf⟩)
  rw [get_next] at hu
  cases hu

theorem Tallied.of_fewer {b' : Base} (hf : Fewer b b')
    (h : Inv cm (fun q => (strict ∧ Listed b q) ∧ Listed b' q) b') : Tallied cm strict b' :=
  h.loosen fun _ hq => ⟨⟨hq.1, hf.listed hq.2⟩, hq.2⟩

theorem Tallied.of_subset {b' : Base} (hf : Fewer b b')
    (h : Inv cm (fun q => strict ∧ Listed b q) b') : Tallied cm strict b' :=
  h.loosen fun _ hq => ⟨hq.1, hf.listed hq.2⟩

theorem addMemb_tallied {tight : Ptr → Prop} (h : Inv cm tight b) {c p : Ptr} {u : User}
    (hc : c ∈ b.chans.vals) (hu : b.userHeap.get p = some u) (mpfx : Str)
    (hl : b.users.lookup (norm cm u.nick) = some p)
    (ht : strict → ∀ q, Listed b q → tight q ∨ q = p ∧ u.nchans = refs b p)
    (hn : strict → Apart b c p) :
    Returns (addMemb b c p mpfx) fun r => r.1 = true ∧ Tallied cm strict r.2 ∧
      r.2.chans.lookup = b.chans.lookup ∧ r.2.users = b.users ∧
      ∀ m ∈ membersOf r.2 c, m.u = p ∨ m ∈ membersOf b c := by
  refine (@addMemb_ok _ _ _ h _ _ _ hc hu mpfx (fun q => strict ∧ Listed b q) ?_).mono ?_
  · rintro q ⟨hs, hq⟩
    refine ⟨?_, (ht hs q hq).imp_right fun ⟨hqp, hcount⟩ => ⟨hqp, hcount, hl⟩⟩
    rintro w hw rfl
    obtain htq | ⟨hqp, _⟩ := ht hs _ hq
    · have hf : Filed b (norm cm u.nick) w.u := ⟨c, hc, w, hw, rfl⟩
      obtain ⟨v, hv⟩ := h.counted.roster.live _ ((refs_pos b w.u).2 ⟨_, hf⟩)
      obtain ⟨_, _, hlq⟩ := h.counted.roster.exact _ v htq hv
      rw [← h.counted.roster.filed_at _ _ v hf hv hlq, hl] at hlq
      exact hn hs w ((mem_membersOf b c w).2 ⟨_, hw⟩) (Option.some.inj hlq).symm
    · exact hn hs w ((mem_membersOf b c w).2 ⟨_, hw⟩) hqp
  · rintro r ⟨hr, hi, hch, _, husers⟩
    refine ⟨hr, Tallied.of_subset (Fewer.of_eq husers) hi, hch.chans, husers, fun m hm => ?_⟩
    obtain ⟨κ, hκ⟩ := (mem_membersOf r.2 c m).1 hm
    rw [hch.memb, Function.update_self] at hκ
    obtain ⟨_, rfl⟩ | ⟨_, hκ⟩ := update_some hκ
    · exact Or.inl rfl
    · exact Or.inr ((mem_membersOf b c m).2 ⟨κ, hκ⟩)

theorem addUser_tallied (h : Tallied cm strict b) (ident : Str) :
    Returns (addUser b ident) fun r => r.1 = some b.userHeap.next ∧
      ∃ tight u, Inv cm tight r.2 ∧ r.2.chans = b.chans ∧ r.2.chanHeap = b.chanHeap ∧
        r.2.userHeap.get b.userHeap.next = some u ∧
        r.2.users.lookup = Function.update b.users.lookup (norm cm u.nick) (some b.userHeap.next) ∧
        u.nick = ident2nick MAX_NICK_LEN ident ∧ refs r.2 b.userHeap.next = 0 ∧
        (strict → ∀ q, Listed r.2 q → tight q ∨ q = b.userHeap.next ∧
          u.nchans = refs r.2 b.userHeap.next) := by
  have hzero : refs b b.userHeap.next = 0 := by
    by_contra hne
    obtain ⟨κ, hκ⟩ := (refs_pos b _).1 (Nat.pos_of_ne_zero hne)
    exact not_filed_next h κ hκ
  generalize hK : norm cm (ident2nick MAX_NICK_LEN ident) = K
  have hloose : Counted cm (fun q => (strict ∧ Listed b q) ∧ b.users.lookup K ≠ some q) b (refs b)
      (Filed b) := h.counted.loosen fun _ hq => hq.1
  refine (addUser_ok hloose ident (not_filed_next h) ?_).mono ?_
  · rintro q ⟨⟨_, κ, hκ⟩, hne⟩
    refine ⟨?_, hK ▸ hne⟩
    rintro rfl
    obtain ⟨u, hu, _⟩ := h.counted.roster.found κ _ hκ
    rw [get_next] at hu
    cases hu
  · rintro r ⟨hadd, hcount, hchans, hheap, _, _, hlook, u, hu, hnick, hzero'⟩
    have hi := h.users hchans hheap hcount
    have hrefs : refs r.2 = refs b := by
      ext q
      rw [refs, refs, hchans]
      simp only [membersOf, hheap]
    rw [← hnick] at hlook hK
    refine ⟨hadd, _, u, hi, hchans, hheap, hu, hlook, hnick, by rw [hrefs, hzero], ?_⟩
    rintro hs q ⟨κ, hκ⟩
    rw [hlook, hK] at hκ
    obtain ⟨_, rfl⟩ | ⟨hne, hκ⟩ := update_some hκ
    · exact Or.inr ⟨rfl, by rw [hrefs, hzero, hzero']⟩
    · refine Or.inl ⟨⟨hs, κ, hκ⟩, fun hlq => hne ?_⟩
      obtain ⟨v, hv, hkey⟩ := h.counted.roster.found κ q hκ
      rw [← hkey, h.counted.roster.self hlq hv]

theorem nameOf353_tallied (h : Tallied cm strict b) {c : Ptr} (hc : c ∈ b.chans.vals)
    (nick mpfx : Str)
    (hn : strict → NewTo b c nick) :
    Returns (nameOf353 b c nick mpfx) fun r => r.1 = true ∧ Tallied cm strict r.2 ∧
      r.2.chans.lookup = b.chans.lookup ∧
      ∀ other, nick.length < MAX_NICK_LEN → norm cm other ≠ norm cm nick → NewTo b c other →
        NewTo r.2 c other := by
  rw [nameOf353]
  cases hl : getUser b nick with
  | some p =>
    have hl' := hl
    rw [getUser_eq h] at hl'
    obtain ⟨u, hu, hkey⟩ := h.counted.roster.found _ p hl'
    refine (addMemb_tallied h hc hu mpfx (hkey ▸ hl') (fun hs q hq => Or.inl ⟨hs, hq⟩)
      (fun hs => hn hs p hl)).mono fun r ⟨hr, hi, hch, husers, hm⟩ => ⟨hr, hi, hch, ?_⟩
    rintro other _ hne hnew q hq m hmem rfl
    rw [getUser, husers, ← getUser, getUser_eq h] at hq
    obtain hmu | hmem := hm m hmem
    · rw [hmu] at hq
      exact hne ((h.counted.roster.self hq hu).trans hkey)
    · exact hnew m.u (by rw [getUser_eq h, hq]) m hmem rfl
  | none =>
    refine (addUser_tallied h nick).bind ?_
    rintro ⟨added, b₁⟩ ⟨hadd, tight, u, h₁, hchans, hheap, hu, hlook, hnick, hzero, htight⟩
    dsimp only at hadd h₁ hchans hheap hu hlook hzero htight ⊢
    subst hadd
    have hc₁ : c ∈ b₁.chans.vals := hchans ▸ hc
    have hl₁ : b₁.users.lookup (norm cm u.nick) = some b.userHeap.next := by
      rw [hlook, Function.update_self]
    have hapart : Apart b₁ c b.userHeap.next := by
      intro m hm hmu
      obtain ⟨κ, hκ⟩ := (mem_membersOf b₁ c m).1 hm
      have hpos := (refs_pos b₁ b.userHeap.next).2 ⟨κ, c, hc₁, m, hκ, hmu⟩
      omega
    refine (addMemb_tallied h₁ hc₁ hu mpfx hl₁ htight (fun _ => hapart)).bind ?_
    rintro ⟨ok, b₂⟩ ⟨rfl, hi, hch, husers, hm⟩
    refine Returns.ok ⟨rfl, hi, hch.trans (by rw [hchans]), ?_⟩
    rintro other hlen hne hnew q hq m hmem rfl
    dsimp only at hq husers hm hmem
    have hkey : norm cm u.nick = norm cm nick := by
      rw [hnick, norm_ident2nick, List.take_of_length_le]
      refine Nat.le_trans (norm_length_le cm nick) ?_
      rw [MAX_NICK_LEN] at hlen ⊢
      omega
    rw [getUser, husers, ← getUser, getUser_eq h₁, hlook, hkey, Function.update_of_ne hne] at hq
    obtain hmu | hmem := hm m hmem
    · obtain ⟨v, hv, _⟩ := h.counted.roster.found _ _ hq
      rw [hmu, get_next] at hv
      cases hv
    · have hmemb : membersOf b₁ c = membersOf b c := by rw [membersOf, membersOf, hheap]
      exact hnew m.u (by rw [getUser_eq h, hq]) m (hmemb ▸ hmem) rfl

/-- The names of a 353 line that are all different, and new to the channel, enter it. -/
theorem enter_tallied {c : Ptr} (ns : List (Str × Str)) {b : Base} (h : Tallied cm strict b)
    (hc : c ∈ b.chans.vals) (hshort : ∀ n ∈ ns, n.1.length < MAX_NICK_LEN)
    (hn : strict → ns.Pairwise (fun m n => ¬pfxeq cm m.1 n.1) ∧ ∀ n ∈ ns, NewTo b c n.1) :
    Returns (enter c ns b) fun r => Tallied cm strict r.2 := by
  induction ns generalizing b with
  | nil => exact Returns.ok h
  | cons n ns ih =>
    rw [enter]
    refine (nameOf353_tallied h hc n.1 n.2 fun hs => (hn hs).2 n List.mem_cons_self).bind ?_
    rintro ⟨ok, b₁⟩ ⟨rfl, hi, hch, hnew⟩
    refine ih hi (mem_of_lookup hch hc) (fun m hm => hshort m (List.mem_cons_of_mem n hm))
      fun hs => ?_
    obtain ⟨hpair, hall⟩ := hn hs
    obtain ⟨hne, hpair⟩ := List.pairwise_cons.1 hpair
    refine ⟨hpair,
      fun m hm => hnew m.1 (hshort n List.mem_cons_self) ?_ (hall m (List.mem_cons_of_mem n hm))⟩
    have := hne m hm
    rw [pfxeq_iff] at this
    exact fun he => this he.symm

/-- A user gets a new nick. One that was found by it is not found any more. -/
theorem renameUser_tallied (h : Tallied cm strict b) {ident newnick : Str}
    (hk : (getUser b ident).isSome → istrcmp (ident2nick MAX_NICK_LEN ident) newnick cm = 0 →
      norm cm ident = norm cm newnick) :
    Returns (renameUser b cm ident newnick) fun r => Tallied cm strict r.2.2 := by
  rw [getUser_eq h] at hk
  cases hl : b.users.lookup (norm cm ident) with
  | none => exact ⟨_, RenameOps.renameUser_none h newnick hl, h⟩
  | some p =>
    rw [hl] at hk
    by_cases hcase : istrcmp (ident2nick MAX_NICK_LEN ident) newnick cm = 0
    · obtain ⟨u, _, _, hr⟩ := RenameOps.renameUser_respell h hl hcase (hk rfl hcase)
      refine hr.mono fun r ⟨_, hi, hr⟩ => Tallied.of_subset (Fewer.of_eq ?_) hi
      rw [hr]
      rfl
    · refine (@RenameOps.renameUser_move _ _ _ h _ _ _ hl hcase (fun q => (strict ∧ Listed b q) ∧
        b.users.lookup (norm cm newnick) ≠ some q) fun _ hq => hq).mono ?_
      rintro r ⟨_, hi, _, _, _, _, _, hlook⟩
      refine hi.loosen ?_
      rintro q ⟨hs, κ, hκ⟩
      rw [hlook] at hκ
      obtain ⟨hne, hκ⟩ := update_none hκ
      have hold : ∃ κ' ≠ norm cm newnick, b.users.lookup κ' = some q := by
        obtain ⟨rfl, rfl⟩ | ⟨hne', hκ⟩ := update_some hκ
        · exact ⟨_, fun he => hne he.symm, hl⟩
        · exact ⟨κ, hne', hκ⟩
      obtain ⟨κ', hne', hκ'⟩ := hold
      refine ⟨⟨hs, κ', hκ'⟩, fun hnew => hne' ?_⟩
      obtain ⟨v, hv, _⟩ := h.counted.roster.found κ' q hκ'
      rw [h.counted.roster.self hκ' hv, h.counted.roster.self hnew hv]

end Srsirc.Tally
