import Srsirc.MemberOps

namespace Srsirc.ChannelOps

open CharMap Dictionary Fallible HeapCells Members MemberOps Message RefCount UserBase UserLifetime

variable {cm : CMap} {tight : Ptr → Prop} {b : Base}

theorem next_not_mem (h : Inv cm tight b) : b.chanHeap.next ∉ b.chans.vals := by
  intro hc
  obtain ⟨ch, hch, _⟩ := h.live _ hc
  rw [get_next] at hch
  cases hch

theorem membAt_next (b : Base) : membAt b b.chanHeap.next = fun _ => none := by
  rw [membAt, get_next]

/-- The channel at `c` is new, without members. -/
structure Opened (cm : CMap) (b : Base) (name : Str) (c : Ptr) (b' : Base) : Prop where
  chans : b'.chans.lookup = Function.update b.chans.lookup (norm cm name) (some c)
  vals : b'.chans.vals.Perm (c :: b.chans.vals)
  name : nameAt b' = Function.update (nameAt b) c (some (strNcpy name MAX_CHAN_LEN))
  memb : membAt b' = membAt b
  empty : membAt b c = fun _ => none
  fresh : c ∉ b.chans.vals
  endofnames : b'.endofnames = b.endofnames
  users : b'.users = b.users
  userHeap : b'.userHeap = b.userHeap

theorem addChan_ok (h : Inv cm tight b) {name : Str} (hn : b.chans.lookup (norm cm name) = none) :
    ∃ c b', addChan b cm name = (some c, b') ∧ Inv cm tight b' ∧ Opened cm b name c b' := by
  generalize hch : (⟨strNcpy name MAX_CHAN_LEN, none, none, 0, .init 256 Memb cm, false,
    List.replicate 16 none, none, false⟩ : Chan) = ch
  have hempty : ch.memb.lookup = fun _ => none := by rw [← hch, lookup_init]
  have hnone : ch.memb.vals = [] := by rw [← hch, vals_init]
  let c := b.chanHeap.next
  let b' : Base := { b with
    chans := b.chans.store name c, al := [], chanHeap := b.chanHeap.new ch }
  have hget : b'.chanHeap.get = Function.update b.chanHeap.get c (some ch) := get_new _ _
  have hmemb : membAt b' = membAt b := by
    funext q
    by_cases hq : q = c
    · rw [hq, membAt_next, membAt, hget, Function.update_self, ← hempty]
    · rw [membAt, membAt, hget, Function.update_of_ne hq]
  have hmembers : ∀ q, membersOf b' q = membersOf b q := by
    intro q
    by_cases hq : q = c
    · rw [hq, membersOf, membersOf, hget, Function.update_self, get_next]
      exact hnone
    · rw [membersOf, membersOf, hget, Function.update_of_ne hq]
  have hvals : b'.chans.vals.Perm (c :: b.chans.vals) := vals_store_new (h.chansCm ▸ hn) c
  have hrefs : refs b' = refs b := by
    funext p
    rw [refs, (hvals.map _).sum_eq, List.map_cons, List.sum_cons, hmembers, membersOf,
      get_next, refs]
    simp only [hmembers, countIn, List.countP_nil, Nat.zero_add]
  refine ⟨c, b', ?_, ⟨⟨rfl, h.counted.usersCm, ?_⟩, (cm_store _ _ _).trans h.chansCm, ?_, ?_⟩,
    ⟨?_, hvals, ?_, hmemb, membAt_next b, next_not_mem h, rfl, rfl, rfl⟩⟩
  · have halloc : allocChan b = (true, b) := by
      simp [allocChan, malloc_eq h.counted.al]
    rw [addChan, halloc]
    simp only [h.counted.al, put_nil, hch]
    rfl
  · rw [hrefs]
    refine h.counted.roster.weaken (fun _ ht => ht) ?_
    rintro κ p ⟨q, hq, m, hm, hp⟩
    rw [hmemb] at hm
    obtain rfl | hq := List.mem_cons.1 (hvals.mem_iff.1 hq)
    · rw [membAt_next] at hm
      cases hm
    · exact ⟨q, hq, m, hm, hp⟩
  · intro q hq
    rw [hget]
    obtain rfl | hq := List.mem_cons.1 (hvals.mem_iff.1 hq)
    · exact ⟨ch, Function.update_self _ _ _, by rw [← hch, cm_init]⟩
    · have hne : q ≠ c := by
        rintro rfl
        exact next_not_mem h hq
      rw [Function.update_of_ne hne]
      exact h.live q hq
  · rw [hvals.nodup_iff, List.nodup_cons]
    exact ⟨next_not_mem h, h.nodup⟩
  · rw [← h.chansCm]
    exact lookup_store _ _ _
  · funext q
    simp only [nameAt, hget, Function.update_apply]
    split
    · rw [← hch, Option.map_some]
    · rfl

/-- The channel at `c`, which was found under `κ`, is gone. -/
structure Closed (b : Base) (κ : Str) (c : Ptr) (b' : Base) : Prop where
  chans : b'.chans.lookup = Function.update b.chans.lookup κ none
  name : ∀ q, q ≠ c → nameAt b' q = nameAt b q
  memb : ∀ q, q ≠ c → membAt b' q = membAt b q
  endofnames : b'.endofnames = b.endofnames
  nick : ∀ p n, nickAt b' p = some n → nickAt b p = some n

theorem dropChan_none (h : Inv cm tight b) {c : Ptr} {ch : Chan} (hch : b.chanHeap.get c = some ch)
    (hl : b.chans.lookup (norm cm ch.name) = none) : dropChan b c = .ok (false, b) := by
  simp only [dropChan, chan_eq hch, ok_bind, del_eq, h.chansCm, hl]

/-- A channel that is found by its name is dropped, and with it the users that are only there. -/
theorem dropChan_ok (h : Inv cm tight b) {c : Ptr} {ch : Chan}
    (hch : b.chanHeap.get c = some ch) (hl : b.chans.lookup (norm cm ch.name) = some c) :
    Returns (dropChan b c) fun r => Inv cm (fun q => tight q ∧ Listed r.2 q) r.2 ∧ Fewer b r.2 ∧
      Closed b (norm cm ch.name) c r.2 := by
  generalize hb₁ : ({ b with chans := b.chans.drop ch.name } : Base) = b₁
  have hchans : b₁.chans = b.chans.drop ch.name := by rw [← hb₁]
  have hheap : b₁.chanHeap = b.chanHeap := by rw [← hb₁]
  have hvals : (c :: b₁.chans.vals).Perm b.chans.vals := by
    rw [hchans]
    exact vals_drop_some (h.chansCm.symm ▸ hl)
  have hnodup : c ∉ b₁.chans.vals ∧ b₁.chans.vals.Nodup := by
    rw [← List.nodup_cons, hvals.nodup_iff]
    exact h.nodup
  have hmem : ∀ q, q ∈ b₁.chans.vals → q ≠ c ∧ q ∈ b.chans.vals := by
    intro q hq
    exact ⟨fun he => hnodup.1 (he ▸ hq), hvals.mem_iff.1 (List.mem_cons_of_mem c hq)⟩
  have hsplit : refs b = fun q => refs b₁ q + countIn ch.memb.vals q := by
    funext q
    rw [refs, ← (hvals.map _).sum_eq, List.map_cons, List.sum_cons, membersOf, hch, Nat.add_comm,
      refs]
    simp only [membersOf, hheap]
  have hstart : Counted cm tight b₁ (refs b) (Filed b) := by
    rw [← hb₁]
    exact ⟨h.counted.al, h.counted.usersCm, h.counted.roster⟩
  rw [hsplit] at hstart
  simp only [dropChan, chan_eq hch, ok_bind, del_eq, h.chansCm, hl, hb₁, visit_fst]
  refine (unrefAll_ok ch.memb.vals hstart).bind ?_
  rintro b₂ ⟨hf, hfew, hb₂⟩
  have hget₂ : b₂.chanHeap.get c = some ch := by rw [hf.chanHeap, hheap, hch]
  rw [freeChan_eq hget₂, ok_bind]
  generalize hb₃ :
    ({ b₂ with chanHeap := b₂.chanHeap.free c, freed := freeTag ch.tag ch.freetag b₂.freed } :
    Base) = b₃
  have hheap₃ : ∀ q, q ≠ c → b₃.chanHeap.get q = b.chanHeap.get q := by
    intro q hq
    rw [← hb₃, get_free, Function.update_of_ne hq, hf.chanHeap, hheap]
  have hchans₃ : b₃.chans = b₁.chans := by rw [← hb₃, hf.chans]
  have hmemb₃ : ∀ q, q ≠ c → membAt b₃ q = membAt b q := by
    intro q hq
    rw [membAt, membAt, hheap₃ q hq]
  have hrefs₃ : refs b₃ = refs b₁ := by
    funext p
    rw [refs, refs, hchans₃]
    refine congrArg List.sum (List.map_congr_left fun q hq => ?_)
    rw [membersOf, membersOf, hheap₃ q (hmem q hq).1, hheap]
  have husers₁ : b₁.users = b.users := by rw [← hb₁]
  have husers₃ : b₃.users = b₂.users := by rw [← hb₃]
  have hfew₃ : Fewer b b₃ := (Fewer.of_eq husers₁).trans (hfew.trans (Fewer.of_eq husers₃))
  refine Returns.ok ⟨⟨?_, ?_, ?_, ?_⟩, hfew₃, ?_, ?_, hmemb₃, ?_, ?_⟩
  · rw [hrefs₃]
    have hc₃ : Counted cm (fun q => tight q ∧ Listed b₃ q) b₃ (refs b₁) (Filed b) := by
      rw [← hb₃]
      exact ⟨hb₂.al, hb₂.usersCm, hb₂.roster⟩
    refine ⟨hc₃.al, hc₃.usersCm, hc₃.roster.weaken (fun _ hq => hq) ?_⟩
    rintro κ p ⟨q, hq, m, hm, hp⟩
    rw [hchans₃] at hq
    exact ⟨q, (hmem q hq).2, m, by rw [← hmemb₃ q (hmem q hq).1, hm], hp⟩
  · rw [hchans₃, hchans, cm_drop]
    exact h.chansCm
  · intro q hq
    rw [hchans₃] at hq
    rw [hheap₃ q (hmem q hq).1]
    exact h.live q (hmem q hq).2
  · rw [hchans₃]
    exact hnodup.2
  · rw [hchans₃, hchans, lookup_drop, h.chansCm]
  · intro q hq
    rw [nameAt, nameAt, hheap₃ q hq]
  · rw [← hb₃, ← hb₁] at *
    exact hf.endofnames
  · intro p n hp
    rw [← hb₃] at hp
    have := hf.nick p n hp
    rwa [← hb₁] at this

end Srsirc.ChannelOps
