import Srsirc.UserLifetime

namespace Srsirc.MemberOps

open CharMap Dictionary Fallible HeapCells Members Message RefCount UserBase UserLifetime

variable {cm : CMap} {tight : Ptr → Prop} {b : Base}

theorem membAt_eq {c : Ptr} {ch : Chan} (hch : b.chanHeap.get c = some ch) :
    membAt b c = ch.memb.lookup := by rw [membAt, hch]

theorem nickAt_eq {p : Ptr} {u : User} (hu : b.userHeap.get p = some u) :
    nickAt b p = some u.nick := by
  rw [nickAt, hu, Option.map_some]

theorem of_nickAt {p : Ptr} {n : Str} (h : nickAt b p = some n) :
    ∃ u, b.userHeap.get p = some u ∧ u.nick = n := by
  rw [nickAt, Option.map_eq_some_iff] at h
  exact h

theorem countIn_store_new {d : Dict 256 Memb} {key : Str} (h : d.lookup (norm d.cm key) = none)
    (m : Memb) (q : Ptr) :
    countIn (d.store key m).vals q = countIn d.vals q + if q = m.u then 1 else 0 := by
  rw [countIn_perm (vals_store_new h m), countIn_cons]

theorem countIn_store_le (d : Dict 256 Memb) (key : Str) (m : Memb) (q : Ptr) :
    countIn (d.store key m).vals q ≤ countIn d.vals q + if q = m.u then 1 else 0 := by
  cases h : d.lookup (norm d.cm key) with
  | none => exact Nat.le_of_eq (countIn_store_new h m q)
  | some w =>
    have hp := countIn_perm (vals_store_old h m) q
    rw [countIn_cons, countIn_cons] at hp
    omega

theorem countIn_store_ne {d : Dict 256 Memb} {key : Str} {q : Ptr}
    (h : ∀ w, d.lookup (norm d.cm key) = some w → w.u ≠ q) (m : Memb) :
    countIn (d.store key m).vals q = countIn d.vals q + if q = m.u then 1 else 0 := by
  cases hl : d.lookup (norm d.cm key) with
  | none => exact countIn_store_new hl m q
  | some w =>
    have hp := countIn_perm (vals_store_old hl m) q
    rw [countIn_cons, countIn_cons, if_neg (h w hl).symm] at hp
    omega

theorem countIn_drop {d : Dict 256 Memb} {key : Str} {w : Memb}
    (h : d.lookup (norm d.cm key) = some w) (q : Ptr) :
    countIn (d.drop key).vals q + (if q = w.u then 1 else 0) = countIn d.vals q := by
  rw [← countIn_perm (vals_drop_some h), countIn_cons]

/-- A channel gets other members, and the users are counted accordingly. -/
theorem replaced (h : Inv cm tight b) {c : Ptr} (hc : c ∈ b.chans.vals) {ch ch' : Chan}
    (hch : b.chanHeap.get c = some ch) (hcm : ch'.memb.cm = ch.memb.cm) (hname : ch'.name = ch.name)
    {b' : Base} (hf : Frame (b.setChan c ch') b') {tight' : Ptr → Prop}
    (hcount : Counted cm tight' b' (refs (b.setChan c ch')) (Filed (b.setChan c ch'))) :
    Inv cm tight' b' ∧ Change b (Function.update (membAt b) c ch'.memb.lookup) b' := by
  constructor
  · refine ⟨by rwa [hf.refs, hf.filed], hf.chans ▸ h.chansCm, ?_, hf.chans ▸ h.nodup⟩
    rw [hf.chans, hf.chanHeap, Base.setChan, get_set hch]
    intro q hq
    by_cases hqc : q = c
    · obtain ⟨ch₀, hch₀, hcm₀⟩ := h.live c hc
      obtain rfl := Option.some.inj (hch.symm.trans hch₀)
      exact ⟨ch', by rw [hqc, Function.update_self], hcm.trans hcm₀⟩
    · rw [Function.update_of_ne hqc]
      exact h.live q hq
  · refine ⟨by rw [hf.chans]; rfl, ?_, ?_, hf.endofnames, hf.nick⟩
    · rw [hf.change.name, nameAt_setChan hch hname]
    · rw [hf.membAt, membAt_setChan hch]

theorem shrunk (h : Inv cm tight b) {c : Ptr} (hc : c ∈ b.chans.vals) {ch ch' : Chan}
    (hch : b.chanHeap.get c = some ch) (hcm : ch'.memb.cm = ch.memb.cm) (hname : ch'.name = ch.name)
    (hsub : ∀ κ m, ch'.memb.lookup κ = some m → ch.memb.lookup κ = some m) {b' : Base}
    (hf : Frame (b.setChan c ch') b') {tight' : Ptr → Prop}
    (hcount : Counted cm tight' b' (refs (b.setChan c ch')) (Filed b)) :
    Inv cm tight' b' ∧ Change b (Function.update (membAt b) c ch'.memb.lookup) b' := by
  refine replaced h hc hch hcm hname hf ⟨hcount.al, hcount.usersCm,
    hcount.roster.weaken (fun _ ht => ht) ?_⟩
  intro κ p hp
  obtain ⟨m, hm, hp⟩ | ⟨q, hq, _, m, hm, hp⟩ := filed_setChan hch hp
  · exact ⟨c, hc, m, by rw [membAt_eq hch, hsub κ m hm], hp⟩
  · exact ⟨q, hq, m, hm, hp⟩

theorem relabeled (h : Inv cm tight b) {c : Ptr} (hc : c ∈ b.chans.vals) {ch ch' : Chan}
    (hch : b.chanHeap.get c = some ch) (hmemb : ch'.memb = ch.memb) (hname : ch'.name = ch.name) :
    Inv cm tight (b.setChan c ch') ∧ Change b (membAt b) (b.setChan c ch') := by
  have hrefs : refs (b.setChan c ch') = refs b := by
    ext p
    have hp := refs_setChan h.nodup hc hch ch' p
    rw [hmemb] at hp
    omega
  have hsub : ∀ κ m, ch'.memb.lookup κ = some m → ch.memb.lookup κ = some m := by
    rw [hmemb]
    exact fun _ _ hm => hm
  have hcount := h.counted.setChan c ch'
  rw [← hrefs] at hcount
  have hout := shrunk h hc hch (by rw [hmemb]) hname hsub (Frame.refl _) hcount
  rwa [hmemb, ← membAt_eq hch, Function.update_eq_self] at hout

theorem addMemb_ok (h : Inv cm tight b) {c p : Ptr} {u : User} (hc : c ∈ b.chans.vals)
    (hu : b.userHeap.get p = some u) (mpfxstr : Str) {tight' : Ptr → Prop}
    (ht : ∀ q, tight' q → (∀ w, membAt b c (norm cm u.nick) = some w → w.u ≠ q) ∧
      (tight q ∨ q = p ∧ u.nchans = refs b p ∧ b.users.lookup (norm cm u.nick) = some p)) :
    Returns (addMemb b c p mpfxstr) fun r => r.1 = true ∧ Inv cm tight' r.2 ∧
      Change b (Function.update (membAt b) c (Function.update (membAt b c) (norm cm u.nick)
        (some ⟨p, strNcpy mpfxstr MAX_MODEPFX⟩))) r.2 ∧
      nickAt r.2 = nickAt b ∧ r.2.users = b.users := by
  obtain ⟨ch, hch, hcm⟩ := h.live c hc
  generalize hm : (⟨p, strNcpy mpfxstr MAX_MODEPFX⟩ : Memb) = m
  have hmu : m.u = p := by rw [← hm]
  generalize hch' : ({ ch with memb := ch.memb.store u.nick m } : Chan) = ch'
  have hmemb : ch'.memb = ch.memb.store u.nick m := by rw [← hch']
  have hlookup : ch'.memb.lookup = Function.update (membAt b c) (norm cm u.nick) (some m) := by
    rw [membAt_eq hch, hmemb, ← hcm, lookup_store]
  have hcount := refs_setChan h.nodup hc hch ch'
  have hle : ∀ q, refs (b.setChan c ch') q ≤ refs b q + if q = p then 1 else 0 := by
    intro q
    have hq := hcount q
    have hst := countIn_store_le ch.memb u.nick m q
    rw [hmemb] at hq
    rw [hmu] at hst
    omega
  have hr : Counted cm tight' ((b.setChan c ch').setUser p { u with nchans := u.nchans + 1 })
      (refs (b.setChan c ch')) (Filed (b.setChan c ch')) := by
    refine ⟨h.counted.al, h.counted.usersCm, ?_⟩
    rw [Base.setUser, get_set (h := (b.setChan c ch').userHeap) hu]
    refine @Roster.refer _ _ _ _ _ _ _ _ _ _ _ h.counted.roster _ _
      { u with nchans := u.nchans + 1 } hu rfl rfl _ _ _ hle ?_ ?_
    · intro κ q hq
      obtain ⟨w, hw, rfl⟩ | ⟨c', hc', _, w, hw, rfl⟩ := filed_setChan hch hq
      · rw [hlookup] at hw
        obtain ⟨rfl, rfl⟩ | ⟨_, hw⟩ := update_some hw
        · exact Or.inl ⟨rfl, hmu⟩
        · exact Or.inr ⟨c, hc, w, hw, rfl⟩
      · exact Or.inr ⟨c', hc', w, hw, rfl⟩
    · intro q hq
      obtain ⟨hne, hor⟩ := ht q hq
      refine ⟨?_, hor⟩
      rw [membAt_eq hch, ← hcm] at hne
      have hq := hcount q
      rw [hmemb, countIn_store_ne hne, hmu] at hq
      omega
  have hf :
      Frame (b.setChan c ch') ((b.setChan c ch').setUser p { u with nchans := u.nchans + 1 }) :=
    frame_setUser hu rfl
  have hcm' : ch'.memb.cm = ch.memb.cm := by rw [hmemb, cm_store]
  have hout := replaced h hc hch hcm' (by rw [← hch']) hf hr
  simp only [addMemb, malloc_eq h.counted.al, user_eq hu, chan_eq hch, ok_bind,
    h.counted.al, put_nil,
    hm, hch', noFail_eq h.counted.al]
  rw [← hlookup]
  exact Returns.ok ⟨rfl, hout.1, hout.2, nickAt_setUser hu rfl, rfl⟩

theorem dropMemb_ok (h : Inv cm tight b) {c p : Ptr} {u : User} (hc : c ∈ b.chans.vals)
    (hu : b.userHeap.get p = some u) {purge : Bool}
    (ht : purge = false → ∀ m, membAt b c (norm cm u.nick) = some m → ¬tight m.u) :
    Returns (dropMemb b c p purge) fun r =>
      Inv cm (fun q => tight q ∧ (purge = true → Listed r.2 q)) r.2 ∧ Fewer b r.2 ∧
      Change b
        (Function.update (membAt b) c (Function.update (membAt b c) (norm cm u.nick) none)) r.2 ∧
      (purge = false → nickAt r.2 = nickAt b ∧ r.2.users = b.users ∧ r.2.chans = b.chans) := by
  obtain ⟨ch, hch, hcm⟩ := h.live c hc
  simp only [dropMemb, user_eq hu, chan_eq hch, ok_bind, del_eq, hcm]
  have hlookup : (ch.memb.drop u.nick).lookup =
      Function.update (membAt b c) (norm cm u.nick) none := by
    rw [membAt_eq hch, lookup_drop, hcm]
  cases hl : ch.memb.lookup (norm cm u.nick) with
  | none =>
    have hsame : Function.update (membAt b c) (norm cm u.nick) none = membAt b c := by
      rw [Function.update_eq_self_iff, membAt_eq hch, hl]
    rw [hsame, Function.update_eq_self]
    exact Returns.ok ⟨h.loosen fun _ hq => hq.1, Fewer.of_eq rfl, (Frame.refl b).change,
      fun _ => ⟨rfl, rfl, rfl⟩⟩
  | some m =>
    rw [← hlookup]
    generalize hch' : ({ ch with memb := ch.memb.drop u.nick } : Chan) = ch'
    have hmemb : ch'.memb = ch.memb.drop u.nick := by rw [← hch']
    have hcount := refs_setChan h.nodup hc hch ch'
    have hone : ∀ q, refs (b.setChan c ch') q + (if q = m.u then 1 else 0) = refs b q := by
      intro q
      have hq := hcount q
      rw [hmemb, ← countIn_drop (hcm.symm ▸ hl)] at hq
      omega
    have hpos : 0 < refs b m.u := by
      rw [← hone, if_pos rfl]
      omega
    have hless : less (refs b) m.u = refs (b.setChan c ch') := by
      funext q
      rw [less, ← hone, ← hone q]
      split
      · next hq => rw [if_pos rfl, hq, Nat.add_sub_cancel]
      · rfl
    have hsub : ∀ κ w, ch'.memb.lookup κ = some w → ch.memb.lookup κ = some w := by
      intro κ w hw
      rw [hmemb, hlookup] at hw
      rw [← membAt_eq hch]
      exact (update_none hw).2
    have hstart : Counted cm tight (b.setChan c ch') (refs b) (Filed b) := h.counted.setChan c ch'
    have hcm' : ch'.memb.cm = ch.memb.cm := by rw [hmemb, cm_drop]
    have hkey : membAt b c (norm cm u.nick) = some m := by rw [membAt_eq hch, hl]
    have hend : ∀ b' tight', Frame (b.setChan c ch') b' →
        Counted cm tight' b' (less (refs b) m.u) (Filed b) →
        Inv cm tight' b' ∧
          Change b (Function.update (membAt b) c (ch.memb.drop u.nick).lookup) b' := by
      intro b' tight' hf hb'
      rw [hless] at hb'
      rw [← hmemb]
      exact shrunk h hc hch hcm' (by rw [← hch']) hsub hf hb'
    dsimp only
    rw [hch']
    cases purge with
    | true =>
      refine (unref_purge hstart hpos).bind ?_
      rintro b' ⟨hf, hfew, hb'⟩
      obtain ⟨hi, hch'⟩ := hend b' _ hf hb'
      exact Returns.ok ⟨hi.loosen fun _ hq => ⟨hq.1, hq.2 rfl⟩, hfew, hch', fun hne => by cases hne⟩
    | false =>
      refine (unref_keep hstart (ht rfl m hkey) hpos).bind ?_
      rintro b' ⟨hf, hn, hs, hb'⟩
      obtain ⟨hi, hch'⟩ := hend b' _ hf hb'
      exact Returns.ok ⟨hi.loosen fun _ hq => hq.1, Fewer.of_eq hs, hch',
        fun _ => ⟨hn, hs, hf.chans⟩⟩

theorem clearMemb_ok (h : Inv cm tight b) {c : Ptr} (hc : c ∈ b.chans.vals) :
    Returns (clearMemb b c) fun b' => Inv cm (fun q => tight q ∧ Listed b' q) b' ∧ Fewer b b' ∧
      Change b (Function.update (membAt b) c fun _ => none) b' := by
  obtain ⟨ch, hch, hcm⟩ := h.live c hc
  generalize hch₁ : ({ ch with memb := ch.memb.visit.2 } : Chan) = ch₁
  have hmemb₁ : ch₁.memb = ch.memb.visit.2 := by rw [← hch₁]
  have hvals₁ : ch₁.memb.vals = ch.memb.vals := by rw [hmemb₁, vals_visit]
  have hrefs₁ : refs (b.setChan c ch₁) = refs b := by
    funext q
    have := refs_setChan h.nodup hc hch ch₁ q
    rw [hvals₁] at this
    omega
  have hstart : Counted cm tight (b.setChan c ch₁) (refs b) (Filed b) := h.counted.setChan c ch₁
  have hget : (b.setChan c ch₁).chanHeap.get c = some ch₁ := by
    rw [Base.setChan, get_set hch, Function.update_self]
  simp only [clearMemb, chan_eq hch, ok_bind, hch₁]
  by_cases hnil : ch.memb.visit.1 = []
  · rw [if_pos hnil]
    have hempty : ch₁.memb.lookup = fun _ => none := by
      funext κ
      rw [Option.eq_none_iff_forall_ne_some]
      intro m hm
      have hmem := (mem_vals _ _).2 ⟨κ, hm⟩
      rw [hvals₁, ← visit_fst, hnil] at hmem
      cases hmem
    rw [← hempty]
    have hsub : ∀ κ m, ch₁.memb.lookup κ = some m → ch.memb.lookup κ = some m := by
      intro κ m hm
      rwa [hmemb₁, lookup_visit] at hm
    rw [← hrefs₁] at hstart
    obtain ⟨hi, hch'⟩ := shrunk h hc hch (by rw [hmemb₁, cm_visit]) (by rw [← hch₁]) hsub
      (Frame.refl _) hstart
    exact Returns.ok ⟨hi.loosen fun _ hq => hq.1, Fewer.of_eq rfl, hch'⟩
  · rw [if_neg hnil, visit_fst]
    generalize hch₂ : ({ ch₁ with memb := ch₁.memb.clear } : Chan) = ch₂
    have hmemb₂ : ch₂.memb = ch₁.memb.clear := by rw [← hch₂]
    have hsplit : refs b = fun q => refs (b.setChan c ch₂) q + countIn ch.memb.vals q := by
      funext q
      have := refs_setChan h.nodup hc hch ch₂ q
      rw [hmemb₂, vals_clear, countIn, countIn, List.countP_nil] at this
      rw [countIn]
      omega
    rw [hsplit] at hstart
    refine (unrefAll_ok ch.memb.vals hstart).bind ?_
    rintro b' ⟨hf, hfew, hb'⟩
    have hget' : b'.chanHeap.get c = some ch₁ := by rw [hf.chanHeap, hget]
    rw [chan_eq hget', ok_bind, hch₂]
    have hempty : ch₂.memb.lookup = fun _ => none := by rw [hmemb₂, lookup_clear]
    rw [← hempty]
    have hframe : Frame (b.setChan c ch₂) (b'.setChan c ch₂) := by
      refine ⟨hf.chans, ?_, hf.endofnames, hf.nick⟩
      rw [Base.setChan, Base.setChan, hf.chanHeap, Base.setChan, set_set]
    have hcm₂ : ch₂.memb.cm = ch.memb.cm := by rw [hmemb₂, cm_clear, hmemb₁, cm_visit]
    have hsub : ∀ κ m, ch₂.memb.lookup κ = some m → ch.memb.lookup κ = some m := by
      intro κ m hm
      rw [hempty] at hm
      cases hm
    obtain ⟨hi, hch'⟩ :=
      shrunk h hc hch hcm₂ (by rw [← hch₂, ← hch₁]) hsub hframe (hb'.setChan c ch₂)
    exact Returns.ok ⟨hi, hfew, hch'⟩

end Srsirc.MemberOps
