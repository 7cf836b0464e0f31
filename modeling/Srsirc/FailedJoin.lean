import Srsirc.Allocations
import Srsirc.Coherence
import Srsirc.TrackSafety

namespace Srsirc.FailedJoin

open Allocations CharMap Coherence Dictionary Fallible HeapCells Members MemberOps Message
open ServerInfo
open Track TrackSafety UserBase UserLifetime

/-- The channels, the users and the members are the same, and so are the records of the users. -/
structure Unchanged (b b' : Base) : Prop where
  chans : b'.chans.lookup = b.chans.lookup
  users : b'.users.lookup = b.users.lookup
  memb : membAt b' = membAt b
  user : b'.userHeap.get = b.userHeap.get

variable {cm : CMap} {b : Base}

theorem Unchanged.refl (b : Base) : Unchanged b b := ⟨rfl, rfl, rfl, rfl⟩

theorem unchanged_alloc (b : Base) (al : BucketList.Alloc) : Unchanged b { b with al } :=
  ⟨rfl, rfl, rfl, rfl⟩

theorem malloc_base (b : Base) :
    b.malloc = ((BucketList.malloc b.al).1, { b with al := b.al.drop 1 }) := by
  rw [Base.malloc, malloc_snd]

theorem allocChan_base (b : Base) : ∃ ok al, allocChan b = (ok, { b with al }) := by
  simp only [allocChan, malloc_base]
  cases BucketList.malloc b.al with
  | mk ok₁ _ =>
    cases ok₁ with
    | false => exact ⟨_, _, rfl⟩
    | true =>
      simp only [Bool.not_true, Bool.false_eq_true, if_false]
      split
      · exact ⟨_, _, rfl⟩
      · split <;> exact ⟨_, _, rfl⟩

theorem addChan_none (b : Base) (cm : CMap) (name : Str) :
    (addChan b cm name).1 = none → Unchanged b (addChan b cm name).2 := by
  obtain ⟨ok, al, halloc⟩ := allocChan_base b
  rw [addChan, halloc]
  cases ok with
  | false => exact fun _ => unchanged_alloc b al
  | true =>
    dsimp only
    cases hput : b.chans.put name b.chanHeap.next al with
    | mk stored r =>
      obtain ⟨chans, al'⟩ := r
      cases stored with
      | false =>
        obtain ⟨rfl, _⟩ := put_false hput
        exact fun _ => unchanged_alloc b al'
      | true => exact fun hnone => absurd hnone (Option.some_ne_none _)

theorem addMemb_false {c p : Ptr} {u : User} {ch : Chan} (hu : b.userHeap.get p = some u)
    (hch : b.chanHeap.get c = some ch) (mpfx : Str) :
    Returns (addMemb b c p mpfx) fun r => r.1 = false → ∃ al, r.2 = { b with al } := by
  simp only [addMemb, malloc_base]
  cases (BucketList.malloc b.al).1 with
  | false => exact Returns.ok fun _ => ⟨_, rfl⟩
  | true =>
    have hu' : ({ b with al := b.al.drop 1 } : Base).userHeap.get p = some u := hu
    have hch' : ({ b with al := b.al.drop 1 } : Base).chanHeap.get c = some ch := hch
    simp only [user_eq hu', chan_eq hch', ok_bind]
    cases hput : ch.memb.put u.nick ⟨p, strNcpy mpfx MAX_MODEPFX⟩ (b.al.drop 1) with
    | mk stored r =>
      obtain ⟨memb, al⟩ := r
      cases stored with
      | true => exact Returns.ok fun hf => by cases hf
      | false =>
        obtain ⟨rfl, _⟩ := put_false hput
        refine Returns.ok fun _ => ⟨al, ?_⟩
        dsimp only [Base.setChan]
        rw [set_same hch]

theorem touchUserInt_keeps {p : Ptr} {u : User} (hu : b.userHeap.get p = some u) (ident : Str) :
    Returns (touchUserInt b p ident) fun b' =>
      ∃ u' al, b' = Base.setUser { b with al } p u' ∧ u'.nick = u.nick := by
  simp only [touchUserInt, user_eq hu, ok_bind, Base.strdup, malloc_base]
  have hout : ∀ (u' : User) (al : BucketList.Alloc), u'.nick = u.nick →
      Returns (.ok (Base.setUser { b with al } p u') : Except Fault Base) fun b' =>
        ∃ u' al, b' = Base.setUser { b with al } p u' ∧ u'.nick = u.nick :=
    fun u' al hn => Returns.ok ⟨u', al, rfl, hn⟩
  by_cases huname : u.uname = none ∧ 0x21 ∈ ident
  · simp only [if_pos huname]
    by_cases hhost : u.host = none ∧ 0x40 ∈ ident
    · simp only [if_pos hhost]
      exact hout _ _ rfl
    · simp only [if_neg hhost]
      exact hout _ _ rfl
  · simp only [if_neg huname]
    by_cases hhost : u.host = none ∧ 0x40 ∈ ident
    · simp only [if_pos hhost]
      exact hout _ _ rfl
    · simp only [if_neg hhost]
      exact hout _ b.al rfl

structure Added (cm : CMap) (b : Base) (nick : Str) (p : Ptr) (b' : Base) : Prop where
  ptr : p = b.userHeap.next
  chans : b'.chans = b.chans
  chanHeap : b'.chanHeap = b.chanHeap
  usersCm : b'.users.cm = cm
  users : b'.users.lookup = Function.update b.users.lookup (norm cm nick) (some p)
  user : ∃ u, b'.userHeap.get = Function.update b.userHeap.get p (some u) ∧ u.nick = nick

theorem addUser_added (h : b.users.cm = cm) (ident : Str) :
    Returns (addUser b ident) fun r => match r.1 with
      | none => Unchanged b r.2
      | some p => Added cm b (ident2nick MAX_NICK_LEN ident) p r.2 := by
  simp only [addUser, malloc_base]
  cases (BucketList.malloc b.al).1 with
  | false => exact Returns.ok (unchanged_alloc b _)
  | true =>
    dsimp only
    cases (BucketList.malloc (b.al.drop 1)).1 with
    | false => exact Returns.ok (unchanged_alloc b _)
    | true =>
      dsimp only
      cases hput :
        b.users.put (ident2nick MAX_NICK_LEN ident) b.userHeap.next ((b.al.drop 1).drop 1) with
      | mk stored r =>
        obtain ⟨users, al⟩ := r
        cases stored with
        | false =>
          obtain ⟨rfl, _⟩ := put_false hput
          exact Returns.ok (unchanged_alloc b al)
        | true =>
          obtain rfl := put_true hput
          dsimp only
          generalize hb₁ : ({ b with
            users := b.users.store (ident2nick MAX_NICK_LEN ident) b.userHeap.next, al,
            userHeap :=
              b.userHeap.new ⟨ident2nick MAX_NICK_LEN ident, none, none, none, 0, none, false⟩ } :
            Base) = b₁
          have hget : b₁.userHeap.get = Function.update b.userHeap.get b.userHeap.next
              (some ⟨ident2nick MAX_NICK_LEN ident, none, none, none, 0, none, false⟩) := by
            rw [← hb₁, get_new]
          have hnew := congrFun hget b.userHeap.next
          rw [Function.update_self] at hnew
          refine (touchUserInt_keeps hnew ident).bind ?_
          rintro b' ⟨u', al', hb', hnick⟩
          refine Returns.ok ⟨rfl, ?_, ?_, ?_, ?_, u', ?_, hnick⟩
          · rw [hb', ← hb₁]
            rfl
          · rw [hb', ← hb₁]
            rfl
          · rw [hb', ← hb₁]
            exact (cm_store ..).trans h
          · rw [hb', ← hb₁, ← h]
            exact lookup_store ..
          · rw [hb', Base.setUser, get_set hnew, hget, Function.update_idem]

theorem dropMembs_none {p : Ptr} {u : User} (hu : b.userHeap.get p = some u) (cs : List Ptr)
    (hcs : ∀ c ∈ cs, ∃ ch, b.chanHeap.get c = some ch ∧
      ch.memb.lookup (norm ch.memb.cm u.nick) = none) :
    dropMembs p cs b = .ok b := by
  induction cs with
  | nil => rfl
  | cons c cs ih =>
    obtain ⟨ch, hch, hnone⟩ := hcs c List.mem_cons_self
    simp only [dropMembs, dropMemb, user_eq hu, chan_eq hch, ok_bind, del_eq, hnone]
    exact ih fun d hd => hcs d (List.mem_cons_of_mem c hd)

/-- The roll-back: the new user goes, and no member with it, as there was none under its key. -/
theorem dropUser_undoes (h : Agreed cm b) {nick : Str}
    (hfree : b.users.lookup (norm cm nick) = none)
    {p : Ptr} {b' : Base} (ha : Added cm b nick p b') :
    Returns (dropUser b' p) fun r => Unchanged b r.2 := by
  obtain ⟨u, hget, rfl⟩ := ha.user
  have hu : b'.userHeap.get p = some u := by rw [hget, Function.update_self]
  have hl : b'.users.lookup (norm cm u.nick) = some p := by rw [ha.users, Function.update_self]
  have hlost : Function.update b'.users.lookup (norm cm u.nick) none = b.users.lookup := by
    rw [ha.users, Function.update_idem, ← hfree, Function.update_eq_self]
  have hfreed : Function.update b'.userHeap.get p none = b.userHeap.get := by
    rw [hget, Function.update_idem, ha.ptr, ← get_next, Function.update_eq_self]
  simp only [dropUser, user_eq hu, ok_bind, del_eq, ha.usersCm, hl, visit_fst]
  generalize hb₁ :
    ({ b' with users := b'.users.drop u.nick, chans := b'.chans.visit.2 } : Base) = b₁
  have hu₁ : b₁.userHeap.get p = some u := by rw [← hb₁, hu]
  have hnone : ∀ c ∈ b'.chans.vals, ∃ ch, b₁.chanHeap.get c = some ch ∧
      ch.memb.lookup (norm ch.memb.cm u.nick) = none := by
    intro c hc
    rw [ha.chans] at hc
    obtain ⟨ch, hch, hcm⟩ := h.chan c hc
    refine ⟨ch, by rw [← hb₁]; exact ha.chanHeap ▸ hch, ?_⟩
    rw [hcm, Option.eq_none_iff_forall_ne_some]
    intro m hm
    rw [← membAt_eq hch] at hm
    obtain ⟨hlm, _⟩ := h.memb c hc _ m hm
    rw [hfree] at hlm
    cases hlm
  rw [dropMembs_none hu₁ _ hnone, ok_bind, freeUser_eq hu₁, ok_bind]
  refine Returns.ok ⟨?_, ?_, ?_, ?_⟩
  · rw [← hb₁, ← ha.chans]
    exact lookup_visit _
  · rw [← hlost, ← ha.usersCm, ← lookup_drop, ← hb₁]
  · funext c
    rw [membAt, membAt, ← hb₁, ← ha.chanHeap]
  · rw [← hb₁, ← hfreed]
    exact get_free ..

theorem nameOf353_false (h : Agreed cm b) {c : Ptr} (hc : c ∈ b.chans.vals) {ident : Str}
    (hkey : norm cm (ident2nick MAX_NICK_LEN ident) = norm cm ident) (mpfx : Str) :
    Returns (nameOf353 b c ident mpfx) fun r => r.1 = false → Unchanged b r.2 := by
  obtain ⟨ch, hch, _⟩ := h.chan c hc
  cases hp : getUser b ident with
  | some p =>
    have hl : b.users.lookup (norm cm ident) = some p := by rwa [getUser, get_eq, h.usersCm] at hp
    obtain ⟨u, hu⟩ := h.user _ p hl
    simp only [nameOf353, hp]
    refine (addMemb_false hu hch mpfx).mono fun r hr hf => ?_
    obtain ⟨al, hb'⟩ := hr hf
    rw [hb']
    exact unchanged_alloc b al
  | none =>
    have hfree : b.users.lookup (norm cm (ident2nick MAX_NICK_LEN ident)) = none := by
      rwa [getUser, get_eq, h.usersCm, ← hkey] at hp
    simp only [nameOf353, hp]
    refine (addUser_added h.usersCm ident).bind fun r hr => ?_
    obtain ⟨added, b₁⟩ := r
    cases added with
    | none => exact Returns.ok fun _ => hr
    | some p =>
      have ha : Added cm b (ident2nick MAX_NICK_LEN ident) p b₁ := hr
      obtain ⟨u, hget, _⟩ := ha.user
      have hu₁ : b₁.userHeap.get p = some u := by rw [hget, Function.update_self]
      have hch₁ : b₁.chanHeap.get c = some ch := by rw [ha.chanHeap, hch]
      refine (addMemb_false hu₁ hch₁ mpfx).bind fun r hr => ?_
      obtain ⟨ok, b₂⟩ := r
      cases ok with
      | true => exact Returns.ok fun hf => by cases hf
      | false =>
        obtain ⟨al, rfl⟩ := hr rfl
        have ha₂ : Added cm b (ident2nick MAX_NICK_LEN ident) p { b₁ with al } :=
          ⟨ha.ptr, ha.chans, ha.chanHeap, ha.usersCm, ha.users, ha.user⟩
        exact (dropUser_undoes h hfree ha₂).bind fun r hr => Returns.ok fun _ => hr

theorem norm_fits {ident : Str} (h : (ident2nick (ident.length + 1) ident).length < MAX_NICK_LEN) :
    norm cm (ident2nick MAX_NICK_LEN ident) = norm cm ident := by
  have hwhole : norm cm (ident2nick (ident.length + 1) ident) = norm cm ident := by
    rw [norm_ident2nick, Nat.add_sub_cancel, List.take_of_length_le (norm_length_le cm ident)]
  rw [norm_ident2nick, List.take_of_length_le]
  rw [← hwhole]
  exact (norm_length_le cm _).trans (Nat.le_pred_of_lt h)

/-- A JOIN for which there is not enough memory changes nothing. -/
theorem failed_join (h : Agreed cm b) (info : Info) (msg : Msg)
    (hnick : ∀ ident, msg.fld 0 = .ok ident →
      (ident2nick (ident.length + 1) ident).length < MAX_NICK_LEN) :
    Returns (h_JOIN info msg msg.nargs b) fun r => r.1 = ALLOC_ERR → Unchanged b r.2 := by
  by_cases hg : (!msg.present 0) = true ∨ msg.nargs < 3
  · rw [h_JOIN, if_pos hg]
    exact Returns.ok fun _ => Unchanged.refl b
  obtain ⟨h0, hargs⟩ := Msg.not_guard hg
  obtain ⟨ident, hident⟩ := Msg.fld_ok h0
  obtain ⟨name, hname⟩ := @Msg.fld_of_lt msg 2 (by omega) (by omega)
  cases hc : getChan b name with
  | none =>
    simp only [h_JOIN, if_neg hg, hident, hname, ok_bind, hc]
    refine Returns.ite (fun _ => ?_) fun _ => Returns.ok fun _ => Unchanged.refl b
    have hnone := addChan_none b info.casemap name
    cases hadd : addChan b info.casemap name with
    | mk added b' =>
      rw [hadd] at hnone
      cases added with
      | none => exact Returns.ok fun _ => hnone rfl
      | some c => exact Returns.ok fun hf => by cases hf
  | some c =>
    cases hme : isMe info (ident2nick MAX_NICK_LEN ident) with
    | true =>
      simp only [h_JOIN, if_neg hg, hident, hname, ok_bind, hc, hme, if_true]
      exact Returns.ok fun _ => Unchanged.refl b
    | false =>
      rw [h_JOIN_other h0 hargs hident hname hme hc]
      refine (nameOf353_false h (Tally.mem_of_getChan hc)
        (norm_fits (hnick ident hident)) []).bind ?_
      rintro ⟨ok, b'⟩ hr
      cases ok with
      | false => exact Returns.ok fun _ => hr rfl
      | true => exact Returns.ok fun hf => by cases hf

/-- How the allocations do where there is memory for a user, but not for a member. -/
def scarce : BucketList.Alloc := [true, true, true, true, true, true, true, false]

def bobJoins : Msg := .ofLine (ascii ":bob!u@h JOIN #a")

theorem failed_join_single : ∃ b, h_JOIN Info.init bobJoins bobJoins.nargs (single scarce) =
    .ok (ALLOC_ERR, b) ∧
    Unchanged (single scarce) b := by
  have hfst : ((h_JOIN Info.init bobJoins bobJoins.nargs (single scarce)).map Prod.fst).toOption =
      some ALLOC_ERR := by
    decide +kernel
  have hbob : bobJoins.fld 0 = .ok (ascii "bob!u@h") := by decide +kernel
  obtain ⟨r, hrun, hr⟩ :=
    failed_join (single_agreed scarce) Info.init bobJoins fun ident hident => by
    obtain rfl := Except.ok.inj (hident.symm.trans hbob)
    decide
  rw [hrun] at hfst
  have hflags : r.1 = ALLOC_ERR := Option.some.inj hfst
  exact ⟨r.2, by rw [hrun, ← hflags], hr hflags⟩

end Srsirc.FailedJoin
