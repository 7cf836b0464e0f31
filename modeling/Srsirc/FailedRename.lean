import Srsirc.Allocations
import Srsirc.Coherence
import Srsirc.RenameOps

namespace Srsirc.FailedRename

open Allocations CharMap Coherence Dictionary Fallible HeapCells Members MemberOps Message UserBase
open UserLifetime

def SameNicks (b b' : Base) : Prop :=
  nickAt b' = nickAt b ∧ b'.users.lookup = b.users.lookup ∧ membAt b' = membAt b

def roomAt (b : Base) (ident newnick : Str) (c : Ptr) : Nat :=
  match b.chanHeap.get c with
  | none => 0
  | some ch => if (ch.memb.get ident).isSome then room ch.memb.map newnick else 0

/-- The allocations of a renaming: the new nick, and its entries in all the maps. -/
def renameRoom (b : Base) (ident newnick : Str) : Nat :=
  1 + (room b.users.map newnick + (b.chans.vals.map (roomAt b ident newnick)).sum)

variable {cm : CMap} {b : Base}

theorem roomAt_setChan {c d : Ptr} {ch : Chan} (hch : b.chanHeap.get c = some ch) (hd : d ≠ c)
    (ch' : Chan)
    (al : BucketList.Alloc) (ident newnick : Str) :
    roomAt (Base.setChan { b with al } c ch') ident newnick d = roomAt b ident newnick d := by
  rw [roomAt, roomAt, Base.setChan, get_set hch, Function.update_of_ne hd]

/-- The loop fails exactly if an allocation does, and then at a channel where the new nick
is another key than the old one. -/
theorem renameMembs_room (ident newnick : Str) (cs : List Ptr) {b : Base} (hn : cs.Nodup)
    (hl : ∀ c ∈ cs, ∃ ch, b.chanHeap.get c = some ch ∧ ch.memb.cm = cm) :
    Returns (renameMembs ident newnick cs b) fun r =>
      r.1 = decide (Granted (cs.map (roomAt b ident newnick)).sum b.al) ∧
        r.2.2.userHeap = b.userHeap ∧
        (r.1 = false → norm cm newnick ≠ norm cm ident) := by
  induction cs generalizing b with
  | nil => exact Returns.ok ⟨(decide_eq_true (granted_zero b.al)).symm, rfl, fun h => by cases h⟩
  | cons c cs ih =>
    obtain ⟨ch, hch, rfl⟩ := hl c List.mem_cons_self
    obtain ⟨hc, hn⟩ := List.nodup_cons.1 hn
    simp only [renameMembs, chan_eq hch, ok_bind, List.map_cons, List.sum_cons]
    cases hg : ch.memb.get ident with
    | none =>
      have hroom : roomAt b ident newnick c = 0 := by simp [roomAt, hch, hg]
      rw [hroom, Nat.zero_add]
      exact ih hn fun d hd => hl d (List.mem_cons_of_mem c hd)
    | some m =>
      have hroom : roomAt b ident newnick c = room ch.memb.map newnick := by simp [roomAt, hch, hg]
      rw [hroom]
      by_cases hput : Granted (room ch.memb.map newnick) b.al
      · simp only [put_granted hput]
        generalize hb₁ : Base.setChan { b with al := b.al.drop (room ch.memb.map newnick) } c
          { ch with memb := ((ch.memb.store newnick m).del ident).2 } = b₁
        have hrest : cs.map (roomAt b₁ ident newnick) = cs.map (roomAt b ident newnick) := by
          refine List.map_congr_left fun d hd => ?_
          rw [← hb₁]
          refine roomAt_setChan hch ?_ _ _ _ _
          rintro rfl
          exact hc hd
        have hal : b₁.al = b.al.drop (room ch.memb.map newnick) := by rw [← hb₁]; rfl
        have huser : b₁.userHeap = b.userHeap := by rw [← hb₁]; rfl
        refine (ih (b := b₁) hn fun d hd => ?_).mono ?_
        · obtain ⟨chd, hchd, hcm⟩ := hl d (List.mem_cons_of_mem c hd)
          refine ⟨chd, ?_, hcm⟩
          rw [← hb₁, Base.setChan, get_set hch, Function.update_of_ne, hchd]
          rintro rfl
          exact hc hd
        · rintro r ⟨hr, hheap, hne⟩
          refine ⟨?_, hheap.trans huser, hne⟩
          rw [hr, hrest, hal]
          simp only [granted_add, hput, true_and]
      · obtain ⟨hnone, al', hput'⟩ := put_refused hput m
        simp only [hput']
        refine Returns.ok ⟨?_, rfl, fun _ he => ?_⟩
        · simp only [granted_add, hput, false_and, decide_false]
        · rw [get_eq, ← he, hnone] at hg
          cases hg

theorem renameUser_room (h : Coherent cm b) {ident newnick : Str} {p : Ptr}
    (hp : getUser b ident = some p)
    (hcase : istrcmp (ident2nick MAX_NICK_LEN ident) newnick cm ≠ 0)
      (hal : (BucketList.malloc b.al).1 = true) :
    Returns (renameUser b cm ident newnick) fun r =>
      r.1 = decide (Granted (renameRoom b ident newnick) b.al) ∧
        (r.1 = false → nickAt r.2.2 ≠ nickAt b) := by
  have hl := h.lookup hp
  obtain ⟨u, hu, hkey⟩ := h.user _ p hl
  have hdrop := malloc_snd b.al
  have hone : Granted 1 b.al := (granted_succ 0 b.al).2 ⟨hal, granted_zero _⟩
  -- the record has its new nick, which is another one if it has another key
  have hnick : ∀ b' : Base, b'.userHeap = b.userHeap.set p { u with nick := newnick } →
      norm cm newnick ≠ norm cm ident → nickAt b' ≠ nickAt b := by
    intro b' hb' hne he
    have hat := congrFun he p
    rw [nickAt, nickAt, hb', get_set hu, Function.update_self, hu] at hat
    have hat : newnick = u.nick := Option.some.inj hat
    exact hne (hat ▸ hkey)
  simp only [renameUser, hp, user_eq hu, ok_bind, hcase, if_false, Base.malloc, hal, renameRoom,
    granted_add 1, hone, true_and, hdrop]
  by_cases hput : Granted (room b.users.map newnick) (b.al.drop 1)
  · simp only [Base.setUser, put_granted hput, visit_fst]
    generalize hb₁ : ({ b with
      users := ((b.users.store newnick p).del ident).2, userHeap :=
        b.userHeap.set p { u with nick := newnick },
      chans := b.chans.visit.2, al := (b.al.drop 1).drop (room b.users.map newnick) } : Base) = b₁
    have hheap₁ : b₁.chanHeap = b.chanHeap := by rw [← hb₁]
    have huser₁ : b₁.userHeap = b.userHeap.set p { u with nick := newnick } := by rw [← hb₁]
    have hal₁ : b₁.al = (b.al.drop 1).drop (room b.users.map newnick) := by rw [← hb₁]
    have hroom : roomAt b₁ ident newnick = roomAt b ident newnick := by
      funext c
      rw [roomAt, roomAt, hheap₁]
    refine (renameMembs_room ident newnick b.chans.vals h.nodup (b := b₁) (hheap₁ ▸ h.chan)).mono ?_
    rintro r ⟨hr, hheap, hne⟩
    refine ⟨?_, fun hf => hnick _ (hheap.trans huser₁) (hne hf)⟩
    rw [hr, hroom, hal₁]
    simp only [granted_add, hput, true_and]
  · obtain ⟨hnone, al', hput'⟩ := put_refused hput p
    simp only [Base.setUser, hput']
    refine Returns.ok ⟨?_, fun _ => hnick _ rfl ?_⟩
    · simp only [granted_add, hput, false_and, decide_false]
    · intro he
      rw [h.usersCm, he, hl] at hnone
      cases hnone

/-- A failed renaming changes nothing if and only if it is the copy of the new nick that fails. -/
theorem failed_rename_iff (h : Coherent cm b) {ident newnick : Str}
    (hp : (getUser b ident).isSome) :
    Returns (renameUser b cm ident newnick) (fun r => r.1 = false → SameNicks b r.2.2) ↔
      istrcmp (ident2nick MAX_NICK_LEN ident) newnick cm = 0 ∨ (BucketList.malloc b.al).1 = false ∨
        Granted (renameRoom b ident newnick) b.al := by
  obtain ⟨p, hp⟩ := Option.isSome_iff_exists.1 hp
  obtain ⟨u, hu, _⟩ := h.user _ p (h.lookup hp)
  by_cases hcase : istrcmp (ident2nick MAX_NICK_LEN ident) newnick cm = 0
  · simp only [renameUser, hp, user_eq hu, ok_bind, hcase, if_true, true_or, iff_true]
    exact Returns.ok fun hf => by cases hf
  simp only [hcase, false_or]
  cases hal : (BucketList.malloc b.al).1 with
  | false =>
    simp only [renameUser, hp, user_eq hu, ok_bind, hcase, if_false, Base.malloc, hal,
      true_or, iff_true]
    exact Returns.ok fun _ => ⟨rfl, rfl, rfl⟩
  | true =>
    obtain ⟨r, hrun, hr, hchanged⟩ := renameUser_room h hp hcase hal
    simp only [Bool.true_eq_false, false_or]
    constructor
    · rintro ⟨r', hrun', hsame⟩
      obtain rfl := Except.ok.inj (hrun.symm.trans hrun')
      by_contra hg
      rw [decide_eq_false hg] at hr
      exact hchanged hr (hsame hr).1
    · intro hg
      refine ⟨r, hrun, fun hf => ?_⟩
      rw [decide_eq_true hg, hf] at hr
      cases hr

theorem failed_rename_single :
    Returns (renameUser (single [false]) .rfc1459 (ascii "ann!u@h") (ascii "bob")) (fun r =>
      r.1 = false → SameNicks (single [false]) r.2.2) :=
  (failed_rename_iff (single_coherent [false]) (by rw [getUser_single]; decide)).2
    (Or.inr (Or.inl rfl))

/-- There is no memory for the entry in the user map, after the record has got its new nick. -/
theorem rename_torn : ¬∀ (cm : CMap) (b : Base) (ident newnick : Str), Coherent cm b →
    (getUser b ident).isSome → (∀ p, getUser b newnick = some p → getUser b ident = some p) →
    Returns (renameUser b cm ident newnick) fun r => r.1 = false → SameNicks b r.2.2 := by
  intro h
  have hident : getUser (single [true, false]) (ascii "ann!u@h") = some 0 := getUser_single ..
  have hnew : getUser (single [true, false]) (ascii "bob") = none := getUser_single ..
  have hcoh := single_coherent [true, false]
  obtain ⟨r, hrun, hsame⟩ := h _ _ _ (ascii "bob") hcoh (by rw [hident]; rfl) fun p hp => by
    rw [hnew] at hp
    cases hp
  obtain ⟨r', hrun', hr, hchanged⟩ :=
    @renameUser_room _ _ hcoh _ (ascii "bob") _ hident (by decide) rfl
  obtain rfl := Except.ok.inj (hrun.symm.trans hrun')
  have hfail : r.1 = false := hr.trans (decide_eq_false (by decide +kernel))
  exact hchanged hfail (hsame hfail).1

end Srsirc.FailedRename
