import Srsirc.Fallible
import Srsirc.RefCount
import Srsirc.UserBase

namespace Srsirc.Members

open CharMap Dictionary Fallible HeapCells RefCount UserBase

def nickAt (b : Base) (p : Ptr) : Option Str := (b.userHeap.get p).map User.nick

def nameAt (b : Base) (c : Ptr) : Option Str := (b.chanHeap.get c).map Chan.name

/-- The members of the channel at `c`, under the keys they are filed under. -/
def membAt (b : Base) (c : Ptr) : Str → Option Memb :=
  match b.chanHeap.get c with
  | none => fun _ => none
  | some ch => ch.memb.lookup

def membersOf (b : Base) (c : Ptr) : List Memb :=
  match b.chanHeap.get c with
  | none => []
  | some ch => ch.memb.vals

def countIn (ms : List Memb) (p : Ptr) : Nat := ms.countP fun m => m.u = p

/-- The number of memberships of the user at `p`. -/
def refs (b : Base) (p : Ptr) : Nat := (b.chans.vals.map fun c => countIn (membersOf b c) p).sum

/-- Some channel has the user at `p` under the key `κ`. -/
def Filed (b : Base) (κ : Str) (p : Ptr) : Prop :=
  ∃ c ∈ b.chans.vals, ∃ m, membAt b c κ = some m ∧ m.u = p

/-- The users are counted and found, by `R` and `F`. -/
structure Counted (cm : CMap) (tight : Ptr → Prop) (b : Base) (R : Ptr → Nat)
    (F : Str → Ptr → Prop) : Prop where
  al : b.al = []
  usersCm : b.users.cm = cm
  roster : Roster (fun u => norm cm u.nick) User.nchans tight b.users.lookup b.userHeap.get R F

/-- What every message leaves intact. -/
structure Inv (cm : CMap) (tight : Ptr → Prop) (b : Base) : Prop where
  counted : Counted cm tight b (refs b) (Filed b)
  chansCm : b.chans.cm = cm
  live : ∀ c ∈ b.chans.vals, ∃ ch, b.chanHeap.get c = some ch ∧ ch.memb.cm = cm
  nodup : b.chans.vals.Nodup

/-- The user at `p` is found under some key. -/
def Listed (b : Base) (p : Ptr) : Prop := ∃ κ, b.users.lookup κ = some p

def Fewer (b b' : Base) : Prop := ∀ κ p, b'.users.lookup κ = some p → b.users.lookup κ = some p

/-- Nothing is changed but users, who keep their nick as long as they stay. -/
structure Frame (b b' : Base) : Prop where
  chans : b'.chans = b.chans
  chanHeap : b'.chanHeap = b.chanHeap
  endofnames : b'.endofnames = b.endofnames
  nick : ∀ p n, nickAt b' p = some n → nickAt b p = some n

/-- The channels are the same, their members are now `members`, and users keep their nick. -/
structure Change (b : Base) (members : Ptr → Str → Option Memb) (b' : Base) : Prop where
  chans : b'.chans.lookup = b.chans.lookup
  name : nameAt b' = nameAt b
  memb : membAt b' = members
  endofnames : b'.endofnames = b.endofnames
  nick : ∀ p n, nickAt b' p = some n → nickAt b p = some n

theorem Counted.setChan {cm : CMap} {tight : Ptr → Prop} {b : Base} {R : Ptr → Nat}
    {F : Str → Ptr → Prop} (h : Counted cm tight b R F) (c : Ptr) (ch : Chan) :
    Counted cm tight (b.setChan c ch) R F := ⟨h.al, h.usersCm, h.roster⟩

theorem Counted.loosen {cm : CMap} {tight tight' : Ptr → Prop} {b : Base} {R : Ptr → Nat}
    {F : Str → Ptr → Prop} (h : Counted cm tight b R F) (ht : ∀ q, tight' q → tight q) :
    Counted cm tight' b R F := ⟨h.al, h.usersCm, h.roster.weaken ht fun _ _ hf => hf⟩

theorem Inv.loosen {cm : CMap} {tight tight' : Ptr → Prop} {b : Base} (h : Inv cm tight b)
    (ht : ∀ q, tight' q → tight q) : Inv cm tight' b :=
  ⟨h.counted.loosen ht, h.chansCm, h.live, h.nodup⟩

theorem Frame.refl (b : Base) : Frame b b := ⟨rfl, rfl, rfl, fun _ _ h => h⟩

theorem Frame.trans {a b c : Base} (h : Frame a b) (h' : Frame b c) : Frame a c :=
  ⟨h'.chans.trans h.chans, h'.chanHeap.trans h.chanHeap, h'.endofnames.trans h.endofnames,
    fun p n hp => h.nick p n (h'.nick p n hp)⟩

theorem Frame.membAt {b b' : Base} (h : Frame b b') : membAt b' = membAt b := by
  funext c
  rw [Members.membAt, Members.membAt, h.chanHeap]

theorem Frame.membersOf {b b' : Base} (h : Frame b b') : membersOf b' = membersOf b := by
  funext c
  rw [Members.membersOf, Members.membersOf, h.chanHeap]

theorem Frame.refs {b b' : Base} (h : Frame b b') : refs b' = refs b := by
  funext p
  rw [Members.refs, Members.refs, h.chans, h.membersOf]

theorem Frame.filed {b b' : Base} (h : Frame b b') : Filed b' = Filed b := by
  funext κ p
  rw [Filed, Filed, h.chans, h.membAt]

theorem Frame.change {b b' : Base} (h : Frame b b') : Change b (Members.membAt b) b' := by
  refine ⟨by rw [h.chans], ?_, h.membAt, h.endofnames, h.nick⟩
  funext c
  rw [nameAt, nameAt, h.chanHeap]

theorem Change.trans {a b c : Base} {f g : Ptr → Str → Option Memb} (h : Change a f b)
    (h' : Change b g c) : Change a g c :=
  ⟨h'.chans.trans h.chans, h'.name.trans h.name, h'.memb, h'.endofnames.trans h.endofnames,
    fun p n hp => h.nick p n (h'.nick p n hp)⟩

theorem Fewer.of_eq {b b' : Base} (h : b'.users = b.users) : Fewer b b' := by
  intro κ p hp
  rwa [h] at hp

theorem Fewer.trans {a b c : Base} (h : Fewer a b) (h' : Fewer b c) : Fewer a c :=
  fun κ p hp => h κ p (h' κ p hp)

theorem Fewer.listed {b b' : Base} (h : Fewer b b') {p : Ptr} (hp : Listed b' p) : Listed b p :=
  hp.imp fun κ hκ => h κ p hκ

theorem Inv.users {cm : CMap} {tight tight' : Ptr → Prop} {b b' : Base} (h : Inv cm tight b)
    (hchans : b'.chans = b.chans) (hheap : b'.chanHeap = b.chanHeap)
    (hc : Counted cm tight' b' (refs b) (Filed b)) : Inv cm tight' b' := by
  obtain ⟨_, _, chanHeap, _, _, _⟩ := b'
  subst hchans
  subst hheap
  exact ⟨hc, h.chansCm, h.live, h.nodup⟩

theorem Inv.frame {cm : CMap} {tight tight' : Ptr → Prop} {b b' : Base} (h : Inv cm tight b)
    (hf : Frame b b') (hc : Counted cm tight' b' (refs b) (Filed b)) : Inv cm tight' b' :=
  h.users hf.chans hf.chanHeap hc

theorem mem_membersOf (b : Base) (c : Ptr) (m : Memb) :
    m ∈ membersOf b c ↔ ∃ κ, membAt b c κ = some m := by
  rw [membersOf, membAt]
  cases b.chanHeap.get c with
  | none => simp
  | some ch => exact mem_vals ch.memb m

theorem countIn_pos (ms : List Memb) (p : Ptr) : 0 < countIn ms p ↔ ∃ m ∈ ms, m.u = p := by
  rw [countIn, List.countP_pos_iff]
  simp

theorem countIn_cons (m : Memb) (ms : List Memb) (p : Ptr) :
    countIn (m :: ms) p = countIn ms p + if p = m.u then 1 else 0 := by
  simp only [countIn, List.countP_cons, decide_eq_true_eq, @eq_comm _ p]

theorem countIn_perm {ms ms' : List Memb} (h : ms.Perm ms') (p : Ptr) :
    countIn ms p = countIn ms' p :=
  h.countP_eq _

theorem refs_pos (b : Base) (p : Ptr) : 0 < refs b p ↔ ∃ κ, Filed b κ p := by
  rw [refs, List.sum_pos_iff_exists_pos_nat]
  simp only [List.mem_map]
  constructor
  · rintro ⟨_, ⟨c, hc, rfl⟩, hpos⟩
    obtain ⟨m, hm, hp⟩ := (countIn_pos _ _).1 hpos
    obtain ⟨κ, hκ⟩ := (mem_membersOf b c m).1 hm
    exact ⟨κ, c, hc, m, hκ, hp⟩
  · rintro ⟨κ, c, hc, m, hκ, hp⟩
    exact ⟨_, ⟨c, hc, rfl⟩, (countIn_pos _ _).2 ⟨m, (mem_membersOf b c m).2 ⟨κ, hκ⟩, hp⟩⟩

theorem membAt_setChan {b : Base} {c : Ptr} {ch : Chan} (hc : b.chanHeap.get c = some ch)
    (ch' : Chan) :
    membAt (b.setChan c ch') = Function.update (membAt b) c ch'.memb.lookup := by
  funext q
  by_cases hq : q = c
  · rw [hq, Function.update_self, membAt, Base.setChan, get_set hc, Function.update_self]
  · rw [Function.update_of_ne hq, membAt, membAt, Base.setChan, get_set hc,
      Function.update_of_ne hq]

theorem nameAt_setChan {b : Base} {c : Ptr} {ch : Chan} (hc : b.chanHeap.get c = some ch)
    {ch' : Chan}
    (hn : ch'.name = ch.name) : nameAt (b.setChan c ch') = nameAt b := by
  funext q
  simp only [nameAt, Base.setChan, get_set hc, Function.update_apply]
  split
  · next hq => rw [hq, hc, Option.map_some, Option.map_some, hn]
  · rfl

theorem sum_exchange {α : Type} [DecidableEq α] {l : List α} {c : α} (hn : l.Nodup) (hc : c ∈ l)
    {f g : α → Nat} (h : ∀ x, x ≠ c → g x = f x) : (l.map g).sum + f c = (l.map f).sum + g c := by
  have hp := List.perm_cons_erase hc
  have he : (l.erase c).map g = (l.erase c).map f := by
    refine List.map_congr_left fun x hx => h x ?_
    rintro rfl
    exact hn.not_mem_erase hx
  have hg := (hp.map g).sum_eq
  have hf := (hp.map f).sum_eq
  rw [List.map_cons, List.sum_cons] at hg hf
  rw [hg, hf, he]
  omega

theorem refs_setChan {b : Base} (hn : b.chans.vals.Nodup) {c : Ptr}
    (hc : c ∈ b.chans.vals) {ch : Chan}
    (hch : b.chanHeap.get c = some ch) (ch' : Chan) (p : Ptr) :
    refs (b.setChan c ch') p + countIn ch.memb.vals p = refs b p + countIn ch'.memb.vals p := by
  have hself : countIn (membersOf b c) p = countIn ch.memb.vals p := by rw [membersOf, hch]
  have hnew : countIn (membersOf (b.setChan c ch') c) p = countIn ch'.memb.vals p := by
    rw [membersOf, Base.setChan, get_set hch, Function.update_self]
  rw [← hself, ← hnew]
  refine sum_exchange (f := fun q => countIn (membersOf b q) p)
    (g := fun q => countIn (membersOf (b.setChan c ch') q) p) hn hc fun q hq => ?_
  rw [membersOf, membersOf, Base.setChan, get_set hch, Function.update_of_ne hq]

theorem filed_setChan {b : Base} {c : Ptr} {ch : Chan} (hch : b.chanHeap.get c = some ch)
    {ch' : Chan}
    {κ : Str} {p : Ptr} (h : Filed (b.setChan c ch') κ p) :
    (∃ m, ch'.memb.lookup κ = some m ∧ m.u = p) ∨
      ∃ q ∈ b.chans.vals, q ≠ c ∧ ∃ m, membAt b q κ = some m ∧ m.u = p := by
  obtain ⟨q, hq, m, hm, hp⟩ := h
  rw [membAt_setChan hch, Function.update_apply] at hm
  split at hm
  · exact Or.inl ⟨m, hm, hp⟩
  · next hne => exact Or.inr ⟨q, hq, hne, m, hm, hp⟩

end Srsirc.Members
