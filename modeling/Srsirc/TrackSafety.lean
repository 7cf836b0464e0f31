import Srsirc.Tally

namespace Srsirc.TrackSafety

open CharMap Dictionary Fallible HeapCells Members MemberOps Message NamesReply ServerInfo Tally
open Track UserBase UserLifetime

inductive Cmd
  | join
  | rpl353
  | rpl366
  | part
  | quit
  | kick
  | nick

structure Input (cm : CMap) where
  info : Info
  cmd : Cmd
  msg : Msg
  casemap : info.casemap = cm

def handle {cm : CMap} (i : Input cm) : Base → Step :=
  match i.cmd with
  | .join => h_JOIN i.info i.msg i.msg.nargs
  | .rpl353 => h_353 i.info i.msg i.msg.nargs
  | .rpl366 => h_366 i.msg i.msg.nargs
  | .part => h_PART i.info i.msg i.msg.nargs
  | .quit => h_QUIT i.msg
  | .kick => h_KICK i.info i.msg i.msg.nargs
  | .nick => h_NICK i.info i.msg i.msg.nargs

def run {cm : CMap} : List (Input cm) → Base → Except Fault Base
  | [], b => .ok b
  | i :: is, b => do
    let r ← handle i b
    run is r.2

/-- Every pointer to a user leads to a record that was not freed. -/
def NoDangling (b : Base) : Prop :=
  (∀ p ∈ b.users.vals, ∃ u, b.userHeap.get p = some u) ∧
    ∀ c ∈ b.chans.vals, ∃ ch, b.chanHeap.get c = some ch ∧
      ∀ m ∈ ch.memb.vals, ∃ u, b.userHeap.get m.u = some u

/-- A user found under `ident` may take a nick that compares equal to the old one only
if it is the same key. -/
def Rekeys (b : Base) (cm : CMap) (ident newnick : Str) : Prop :=
  (getUser b ident).isSome → istrcmp (ident2nick MAX_NICK_LEN ident) newnick cm = 0 →
    pfxeq cm ident newnick

/-- Under the name that is stored in a channel, either the channel itself is found or none. -/
def Named (b : Base) (name : Str) : Prop :=
  ∀ c ch, getChan b name = some c → b.chanHeap.get c = some ch →
    getChan b ch.name = some c ∨ getChan b ch.name = none

/-- The step does not confuse keys. -/
def Keyed {cm : CMap} (i : Input cm) (b : Base) : Prop :=
  match i.cmd with
  | .nick => ∀ ident newnick, i.msg.fld 0 = .ok ident → i.msg.fld 2 = .ok newnick →
      Rekeys b cm ident newnick
  | .part => ∀ ident name, i.msg.fld 0 = .ok ident → i.msg.fld 2 = .ok name →
      isMe i.info (ident2nick MAX_NICK_LEN ident) → Named b name
  | .kick => ∀ name nick, i.msg.fld 2 = .ok name → i.msg.fld 3 = .ok nick → isMe i.info nick →
      Named b name
  | _ => True

def KeyedRun {cm : CMap} : List (Input cm) → Base → Prop
  | [], _ => True
  | i :: is, b => Keyed i b ∧ ∀ r, handle i b = .ok r → KeyedRun is r.2

/-- The invariant of all runs, where no count is known to be exact. -/
abbrev Safe (cm : CMap) (b : Base) : Prop := Inv cm (fun _ => False) b

variable {cm : CMap} {b : Base} {strict : Prop}

theorem safe_init (cm : CMap) : Safe cm (Base.init cm) := by
  have hrefs : ∀ p, refs (Base.init cm) p = 0 := by
    intro p
    rw [refs, Base.init, vals_init]
    rfl
  refine ⟨⟨rfl, cm_init cm, ?_, ?_, ?_, ?_, ?_⟩, cm_init cm, ?_, ?_⟩
  · intro κ p hp
    rw [Base.init, lookup_init] at hp
    cases hp
  · intro p hp
    rw [hrefs] at hp
    omega
  · intro p u hu
    cases hu
  · intro κ p u _ hu
    cases hu
  · exact fun _ _ h => h.elim
  · intro c hc
    rw [Base.init, vals_init] at hc
    cases hc
  · rw [Base.init, vals_init]
    exact List.nodup_nil

theorem Safe.noDangling (h : Safe cm b) : NoDangling b := by
  constructor
  · intro p hp
    obtain ⟨κ, hκ⟩ := (mem_vals _ _).1 hp
    obtain ⟨u, hu, _⟩ := h.counted.roster.found κ p hκ
    exact ⟨u, hu⟩
  · intro c hc
    obtain ⟨ch, hch, _⟩ := h.live c hc
    refine ⟨ch, hch, fun m hm => ?_⟩
    apply h.counted.roster.live
    obtain ⟨κ, hκ⟩ := (mem_vals _ _).1 hm
    exact (refs_pos b m.u).2 ⟨κ, c, hc, m, by rw [membAt_eq hch, hκ], rfl⟩

theorem h_JOIN_other {info : Info} {msg : Msg} {ident name : Str} {c : Ptr} {n : Nat}
    (h0 : msg.present 0 = true) (hn : 3 ≤ n) (hident : msg.fld 0 = .ok ident)
    (hname : msg.fld 2 = .ok name) (hme : isMe info (ident2nick MAX_NICK_LEN ident) = false)
    (hc : getChan b name = some c) :
    h_JOIN info msg n b =
      nameOf353 b c ident [] >>= fun r => .ok (if r.1 then 0 else ALLOC_ERR, r.2) := by
  have hlt : ¬n < 3 := by omega
  simp only [h_JOIN, nameOf353, h0, hlt, hident, hname, hme, hc, ok_bind, Bool.not_true,
    Bool.false_eq_true, or_self, if_false]
  cases getUser b ident with
  | some p => rfl
  | none =>
    cases addUser b ident with
    | error e => rfl
    | ok r =>
      obtain ⟨_ | p, b₁⟩ := r
      · rfl
      · simp only [ok_bind]
        cases addMemb b₁ c p [] with
        | error e => rfl
        | ok r =>
          obtain ⟨_ | _, b₂⟩ := r
          · simp only [ok_bind, Bool.false_eq_true, if_false]
            cases dropUser b₂ p <;> rfl
          · rfl

theorem h_JOIN_tallied (info : Info) (msg : Msg) (h : Tallied cm strict b) (hcm : info.casemap = cm)
    (hn : strict → ∀ ident name c, msg.fld 0 = .ok ident → msg.fld 2 = .ok name →
      isMe info (ident2nick MAX_NICK_LEN ident) = false → getChan b name = some c →
        NewTo b c ident) :
    Returns (h_JOIN info msg msg.nargs b) fun r => Tallied cm strict r.2 := by
  by_cases hg : (!msg.present 0) = true ∨ msg.nargs < 3
  · rw [h_JOIN, if_pos hg]
    exact Returns.ok h
  obtain ⟨h0, hargs⟩ := Msg.not_guard hg
  obtain ⟨ident, hident⟩ := Msg.fld_ok h0
  obtain ⟨name, hname⟩ := @Msg.fld_of_lt msg 2 (by omega) (by omega)
  cases hc : getChan b name with
  | some c =>
    cases hme : isMe info (ident2nick MAX_NICK_LEN ident) with
    | true =>
      rw [h_JOIN, if_neg hg]
      simp only [hident, hname, ok_bind, hc, hme, if_true]
      exact Returns.ok h
    | false =>
      rw [h_JOIN_other h0 hargs hident hname hme hc]
      have hnew : strict → NewTo b c ident := fun hs => hn hs ident name c hident hname hme hc
      exact (nameOf353_tallied h (mem_of_getChan hc) ident [] hnew).bind fun r hr =>
        Returns.ok hr.2.1
  | none =>
    rw [h_JOIN, if_neg hg]
    simp only [hident, hname, ok_bind, hc]
    refine Returns.ite (fun _ => ?_) fun _ => Returns.ok h
    · rw [getChan_eq h] at hc
      obtain ⟨c, b', hadd, hi, hopen⟩ := ChannelOps.addChan_ok h hc
      rw [hcm, hadd]
      exact Returns.ok (Tallied.of_subset (Fewer.of_eq hopen.users) hi)

/-- The names of a 353 line for the channel at `c` are all different, and new to it unless
it is cleared first. -/
def FreshNames (cm : CMap) (b : Base) (c : Ptr) (ns : List (Str × Str)) : Prop :=
  ns.Pairwise (fun m n => ¬pfxeq cm m.1 n.1) ∧ (b.endofnames = false → ∀ n ∈ ns, NewTo b c n.1)

theorem h_353_tallied (info : Info) (msg : Msg) (h : Tallied cm strict b)
    (hn : strict → ∀ name p c, msg.fld 4 = .ok name → msg.deref 5 = .ok p →
      getChan b name = some c →
      FreshNames cm b c (names info msg.mem (msg.mem.length + 2) p)) :
    Returns (h_353 info msg msg.nargs b) fun r => Tallied cm strict r.2 := by
  rw [h_353]
  split
  · exact Returns.ok h
  next hg =>
  obtain ⟨h0, hargs⟩ := Msg.not_guard hg
  obtain ⟨name, hname⟩ := @Msg.fld_of_lt msg 4 (by omega) (by omega)
  obtain ⟨p, hp⟩ := Msg.deref_ok (@Msg.present_of_lt msg 5 (by omega) (by omega))
  simp only [hname, hp, ok_bind, names353_eq]
  cases hc : getChan b name with
  | none => exact Returns.ok h
  | some c =>
    have hmem := mem_of_getChan hc
    have hfresh := fun hs => hn hs name p c hname hp hc
    dsimp only
    cases heon : b.endofnames with
    | true =>
      obtain ⟨b₁, hb₁, hi, hfew, hch⟩ := clearMemb_ok h hmem
      rw [if_pos rfl, hb₁]
      simp only [Except.map, ok_bind]
      have hi₁ := Tallied.of_fewer hfew hi
      have hi' : Tallied cm strict { b₁ with endofnames := false } :=
        ⟨⟨hi₁.counted.al, hi₁.counted.usersCm, hi₁.counted.roster⟩, hi₁.chansCm,
          hi₁.live, hi₁.nodup⟩
      refine enter_tallied _ hi' (mem_of_lookup hch.chans hmem) names_short fun hs =>
        ⟨(hfresh hs).1, fun n _ q _ m hm => ?_⟩
      have hgone : membAt { b₁ with endofnames := false } c = fun _ => none := by
        have : membAt { b₁ with endofnames := false } c = membAt b₁ c := rfl
        rw [this, hch.memb, Function.update_self]
      obtain ⟨κ, hκ⟩ := (mem_membersOf _ c m).1 hm
      rw [hgone] at hκ
      cases hκ
    | false =>
      rw [if_neg (by simp)]
      exact enter_tallied _ h hmem names_short fun hs => ⟨(hfresh hs).1, (hfresh hs).2 heon⟩

theorem h_366_tallied (msg : Msg) (h : Tallied cm strict b) :
    Returns (h_366 msg msg.nargs b) fun r => Tallied cm strict r.2 := by
  rw [h_366]
  split
  · exact Returns.ok h
  next hg =>
  obtain ⟨h0, hn⟩ := Msg.not_guard hg
  obtain ⟨name, hname⟩ := @Msg.fld_of_lt msg 3 (by omega) (by omega)
  have h₁ : Tallied cm strict { b with endofnames := true } :=
    ⟨⟨h.counted.al, h.counted.usersCm, h.counted.roster⟩, h.chansCm, h.live, h.nodup⟩
  simp only [hname, ok_bind]
  cases hc : getChan { b with endofnames := true } name with
  | none => exact Returns.ok h₁
  | some c =>
    have hmem := mem_of_getChan hc
    obtain ⟨ch, hch, _⟩ := h₁.live c hmem
    simp only [chan_eq hch, ok_bind]
    exact Returns.ok (@relabeled _ _ _ h₁ _ hmem _ { ch with desync := false } hch rfl rfl).1

theorem touchUser_tallied (h : Tallied cm strict b) (ident : Str) :
    Returns (touchUser b ident) fun b' => Tallied cm strict b' ∧ b'.chans = b.chans ∧
      b'.chanHeap = b.chanHeap ∧ b'.users = b.users :=
  (touchUser_ok h.counted ident).mono fun _ ⟨hf, _, hs, hc⟩ =>
    ⟨Tallied.of_subset (Fewer.of_eq hs) (h.frame hf hc), hf.chans, hf.chanHeap, hs⟩

theorem Named.congr {b' : Base} {name : Str} (h : Named b name) (hchans : b'.chans = b.chans)
    (hheap : b'.chanHeap = b.chanHeap) : Named b' name := by
  simp only [Named, getChan, hchans, hheap]
  exact h

theorem dropChan_tallied (h : Tallied cm strict b) {name : Str} {c : Ptr}
    (hc : getChan b name = some c)
    (hk : Named b name) : Returns (dropChan b c) fun r => Tallied cm strict r.2 := by
  obtain ⟨ch, hch, _⟩ := h.live c (mem_of_getChan hc)
  obtain hl | hl := hk c ch hc hch
  · rw [getChan_eq h] at hl
    exact (ChannelOps.dropChan_ok h hch hl).mono fun _ ⟨hi, hf, _⟩ => Tallied.of_fewer hf hi
  · rw [getChan_eq h] at hl
    exact ⟨_, ChannelOps.dropChan_none h hch hl, h⟩

theorem dropMemb_tallied (h : Tallied cm strict b) {name nick : Str} {c p : Ptr}
    (hc : getChan b name = some c) (hp : getUser b nick = some p) :
    Returns (dropMemb b c p true) fun r => Tallied cm strict r.2 := by
  rw [getUser_eq h] at hp
  obtain ⟨u, hu, _⟩ := h.counted.roster.found _ p hp
  refine (dropMemb_ok h (mem_of_getChan hc) hu fun hne => by cases hne).mono fun _ ⟨hi, hf, _⟩ => ?_
  exact Tallied.of_fewer hf (hi.loosen fun _ hq => ⟨hq.1, fun _ => hq.2⟩)

theorem h_PART_tallied (info : Info) (msg : Msg) (h : Tallied cm strict b)
    (hk : ∀ ident name, msg.fld 0 = .ok ident → msg.fld 2 = .ok name →
      isMe info (ident2nick MAX_NICK_LEN ident) → Named b name) :
    Returns (h_PART info msg msg.nargs b) fun r => Tallied cm strict r.2 := by
  rw [h_PART]
  split
  · exact Returns.ok h
  next hg =>
  obtain ⟨h0, hn⟩ := Msg.not_guard hg
  obtain ⟨ident, hident⟩ := Msg.fld_ok h0
  obtain ⟨name, hname⟩ := @Msg.fld_of_lt msg 2 (by omega) (by omega)
  simp only [hident, hname, ok_bind]
  refine (touchUser_tallied h ident).bind fun b₁ ⟨h₁, hchans, hheap, _⟩ => ?_
  cases hc : getChan b₁ name with
  | none => exact Returns.ok h₁
  | some c =>
    refine Returns.ite (fun hme => ?_) fun _ => ?_
    · have hn₁ := (hk ident name hident hname hme).congr hchans hheap
      exact (dropChan_tallied h₁ hc hn₁).bind fun r hr => Returns.ok hr
    · cases hp : getUser b₁ ident with
      | none => exact Returns.ok h₁
      | some p => exact (dropMemb_tallied h₁ hc hp).bind fun r hr => Returns.ok hr

theorem h_QUIT_tallied (msg : Msg) (h : Tallied cm strict b) :
    Returns (h_QUIT msg b) fun r => Tallied cm strict r.2 := by
  rw [h_QUIT]
  split
  · exact Returns.ok h
  next hg =>
  obtain ⟨ident, hident⟩ := @Msg.fld_ok msg 0 (by simpa using hg)
  simp only [hident, ok_bind]
  refine (touchUser_tallied h ident).bind fun b₁ ⟨h₁, _⟩ => ?_
  cases hp : getUser b₁ ident with
  | none => exact Returns.ok h₁
  | some p =>
    rw [getUser_eq h₁] at hp
    refine (UserOps.dropUser_ok h₁ hp).bind fun r ⟨hi, hf, _⟩ => ?_
    exact Returns.ok (Tallied.of_subset hf hi)

theorem h_KICK_tallied (info : Info) (msg : Msg) (h : Tallied cm strict b)
    (hk : ∀ name nick, msg.fld 2 = .ok name → msg.fld 3 = .ok nick → isMe info nick →
      Named b name) :
    Returns (h_KICK info msg msg.nargs b) fun r => Tallied cm strict r.2 := by
  rw [h_KICK]
  split
  · exact Returns.ok h
  next hg =>
  obtain ⟨h0, hn⟩ := Msg.not_guard hg
  obtain ⟨ident, hident⟩ := Msg.fld_ok h0
  obtain ⟨name, hname⟩ := @Msg.fld_of_lt msg 2 (by omega) (by omega)
  obtain ⟨nick, hnick⟩ := @Msg.fld_of_lt msg 3 (by omega) (by omega)
  simp only [hident, hname, hnick, ok_bind]
  refine (touchUser_tallied h ident).bind fun b₁ ⟨h₁, hchans, hheap, _⟩ => ?_
  cases hc : getChan b₁ name with
  | none => exact Returns.ok h₁
  | some c =>
    refine Returns.ite (fun hme => ?_) fun _ => ?_
    · have hn₁ := (hk name nick hname hnick hme).congr hchans hheap
      exact (dropChan_tallied h₁ hc hn₁).bind fun r hr => Returns.ok hr
    · cases hp : getUser b₁ nick with
      | none => exact Returns.ok h₁
      | some p => exact (dropMemb_tallied h₁ hc hp).bind fun r hr => Returns.ok hr

theorem h_NICK_tallied (info : Info) (msg : Msg) (h : Tallied cm strict b) (hcm : info.casemap = cm)
    (hk : ∀ ident newnick, msg.fld 0 = .ok ident → msg.fld 2 = .ok newnick →
      Rekeys b cm ident newnick) :
    Returns (h_NICK info msg msg.nargs b) fun r => Tallied cm strict r.2 := by
  rw [h_NICK]
  split
  · exact Returns.ok h
  next hg =>
  obtain ⟨h0, hn⟩ := Msg.not_guard hg
  obtain ⟨ident, hident⟩ := Msg.fld_ok h0
  obtain ⟨newnick, hnew⟩ := @Msg.fld_of_lt msg 2 (by omega) (by omega)
  simp only [hident, hnew, hcm, ok_bind]
  refine (touchUser_tallied h ident).bind fun b₁ ⟨h₁, _, _, husers⟩ => ?_
  have hk₁ : Rekeys b₁ cm ident newnick := by
    have hk := hk ident newnick hident hnew
    rwa [Rekeys, getUser, husers]
  rw [Rekeys, pfxeq_iff] at hk₁
  exact (renameUser_tallied h₁ hk₁).bind fun r hr => Returns.ok hr

/-- The step adds no user to a channel that it is on. -/
def Unrepeated {cm : CMap} (i : Input cm) (b : Base) : Prop :=
  match i.cmd with
  | .join => ∀ ident name c, i.msg.fld 0 = .ok ident → i.msg.fld 2 = .ok name →
      isMe i.info (ident2nick MAX_NICK_LEN ident) = false → getChan b name = some c →
        NewTo b c ident
  | .rpl353 => ∀ name p c, i.msg.fld 4 = .ok name → i.msg.deref 5 = .ok p →
      getChan b name = some c →
      FreshNames cm b c (names i.info i.msg.mem (i.msg.mem.length + 2) p)
  | _ => True

theorem handle_tallied (i : Input cm) (h : Tallied cm strict b) (hk : Keyed i b)
    (hn : strict → Unrepeated i b) : Returns (handle i b) fun r => Tallied cm strict r.2 := by
  obtain ⟨info, cmd, msg, hcm⟩ := i
  cases cmd with
  | join => exact h_JOIN_tallied info msg h hcm hn
  | rpl353 => exact h_353_tallied info msg h hn
  | rpl366 => exact h_366_tallied msg h
  | part => exact h_PART_tallied info msg h hk
  | quit => exact h_QUIT_tallied msg h
  | kick => exact h_KICK_tallied info msg h hk
  | nick => exact h_NICK_tallied info msg h hcm hk

theorem handle_safe (i : Input cm) (h : Safe cm b) (hk : Keyed i b) :
    Returns (handle i b) fun r => Safe cm r.2 := by
  refine (@handle_tallied _ _ False i (h.loosen fun _ hq => hq.1) hk False.elim).mono ?_
  exact fun _ hr => hr.loosen fun _ => False.elim

/-- What a step keeps, as long as the inputs are in order, holds in every state of a run. -/
theorem run_returns {p : Base → Prop} {q : List (Input cm) → Base → Prop}
    (hstep : ∀ i is b, p b → q (i :: is) b → Returns (handle i b) fun r => p r.2 ∧ q is r.2)
    {is pre : List (Input cm)} {b : Base} (hp : p b) (hq : q is b) (hpre : pre <+: is) :
    Returns (run pre b) p := by
  induction is generalizing b pre with
  | nil =>
    obtain rfl := List.prefix_nil.1 hpre
    exact Returns.ok hp
  | cons i is ih =>
    obtain rfl | ⟨pre', rfl, htail⟩ := List.prefix_cons_iff.1 hpre
    · exact Returns.ok hp
    · obtain ⟨r, hr, hp', hq'⟩ := hstep i is b hp hq
      rw [run, hr, ok_bind]
      exact ih hp' hq' htail

theorem run_safe {is : List (Input cm)} {b : Base} (h : Safe cm b) (hk : KeyedRun is b)
    {pre : List (Input cm)} (hpre : pre <+: is) : Returns (run pre b) (Safe cm) := by
  refine run_returns (q := KeyedRun) (fun i is b h hk => ?_) h hk hpre
  obtain ⟨r, hr, hs⟩ := handle_safe i h hk.1
  exact ⟨r, hr, hs, hk.2 r hr⟩

/-- As long as no step confuses keys, every state of a run is reached without a record
being used after it was freed or freed twice, and has no dangling user. -/
theorem no_dangling (is : List (Input cm)) (hk : KeyedRun is (Base.init cm)) :
    ∀ pre, pre <+: is → ∃ b, run pre (Base.init cm) = .ok b ∧ NoDangling b := by
  intro pre hpre
  obtain ⟨b, hb, hs⟩ := run_safe (safe_init cm) hk hpre
  exact ⟨b, hb, Safe.noDangling hs⟩

/-- A line for a client whose nick is `me`. -/
def sample (cm : CMap) (cmd : Cmd) (line : String) : Input cm :=
  ⟨{ Info.init with mynick := ascii "me", casemap := cm }, cmd, .ofLine (ascii line), rfl⟩

def plainRun : List (Input .ascii) :=
  [sample _ .join ":me!u@h JOIN #a", sample _ .join ":x!u@h JOIN #a",
   sample _ .nick ":x!u@h NICK y", sample _ .quit ":y!u@h QUIT :bye"]

theorem no_dangling_sample : ∃ b, run plainRun (Base.init .ascii) = .ok b ∧ NoDangling b := by
  refine no_dangling plainRun ⟨trivial, fun _ _ => ⟨trivial, fun _ _ =>
    ⟨?_, fun _ _ => ⟨trivial, fun _ _ => trivial⟩⟩⟩⟩ _ List.prefix_rfl
  intro ident newnick hident hnew _ hcase
  have hident' : (Except.ok (ascii "x!u@h") : Except Fault Str) = .ok ident :=
    hident ▸ by decide +kernel
  have hnew' : (Except.ok (ascii "y") : Except Fault Str) = .ok newnick := hnew ▸ by decide +kernel
  cases hident'
  cases hnew'
  exact absurd hcase (by decide +kernel)

/-- The carets compare equal but are different keys, so the record of `x^` gets a name
under which it is not found. When its last channel goes, the map keeps the pointer. -/
def caretRun : List (Input .rfc1459) :=
  [sample _ .join ":me!u@h JOIN #a", sample _ .join ":x^!u@h JOIN #a",
   sample _ .nick ":x^!u@h NICK x~", sample _ .part ":me!u@h PART #a"]

theorem dangling_caret : ∃ b, run caretRun (Base.init .rfc1459) = .ok b ∧ ¬NoDangling b := by
  have h : ((run caretRun (Base.init .rfc1459)).toOption.bind fun b =>
      (getUser b (ascii "x^")).map fun p => (b.userHeap.get p).isNone) =
        some true := by decide +kernel
  cases hr : run caretRun (Base.init .rfc1459) with
  | error e =>
    rw [hr] at h
    cases h
  | ok b =>
    rw [hr] at h
    refine ⟨b, rfl, fun hn => ?_⟩
    obtain ⟨p, hp, hfree⟩ := Option.map_eq_some_iff.1 h
    rw [getUser, get_eq] at hp
    obtain ⟨u, hu⟩ := hn.1 p ((mem_vals _ _).2 ⟨_, hp⟩)
    rw [hu] at hfree
    cases hfree

end Srsirc.TrackSafety
