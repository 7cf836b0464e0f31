import Srsirc.TagReads

namespace Srsirc.TagsCurrent

open CharMap BucketList Memory Message ReadBuffer BufferData TagGrammar Reassembly Context Conn
open Dispatch Connect
open HandlerFrames Transport MessageTags PromptLine TagCache TagReads Fallible

def nextTags (con : Iconn) : List Str :=
  ((candidates (con.rctx.data ++ promptly (source con))).head?.map lineTags).getD []

/-- What is done with a context. Beside it are the tags of the message that was returned last,
and `Q` is what is known before each read. -/
inductive Does (users : UserHnds) (Q : Tctx → Prop) : Tctx × List Str → Tctx × List Str → Prop
  | read {x x' : Tctx} {last : List Str} {ret : Int} (hQ : Q x) (h : ircRead users x =
      some (.ok (ret, x'))) :
      Does users Q (x, last) (x', if ret = 1 then nextTags x.irc.con else last)
  | v3tag {x : Tctx} {last : List Str} {ind : Nat} {tag : Option (Str × Option Str)} {tags : Tags}
      (h : ircV3tag x.irc.con.rctx.workbuf x.tags ind = .ok (tag, tags)) :
      Does users Q (x, last) ({ x with tags }, last)
  | v3tagBykey {x : Tctx} {last : List Str} {key : Str} {value : Option (Option Str)} {tags : Tags}
      (h : ircV3tagBykey x.irc.con.rctx.workbuf x.tags key = .ok (value, tags)) :
      Does users Q (x, last) ({ x with tags }, last)
  | connect {x : Tctx} {last : List Str} {irc : Irc} (h : Reached irc.con) :
      Does users Q (x, last) (⟨irc, x.tags.reset⟩, last)
  | other {x : Tctx} {last : List Str} {irc : Irc} (h : Unread x.irc.con irc.con) :
      Does users Q (x, last) (⟨irc, x.tags⟩, last)

def fresh (rand : Nat × Nat) (al : Alloc) (world : World) : Tctx × List Str :=
  (⟨ircInit rand al world, .init⟩, [])

section Sane

variable {workbuf : Mem} {t : Tags} {users : UserHnds} {Q : Tctx → Prop} {s s' : Tctx × List Str}

theorem decoded_roomy (h : Roomy t) (i : Nat) : Ensures (decoded workbuf t i) Roomy := by
  refine Ensures.ite (fun _ => ?_) fun _ => Ensures.ok h
  rw [mkv3tag]
  split
  · exact Ensures.error
  · refine Ensures.ok ⟨?_, ?_⟩
    · rw [List.length_set, h.dec]
    · rw [List.length_set, h.entries]

theorem v3tag_roomy (h : Roomy t) (ind : Nat) :
    Ensures (ircV3tag workbuf t ind) fun r => Roomy r.2 := by
  refine Ensures.ite (fun _ => Ensures.ok h) fun _ => ?_
  exact (decoded_roomy h ind).bind fun t' h' => Ensures.value fun _ => Ensures.ok h'

theorem bykeyFrom_roomy (key : Str) (k i : Nat) (h : Roomy t) :
    Ensures (bykeyFrom workbuf key k i t) fun r => Roomy r.2 := by
  induction k generalizing i t with
  | zero => exact Ensures.ok h
  | succ k ih =>
    rw [bykeyFrom]
    refine (decoded_roomy h i).bind fun t' h' => Ensures.value fun _ => ?_
    exact Ensures.ite (fun _ => Ensures.ok h') fun _ => ih (i + 1) h'

structure Sane (x : Tctx) : Prop where
  bounds : Bounds x.irc.con.rctx
  roomy : Roomy x.tags

theorem sane_fresh (rand : Nat × Nat) (al : Alloc) (world : World) :
    Sane (fresh rand al world).1 := by
  refine ⟨(Reached.init world).sound.bounds, ?_, ?_⟩
  · exact List.length_replicate
  · exact List.length_replicate

theorem Does.sane (hu : Unreading users) (h : Sane s.1) (hd : Does users Q s s') : Sane s'.1 := by
  cases hd with
  | read _ hread =>
    refine ⟨ircRead_bounds hu h.bounds hread, ?_⟩
    rw [(ircRead_cases hu hread).1]
    exact roomy_read h.roomy _
  | v3tag ht => exact ⟨h.bounds, v3tag_roomy h.roomy _ _ ht⟩
  | v3tagBykey ht => exact ⟨h.bounds, bykeyFrom_roomy _ _ _ h.roomy _ ht⟩
  | connect hr =>
    refine ⟨hr.sound.bounds, ?_, h.roomy.entries⟩
    exact (List.length_map _).trans h.roomy.dec
  | other hu => exact ⟨Unread.bounds hu h.bounds, h.roomy⟩

end Sane

/-- The next line arrives in time and fits. If it has tags, it is a message, and nothing in
the handling of it forbids to proceed. -/
structure InTime (users : UserHnds) (x : Tctx) (l : Str) : Prop where
  next : NextLine x.irc.con l
  fits : l.length < workbufSz
  proper : l.head? = some 0x40 → deliver MAX_V3TAGS l ≠ .failure
  proceeds : l.head? = some 0x40 → ∀ msg ps con, connRead x.irc.con MAX_V3TAGS =
      some (.message msg ps, con) →
    ∀ flags irc, msgHandle users { x.irc with con } msg false = .ok (flags, irc) →
      flags.has CANT_PROCEED = false

/-- The tags that there are taken to be are those of the message. -/
def Refers (x : Tctx) (last : List Str) : Prop :=
  ∀ i < x.tags.v3ntags, ∃ p tag, x.tags.v3tagsRaw[i]? = some (some p) ∧ last[i]? = some tag ∧
    cstr x.irc.con.rctx.workbuf p = tag

def Current (x : Tctx) (last : List Str) : Prop :=
  ∃ ts, Holding x.irc.con.rctx.workbuf x.tags ts ∧ (ts = [] ∨ ts = last)

variable {users : UserHnds} {x x' : Tctx} {last : List Str} {l : Str} {ret : Int}

theorem Current.refers (h : Current x last) : Refers x last := by
  obtain ⟨ts, hh, hts⟩ := h
  intro i hi
  rw [hh.count] at hi
  obtain ⟨p, hp, hcstr⟩ := hh.raw i ts[i] (List.getElem?_eq_getElem hi)
  obtain rfl | rfl := hts
  · cases hi
  · exact ⟨p, _, hp, List.getElem?_eq_getElem hi, hcstr⟩

theorem current_read (hu : Unreading users) (h : Sane x) (hin : InTime users x l)
    (hread : ircRead users x = some (.ok (ret, x'))) :
    Current x' (if ret = 1 then nextTags x.irc.con else last) := by
  obtain ⟨htags, inc, con, hinc, hunread, _, hstop⟩ := ircRead_cases hu hread
  rw [Current, htags]
  by_cases htag : l.head? = some 0x40
  · have hline := connRead_line h.bounds hin.next
    rw [hinc] at hline
    generalize connTags x.irc.con MAX_V3TAGS = r at hline
    have hdeliver := hin.proper htag
    have hfits := hin.fits
    cases inc with
    | timeout => cases hline
    | failed =>
      cases hline with
      | long => omega
      | @refused _ pre post _ hret =>
        obtain ⟨_, _, _, hobs, _⟩ := parseLine_deliver MAX_V3TAGS pre l post (p := pre.length) rfl
        rw [observe, hret, if_neg (by decide)] at hobs
        exact absurd hobs.symm hdeliver
    | message msg ps =>
      have hone : ret = 1 := by
        by_contra hne
        obtain ⟨flags, irc, hmsg, hcant⟩ := hstop msg ps rfl hne
        rw [hin.proceeds htag msg ps con hinc flags irc hmsg] at hcant
        cases hcant
      have hnext : nextTags x.irc.con = lineTags l := by rw [nextTags, hin.next.first]; rfl
      rw [if_pos hone, hnext, Unread.workbuf hunread]
      exact ⟨_, read_message h.bounds hin.next hinc h.roomy, Or.inr rfl⟩
  · exact ⟨[], read_untagged h.bounds hin.next hin.fits htag h.roomy _, Or.inl rfl⟩

theorem Does.current {s s' : Tctx × List Str} (hu : Unreading users) (h : Sane s.1)
    (hc : Current s.1 s.2)
    (hd : Does users (fun x => ∃ l, InTime users x l) s s') : Current s'.1 s'.2 := by
  obtain ⟨ts, hh, hts⟩ := hc
  cases hd with
  | read hin hread =>
    obtain ⟨l, hin⟩ := hin
    exact current_read hu h hin hread
  | v3tag ht =>
    obtain ⟨_, heq, _, hh'⟩ := hh.v3tag _
    rw [heq] at ht
    cases ht
    exact ⟨ts, hh', hts⟩
  | v3tagBykey ht =>
    obtain ⟨_, heq, _, hh'⟩ := hh.v3tagBykey _
    rw [heq] at ht
    cases ht
    exact ⟨ts, hh', hts⟩
  | connect hr =>
    refine ⟨[], @holding_none (Tags.reset _) ⟨?_, hh.entries⟩ rfl _, Or.inl rfl⟩
    exact (List.length_map _).trans hh.dec
  | other hunread =>
    refine ⟨ts, ?_, hts⟩
    dsimp only
    rw [Unread.workbuf hunread]
    exact hh

/-- As long as each read finds a line in time that it makes something of, the tags are those
of the message that was returned last, and they can be asked for. -/
theorem tags_current (hu : Unreading users) {rand : Nat × Nat} {al : Alloc} {world : World}
    (hsteps : Relation.ReflTransGen (Does users fun x => ∃ l,
      InTime users x l) (fresh rand al world) (x, last)) :
    Refers x last ∧ (∀ ind, ∃ r, ircV3tag x.irc.con.rctx.workbuf x.tags ind = .ok r) ∧
      ∀ key, ∃ r, ircV3tagBykey x.irc.con.rctx.workbuf x.tags key = .ok r := by
  have hinv : ∀ s, Relation.ReflTransGen (Does users fun x => ∃ l,
      InTime users x l) (fresh rand al world) s →
      Sane s.1 ∧ Current s.1 s.2 := by
    intro s hs
    induction hs with
    | refl =>
      have hsane := sane_fresh rand al world
      exact ⟨hsane, [], holding_none hsane.roomy rfl _, Or.inl rfl⟩
    | tail _ hstep ih => exact ⟨Does.sane hu ih.1 hstep, Does.current hu ih.1 ih.2 hstep⟩
  obtain ⟨_, hc⟩ := hinv _ hsteps
  refine ⟨hc.refers, fun ind => ?_, fun key => ?_⟩
  · obtain ⟨ts, hh, _⟩ := hc
    obtain ⟨r, heq, _⟩ := hh.v3tag ind
    exact ⟨r, heq⟩
  · obtain ⟨ts, hh, _⟩ := hc
    obtain ⟨r, heq, _⟩ := hh.v3tagBykey key
    exact ⟨r, heq⟩

def online (src : Source) : Irc :=
  { ircInit (0, 0) [] (serving []) with con := (connConnect (connInit (serving [⟨src, []⟩]))).2 }

theorem reached_online (src : Source) : Reached (online src).con := .connect (.init _)

def tagged : Str := ascii "@time=now :s NOTICE me :hi"

def awaiting : Tctx := ⟨online (lines ["@time=now :s NOTICE me :hi"]), Tags.init.reset⟩

def handledWell (x : Tctx) : Bool :=
  match connRead x.irc.con MAX_V3TAGS with
  | some (.message msg _, con) =>
    match msgHandle noUsers { x.irc with con } msg false with
    | .ok (flags, _) => !flags.has CANT_PROCEED
    | .error _ => false
  | _ => false

theorem tagged_inTime : InTime noUsers awaiting tagged := by
  refine ⟨⟨rfl, by decide +kernel⟩,
    by decide, fun _ hfail => ?_, fun _ msg ps con hread flags irc hmsg => ?_⟩
  · have hlen : (tagsIn (deliver MAX_V3TAGS tagged)).length = 1 := by decide +kernel
    rw [hfail] at hlen
    cases hlen
  · have hwell : handledWell awaiting = true := by decide +kernel
    rw [handledWell, hread] at hwell
    dsimp only at hwell
    rw [hmsg] at hwell
    simpa using hwell

theorem tags_current_tagged : ∃ x last,
    Relation.ReflTransGen (Does noUsers fun x => ∃ l,
      InTime noUsers x l) (fresh (0, 0) [] (serving [])) (x, last) ∧
      x.tags.v3ntags = 1 ∧ Refers x last := by
  have hquiet : Unreading noUsers := fun irc _ _ => ⟨.refl _, .refl _⟩
  obtain ⟨r, hr, hn⟩ :=
    @ok_of_any _ _ (ircRead noUsers awaiting) (fun r => r.2.tags.v3ntags = 1) (by decide +kernel)
  have hconnect : Does noUsers (fun x => ∃ l, InTime noUsers x l) (fresh (0, 0) [] (serving []))
      (awaiting, []) :=
    .connect (reached_online _)
  have hsteps := (Relation.ReflTransGen.single hconnect).tail (.read ⟨tagged, tagged_inTime⟩ hr)
  exact ⟨_, _, hsteps, of_decide_eq_true hn, (tags_current hquiet hsteps).1⟩

/-- A read that times out leaves the capacity as the number of tags. -/
theorem tags_stale : ∃ x last,
    Relation.ReflTransGen (Does noUsers fun _ => True) (fresh (0, 0) [] (serving [])) (x, last) ∧
      ¬Refers x last ∧ ircV3tagBykey x.irc.con.rctx.workbuf x.tags (ascii "time") =
        .error (.nullField 0) := by
  refine ⟨_, _, .tail (.single (.connect (reached_online [.timeout]))) (.read trivial rfl), ?_, ?_⟩
  · intro h
    obtain ⟨p, _, hp, _⟩ := h 0 (by decide +kernel)
    cases hp
  · rfl

end Srsirc.TagsCurrent
