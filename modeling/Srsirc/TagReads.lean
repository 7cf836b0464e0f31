import Srsirc.PromptLine
import Srsirc.Registrations
import Srsirc.TagCache

namespace Srsirc.TagReads

open CharMap Memory Message ReadBuffer BufferData TagGrammar Reassembly Context Conn Dispatch
open Connect
open HandlerFrames Registrations Transport MessageTags PromptLine TagCache Fallible

def Unreading (users : UserHnds) : Prop :=
  ∀ irc msg n, Unread irc.con (users.pre irc msg n).2.con ∧
    Unread irc.con (users.post irc msg n).2.con

/-- The line `l` is the next one, and arrives in time. -/
structure NextLine (con : Iconn) (l : Str) : Prop where
  online : con.online = true
  first : (candidates (con.rctx.data ++ promptly (source con))).head? = some l

def tagsIn : Outcome → List Str
  | .message tags _ => tags
  | .failure => []

def lineTags (l : Str) : List Str := tagsIn (deliver MAX_V3TAGS l)

variable {users : UserHnds} {con con' : Iconn} {x x' : Tctx} {l : Str} {ret : Int}

theorem Unread.bounds (h : Unread con con') (hb : Bounds con.rctx) : Bounds con'.rctx := by
  obtain h | h := h
  · exact h ▸ hb
  · exact h ▸ bounds_reset hb

theorem Unread.workbuf (h : Unread con con') : con'.rctx.workbuf = con.rctx.workbuf := by
  obtain h | h := h
  · rw [h]
  · rw [h]

theorem ircReset_unread (irc : Irc) : Unread irc.con (ircReset irc).con := Or.inr rfl

theorem msgHandle_unread (hu : Unreading users) (irc : Irc) (msg : Msg) (logon : Bool) :
    Ensures (msgHandle users irc msg logon) fun r => Unread irc.con r.2.con := by
  apply @msgHandle_rule (fun irc' => Unread irc.con irc'.con) users msg logon
  · exact fun h irc' hirc => (run_unread irc' msg msg.nargs logon h).mono fun r hr => hirc.trans hr
  · exact fun _ irc' hirc => hirc.trans (hu irc' msg _).1
  · exact fun _ irc' hirc => hirc.trans (hu irc' msg _).2
  · exact .refl _

theorem connRead_bounds {ntags : Nat} {inc : Incoming} (hb : Bounds con.rctx)
    (h : connRead con ntags = some (inc, con')) : Bounds con'.rctx := by
  rw [connRead] at h
  split at h
  · cases h
    exact hb
  · split at h
    · cases h
    · next heq =>
      have hb' := ioRead_bounds hb heq
      dsimp only at h
      split at h
      · cases h
        exact hb'
      · split at h
        · cases h
          exact bounds_reset hb'
        · cases h
          exact hb'

/-- How `irc_read` ends, and what becomes of the receive buffer. -/
theorem ircRead_cases (hu : Unreading users) (h : ircRead users x = some (.ok (ret, x'))) :
    x'.tags = x.tags.read x.irc.con ∧ ∃ inc con, connRead x.irc.con MAX_V3TAGS = some (inc, con) ∧
      Unread con x'.irc.con ∧ (ret = 1 → ∃ msg ps, inc = .message msg ps) ∧
      (∀ msg ps, inc = .message msg ps → ret ≠ 1 → ∃ flags irc,
        msgHandle users { x.irc with con } msg false = .ok (flags, irc) ∧
          flags.has CANT_PROCEED = true) := by
  rw [ircRead] at h
  dsimp only at h
  split at h
  · cases h
  · next con heq =>
    cases h
    exact ⟨rfl, _, con, heq, .refl _, fun h => by (cases h), fun _ _ hmsg => by cases hmsg⟩
  · next con heq =>
    cases h
    exact ⟨rfl, _, con, heq, ircReset_unread _, fun h => by (cases h),
      fun _ _ hmsg => by cases hmsg⟩
  · next msg ps con heq =>
    have hunread := msgHandle_unread hu { x.irc with con } msg false
    split at h
    · cases h
    · next flags irc hmsg =>
      have hirc := hunread _ hmsg
      split at h
      · next hstop =>
        cases h
        refine ⟨rfl, _, con, heq, hirc.trans (ircReset_unread _), fun h => by (cases h),
          fun msg' ps' heq' _ => ?_⟩
        cases heq'
        exact ⟨flags, irc, hmsg, hstop⟩
      · cases h
        exact ⟨rfl, _, con, heq, hirc, fun _ => ⟨msg, ps, rfl⟩, fun _ _ _ hne => absurd rfl hne⟩

theorem ircRead_bounds (hu : Unreading users) (hb : Bounds x.irc.con.rctx)
    (h : ircRead users x = some (.ok (ret, x'))) : Bounds x'.irc.con.rctx := by
  obtain ⟨_, inc, con, hread, hunread, _⟩ := ircRead_cases hu h
  exact Unread.bounds hunread (connRead_bounds hb hread)

inductive LineRead (con : Iconn) (l : Str) : Option (Incoming × Iconn) → Nat × List Nat → Prop
  | long {con' : Iconn} {r : Nat × List Nat} (hl : workbufSz ≤ l.length) :
      LineRead con l (some (.failed, con')) r
  | refused {con' : Iconn} {pre post : Mem} (hl : l.length < workbufSz)
      (hret : (parseLine MAX_V3TAGS (pre ++ (l ++ 0 :: post)) pre.length).ret = -1) :
      LineRead con l (some (.failed, con'))
        (lineNtags MAX_V3TAGS (pre ++ (l ++ 0 :: post)) pre.length,
        (parseLine MAX_V3TAGS (pre ++ (l ++ 0 :: post)) pre.length).tags)
  | message {con' : Iconn} {pre post : Mem} {msg : Msg} {ps : List Nat} (hl : l.length < workbufSz)
      (hret : (parseLine MAX_V3TAGS (pre ++ (l ++ 0 :: post)) pre.length).ret = 1)
      (hmem : con'.rctx.workbuf = (parseLine MAX_V3TAGS (pre ++ (l ++ 0 :: post)) pre.length).mem) :
      LineRead con l (some (.message msg ps, con'))
        (lineNtags MAX_V3TAGS (pre ++ (l ++ 0 :: post)) pre.length,
        (parseLine MAX_V3TAGS (pre ++ (l ++ 0 :: post)) pre.length).tags)

theorem connRead_line (hb : Bounds con.rctx) (hl : NextLine con l) :
    LineRead con l (connRead con MAX_V3TAGS) (connTags con MAX_V3TAGS) := by
  have hheard := ioRead_heard MAX_V3TAGS hb hl.first
  rw [connRead, connTags, hl.online]
  simp only [Bool.not_true, Bool.false_eq_true, if_false]
  generalize (ioRead MAX_V3TAGS con.rctx (source con)).2 = out at hheard
  generalize ioNtags MAX_V3TAGS con.rctx (source con) = ntags at hheard
  cases hheard with
  | long hlong _ hret =>
    simp only [hret, show ¬(-1 : Int) =
      0 by decide, show (-1 : Int) < 0 by decide, if_true, if_false]
    exact .long hlong
  | @line pre post r src hlen _ hmem =>
    obtain ⟨_, _, _, _, hret | hret⟩ :=
      parseLine_deliver MAX_V3TAGS pre l post (p := pre.length) rfl
    · simp only [hret, show ¬(1 : Int) = 0 by decide, show ¬(1 : Int) < 0 by decide, if_false]
      exact .message hlen hret hmem
    · simp only [hret, show ¬(-1 : Int) =
        0 by decide, show (-1 : Int) < 0 by decide, if_true, if_false]
      exact .refused hlen hret

theorem lineNtags_untagged {destmax : Nat} {mem : Mem} {p : Nat} (h : mem.getD p 0 ≠ 0x40) :
    lineNtags destmax mem p = 0 := by rw [lineNtags, if_neg h]

theorem lineNtags_tagged {destmax : Nat} {mem : Mem} {p : Nat}
    (h : (parseLine destmax mem p).ret = 1) :
    lineNtags destmax mem p = (parseLine destmax mem p).tags.length := by
  rw [lineNtags]
  rw [parseLine] at h ⊢
  split
  · next htag =>
    rw [if_pos htag] at h
    generalize Tokenize.extractTags mem (p + 1) destmax = r at h ⊢
    obtain ⟨mem', line, tags⟩ := r
    cases line with
    | none => cases h
    | some line =>
      dsimp only at h ⊢
      split <;> rfl
  · rfl

theorem length_lineTags (l : Str) : (lineTags l).length ≤ MAX_V3TAGS := by
  have hun : ∀ tags s, tags.length ≤ MAX_V3TAGS →
      (tagsIn (untagged tags s)).length ≤ MAX_V3TAGS := by
    intro tags s h
    rw [untagged]
    split
    · exact h
    · exact Nat.zero_le _
  rw [lineTags, deliver_eq, meaning]
  split
  · dsimp only
    split
    · exact Nat.zero_le _
    · exact hun _ _ (List.length_take_le _ _)
  · exact hun [] _ (Nat.zero_le _)

/-- The caches have a place for each tag. -/
structure Roomy (t : Tags) : Prop where
  dec : t.v3tagsDec.length = MAX_V3TAGS
  entries : t.v3tags.length = MAX_V3TAGS

theorem roomy_read {t : Tags} (h : Roomy t) (con : Iconn) : Roomy (t.read con) := by
  refine ⟨?_, h.entries⟩
  rw [Tags.read]
  exact (List.length_map _).trans h.dec

theorem forget_empty (dec : List Mem) (i : Nat) : ((forget dec).getD i []).getD 0 0 = 0 := by
  simp only [forget, List.getD_eq_getElem?_getD, List.getElem?_map]
  cases dec[i]? with
  | none => rfl
  | some mem => cases mem <;> rfl

theorem holding_none {t : Tags} (h : Roomy t) (hn : t.v3ntags = 0) (workbuf : Mem) :
    Holding workbuf t [] :=
  ⟨hn, Nat.zero_le _, h.dec, h.entries, nofun, nofun⟩

theorem read_untagged (hb : Bounds con.rctx) (hl : NextLine con l) (hlen : l.length < workbufSz)
    (htag : l.head? ≠ some 0x40) {t : Tags} (h : Roomy t) (workbuf : Mem) :
      Holding workbuf (t.read con) [] := by
  apply holding_none (roomy_read h con)
  have hread := connRead_line hb hl
  rw [Tags.read]
  generalize connRead con MAX_V3TAGS = out at hread
  generalize connTags con MAX_V3TAGS = r at hread
  have hne : ∀ pre post : Mem, (pre ++ (l ++ 0 :: post)).getD pre.length 0 ≠ 0x40 := by
    intro pre post
    rw [getD_line pre l post rfl]
    cases l with
    | nil => decide
    | cons c l => simpa using htag
  cases hread with
  | long hlong => omega
  | refused => exact lineNtags_untagged (hne _ _)
  | message => exact lineNtags_untagged (hne _ _)

theorem read_delivered {msg : Msg} {ps : List Nat} (hb : Bounds con.rctx) (hl : NextLine con l)
    (hread : connRead con MAX_V3TAGS = some (.message msg ps, con')) :
      deliver MAX_V3TAGS l ≠ .failure := by
  have hline := connRead_line hb hl
  rw [hread] at hline
  generalize connTags con MAX_V3TAGS = r at hline
  cases hline with
  | @message _ pre post _ _ _ hret =>
    obtain ⟨_, _, _, hobs, _⟩ := parseLine_deliver MAX_V3TAGS pre l post (p := pre.length) rfl
    rw [← hobs, observe, if_pos hret]
    exact fun hfail => by cases hfail

theorem read_message {msg : Msg} {ps : List Nat} (hb : Bounds con.rctx) (hl : NextLine con l)
    (hread : connRead con MAX_V3TAGS = some (.message msg ps, con')) {t : Tags} (h : Roomy t) :
    Holding con'.rctx.workbuf (t.read con) (lineTags l) := by
  have hline := connRead_line hb hl
  rw [hread] at hline
  have hroom := roomy_read h con
  have hempty := forget_empty t.v3tagsDec
  rw [Tags.read] at hroom ⊢
  generalize connTags con MAX_V3TAGS = r at hline hroom
  cases hline with
  | @message _ pre post _ _ _ hret hmem =>
    obtain ⟨_, _, _, hobs, _⟩ := parseLine_deliver MAX_V3TAGS pre l post (p := pre.length) rfl
    have hcount := lineNtags_tagged hret
    generalize parseLine MAX_V3TAGS (pre ++ (l ++ 0 :: post)) pre.length = reply at *
    have htags : lineTags l = reply.tags.map (cstr reply.mem) := by
      rw [lineTags, ← hobs, observe, if_pos hret]
      rfl
    have hlen : (lineTags l).length = reply.tags.length := by rw [htags, List.length_map]
    refine ⟨hcount.trans hlen.symm, length_lineTags l, hroom.dec, hroom.entries, fun i tag hi => ?_,
      fun i tag _ hfull => ?_⟩
    · rw [htags, List.getElem?_map, Option.map_eq_some_iff] at hi
      obtain ⟨p, hp, rfl⟩ := hi
      refine ⟨p, ?_, by rw [hmem]⟩
      have hlt : i < reply.tags.length := (List.getElem?_eq_some_iff.1 hp).1
      rw [List.getElem?_append_left (by simpa using hlt), List.getElem?_map, hp, Option.map_some]
    · exact absurd (hempty i) hfull

end Srsirc.TagReads
