import Srsirc.TagDecoding

namespace Srsirc.TagAnswers

open CharMap BucketList Memory Message ReadBuffer BufferData Reassembly Context Conn Dispatch
open Connect HandlerFrames Transport
open MessageTags TagCache TagReads TagsCurrent TagDecoding Fallible

inductive Query
  | v3tagsCnt
  | v3tag (ind : Nat)
  | v3tagBykey (key : Str)

inductive Answer
  | cnt (n : Nat)
  | tag (tag : Option (Str × Option Str))
  | value (value : Option (Option Str))
  deriving DecidableEq

def ask (workbuf : Mem) (t : Tags) : Query → Except Fault (Answer × Tags)
  | .v3tagsCnt => .ok (.cnt (ircV3tagsCnt t), t)
  | .v3tag ind => do
    let r ← ircV3tag workbuf t ind
    .ok (.tag r.1, r.2)
  | .v3tagBykey key => do
    let r ← ircV3tagBykey workbuf t key
    .ok (.value r.1, r.2)

def answers (workbuf : Mem) : List Query → Tags → Except Fault (List Answer × Tags)
  | [], t => .ok ([], t)
  | q :: qs, t => do
    let r ← ask workbuf t q
    let rs ← answers workbuf qs r.2
    .ok (r.1 :: rs.1, rs.2)

/-- What the answer has to be when the message has the tags `ts`. -/
def Query.expected (ts : List Str) : Query → Answer
  | .v3tagsCnt => .cnt (min ts.length MAX_V3TAGS)
  | .v3tag ind => .tag ((ts.take MAX_V3TAGS)[ind]?.map fun tag => (keyOf tag, valueOf tag))
  | .v3tagBykey key =>
    .value (((ts.take MAX_V3TAGS).find? fun tag => caseEq key (keyOf tag)).map valueOf)

variable {workbuf : Mem} {t : Tags} {ts : List Str}

theorem ask_expected (hts : ∀ tag ∈ ts, Proper tag) (h : Holding workbuf t (ts.take MAX_V3TAGS))
    (q : Query) :
    Returns (ask workbuf t q) fun r => r.1 = q.expected ts ∧
      Holding workbuf r.2 (ts.take MAX_V3TAGS) := by
  have hparsed : ∀ tag ∈ ts.take MAX_V3TAGS, parsed tag = (keyOf tag, valueOf tag) :=
    fun tag htag =>
    parsed_proper (hts tag (List.mem_of_mem_take htag))
  cases q with
  | v3tagsCnt =>
    have hcount := h.count
    rw [List.length_take, Nat.min_comm] at hcount
    exact Returns.ok ⟨congrArg Answer.cnt hcount, h⟩
  | v3tag ind =>
    refine (h.v3tag ind).bind fun r ⟨hr, h'⟩ => Returns.ok ⟨?_, h'⟩
    rw [hr, Query.expected]
    refine congrArg Answer.tag (Option.map_congr fun tag htag => ?_)
    exact hparsed tag (List.mem_of_getElem? htag)
  | v3tagBykey key =>
    refine (h.v3tagBykey key).bind fun r ⟨hr, h'⟩ => Returns.ok ⟨?_, h'⟩
    rw [hr, Query.expected, List.map_congr_left hparsed, List.find?_map, Option.map_map]
    rfl

/-- No query changes the answer to another one. -/
theorem answers_expected (hts : ∀ tag ∈ ts, Proper tag) (h : Holding workbuf t (ts.take MAX_V3TAGS))
    (qs : List Query) :
      Returns (answers workbuf qs t) fun r => r.1 = qs.map (Query.expected ts) := by
  induction qs generalizing t with
  | nil => exact Returns.ok rfl
  | cons q qs ih =>
    refine (ask_expected hts h q).bind fun r ⟨hr, h'⟩ => ?_
    refine (ih h').bind fun rs hrs => Returns.ok ?_
    rw [hr, hrs]
    rfl

variable {users : UserHnds} {x x' : Tctx} {last : List Str} {message : Str}

/-- Tags are decoded as the standard has it. -/
theorem tags_decoded (hu : Unreading users) {rand : Nat × Nat} {al : Alloc} {world : World}
    (hsteps : Relation.ReflTransGen (Does users fun _ => True) (fresh rand al world) (x, last))
    (hne : ts ≠ []) (hts : ∀ tag ∈ ts, Proper tag)
    (hline : NextLine x.irc.con (0x40 :: (joined ts ++ 0x20 :: message)))
    (hread : ircRead users x = some (.ok (1, x'))) :
    (∀ qs, Returns (answers x'.irc.con.rctx.workbuf qs x'.tags) fun r => r.1 =
      qs.map (Query.expected ts)) ∧
      ∀ v, unescape (escape v) = v := by
  have hsane : ∀ s, Relation.ReflTransGen (Does users fun _ => True) (fresh rand al world) s →
      Sane s.1 := by
    intro s hs
    induction hs with
    | refl => exact sane_fresh rand al world
    | tail _ hstep ih => exact Does.sane hu ih hstep
  obtain ⟨hb, hroom⟩ := hsane _ hsteps
  obtain ⟨htags, inc, con, hinc, hunread, hone, _⟩ := ircRead_cases hu hread
  obtain ⟨msg, ps, rfl⟩ := hone rfl
  have hholding := read_message hb hline hinc hroom
  rw [lineTags_joined hne hts (read_delivered hb hline hinc), ← Unread.workbuf hunread,
    ← htags] at hholding
  exact ⟨fun qs => answers_expected hts hholding qs, unescape_escape⟩

def awaitingTwo : Tctx := ⟨online (lines ["@a=b\\:c;Key :s NOTICE me :hi"]), Tags.init.reset⟩

theorem tags_decoded_two : ∃ x', ircRead noUsers awaitingTwo = some (.ok (1, x')) ∧
    Returns (answers x'.irc.con.rctx.workbuf [.v3tagBykey (ascii "kEY"), .v3tag 0, .v3tagsCnt,
      .v3tag 0] x'.tags)
      fun r => r.1 = [.value (some none), .tag (some (ascii "a", some (ascii "b;c"))), .cnt 2,
        .tag (some (ascii "a", some (ascii "b;c")))] := by
  have hquiet : Unreading noUsers := fun irc _ _ => ⟨.refl _, .refl _⟩
  obtain ⟨r, hr, hn⟩ :=
    @ok_of_any _ _ (ircRead noUsers awaitingTwo) (fun r => r.1 = 1) (by decide +kernel)
  obtain ⟨ret, x'⟩ := r
  obtain rfl : ret = 1 := of_decide_eq_true hn
  have hproper : ∀ tag ∈ [ascii "a=b\\:c", ascii "Key"], Proper tag := by
    intro tag htag
    simp only [List.mem_cons, List.not_mem_nil, or_false] at htag
    obtain rfl | rfl := htag
    · exact ⟨by decide, by decide, by decide +kernel, by decide +kernel⟩
    · exact ⟨by decide, by decide, by decide +kernel, by decide +kernel⟩
  have hline : NextLine awaitingTwo.irc.con
      (0x40 :: (joined [ascii "a=b\\:c", ascii "Key"] ++ 0x20 :: ascii ":s NOTICE me :hi")) :=
    ⟨rfl, by decide +kernel⟩
  have hsteps := Relation.ReflTransGen.single (@Does.connect noUsers (fun _ => True)
    (fresh (0, 0) [] (serving [])).1 [] _
      (reached_online (lines ["@a=b\\:c;Key :s NOTICE me :hi"])))
  have hexpected : [Query.v3tagBykey (ascii "kEY"), .v3tag 0, .v3tagsCnt, .v3tag 0].map
      (Query.expected [ascii "a=b\\:c", ascii "Key"]) = [.value (some none),
        .tag (some (ascii "a", some (ascii "b;c"))), .cnt 2,
          .tag (some (ascii "a", some (ascii "b;c")))] := by
    decide +kernel
  have hanswers := (tags_decoded hquiet hsteps (List.cons_ne_nil _ _) hproper hline hr).1
    [.v3tagBykey (ascii "kEY"), .v3tag 0, .v3tagsCnt, .v3tag 0]
  rw [hexpected] at hanswers
  exact ⟨x', hr, hanswers⟩

end Srsirc.TagAnswers
