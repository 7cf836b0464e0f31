import Mathlib.Data.List.DropRight
import Srsirc.Fallible
import Srsirc.SendOrder

namespace Srsirc.UserMessage

open CharMap Memory Message SendQueue SendOrder

/-- The settings that `handle_usermsg` looks at. -/
structure Sett where
  esc : Option Str
  trgmode : Bool
  notices : Bool
  chanlist : Str

def isCrlf (c : UInt8) : Bool := c == 0x0d || c == 0x0a

def isBlank (c : UInt8) : Bool := c == 0x20

/-- The loop that strips the line, where `i` bytes are in front of the one behind `end`. -/
def strip (lnbuf : Mem) : Nat → Mem
  | 0 => lnbuf
  | i + 1 => if isCrlf (lnbuf.getD i 0) then strip (lnbuf.set i 0) i else lnbuf

def strAt (mem : Mem) (p : Nat) : Except Fault Str :=
  if 0 ∈ mem.drop p then .ok (cstr mem p) else .error .overrun

/-- `strtok` at the start of a string, for words between blanks. -/
def strtok (mem : Mem) : Option Nat × Mem :=
  let s := cstr mem 0
  let tok := (s.takeWhile isBlank).length
  let stop := tok + ((s.drop tok).takeWhile (!isBlank ·)).length
  if tok = s.length then (none, mem)
  else (some tok, if stop = s.length then mem else mem.set stop 0)

def unescape (esc : Option Str) (line : Str) : Option Str :=
  esc.bind fun esc => if esc.isPrefixOf line then some (line.drop esc.length) else none

/-- What `"%s %s :%s"` makes. -/
def utterance (sett : Sett) (dst text : Str) : Str :=
  (if sett.notices then ascii "NOTICE"
    else ascii "PRIVMSG") ++ ascii " " ++ dst ++ ascii " :" ++ text

/-- `handle_usermsg`, where the memory ends with the terminator of the line. -/
def handleUsermsg (sett : Sett) (lnbuf : Mem) (s : Serv) : Except Fault Serv :=
  let lnbuf := strip lnbuf (cstr lnbuf 0).length
  if (cstr lnbuf 0).length = 0 then .ok s
  else
    match unescape sett.esc (cstr lnbuf 0) with
    | some rest => .ok (printf rest s).2
    | none =>
      if sett.trgmode then
        match strtok lnbuf with
        | (none, _) => .error .badPtr
        | (some tok, lnbuf) => do
          let text ← strAt lnbuf (tok + (cstr lnbuf tok).length + 1)
          .ok (printf (utterance sett (cstr lnbuf tok) text) s).2
      else .ok (printf (utterance sett sett.chanlist (cstr lnbuf 0)) s).2

def stripped (line : Str) : Str := line.rdropWhile isCrlf

def addressed (sett : Sett) (line : Str) : Option (Str × Str) :=
  if sett.trgmode then
    match line.dropWhile isBlank with
    | [] => none
    | c :: rest => some (c :: rest.takeWhile (!isBlank ·), (rest.dropWhile (!isBlank ·)).tail)
  else some (sett.chanlist, line)

def forwarded (sett : Sett) (line : Str) : Option Str :=
  if stripped line = [] then none
  else (unescape sett.esc (stripped line)).or
    ((addressed sett (stripped line)).map fun x => utterance sett x.1 x.2)

/-- Just that is queued, and nothing else is read. -/
def Forwards (sett : Sett) (line : Str) (s : Serv) : Prop :=
  handleUsermsg sett (line ++ [0]) s =
    .ok { s with outQ := s.outQ ++ (forwarded sett line).toList }

/-- There is nothing in the line, or it is escaped. Else, where the destination is in the line, a
blank or the end of the line that was stripped follows it, and what is to be queued is not longer
than what can be. -/
def Regular (sett : Sett) (line : Str) : Prop :=
  stripped line = [] ∨ (unescape sett.esc (stripped line)).isSome ∨
    (sett.trgmode = true → (stripped line).dropWhile isBlank ≠ [] ∧
      (0x20 ∈ (stripped line).dropWhile isBlank ∨ stripped line ≠ line)) ∧
    ∀ text, forwarded sett line = some text → text.length ≤ 1023

variable {sett : Sett} {line s : Str}

theorem stripped_crlf {c : UInt8} (hc : isCrlf c = true) : stripped (s ++ [c]) = stripped s :=
  List.rdropWhile_concat_pos _ _ _ hc

theorem stripped_other {c : UInt8} (hc : ¬isCrlf c = true) : stripped (s ++ [c]) = s ++ [c] :=
  List.rdropWhile_concat_neg _ _ _ hc

theorem strip_eq (s : Str) (post : Mem) : ∃ k, s.length = (stripped s).length + k ∧
    strip (s ++ post) s.length = stripped s ++ (List.replicate k 0 ++ post) := by
  induction s using List.reverseRecOn generalizing post with
  | nil => exact ⟨0, rfl, rfl⟩
  | append_singleton s c ih =>
    have hget : (s ++ [c] ++ post).getD s.length 0 = c := by simp
    rw [List.length_append, List.length_singleton, strip, hget]
    split
    · next hc =>
      obtain ⟨k, hlen, hrest⟩ := ih (0 :: post)
      have hset : (s ++ [c] ++ post).set s.length 0 = s ++ 0 :: post := by simp
      refine ⟨k + 1, ?_, ?_⟩
      · rw [stripped_crlf hc, hlen, Nat.add_assoc]
      · rw [hset, hrest, stripped_crlf hc, List.replicate_succ', List.append_assoc]
        rfl
    · next hc =>
      refine ⟨0, ?_, ?_⟩
      · rw [stripped_other hc, List.length_append, List.length_singleton, Nat.add_zero]
      · rw [stripped_other hc]
        rfl

theorem cstr_start {post : Mem} (hs : ∀ c ∈ s, c ≠ 0) : cstr (s ++ 0 :: post) 0 = s := by
  rw [cstr, List.drop_zero, takeWhile_terminated, takeWhile_nonzero hs]

section Words

variable {sp w q r : Str} {post : Mem}

structure Split (s sp w q : Str) : Prop where
  eq : s = sp ++ (w ++ q)
  blanks : ∀ c ∈ sp, isBlank c = true
  word : ∀ c ∈ w, isBlank c = false
  nonempty : w ≠ []
  ends : ∀ c ∈ q.head?, isBlank c = true

theorem Split.takeWhile (h : Split s sp w q) : (w ++ q).takeWhile (!isBlank ·) = w := by
  rw [List.takeWhile_append_of_pos fun c hc => by simp [h.word c hc]]
  cases q with
  | nil => exact List.append_nil _
  | cons c q =>
    rw [List.takeWhile_cons_of_neg (by simp [h.ends c rfl]), List.append_nil]

theorem Split.dropWhile (h : Split s sp w q) : (w ++ q).dropWhile (!isBlank ·) = q := by
  have hall := List.takeWhile_append_dropWhile (p := (!isBlank ·)) (l := w ++ q)
  rw [h.takeWhile] at hall
  exact List.append_cancel_left hall

theorem Split.start (h : Split s sp w q) :
    s.takeWhile isBlank = sp ∧ s.dropWhile isBlank = w ++ q := by
  have hstop : (w ++ q).takeWhile isBlank = [] ∧ (w ++ q).dropWhile isBlank = w ++ q := by
    cases w with
    | nil => exact absurd rfl h.nonempty
    | cons c w =>
      have hc : ¬isBlank c = true := by simp [h.word c List.mem_cons_self]
      exact ⟨List.takeWhile_cons_of_neg hc, List.dropWhile_cons_of_neg hc⟩
  rw [h.eq, List.takeWhile_append_of_pos h.blanks, List.dropWhile_append_of_pos h.blanks,
    hstop.1, hstop.2, List.append_nil]
  exact ⟨rfl, rfl⟩

theorem exists_split (h : s.dropWhile isBlank ≠ []) : ∃ sp w q, Split s sp w q := by
  obtain ⟨c, t, ht⟩ := List.exists_cons_of_ne_nil h
  have hc : isBlank c = false := by
    have hhead := List.head?_dropWhile_not isBlank s
    rw [ht] at hhead
    simpa using hhead
  refine ⟨s.takeWhile isBlank, (s.dropWhile isBlank).takeWhile (!isBlank ·),
    (s.dropWhile isBlank).dropWhile (!isBlank ·), ?_, ?_, ?_, ?_, ?_⟩
  · rw [List.takeWhile_append_dropWhile, List.takeWhile_append_dropWhile]
  · exact fun c hc => List.mem_takeWhile_imp hc
  · intro c hc
    simpa using List.mem_takeWhile_imp hc
  · rw [ht, List.takeWhile_cons_of_pos (by simp [hc])]
    exact List.cons_ne_nil _ _
  · intro c hc
    have hhead := List.head?_dropWhile_not (!isBlank ·) (s.dropWhile isBlank)
    rw [hc] at hhead
    simpa using hhead

theorem strtok_none (hs : ∀ c ∈ s, c ≠ 0) (h : s.dropWhile isBlank = []) :
    strtok (s ++ 0 :: post) = (none, s ++ 0 :: post) := by
  have hall := List.takeWhile_append_dropWhile (p := isBlank) (l := s)
  rw [h, List.append_nil] at hall
  rw [strtok, cstr_start hs, hall, if_pos rfl]

/-- The word ends where the line does, or a terminator takes the place of the blank behind it. -/
theorem strtok_some (hs : ∀ c ∈ s, c ≠ 0) (h : Split s sp w q) :
    strtok (s ++ 0 :: post) = (some sp.length, sp ++ (w ++ 0 :: (q ++ 0 :: post).tail)) := by
  obtain ⟨htake, hdrop⟩ := h.start
  have hrest : s.drop sp.length = w ++ q := by rw [h.eq, List.drop_left]
  have hlen : s.length = sp.length + (w.length + q.length) := by
    rw [h.eq, List.length_append, List.length_append]
  have hpos : 0 < w.length := List.length_pos_of_ne_nil h.nonempty
  rw [strtok, cstr_start hs, htake, hrest, h.takeWhile, if_neg (by omega), hlen]
  cases q with
  | nil =>
    rw [if_pos (by simp), h.eq]
    simp
  | cons c q =>
    rw [if_neg (by simp), h.eq]
    simp

theorem strAt_text (hs : ∀ c ∈ s, c ≠ 0) (h : Split s sp w q) (k : Nat) :
    strAt (sp ++ (w ++ (0 : UInt8) :: (q ++ 0 :: List.replicate k 0).tail))
        (sp.length + w.length + 1) =
      if q = [] ∧ k = 0 then .error .overrun else .ok q.tail := by
  have hdrop : (sp ++ (w ++ (0 : UInt8) :: (q ++ 0 :: List.replicate k 0).tail)).drop
      (sp.length + w.length + 1) = (q ++ 0 :: List.replicate k 0).tail := by
    rw [← List.append_assoc, ← List.length_append, ← List.drop_drop, List.drop_left]
    rfl
  rw [strAt, cstr, hdrop]
  cases q with
  | nil =>
    cases k with
    | zero => rfl
    | succ k =>
      rw [if_pos (by simp), if_neg (by simp)]
      rfl
  | cons c q =>
    have hq : ∀ c ∈ q, c ≠ 0 := by
      intro d hd
      refine hs d ?_
      rw [h.eq]
      simp [hd]
    rw [if_pos (by simp), if_neg (by simp), List.cons_append, List.tail_cons,
      takeWhile_terminated, takeWhile_nonzero hq, List.tail_cons]

end Words

section Stripped

theorem stripped_front (line : Str) : stripped line <+: line := List.rdropWhile_prefix _ _

theorem stripped_nonzero (hnul : ∀ c ∈ line, c ≠ 0) : ∀ c ∈ stripped line, c ≠ 0 :=
  fun c hc => hnul c ((stripped_front line).subset hc)

theorem strip_line (hnul : ∀ c ∈ line, c ≠ 0) :
    ∃ k, (stripped line ≠ line ↔ k ≠ 0) ∧
      strip (line ++ [0]) (cstr (line ++ [0]) 0).length =
        stripped line ++ 0 :: List.replicate k 0 := by
  obtain ⟨k, hlen, hstrip⟩ := strip_eq line [0]
  refine ⟨k, not_congr ⟨fun h => ?_, fun h => ?_⟩, ?_⟩
  · rw [h] at hlen
    omega
  · exact (stripped_front line).eq_of_length (by omega)
  · rw [cstr_start hnul, hstrip, ← List.replicate_succ', List.replicate_succ]

theorem printf_iff (text : Str) (s : Serv) :
    (printf text s).2 = { s with outQ := s.outQ ++ [text] } ↔ text.length ≤ 1023 := by
  rw [printf]
  dsimp only
  rw [enqueue_eq, Serv.mk.injEq]
  simp only [true_and, and_true, List.append_cancel_left_eq, List.cons.injEq, queuedLine,
    List.take_eq_self_iff]

end Stripped

theorem forwarded_unescaped (hne : stripped line ≠ [])
    (hesc : unescape sett.esc (stripped line) = none) :
    forwarded sett line = (addressed sett (stripped line)).map fun x => utterance sett x.1 x.2 := by
  rw [forwarded, if_neg hne, hesc, Option.none_or]

theorem length_unescape {esc : Option Str} {rest : Str} (h : unescape esc s = some rest) :
    rest.length ≤ s.length := by
  obtain ⟨e, -, he⟩ := Option.bind_eq_some_iff.1 h
  split at he
  · cases he
    exact (List.drop_sublist _ _).length_le
  · cases he

section Addressed

variable {sp w q : Str}

theorem addressed_split (hmode : sett.trgmode = true) (h : Split s sp w q) :
    addressed sett s = some (w, q.tail) := by
  obtain ⟨-, hdrop⟩ := h.start
  have htake := h.takeWhile
  have hrest := h.dropWhile
  obtain ⟨c, w, rfl⟩ := List.exists_cons_of_ne_nil h.nonempty
  have hc : (!isBlank c) = true := by simp [h.word c List.mem_cons_self]
  rw [List.cons_append, List.takeWhile_cons_of_pos (p := (!isBlank ·)) hc] at htake
  rw [List.cons_append, List.dropWhile_cons_of_pos (p := (!isBlank ·)) hc] at hrest
  rw [addressed, if_pos hmode, hdrop, List.cons_append]
  dsimp only
  rw [htake, hrest]

/-- Something follows the word just if a blank does. -/
theorem Split.blank_iff (h : Split s sp w q) : 0x20 ∈ s.dropWhile isBlank ↔ q ≠ [] := by
  rw [h.start.2, List.mem_append]
  constructor
  · rintro (hw | hq)
    · exact absurd (h.word _ hw) (by decide)
    · exact List.ne_nil_of_mem hq
  · intro hne
    obtain ⟨c, q, rfl⟩ := List.exists_cons_of_ne_nil hne
    have hc : c = 0x20 := eq_of_beq (h.ends c rfl)
    exact Or.inr (hc ▸ List.mem_cons_self)

end Addressed

theorem ok_iff {s s' : Serv} : (.ok s : Except Fault Serv) = .ok s' ↔ s = s' :=
  ⟨fun h => Except.ok.inj h, congrArg _⟩

/-- A line of the user is forwarded as it is meant to be just if it is regular. -/
theorem forwards_iff (sett : Sett) (line : Str) (hnul : ∀ c ∈ line, c ≠ 0)
    (hlen : line.length ≤ 1023) (s : Serv) : Forwards sett line s ↔ Regular sett line := by
  obtain ⟨k, hk, hstrip⟩ := strip_line hnul
  have ht := stripped_nonzero hnul
  rw [Forwards, Regular, handleUsermsg, hstrip, cstr_start ht]
  by_cases hempty : stripped line = []
  · rw [forwarded, if_pos hempty, if_pos (by rw [hempty]; rfl)]
    refine iff_of_true ?_ (Or.inl hempty)
    rw [Option.toList_none, List.append_nil]
  · rw [if_neg (List.length_pos_of_ne_nil hempty).ne', or_iff_right hempty]
    cases hesc : unescape sett.esc (stripped line) with
    | some rest =>
      rw [forwarded, if_neg hempty, hesc, Option.some_or]
      refine iff_of_true (congrArg Except.ok ((printf_iff rest s).2 ?_)) (Or.inl rfl)
      exact (length_unescape hesc).trans ((stripped_front line).length_le.trans hlen)
    | none =>
      rw [forwarded_unescaped hempty hesc, or_iff_right (by simp)]
      dsimp only
      cases hmode : sett.trgmode with
      | false =>
        have hadd : addressed sett (stripped line) = some (sett.chanlist, stripped line) := by
          rw [addressed, if_neg (by simp [hmode])]
        rw [if_neg Bool.false_ne_true, hadd, Option.map_some, Option.toList_some, ok_iff,
          printf_iff]
        simp
      | true =>
        rw [if_pos rfl]
        by_cases hblank : (stripped line).dropWhile isBlank = []
        · rw [strtok_none ht hblank]
          refine iff_of_false (fun hno => by cases hno) fun hreg => (hreg.1 rfl).1 hblank
        · obtain ⟨sp, w, q, hsplit⟩ := exists_split hblank
          have hw : ∀ c ∈ w, c ≠ 0 := fun c hc => ht c (by rw [hsplit.eq]; simp [hc])
          rw [strtok_some ht hsplit, addressed_split hmode hsplit, Option.map_some,
            Option.toList_some]
          dsimp only
          rw [cstr_at rfl, takeWhile_nonzero hw, strAt_text ht hsplit k, hsplit.blank_iff, hk]
          by_cases hover : q = [] ∧ k = 0
          · rw [if_pos hover]
            refine iff_of_false (fun hno => by cases hno) fun hreg => ?_
            exact (hreg.1 rfl).2.elim (absurd hover.1) (absurd hover.2)
          · rw [if_neg hover, Fallible.ok_bind, ok_iff, printf_iff]
            have hbehind : q ≠ [] ∨ k ≠ 0 := by rwa [← not_and_or]
            refine ⟨fun hfits => ⟨fun _ => ⟨hblank, hbehind⟩, fun text htext => ?_⟩, fun hreg => ?_⟩
            · exact Option.some.inj htext ▸ hfits
            · exact hreg.2 _ rfl

theorem forwards_word : Forwards ⟨none, true, false, []⟩ (ascii "bob hi\n") (Serv.init 0 0) := by
  refine (forwards_iff ⟨none, true, false, []⟩ (ascii "bob hi\n") (by decide +kernel)
    (by decide +kernel) _).2 ?_
  refine Or.inr (Or.inr ⟨fun _ => ⟨by decide, Or.inl (by decide)⟩, fun text htext => ?_⟩)
  have hline : forwarded ⟨none, true, false, []⟩ (ascii "bob hi\n") =
      some (ascii "PRIVMSG bob :hi") := by decide +kernel
  rw [← Option.some.inj (hline.symm.trans htext)]
  decide +kernel

/-- A line of blanks, a word with nothing behind it, and a text that is too long together with what
comes in front of it. -/
theorem forwards_not :
    ¬Forwards ⟨none, true, false, []⟩ (ascii " \n") (Serv.init 0 0) ∧
    ¬Forwards ⟨none, true, false, []⟩ (ascii "bob") (Serv.init 0 0) ∧
    ¬Forwards ⟨none, false, false, ascii "#a"⟩ (List.replicate 1023 0x61) (Serv.init 0 0) := by
  have hruns : ∀ {sett : Sett} {line : Str}, ((handleUsermsg sett (line ++ [0])
      (Serv.init 0 0)).toOption.any fun s => s.outQ == (forwarded sett line).toList) = false →
        ¬Forwards sett line (Serv.init 0 0) := by
    intro sett line hno h
    rw [h] at hno
    simp [Serv.init, Except.toOption] at hno
  exact ⟨hruns (by decide +kernel), hruns (by decide +kernel), hruns (by decide +kernel)⟩

end Srsirc.UserMessage
