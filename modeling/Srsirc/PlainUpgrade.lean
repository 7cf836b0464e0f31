import Srsirc.Transport

namespace Srsirc.PlainUpgrade

open CharMap Memory Message ReadBuffer BufferData LineReading TagGrammar Reassembly TwinBuffers
open Context Conn
open CoreHandlers Capabilities Connect HandlerSpecs CapSpecs LogonRun Transport Fallible

theorem delims_of_candidates {s : Str} (h : candidates (s ++ [0x0d]) = []) :
    ∀ c ∈ s, isDelim c = true := by
  induction hn : s.length using Nat.strong_induction_on generalizing s with
  | _ n ih =>
    obtain hs | ⟨w, d, e, rfl, hw, hd⟩ := plain_or_line s
    · rw [candidates_line hs rfl] at h
      have hnil : s = [] := by
        by_contra hne
        simp [hne] at h
      simp [hnil]
    · rw [List.append_assoc, List.cons_append, candidates_line hw hd] at h
      obtain ⟨hw', he⟩ := List.append_eq_nil_iff.1 h
      have hnil : w = [] := by
        by_contra hne
        simp [hne] at hw'
      subst hnil
      have hall := ih e.length (by simp at hn; omega) he rfl
      intro c hc
      obtain rfl | hc := List.mem_cons.1 hc
      · exact hd
      · exact hall c hc

variable {con : Iconn} {ls : List Str}

inductive Fetched (con : Iconn) (ls : List Str) : Option (Incoming × Iconn) → Prop
  | blocked (hls : ls = []) : Fetched con ls none
  | timeout {con' : Iconn} (hon : con'.online = true) (hp : Pending con'.rctx (source con') ls)
      (hsize : (source con').size < (source con).size) : Fetched con ls (some (.timeout, con'))
  | got {inc : Incoming} {con' : Iconn} (hls : ls ≠ []) (hinc : outcome inc ≠ []) :
      Fetched con ls (some (inc, con'))

theorem source_setSource (con : Iconn) (src : Source) (rctx : Readctx) :
    source { setSource con src with rctx } = src := by
  rw [setSource, source]
  cases con.shnd <;> rfl

theorem connRead_fetched (hon : con.online = true) (hp : Pending con.rctx (source con) ls) :
    Fetched con ls (connRead con 0) := by
  obtain ⟨_, hr⟩ := ioRead_replied 0 hp
  rw [connRead, hon]
  simp only [Bool.not_true, Bool.false_eq_true, if_false]
  generalize (ioRead 0 con.rctx (source con)).2 = out at hr ⊢
  cases hr with
  | blocked hls => exact Fetched.blocked hls
  | @timeout r src reply hret hp' hn =>
    simp only [hret, if_true]
    have hsrc := source_setSource con src r
    refine Fetched.timeout ((setSource_online con src).trans hon) ?_ ?_
    · rw [hsrc]
      exact hp'
    · rw [hsrc]
      exact hn
  | full hret hp' hls =>
    simp only [hret]
    exact Fetched.got (by simp [hls]) (by simp [outcome])
  | line hret ho hp' hls =>
    simp only [if_neg hret]
    split <;> exact Fetched.got (by simp [hls]) (by simp [outcome])

theorem delivered_nil (n : Nat) (hon : con.online = true) (hp : Pending con.rctx (source con) []) :
    delivered (List.replicate n (.read 0)) con = [] := by
  induction n generalizing con with
  | zero => rfl
  | succ n ih =>
    have hf := connRead_fetched hon hp
    rw [List.replicate_succ, delivered]
    generalize connRead con 0 = out at hf ⊢
    cases hf with
    | blocked => rfl
    | timeout hon' hp' _ => exact ih hon' hp'
    | got hls => exact absurd rfl hls

theorem delivered_ne_nil (n : Nat) (hon : con.online = true) (hp : Pending con.rctx (source con) ls)
    (hls : ls ≠ []) (hn : (source con).size < n) :
      delivered (List.replicate n (.read 0)) con ≠ [] := by
  induction n generalizing con with
  | zero => omega
  | succ n ih =>
    have hf := connRead_fetched hon hp
    rw [List.replicate_succ, delivered]
    generalize connRead con 0 = out at hf ⊢
    cases hf with
    | blocked hls' => exact absurd hls' hls
    | timeout hon' hp' hsize => exact ih hon' hp' (by omega)
    | got _ hinc => exact fun h => hinc (List.append_eq_nil_iff.1 h).1

theorem data_reset (r : Readctx) : Readctx.data { r with wptr := 0, eptr := 0 } = [] := by
  simp [Readctx.data]

/-- When a 670 has switched the connection to TLS, what is read from then on depends on
nothing that came before if and only if no line, and no part of one, is left in the buffer. -/
theorem upgrade_clean_iff {irc irc' : Irc} {msg : Msg} {nargs : Nat} {logon : Bool} {flags : Flags}
    (hreach : Reached irc.con) (h : handle_670 irc msg nargs logon = .ok (flags, irc'))
    (hc : flags.has CANT_PROCEED = false) :
    (∀ tls us, delivered us (receiving irc'.con tls) =
      delivered us (drained (receiving irc'.con tls))) ↔
      ∀ c ∈ irc.con.rctx.data, isDelim c = true := by
  have hup := (handle_670_secures irc msg nargs logon _ h).con hc
  have hrctx : irc'.con.rctx = irc.con.rctx := by
    obtain ⟨_, _, hcon⟩ := hup
    rw [hcon]
  have honline : irc'.con.online = irc.con.online := by
    obtain ⟨_, _, hcon⟩ := hup
    rw [hcon]
  have hshnd : irc'.con.shnd = true := by
    obtain ⟨_, _, hcon⟩ := hup
    rw [hcon]
  obtain ⟨hb, hoff⟩ := hreach.sound
  rw [← hrctx] at hb hoff ⊢
  have hbr := bounds_reset hb
  constructor
  · intro hsame
    cases hon : irc.con.online with
    | false => simp [Readctx.data, hoff hon]
    | true =>
      apply delims_of_candidates
      by_contra hne
      let con := receiving irc'.con [.chunk 0x0d []]
      have hon' : con.online = true := honline.trans hon
      have hsrc : source con = [.chunk 0x0d []] := by simp [con, source, receiving, hshnd]
      have hq : Quiet (source con) := by rw [hsrc]; simp [Quiet]
      have hdry : Pending (drained con).rctx (source con) [] :=
        ⟨hbr, hq, by rw [drained, data_reset, hsrc]; rfl⟩
      have hspec := hsame [.chunk 0x0d []] (List.replicate 3 (.read 0))
      rw [@delivered_nil (drained con) 3 hon' hdry] at hspec
      refine @delivered_ne_nil con _ 3 hon' ⟨hb, hq, rfl⟩ ?_ (by rw [hsrc]; decide) hspec
      rw [hsrc]
      exact hne
  · intro hdelims tls us
    refine (delivered_akin us ⟨_, _, rfl, ?_⟩).symm
    have hdry := skipDelims_drained hb hdelims
    have hdry' := skipDelims_drained hbr (by simp [data_reset])
    rw [show (receiving irc'.con tls).rctx = irc'.con.rctx from rfl, hdry, hdry']
    exact Twin.refl hbr

theorem upgrade_clean_iff_start :
    let irc := { ircInit (0, 0) [] (serving []) with
      starttlsFirst := true
      con := (connConnect (connInit (serving [⟨[], []⟩]))).2 }
    ∃ irc', handle_670 irc (.ofLine (ascii ":s 670 me :go")) 4 true = .ok (STARTTLS_OVER, irc') ∧
      ((∀ tls us, delivered us (receiving irc'.con tls) =
          delivered us (drained (receiving irc'.con tls))) ↔
        ∀ c ∈ irc.con.rctx.data, isDelim c = true) :=
  ⟨_, rfl, @upgrade_clean_iff _ _ (.ofLine (ascii ":s 670 me :go")) 4 true _
    (Reached.connect (Reached.init _)) rfl (by decide)⟩

def together (ls : List String) : Source :=
  match ls.flatMap fun l => ascii l ++ crlf with
  | [] => []
  | c :: s => [.chunk c s]

/-- With a peer that never says a word through TLS. -/
def injected : Irc :=
  (setStarttls (ircInit (0, 0) [] (serving [⟨together [":s 670 me :go", ":s 001 evil :hi",
    ":s 004 evil host v u c"], []⟩])) 2 true).2

/-- The logon goes by lines that came in clear behind the 670. -/
theorem plaintext_injected :
    ∃ c, connect noUsers 8 injected = some (.ok c) ∧ c.ok = true ∧ c.irc.con.handshakes = 1 ∧
      c.irc.con.shnd = true ∧ c.msgs.map (·.fld 1) =
        [.ok (ascii "670"), .ok (ascii "001"), .ok (ascii "004")] ∧
      c.irc.info.mynick = ascii "evil" := by
  obtain ⟨c, hc, hq⟩ := ok_of_any (x := connect noUsers 8 injected) (q := fun c =>
    c.ok && c.irc.con.handshakes == 1 && c.irc.con.shnd && decide (c.msgs.map (·.fld 1) =
      [.ok (ascii "670"), .ok (ascii "001"), .ok (ascii "004")]) &&
        c.irc.info.mynick == ascii "evil")
    (by decide +kernel)
  simp only [Bool.and_eq_true, beq_iff_eq, decide_eq_true_eq] at hq
  exact ⟨c, hc, hq.1.1.1.1, hq.1.1.1.2, hq.1.1.2, hq.1.2, hq.2⟩

end Srsirc.PlainUpgrade
