import Srsirc.FailedSetters
import Srsirc.Utterance

namespace Srsirc.StarttlsMode

open CharMap Message UserBase Context Conn CoreHandlers Capabilities Connect WantedCaps
open FailedSetters Utterance

/-- Calls of `irc_set_starttls`, each with the mode and whether the capability is a must. -/
def setAll (irc : Irc) (calls : List (Int × Bool)) : Irc :=
  calls.foldl (fun irc call => (setStarttls irc call.1 call.2).2) irc

def First (mode : Int) : Prop := mode ≠ 0 ∧ mode ≠ 1

instance (mode : Int) : Decidable (First mode) := inferInstanceAs (Decidable (_ ∧ _))

/-- `irc_connect` starts with STARTTLS once the connection is there. -/
def SendsStarttls (irc : Irc) : Prop :=
  ∃ irc', openConn irc = (true, irc') ∧ irc'.dumb = false ∧
    ascii "STARTTLS" <+: uttered irc'.con (greet irc').2.con

structure Reflects (irc : Irc) (mode : Int) (musthave : Bool) : Prop where
  starttls : irc.starttls = true ↔ mode ≠ 0
  starttlsFirst : irc.starttlsFirst = true ↔ First mode
  wanted : ∀ b, (ascii "tls", b) ∈ wanted irc.v3caps ↔ mode = 1 ∧ b = musthave
  early : SendsStarttls irc → First mode

structure Ready (irc : Irc) : Prop where
  ssl : irc.con.ssl = false
  al : ∀ ok ∈ irc.base.al, ok = true
  reachable : ∃ n, Reachable ⟨irc, n, true⟩
  room : (others irc.v3caps (ascii "tls")).length < MAX_V3CAPS

variable {irc irc' : Irc} {mode : Int} {musthave : Bool}

section Calls

theorem Ready.distinct (h : Ready irc) : Distinct irc.v3caps := by
  obtain ⟨n, hn⟩ := h.reachable
  exact hn.distinct

theorem malloc_granted {al : BucketList.Alloc} (h : ∀ ok ∈ al, ok = true) :
    (BucketList.malloc al).1 = true := by
  cases al with
  | nil => rfl
  | cons ok al => exact h ok List.mem_cons_self

theorem malloc_rest {al : BucketList.Alloc} (h : ∀ ok ∈ al, ok = true) :
    ∀ ok ∈ (BucketList.malloc al).2, ok = true := by
  cases al with
  | nil => exact h
  | cons ok al => exact fun ok' hok' => h ok' (List.mem_cons_of_mem _ hok')

theorem others_cleared (hd : Distinct irc.v3caps) (name : Str) :
    (others (cleared irc.v3caps name) name).length = (others irc.v3caps name).length := by
  rw [others_same fun cap hcap => ((mem_cleared hd).1 hcap).2]
  exact (cleared_perm hd name).length_eq

/-- What a call that cannot fail does. Of the setting of before it leaves `starttlsFirst`. -/
theorem setStarttls_ready (h : Ready irc) (mode : Int) (musthave : Bool) :
    ∃ al, (∀ ok ∈ al, ok = true) ∧ setStarttls irc mode musthave = (true, { irc with
      v3caps := cleared irc.v3caps (ascii "tls") ++
        if mode = 1 then [fresh (ascii "tls") musthave] else []
      starttls := decide (mode ≠ 0)
      starttlsFirst := irc.starttlsFirst || decide (First mode)
      base := { irc.base with al } }) := by
  by_cases hone : mode = 1
  · subst hone
    obtain ⟨base, hcall⟩ := setStarttls_one h.distinct h.ssl musthave
    have hgoes : ¬(MAX_V3CAPS ≤ (others irc.v3caps (ascii "tls")).length ∨
        (BucketList.malloc irc.base.al).1 = false) := by
      rintro (hfull | hfails)
      · exact Nat.not_le.2 h.room hfull
      · rw [malloc_granted h.al] at hfails
        cases hfails
    refine ⟨(BucketList.malloc irc.base.al).2, malloc_rest h.al, ?_⟩
    have hfirst : decide (First 1) = false := rfl
    rw [hcall, if_neg hgoes, hfirst, Bool.or_false]
    rfl
  · refine ⟨irc.base.al, h.al, ?_⟩
    have hfirst : decide (First mode) = decide (mode ≠ 0) :=
      decide_eq_decide.2 (and_iff_left hone)
    rw [setStarttls_other hone fun _ => h.ssl, if_neg hone, List.append_nil, hfirst]
    rfl

theorem Ready.setStarttls (h : Ready irc) (mode : Int) (musthave : Bool) :
    Ready (setStarttls irc mode musthave).2 := by
  obtain ⟨al, hal, hcall⟩ := setStarttls_ready h mode musthave
  obtain ⟨n, hn⟩ := h.reachable
  have hreach := hn.call (.starttls mode musthave)
  rw [Setter.call, setStarttls_irc rfl, hcall] at hreach
  rw [hcall]
  refine ⟨h.ssl, hal, ⟨n, hreach⟩, ?_⟩
  have hnew :
      others (if mode = 1 then [fresh (ascii "tls") musthave] else []) (ascii "tls") = [] := by
    split <;> rfl
  have hlen : (others (cleared irc.v3caps (ascii "tls") ++
      if mode = 1 then [fresh (ascii "tls") musthave] else []) (ascii "tls")).length =
        (others irc.v3caps (ascii "tls")).length := by
    rw [others, List.filter_append, ← others, ← others, hnew, List.append_nil,
      others_cleared h.distinct]
  exact hlen ▸ h.room

theorem Ready.setAll (h : Ready irc) (calls : List (Int × Bool)) : Ready (setAll irc calls) := by
  induction calls generalizing irc with
  | nil => exact h
  | cons call calls ih => exact ih (h.setStarttls call.1 call.2)

/-- The flag stays once a call has set it. -/
theorem starttlsFirst_setAll (h : Ready irc) (calls : List (Int × Bool)) :
    (setAll irc calls).starttlsFirst =
      (irc.starttlsFirst || calls.any fun call => decide (First call.1)) := by
  induction calls generalizing irc with
  | nil => exact (Bool.or_false _).symm
  | cons call calls ih =>
    obtain ⟨al, -, hcall⟩ := setStarttls_ready h call.1 call.2
    have hstep := ih (h.setStarttls call.1 call.2)
    rw [hcall] at hstep
    rw [List.any_cons, ← Bool.or_assoc, ← hstep, StarttlsMode.setAll, List.foldl_cons, hcall,
      StarttlsMode.setAll]

theorem setAll_last (irc : Irc) (calls : List (Int × Bool)) (mode : Int) (musthave : Bool) :
    setAll irc (calls ++ [(mode, musthave)]) =
      (Capabilities.setStarttls (setAll irc calls) mode musthave).2 := by
  rw [setAll, List.foldl_append]
  rfl

end Calls

section Greeting

theorem connWriteRaw_sent (con : Iconn) (buf : Str) :
    ∃ ws, (connWriteRaw con buf).2.sent = con.sent ++ ws ∧ (ws = [] ∨ ws = [(con.shnd, buf)]) ∧
      ((connWriteRaw con buf).1 = true → ws = [(con.shnd, buf)]) := by
  rw [connWriteRaw]
  split
  · exact ⟨[], (List.append_nil _).symm, Or.inl rfl, fun h => by cases h⟩
  · rw [askWrite]
    cases (ask con.world.write).1 with
    | false => exact ⟨[], (List.append_nil _).symm, Or.inl rfl, fun h => by cases h⟩
    | true => exact ⟨_, rfl, Or.inr rfl, fun _ => rfl⟩

theorem connWrite_uttered (con : Iconn) (line : Str) :
    uttered con (connWrite con line).2 <+: terminated line := by
  obtain ⟨ws, hsent, hws, hok⟩ := connWriteRaw_sent con line
  rw [uttered, connWrite]
  cases hline : connWriteRaw con line with
  | mk ok con₁ =>
    rw [hline] at hsent hok
    cases ok with
    | false =>
      dsimp only at hsent ⊢
      rw [hsent, List.drop_left]
      obtain rfl | rfl := hws
      · exact List.nil_prefix
      · rw [List.map_singleton, List.flatten_singleton]
        exact List.prefix_append _ _
    | true =>
      obtain ⟨ws', hsent', hws', -⟩ :=
        connWriteRaw_sent con₁ (if crlf <:+ line then [] else crlf)
      dsimp only at hsent ⊢
      rw [hsent', hsent, List.append_assoc, List.drop_left, hok rfl, List.map_append,
        List.flatten_append, List.map_singleton, List.flatten_singleton, terminated,
        List.prefix_append_right_inj]
      obtain rfl | rfl := hws'
      · exact List.nil_prefix
      · rw [List.map_singleton, List.flatten_singleton]

theorem logon_start (irc : Irc) :
    ∃ a b rest, logonIntro irc ++ registration irc = a :: b :: rest ∧ [a, b] ≠ ascii "ST" := by
  have hreg : ∃ a b rest, registration irc = a :: b :: rest ∧ [a, b] ≠ ascii "ST" := by
    rw [registration]
    split
    · exact ⟨0x53, 0x45, _, rfl, by decide⟩
    · exact ⟨0x4e, 0x49, _, rfl, by decide⟩
  rw [logonIntro]
  split
  · split
    · exact hreg
    · split
      · exact hreg
      · exact ⟨0x50, 0x41, _, rfl, by decide⟩
  · exact ⟨0x43, 0x41, _, rfl, by decide⟩

theorem sendLogon_sent (irc : Irc) :
    (sendLogon irc).2.con.sent = irc.con.sent ∨
      (sendLogon irc).2.con.sent =
        (connWrite irc.con (snprintf 512 (logonIntro irc ++ registration irc))).2.sent := by
  rw [sendLogon]
  split
  · exact Or.inl rfl
  · split
    · exact Or.inl rfl
    · split
      · exact Or.inl rfl
      · refine Or.inr ?_
        rw [ircWrite]
        split
        · next h => rw [h]; rfl
        · next h => rw [h]

theorem sendLogon_quiet (irc : Irc) :
    ¬ascii "STARTTLS" <+: uttered irc.con (sendLogon irc).2.con := by
  intro hpre
  obtain hsent | hsent := sendLogon_sent irc
  · rw [uttered, hsent, List.drop_length] at hpre
    exact absurd (List.prefix_nil.1 hpre) (by decide)
  · obtain ⟨a, b, rest, hlogon, hne⟩ := logon_start irc
    have hline := connWrite_uttered irc.con (snprintf 512 (logonIntro irc ++ registration irc))
    rw [uttered, hsent] at hpre
    have hstart := hpre.trans hline
    rw [hlogon, terminated, snprintf] at hstart
    refine hne ?_
    obtain ⟨h₁, hstart⟩ := List.cons_prefix_cons.1 hstart
    obtain ⟨h₂, -⟩ := List.cons_prefix_cons.1 hstart
    rw [← h₁, ← h₂]
    rfl

theorem sendsStarttls_flag (h : SendsStarttls irc) : irc.starttlsFirst = true := by
  obtain ⟨irc', hopen, -, hpre⟩ := h
  obtain ⟨-, -, _, _, _, _, _, _, rfl⟩ := Registry.openConn_cases hopen
  by_contra hflag
  rw [greet, if_neg hflag] at hpre
  exact sendLogon_quiet _ hpre

end Greeting

theorem wanted_set (hd : Distinct irc.v3caps) (mode : Int) (musthave b : Bool) :
    (ascii "tls", b) ∈ wanted (cleared irc.v3caps (ascii "tls") ++
      if mode = 1 then [fresh (ascii "tls") musthave] else []) ↔ mode = 1 ∧ b = musthave := by
  have hno : ∀ cap ∈ cleared irc.v3caps (ascii "tls"), cap.name ≠ ascii "tls" :=
    fun cap hcap => ((mem_cleared hd).1 hcap).2
  split
  · next hone => rw [wanted_fresh hno rfl, and_iff_right hone]
  · next hother =>
    refine iff_of_false ?_ fun h => hother h.1
    rw [List.append_nil]
    rintro ⟨cap, hcap, heq⟩
    exact hno cap hcap (Prod.mk.inj heq).1

/-- The setting is that of the last call just if this one asks for TLS ahead of the logon, or none
has done so before. -/
theorem reflects_iff (irc : Irc) (hready : Ready irc) (calls : List (Int × Bool)) (mode : Int)
    (musthave : Bool) :
    Reflects (setAll irc (calls ++ [(mode, musthave)])) mode musthave ↔
      First mode ∨ irc.starttlsFirst = false ∧ ∀ call ∈ calls, ¬First call.1 := by
  have hthen := hready.setAll calls
  obtain ⟨al, -, hcall⟩ := setStarttls_ready hthen mode musthave
  have hset : setAll irc (calls ++ [(mode, musthave)]) = _ :=
    (setAll_last irc calls mode musthave).trans (congrArg Prod.snd hcall)
  have hfirst : (setAll irc (calls ++ [(mode, musthave)])).starttlsFirst =
      (irc.starttlsFirst || calls.any (fun call => decide (First call.1)) ||
        decide (First mode)) := by
    rw [hset, ← starttlsFirst_setAll hready calls]
  have hquiet : (irc.starttlsFirst || calls.any fun call => decide (First call.1)) = false ↔
      irc.starttlsFirst = false ∧ ∀ call ∈ calls, ¬First call.1 := by
    simp only [Bool.or_eq_false_iff, List.any_eq_false, decide_eq_true_iff]
  rw [← hquiet]
  constructor
  · intro h
    by_cases hlast : First mode
    · exact Or.inl hlast
    · refine Or.inr (Bool.eq_false_iff.2 fun hset => hlast (h.starttlsFirst.1 ?_))
      rw [hfirst, hset, Bool.true_or]
  · intro h
    have hflag : (setAll irc (calls ++ [(mode, musthave)])).starttlsFirst = true ↔ First mode := by
      rw [hfirst, Bool.or_eq_true, decide_eq_true_iff]
      refine or_iff_right_of_imp fun hset => h.resolve_right ?_
      rw [hset]
      exact Bool.noConfusion
    refine ⟨?_, hflag, fun b => ?_, fun hsends => hflag.1 (sendsStarttls_flag hsends)⟩
    · rw [hset]
      exact decide_eq_true_iff
    · rw [hset]
      exact wanted_set hthen.distinct mode musthave b

/-- The capability, nothing, TLS first. -/
theorem reflects_first :
    Reflects (setAll (ircInit (0, 0) [] (serving [])) [(1, true), (0, false), (2, true)]) 2 true :=
  (reflects_iff (ircInit (0, 0) [] (serving [])) ⟨rfl, by decide, ⟨0, .start rfl⟩, by decide⟩
    [(1, true), (0, false)] 2 true).2 (Or.inl (by decide))

/-- STARTTLS is switched off, and comes first all the same. -/
theorem reflects_stale :
    let irc := setAll (ircInit (0, 0) [] (serving [⟨[], []⟩])) [(2, true), (0, true)]
    ¬Reflects irc 0 true ∧ SendsStarttls irc := by
  refine ⟨fun h => ?_, ?_⟩
  · exact absurd (h.starttlsFirst.1 (by decide +kernel)) (by decide)
  · refine ⟨_, Prod.ext (by decide +kernel) rfl, by decide +kernel, by decide +kernel⟩

end Srsirc.StarttlsMode
