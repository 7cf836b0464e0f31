import Srsirc.CapSpecs
import Srsirc.Connect
import Srsirc.WantedCaps

namespace Srsirc.FailedSetters

open CharMap Message UserBase Context Conn Capabilities CapSpecs Connect WantedCaps
open BucketList (Alloc)

/-- The context, the length of the SASL message in it, and whether TLS is compiled in. -/
structure Config where
  irc : Irc
  saslMsgLen : Nat
  haveSsl : Bool

/-- `lsi_com_update_strprop` on the mechanism. -/
def updateMech (irc : Irc) : Option Str → Bool × Irc
  | none => (true, { irc with saslMech := none })
  | some mech =>
    match irc.strdup mech with
    | (none, irc) => (false, irc)
    | (some n, irc) => (true, { irc with saslMech := some n })

/-- `irc_set_sasl`, with the bytes that `msg` and `n` stand for. -/
def Config.setSasl (c : Config) (mech : Option Str) (msg : Str) (musthave : Bool) :
    Bool × Config :=
  match updateMech c.irc mech with
  | (false, irc) => (false, { c with irc })
  | (true, irc) =>
    match (clearCap irc (ascii "sasl")).malloc with
    | (false, irc) => (false, { c with irc := { irc with saslMsg := none, saslMech := none } })
    | (true, irc) =>
      (true, { c with
        irc := (wantCap { irc with saslMsg := some msg } (ascii "sasl") musthave).2
        saslMsgLen := msg.length })

/-- `irc_set_starttls`. -/
def Config.setStarttls (c : Config) (mode : Int) (musthave : Bool) : Bool × Config :=
  if !c.haveSsl then (false, c)
  else
    match Capabilities.setStarttls c.irc mode musthave with
    | (ok, irc) => (ok, { c with irc })

inductive Setter
  | sasl (mech : Option Str) (msg : Str) (musthave : Bool)
  | starttls (mode : Int) (musthave : Bool)

def Setter.call (c : Config) : Setter → Bool × Config
  | sasl mech msg musthave => c.setSasl mech msg musthave
  | starttls mode musthave => c.setStarttls mode musthave

structure Unchanged (c c' : Config) : Prop where
  saslMech : c'.irc.saslMech = c.irc.saslMech
  saslMsg : c'.irc.saslMsg = c.irc.saslMsg
  saslMsgLen : c'.saslMsgLen = c.saslMsgLen
  starttls : c'.irc.starttls = c.irc.starttls
  starttlsFirst : c'.irc.starttlsFirst = c.irc.starttlsFirst
  wanted : wanted c'.irc.v3caps = wanted c.irc.v3caps

def copyMech (al : Alloc) : Option Str → Bool × Alloc
  | none => (true, al)
  | some _ => BucketList.malloc al

/-- Either the call cannot fail once it has begun to take the old values down, or there is none:
no mechanism, message or capability of before, or no STARTTLS. -/
def Spared (c : Config) : Setter → Prop
  | .sasl mech _ _ =>
    (copyMech c.irc.base.al mech).1 = true →
    (BucketList.malloc (copyMech c.irc.base.al mech).2).1 = false →
    c.irc.saslMech = none ∧ c.irc.saslMsg = none ∧
      ∀ cap ∈ c.irc.v3caps, cap.name ≠ ascii "sasl"
  | .starttls mode _ =>
    c.haveSsl = true → c.irc.con.ssl = false → mode = 1 →
    MAX_V3CAPS ≤ (others c.irc.v3caps (ascii "tls")).length ∨
      (BucketList.malloc c.irc.base.al).1 = false →
    c.irc.starttls = false ∧ ∀ cap ∈ c.irc.v3caps, cap.name ≠ ascii "tls"

variable {irc : Irc} {c : Config}

theorem Unchanged.refl (c : Config) : Unchanged c c := ⟨rfl, rfl, rfl, rfl, rfl, rfl⟩

theorem updateMech_cases (irc : Irc) (mech : Option Str) :
    updateMech irc mech = if (copyMech irc.base.al mech).1 then
      (true, { irc with
        saslMech := mech
        base := { irc.base with al := (copyMech irc.base.al mech).2 } })
    else (false, { irc with base := { irc.base with al := (copyMech irc.base.al mech).2 } }) := by
  cases mech with
  | none => rfl
  | some mech =>
    rw [updateMech, Irc.strdup, Base.strdup, Base.malloc, copyMech]
    dsimp only
    cases (BucketList.malloc irc.base.al).1 <;> rfl

section Sasl

variable {mech : Option Str}

theorem setSasl_refused (h : (copyMech c.irc.base.al mech).1 = false) (msg : Str)
    (musthave : Bool) :
    ∃ base, c.setSasl mech msg musthave = (false, { c with irc := { c.irc with base } }) := by
  rw [Config.setSasl, updateMech_cases, h]
  exact ⟨_, rfl⟩

theorem setSasl_copied (h : (copyMech c.irc.base.al mech).1 = true) (msg : Str)
    (musthave : Bool) :
    c.setSasl mech msg musthave =
      let irc := { c.irc with
        v3caps := cleared c.irc.v3caps (ascii "sasl")
        base := { c.irc.base with al := (BucketList.malloc (copyMech c.irc.base.al mech).2).2 } }
      if (BucketList.malloc (copyMech c.irc.base.al mech).2).1 then
        (true, { c with
          irc := (wantCap { irc with saslMech := mech, saslMsg := some msg } (ascii "sasl")
            musthave).2
          saslMsgLen := msg.length })
      else (false, { c with irc := { irc with saslMsg := none, saslMech := none } }) := by
  rw [Config.setSasl, updateMech_cases, h, if_pos rfl]
  dsimp only
  rw [clearCap_eq, Irc.malloc, Base.malloc]
  cases (BucketList.malloc (copyMech c.irc.base.al mech).2).1 <;> rfl

theorem setSasl_spared (hd : Distinct c.irc.v3caps) (mech : Option Str) (msg : Str)
    (musthave : Bool) :
    ((c.setSasl mech msg musthave).1 = false → Unchanged c (c.setSasl mech msg musthave).2) ↔
      Spared c (.sasl mech msg musthave) := by
  cases hcopy : (copyMech c.irc.base.al mech).1 with
  | false =>
    obtain ⟨base, hcall⟩ := setSasl_refused hcopy msg musthave
    rw [hcall]
    refine iff_of_true (fun _ => ⟨rfl, rfl, rfl, rfl, rfl, rfl⟩) fun hno => ?_
    rw [hcopy] at hno
    cases hno
  | true =>
    have hcall := setSasl_copied hcopy msg musthave
    dsimp only at hcall
    cases hmsg : (BucketList.malloc (copyMech c.irc.base.al mech).2).1 with
    | true =>
      rw [hmsg, if_pos rfl] at hcall
      rw [hcall]
      refine iff_of_true (fun hno => by cases hno) fun _ hno => ?_
      rw [hmsg] at hno
      cases hno
    | false =>
      rw [hmsg, if_neg Bool.false_ne_true] at hcall
      rw [hcall]
      constructor
      · intro h _ _
        obtain ⟨hmech, hsmsg, -, -, -, hwant⟩ := h rfl
        exact ⟨hmech.symm, hsmsg.symm, (wanted_cleared_iff hd _).1 hwant⟩
      · intro h _
        obtain ⟨hmech, hsmsg, hno⟩ := h hcopy hmsg
        rw [cleared_same hno]
        exact ⟨hmech.symm, hsmsg.symm, rfl, rfl, rfl, rfl⟩

theorem setSasl_irc (c : Config) (mech msg : Str) (musthave : Bool) :
    (c.setSasl (some mech) msg musthave).2.irc =
      (Capabilities.setSasl c.irc mech msg musthave).2 := by
  rw [Config.setSasl, updateMech, Capabilities.setSasl]
  rcases c.irc.strdup mech with ⟨_ | n, irc'⟩
  · rfl
  · dsimp only
    rw [clearCap_eq, clearCap_eq, Irc.malloc, Irc.malloc]
    cases irc'.base.malloc.1 <;> rfl

end Sasl

section Starttls

def reset (irc : Irc) (base : Base) : Irc :=
  { irc with v3caps := cleared irc.v3caps (ascii "tls"), starttls := false, base }

theorem reset_spared (hd : Distinct c.irc.v3caps) (base : Base) :
    Unchanged c { c with irc := reset c.irc base } ↔
      c.irc.starttls = false ∧ ∀ cap ∈ c.irc.v3caps, cap.name ≠ ascii "tls" := by
  constructor
  · rintro ⟨-, -, -, hstarttls, -, hwant⟩
    exact ⟨hstarttls.symm, (wanted_cleared_iff hd _).1 hwant⟩
  · rintro ⟨hstarttls, hno⟩
    refine ⟨rfl, rfl, rfl, hstarttls.symm, rfl, ?_⟩
    rw [reset, cleared_same hno]

/-- With the mode 1, a slot for the capability and memory are needed. -/
theorem setStarttls_one (hd : Distinct irc.v3caps) (hssl : irc.con.ssl = false)
    (musthave : Bool) :
    ∃ base, Capabilities.setStarttls irc 1 musthave =
      if MAX_V3CAPS ≤ (others irc.v3caps (ascii "tls")).length ∨
          (BucketList.malloc irc.base.al).1 = false then (false, reset irc base)
      else (true, { reset irc { irc.base with al := (BucketList.malloc irc.base.al).2 } with
        v3caps := cleared irc.v3caps (ascii "tls") ++ [fresh (ascii "tls") musthave]
        starttls := true }) := by
  have hno : ∀ cap ∈ (reset irc irc.base).v3caps, cap.name ≠ ascii "tls" :=
    fun cap hcap => ((mem_cleared hd).1 hcap).2
  have hlen : (reset irc irc.base).v3caps.length = (others irc.v3caps (ascii "tls")).length :=
    (cleared_perm hd _).length_eq
  have hstart : { clearCap irc (ascii "tls") with starttls := false } = reset irc irc.base := by
    rw [clearCap_eq, reset]
  rw [Capabilities.setStarttls, if_neg (by simp [hssl])]
  dsimp only
  rw [if_neg (by decide), if_pos rfl, hstart, wantCap_new hno, hlen]
  by_cases hfull : MAX_V3CAPS ≤ (others irc.v3caps (ascii "tls")).length
  · refine ⟨irc.base, ?_⟩
    rw [if_pos hfull, if_pos (Or.inl hfull)]
  · refine ⟨{ irc.base with al := (BucketList.malloc irc.base.al).2 }, ?_⟩
    rw [if_neg hfull]
    have hmalloc : (reset irc irc.base).malloc =
        ((BucketList.malloc irc.base.al).1,
          reset irc { irc.base with al := (BucketList.malloc irc.base.al).2 }) := rfl
    rw [hmalloc]
    cases hal : (BucketList.malloc irc.base.al).1 with
    | false => rw [if_pos (Or.inr rfl)]; rfl
    | true => rw [if_neg (not_or.2 ⟨hfull, Bool.noConfusion⟩)]; rfl

theorem setStarttls_other {mode : Int} (hmode : mode ≠ 1)
    (hssl : mode ≠ 0 → irc.con.ssl = false) (musthave : Bool) :
    Capabilities.setStarttls irc mode musthave = (true, { reset irc irc.base with
      starttls := decide (mode ≠ 0)
      starttlsFirst := irc.starttlsFirst || decide (mode ≠ 0) }) := by
  rw [Capabilities.setStarttls, if_neg, clearCap_eq]
  swap
  · rintro ⟨hon, hne⟩
    rw [hssl hne] at hon
    cases hon
  dsimp only
  by_cases hzero : mode = 0
  · rw [if_pos hzero, decide_eq_false (not_not.2 hzero), Bool.or_false, reset]
  · rw [if_neg hzero, if_neg hmode, decide_eq_true hzero, Bool.or_true, reset]

theorem setStarttls_irc (hhave : c.haveSsl = true) (mode : Int) (musthave : Bool) :
    c.setStarttls mode musthave = ((Capabilities.setStarttls c.irc mode musthave).1,
      { c with irc := (Capabilities.setStarttls c.irc mode musthave).2 }) := by
  rw [Config.setStarttls, if_neg (by simp [hhave])]

theorem setStarttls_spared (hd : Distinct c.irc.v3caps) (mode : Int) (musthave : Bool) :
    ((c.setStarttls mode musthave).1 = false → Unchanged c (c.setStarttls mode musthave).2) ↔
      Spared c (.starttls mode musthave) := by
  cases hhave : c.haveSsl with
  | false =>
    rw [Config.setStarttls, if_pos (by simp [hhave])]
    refine iff_of_true (fun _ => Unchanged.refl c) fun hno => ?_
    rw [hhave] at hno
    cases hno
  | true =>
    rw [setStarttls_irc hhave]
    cases hssl : c.irc.con.ssl with
    | true =>
      refine iff_of_true ?_ fun _ hno => by rw [hssl] at hno; cases hno
      by_cases hzero : mode = 0
      · rw [setStarttls_other (by rw [hzero]; decide) fun hne => absurd hzero hne]
        intro hno
        cases hno
      · rw [Capabilities.setStarttls, if_pos ⟨hssl, hzero⟩]
        exact fun _ => Unchanged.refl c
    | false =>
      by_cases hone : mode = 1
      · subst hone
        obtain ⟨base, hcall⟩ := setStarttls_one hd hssl musthave
        by_cases hfails : MAX_V3CAPS ≤ (others c.irc.v3caps (ascii "tls")).length ∨
          (BucketList.malloc c.irc.base.al).1 = false
        · rw [hcall, if_pos hfails]
          exact ⟨fun h _ _ _ _ => (reset_spared hd base).1 (h rfl),
            fun h _ => (reset_spared hd base).2 (h hhave hssl rfl hfails)⟩
        · rw [hcall, if_neg hfails]
          exact iff_of_true (fun hno => by cases hno) fun _ _ _ hno => absurd hno hfails
      · rw [setStarttls_other hone fun _ => hssl]
        exact iff_of_true (fun hno => by cases hno) fun _ _ hno => absurd hno hone

end Starttls

theorem setSasl_distinct (c : Config) (hd : Distinct c.irc.v3caps) (mech : Option Str) (msg : Str)
    (musthave : Bool) : Distinct (c.setSasl mech msg musthave).2.irc.v3caps := by
  have hno : ∀ cap ∈ cleared c.irc.v3caps (ascii "sasl"), cap.name ≠ ascii "sasl" :=
    fun cap hcap => ((mem_cleared hd).1 hcap).2
  cases hcopy : (copyMech c.irc.base.al mech).1 with
  | false =>
    obtain ⟨base, hcall⟩ := setSasl_refused hcopy msg musthave
    rw [hcall]
    exact hd
  | true =>
    rw [setSasl_copied hcopy]
    dsimp only
    split
    · refine wantCap_distinct ?_ hno rfl musthave
      exact hd.cleared _
    · exact hd.cleared _

theorem starttls_distinct {irc : Irc} (hd : Distinct irc.v3caps) (mode : Int) (musthave : Bool) :
    Distinct (Capabilities.setStarttls irc mode musthave).2.v3caps := by
  by_cases hssl : irc.con.ssl ∧ mode ≠ 0
  · rw [Capabilities.setStarttls, if_pos hssl]
    exact hd
  · have hoff : mode ≠ 0 → irc.con.ssl = false := fun hne =>
      Bool.eq_false_iff.2 fun hon => hssl ⟨hon, hne⟩
    by_cases hone : mode = 1
    · subst hone
      obtain ⟨base, hcall⟩ := setStarttls_one hd (hoff (by decide)) musthave
      rw [hcall]
      split
      · exact hd.cleared _
      · exact (hd.cleared _).fresh (fun cap hcap => ((mem_cleared hd).1 hcap).2) rfl musthave
    · rw [setStarttls_other hone hoff]
      exact hd.cleared _

theorem call_distinct (c : Config) (hd : Distinct c.irc.v3caps) (s : Setter) :
    Distinct (s.call c).2.irc.v3caps := by
  cases s with
  | sasl mech msg musthave => exact setSasl_distinct c hd mech msg musthave
  | starttls mode musthave =>
    rw [Setter.call, Config.setStarttls]
    split
    · exact hd
    · exact starttls_distinct hd mode musthave

theorem distinct_step {acked : Str → Prop} {caps caps' : List V3cap} (hd : Distinct caps)
    (h : CapsStep acked caps caps') : Distinct caps' := by
  have hnames : caps'.map V3cap.name = caps.map V3cap.name := by
    induction h with
    | nil => rfl
    | cons hcap _ ih =>
      rw [List.map_cons, List.map_cons, hcap.1, ih]
      exact hd.of_cons
  rwa [Distinct, hnames]

/-- A context: no capability is wanted at first, and then only the setters want and clear them, and
what is noted about the capabilities leaves their names. -/
inductive Reachable : Config → Prop
  | start {c : Config} : c.irc.v3caps = [] → Reachable c
  | call {c : Config} (s : Setter) : Reachable c → Reachable (s.call c).2
  | noted {acked : Str → Prop} {c c' : Config} : Reachable c →
    CapsStep acked c.irc.v3caps c'.irc.v3caps → Reachable c'

theorem Reachable.distinct (h : Reachable c) : Distinct c.irc.v3caps := by
  induction h with
  | start hnone => exact hnone ▸ List.nodup_nil
  | call s _ ih => exact call_distinct _ ih s
  | noted _ hstep ih => exact distinct_step ih hstep

/-- A failing setter leaves what is configured alone just if it fails before it takes anything
down, or there was nothing to take down. -/
theorem setter_spared (c : Config) (h : Reachable c) (s : Setter) :
    ((s.call c).1 = false → Unchanged c (s.call c).2) ↔ Spared c s := by
  cases s with
  | sasl mech msg musthave => exact setSasl_spared h.distinct mech msg musthave
  | starttls mode musthave => exact setStarttls_spared h.distinct mode musthave

/-- A context that nothing has been set in, where the next allocation fails. -/
theorem setter_spared_fresh :
    (Config.setStarttls ⟨ircInit (0, 0) [false] (serving []), 0, true⟩ 1 true).1 = false ∧
      Unchanged ⟨ircInit (0, 0) [false] (serving []), 0, true⟩
        (Config.setStarttls ⟨ircInit (0, 0) [false] (serving []), 0, true⟩ 1 true).2 := by
  have hfails : (Config.setStarttls ⟨ircInit (0, 0) [false] (serving []), 0, true⟩ 1 true).1 =
      false := by decide +kernel
  refine ⟨hfails, (setter_spared ⟨ircInit (0, 0) [false] (serving []), 0, true⟩ (.start rfl)
    (.starttls 1 true)).2 (fun _ _ _ _ => ⟨rfl, ?_⟩) hfails⟩
  intro cap hcap
  cases hcap

/-- A context with a mechanism and a message. There is memory for one string more. -/
def withSasl : Config :=
  (Config.setSasl ⟨ircInit (0, 0) [true, true, true, true, false] (serving []), 0, true⟩
    (some (ascii "PLAIN")) (ascii "b2xk") true).2

def withStarttls : Config :=
  (Config.setStarttls ⟨ircInit (0, 0) [false] (serving []), 0, true⟩ 2 true).2

/-- What was set is lost. -/
theorem setters_lose :
    (Reachable withSasl ∧ Reachable withStarttls) ∧
    ¬((withSasl.setSasl (some (ascii "PLAIN")) (ascii "bmV3") true).1 = false →
      Unchanged withSasl (withSasl.setSasl (some (ascii "PLAIN")) (ascii "bmV3") true).2) ∧
    ¬((withStarttls.setStarttls 1 true).1 = false →
      Unchanged withStarttls (withStarttls.setStarttls 1 true).2) := by
  refine ⟨⟨?_, .call (.starttls 2 true) (.start rfl)⟩, fun h => ?_, fun h => ?_⟩
  · exact .call (.sasl (some (ascii "PLAIN")) (ascii "b2xk") true) (.start rfl)
  · exact absurd (h (by decide +kernel)).saslMech (by decide +kernel)
  · exact absurd (h (by decide +kernel)).starttls (by decide +kernel)

end Srsirc.FailedSetters
