import Srsirc.Dispatch

namespace Srsirc.HandlerFlags

open CharMap Message ServerInfo UserBase Context Conn ChannelModes CoreHandlers Capabilities Track
open TrackInfo
open Dispatch Fallible

def PROGRESS : Flags := LOGON_COMPLETE ||| SASL_COMPLETE ||| MORE_CAPS ||| STARTTLS_OVER

def Errs (r : Flags) : Prop := r.has PROGRESS = false

instance : DecidablePred Errs := fun r => inferInstanceAs (Decidable (r.has PROGRESS = false))

theorem Errs.zero : Errs 0 := by decide

theorem Errs.proto : Errs PROTO_ERR := by decide

theorem Errs.alloc : Errs ALLOC_ERR := by decide

theorem Errs.io : Errs IO_ERR := by decide

theorem Errs.or {r r' : Flags} (h : Errs r) (h' : Errs r') : Errs (r ||| r') := by
  rw [Errs, Flags.has, decide_eq_false_iff_not, not_not] at h h' ⊢
  have hdist : (r ||| r') &&& PROGRESS = (r &&& PROGRESS) ||| (r' &&& PROGRESS) :=
    UInt16.toBitVec_inj.1 BitVec.and_or_distrib_right
  rw [hdist, h, h']
  rfl

theorem Errs.has {r flag : Flags} (h : Errs r) (hflag : PROGRESS &&& flag = flag) :
    r.has flag = false := by
  rw [Errs, Flags.has, decide_eq_false_iff_not, not_not] at h
  rw [Flags.has, decide_eq_false_iff_not, not_not, ← hflag, ← UInt16.and_assoc, h, UInt16.zero_and]

theorem Errs.ite {c : Prop} [Decidable c] {r r' : Flags} (h : Errs r) (h' : Errs r') :
    Errs (if c then r else r') := by
  split
  · exact h
  · exact h'

theorem errs_ok {α : Type} {r : Flags} (a : α) (h : Errs r) :
    Ensures (.ok (r, a) : Except Fault (Flags × α)) fun r => Errs r.1 := Ensures.ok h

theorem errs_guard {α : Type} {c : Prop} [Decidable c] {x : Except Fault (Flags × α)} (a : α)
    (hx : Ensures x fun r => Errs r.1) :
    Ensures (if c then .ok (PROTO_ERR, a) else x) fun r => Errs r.1 :=
  Ensures.ite (fun _ => errs_ok a .proto) fun _ => hx

section Track

variable (info : Info) (msg : Msg) (nargs : Nat) (b : Base)

theorem h_JOIN_errs : Ensures (h_JOIN info msg nargs b) fun r => Errs r.1 := by
  refine errs_guard b (Ensures.value fun ident => Ensures.value fun name => ?_)
  dsimp only
  split
  · refine Ensures.ite (fun _ => ?_) fun _ => errs_ok b .zero
    split
    · exact errs_ok _ .alloc
    · exact errs_ok _ .zero
  · refine Ensures.ite (fun _ => errs_ok b .zero) fun _ => ?_
    split
    · exact Ensures.value fun _ => errs_ok _ (.ite .zero .alloc)
    · refine Ensures.value fun _ => ?_
      split
      · exact errs_ok _ .alloc
      · refine Ensures.value fun _ => Ensures.ite (fun _ => errs_ok _ .zero) fun _ => ?_
        exact Ensures.value fun _ => errs_ok _ .alloc

theorem names353_errs (c : HeapCells.Ptr) (mem : Memory.Mem) (k p : Nat) :
    Ensures (names353 info c mem k p b) fun r => Errs r.1 := by
  induction k generalizing p b with
  | zero => exact errs_ok _ .zero
  | succ k ih =>
    refine Ensures.value fun _ => Ensures.ite (fun _ => errs_ok _ .alloc) fun _ => ?_
    exact Ensures.ite (fun _ => errs_ok _ .zero) fun _ => ih _ _

theorem h_353_errs : Ensures (h_353 info msg nargs b) fun r => Errs r.1 := by
  refine errs_guard b (Ensures.value fun name => ?_)
  split
  · exact errs_ok _ .zero
  · have hnames :
        ∀ b c, Ensures (msg.deref 5 >>= fun p => names353 info c msg.mem (msg.mem.length + 2) p b)
        fun r => Errs r.1 := fun b c => Ensures.value fun p => names353_errs info b c _ _ p
    dsimp only
    exact Ensures.ite (fun _ => Ensures.value fun b => hnames b _) fun _ =>
      Ensures.value fun b => hnames b _

theorem h_366_errs : Ensures (h_366 msg nargs b) fun r => Errs r.1 := by
  refine errs_guard b (Ensures.value fun name => ?_)
  dsimp only
  split
  · exact errs_ok _ .zero
  · exact Ensures.value fun _ => errs_ok _ .zero

theorem h_PART_errs : Ensures (h_PART info msg nargs b) fun r => Errs r.1 := by
  refine errs_guard b (Ensures.value fun _ => Ensures.value fun _ => Ensures.value fun name => ?_)
  split
  · exact errs_ok _ .zero
  · refine Ensures.ite (fun _ => Ensures.value fun _ => errs_ok _ .zero) fun _ => ?_
    split
    · exact errs_ok _ .zero
    · exact Ensures.value fun _ => errs_ok _ .zero

theorem h_QUIT_errs : Ensures (h_QUIT msg b) fun r => Errs r.1 := by
  refine errs_guard b (Ensures.value fun _ => Ensures.value fun _ => ?_)
  split
  · exact errs_ok _ .zero
  · exact Ensures.value fun _ => errs_ok _ .zero

theorem h_KICK_errs : Ensures (h_KICK info msg nargs b) fun r => Errs r.1 := by
  refine errs_guard b (Ensures.value fun _ => Ensures.value fun _ => Ensures.value fun name => ?_)
  split
  · exact errs_ok _ .zero
  · refine Ensures.value fun _ =>
      Ensures.ite (fun _ => Ensures.value fun _ => errs_ok _ .zero) fun _ => ?_
    split
    · exact errs_ok _ .zero
    · exact Ensures.value fun _ => errs_ok _ .zero

theorem h_NICK_errs : Ensures (h_NICK info msg nargs b) fun r => Errs r.1 := by
  refine errs_guard b (Ensures.value fun _ => Ensures.value fun _ => Ensures.value fun _ => ?_)
  exact Ensures.value fun _ => errs_ok _ (.ite .alloc .zero)

theorem h_352_errs : Ensures (h_352 info msg nargs b) fun r => Errs r.1 := by
  refine errs_guard b (Ensures.value fun nick => ?_)
  split
  · exact errs_ok _ .zero
  · refine Ensures.value fun _ => Ensures.value fun _ => Ensures.value fun _ =>
      Ensures.value fun _ => ?_
    dsimp only
    split
    · exact errs_ok _ .proto
    · exact errs_ok _ .zero

theorem h_311_errs : Ensures (h_311 info msg nargs b) fun r => Errs r.1 := by
  refine errs_guard b (Ensures.value fun nick => ?_)
  split
  · exact errs_ok _ .zero
  · refine Ensures.value fun _ => Ensures.value fun _ => Ensures.value fun _ =>
      Ensures.value fun _ => ?_
    exact errs_ok _ .zero

theorem h_332_errs : Ensures (h_332 msg nargs b) fun r => Errs r.1 := by
  refine errs_guard b (Ensures.value fun name => ?_)
  split
  · exact errs_ok _ .zero
  · exact Ensures.value fun _ => Ensures.value fun _ => errs_ok _ (.ite .zero .alloc)

theorem h_333_errs : Ensures (h_333 msg nargs b) fun r => Errs r.1 := by
  refine errs_guard b (Ensures.value fun name => ?_)
  split
  · exact errs_ok _ .zero
  · refine Ensures.value fun _ => Ensures.value fun _ => ?_
    split
    · exact errs_ok _ .alloc
    · exact Ensures.value fun _ => errs_ok _ .zero

theorem h_TOPIC_errs : Ensures (h_TOPIC msg nargs b) fun r => Errs r.1 := by
  refine errs_guard b (Ensures.value fun _ => Ensures.value fun _ => Ensures.value fun name => ?_)
  split
  · exact errs_ok _ .zero
  · refine Ensures.value fun _ => Ensures.value fun _ => ?_
    split
    · exact errs_ok _ .alloc
    · exact errs_ok _ (.ite .zero .alloc)

theorem applyMode_errs (c : HeapCells.Ptr) (m : ModeChange) :
    Ensures (applyMode info c m b) fun r => Errs r.1 := by
  rw [applyMode]
  split
  · exact Ensures.value fun _ => Ensures.value fun _ => errs_ok _ .zero
  · refine Ensures.ite (fun _ => Ensures.value fun _ => errs_ok _ (.ite .zero .alloc)) fun _ => ?_
    exact Ensures.value fun _ => errs_ok _ .zero

theorem applyModes_errs (c : HeapCells.Ptr) (ms : List ModeChange) :
    Ensures (applyModes info c ms b) fun r => Errs r.1 := by
  induction ms generalizing b with
  | nil => exact errs_ok _ .zero
  | cons m ms ih =>
    refine (applyMode_errs info b c m).bind fun r hr => (ih r.2).bind fun r' hr' => ?_
    exact errs_ok _ (hr.or hr')

theorem h_MODE_chanmode_errs : Ensures (h_MODE_chanmode info msg nargs b) fun r => Errs r.1 := by
  refine errs_guard b (Ensures.value fun ident => ?_)
  have hrest : ∀ b, Ensures (chanmodes info msg b) fun r => Errs r.1 := by
    refine fun b => Ensures.value fun name => ?_
    split
    · exact errs_ok _ .zero
    · refine Ensures.value fun r => ?_
      dsimp only
      split
      · exact errs_ok _ .alloc
      · exact applyModes_errs _ _ _ _
  exact Ensures.ite (fun _ => Ensures.value hrest) fun _ => Ensures.value hrest

theorem h_MODE_errs : Ensures (h_MODE info msg nargs b) fun r => Errs r.1 :=
  errs_guard b (Ensures.value fun _ => Ensures.ite (fun _ => h_MODE_chanmode_errs info msg nargs b)
    fun _ => errs_ok b .zero)

theorem heard_errs (logon : Bool) : Ensures (heard msg nargs logon b) fun r => Errs r.1 := by
  refine errs_guard b (Ensures.value fun _ => Ensures.ite (fun _ => ?_) fun _ => errs_ok _ .zero)
  exact Ensures.value fun _ => errs_ok _ .zero

theorem listModes_errs (c : HeapCells.Ptr) (ms : List ModeChange) :
    Ensures (listModes info c ms b) fun r => Errs r.1 := by
  induction ms generalizing b with
  | nil => exact errs_ok _ .zero
  | cons m ms ih =>
    have hrest : ∀ r : Bool × Base, Ensures (listModes info c ms r.2 >>= fun r' =>
        .ok ((if r.1 then 0 else ALLOC_ERR) ||| r'.1, r'.2)) fun r => Errs r.1 := fun r =>
      (ih r.2).bind fun r' hr' => errs_ok _ (Errs.or (.ite .zero .alloc) hr')
    exact Ensures.ite (fun _ => Ensures.value hrest) fun _ => Ensures.value hrest

theorem h_324_errs : Ensures (h_324 info msg nargs b) fun r => Errs r.1 := by
  refine errs_guard b (Ensures.value fun name => ?_)
  split
  · exact errs_ok _ .zero
  · refine Ensures.value fun r => ?_
    dsimp only
    split
    · exact errs_ok _ .alloc
    · exact Ensures.value fun _ => listModes_errs _ _ _ _

end Track

section Core

variable (irc : Irc) (msg : Msg) (nargs : Nat) (logon : Bool)

theorem tracking_errs {h : Irc → Msg → Nat → Bool → UserBase.Base → Step}
    (hh : Ensures (h irc msg nargs logon irc.base) fun r => Errs r.1) :
    Ensures (tracking h irc msg nargs logon) fun r => Errs r.1 :=
  hh.bind fun _ hr => errs_ok _ hr

theorem writeOr_flags (irc : Irc) (line : Str) (done : Flags) :
    (writeOr irc line done).1 = IO_ERR ∨ (writeOr irc line done).1 = done := by
  rw [writeOr]
  split
  · exact Or.inl rfl
  · exact Or.inr rfl

theorem writeOr_errs (irc : Irc) (line : Str) : Errs (writeOr irc line 0).1 := by
  obtain h | h := writeOr_flags irc line 0
  · rw [h]
    exact .io
  · rw [h]
    exact .zero

theorem concludeSaslCap_errs (irc : Irc) : Errs (concludeSaslCap irc).1 := writeOr_errs _ _

theorem handle_001_errs : Ensures (handle_001 irc msg nargs logon) fun r => Errs r.1 :=
  errs_guard irc (Ensures.value fun _ => Ensures.value fun _ => errs_ok _ (.ite .zero (by decide)))

theorem handle_002_errs : Ensures (handle_002 irc msg nargs logon) fun r => Errs r.1 :=
  errs_guard irc (Ensures.value fun _ => errs_ok _ .zero)

theorem handle_003_errs : Ensures (handle_003 irc msg nargs logon) fun r => Errs r.1 :=
  errs_guard irc (Ensures.value fun _ => errs_ok _ .zero)

theorem handle_PING_errs : Ensures (handle_PING irc msg nargs logon) fun r => Errs r.1 :=
  Ensures.ite (fun _ => errs_ok _ .zero) fun _ => errs_guard irc (Ensures.value fun _ =>
    Ensures.ok (writeOr_errs _ _))

theorem handle_bad_nick_errs : Ensures (handle_bad_nick irc msg nargs logon) fun r => Errs r.1 := by
  refine Ensures.ite (fun _ => errs_ok _ .zero) fun _ => ?_
  split
  · exact errs_ok _ (by decide)
  · exact Ensures.ite (fun _ => errs_ok _ (by decide)) fun _ => Ensures.ok (writeOr_errs _ _)

theorem handle_465_errs : Ensures (handle_465 irc msg nargs logon) fun r => Errs r.1 :=
  Ensures.ite (fun _ => Ensures.value fun _ => errs_ok _ .zero) fun _ => Ensures.value fun _ =>
    errs_ok _ .zero

theorem handle_ERROR_errs : Ensures (handle_ERROR irc msg nargs logon) fun r => Errs r.1 :=
  Ensures.ite (fun _ => Ensures.value fun _ => errs_ok _ .zero) fun _ => Ensures.value fun _ =>
    errs_ok _ .zero

theorem handle_NICK_errs : Ensures (handle_NICK irc msg nargs logon) fun r => Errs r.1 :=
  errs_guard irc (Ensures.value fun _ =>
    Ensures.ite (fun _ => Ensures.value fun _ => errs_ok _ .zero)
    fun _ => errs_ok _ .zero)

theorem handle_MODE_errs : Ensures (handle_MODE irc msg nargs logon) fun r => Errs r.1 :=
  errs_guard irc (Ensures.value fun _ => Ensures.ite (fun _ => errs_ok _ .zero)
    fun _ => Ensures.value fun _ => errs_ok _ .zero)

theorem handle_005_PREFIX_errs (info : Info) (val : Str) : Errs (handle_005_PREFIX info val).1 := by
  unfold handle_005_PREFIX
  split
  · exact .proto
  · dsimp only
    split
    · exact .proto
    · split
      · exact .proto
      · exact .zero

theorem handleAttr_errs (info : Info) (nam : Str) (val : Option Str) :
    Ensures (handleAttr info nam val) fun r => Errs r.1 := by
  cases val with
  | none =>
    exact Ensures.ite (fun _ => .error) fun _ => Ensures.ite (fun _ => .error) fun _ =>
      Ensures.ite (fun _ => .error) fun _ => Ensures.ite (fun _ => .error) fun _ => errs_ok _ .zero
  | some val =>
    exact Ensures.ite (fun _ => errs_ok _ .zero) fun _ => Ensures.ite
      (fun _ => Ensures.ok (handle_005_PREFIX_errs info val)) fun _ =>
        Ensures.ite (fun _ => errs_ok _ .zero)
      fun _ => Ensures.ite (fun _ => errs_ok _ .zero) fun _ => errs_ok _ .zero

theorem noteAttrs_errs (k z : Nat) : Ensures (noteAttrs msg k z irc) fun r => Errs r.1 := by
  induction k generalizing z irc with
  | zero => exact errs_ok _ .zero
  | succ k ih =>
    have hone : ∀ attr, Ensures (noteAttr irc attr) fun r => Errs r.1 := fun attr =>
      (handleAttr_errs _ _ _).bind fun r hr => errs_ok _ hr
    refine Ensures.value fun attr => (hone attr).bind fun r hr => ?_
    exact Ensures.ite (fun _ => errs_ok _ hr) fun _ => (ih r.2 (z + 1)).bind fun r' hr' =>
      errs_ok _ (hr.or hr')

theorem handle_005_errs : Ensures (handle_005 irc msg nargs logon) fun r => Errs r.1 := by
  refine (noteAttrs_errs irc msg _ _).bind fun ⟨ret, haveCasemap, irc'⟩ hr => ?_
  refine Ensures.ite (fun _ => errs_ok _ hr) fun _ => Ensures.ite (fun _ => ?_) fun _ =>
    errs_ok _ hr
  split <;> exact errs_ok _ hr

theorem handle_saslerr_errs : Ensures (handle_saslerr irc msg nargs logon) fun r => Errs r.1 :=
  errs_guard irc (Ensures.ite (fun _ => errs_ok _ .zero) fun _ => errs_ok _ (by decide))

theorem requestCaps_errs (irc : Irc) : Errs (requestCaps irc).1 := by
  rw [requestCaps]
  split
  · exact (by decide : Errs CAP_ERR)
  · exact writeOr_errs _ _

theorem handle_CAP_errs : Ensures (handle_CAP irc msg nargs logon) fun r => Errs r.1 := by
  have hls : Ensures (handle_CAP_LS irc msg nargs logon) fun r => r.1.has CANT_PROCEED = true →
      Errs r.1 := by
    refine Ensures.ite (fun _ => Ensures.ok fun _ => .zero) fun _ =>
      Ensures.ite (fun _ => Ensures.ok fun _ => .proto) fun _ => Ensures.value fun _ => ?_
    refine Ensures.ite (fun _ => Ensures.value fun _ => Ensures.ok fun h => ?_) fun _ =>
      Ensures.ok fun _ => .zero
    exact absurd (show MORE_CAPS.has CANT_PROCEED = true from h) (by decide)
  have hack : Ensures (handle_CAP_ACK irc msg nargs) fun r => Errs r.1 :=
    errs_guard irc (Ensures.value fun _ => Ensures.ite (fun _ => errs_ok _ (by decide)) fun _ =>
      errs_ok _ .zero)
  have hnak : Errs (handle_CAP_NAK irc nargs).1 := Errs.ite .proto (by decide)
  refine errs_guard irc (Ensures.value fun _ =>
    Ensures.ite (fun _ => hls.bind fun r hr => ?_) fun _ =>
    Ensures.ite (fun _ => hack.bind fun r hr => ?_) fun _ => Ensures.ite (fun _ => Ensures.ok hnak)
      fun _ => errs_ok _ .zero)
  · exact Ensures.ite (fun hc => errs_ok _ (hr hc)) fun _ => Ensures.ite (fun _ => errs_ok _ .zero)
      fun _ => Ensures.ok (requestCaps_errs _)
  · exact Ensures.ite (fun _ => errs_ok _ hr) fun _ =>
      Ensures.ite (fun _ => Ensures.ok (writeOr_errs _ _))
      fun _ => Ensures.ok (concludeSaslCap_errs _)

theorem handle_AUTHENTICATE_errs :
    Ensures (handle_AUTHENTICATE irc msg nargs logon) fun r => Errs r.1 := by
  refine errs_guard irc (Ensures.ite (fun _ => errs_ok _ .zero) fun _ => ?_)
  split
  · exact errs_ok _ .zero
  · refine Ensures.value fun _ => ?_
    split
    · exact errs_ok _ .io
    · split
      · exact errs_ok _ .io
      · exact Ensures.ok (writeOr_errs _ _)

def progress : Hnd → Flags
  | .handle_004 | .handle_383 => LOGON_COMPLETE
  | .handle_903 => SASL_COMPLETE
  | .handle_670 | .handle_691 => STARTTLS_OVER
  | _ => 0

/-- A handler reports no progress, or its own. -/
theorem run_flags (h : Hnd) :
    Ensures (run h irc msg nargs logon) fun r => Errs r.1 ∨ r.1 = progress h := by
  have herrs : ∀ {x : Except Fault (Flags × Irc)} {q : Flags}, (Ensures x fun r => Errs r.1) →
      Ensures x fun r => Errs r.1 ∨ r.1 = q := fun hx => hx.mono fun _ => Or.inl
  have hsame : ∀ {r q : Flags} (irc : Irc), Errs r →
      Ensures (.ok (r, irc) : Except Fault (Flags × Irc)) fun r => Errs r.1 ∨ r.1 = q := fun _ hr =>
    Ensures.ok (Or.inl hr)
  cases h with
  | handle_004 =>
    refine Ensures.ite (fun _ => Ensures.value fun _ => Ensures.ok ?_) fun _ => ?_
    · dsimp only
      split
      · exact Or.inr rfl
      · exact Or.inl .proto
    · exact Ensures.value fun _ => Ensures.value fun _ => Ensures.value fun _ =>
        Ensures.value fun _ =>
        Ensures.value fun _ => Ensures.ok (Or.inr rfl)
  | handle_383 =>
    refine Ensures.ite (fun _ => hsame _ .proto) fun _ => Ensures.value fun _ => ?_
    exact Ensures.ite (fun _ => Ensures.value fun _ => Ensures.ok (Or.inr rfl))
      fun _ => Ensures.value fun _ => Ensures.ok (Or.inr rfl)
  | handle_903 =>
    refine Ensures.ite (fun _ => hsame _ .zero) fun _ => Ensures.ite (fun _ => Ensures.ok ?_)
      fun _ => Ensures.ok (Or.inr rfl)
    obtain hfail | hdone := writeOr_flags irc (ascii "CAP END" ++ crlf) SASL_COMPLETE
    · exact Or.inl (hfail ▸ .io)
    · exact Or.inr hdone
  | handle_670 =>
    rw [run, handle_670]
    split
    · exact hsame _ .io
    · exact Ensures.ite (fun _ => Ensures.ok (Or.inr rfl)) fun _ =>
        Ensures.ok (Or.inl (concludeSaslCap_errs _))
  | handle_691 =>
    refine Ensures.ite (fun _ => hsame _ .proto) fun _ =>
      Ensures.ite (fun _ => hsame _ .io) fun _ => ?_
    exact Ensures.ite (fun _ => Ensures.ok (Or.inr rfl)) fun _ =>
      Ensures.ok (Or.inl (concludeSaslCap_errs _))
  | handle_001 => exact herrs (handle_001_errs irc msg nargs logon)
  | handle_002 => exact herrs (handle_002_errs irc msg nargs logon)
  | handle_003 => exact herrs (handle_003_errs irc msg nargs logon)
  | handle_PING => exact herrs (handle_PING_errs irc msg nargs logon)
  | handle_bad_nick => exact herrs (handle_bad_nick_errs irc msg nargs logon)
  | handle_464 => exact Ensures.ok (Or.inl (.ite .proto (by decide)))
  | handle_484 | handle_466 => exact hsame _ .zero
  | handle_465 => exact herrs (handle_465_errs irc msg nargs logon)
  | handle_ERROR => exact herrs (handle_ERROR_errs irc msg nargs logon)
  | handle_NICK => exact herrs (handle_NICK_errs irc msg nargs logon)
  | handle_MODE => exact herrs (handle_MODE_errs irc msg nargs logon)
  | handle_005 => exact herrs (handle_005_errs irc msg nargs logon)
  | h_JOIN =>
    rw [run]
    exact herrs (tracking_errs irc msg nargs logon (h_JOIN_errs _ _ _ _))
  | h_311 =>
    rw [run]
    exact herrs (tracking_errs irc msg nargs logon (h_311_errs _ _ _ _))
  | h_332 =>
    rw [run]
    exact herrs (tracking_errs irc msg nargs logon (h_332_errs _ _ _))
  | h_333 =>
    rw [run]
    exact herrs (tracking_errs irc msg nargs logon (h_333_errs _ _ _))
  | h_352 =>
    rw [run]
    exact herrs (tracking_errs irc msg nargs logon (h_352_errs _ _ _ _))
  | h_353 =>
    rw [run]
    exact herrs (tracking_errs irc msg nargs logon (h_353_errs _ _ _ _))
  | h_366 =>
    rw [run]
    exact herrs (tracking_errs irc msg nargs logon (h_366_errs _ _ _))
  | h_PART =>
    rw [run]
    exact herrs (tracking_errs irc msg nargs logon (h_PART_errs _ _ _ _))
  | h_QUIT =>
    rw [run]
    exact herrs (tracking_errs irc msg nargs logon (h_QUIT_errs _ _))
  | h_NICK =>
    rw [run]
    exact herrs (tracking_errs irc msg nargs logon (h_NICK_errs _ _ _ _))
  | h_KICK =>
    rw [run]
    exact herrs (tracking_errs irc msg nargs logon (h_KICK_errs _ _ _ _))
  | h_MODE =>
    rw [run]
    exact herrs (tracking_errs irc msg nargs logon (h_MODE_errs _ _ _ _))
  | h_PRIVMSG | h_NOTICE =>
    rw [run]
    exact herrs (tracking_errs irc msg nargs logon (heard_errs _ _ _ _))
  | h_324 =>
    rw [run]
    exact herrs (tracking_errs irc msg nargs logon (h_324_errs _ _ _ _))
  | h_TOPIC =>
    rw [run]
    exact herrs (tracking_errs irc msg nargs logon (h_TOPIC_errs _ _ _))
  | handle_saslerr => exact herrs (handle_saslerr_errs irc msg nargs logon)
  | handle_CAP => exact herrs (handle_CAP_errs irc msg nargs logon)
  | handle_AUTHENTICATE => exact herrs (handle_AUTHENTICATE_errs irc msg nargs logon)

theorem run_saslComplete {h : Hnd} {r : Flags × Irc} (hrun : run h irc msg nargs logon = .ok r)
    (hr : r.1.has SASL_COMPLETE = true) : h = .handle_903 := by
  obtain herrs | hprog := run_flags irc msg nargs logon h _ hrun
  · rw [herrs.has (by decide)] at hr
    cases hr
  · rw [hprog] at hr
    cases h <;> first | rfl | exact absurd hr (by decide)

end Core

end Srsirc.HandlerFlags
