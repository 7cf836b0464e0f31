import Srsirc.CoreHandlers
import Srsirc.ModeArray
import Srsirc.ModeFold

namespace Srsirc.ModeDissect

open CharMap HeapCells Memory Message ServerInfo UserBase ChannelModes TrackInfo CoreHandlers
open Fallible ModeArray ModeFold
open BucketList (Alloc)

def letters : Bool → Str → List (Bool × UInt8)
  | _, [] => []
  | enab, c :: s =>
    if c = 0x2b then letters true s else if c = 0x2d then letters false s
      else (enab, c) :: letters enab s

def listed (info : Info) (c : UInt8) : Bool := (strchr info.m005modepfx.1 c).isSome

def known (info : Info) (l : Bool × UInt8) : Bool :=
  classifyChanmode info l.2 != 0 || listed info l.2

/-- Letters of the classes A and B and those for members always have an argument, those of
class C under a plus. -/
def wantsArg (info : Info) (l : Bool × UInt8) : Bool :=
  classifyChanmode info l.2 == 1 || classifyChanmode info l.2 == 2 ||
    (classifyChanmode info l.2 == 3 && l.1) || listed info l.2

/-- Known letters with their arguments, for which there is a stand-in when they are used up. -/
def dissected (info : Info) : List (Bool × UInt8) → List Str → List ModeChange
  | [], _ => []
  | l :: ls, args =>
    if wantsArg info l then ⟨l.1, l.2, some (args.headD (ascii "*"))⟩ :: dissected info ls args.tail
    else ⟨l.1, l.2, none⟩ :: dissected info ls args

/-- The parameters of a message from field `i` on. -/
def params (msg : Msg) (i : Nat) : List Str :=
  (List.range' i (msg.nargs - i)).filterMap fun k => (msg.fld k).toOption

/-- A letter for members that is listed as a channel mode without an argument, too. -/
def Bare (info : Info) (l : Bool × UInt8) : Prop :=
  listed info l.2 = true ∧
    (4 ≤ classifyChanmode info l.2 ∨ classifyChanmode info l.2 = 3 ∧ l.1 = false)

instance (info : Info) : DecidablePred (Bare info) := fun _ => inferInstanceAs (Decidable (_ ∧ _))

def parsed (info : Info) : List (Bool × UInt8) → List Str → List ModeChange
  | [], _ => []
  | l :: ls, args =>
    match takesArg info l.1 l.2 with
    | none => parsed info ls args
    | some true => ⟨l.1, l.2, some (args.headD (ascii "*"))⟩ :: parsed info ls args.tail
    | some false => ⟨l.1, l.2, none⟩ :: parsed info ls args

variable {info : Info} {msg : Msg} {l : Bool × UInt8}

theorem takesArg_known (h : ¬Bare info l) :
    takesArg info l.1 l.2 = if known info l then some (wantsArg info l) else none := by
  rw [takesArg, known, wantsArg]
  rcases hcls : classifyChanmode info l.2 with _ | _ | _ | _ | n
  · cases hlisted : listed info l.2 <;> rw [listed] at hlisted <;> simp [hlisted]
  · simp
  · simp
  · have hl : listed info l.2 = true → l.1 = true := fun hl => by
      by_contra hno
      exact h ⟨hl, Or.inr ⟨hcls, Bool.eq_false_of_not_eq_true hno⟩⟩
    cases hlisted : listed info l.2 with
    | false => simp
    | true => simp [hl hlisted]
  · have hl : listed info l.2 = false := by
      by_contra hno
      exact h ⟨Bool.eq_true_of_not_eq_false hno, Or.inl (by omega)⟩
    simp [hl]

theorem takesArg_bare (h : Bare info l) : takesArg info l.1 l.2 = some false := by
  obtain ⟨_, hcls | ⟨hcls, henab⟩⟩ := h
  · obtain ⟨n, hn⟩ : ∃ n, classifyChanmode info l.2 = n + 4 :=
      ⟨classifyChanmode info l.2 - 4, by omega⟩
    rw [takesArg, hn]
    rfl
  · rw [takesArg, hcls, henab]
    rfl

theorem bare_known (h : Bare info l) : known info l = true ∧ wantsArg info l = true := by
  rw [known, wantsArg, h.1, Bool.or_true, Bool.or_true]
  exact ⟨rfl, rfl⟩

/-- The loop and the description agree but for letters that are listed twice. -/
theorem parsed_dissected (ls : List (Bool × UInt8)) (args : List Str) :
    parsed info ls args = dissected info (ls.filter (known info)) args ↔
      ∀ l ∈ ls, ¬Bare info l := by
  induction ls generalizing args with
  | nil => simp [parsed, dissected]
  | cons l ls ih =>
    rw [List.forall_mem_cons, parsed]
    by_cases hbare : Bare info l
    · obtain ⟨hknown, hwants⟩ := bare_known hbare
      refine iff_of_false ?_ fun h => h.1 hbare
      rw [takesArg_bare hbare, List.filter_cons_of_pos hknown, dissected, if_pos hwants]
      simp
    · rw [takesArg_known hbare, and_iff_right hbare]
      cases hknown : known info l with
      | false =>
        rw [List.filter_cons_of_neg (by rw [hknown]; decide)]
        exact ih args
      | true =>
        rw [List.filter_cons_of_pos hknown, dissected]
        cases hwants : wantsArg info l with
        | false => simpa using ih args
        | true => simpa using ih args.tail

/-- Letters for members have an argument but for those listed twice. -/
theorem parsed_args (ls : List (Bool × UInt8)) (args : List Str) :
    (∀ m ∈ parsed info ls args, listed info m.mode = true → m.arg.isSome = true) ↔
      ∀ l ∈ ls, ¬Bare info l := by
  induction ls generalizing args with
  | nil => simp [parsed]
  | cons l ls ih =>
    rw [List.forall_mem_cons, parsed]
    by_cases hbare : Bare info l
    · refine iff_of_false (fun h => ?_) fun h => h.1 hbare
      rw [takesArg_bare hbare] at h
      exact absurd (h _ List.mem_cons_self hbare.1) (by simp)
    · rw [and_iff_right hbare, takesArg_known hbare]
      cases hknown : known info l with
      | false => exact ih args
      | true =>
        cases hwants : wantsArg info l with
        | true => simpa using ih args.tail
        | false =>
          have hl : listed info l.2 = false := by
            by_contra hno
            rw [wantsArg, Bool.eq_true_of_not_eq_false hno, Bool.or_true] at hwants
            cases hwants
          simpa [hl] using ih args

theorem params_cons {i : Nat} (hi : 2 ≤ i) (hlt : i < msg.nargs) :
    ∃ s, msg.fld i = .ok s ∧ params msg i = s :: params msg (i + 1) := by
  obtain ⟨s, hs⟩ := Msg.fld_of_lt hi hlt
  obtain ⟨n, hn⟩ : ∃ n, msg.nargs - i = n + 1 := ⟨msg.nargs - i - 1, by omega⟩
  refine ⟨s, hs, ?_⟩
  rw [params, hn, List.range'_succ, List.filterMap_cons_some (by rw [hs]; rfl), params,
    show msg.nargs - (i + 1) = n by omega]

theorem params_nil {i : Nat} (h : msg.nargs ≤ i) : params msg i = [] := by
  rw [params, Nat.sub_eq_zero_of_le h]
  rfl

theorem modeArg_params {i : Nat} (hi : 2 ≤ i) : ∃ i', 2 ≤ i' ∧
    modeArg msg msg.nargs i = .ok ((params msg i).headD (ascii "*"), i') ∧
      params msg i' = (params msg i).tail := by
  by_cases hlt : i < msg.nargs
  · obtain ⟨s, hs, hparams⟩ := params_cons hi hlt
    refine ⟨i + 1, by omega, ?_, by rw [hparams, List.tail_cons]⟩
    rw [modeArg, if_neg (by omega), hs, hparams]
    rfl
  · have hnil := params_nil (Nat.le_of_not_lt hlt)
    refine ⟨i, hi, ?_, by rw [hnil, List.tail_nil]⟩
    rw [modeArg, if_pos (Nat.le_of_not_lt hlt), hnil]
    rfl

theorem parseModes_letters (info : Info) (s : Str) (enab : Bool) {i : Nat} (hi : 2 ≤ i)
    (al : Alloc) :
    ∃ r al', parseModes info msg msg.nargs s enab i al = .ok (r, al') ∧
      (∀ ms, r = some ms → ms = parsed info (letters enab s) (params msg i)) ∧
      (al = [] → r.isSome = true ∧ al' = []) := by
  induction s generalizing enab i al with
  | nil => exact ⟨_, _, rfl, fun ms hms => (Option.some.inj hms).symm, fun hal => ⟨rfl, hal⟩⟩
  | cons c s ih =>
    rw [parseModes, letters]
    by_cases hplus : c = 0x2b
    · rw [if_pos hplus, if_pos hplus]
      exact ih true hi al
    by_cases hminus : c = 0x2d
    · rw [if_neg hplus, if_neg hplus, if_pos hminus, if_pos hminus]
      exact ih false hi al
    rw [if_neg hplus, if_neg hplus, if_neg hminus, if_neg hminus, parsed]
    -- what is done once the argument is known
    have hnext : ∀ (arg : Option Str) (i' : Nat), 2 ≤ i' → ∃ r al',
        (BucketList.allocated al fun al => parseModes info msg msg.nargs s enab i' al >>= fun r =>
          .ok (r.1.map (⟨enab, c, arg⟩ :: ·), r.2)) = Except.ok (r, al') ∧
        (∀ ms, r = some ms → ms = ⟨enab, c, arg⟩ :: parsed info (letters enab s) (params msg i')) ∧
        (al = [] → r.isSome = true ∧ al' = []) := by
      intro arg i' hi'
      rw [BucketList.allocated]
      cases hmalloc : BucketList.malloc al with
      | mk ok al₁ =>
        cases ok with
        | false =>
          refine ⟨none, al₁, rfl, fun _ h => by (cases h), fun hal => ?_⟩
          rw [hal, BucketList.malloc_nil] at hmalloc
          cases hmalloc
        | true =>
          obtain ⟨r, al', hrest, hms, hnil⟩ := ih enab hi' al₁
          refine ⟨r.map (⟨enab, c, arg⟩ :: ·), al', ?_, ?_, ?_⟩
          · dsimp only
            rw [hrest]
            rfl
          · intro ms hm
            obtain ⟨ms', rfl, rfl⟩ := Option.map_eq_some_iff.1 hm
            rw [hms ms' rfl]
          · intro hal
            rw [hal, BucketList.malloc_nil] at hmalloc
            obtain ⟨_, rfl⟩ := Prod.mk.inj hmalloc
            rw [Option.isSome_map]
            exact hnil rfl
    cases htakes : takesArg info enab c with
    | none => exact ih enab hi al
    | some withArg =>
      cases withArg with
      | false => exact hnext none i hi
      | true =>
        obtain ⟨i', hi', harg, htail⟩ := @modeArg_params msg i hi
        simp only [if_true]
        rw [harg, ← htail]
        exact hnext _ i' hi'

variable {is324 : Bool} {word : Str}

theorem parseMODE_letters (info : Info) (hword : msg.fld (3 + if is324 then 1 else 0) = .ok word)
    (al : Alloc) :
    ∃ r al', parseMODE info msg is324 al = .ok (r, al') ∧
      (∀ ms, r = some ms →
        ms = parsed info (letters true word) (params msg (4 + if is324 then 1 else 0))) ∧
      (al = [] → r.isSome = true ∧ al' = []) := by
  rw [parseMODE]
  simp only [hword, bind, Except.bind]
  cases hfirst : BucketList.malloc al with
  | mk ok al₁ =>
    cases ok with
    | false =>
      refine ⟨none, al₁, rfl, fun _ h => by (cases h), fun hal => ?_⟩
      rw [hal, BucketList.malloc_nil] at hfirst
      cases hfirst
    | true =>
      dsimp only
      cases hsecond : BucketList.malloc al₁ with
      | mk ok al₂ =>
        have hnil : al = [] → BucketList.malloc al₁ = (true, []) := by
          intro hal
          rw [hal, BucketList.malloc_nil] at hfirst
          obtain ⟨_, rfl⟩ := Prod.mk.inj hfirst
          rfl
        cases ok with
        | false =>
          refine ⟨none, al₂, rfl, fun _ h => by (cases h), fun hal => ?_⟩
          rw [hnil hal] at hsecond
          cases hsecond
        | true =>
          obtain ⟨r, al', hrun, hms, hend⟩ := parseModes_letters info word true
            (show 2 ≤ 4 + if is324 = true then 1 else 0 by omega) al₂
          refine ⟨r, al', hrun, hms, fun hal => hend ?_⟩
          rw [hnil hal] at hsecond
          exact (Prod.mk.inj hsecond).2.symm

theorem text_injective : Function.Injective text := by
  rintro ⟨enab, mode, arg⟩ ⟨enab', mode', arg'⟩ h
  obtain ⟨hsign, hmode, harg⟩ := by
    simpa only [text, ModeChange.modestr, List.cons_append, List.cons.injEq] using h
  obtain rfl := hmode
  have hsigns : ∀ a b :
      Bool, (if a then (0x2b : UInt8) else 0x2d) = (if b then 0x2b else 0x2d) → a = b := by
    decide
  obtain rfl := hsigns _ _ hsign
  cases arg with
  | none =>
    cases arg' with
    | none => rfl
    | some arg' => exact absurd harg (by simp)
  | some arg =>
    cases arg' with
    | none => exact absurd harg (by simp)
    | some arg' =>
      rw [List.append_cancel_right_eq, List.cons.injEq] at harg
      rw [harg.2]

theorem length_parsed (ls : List (Bool × UInt8)) (args : List Str) :
    (parsed info ls args).length = (ls.filter (known info)).length := by
  induction ls generalizing args with
  | nil => rfl
  | cons l ls ih =>
    rw [parsed]
    by_cases hbare : Bare info l
    · rw [takesArg_bare hbare, List.filter_cons_of_pos (bare_known hbare).1, List.length_cons,
        List.length_cons, ih]
    · rw [takesArg_known hbare]
      cases hknown : known info l with
      | false => rw [List.filter_cons_of_neg (by rw [hknown]; decide)]; exact ih args
      | true =>
        rw [List.filter_cons_of_pos hknown]
        cases wantsArg info l <;> simp [ih]

def Dissects (info : Info) (msg : Msg) (is324 : Bool) (word : Str) : Prop :=
  let ls := (letters true word).filter (known info)
  ∃ arr, parseMODEArray info msg is324 [] = .ok (some (arr, ls.length), []) ∧
    arr.take ls.length = (dissected info ls (params msg (4 + if is324 then 1 else 0))).map fun m =>
      some (text m)

theorem dissects_iff (info : Info) (hword : msg.fld (3 + if is324 then 1 else 0) = .ok word) :
    Dissects info msg is324 word ↔
      parsed info (letters true word) (params msg (4 + if is324 then 1 else 0)) =
        dissected info ((letters true word).filter (known info))
          (params msg (4 + if is324 then 1 else 0)) := by
  obtain ⟨r, al', hrun, hms, hend⟩ := parseMODE_letters info hword []
  obtain ⟨hsome, rfl⟩ := hend rfl
  obtain ⟨ms, rfl⟩ := Option.isSome_iff_exists.1 hsome
  have hparsed := hms ms rfl
  rw [← hparsed]
  have hlen :
      ms.length = ((letters true word).filter (known info)).length := by rw [hparsed, length_parsed]
  obtain ⟨arr, harray, htake⟩ :
    ∃ arr, parseMODEArray info msg is324 [] = .ok (some (arr, ms.length), []) ∧
      arr.take ms.length = ms.map fun m => some (text m) := by
    refine ⟨(filled [] (word.filter fun c => !isSign c).length ms).1, ?_, ?_⟩
    · rw [parseMODEArray_filled hword, hrun]
      simp only [Except.map, Option.map_some, filled, List.length_nil, Nat.zero_add]
    · rw [filled, List.nil_append, List.take_left' (by rw [List.length_map, List.length_map]),
        List.map_map]
      rfl
  rw [Dissects, harray]
  rw [← hlen]
  constructor
  · rintro ⟨arr', he, hlist⟩
    obtain rfl : arr = arr' := by simpa using he
    rw [htake] at hlist
    exact List.map_injective_iff.2 (fun _ _ h => text_injective (Option.some.inj h)) hlist
  · intro heq
    exact ⟨arr, rfl, by rw [htake, heq]⟩

/-- A MODE line is taken apart as it should be if no letter for members is listed as a channel
mode that has no argument there. -/
theorem parseMODE_dissects (info : Info) (msg : Msg) (is324 : Bool) (word : Str)
    (hword : msg.fld (3 + if is324 then 1 else 0) = .ok word) :
    Dissects info msg is324 word ↔ ∀ l ∈ letters true word, ¬Bare info l :=
  (dissects_iff info hword).trans (parsed_dissected _ _)

def modeLine (word : String) : Msg := Msg.ofLine (ascii ":s!u@h MODE #a " ++ ascii word)

theorem modeLine_dissects : Dissects .init (modeLine "+ol-vl+x bob 5") false (ascii "+ol-vl+x") :=
  (parseMODE_dissects .init _ false _ (by rfl)).2 (by decide +kernel)

def doubled : Info :=
  (handle_005_PREFIX (handle_005_CHANMODES .init (ascii "b,k,l,o")).2 (ascii "(ov)@+")).2

/-- The letter stands alone, and the argument is left for the next one. -/
theorem doubled_bare : ¬Dissects doubled (modeLine "+ov bob al") false (ascii "+ov") := by
  rw [dissects_iff doubled (by rfl)]
  exact fun he => absurd (congrArg (List.map ModeChange.arg) he) (by decide +kernel)

def HasNick (info : Info) (m : ModeChange) : Prop :=
  3 < (text m).length ∧ ∀ c b, applyMode info c m b ≠ .error .overrun

theorem updateModepfx_inside (b : Base) (c : Ptr) (nick : Str) (sym : UInt8) (enab : Bool) :
    Avoids (· = .overrun) (updateModepfx info b c nick sym enab) := by
  refine Avoids.bind ?_ fun ch => ?_
  · rw [Base.chan]
    split
    · exact Avoids.error (by decide)
    · exact Avoids.ok _
  · split
    · exact Avoids.ok _
    · split <;> exact Avoids.ok _

theorem hasNick_iff {m : ModeChange} (h : listed info m.mode = true) :
    HasNick info m ↔ m.arg.isSome = true := by
  obtain ⟨i, hi⟩ := Option.isSome_iff_exists.1 h
  obtain ⟨enab, mode, arg⟩ := m
  cases arg with
  | none =>
    exact iff_of_false (fun hn => absurd hn.1 (by simp [text, ModeChange.modestr])) (by simp)
  | some arg =>
    refine iff_of_true ⟨by simp [text, ModeChange.modestr], fun c b hover => ?_⟩ rfl
    have hinside : Avoids (· = Fault.overrun) (applyMode info c ⟨enab, mode, some arg⟩ b) := by
      rw [applyMode, hi]
      exact (updateModepfx_inside b c arg _ enab).bind fun _ => Avoids.ok _
    rw [hover] at hinside
    exact hinside rfl

/-- Every item that is for a member has a place for the nick if no letter of the word is listed
as a channel mode that has no argument there. -/
theorem members_have_nicks (hword : msg.fld 3 = .ok word) {al al' : Alloc} {ms : List ModeChange}
    (hrun : parseMODE info msg false al = .ok (some ms, al')) :
    (∀ m ∈ ms, listed info m.mode = true → HasNick info m) ↔
      ∀ l ∈ letters true word, ¬Bare info l := by
  obtain ⟨r, al₁, hparse, hms, _⟩ := @parseMODE_letters msg false word info hword al
  rw [hrun] at hparse
  obtain ⟨rfl, rfl⟩ := Prod.mk.inj (Except.ok.inj hparse)
  rw [hms ms rfl, ← parsed_args _ (params msg 4)]
  exact forall₂_congr fun m _ => imp_congr_right fun hl => hasNick_iff hl

theorem members_have_nicks_plain :
    ∃ ms al', parseMODE .init (modeLine "+o bob") false [] = .ok (some ms, al') ∧
      ms = parsed .init (letters true (ascii "+o")) (params (modeLine "+o bob") 4) ∧
      ∀ m ∈ ms, listed .init m.mode = true → HasNick .init m := by
  obtain ⟨r, al', hrun, hms, hend⟩ :=
    @parseMODE_letters (modeLine "+o bob") false (ascii "+o") .init (by rfl) []
  obtain ⟨ms, rfl⟩ := Option.isSome_iff_exists.1 (hend rfl).1
  exact ⟨ms, al', hrun, hms ms rfl,
    (@members_have_nicks .init _ (ascii "+o") (by rfl) _ _ ms hrun).2 (by decide +kernel)⟩

/-- The nick is read behind the end of the item. -/
theorem doubled_overruns : fault (h_MODE_chanmode doubled (modeLine "+o bob") 5 entered) =
    some .overrun ∧
    ¬∀ m ∈ parsed doubled (letters true (ascii "+o")) (params (modeLine "+o bob") 4),
      listed doubled m.mode = true → HasNick doubled m := by
  refine ⟨by decide +kernel, fun h => ?_⟩
  have hitem : (⟨true, 0x6f, none⟩ : ModeChange) ∈
      parsed doubled (letters true (ascii "+o")) (params (modeLine "+o bob") 4) :=
        List.mem_cons_self
  have hlisted : listed doubled 0x6f = true := by decide +kernel
  exact absurd ((hasNick_iff hlisted).1 (h _ hitem hlisted)) (by decide)

end Srsirc.ModeDissect
