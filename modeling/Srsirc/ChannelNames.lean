import Srsirc.CaseAgreement
import Srsirc.TrackSafety

namespace Srsirc.ChannelNames

open CharMap CaseMapping CaseAgreement Dictionary Fallible Members Message ServerInfo Tally Track
open TrackSafety UserBase

/-- The part of a name that its key is made from. -/
def stem (name : Str) : Str := name.takeWhile fun c => decide (IsKeyByte c)

/-- The stems are alike but for carets against tildes, which the casemapping tells apart in
comparisons or in keys, but not in both. -/
def Twins (cm : CMap) (name name' : Str) : Prop := cm ≠ .ascii ∧ CaretTwins (stem name) (stem name')

/-- The map tells two names apart exactly if they are different: stems that are alike belong to
names that are, and no carets stand against tildes in the stems, unless, under the RFC 1459
casemapping, the names differ behind them. -/
def Distinguished (cm : CMap) (name name' : Str) : Prop :=
  (Twins cm name name' → cm = .rfc1459 ∧ ¬Folds cm name name') ∧
    (¬Twins cm name name' → Folds cm (stem name) (stem name') → Folds cm name name')

theorem stem_key (name : Str) : ∀ c ∈ stem name, IsKeyByte c := by
  intro c hc
  have h := List.mem_takeWhile_imp hc
  exact of_decide_eq_true h

theorem norm_stem (cm : CMap) (name : Str) : norm cm (stem name) = norm cm name := by
  apply norm_takeWhile
  intro c hc
  have hkey := of_decide_eq_false hc
  by_contra hne
  refine hkey ⟨?_, ?_, ?_⟩
  · rintro rfl
    exact hne (gCmap_zero cm)
  · rintro rfl
    exact hne (by cases cm <;> rfl)
  · rintro rfl
    exact hne (by cases cm <;> rfl)

theorem norm_eq_iff (cm : CMap) (name name' : Str) :
    norm cm name = norm cm name' ↔ Folds (swap cm) (stem name) (stem name') := by
  rw [← pfxeq_iff_folds cm _ _ (stem_key name) (stem_key name'), pfxeq_iff, norm_stem, norm_stem]

theorem key_tolower (cm : CMap) (c d : UInt8) (h : tolower c cm = tolower d cm) :
    IsKeyByte c ↔ IsKeyByte d := by
  have hkey : ∀ c, IsKeyByte (tolower c cm) ↔ IsKeyByte c := by
    intro c
    apply byte_cases (p := fun c => IsKeyByte (tolower c cm) ↔ IsKeyByte c)
    cases cm <;> decide +kernel
  rw [← hkey c, h, hkey d]

theorem folds_stem {cm : CMap} {name name' : Str} (h : Folds cm name name') :
    Folds cm (stem name) (stem name') := by
  induction h with
  | nil => exact List.Forall₂.nil
  | @cons c d a b hcd _ ih =>
    rw [stem, stem]
    by_cases hc : IsKeyByte c
    · have hd := (key_tolower cm c d hcd).1 hc
      rw [List.takeWhile_cons_of_pos (by simpa using hc),
        List.takeWhile_cons_of_pos (by simpa using hd)]
      exact List.Forall₂.cons hcd ih
    · have hd := fun hd => hc ((key_tolower cm c d hcd).2 hd)
      rw [List.takeWhile_cons_of_neg (by simpa using hc),
        List.takeWhile_cons_of_neg (by simpa using hd)]
      exact List.Forall₂.nil

theorem distinguished_iff (cm : CMap) (name name' : Str) :
    (norm cm name = norm cm name' ↔ Folds cm name name') ↔ Distinguished cm name name' := by
  rw [norm_eq_iff]
  by_cases h : Twins cm name name'
  · have hd : Distinguished cm name name' ↔ cm = .rfc1459 ∧ ¬Folds cm name name' :=
      ⟨fun hd => hd.1 h, fun hd => ⟨fun _ => hd, fun hn => absurd h hn⟩⟩
    rw [hd]
    obtain ⟨hcm, ht⟩ := h
    have hrfc : Folds .rfc1459 (stem name) (stem name') := (folds_rfc_iff _ _).2 ht.alike
    have hstrict : ¬Folds .strictRfc1459 (stem name) (stem name') := fun hs =>
      not_forall_alike ht ((folds_strict_iff _ _).1 hs)
    cases cm with
    | rfc1459 => simp [swap, hstrict]
    | strictRfc1459 =>
      have hne : ¬Folds .strictRfc1459 name name' := fun hf => hstrict (folds_stem hf)
      simp [swap, hrfc, hne]
    | ascii => exact absurd rfl hcm
  · have hd : Distinguished cm name name' ↔
        (Folds cm (stem name) (stem name') → Folds cm name name') :=
      ⟨fun hd => hd.2 h, fun hd => ⟨fun ht => absurd ht h, fun _ => hd⟩⟩
    have hsame : Folds cm (stem name) (stem name') ↔ Folds (swap cm) (stem name) (stem name') := by
      rw [folds_swap_iff]
      by_contra hc
      rw [not_or, not_not] at hc
      exact h hc
    rw [hd, ← hsame]
    exact ⟨fun hiff => hiff.1, fun hs => ⟨hs, folds_stem⟩⟩

structure OwnJoin {cm : CMap} (i : Input cm) (name : Str) : Prop where
  cmd : i.cmd = .join
  nargs : 3 ≤ i.msg.nargs
  me : ∃ ident, i.msg.fld 0 = .ok ident ∧ isMe i.info (ident2nick MAX_NICK_LEN ident) = true
  name : i.msg.fld 2 = .ok name

variable {cm : CMap} {b : Base}

theorem present_of_fld {msg : Msg} {k : Nat} {s : Str} (h : msg.fld k = .ok s) :
    msg.present k = true := by
  rw [Msg.present]
  cases hp : msg.ptr k with
  | some p => rfl
  | none =>
    rw [Msg.fld, Msg.deref, hp] at h
    cases h

theorem handle_ownJoin {i : Input cm} {name : Str} (hj : OwnJoin i name) (h : Safe cm b) :
    (getChan b name ≠ none → handle i b = .ok (0, b)) ∧
      (getChan b name = none →
        ∃ c b', handle i b = .ok (0, b') ∧ Safe cm b' ∧ ChannelOps.Opened cm b name c b') := by
  obtain ⟨info, cmd, msg, hcm⟩ := i
  obtain ⟨rfl, hn, ⟨ident, hident, hme⟩, hname⟩ := hj
  dsimp only at hn hident hme hname
  have hlt : ¬msg.nargs < 3 := by omega
  constructor
  · intro hne
    obtain ⟨c, hc⟩ := Option.ne_none_iff_exists'.1 hne
    simp only [handle, h_JOIN, present_of_fld hident, hlt, hident, hname, hme, hc, ok_bind,
      Bool.not_true,
      Bool.false_eq_true, or_self, if_false, if_true]
  · intro hnone
    have hfree := hnone
    rw [getChan_eq h] at hfree
    obtain ⟨c, b', hadd, h', ho⟩ := ChannelOps.addChan_ok h hfree
    refine ⟨c, b', ?_, h', ho⟩
    simp only [handle, h_JOIN, present_of_fld hident, hlt, hident, hname, hme, hnone, hcm,
      hadd, ok_bind,
      Bool.not_true, Bool.false_eq_true, or_self, if_false, if_true]

/-- Our JOINs are counted as far as their keys are new. -/
theorem run_ownJoins {is : List (Input cm)} {names : List Str} (hj : List.Forall₂ OwnJoin is names)
    (h : Safe cm b) : ∃ b', run is b = .ok b' ∧ numChans b' ≤ numChans b + names.length ∧
      (numChans b' = numChans b + names.length ↔
        names.Pairwise (fun n n' => norm cm n ≠ norm cm n') ∧ ∀ n ∈ names, getChan b n = none) := by
  induction hj generalizing b with
  | nil => exact ⟨b, rfl, Nat.le_refl _, by simp⟩
  | @cons i name is names hi _ ih =>
    obtain ⟨hold, hnew⟩ := handle_ownJoin hi h
    rw [run]
    by_cases hc : getChan b name = none
    · obtain ⟨c, b₁, hstep, h₁, ho⟩ := hnew hc
      have hcount : numChans b₁ = numChans b + 1 := by
        rw [numChans, count_eq, ho.vals.length_eq, List.length_cons, numChans, count_eq]
      have hget : ∀ n, getChan b₁ n = none ↔ norm cm name ≠ norm cm n ∧ getChan b n = none := by
        intro n
        rw [getChan_eq h₁, ho.chans, getChan_eq h, Function.update_apply]
        by_cases heq : norm cm n = norm cm name
        · simp [heq]
        · simp [heq, Ne.symm heq]
      obtain ⟨b', hrun, hle, hiff⟩ := ih h₁
      refine ⟨b', by rw [hstep, ok_bind, hrun], by rw [List.length_cons]; omega, ?_⟩
      have hsum : numChans b' = numChans b + (name :: names).length ↔
          numChans b' = numChans b₁ + names.length := by
        rw [List.length_cons]
        omega
      rw [hsum, hiff, List.pairwise_cons, List.forall_mem_cons]
      simp only [hget]
      constructor
      · rintro ⟨hpair, hall⟩
        exact ⟨⟨fun n hn => (hall n hn).1, hpair⟩, hc, fun n hn => (hall n hn).2⟩
      · rintro ⟨⟨hne, hpair⟩, _, hall⟩
        exact ⟨hpair, fun n hn => ⟨hne n hn, hall n hn⟩⟩
    · rw [hold hc, ok_bind]
      obtain ⟨b', hrun, hle, _⟩ := ih h
      refine ⟨b', hrun, by rw [List.length_cons]; omega, ?_⟩
      refine iff_of_false (by rw [List.length_cons]; omega) fun hall =>
        hc (hall.2 name List.mem_cons_self)

theorem getChan_init (cm : CMap) (name : Str) : getChan (Base.init cm) name = none := by
  rw [getChan, get_eq, Base.init, lookup_init]

theorem getChan_addChan (cm : CMap) (name : Str) :
    ∃ c b, addChan (Base.init cm) cm name = (some c, b) ∧
      ∀ name', getChan b name' = some c ↔ norm cm name = norm cm name' := by
  have hnone : (Base.init cm).chans.lookup (norm cm name) = none := by rw [Base.init, lookup_init]
  obtain ⟨c, b, hadd, h, ho⟩ := ChannelOps.addChan_ok (safe_init cm) hnone
  refine ⟨c, b, hadd, fun name' => ?_⟩
  rw [getChan_eq h, ho.chans, Function.update_apply, Base.init, lookup_init]
  by_cases heq : norm cm name' = norm cm name
  · simp [heq]
  · simp [heq, Ne.symm heq]

/-- A channel is found under another name exactly if the names are equal under the
casemapping, and our channels are all counted, as far as the map distinguishes their names. -/
theorem channels_apart (cm : CMap) :
    (∀ name name', ∃ c b, addChan (Base.init cm) cm name = (some c, b) ∧
      ((getChan b name' = some c ↔ Folds cm name name') ↔ Distinguished cm name name')) ∧
    ∀ (is : List (Input cm)) (names : List Str), List.Forall₂ OwnJoin is names →
      names.Pairwise (fun name name' => ¬Folds cm name name') →
      ∃ b, run is (Base.init cm) = .ok b ∧
        (numChans b = names.length ↔ names.Pairwise (Distinguished cm)) := by
  constructor
  · intro name name'
    obtain ⟨c, b, hadd, hget⟩ := getChan_addChan cm name
    exact ⟨c, b, hadd, by rw [hget, distinguished_iff]⟩
  · intro is names hj hdiff
    obtain ⟨b, hrun, _, hiff⟩ := run_ownJoins hj (safe_init cm)
    have hzero :
        numChans (Base.init cm) = 0 := by rw [numChans, count_eq, Base.init, vals_init]; rfl
    rw [hzero, Nat.zero_add] at hiff
    refine ⟨b, hrun, hiff.trans ?_⟩
    constructor
    · intro hall
      refine hall.1.imp₂ (fun _ _ hne hnot => ?_) hdiff
      exact (distinguished_iff cm _ _).1 (iff_of_false hne hnot)
    · intro hd
      refine ⟨hd.imp₂ (fun _ _ hd hnot heq => ?_) hdiff, fun n _ => getChan_init cm n⟩
      exact hnot (((distinguished_iff cm _ _).2 hd).1 heq)

theorem channels_apart_two :
    ∃ b, run [sample .ascii .join ":me!u@h JOIN #a", sample .ascii .join ":me!u@h JOIN #b"]
        (Base.init .ascii) = .ok b ∧
      (numChans b = 2 ↔ [ascii "#a", ascii "#b"].Pairwise (Distinguished .ascii)) := by
  refine (channels_apart .ascii).2 _ [ascii "#a", ascii "#b"] ?_ ?_
  · refine .cons ⟨rfl, by decide +kernel, ⟨ascii "me!u@h", by decide +kernel, by decide +kernel⟩,
      by decide +kernel⟩ ?_
    refine .cons ⟨rfl, by decide +kernel, ⟨ascii "me!u@h", by decide +kernel, by decide +kernel⟩,
      by decide +kernel⟩ ?_
    exact .nil
  · rw [List.pairwise_pair, ← istrcmp_eq_zero]
    decide +kernel

/-- The characters of a user's address end a channel's key. -/
theorem channels_conflated :
    (∃ c b, addChan (Base.init .ascii) .ascii (ascii "#a!x") = (some c, b) ∧
      getChan b (ascii "#a@yz") = some c ∧ ¬Folds .ascii (ascii "#a!x") (ascii "#a@yz")) ∧
    ∃ b, run [sample .ascii .join ":me!u@h JOIN #a!x", sample .ascii .join ":me!u@h JOIN #a!y"]
        (Base.init .ascii) = .ok b ∧ numChans b = 1 ∧
          ¬Folds .ascii (ascii "#a!x") (ascii "#a!y") := by
  constructor
  · obtain ⟨c, b, hadd, hget⟩ := getChan_addChan .ascii (ascii "#a!x")
    refine ⟨c, b, hadd, (hget _).2 (by decide +kernel), ?_⟩
    rw [← istrcmp_eq_zero]
    decide +kernel
  · have h : (run [sample .ascii .join ":me!u@h JOIN #a!x", sample .ascii .join ":me!u@h JOIN #a!y"]
        (Base.init .ascii)).toOption.map numChans = some 1 := by decide +kernel
    obtain ⟨b, hb, hcount⟩ := Option.map_eq_some_iff.1 h
    refine ⟨b, ?_, hcount, ?_⟩
    · cases hr :
        run [sample .ascii .join ":me!u@h JOIN #a!x", sample .ascii .join ":me!u@h JOIN #a!y"]
          (Base.init .ascii) with
      | error e =>
        rw [hr] at hb
        cases hb
      | ok b' =>
        rw [hr] at hb
        rw [Option.some.inj hb]
    · rw [← istrcmp_eq_zero]
      decide +kernel

end Srsirc.ChannelNames
