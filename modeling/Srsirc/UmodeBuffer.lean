import Srsirc.BoundedStore
import Srsirc.BufferData
import Srsirc.CoreHandlers
import Srsirc.Fallible
import Srsirc.ModeChanges
import Srsirc.Toggles

namespace Srsirc.UmodeBuffer

open CharMap Memory Message ServerInfo Context CoreHandlers BoundedStore Fallible Toggles
open BufferData (overwrite_eq)
open ModeChanges (fld_nonzero)

def str (buf : Mem) : Except Fault Str := if 0 ∈ buf then .ok (cstr buf 0) else .error .overrun

/-- The loop that closes the gap in front of `m`, with `k` bytes of the array from there on. -/
def shift : Nat → Nat → Mem → Except Fault Mem
  | 0, _, _ => .error .overrun
  | k + 1, m, buf =>
    if buf.getD m 0 = 0 then .ok buf
    else shift k (m + 1) ((buf.set (m - 1) (buf.getD m 0)).set m 0)

/-- The letter at `m` is taken out. -/
def takeOut (m : Nat) (buf : Mem) : Except Fault Mem := do
  let buf ← store buf m [0]
  shift (buf.length - (m + 1)) (m + 1) buf

/-- `lsi_b_strNcat` into an array of `destsz` bytes. -/
def strNcat (dest : Mem) (src : Str) (destsz : Nat) : Except Fault Mem := do
  let s ← str dest
  if destsz ≤ s.length + 1 then .ok dest
  else store dest s.length (src.take (destsz - (s.length + 1)) ++ [0])

/-- The loop of `handle_MODE` on `ctx->myumodes`. -/
def applyModes : Str → Bool → Mem → Except Fault Mem
  | [], _, buf => .ok buf
  | c :: p, enab, buf =>
    if c = 0x2b ∨ c = 0x2d then applyModes p (c = 0x2b) buf
    else do
      let s ← str buf
      if enab = (strchr s c).isSome then applyModes p enab buf
      else do
        let buf ←
          match strchr s c with
          | some m => takeOut m buf
          | none => strNcat buf [c] MAX_UMODES_LEN
        applyModes p enab buf

/-- `handle_MODE`, as far as it is about `ctx->myumodes`. -/
def handleMode (info : Info) (msg : Msg) (buf : Mem) : Except Fault (Flags × Mem) :=
  if msg.nargs < 4 then .ok (PROTO_ERR, buf)
  else do
    let target ← msg.fld 2
    if istrcmp target info.mynick info.casemap ≠ 0 then .ok (0, buf)
    else do
      let modes ← msg.fld 3
      let buf ← applyModes modes true buf
      .ok (0, buf)

def handleModes : List (Info × Msg) → Mem → Except Fault Mem
  | [], buf => .ok buf
  | (info, msg) :: msgs, buf => do
    let (_, buf) ← handleMode info msg buf
    handleModes msgs buf

structure Holds (buf : Mem) (s : Str) : Prop where
  eq : ∃ post, buf = s ++ 0 :: post
  length : buf.length = MAX_UMODES_LEN
  nonzero : ∀ c ∈ s, c ≠ 0

variable {buf post : Mem} {s pre : Str} {c : UInt8}

theorem Holds.cstr (h : Holds buf s) : cstr buf 0 = s := by
  obtain ⟨post, rfl⟩ := h.eq
  rw [Memory.cstr, List.drop_zero, takeWhile_terminated, takeWhile_nonzero h.nonzero]

theorem Holds.str (h : Holds buf s) : str buf = .ok s := by
  obtain ⟨post, heq⟩ := h.eq
  rw [UmodeBuffer.str, if_pos (by simp [heq]), h.cstr]

theorem Holds.short (h : Holds buf s) : s.length < MAX_UMODES_LEN := by
  obtain ⟨post, heq⟩ := h.eq
  rw [← h.length, heq, List.length_append, List.length_cons]
  omega

theorem shift_eq (hs : ∀ c ∈ s, c ≠ 0) (pre : Str) (post : Mem) :
    shift (s ++ 0 :: post).length (pre.length + 1) (pre ++ 0 :: (s ++ 0 :: post)) =
      .ok (pre ++ (s ++ 0 :: 0 :: post)) := by
  induction s generalizing pre with
  | nil =>
    rw [List.nil_append, List.length_cons, shift, if_pos (by simp)]
    rfl
  | cons c s ih =>
    have hget : (pre ++ 0 :: (c :: s ++ 0 :: post)).getD (pre.length + 1) 0 = c := by simp
    have hset : ((pre ++ 0 :: (c :: s ++ 0 :: post)).set (pre.length + 1 - 1) c).set
        (pre.length + 1) 0 = (pre ++ [c]) ++ 0 :: (s ++ 0 :: post) := by simp
    have hrest := ih (fun d hd => hs d (List.mem_cons_of_mem _ hd)) (pre ++ [c])
    have hlen : (pre ++ [c]).length = pre.length + 1 := by simp
    rw [hlen] at hrest
    rw [List.cons_append, List.length_cons, ← List.cons_append, shift, hget,
      if_neg (hs c List.mem_cons_self), hset, hrest]
    simp

theorem takeOut_holds {t : Str} (h : Holds buf (s ++ c :: t)) :
    Returns (takeOut s.length buf) fun buf' => Holds buf' (s ++ t) := by
  obtain ⟨⟨post, rfl⟩, hlen, hz⟩ := h
  have ht : ∀ c ∈ t, c ≠ 0 := fun c hc =>
    hz c (List.mem_append_right _ (List.mem_cons_of_mem _ hc))
  have hstore : store (s ++ c :: t ++ 0 :: post) s.length [0] =
      .ok (s ++ 0 :: (t ++ 0 :: post)) := by
    have hcut : s ++ c :: t ++ 0 :: post = s ++ ([c] ++ (t ++ 0 :: post)) := by simp
    rw [hcut, store_ok (by simp), overwrite_eq s [c] _ [0] rfl rfl]
    simp
  have hleft : (s ++ 0 :: (t ++ 0 :: post)).length - (s.length + 1) = (t ++ 0 :: post).length := by
    rw [List.length_append, List.length_cons]
    omega
  have hshift := shift_eq ht s post
  rw [← hleft] at hshift
  refine ⟨s ++ (t ++ 0 :: 0 :: post), ?_, ⟨0 :: post, (List.append_assoc _ _ _).symm⟩, ?_, ?_⟩
  · rw [takeOut, hstore]
    exact hshift
  · rw [← hlen]
    simp only [List.length_append, List.length_cons]
    omega
  · exact fun c hc => hz c ((List.mem_append.1 hc).elim (List.mem_append_left _) fun hc =>
      List.mem_append_right _ (List.mem_cons_of_mem _ hc))

theorem strNcat_holds (h : Holds buf s) (hc : c ≠ 0) :
    Returns (strNcat buf [c] MAX_UMODES_LEN) fun buf' =>
      Holds buf' (Message.strNcat s [c] MAX_UMODES_LEN) := by
  rw [strNcat, h.str, ok_bind, Message.strNcat]
  split
  · exact Returns.ok h
  · next hroom =>
    obtain ⟨⟨post, rfl⟩, hlen, hz⟩ := h
    have hone : [c].take (MAX_UMODES_LEN - (s.length + 1)) = [c] :=
      List.take_of_length_le (by rw [List.length_singleton]; omega)
    rw [List.length_append, List.length_cons] at hlen
    obtain ⟨z, post, rfl⟩ : ∃ z post', post = z :: post' :=
      List.exists_cons_of_length_pos (by omega)
    rw [hone, store_ok (by simp)]
    refine Returns.ok ⟨⟨post, ?_⟩, ?_, ?_⟩
    · have hcut : s ++ 0 :: z :: post = s ++ ([0, z] ++ post) := by simp
      rw [hcut, overwrite_eq s [0, z] _ ([c] ++ [0]) rfl rfl]
      simp
    · rw [length_overwrite (by simp), List.length_append, List.length_cons, hlen]
    · intro d hd
      obtain hd | hd := List.mem_append.1 hd
      · exact hz d hd
      · rwa [List.mem_singleton.1 hd]

/-- The loop on the array does what the one on the string does. -/
theorem applyModes_holds {w : Str} (hw : ∀ c ∈ w, c ≠ 0) (enab : Bool) (h : Holds buf s) :
    Returns (applyModes w enab buf) fun buf' => Holds buf' (applyUmodes w enab s) := by
  induction w generalizing enab buf s with
  | nil => exact Returns.ok h
  | cons c w ih =>
    obtain ⟨hc, hw⟩ := List.forall_mem_cons.1 hw
    rw [applyModes, applyUmodes]
    split
    · exact ih hw _ h
    · rw [h.str, ok_bind]
      split
      · exact ih hw _ h
      · next hne =>
        cases hm : strchr s c with
        | some m =>
          obtain ⟨a, b, rfl, rfl, ha⟩ := strchr_split hc hm
          obtain rfl : enab = false := by
            rw [hm] at hne
            exact Bool.eq_false_iff.2 hne
          refine (takeOut_holds h).bind fun buf' hbuf => ?_
          rw [if_neg Bool.false_ne_true, List.erase_append_right _ ha, List.erase_cons_head]
          exact ih hw _ hbuf
        | none =>
          obtain rfl : enab = true := by
            rw [hm] at hne
            exact Bool.eq_true_of_not_eq_false hne
          refine (strNcat_holds h hc).bind fun buf' hbuf => ?_
          rw [if_pos rfl]
          exact ih hw _ hbuf

/-- The changes that a mode word asks for, with the sign in force. -/
def changes : Str → Bool → List (UInt8 × Bool)
  | [], _ => []
  | c :: w, enab =>
    if c = 0x2b ∨ c = 0x2d then changes w (c = 0x2b) else (c, enab) :: changes w enab

/-- The mode word of a message that is about our nick. -/
def ownWord (info : Info) (msg : Msg) : Str :=
  match msg.fld 2, msg.fld 3 with
  | .ok target, .ok modes =>
    if 4 ≤ msg.nargs ∧ istrcmp target info.mynick info.casemap = 0 then modes else []
  | _, _ => []

/-- All the changes, each word starting in `+`. -/
def asked (msgs : List (Info × Msg)) : List (UInt8 × Bool) :=
  msgs.flatMap fun m => changes (ownWord m.1 m.2) true

theorem ownWord_nonzero (info : Info) (msg : Msg) : ∀ c ∈ ownWord info msg, c ≠ 0 := by
  intro c hc
  rw [ownWord] at hc
  split at hc
  · next hmodes =>
    split at hc
    · exact fun h0 => fld_nonzero hmodes (h0 ▸ hc)
    · cases hc
  · cases hc

/-- No more than this fits into the array. -/
def Fits (es : List (UInt8 × Bool)) : Prop :=
  ∀ es', es' <+: es → AtMost (MAX_UMODES_LEN - 1) (On es')

theorem Fits.of_append {es es' : List (UInt8 × Bool)} (h : Fits (es ++ es')) : Fits es :=
  fun _ hpre => h _ (hpre.trans (List.prefix_append _ _))

theorem throw_room {es : List (UInt8 × Bool)} (hfit : Fits (es ++ [(c, true)]))
    (hc : c ∉ switched es) :
    Message.strNcat (switched es) [c] MAX_UMODES_LEN = switched es ++ [c] := by
  have hnew : switched (es ++ [(c, true)]) = switched es ++ [c] := by
    rw [switched_snoc, Toggles.throw, if_neg (by simp [hc]), if_pos rfl]
  have hlen := hfit _ List.prefix_rfl _ (nodup_switched _) fun a => (mem_switched _).1
  rw [hnew, List.length_append, List.length_singleton] at hlen
  have hmax : MAX_UMODES_LEN = 64 := rfl
  rw [Message.strNcat, if_neg (by omega), List.take_of_length_le]
  rw [List.length_singleton]
  omega

theorem applyUmodes_switched {w : Str} (hw : ∀ c ∈ w, c ≠ 0) (enab : Bool)
    (es : List (UInt8 × Bool)) (hfit : Fits (es ++ changes w enab)) :
    applyUmodes w enab (switched es) = switched (es ++ changes w enab) := by
  induction w generalizing enab es with
  | nil => rw [applyUmodes, changes, List.append_nil]
  | cons c w ih =>
    obtain ⟨hc, hw⟩ := List.forall_mem_cons.1 hw
    rw [applyUmodes, changes]
    rw [changes] at hfit
    split
    · next hsign =>
      rw [if_pos hsign] at hfit
      exact ih hw _ es hfit
    · next hsign =>
      rw [if_neg hsign, List.append_cons] at hfit
      have hrest := ih hw enab (es ++ [(c, enab)]) hfit
      have hin : (strchr (switched es) c).isSome = decide (c ∈ switched es) :=
        Bool.eq_iff_iff.2 ((isSome_strchr hc).trans decide_eq_true_iff.symm)
      rw [List.append_cons, ← hrest, switched_snoc, Toggles.throw, hin]
      split
      · rfl
      · next hne =>
        cases enab with
        | false => rfl
        | true =>
          have hout : c ∉ switched es := fun h => hne (decide_eq_true h).symm
          rw [if_pos rfl, if_pos rfl, throw_room hfit.of_append hout]

theorem handleMode_other {info : Info} {msg : Msg} (buf : Mem)
    (h : msg.nargs < 4 ∨ ∃ target, msg.fld 2 = .ok target ∧
      istrcmp target info.mynick info.casemap ≠ 0) :
    (handleMode info msg buf).map Prod.snd = .ok buf := by
  rw [handleMode]
  split
  · rfl
  · next hn =>
    obtain ⟨target, htarget, hne⟩ := h.resolve_left hn
    rw [htarget, ok_bind, if_pos hne]
    rfl

theorem handleMode_own {info : Info} {msg : Msg} (hn : 4 ≤ msg.nargs) {target modes : Str}
    (htarget : msg.fld 2 = .ok target) (hmodes : msg.fld 3 = .ok modes)
    (h : istrcmp target info.mynick info.casemap = 0) (buf : Mem) :
    handleMode info msg buf = (applyModes modes true buf).map fun buf' => (0, buf') := by
  rw [handleMode, if_neg (Nat.not_lt.2 hn), htarget, ok_bind, if_neg (not_not_intro h), hmodes,
    ok_bind]
  cases applyModes modes true buf <;> rfl

theorem ownWord_cases (info : Info) (msg : Msg) :
    (∃ target modes, 4 ≤ msg.nargs ∧ msg.fld 2 = .ok target ∧ msg.fld 3 = .ok modes ∧
      istrcmp target info.mynick info.casemap = 0 ∧ ownWord info msg = modes) ∨
    ((msg.nargs < 4 ∨ ∃ target, msg.fld 2 = .ok target ∧
      istrcmp target info.mynick info.casemap ≠ 0) ∧ ownWord info msg = []) := by
  by_cases hn : 4 ≤ msg.nargs
  · obtain ⟨target, htarget⟩ := @Msg.fld_of_lt msg 2 (by omega) (by omega)
    obtain ⟨modes, hmodes⟩ := @Msg.fld_of_lt msg 3 (by omega) (by omega)
    by_cases h : istrcmp target info.mynick info.casemap = 0
    · refine Or.inl ⟨target, modes, hn, htarget, hmodes, h, ?_⟩
      simp [ownWord, htarget, hmodes, hn, h]
    · refine Or.inr ⟨Or.inr ⟨target, htarget, h⟩, ?_⟩
      simp [ownWord, htarget, hmodes, h]
  · refine Or.inr ⟨Or.inl (by omega), ?_⟩
    rw [ownWord]
    split
    · exact if_neg fun h => hn h.1
    · rfl

theorem handleMode_switched {info : Info} {msg : Msg} {es : List (UInt8 × Bool)}
    (h : Holds buf (switched es)) (hfit : Fits (es ++ changes (ownWord info msg) true)) :
    Returns (handleMode info msg buf) fun r =>
      Holds r.2 (switched (es ++ changes (ownWord info msg) true)) := by
  obtain ⟨target, modes, hn, htarget, hmodes, hown, hword⟩ | ⟨hother, hword⟩ :=
    ownWord_cases info msg
  · have hz : ∀ c ∈ modes, c ≠ 0 := hword ▸ ownWord_nonzero info msg
    rw [hword] at hfit ⊢
    rw [handleMode_own hn htarget hmodes hown, ← applyUmodes_switched hz true es hfit]
    exact (applyModes_holds hz true h).map fun _ h => h
  · have hsame := handleMode_other buf hother
    rw [hword, changes, List.append_nil]
    cases hr : handleMode info msg buf with
    | error e =>
      rw [hr] at hsame
      cases hsame
    | ok r =>
      rw [hr] at hsame
      cases hsame
      exact Returns.ok h

/-- The handler on the string in the context is the one on the array. -/
theorem handle_MODE_refined {irc : Irc} {msg : Msg} (h : Holds buf irc.info.myumodes)
    (logon : Bool) :
    Returns (handleMode irc.info msg buf) fun r =>
      ∃ irc', handle_MODE irc msg msg.nargs logon = .ok (r.1, irc') ∧
        Holds r.2 irc'.info.myumodes := by
  rw [handleMode, handle_MODE]
  split
  · exact Returns.ok ⟨irc, rfl, h⟩
  · next hn =>
    obtain ⟨target, htarget⟩ := @Msg.fld_of_lt msg 2 (by omega) (by omega)
    obtain ⟨modes, hmodes⟩ := @Msg.fld_of_lt msg 3 (by omega) (by omega)
    rw [htarget, ok_bind, ok_bind, hmodes, ok_bind]
    split
    · exact Returns.ok ⟨irc, rfl, h⟩
    · have hz : ∀ c ∈ modes, c ≠ 0 := fun c hc h0 => fld_nonzero hmodes (h0 ▸ hc)
      exact (applyModes_holds hz true h).bind fun buf' hbuf => Returns.ok ⟨_, rfl, hbuf⟩

theorem handleModes_switched (msgs : List (Info × Msg)) {es : List (UInt8 × Bool)}
    (h : Holds buf (switched es)) (hfit : Fits (es ++ asked msgs)) :
    Returns (handleModes msgs buf) fun buf' => Holds buf' (switched (es ++ asked msgs)) := by
  induction msgs generalizing buf es with
  | nil =>
    rw [asked, List.flatMap_nil, List.append_nil]
    exact Returns.ok h
  | cons m msgs ih =>
    have hasked : es ++ asked (m :: msgs) =
        (es ++ changes (ownWord m.1 m.2) true) ++ asked msgs := by
      rw [asked, List.flatMap_cons, List.append_assoc]
      rfl
    rw [hasked] at hfit ⊢
    exact (handleMode_switched h hfit.of_append).bind fun r hr => ih hr hfit

theorem holds_empty (hlen : buf.length = MAX_UMODES_LEN) (h : buf[0]? = some 0) :
    Holds buf (switched []) := by
  cases buf with
  | nil => cases h
  | cons b buf =>
    obtain rfl := Option.some.inj h
    exact ⟨⟨buf, rfl⟩, hlen, fun c hc => absurd hc List.not_mem_nil⟩

/-- The array has what the messages have set, in the order in which that happened. Messages for
others leave it as it is. -/
theorem umodes_folded :
    (∀ (msgs : List (Info × Msg)) (buf : Mem), buf.length = MAX_UMODES_LEN → buf[0]? = some 0 →
      (∀ es, es <+: asked msgs → AtMost 63 (On es)) →
      ∃ buf', handleModes msgs buf = .ok buf' ∧ buf'.length = MAX_UMODES_LEN ∧ 0 ∈ buf' ∧
        (cstr buf' 0).Nodup ∧ (∀ c, c ∈ cstr buf' 0 ↔ On (asked msgs) c) ∧
        (cstr buf' 0).Pairwise (Before (asked msgs))) ∧
    ∀ (info : Info) (msg : Msg) (buf : Mem) (target : Str), msg.fld 2 = .ok target →
      istrcmp target info.mynick info.casemap ≠ 0 →
      (handleMode info msg buf).map Prod.snd = .ok buf := by
  refine ⟨fun msgs buf hlen h0 hfit => ?_, fun info msg buf target htarget hne =>
    handleMode_other buf (Or.inr ⟨target, htarget, hne⟩)⟩
  obtain ⟨buf', hrun, hbuf⟩ := handleModes_switched msgs (holds_empty hlen h0) hfit
  rw [List.nil_append] at hbuf
  obtain ⟨post, heq⟩ := hbuf.eq
  refine ⟨buf', hrun, hbuf.length, by simp [heq], ?_⟩
  rw [hbuf.cstr]
  exact ⟨nodup_switched _, fun c => mem_switched _, before_switched _⟩

def named : Info := { Info.init with mynick := ascii "me" }

def told : List (Info × Msg) :=
  [(named, .ofLine (ascii "MODE me +iwi-i")), (named, .ofLine (ascii "MODE you +x")),
    (named, .ofLine (ascii "MODE me i+s-w"))]

theorem umodes_folded_told :
    (∃ buf', handleModes told (List.replicate 64 0) = .ok buf' ∧
      buf'.length = MAX_UMODES_LEN ∧ 0 ∈ buf' ∧ (cstr buf' 0).Nodup ∧
      (∀ c, c ∈ cstr buf' 0 ↔ On (asked told) c) ∧
      (cstr buf' 0).Pairwise (Before (asked told))) ∧
    (handleMode named (.ofLine (ascii "MODE you +x")) (List.replicate 64 0)).map Prod.snd =
      .ok (List.replicate 64 0) := by
  have hlen : (asked told).length = 7 := by decide +kernel
  refine ⟨umodes_folded.1 told _ (List.length_replicate ..) rfl fun es hpre l hl hon => ?_,
    umodes_folded.2 named _ _ (ascii "you") (by decide +kernel) (by decide +kernel)⟩
  have hes := hpre.length_le
  have hshort := atMost_on es l hl hon
  omega

end Srsirc.UmodeBuffer
