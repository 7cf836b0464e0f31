import Srsirc.CharMap
import Srsirc.Memory
import Srsirc.Tokenize

namespace Srsirc.Message

open CharMap Memory

/-- What a handler must never do: use an absent field of the message, a record that
was freed, memory beyond the end of a string it allocated itself, or a pointer that a
failed allocation left behind. -/
inductive Fault
  | nullField (k : Nat)
  | freedUser
  | freedChan
  | doubleFree
  | overrun
  | badPtr
  deriving DecidableEq

/-- A tokenized message: the memory from the receive buffer on, and the token array. -/
structure Msg where
  mem : Mem
  tok : List (Option Nat)

def Msg.ptr (msg : Msg) (k : Nat) : Option Nat := msg.tok.getD k none

def Msg.present (msg : Msg) (k : Nat) : Bool := (msg.ptr k).isSome

/-- The pointer at field `k`, to be dereferenced. -/
def Msg.deref (msg : Msg) (k : Nat) : Except Fault Nat :=
  match msg.ptr k with
  | none => .error (.nullField k)
  | some p => .ok p

def Msg.fld (msg : Msg) (k : Nat) : Except Fault Str := (msg.deref k).map (cstr msg.mem)

def Msg.ofLine (line : Str) : Msg :=
  let r := Tokenize.tokenize (line ++ [0]) 0
  ⟨r.2.1, r.2.2⟩

/-- The number of fields, the prefix included whether there is one or not. -/
def Msg.nargs (msg : Msg) : Nat := 2 + (((msg.tok.drop 2).take 16).takeWhile Option.isSome).length

theorem Msg.present_iff (msg : Msg) (k : Nat) : msg.present k = true ↔ ∃ p, msg.ptr k = some p :=
  Option.isSome_iff_exists

theorem Msg.deref_ok {msg : Msg} {k : Nat} (h : msg.present k = true) :
    ∃ p, msg.deref k = .ok p := by
  obtain ⟨p, hp⟩ := (msg.present_iff k).1 h
  exact ⟨p, by rw [Msg.deref, hp]⟩

theorem Msg.fld_ok {msg : Msg} {k : Nat} (h : msg.present k = true) : ∃ s, msg.fld k = .ok s := by
  obtain ⟨p, hp⟩ := Msg.deref_ok h
  exact ⟨cstr msg.mem p, by rw [Msg.fld, hp]; rfl⟩

theorem Msg.present_of_lt {msg : Msg} {k : Nat} (hk : 2 ≤ k) (h : k < msg.nargs) :
    msg.present k = true := by
  obtain ⟨i, rfl⟩ := Nat.exists_eq_add_of_le hk
  rw [Msg.nargs] at h
  generalize hl : (msg.tok.drop 2).take 16 = l at h
  have hi : i < (l.takeWhile Option.isSome).length := by omega
  have hmem := List.mem_takeWhile_imp (List.getElem_mem hi)
  generalize hx : (l.takeWhile Option.isSome)[i] = x at hmem
  have hget : l[i]? = some x := by
    rw [← hx]
    obtain ⟨t, ht⟩ := l.takeWhile_prefix Option.isSome
    rw [← List.getElem?_eq_getElem hi]
    conv => lhs; rw [← ht]
    exact List.getElem?_append_left hi
  have hlt : i < 16 := by
    obtain ⟨hlen, _⟩ := List.getElem?_eq_some_iff.1 hget
    rw [← hl] at hlen
    exact Nat.lt_of_lt_of_le hlen (List.length_take_le 16 _)
  rw [← hl, List.getElem?_take_of_lt hlt, List.getElem?_drop] at hget
  rw [Msg.present, Msg.ptr, List.getD_eq_getElem?_getD, hget]
  exact hmem

theorem Msg.fld_of_lt {msg : Msg} {k : Nat} (hk : 2 ≤ k) (h : k < msg.nargs) :
    ∃ s, msg.fld k = .ok s := Msg.fld_ok (Msg.present_of_lt hk h)

theorem Msg.absent_nargs {msg : Msg} (h : msg.nargs < 18) : msg.present msg.nargs = false := by
  rw [Msg.present, Msg.ptr, List.getD_eq_getElem?_getD]
  rw [Msg.nargs] at h ⊢
  generalize hl : (msg.tok.drop 2).take 16 = l at h ⊢
  rw [← List.getElem?_drop, ← List.getElem?_take_of_lt (show _ < 16 by omega), hl]
  cases hx : l[(l.takeWhile Option.isSome).length]? with
  | none => rfl
  | some x =>
    have hdrop : (l.dropWhile Option.isSome).head? = some x := by
      rw [← hx]
      conv => rhs; lhs; rw [← List.takeWhile_append_dropWhile (p := Option.isSome) (l := l)]
      rw [List.getElem?_append_right (Nat.le_refl _), Nat.sub_self, List.head?_eq_getElem?]
    have hnot := List.head?_dropWhile_not Option.isSome l
    rw [hdrop] at hnot
    simpa using hnot

/-- What handlers check first. -/
theorem Msg.not_guard {msg : Msg} {n : Nat} (h : ¬((!msg.present 0) = true ∨ msg.nargs < n)) :
    msg.present 0 = true ∧ n ≤ msg.nargs := by
  simpa using h

abbrev Flags := UInt16

def CANT_PROCEED : Flags := 0x001
def OUT_OF_NICKS : Flags := CANT_PROCEED ||| 0x002
def AUTH_ERR : Flags := CANT_PROCEED ||| 0x004
def PROTO_ERR : Flags := CANT_PROCEED ||| 0x008
def IO_ERR : Flags := CANT_PROCEED ||| 0x010
def ALLOC_ERR : Flags := CANT_PROCEED ||| 0x020
def USER_ERR : Flags := CANT_PROCEED ||| 0x040
def SASL_ERR : Flags := CANT_PROCEED ||| 0x080
def CAP_ERR : Flags := CANT_PROCEED ||| 0x100
def LOGON_COMPLETE : Flags := 0x200
def SASL_COMPLETE : Flags := 0x400
def MORE_CAPS : Flags := 0x800
def STARTTLS_OVER : Flags := 0x1000

def Flags.has (r flag : Flags) : Bool := r &&& flag ≠ 0

/-- `strchr`, which also finds the terminator. -/
def strchr (s : Str) (c : UInt8) : Option Nat :=
  if c = 0 then some s.length else s.findIdx? (· == c)

theorem isSome_strchr {s : Str} {c : UInt8} (hc : c ≠ 0) : (strchr s c).isSome = true ↔ c ∈ s := by
  rw [strchr, if_neg hc, List.findIdx?_isSome]
  simp

theorem strchr_at {before after : Str} {c : UInt8} (h0 : c ≠ 0) (hbefore : c ∉ before) :
    strchr (before ++ c :: after) c = some before.length := by
  rw [strchr, if_neg h0, List.findIdx?_append, List.findIdx?_eq_none_iff.2 ?_]
  · simp [List.findIdx?_cons]
  · intro x hx
    exact beq_eq_false_iff_ne.2 fun he => hbefore (he ▸ hx)

theorem strchr_split {s : Str} {c : UInt8} {i : Nat} (h0 : c ≠ 0) (h : strchr s c = some i) :
    ∃ before after, s = before ++ c :: after ∧ before.length = i ∧ c ∉ before := by
  have hin : c ∈ s := (isSome_strchr h0).1 (h ▸ rfl)
  obtain ⟨before, after, rfl, hbefore⟩ := List.eq_append_cons_of_mem hin
  exact ⟨before, after, rfl, Option.some.inj ((strchr_at h0 hbefore).symm.trans h), hbefore⟩

theorem strchr_missing {s : Str} {c : UInt8} (h0 : c ≠ 0) (hmem : c ∉ s) : strchr s c = none := by
  rw [← Option.not_isSome_iff_eq_none, isSome_strchr h0]
  exact hmem

/-- `lsi_b_strNcpy` into `n` bytes. -/
def strNcpy (src : Str) (n : Nat) : Str := src.take (n - 1)

/-- `lsi_b_strNcat` into `n` bytes. -/
def strNcat (dest src : Str) (n : Nat) : Str :=
  if n ≤ dest.length + 1 then dest else dest ++ src.take (n - (dest.length + 1))

def ident2nick (n : Nat) (pfx : Str) : Str :=
  ((strNcpy pfx n).takeWhile (· != 0x40)).takeWhile (· != 0x21)

def ident2uname (n : Nat) (pfx : Str) : Str :=
  ((((strNcpy pfx n).takeWhile (· != 0x40))).dropWhile (· != 0x21)).tail

def ident2host (n : Nat) (pfx : Str) : Str := ((strNcpy pfx n).dropWhile (· != 0x40)).tail

theorem norm_ident2nick (cm : CMap) (n : Nat) (pfx : Str) :
    norm cm (ident2nick n pfx) = (norm cm pfx).take (n - 1) := by
  have hcut : ∀ x : UInt8, gCmap cm x = 0 → ∀ c, (c != x) = false → gCmap cm c = 0 := by
    intro x hx c hc
    rw [bne_eq_false_iff_eq] at hc
    rw [hc, hx]
  rw [ident2nick, norm_takeWhile (hcut 0x21 (by cases cm <;> rfl)),
    norm_takeWhile (hcut 0x40 (by cases cm <;> rfl)), strNcpy, norm_take]

end Srsirc.Message
