import Srsirc.Connect
import Srsirc.TrackInfo

namespace Srsirc.HostSpec

open CharMap Message Connect TrackInfo

/-- `strstr`. -/
def strstr (s t : Str) : Option Nat := s.tails.findIdx? fun u => t.isPrefixOf u

/-- What `lsi_ut_parse_hostspec` finds. -/
structure Hostspec where
  hoststr : Str
  port : UInt16
  ssl : Bool
  deriving DecidableEq

/-- The suffix is cut off and told of; only the first of its kind is looked at. -/
def cutSsl (hoststr : Str) : Str × Bool :=
  match (strstr hoststr (ascii "/ssl")).or (strstr hoststr (ascii "/SSL")) with
  | none => (hoststr, false)
  | some p => if hoststr.drop (p + 4) = [] then (hoststr.take p, true) else (hoststr, false)

/-- `strtoul`, where a `long` has 64 bits, and what is left of it in a port. -/
def portOf (s : Str) : UInt16 := UInt16.ofNat (strtoull s)

def cutPort (s : Str) : Str × UInt16 :=
  match strchr s 0x3a with
  | none => (s, 0)
  | some p => (s.take p, portOf (s.drop (p + 1)))

/-- `lsi_ut_parse_hostspec`, with `hoststrSz` bytes for the host. -/
def parseHostspec (hoststrSz : Nat) (hostspec : Str) : Hostspec :=
  let hoststr := strNcpy (if hostspec.head? = some 0x5b then hostspec.tail else hostspec) hoststrSz
  let (hoststr, ssl) := cutSsl hoststr
  match strchr hoststr 0x5d with
  | none => ⟨(cutPort hoststr).1, (cutPort hoststr).2, ssl⟩
  | some p => ⟨hoststr.take p, (cutPort (hoststr.drop (p + 1))).2, ssl⟩

def HostText (text host : Str) : Prop :=
  (text = host ∧ host ≠ [] ∧ (∀ c ∈ [0x3a, 0x5d, 0x2f], c ∉ host) ∧ host.head? ≠ some 0x5b) ∨
    (text = 0x5b :: (host ++ [0x5d]) ∧ ∀ c ∈ [0x5d, 0x2f], c ∉ host)

def PortText (text : Str) (port : UInt16) : Prop :=
  (text = [] ∧ port = 0) ∨ (text = 0x3a :: decimal port.toNat ∧ port ≠ 0)

def SslText (text : Str) (ssl : Bool) : Prop :=
  (text = [] ∧ ssl = false) ∨ ((text = ascii "/ssl" ∨ text = ascii "/SSL") ∧ ssl = true)

section Bytes

variable {s t : Str} {c : UInt8}

theorem strstr_behind (hs : c ∉ s) (p : Str) :
    strstr (s ++ t) (c :: p) = (strstr t (c :: p)).map (· + s.length) := by
  induction s with
  | nil => simp
  | cons x s ih =>
    obtain ⟨hx, hs⟩ := not_or.1 fun h => hs (List.mem_cons.2 h)
    have hfirst : (c :: p).isPrefixOf (x :: (s ++ t)) = false := by
      rw [List.isPrefixOf, beq_false_of_ne hx, Bool.false_and]
    have hrest := ih hs
    rw [strstr] at hrest
    rw [strstr, List.cons_append, List.tails_cons, List.findIdx?_cons, hfirst,
      if_neg Bool.false_ne_true, hrest,
      Option.map_map]
    rfl

theorem cutSsl_text {ssl : Bool} (hs : 0x2f ∉ s) (h : SslText t ssl) :
    cutSsl (s ++ t) = (s, ssl) := by
  have hlower : strstr (s ++ t) (ascii "/ssl") = (strstr t (ascii "/ssl")).map (· + s.length) :=
    strstr_behind hs _
  have hupper : strstr (s ++ t) (ascii "/SSL") = (strstr t (ascii "/SSL")).map (· + s.length) :=
    strstr_behind hs _
  have hcut : ∀ t : Str, t.length = 4 →
      (if (s ++ t).drop (0 + s.length + 4) = [] then ((s ++ t).take (0 + s.length), true)
        else (s ++ t, false)) =
        (s, true) := by
    intro t ht
    rw [if_pos, Nat.zero_add, List.take_left]
    rw [List.drop_eq_nil_iff, List.length_append, ht]
    omega
  rw [cutSsl, hlower, hupper]
  obtain ⟨rfl, rfl⟩ | ⟨rfl | rfl, rfl⟩ := h
  · rw [List.append_nil]
    rfl
  · have h0 : strstr (ascii "/ssl") (ascii "/ssl") = some 0 := by decide
    rw [h0]
    exact hcut _ rfl
  · have h0 : strstr (ascii "/SSL") (ascii "/ssl") = none := by decide
    have h1 : strstr (ascii "/SSL") (ascii "/SSL") = some 0 := by decide
    rw [h0, h1]
    exact hcut _ rfl

end Bytes

section Decimal

theorem digit_toNat {c : Char} (h : c.isDigit = true) : (UInt8.ofNat c.toNat).toNat = c.toNat ∧
    48 ≤ c.toNat ∧ c.toNat ≤ 57 := by
  simp only [Char.isDigit, ge_iff_le, Bool.and_eq_true, decide_eq_true_eq,
    UInt32.le_iff_toNat_le] at h
  have h48 : 48 ≤ c.toNat := h.1
  have h57 : c.toNat ≤ 57 := h.2
  refine ⟨?_, h48, h57⟩
  rw [UInt8.toNat_ofNat', Nat.mod_eq_of_lt (by omega)]

theorem isDigit_decimal (n : Nat) : ∀ c ∈ decimal n, isDigit c = true := by
  intro c hc
  obtain ⟨d, hd, rfl⟩ := List.mem_map.1 hc
  obtain ⟨hd, h48, h57⟩ := digit_toNat (Nat.isDigit_of_mem_toDigits (by decide) (by decide) hd)
  rw [isDigit, decide_eq_true_eq, UInt8.le_iff_toNat_le, UInt8.le_iff_toNat_le, hd]
  exact ⟨h48, h57⟩

theorem foldl_decimal (n : Nat) :
    (decimal n).foldl (fun n c => 10 * n + (c.toNat - 0x30)) 0 = n := by
  have hfold : ∀ (cs : List Char) (m : Nat), (∀ c ∈ cs, c.isDigit = true) →
      (cs.map fun c => UInt8.ofNat c.toNat).foldl (fun n c => 10 * n + (c.toNat - 0x30)) m =
        Nat.ofDigitChars 10 cs m := by
    intro cs
    induction cs with
    | nil => exact fun m _ => Nat.ofDigitChars_nil.symm
    | cons c cs ih =>
      intro m hcs
      rw [List.map_cons, List.foldl_cons, (digit_toNat (hcs c List.mem_cons_self)).1,
        ih _ fun d hd => hcs d (List.mem_cons_of_mem _ hd), Nat.ofDigitChars_cons]
      rfl
  rw [decimal, hfold _ _ fun c hc => Nat.isDigit_of_mem_toDigits (by decide) (by decide) hc]
  exact Nat.ofDigitChars_toDigits (by decide) (by decide)

theorem strtoull_decimal {n : Nat} (h : n < 2 ^ 64) : strtoull (decimal n) = n := by
  have hne : decimal n ≠ [] := by simp [decimal, Nat.toDigits_ne_nil]
  obtain ⟨c, ds, hcons⟩ := List.exists_cons_of_ne_nil hne
  have hc : isDigit c = true := isDigit_decimal n c (hcons ▸ List.mem_cons_self)
  have hspace : isSpace c = false := by
    revert hc
    exact byte_cases (p := fun c => isDigit c = true → isSpace c = false) (by decide +kernel) c
  have hsign : c ≠ 0x2d ∧ c ≠ 0x2b := by
    revert hc
    exact byte_cases (p := fun c => isDigit c = true → c ≠ 0x2d ∧ c ≠ 0x2b) (by decide +kernel) c
  have hdrop : (decimal n).dropWhile isSpace = decimal n := by
    rw [hcons, List.dropWhile_cons_of_neg (by simp [hspace])]
  have hhead : (decimal n).head? ≠ some 0x2d ∧ (decimal n).head? ≠ some 0x2b := by
    rw [hcons, List.head?_cons]
    exact ⟨fun h => hsign.1 (Option.some.inj h), fun h => hsign.2 (Option.some.inj h)⟩
  have htake : (decimal n).takeWhile isDigit = decimal n :=
    List.takeWhile_eq_self_iff.2 (isDigit_decimal n)
  simp only [strtoull, hdrop, hhead.1, hhead.2, or_self, if_false, htake, foldl_decimal]
  exact if_neg (Nat.not_le.2 h)

theorem portOf_decimal (port : UInt16) : portOf (decimal port.toNat) = port := by
  rw [portOf, strtoull_decimal (port.toNat_lt.trans (by decide)), UInt16.ofNat_toNat]

end Decimal

variable {s pt st ht host : Str} {port : UInt16} {ssl : Bool}

theorem portText_not_mem {c : UInt8} (h : PortText pt port) (hc : isDigit c = false)
    (hne : c ≠ 0x3a) : c ∉ pt := by
  obtain ⟨rfl, _⟩ | ⟨rfl, _⟩ := h
  · exact List.not_mem_nil
  · intro hmem
    obtain rfl | hmem := List.mem_cons.1 hmem
    · exact hne rfl
    · rw [isDigit_decimal _ c hmem] at hc
      cases hc

theorem cutPort_text (hs : 0x3a ∉ s) (h : PortText pt port) : cutPort (s ++ pt) = (s, port) := by
  rw [cutPort]
  obtain ⟨rfl, rfl⟩ | ⟨rfl, _⟩ := h
  · rw [List.append_nil, strchr_missing (by decide) hs]
  · rw [strchr_at (by decide) hs]
    dsimp only
    rw [List.take_left, List.drop_length_add_append, List.drop_succ_cons, List.drop_zero,
      portOf_decimal]

/-- What was written is read, as long as it fits. -/
theorem hostspec_roundtrip (hh : HostText ht host) (hp : PortText pt port)
    (hs : SslText st ssl) {sz : Nat}
    (hsz : (ht ++ pt ++ st).length < sz) :
      parseHostspec sz (ht ++ pt ++ st) = ⟨host, port, ssl⟩ := by
  have hslash : 0x2f ∉ pt := portText_not_mem hp (by decide) (by decide)
  have hclose : 0x5d ∉ pt := portText_not_mem hp (by decide) (by decide)
  obtain ⟨rfl, hne, hno, hopen⟩ | ⟨rfl, hno⟩ := hh
  · have hhead : (ht ++ pt ++ st).head? ≠ some 0x5b := by
      rw [List.append_assoc, List.head?_append_of_ne_nil _ hne]
      exact hopen
    have hcut : strNcpy (ht ++ pt ++ st) sz = ht ++ pt ++ st :=
      List.take_of_length_le (Nat.le_sub_one_of_lt hsz)
    have hbody : 0x2f ∉ ht ++ pt := by simp [hno 0x2f (by decide), hslash]
    have hbracket : 0x5d ∉ ht ++ pt := by simp [hno 0x5d (by decide), hclose]
    simp only [parseHostspec, if_neg hhead, hcut, cutSsl_text hbody hs,
      strchr_missing (by decide) hbracket,
      cutPort_text (hno 0x3a (by decide)) hp]
  · have hlen : (host ++ 0x5d :: pt ++ st).length < sz := by
      simp only [List.length_append, List.length_cons, List.length_nil] at hsz ⊢
      omega
    have htail :
        (0x5b :: (host ++ [0x5d]) ++ pt ++ st) = 0x5b :: (host ++ 0x5d :: pt ++ st) := by simp
    have hcut : strNcpy (host ++ 0x5d :: pt ++ st) sz = host ++ 0x5d :: pt ++ st :=
      List.take_of_length_le (Nat.le_sub_one_of_lt hlen)
    have hbody : 0x2f ∉ host ++ 0x5d :: pt := by simp [hno 0x2f (by decide), hslash]
    have hport : cutPort pt = ([], port) := cutPort_text List.not_mem_nil hp
    rw [htail]
    simp only [parseHostspec, List.head?_cons, if_true, List.tail_cons, hcut, cutSsl_text hbody hs,
      strchr_at (show (0x5d : UInt8) ≠ 0 by decide) (hno 0x5d (by decide)), List.take_left]
    rw [List.drop_length_add_append, List.drop_succ_cons, List.drop_zero, hport]

theorem hostspec_roundtrip_sample :
    parseHostspec 64 (ascii "[::1]:6697/ssl") = ⟨ascii "::1", 6697, true⟩ := by
  have hh : HostText (0x5b :: (ascii "::1" ++ [0x5d])) (ascii "::1") :=
    Or.inr ⟨rfl, by decide +kernel⟩
  have hp : PortText (0x3a :: decimal 6697) 6697 := Or.inr ⟨rfl, by decide⟩
  have hs : SslText (ascii "/ssl") true := Or.inr ⟨Or.inl rfl, rfl⟩
  have heq : ascii "[::1]:6697/ssl" =
      0x5b :: (ascii "::1" ++ [0x5d]) ++ 0x3a :: decimal 6697 ++ ascii "/ssl" := by
    decide +kernel
  rw [heq]
  exact hostspec_roundtrip hh hp hs (by decide +kernel)

end Srsirc.HostSpec
