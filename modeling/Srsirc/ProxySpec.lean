import Srsirc.HostSpec

namespace Srsirc.ProxySpec

open CharMap Message CoreHandlers HostSpec

def IRCPX_HTTP : Int := 0
def IRCPX_SOCKS4 : Int := 1
def IRCPX_SOCKS5 : Int := 2

/-- `lsi_px_typenum`. -/
def pxTypenum (typestr : Str) : Int :=
  if sameIgnoringCase typestr "socks4" then IRCPX_SOCKS4
  else if sameIgnoringCase typestr "socks5" then IRCPX_SOCKS5
  else if sameIgnoringCase typestr "http" then IRCPX_HTTP
  else -1

structure Pxspec where
  ptype : Int
  hoststr : Str
  port : UInt16
  deriving DecidableEq

/-- `lsi_ut_parse_pxspec`, where what is pointed to is `out` before. -/
def parsePxspec (hoststrSz : Nat) (pxspec : Str) (out : Pxspec) : Bool × Pxspec :=
  let linebuf := strNcpy pxspec 128
  match strchr linebuf 0x3a with
  | none => (false, out)
  | some ptr =>
    let num := if ptr < 7 then ptr else 7 - 1
    let pxtypestr := strNcpy linebuf (num + 1)
    let p := pxTypenum pxtypestr
    if p = -1 then (false, out)
    else
      let hostspec := parseHostspec hoststrSz (linebuf.drop (ptr + 1))
      (true, ⟨p, hostspec.hoststr, hostspec.port⟩)

def Named (t : Str) (ptype : Int) : Prop :=
  (sameIgnoringCase t "HTTP" ∧ ptype = IRCPX_HTTP) ∨
    (sameIgnoringCase t "SOCKS4" ∧ ptype = IRCPX_SOCKS4) ∨
    (sameIgnoringCase t "SOCKS5" ∧ ptype = IRCPX_SOCKS5)

/-- The specifier starts with this type, and goes on with `rest` behind the first colon. -/
def Specifies (pxspec : Str) (ptype : Int) (rest : Str) : Prop :=
  ∃ t, pxspec = t ++ 0x3a :: rest ∧ 0x3a ∉ t ∧ Named t ptype

structure Recognised (hoststrSz : Nat) (pxspec : Str) (out : Pxspec) : Prop where
  accepted : ∀ ptype rest, Specifies pxspec ptype rest → parsePxspec hoststrSz pxspec out =
    (true, ⟨ptype, (parseHostspec hoststrSz rest).hoststr, (parseHostspec hoststrSz rest).port⟩)
  rejected : (∀ ptype rest, ¬Specifies pxspec ptype rest) →
      parsePxspec hoststrSz pxspec out = (false, out)

/-- The type only begins like one of those for SOCKS. -/
def Overlong (pxspec : Str) : Prop :=
  ∃ t rest, pxspec = t ++ 0x3a :: rest ∧ 0x3a ∉ t ∧ 6 < t.length ∧
    (sameIgnoringCase (t.take 6) "SOCKS4" ∨ sameIgnoringCase (t.take 6) "SOCKS5")

section Types

variable {t rest : Str} {ptype : Int}

theorem named_length (h : Named t ptype) : t.length ≤ 6 := by
  have hlen : ∀ s : String, sameIgnoringCase t s → t.length = (ascii s).length := by
    intro s hs
    rw [sameIgnoringCase, decide_eq_true_eq] at hs
    rw [← List.length_map, hs, List.length_map]
  obtain ⟨h, _⟩ | ⟨h, _⟩ | ⟨h, _⟩ := h <;> rw [hlen _ h] <;> decide

theorem sameIgnoringCase_congr (t : Str) {s s' : String}
    (h : (ascii s).map (tolower · .ascii) = (ascii s').map (tolower · .ascii)) :
    sameIgnoringCase t s = sameIgnoringCase t s' := by rw [sameIgnoringCase, sameIgnoringCase, h]

theorem pxTypenum_eq (t : Str) :
    (Named t (pxTypenum t) ∧ pxTypenum t ≠ -1) ∨ pxTypenum t = -1 ∧ ∀ p, ¬Named t p := by
  have h4 : sameIgnoringCase t "socks4" = sameIgnoringCase t "SOCKS4" :=
    sameIgnoringCase_congr t (by decide)
  have h5 : sameIgnoringCase t "socks5" = sameIgnoringCase t "SOCKS5" :=
    sameIgnoringCase_congr t (by decide)
  have hh : sameIgnoringCase t "http" = sameIgnoringCase t "HTTP" :=
    sameIgnoringCase_congr t (by decide)
  rw [pxTypenum, h4, h5, hh]
  by_cases hsocks4 : sameIgnoringCase t "SOCKS4"
  · rw [if_pos hsocks4]
    exact Or.inl ⟨Or.inr (Or.inl ⟨hsocks4, rfl⟩), by decide⟩
  rw [if_neg hsocks4]
  by_cases hsocks5 : sameIgnoringCase t "SOCKS5"
  · rw [if_pos hsocks5]
    exact Or.inl ⟨Or.inr (Or.inr ⟨hsocks5, rfl⟩), by decide⟩
  rw [if_neg hsocks5]
  by_cases hhttp : sameIgnoringCase t "HTTP"
  · rw [if_pos hhttp]
    exact Or.inl ⟨Or.inl ⟨hhttp, rfl⟩, by decide⟩
  rw [if_neg hhttp]
  refine Or.inr ⟨rfl, fun p h => ?_⟩
  obtain ⟨h, _⟩ | ⟨h, _⟩ | ⟨h, _⟩ := h
  · exact hhttp h
  · exact hsocks4 h
  · exact hsocks5 h

theorem named_unique {p q : Int} (hp : Named t p) (hq : Named t q) : p = q := by
  have hdiff : ∀ s s' :
      String, (ascii s).map (tolower · .ascii) ≠ (ascii s').map (tolower · .ascii) →
      sameIgnoringCase t s → ¬sameIgnoringCase t s' := by
    intro s s' hne hs hs'
    rw [sameIgnoringCase, decide_eq_true_eq] at hs hs'
    exact hne (hs.symm.trans hs')
  obtain ⟨h, rfl⟩ | ⟨h, rfl⟩ | ⟨h, rfl⟩ := hp <;> obtain ⟨h', rfl⟩ | ⟨h', rfl⟩ | ⟨h', rfl⟩ := hq <;>
    first
      | rfl
      | exact absurd h' (hdiff _ _ (by decide) h)

theorem first_colon {t' rest' : Str} (ht : 0x3a ∉ t) (ht' : 0x3a ∉ t')
    (heq : t ++ 0x3a :: rest = t' ++ 0x3a :: rest') : t = t' ∧ rest = rest' := by
  have hat := @strchr_at t rest 0x3a (by decide) ht
  rw [heq, strchr_at (by decide) ht', Option.some_inj] at hat
  obtain ⟨rfl, hrest⟩ := List.append_inj heq hat.symm
  exact ⟨rfl, (List.cons_inj_right _).1 hrest⟩

theorem specifies_iff (ht : 0x3a ∉ t) {rest' : Str} :
    Specifies (t ++ 0x3a :: rest) ptype rest' ↔ rest' = rest ∧ Named t ptype := by
  constructor
  · rintro ⟨t', heq, ht', hnamed⟩
    obtain ⟨rfl, rfl⟩ := first_colon ht ht' heq
    exact ⟨rfl, hnamed⟩
  · rintro ⟨rfl, hnamed⟩
    exact ⟨t, rfl, ht, hnamed⟩

theorem overlong_iff (ht : 0x3a ∉ t) : Overlong (t ++ 0x3a :: rest) ↔
    6 < t.length ∧
      (sameIgnoringCase (t.take 6) "SOCKS4" ∨ sameIgnoringCase (t.take 6) "SOCKS5") := by
  constructor
  · rintro ⟨t', rest', heq, ht', hlong⟩
    obtain ⟨rfl, rfl⟩ := first_colon ht ht' heq
    exact hlong
  · exact fun h => ⟨t, rest, rfl, ht, h⟩

end Types

section Parsing

variable {t rest : Str} {out : Pxspec}

/-- Six bytes of the type are compared. -/
theorem parse_colon (hoststrSz : Nat) (out : Pxspec) (ht : 0x3a ∉ t)
    (hlen : (t ++ 0x3a :: rest).length < 128) :
    parsePxspec hoststrSz (t ++ 0x3a :: rest) out = if pxTypenum (t.take 6) = -1 then (false, out)
      else (true, ⟨pxTypenum (t.take 6), (parseHostspec hoststrSz rest).hoststr,
        (parseHostspec hoststrSz rest).port⟩) := by
  have hline : strNcpy (t ++ 0x3a :: rest) 128 = t ++ 0x3a :: rest :=
    List.take_of_length_le (by omega)
  have htype : strNcpy (t ++ 0x3a :: rest) ((if t.length < 7 then t.length else 7 - 1) + 1) =
      t.take 6 := by
    rw [strNcpy, Nat.add_sub_cancel]
    split
    · rw [List.take_left, List.take_of_length_le (by omega)]
    · rw [List.take_append_of_le_length (by omega)]
  have hrest : (t ++ 0x3a :: rest).drop (t.length + 1) = rest := by
    rw [← List.drop_drop, List.drop_left, List.drop_one, List.tail_cons]
  simp only [parsePxspec, hline, strchr_at (show (0x3a : UInt8) ≠ 0 by decide) ht, htype, hrest]

theorem parse_no_colon (hoststrSz : Nat) (out : Pxspec) {pxspec : Str} (h : 0x3a ∉ pxspec) :
    parsePxspec hoststrSz pxspec out = (false, out) := by
  have hmem : 0x3a ∉ strNcpy pxspec 128 := fun hmem => h (List.mem_of_mem_take hmem)
  simp only [parsePxspec, strchr_missing (show (0x3a : UInt8) ≠ 0 by decide) hmem]

theorem recognised_short (hoststrSz : Nat) (out : Pxspec) (ht : 0x3a ∉ t)
    (hlen : (t ++ 0x3a :: rest).length < 128) (hshort : t.length ≤ 6) :
    Recognised hoststrSz (t ++ 0x3a :: rest) out := by
  have hparse := parse_colon hoststrSz out ht hlen
  rw [List.take_of_length_le hshort] at hparse
  constructor
  · intro ptype rest' hspec
    obtain ⟨rfl, hnamed⟩ := (specifies_iff ht).1 hspec
    obtain ⟨hnamed', hne⟩ | ⟨_, hnone⟩ := pxTypenum_eq t
    · rw [hparse, if_neg hne, named_unique hnamed' hnamed]
    · exact absurd hnamed (hnone ptype)
  · intro hnone
    obtain ⟨hnamed, _⟩ | ⟨heq, _⟩ := pxTypenum_eq t
    · exact absurd ((specifies_iff ht).2 ⟨rfl, hnamed⟩) (hnone _ _)
    · rw [hparse, if_pos heq]

theorem recognised_long (hoststrSz : Nat) (out : Pxspec) (ht : 0x3a ∉ t)
    (hlen : (t ++ 0x3a :: rest).length < 128) (hlong : 6 < t.length) :
    Recognised hoststrSz (t ++ 0x3a :: rest) out ↔ pxTypenum (t.take 6) = -1 := by
  have hnone : ∀ ptype rest', ¬Specifies (t ++ 0x3a :: rest) ptype rest' := by
    intro ptype rest' hspec
    have := named_length ((specifies_iff ht).1 hspec).2
    omega
  have hparse := parse_colon hoststrSz out ht hlen
  constructor
  · intro h
    have hrejected := h.rejected hnone
    by_contra hne
    rw [hparse, if_neg hne, Prod.mk.injEq] at hrejected
    exact Bool.noConfusion hrejected.1
  · exact fun heq =>
      ⟨fun _ _ hspec => absurd hspec (hnone _ _), fun _ => by rw [hparse, if_pos heq]⟩

theorem pxTypenum_six {t : Str} (hlen : t.length = 6) :
    pxTypenum t = -1 ↔ ¬(sameIgnoringCase t "SOCKS4" ∨ sameIgnoringCase t "SOCKS5") := by
  constructor
  · intro heq hsocks
    obtain ⟨_, hne⟩ | ⟨_, hnone⟩ := pxTypenum_eq t
    · exact hne heq
    · obtain h | h := hsocks
      · exact hnone _ (Or.inr (Or.inl ⟨h, rfl⟩))
      · exact hnone _ (Or.inr (Or.inr ⟨h, rfl⟩))
  · intro hsocks
    obtain ⟨⟨h, _⟩ | ⟨h, _⟩ | ⟨h, _⟩, _⟩ | ⟨heq, _⟩ := pxTypenum_eq t
    · rw [sameIgnoringCase, decide_eq_true_eq] at h
      have h4 := congrArg List.length h
      rw [List.length_map, hlen] at h4
      exact absurd h4 (by decide)
    · exact absurd (Or.inl h) hsocks
    · exact absurd (Or.inr h) hsocks
    · exact heq

end Parsing

/-- Specifiers are recognised by the whole of their type, unless it goes on behind a name. -/
theorem pxspec_recognised_iff (hoststrSz : Nat) (pxspec : Str) (out : Pxspec)
    (hlen : pxspec.length < 128) :
    Recognised hoststrSz pxspec out ↔ ¬Overlong pxspec := by
  by_cases hcolon : 0x3a ∈ pxspec
  · obtain ⟨t, rest, rfl, ht⟩ := List.eq_append_cons_of_mem hcolon
    rw [overlong_iff ht]
    by_cases hlong : 6 < t.length
    · have hsix : (t.take 6).length = 6 := List.length_take_of_le (by omega)
      rw [recognised_long hoststrSz out ht hlen hlong, pxTypenum_six hsix, and_iff_right hlong]
    · exact iff_of_true (recognised_short hoststrSz out ht hlen (by omega)) fun h => hlong h.1
  · refine iff_of_true ⟨?_, fun _ => parse_no_colon hoststrSz out hcolon⟩ ?_
    · rintro ptype rest ⟨t, rfl, _⟩
      exact absurd List.mem_append_cons_self hcolon
    · rintro ⟨t, rest, rfl, _⟩
      exact hcolon List.mem_append_cons_self

theorem pxspec_recognised_sample : (ascii "HTTP:proxy:8080").length < 128 ∧
    (Recognised 64 (ascii "HTTP:proxy:8080") ⟨-1, [], 0⟩ ↔ ¬Overlong (ascii "HTTP:proxy:8080")) :=
  ⟨by decide, pxspec_recognised_iff 64 (ascii "HTTP:proxy:8080") ⟨-1, [], 0⟩ (by decide)⟩

/-- The type is SOCKS4a, which this is not an implementation of. -/
theorem socks4a_accepted : (ascii "socks4a:host:1080").length < 128 ∧
    (∀ ptype rest, ¬Specifies (ascii "socks4a:host:1080") ptype rest) ∧
    parsePxspec 64 (ascii "socks4a:host:1080") ⟨-1, [], 0⟩ =
      (true, ⟨IRCPX_SOCKS4, ascii "host", 1080⟩) := by
  refine ⟨by decide, ?_, by decide +kernel⟩
  intro ptype rest hspec
  have hnamed := ((@specifies_iff (ascii "socks4a") (ascii "host:1080") _ (by decide) _).1 hspec).2
  exact absurd (named_length hnamed) (by decide)

end Srsirc.ProxySpec
