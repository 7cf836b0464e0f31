import Srsirc.ProxyReads

namespace Srsirc.ConnectRequest

open CharMap Memory Message ReadBuffer BoundedStore Context Proxy ProxyReads

def DottedQuad (host : Str) : Prop :=
  ∃ a b c d : Str, host = a ++ 0x2e :: (b ++ 0x2e :: (c ++ 0x2e :: d)) ∧
    ∀ s ∈ [a, b, c, d], s ≠ [] ∧ s.all isDigit

def isHexDigit (c : UInt8) : Bool := isDigit c || (0x41 ≤ c && c ≤ 0x46) || (0x61 ≤ c && c ≤ 0x66)

def Ipv6Literal (host : Str) : Prop :=
  0x3a ∈ host ∧ host.all fun c => isHexDigit c || c == 0x3a || c == 0x2e

def isNameChar (c : UInt8) : Bool :=
  isDigit c || (0x41 ≤ c && c ≤ 0x5a) || (0x61 ≤ c && c ≤ 0x7a) || c == 0x2d ||
    c == 0x5f || c == 0x2e

inductive Target (inet4 inet6 : Str → Option Str) : Str → UInt8 → Str → Prop
  | ipv4 {host ip : Str} (h : DottedQuad host) (hip : inet4 host = some ip) :
      Target inet4 inet6 host 1 ip
  | ipv6 {host ip : Str} (h : Ipv6Literal host) (hip : inet6 host = some ip) :
      Target inet4 inet6 host 4 ip
  | dns {host : Str} (h : host.all isNameChar) (hno : ¬DottedQuad host) (hpos : 1 ≤ host.length)
      (hlen : host.length ≤ 255) : Target inet4 inet6 host 3 (UInt8.ofNat host.length :: host)

/-- A request as RFC 1928 has it. -/
def encoding (atyp : UInt8) (address : Str) (port : UInt16) : Str :=
  [5, 1, 0, atyp] ++ address ++ htons port

theorem guess_quad {host : Str} (h : DottedQuad host) : guessHosttype host = .ipv4 := by
  obtain ⟨a, b, c, d, rfl, hall⟩ := h
  have hdigits : ∀ s ∈ [a, b, c, d], ∀ x ∈ s, isDigit x :=
    fun s hs => List.all_eq_true.1 (hall s hs).2
  have hdot : ∀ s ∈ [a, b, c, d], s.count 0x2e = 0 := fun s hs =>
    List.count_eq_zero.2 fun hm => absurd (hdigits s hs _ hm) (by decide)
  have hbracket : ∀ s ∈ [a, b, c, d], (0x5b : UInt8) ∉ s :=
    fun s hs hm => absurd (hdigits s hs _ hm) (by decide)
  simp only [List.mem_cons, List.not_mem_nil, or_false, forall_eq_or_imp,
    forall_eq] at hdigits hdot hbracket
  obtain ⟨ha, hb, hc, hd⟩ := hdigits
  obtain ⟨hda, hdb, hdc, hdd⟩ := hdot
  obtain ⟨hba, hbb, hbc, hbd⟩ := hbracket
  rw [guessHosttype, if_neg, if_pos, if_pos]
  · simp [hda, hdb, hdc, hdd]
  · simp only [List.all_append, List.all_cons, Bool.and_eq_true, List.all_eq_true]
    refine ⟨fun x hx => by simp [ha x hx], rfl, fun x hx => by simp [hb x hx], rfl,
      fun x hx => by simp [hc x hx], rfl, fun x hx => by simp [hd x hx]⟩
  · simp [hba, hbb, hbc, hbd]

theorem guess_ipv6 {host : Str} (h : Ipv6Literal host) : guessHosttype host = .dns := by
  obtain ⟨hcolon, hall⟩ := h
  have hbracket : (0x5b : UInt8) ∉ host :=
    fun hm => absurd (List.all_eq_true.1 hall _ hm) (by decide)
  have hno : ¬(host.all fun c => c == 0x2e || isDigit c) := fun hyes =>
    absurd (List.all_eq_true.1 hyes _ hcolon) (by decide)
  rw [guessHosttype, if_neg hbracket, if_neg hno]

variable {inet4 inet6 : Str → Option Str} {conbuf : Arr 128} {host ip address : Str} {port : UInt16}
    {atyp : UInt8}

/-- An IPv4 address takes the room of an IPv6 address. -/
theorem connectRequest_ipv4 (h : guessHosttype host = .ipv4) (hip : inet4 host = some ip)
    (hlen : ip.length = 4) :
    ∃ rest, connectRequest inet4 inet6 conbuf host port = .ok (some ([5, 1, 0, 1] ++ ip ++ rest)) ∧
      rest.length = 14 := by
  have hsize := conbuf.property
  have hhead : ([5, 1, 0] ++ [1] ++ ip).length = 8 := by simp [hlen]
  have hlen' : (overwrite conbuf.val 0 ([5, 1, 0] ++ [1] ++ ip)).length = 128 := by
    rw [length_overwrite (by rw [hhead, hsize]; omega), hsize]
  have hport :
      20 + (htons port).length ≤ (overwrite conbuf.val 0 ([5, 1, 0] ++ [1] ++ ip)).length := by
    rw [hlen']
    simp [htons]
  refine ⟨(conbuf.val.drop 8).take 12 ++ htons port, ?_, ?_⟩
  · rw [connectRequest, store_ok (by simp [hsize]), h, hip]
    simp only [bind, Except.bind, Except.map]
    rw [store_behind (s := [5, 1, 0]) (p := 3) rfl (by simp [hsize])]
    dsimp only
    rw [store_behind (s := [5, 1, 0] ++ [1]) (p := 4) rfl (by simp [hlen, hsize])]
    dsimp only
    rw [store_ok hport]
    dsimp only
    have htake : (overwrite conbuf.val 0 ([5, 1, 0] ++ [1] ++ ip)).take 20 =
        [5, 1, 0] ++ [1] ++ ip ++ (conbuf.val.drop 8).take 12 := by
      rw [overwrite, List.take_zero, List.nil_append, Nat.zero_add, hhead, List.take_append, hhead,
        List.take_of_length_le (by omega)]
    rw [overwrite, htake, List.take_left' (by simp [htons, hlen, hsize])]
    simp
  · simp [htons, hsize]

theorem connectRequest_named (h : guessHosttype host = .dns) :
    connectRequest inet4 inet6 conbuf host port =
    (store (overwrite conbuf.val 0 [5, 1, 0, 3, UInt8.ofNat host.length]) 5 host).bind fun conbuf =>
      (store conbuf (5 + host.length) (htons port)).map fun conbuf =>
        some (conbuf.take (5 + host.length + 2)) := by
  have hsize := conbuf.property
  rw [connectRequest, store_ok (by simp [hsize]), h]
  simp only [bind, Except.bind, Except.map]
  rw [store_behind (s := [5, 1, 0]) (p := 3) rfl (by simp [hsize])]
  dsimp only
  rw [store_behind (s := [5, 1, 0] ++ [3]) (p := 4) rfl (by simp [hsize])]
  dsimp only [List.cons_append, List.nil_append]
  cases store (overwrite conbuf.val 0 [5, 1, 0, 3, UInt8.ofNat host.length]) 5 host <;> rfl

theorem connectRequest_dns (h : guessHosttype host = .dns) (hlen : host.length ≤ 121) :
    connectRequest inet4 inet6 conbuf host port =
      .ok (some (encoding 3 (UInt8.ofNat host.length :: host) port)) := by
  have hsize := conbuf.property
  have hport : (htons port).length = 2 := rfl
  rw [connectRequest_named h, store_behind (p := 5) rfl (by omega)]
  simp only [Except.bind, Except.map]
  rw [store_behind (by simp; omega) (by omega)]
  dsimp only
  rw [take_overwrite (by simp [hport]; omega), encoding]
  simp

theorem connectRequest_long (h : guessHosttype host = .dns) (hlen : 121 < host.length) :
    connectRequest inet4 inet6 conbuf host port = .error .overrun := by
  have hsize := conbuf.property
  have hport : (htons port).length = 2 := rfl
  rw [connectRequest_named h]
  by_cases hfit : host.length ≤ 123
  · rw [store_behind (p := 5) rfl (by omega)]
    simp only [Except.bind, Except.map]
    rw [store_beyond (by simp; omega) (by omega)]
  · rw [store_beyond (by simp [hsize]) (by omega)]
    rfl

/-- A name is never taken for an IPv6 address. -/
theorem guess_name (h : host.all isNameChar) : guessHosttype host ≠ .ipv6 := by
  have hbracket : (0x5b : UInt8) ∉ host := fun hm => absurd (List.all_eq_true.1 h _ hm) (by decide)
  rw [guessHosttype, if_neg hbracket]
  split
  · split <;> exact fun he => by cases he
  · exact fun he => by cases he

theorem encodes_named (h : guessHosttype host = .dns)
    (haddr : atyp = 3 → address = UInt8.ofNat host.length :: host) :
    connectRequest inet4 inet6 conbuf host port = .ok (some (encoding atyp address port)) ↔
      atyp = 3 ∧ host.length ≤ 121 := by
  by_cases hlen : host.length ≤ 121
  · rw [connectRequest_dns h hlen]
    constructor
    · intro he
      obtain ⟨_, _, _, rfl, _⟩ := by
        simpa only [Except.ok.injEq, Option.some.injEq, encoding, List.cons_append, List.nil_append,
          List.cons.injEq] using he
      exact ⟨rfl, hlen⟩
    · rintro ⟨rfl, _⟩
      rw [haddr rfl]
  · rw [connectRequest_long h (Nat.lt_of_not_le hlen)]
    exact iff_of_false (fun he => by cases he) fun he => hlen he.2

/-- The request is right for a name that fits and does not look like an IPv4 address, and for no
address. -/
theorem connectRequest_encodes (h4 : ∀ host ip, inet4 host = some ip → ip.length = 4)
    (h : Target inet4 inet6 host atyp address) (conbuf : Arr 128) (port : UInt16) :
    connectRequest inet4 inet6 conbuf host port = .ok (some (encoding atyp address port)) ↔
      atyp = 3 ∧ guessHosttype host = .dns ∧ host.length ≤ 121 := by
  cases h with
  | ipv4 h hip =>
    refine iff_of_false ?_ fun he => by cases he.1
    obtain ⟨rest, hreq, hrest⟩ := connectRequest_ipv4 (guess_quad h) hip (h4 _ _ hip)
    rw [hreq]
    intro he
    have hlen := congrArg List.length (Option.some.inj (Except.ok.inj he))
    simp [encoding, htons, hrest] at hlen
  | ipv6 h hip =>
    rw [encodes_named (guess_ipv6 h) fun he => by cases he]
    exact iff_of_false (fun he => by cases he.1) fun he => by cases he.1
  | dns h hno hpos hlen =>
    cases hguess : guessHosttype host with
    | dns =>
      rw [encodes_named hguess fun _ => rfl]
      simp
    | ipv6 => exact absurd hguess (guess_name h)
    | ipv4 =>
      refine iff_of_false ?_ fun he => by cases he.2.1
      cases hip : inet4 host with
      | none =>
        rw [connectRequest, store_ok (by simp [conbuf.property]), hguess, hip]
        simp only [bind, Except.bind]
        rw [store_behind (s := [5, 1, 0]) (p := 3) rfl (by simp [conbuf.property])]
        exact fun he => by cases he
      | some ip =>
        obtain ⟨rest, hreq, _⟩ :=
          @connectRequest_ipv4 inet4 inet6 conbuf _ _ port hguess hip (h4 _ _ hip)
        rw [hreq]
        intro he
        simp [encoding] at he

def inetLocal (host : Str) : Option Str :=
  if host = ascii "127.0.0.1" then some [127, 0, 0, 1] else none

def inet6Local (host : Str) : Option Str :=
  if host = ascii "::1" then some (List.replicate 15 0 ++ [1]) else none

theorem host_encodes :
    connectRequest inetLocal inet6Local ⟨List.replicate 128 0, rfl⟩ (ascii "irc.example.org") 6667 =
    .ok (some (encoding 3 (15 :: ascii "irc.example.org") 6667)) := by
  have h4 : ∀ host ip, inetLocal host = some ip → ip.length = 4 := by
    intro host ip h
    rw [inetLocal] at h
    split at h
    · cases h
      rfl
    · cases h
  have hno : ¬DottedQuad (ascii "irc.example.org") := by
    intro hquad
    exact absurd (guess_quad hquad) (by decide +kernel)
  refine (connectRequest_encodes h4
    (.dns (by decide +kernel) hno (by decide +kernel) (by decide +kernel)) _ 6667).2 ?_
  exact ⟨by decide +kernel, by decide +kernel, by decide +kernel⟩

def requestTo (host : Str) : Except Fault (Option Str) :=
  connectRequest inetLocal inet6Local ⟨List.replicate 128 0, rfl⟩ host 6667

theorem requests_wrong :
    requestTo (ascii "127.0.0.1") ≠
      .ok (some (encoding 1 [127, 0, 0, 1] 6667)) ∧
    requestTo (ascii "::1") ≠ .ok (some (encoding 4 (List.replicate 15 0 ++ [1]) 6667)) ∧
    requestTo (List.replicate 122 0x61) = .error .overrun :=
  ⟨by decide +kernel, by decide +kernel, connectRequest_long rfl (by decide)⟩

end Srsirc.ConnectRequest
