import Srsirc.ConnectRequest
import Srsirc.SocksSplits

namespace Srsirc.ReplyConsumed

open CharMap Memory Message ReadBuffer BoundedStore Context Proxy ProxyReads SocksReplies
open ConnectReply
  SocksSplits ConnectRequest

inductive Address
  | ipv4 (a : Arr 4)
  | ipv6 (a : Arr 16)
  | domain (name : Str) (short : name.length ≤ 255)

def Address.type : Address → UInt8
  | ipv4 _ => 1
  | ipv6 _ => 4
  | domain _ _ => 3

def Address.bytes : Address → Str
  | ipv4 a => a.val
  | ipv6 a => a.val
  | domain name _ => UInt8.ofNat name.length :: name

structure Reply where
  rsv : UInt8
  address : Address
  port : Arr 2

def Reply.bytes (reply : Reply) : Str :=
  [5, 0, reply.rsv, reply.address.type] ++ reply.address.bytes ++ reply.port.val

theorem address_extent (a : Address) :
    ∃ l b rest, addressLength a.type = some l ∧ a.bytes = b :: rest ∧
    extent (a.type == 3) (l + 2) b = a.bytes.length + 2 := by
  match a with
  | .ipv4 ⟨b :: rest, hlen⟩ => exact ⟨4, b, rest, rfl, rfl, congrArg (· + 2) hlen.symm⟩
  | .ipv6 ⟨b :: rest, hlen⟩ => exact ⟨16, b, rest, rfl, rfl, congrArg (· + 2) hlen.symm⟩
  | .domain name short =>
    refine ⟨1, UInt8.ofNat name.length, name, rfl, rfl, ?_⟩
    have hn : (UInt8.ofNat name.length).toNat = name.length := Nat.mod_eq_of_lt (by omega)
    change 1 + 2 + (UInt8.ofNat name.length).toNat = name.length + 1 + 2
    omega

variable {resp : Mem} {src : Source} {reply : Reply} {t : Str}

theorem behindHead_first (h : ahead src = reply.address.bytes ++ reply.port.val ++ t)
    (hsize : resp.length = 128) : ∃ b rest k src', reply.address.bytes = b :: rest ∧
      ahead src' = rest ++ reply.port.val ++ t ∧ beyond src' = beyond src ∧
      reply.address.bytes.length + 2 ≤ 1 + k ∧ (overwrite resp 0 [b]).length = 128 ∧
      behindHead 5 0 reply.address.type resp src =
        Reads.bind ([⟨0, 0, [b]⟩], some (.ok (overwrite resp 0 [b]))) fun resp =>
          (readReply 1 (reply.address.bytes.length + 2) k resp 1 src').bind fun r =>
            done (r.1.isSome, r.2) := by
  obtain ⟨l, b, rest, hl, hbytes, hextent⟩ := address_extent reply.address
  rw [hbytes, List.cons_append, List.cons_append] at h
  obtain ⟨src', hahead, hbeyond, hfirst⟩ :=
    @readAddress_first (l + 2 + 254) (l + 2) resp src (reply.address.type == 3) b _ h
      (by omega) (by omega)
  have hle := extent_le (reply.address.type == 3) (l + 2) b
  rw [hextent] at hfirst hle
  refine ⟨b, rest, l + 2 + 254, src', hbytes, hahead, hbeyond, ?_, ?_, ?_⟩
  · rw [Nat.add_comm 1]
    exact hle
  · rw [length_overwrite (fits_first b (by omega)), hsize]
  · rw [behindHead, if_neg (by simp), hl]
    dsimp only
    rw [hfirst, bind_assoc]

/-- The loop reads just the address and the port if they have room. -/
theorem behindHead_whole (h : ahead src = reply.address.bytes ++ reply.port.val ++ t)
    (hsize : resp.length = 128) (hroom : reply.address.bytes.length ≤ 126) :
    ∃ stores src', behindHead 5 0 reply.address.type resp src = (stores, some (.ok (true, src'))) ∧
      (∀ st ∈ stores, Placed 128 st) ∧
      stores.flatMap Stored.bytes = reply.address.bytes ++ reply.port.val ∧
      ahead src' = t ∧ beyond src' = beyond src := by
  obtain ⟨b, rest, k, src₁, hbytes, hahead, hbeyond, hk, hlen, hfirst⟩ := behindHead_first h hsize
  have hleft : (rest ++ reply.port.val).length = reply.address.bytes.length + 2 - 1 := by
    rw [hbytes]
    simp [reply.port.property]
  obtain ⟨stores, src', hr, hplaced, hstores, hahead', hbeyond'⟩ :=
    @readReply_whole k (reply.address.bytes.length + 2) 1 (overwrite resp 0 [b]) src₁
      hk (by omega) (by rw [hahead, List.length_append, hleft]; omega) (by omega)
  rw [hahead, List.take_left' hleft] at hstores
  rw [hahead, List.drop_left' hleft] at hahead'
  rw [hlen] at hplaced
  refine ⟨⟨0, 0, [b]⟩ :: stores, src', ?_, ?_, ?_, hahead', hbeyond'.trans hbeyond⟩
  · rw [hfirst, bind_stored, hr]
    simp only [Reads.bind, done, List.append_nil, Option.isSome_some]
  · exact List.forall_mem_cons.2 ⟨⟨rfl, by simp⟩, hplaced⟩
  · rw [List.flatMap_cons, hstores, hbytes]
    rfl

/-- Else it writes past the end of the array. -/
theorem behindHead_over (h : ahead src = reply.address.bytes ++ reply.port.val ++ t)
    (hsize : resp.length = 128) (hroom : 126 < reply.address.bytes.length) :
    (behindHead 5 0 reply.address.type resp src).2 = some (.error .overrun) := by
  obtain ⟨b, rest, k, src', hbytes, hahead, _, hk, hlen, hfirst⟩ := behindHead_first h hsize
  have hleft : (rest ++ reply.port.val).length = reply.address.bytes.length + 2 - 1 := by
    rw [hbytes]
    simp [reply.port.property]
  obtain ⟨stores, hr, _⟩ :=
    @readReply_over k (reply.address.bytes.length + 2) 1 (overwrite resp 0 [b]) src' hk (by omega)
      (by rw [hahead, List.length_append, hleft]; omega)
  rw [hfirst, bind_stored, hr]
  rfl

theorem readConnectReply_whole (h : ahead src = reply.bytes ++ t) (hsize : resp.length = 128)
    (hroom : reply.address.bytes.length ≤ 126) :
    ∃ stores src', readConnectReply resp src = (stores, some (.ok (true, src'))) ∧
      (∀ st ∈ stores, Placed 128 st) ∧ stores.flatMap Stored.bytes = reply.bytes ∧
      ahead src' = t ∧ beyond src' = beyond src := by
  rw [Reply.bytes, List.append_assoc, List.append_assoc] at h
  obtain ⟨stores, resp', src₁, hplaced, hbytes, hlen, hahead, hbeyond, hr⟩ :=
    readConnectReply_head h (show 4 ≤ resp.length by omega)
  rw [hsize] at hplaced hlen
  rw [← List.append_assoc] at hahead
  obtain ⟨stores', src', hr', hplaced', hbytes', hahead', hbeyond'⟩ :=
    behindHead_whole hahead hlen hroom
  refine ⟨stores ++ stores', src', ?_, ?_, ?_, hahead', hbeyond'.trans hbeyond⟩
  · rw [hr, Reads.bind]
    dsimp only
    rw [hr']
  · exact List.forall_mem_append.2 ⟨hplaced, hplaced'⟩
  · rw [List.flatMap_append, hbytes, hbytes', Reply.bytes, List.append_assoc]

theorem readConnectReply_over (h : ahead src = reply.bytes ++ t) (hsize : resp.length = 128)
    (hroom : 126 < reply.address.bytes.length) :
      (readConnectReply resp src).2 = some (.error .overrun) := by
  rw [Reply.bytes, List.append_assoc, List.append_assoc] at h
  obtain ⟨stores, resp', src₁, _, _, hlen, hahead, _, hr⟩ :=
    readConnectReply_head h (show 4 ≤ resp.length by omega)
  rw [← List.append_assoc] at hahead
  rw [hr, Reads.bind]
  exact behindHead_over hahead (hlen.trans hsize) hroom

/-- A handshake succeeds, reads the replies and nothing of what follows, and stores them below
the end of an array of `size` bytes. -/
structure Exact (size : Nat) (r : Reads (Bool × Sck)) (src : Source) (replies t : Str) : Prop where
  inside : ∀ st ∈ r.1, st.index + st.bytes.length ≤ size
  bytes : r.1.flatMap Stored.bytes = replies
  ends : ∃ sck, r.2 = some (.ok (true, sck)) ∧ ahead sck.src = t ∧ beyond sck.src = beyond src

variable {inet4 inet6 : Str → Option Str} {conbuf : Arr 128} {host : Str}
    {port : UInt16} {sck : Sck}

theorem socks5_asked (hport : port ≠ 0) (hok : (ask sck.writes).1 = true) (resp : Arr 128)
    (h : Asked inet4 inet6 conbuf host port sck t) (hat : AtOnce 2 sck.src) :
    ∃ stores resp' src writes sent, (∀ st ∈ stores, Placed 128 st) ∧
      stores.flatMap Stored.bytes = [5, 0] ∧
      resp'.length = 128 ∧ ahead src = t ∧ beyond src = beyond sck.src ∧
      pxLogonSocks5 inet4 inet6 resp conbuf host port sck =
        Reads.bind (stores, some (.ok ())) fun _ =>
          (readConnectReply resp' src).bind fun r => done (r.1, ⟨r.2, writes, sent⟩) := by
  obtain ⟨hadmitted, ⟨buf, hbuf⟩, hyes⟩ := h
  obtain ⟨stores, resp', src, hr, hplaced, hbytes, hsize, hver, hmethod, hahead, hbeyond⟩ :=
    greeting_read hadmitted resp.property
  refine ⟨stores, resp', src, (ask (ask sck.writes).2).2, sck.sent ++ [[5, 1, 0]] ++ [buf],
    hplaced, hbytes,
    hsize, hahead, hbeyond, ?_⟩
  rw [socks5_greets hport hok, readReply_atOnce 128 hat (Nat.le_refl 2), hr]
  simp only [Reads.bind, behindGreeting, hver, hmethod, requestConnect, hbuf, List.nil_append]
  rw [if_neg (by simp), write_done hyes]

theorem exact_roomy (hport : port ≠ 0) (hok : (ask sck.writes).1 = true) (resp : Arr 128)
    (h : Asked inet4 inet6 conbuf host port sck (reply.bytes ++ t))
    (hex : Exact 128 (pxLogonSocks5 inet4 inet6 resp conbuf host port sck) sck.src
      (5 :: 0 :: reply.bytes) t) :
    AtOnce 2 sck.src ∧ reply.address.bytes.length ≤ 126 := by
  have hat : AtOnce 2 sck.src := by
    by_contra hno
    obtain ⟨st, hst, hout⟩ := readReply_apart hno (Nat.le_refl 2) (by omega) resp.property
    have hin := hex.inside
    rw [socks5_greets hport hok] at hin
    exact absurd ((stores_of_bind hin).1 st hst) (Nat.not_le_of_lt hout)
  refine ⟨hat, Nat.le_of_not_lt fun hroom => ?_⟩
  obtain ⟨stores, resp', src, _, _, _, _, hsize, hahead, _, hr⟩ := socks5_asked hport hok resp h hat
  obtain ⟨sck₂, hends, _⟩ := hex.ends
  have hover := readConnectReply_over hahead hsize hroom
  rw [hr] at hends
  simp only [Reads.bind, hover] at hends
  cases hends

theorem roomy_exact (hport : port ≠ 0) (hok : (ask sck.writes).1 = true) (resp : Arr 128)
    (h : Asked inet4 inet6 conbuf host port sck (reply.bytes ++ t))
    (hat : AtOnce 2 sck.src) (hroom : reply.address.bytes.length ≤ 126) :
    Exact 128 (pxLogonSocks5 inet4 inet6 resp conbuf host port sck) sck.src
      (5 :: 0 :: reply.bytes) t := by
  obtain ⟨stores, resp', src, writes, sent, hplaced, hbytes, hsize, hahead, hbeyond, hr⟩ :=
    socks5_asked hport hok resp h hat
  obtain ⟨stores', src', hr', hplaced', hbytes', hahead', hbeyond'⟩ :=
    readConnectReply_whole hahead hsize hroom
  have hrun : pxLogonSocks5 inet4 inet6 resp conbuf host port sck =
      (stores ++ stores', some (.ok (true, ⟨src', writes, sent⟩))) := by
    rw [hr, hr']
    simp only [Reads.bind, done, List.append_nil]
  rw [hrun]
  refine ⟨?_, ?_, _, rfl, hahead', hbeyond'.trans hbeyond⟩
  · intro st hst
    obtain hst | hst := List.mem_append.1 hst
    · exact (hplaced st hst).inside
    · exact (hplaced' st hst).inside
  · rw [List.flatMap_append, hbytes, hbytes']
    rfl

/-- The reply of the proxy is read exactly if the reply before arrived at once and a domain name
in it has not more than 125 bytes. -/
theorem socks5_exact (hport : port ≠ 0) (hok : (ask sck.writes).1 = true) (resp : Arr 128)
    (h : Asked inet4 inet6 conbuf host port sck (reply.bytes ++ t)) :
    Exact 128 (pxLogonSocks5 inet4 inet6 resp conbuf host port sck) sck.src
      (5 :: 0 :: reply.bytes) t ↔
      AtOnce 2 sck.src ∧ reply.address.bytes.length ≤ 126 :=
  ⟨exact_roomy hport hok resp h, fun ⟨hat, hroom⟩ => roomy_exact hport hok resp h hat hroom⟩

def naming (name : Str) : Sck :=
  ⟨[.chunk 5 [0, 5, 0, 0, 3], .chunk (UInt8.ofNat name.length) (name ++ [0, 80, 0x3a])], [], []⟩

theorem naming_short :
    Exact 128 (pxLogonSocks5 (fun _ => none) (fun _ => none) ⟨List.replicate 128 0, rfl⟩
    ⟨List.replicate 128 0, rfl⟩ [0x68] 6667 (naming [0x68, 0x69])) (naming [0x68, 0x69]).src
      [5, 0, 5, 0, 0, 3, 2, 0x68, 0x69, 0, 80] [0x3a] :=
  (@socks5_exact ⟨0, .domain [0x68, 0x69] (by decide), ⟨[0, 80], rfl⟩⟩ [0x3a] _ _ _ _ _
    (naming [0x68, 0x69])
    (by decide) rfl _ ⟨rfl, ⟨_, connectRequest_dns rfl (by decide)⟩, rfl⟩).2 ⟨by decide, by decide⟩

theorem naming_long :
    ¬Exact 128 (pxLogonSocks5 (fun _ => none) (fun _ => none) ⟨List.replicate 128 0, rfl⟩
    ⟨List.replicate 128 0, rfl⟩ [0x68] 6667 (naming (List.replicate 126 0x61)))
      (naming (List.replicate 126 0x61)).src
      ([5, 0, 5, 0, 0, 3, 126] ++ List.replicate 126 0x61 ++ [0, 80]) [0x3a] := by
  intro hex
  have h :=
    @exact_roomy ⟨0, .domain (List.replicate 126 0x61) (by simp), ⟨[0, 80], rfl⟩⟩ [0x3a] _ _ _ _ _
    (naming (List.replicate 126 0x61)) (by decide) rfl _ ⟨rfl,
      ⟨_, connectRequest_dns rfl (by decide)⟩, rfl⟩ hex
  exact absurd h.2 (by simp [Address.bytes])

end Srsirc.ReplyConsumed
