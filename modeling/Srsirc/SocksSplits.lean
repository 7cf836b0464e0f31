import Srsirc.ConnectReply

namespace Srsirc.SocksSplits

open CharMap Memory Message ReadBuffer BoundedStore Context Proxy ProxyReads SocksReplies
open ConnectReply

def result (r : Reads (Bool × Sck)) : Option (Except Fault Bool) := r.2.map (Except.map Prod.fst)

/-- A handshake stores what it reads at its place in an array of `size` bytes, and returns what
it would if all bytes arrived at one go. -/
def Steady (size : Nat) (logon : Sck → Reads (Bool × Sck)) (sck : Sck) : Prop :=
  (∀ st ∈ (logon sck).1, Placed size st) ∧
    result (logon sck) = result (logon { sck with src := joined sck.src })

theorem result_eq {x y : Reads (Bool × Sck)} (h : Agree (fun a b => a.1 = b.1) x.2 y.2) :
    result x = result y := by
  obtain ⟨stores, out⟩ := x
  obtain ⟨stores', out'⟩ := y
  cases h with
  | waits => rfl
  | fault e => rfl
  | ok h => exact congrArg (fun b => some (Except.ok b)) h

theorem atOnce_joined (l : Nat) (src : Source) : AtOnce l (joined src) := by
  obtain hb | ⟨a, src', hb, ha⟩ := beyond_cases src
  · rw [joined, hb]
    cases ahead src <;> exact trivial
  · rw [joined, hb]
    cases a with
    | chunk c s => exact absurd rfl (ha c s)
    | timeout | eof | failure => cases ahead src <;> exact trivial

theorem readReply_joined {size l : Nat} {resp : Mem} {src : Source} (h : AtOnce l src) :
    Agree Alike (readReply size l l resp 0 src).2 (readReply size l l resp 0 (joined src)).2 := by
  rw [readReply_atOnce size h (Nat.le_refl l),
    readReply_atOnce size (atOnce_joined l src) (Nat.le_refl l)]
  exact readReply_agree (same_joined src) (by omega) (Nat.zero_le l) (Nat.zero_le _)

theorem readReply_placed_iff {size l : Nat} {resp : Mem} {src : Source} (hl : l ≤ size)
    (hsize : resp.length = size) :
    (∀ st ∈ (readReply size l l resp 0 src).1, Placed size st) ↔ AtOnce l src := by
  constructor
  · intro h
    by_contra hno
    obtain ⟨st, hst, hout⟩ := readReply_apart hno (Nat.le_refl l) hl hsize
    exact absurd (h st hst).inside (Nat.not_le_of_lt hout)
  · intro h
    rw [readReply_atOnce size h (Nat.le_refl l)]
    obtain rfl := hsize
    exact (readReply_placed (by omega) (Nat.zero_le l) (Nat.zero_le _)).2 (by omega)

theorem not_stored {size : Nat} : ∀ st ∈ ([] : List Stored), Placed size st :=
  fun _ hst => absurd hst List.not_mem_nil

theorem socks4_steady (inetAddr : Str → Str) (rand : Nat → Nat) (resp : Arr 8) (host : Str)
    (port : UInt16)
    (sck : Sck) : Steady 8 (pxLogonSocks4 inetAddr rand resp host port) sck ↔
      ((ask sck.writes).1 = true → AtOnce 8 sck.src) := by
  rw [Steady, pxLogonSocks4, pxLogonSocks4]
  generalize [4, 1] ++ htons port ++ inetAddr host ++
    (List.range 5).map (fun i => UInt8.ofNat (rand i % 26 + 0x61)) ++ [0] = buf
  cases hw : (ask sck.writes).1 with
  | false =>
    rw [write_failed hw, @write_failed { sck with src := joined sck.src } hw]
    exact iff_of_true ⟨not_stored, rfl⟩ fun h => by cases h
  | true =>
    rw [write_done hw, @write_done { sck with src := joined sck.src } hw]
    constructor
    · intro h _
      exact (readReply_placed_iff (Nat.le_refl 8) resp.property).1 (stores_of_bind h.1).1
    · intro h
      have hat := h rfl
      refine ⟨stores_bind ((readReply_placed_iff (Nat.le_refl 8) resp.property).2 hat) ?_,
        result_eq ((readReply_joined hat).bind ?_)⟩
      · rintro ⟨_ | resp', src⟩ _ <;> exact not_stored
      · rintro ⟨r, src⟩ ⟨r', src'⟩ _ ⟨heq, _⟩
        obtain rfl := heq
        cases r <;> exact .ok rfl

def Requested (inet4 inet6 : Str → Option Str) (conbuf : Arr 128) (host : Str) (port : UInt16)
    (writes : List Bool) : Prop :=
  (∃ buf, connectRequest inet4 inet6 conbuf host port = .ok (some buf)) ∧ (ask writes).1 = true

variable {inet4 inet6 : Str → Option Str} {conbuf : Arr 128} {host : Str} {port : UInt16}
    {resp : Mem}
  {sck sck' : Sck}

theorem requestConnect_agree (hs : Same sck.src sck'.src) (hw : sck.writes = sck'.writes)
    (hsize : 4 ≤ resp.length) : Agree (fun a b => a.1 = b.1)
      (requestConnect inet4 inet6 conbuf host port resp sck).2
      (requestConnect inet4 inet6 conbuf host port resp sck').2 := by
  rw [requestConnect, requestConnect]
  cases connectRequest inet4 inet6 conbuf host port with
  | error e => exact .fault e
  | ok buf =>
    cases buf with
    | none => exact .ok rfl
    | some buf =>
      simp only [Reads.bind]
      cases hok : (ask sck.writes).1 with
      | false =>
        rw [write_failed hok, write_failed (hw ▸ hok)]
        exact .ok rfl
      | true =>
        rw [write_done hok, write_done (hw ▸ hok)]
        refine (readConnectReply_agree hs hsize).bind ?_
        rintro ⟨r, src⟩ ⟨r', src'⟩ _ ⟨heq, _⟩
        exact .ok heq

theorem requestConnect_placed (hsize : resp.length = 128) :
    (∀ st ∈ (requestConnect inet4 inet6 conbuf host port resp sck).1, Placed 128 st) ↔
      (Requested inet4 inet6 conbuf host port sck.writes → Narrow (ahead sck.src)) := by
  rw [requestConnect]
  cases hreq : connectRequest inet4 inet6 conbuf host port with
  | error e =>
    refine iff_of_true not_stored ?_
    rintro ⟨⟨buf, hbuf⟩, _⟩
    rw [hreq] at hbuf
    cases hbuf
  | ok buf =>
    cases buf with
    | none =>
      refine iff_of_true not_stored ?_
      rintro ⟨⟨buf, hbuf⟩, _⟩
      rw [hreq] at hbuf
      cases hbuf
    | some buf =>
      simp only [Reads.bind, List.nil_append]
      cases hok : (ask sck.writes).1 with
      | false =>
        rw [write_failed hok]
        refine iff_of_true not_stored ?_
        rintro ⟨_, hyes⟩
        rw [hok] at hyes
        cases hyes
      | true =>
        rw [write_done hok]
        have hread := @readConnectReply_placed resp sck.src hsize
        constructor
        · exact fun h _ => hread.1 (stores_of_bind h).1
        · exact fun h => stores_bind (hread.2 (h ⟨⟨buf, hreq⟩, hok⟩)) fun _ _ => not_stored

structure Asked (inet4 inet6 : Str → Option Str) (conbuf : Arr 128) (host : Str)
    (port : UInt16) (sck : Sck)
    (reply : Str) : Prop where
  admitted : ahead sck.src = 5 :: 0 :: reply
  requested : Requested inet4 inet6 conbuf host port (ask sck.writes).2

def behindGreeting (inet4 inet6 : Str → Option Str) (conbuf : Arr 128) (host : Str) (port : UInt16)
    (sck : Sck) :
    Option Mem × Source → Reads (Bool × Sck)
  | (none, src) => done (false, { sck with src })
  | (some resp, src) =>
    if resp.getD 0 0 ≠ 5 ∨ resp.getD 1 0 ≠ 0 then done (false, { sck with src })
    else requestConnect inet4 inet6 conbuf host port resp { sck with src }

theorem behindGreeting_agree {r r' : Option Mem × Source} (h : Alike r r')
    (hw : sck.writes = sck'.writes)
    (hsize : ∀ resp, r.1 = some resp → resp.length = 128) : Agree (fun a b => a.1 = b.1)
      (behindGreeting inet4 inet6 conbuf host port sck r).2
      (behindGreeting inet4 inet6 conbuf host port sck' r').2 := by
  obtain ⟨resp, src⟩ := r
  obtain ⟨resp', src'⟩ := r'
  obtain ⟨heq, hs⟩ := h
  obtain rfl : resp = resp' := heq
  cases resp with
  | none => exact .ok rfl
  | some resp =>
    rw [behindGreeting, behindGreeting]
    split
    · exact .ok rfl
    · exact requestConnect_agree hs hw (by rw [hsize resp rfl]; omega)

theorem greeting_read {ver method : UInt8} {t : Str} (h : ahead sck.src = ver :: method :: t)
    (hsize : resp.length = 128) : ∃ stores resp' src',
      readReply 1 2 2 resp 0 sck.src = (stores, some (.ok (some resp', src'))) ∧
      (∀ st ∈ stores, Placed 128 st) ∧ stores.flatMap Stored.bytes = [ver, method] ∧
      resp'.length = 128 ∧ resp'.getD 0 0 = ver ∧ resp'.getD 1 0 = method ∧
      ahead src' = t ∧ beyond src' = beyond sck.src := by
  obtain ⟨stores, src', hr, hplaced, hbytes, hahead, hbeyond⟩ :=
    @readReply_whole 2 2 0 resp sck.src (by omega) (by omega) (by rw [h]; simp) (by omega)
  have htake : (ahead sck.src).take (2 - 0) = [ver, method] := by rw [h]; rfl
  rw [htake] at hr hbytes
  rw [hsize] at hplaced
  refine ⟨stores, overwrite resp 0 [ver, method], src', hr, hplaced, hbytes, ?_, ?_, ?_,
    by rw [hahead, h]; rfl, hbeyond⟩
  · rw [length_overwrite (by simp [hsize]), hsize]
  · exact @getD_overwrite resp [ver, method] 0 (by simp) 0
  · exact @getD_overwrite resp [ver, method] 1 (by simp) 0

theorem greeting_cut (h : (ahead sck.src).length < 2) (hsize : resp.length = 128) :
    (readReply 1 2 2 resp 0 sck.src).2 = cut (beyond sck.src) := by
  obtain ⟨stores, hr, _⟩ := @readReply_short 2 2 0 resp sck.src (by omega) (by omega) (by omega)
  rw [hr]

theorem behindGreeting_placed (hsize : resp.length = 128) (hw : sck'.writes = (ask sck.writes).2) :
    (∀ r, (readReply 1 2 2 resp 0 sck.src).2 = some (.ok r) →
        ∀ st ∈ (behindGreeting inet4 inet6 conbuf host port sck' r).1, Placed 128 st) ↔
      ∀ reply, Asked inet4 inet6 conbuf host port sck reply → Narrow reply := by
  by_cases hlen : (ahead sck.src).length < 2
  · refine iff_of_true ?_ fun reply h => ?_
    · rw [greeting_cut hlen hsize]
      intro r hr
      cases hb : beyond sck.src with
      | nil =>
        rw [hb] at hr
        cases hr
      | cons a src =>
        rw [hb] at hr
        cases hr
        exact not_stored
    · rw [h.admitted] at hlen
      simp at hlen
  · obtain ⟨ver, method, t, ht⟩ : ∃ ver method t, ahead sck.src = ver :: method :: t := by
      match ahead sck.src, hlen with
      | _ :: _ :: _, _ => exact ⟨_, _, _, rfl⟩
      | [], h | [_], h => simp at h
    obtain ⟨stores, resp', src', hr, _, _, hsize', hver, hmethod, hahead, _⟩ :=
      greeting_read ht hsize
    rw [hr]
    have hone :
        (∀ r, (some (Except.ok (some resp', src')) : Option (Except Fault _)) = some (.ok r) →
        ∀ st ∈ (behindGreeting inet4 inet6 conbuf host port sck' r).1, Placed 128 st) ↔
          ∀ st ∈ (behindGreeting inet4 inet6 conbuf host port sck' (some resp', src')).1,
            Placed 128 st :=
      ⟨fun h => h _ rfl, fun h r hr => by cases hr; exact h⟩
    rw [hone, behindGreeting, hver, hmethod]
    split
    · next hno =>
      refine iff_of_true not_stored fun reply h => ?_
      obtain ⟨rfl, rfl, _⟩ := by simpa only [List.cons.injEq] using ht.symm.trans h.admitted
      exact absurd hno (by simp)
    · next hyes =>
      obtain ⟨rfl, rfl⟩ : ver = 5 ∧ method = 0 := by simpa using hyes
      rw [requestConnect_placed hsize', hahead, hw]
      constructor
      · intro h reply hasked
        obtain ⟨_, _, rfl⟩ := by simpa only [List.cons.injEq] using ht.symm.trans hasked.admitted
        exact h hasked.requested
      · exact fun h hreq => h t ⟨ht, hreq⟩

theorem socks5_greets (hport : port ≠ 0) (hok : (ask sck.writes).1 = true) (resp : Arr 128) :
    pxLogonSocks5 inet4 inet6 resp conbuf host port sck =
      (readReply 128 2 2 resp.val 0 sck.src).bind (behindGreeting inet4 inet6 conbuf host port
        { sck with writes := (ask sck.writes).2, sent := sck.sent ++ [[5, 1, 0]] }) := by
  rw [pxLogonSocks5, if_neg hport, write_done hok]
  rfl

theorem socks5_steady (inet4 inet6 : Str → Option Str) (resp conbuf : Arr 128) (host : Str)
    (port : UInt16)
    (sck : Sck) : Steady 128 (pxLogonSocks5 inet4 inet6 resp conbuf host port) sck ↔
      (port ≠ 0 → (ask sck.writes).1 = true →
        AtOnce 2 sck.src ∧ ∀ reply, Asked inet4 inet6 conbuf host port sck reply →
          Narrow reply) := by
  by_cases hport : port = 0
  · refine iff_of_true ?_ fun h => absurd hport h
    rw [Steady, pxLogonSocks5, pxLogonSocks5, if_pos hport, if_pos hport]
    exact ⟨not_stored, rfl⟩
  cases hok : (ask sck.writes).1 with
  | false =>
    refine iff_of_true ?_ fun _ h => by cases h
    rw [Steady, pxLogonSocks5, pxLogonSocks5, if_neg hport, if_neg hport, write_failed hok,
      @write_failed { sck with src := joined sck.src } hok]
    exact ⟨not_stored, rfl⟩
  | true =>
    rw [Steady, socks5_greets hport hok,
      @socks5_greets _ _ _ _ _ { sck with src := joined sck.src } hport hok]
    dsimp only
    constructor
    · intro h _ _
      obtain ⟨hfirst, hrest⟩ := stores_of_bind h.1
      have hat := (readReply_placed_iff (by omega) resp.property).1 hfirst
      rw [readReply_atOnce 128 hat (Nat.le_refl 2)] at hrest
      exact ⟨hat, (behindGreeting_placed resp.property rfl).1 hrest⟩
    · intro h
      obtain ⟨hat, hnarrow⟩ := h hport rfl
      have hrest := (@behindGreeting_placed inet4 inet6 conbuf host port resp sck
        { sck with writes := (ask sck.writes).2, sent := sck.sent ++ [[5, 1, 0]] }
        resp.property rfl).2 hnarrow
      refine ⟨stores_bind ((readReply_placed_iff (by omega) resp.property).2 hat) ?_,
        result_eq ((readReply_joined hat).bind ?_)⟩
      · rw [readReply_atOnce 128 hat (Nat.le_refl 2)]
        exact hrest
      · intro r r' hr halike
        refine behindGreeting_agree halike rfl fun mem hmem => ?_
        obtain ⟨_, src⟩ := r
        obtain rfl := hmem
        rw [length_readReply hr, resp.property]

/-- How far the handshakes do not depend on how the replies are split: a reply read to `&resp+c`
has to arrive at once, and the name in the last one has to be short. -/
theorem handshakes_steady (inetAddr : Str → Str) (rand : Nat → Nat) (resp4 : Arr 8)
    (inet4 inet6 : Str → Option Str) (resp5 conbuf : Arr 128) (host : Str) (port : UInt16)
      (sck : Sck) :
    (Steady 8 (pxLogonSocks4 inetAddr rand resp4 host port) sck ↔
      ((ask sck.writes).1 = true → AtOnce 8 sck.src)) ∧
    (Steady 128 (pxLogonSocks5 inet4 inet6 resp5 conbuf host port) sck ↔
      (port ≠ 0 → (ask sck.writes).1 = true →
        AtOnce 2 sck.src ∧ ∀ reply, Asked inet4 inet6 conbuf host port sck reply → Narrow reply)) :=
  ⟨socks4_steady inetAddr rand resp4 host port sck,
    socks5_steady inet4 inet6 resp5 conbuf host port sck⟩

def twoPieces : Sck := ⟨[.chunk 0 [], .chunk 0x5a [0, 0, 0, 0, 0, 0]], [], []⟩

/-- Calls `lsi_px_logon_socks4`. -/
def logonTo (sck : Sck) : Reads (Bool × Sck) :=
  pxLogonSocks4 (fun _ => [127, 0, 0, 1]) id ⟨List.replicate 8 0, rfl⟩ [] 6667 sck

theorem twoPieces_unsteady : ¬Steady 8 logonTo twoPieces ∧
    result (logonTo twoPieces) = some (.error .overrun) ∧
    result (logonTo { twoPieces with src := joined twoPieces.src }) = some (.ok true) :=
  ⟨fun h => absurd ((socks4_steady _ _ _ _ _ _).1 h rfl) (by decide), by decide +kernel,
    by decide +kernel⟩

end Srsirc.SocksSplits
