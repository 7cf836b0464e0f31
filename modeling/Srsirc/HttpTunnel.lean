import Srsirc.Connect
import Srsirc.SocksReplies

namespace Srsirc.HttpTunnel

open CharMap Memory Message ReadBuffer BoundedStore Context Conn Proxy ProxyReads SocksReplies
open Connect

def twoCrlf : Str := [0x0d, 0x0a, 0x0d, 0x0a]

def headerEnds (buf : Mem) (c : Nat) : Bool := 4 ≤ c && (buf.drop (c - 4)).take 4 == twoCrlf

def readHeader : Nat → Mem → Nat → Source → Reads (Option Mem × Source)
  | 0, buf, c, src => if c < buf.length ∧ !headerEnds buf c then ([], none)
      else done (some buf, src)
  | k + 1, buf, c, src =>
    if c < buf.length ∧ !headerEnds buf c then
      match src.read 1 with
      | none => ([], none)
      | some (n, s, src) =>
        if n ≤ 0 then done (none, src)
        else Reads.bind ([⟨c, c, s⟩], some (store buf c s)) fun buf => readHeader k buf (c + 1) src
    else done (some buf, src)

/-- `strchr`. The pointer to what is found is the rest of the array. -/
def strchr (c : UInt8) : Mem → Except Fault (Option Mem)
  | [] => .error .overrun
  | b :: mem => if b = c then .ok (some (b :: mem)) else if b = 0 then .ok none else strchr c mem

/-- What `%.3s` looks at. -/
def printed : Nat → Mem → Except Fault Unit
  | 0, _ => .ok ()
  | _ + 1, [] => .error .overrun
  | n + 1, b :: mem => if b = 0 then .ok () else printed n mem

/-- Whether `strncmp` finds all bytes of a text equal. -/
def strncmpEq : Str → Mem → Except Fault Bool
  | [], _ => .ok true
  | _ :: _, [] => .error .overrun
  | c :: s, b :: mem => if b = c then strncmpEq s mem else .ok false

def checkStatus (debug : Bool) (status : Mem) : Except Fault Bool :=
  (if debug then printed 3 status else .ok ()).bind fun _ => strncmpEq [0x32, 0x30, 0x30] status

/-- What `lsi_px_logon_http` makes of the response. -/
def granted (debug : Bool) (buf : Mem) : Except Fault Bool :=
  (strchr 0x20 buf).bind fun
    | none => .ok false
    | some sp => checkStatus debug sp.tail

/-- The request as `snprintf` writes it to an array of 256 bytes. -/
def connectLine (host : Str) (port : UInt16) : Str :=
  (ascii "CONNECT " ++ host ++ ascii ":" ++ decimal port.toNat ++ ascii " HTTP/1.0" ++ crlf ++
    ascii "Host: " ++ host ++ ascii ":" ++ decimal port.toNat ++ twoCrlf).take 255

/-- `lsi_px_logon_http`. -/
def pxLogonHttp (debug : Bool) (host : Str) (port : UInt16) (sck : Sck) : Reads (Bool × Sck) :=
  match sck.write (connectLine host port) with
  | (false, sck) => done (false, sck)
  | (true, sck) =>
    (readHeader 256 (List.replicate 256 0) 0 sck.src).bind fun
      | (none, src) => done (false, { sck with src })
      | (some buf, src) => ([], some ((granted debug buf).map fun ok => (ok, { sck with src })))

/-- A header ends where two ends of lines are found first. -/
structure Header (header : Str) : Prop where
  ends : twoCrlf <:+ header
  first : ∀ s, s <+: header → twoCrlf <:+ s → s = header

def padded (got : Str) : Mem := got ++ List.replicate (256 - got.length) 0

theorem length_padded {got : Str} (h : got.length ≤ 256) : (padded got).length = 256 := by
  rw [padded, List.length_append, List.length_replicate]
  omega

theorem headerEnds_padded (got : Str) : headerEnds (padded got) got.length = true ↔
    twoCrlf <:+ got := by
  have hfour : twoCrlf.length = 4 := rfl
  rw [headerEnds, Bool.and_eq_true, decide_eq_true_eq, beq_iff_eq, List.suffix_iff_eq_drop, hfour]
  by_cases hlen : 4 ≤ got.length
  · rw [padded, List.drop_append_of_le_length (by omega),
      List.take_left' (by rw [List.length_drop]; omega)]
    exact ⟨fun h => h.2.symm, fun h => ⟨hlen, h.symm⟩⟩
  · refine iff_of_false (fun h => hlen h.1) fun h => ?_
    have := congrArg List.length h
    rw [hfour, List.length_drop] at this
    omega

theorem store_padded {got : Str} (b : UInt8) (h : got.length < 256) :
    store (padded got) got.length [b] = .ok (padded (got ++ [b])) := by
  rw [store_ok (by rw [length_padded (by omega), List.length_singleton]; omega), overwrite, padded,
    List.take_left' rfl, List.length_singleton, padded, List.append_assoc, List.append_assoc]
  congr 3
  rw [← List.drop_drop, List.drop_left' rfl, List.drop_replicate, List.length_append,
    List.length_singleton,
    Nat.sub_sub]

variable {header got more t : Str} {src : Source} {k : Nat}

/-- Within a header the loop goes on until the array is full. -/
theorem header_goes_on (h : Header header) (he : header = got ++ more) (hlen : got.length ≤ 256) :
    (got.length < (padded got).length ∧ (!headerEnds (padded got) got.length) = true) ↔
      got.length < 256 ∧ more ≠ [] := by
  rw [length_padded hlen, Bool.not_eq_true', ← Bool.not_eq_true, headerEnds_padded]
  refine and_congr_right fun _ => not_congr ⟨fun hends => ?_, fun hnil => ?_⟩
  · have := h.first got (he ▸ List.prefix_append got more) hends
    rw [he] at this
    exact List.self_eq_append_right.1 this
  · rw [hnil, List.append_nil] at he
    exact he ▸ h.ends

def HeaderRead (header t : Str) (src : Source) (r : Reads (Option Mem × Source)) : Prop :=
  ∃ stores src', r = (stores, some (.ok (some (padded (header.take 256)), src'))) ∧
    (∀ st ∈ stores, Placed 256 st) ∧ ahead src' = header.drop 256 ++ t ∧ beyond src' = beyond src

theorem header_stops (h : Header header) (he : header = got ++ more) (hlen : got.length ≤ 256)
    (hahead : ahead src = more ++ t) (hno : ¬(got.length < 256 ∧ more ≠ [])) (k : Nat) :
    HeaderRead header t src (readHeader k (padded got) got.length src) := by
  have hrun : readHeader k (padded got) got.length src = done (some (padded got), src) := by
    cases k <;> exact if_neg fun hyes => hno ((header_goes_on h he hlen).1 hyes)
  have hcut : header.take 256 = got ∧ header.drop 256 = more := by
    by_cases hfull : got.length = 256
    · rw [he, List.take_left' hfull, List.drop_left' hfull]
      exact ⟨rfl, rfl⟩
    · obtain rfl : more = [] := by
        by_contra hmore
        exact hno ⟨by omega, hmore⟩
      rw [List.append_nil] at he
      rw [he, List.take_of_length_le hlen, List.drop_eq_nil_of_le hlen]
      exact ⟨rfl, rfl⟩
  rw [HeaderRead, hcut.1, hcut.2]
  exact ⟨[], src, hrun, fun _ h => absurd h List.not_mem_nil, hahead, rfl⟩

theorem readHeader_reads (h : Header header) (he : header = got ++ more) (hlen : got.length ≤ 256)
    (hk : 256 ≤ got.length + k) (hahead : ahead src = more ++ t) :
    HeaderRead header t src (readHeader k (padded got) got.length src) := by
  induction k generalizing got more src with
  | zero => exact header_stops h he hlen hahead (by omega) 0
  | succ k ih =>
    by_cases hgo : got.length < 256 ∧ more ≠ []
    · obtain ⟨hlt, hmore⟩ := hgo
      obtain ⟨b, more, rfl⟩ := List.exists_cons_of_ne_nil hmore
      obtain ⟨s, src₁, hr, hpos, hle, hsplit, hbeyond⟩ :=
        @read_some src (by rw [hahead]; exact List.cons_ne_nil _ _) 1 (Nat.lt_succ_self 0)
      obtain ⟨b', rfl⟩ := List.length_eq_one_iff.1 (Nat.le_antisymm hle hpos)
      rw [hahead] at hsplit
      obtain ⟨rfl, hahead₁⟩ := List.cons.inj hsplit
      have hnext : (got ++ [b]).length = got.length + 1 := List.length_append
      obtain ⟨stores, src', hrest, hplaced, hahead', hbeyond'⟩ := @ih (got ++ [b]) more src₁
        (by rw [he, List.append_assoc]; rfl) (by omega) (by omega) hahead₁.symm
      refine ⟨⟨got.length, got.length, [b]⟩ :: stores, src', ?_, ?_, hahead',
        hbeyond'.trans hbeyond⟩
      · rw [readHeader, if_pos ((header_goes_on h he hlen).2 ⟨hlt, hmore⟩), hr]
        dsimp only
        rw [if_neg (by simp), store_padded b hlt, bind_stored, ← hnext, hrest]
      · exact List.forall_mem_cons.2 ⟨⟨rfl, hlt⟩, hplaced⟩
    · exact header_stops h he hlen hahead hgo (k + 1)

def Clean (s : Str) : Prop := ∀ c ∈ s, c ≠ 0x20 ∧ c ≠ 0

theorem clean_or_split (s : Str) : Clean s ∨ ∃ pre c rest, Clean pre ∧ s = pre ++ c :: rest ∧
    (c = 0x20 ∨ c = 0) := by
  induction s with
  | nil => exact Or.inl fun _ h => absurd h List.not_mem_nil
  | cons b s ih =>
    by_cases hb : b = 0x20 ∨ b = 0
    · exact Or.inr ⟨[], b, s, fun _ h => absurd h List.not_mem_nil, rfl, hb⟩
    · obtain hs | ⟨pre, c, rest, hpre, rfl, hc⟩ := ih
      · exact Or.inl (List.forall_mem_cons.2 ⟨not_or.1 hb, hs⟩)
      · exact Or.inr ⟨b :: pre, c, rest, List.forall_mem_cons.2 ⟨not_or.1 hb, hpre⟩, rfl, hc⟩

section Status

variable {pre rest status : Str}

theorem strchr_clean (h : Clean pre) (mem : Mem) : strchr 0x20 (pre ++ mem) = strchr 0x20 mem := by
  induction pre with
  | nil => rfl
  | cons b pre ih =>
    obtain ⟨⟨hspace, hzero⟩, hpre⟩ := List.forall_mem_cons.1 h
    rw [List.cons_append, strchr, if_neg hspace, if_neg hzero, ih hpre]

theorem granted_clean (debug : Bool) (h : Clean pre) : granted debug pre = .error .overrun := by
  have := strchr_clean h []
  rw [List.append_nil] at this
  rw [granted, this]
  rfl

theorem granted_zero (debug : Bool) (h : Clean pre) (rest : Str) :
    granted debug (pre ++ 0 :: rest) = .ok false := by
  rw [granted, strchr_clean h]
  rfl

theorem granted_space (debug : Bool) (h : Clean pre) (rest : Str) :
    granted debug (pre ++ 0x20 :: rest) = checkStatus debug rest := by
  rw [granted, strchr_clean h]
  rfl

/-- The status can be told from what there is behind the space. -/
def Bounded (debug : Bool) (status : Str) : Prop :=
  3 ≤ status.length ∨ if debug then 0 ∈ status else ¬status <+: [0x32, 0x30, 0x30]

theorem printed_ok {n : Nat} {mem : Mem} (h : n ≤ mem.length ∨ 0 ∈ mem) :
    printed n mem = .ok () := by
  induction n generalizing mem with
  | zero => rw [printed]
  | succ n ih =>
    cases mem with
    | nil => simp at h
    | cons b mem =>
      rw [printed]
      split
      · rfl
      · next hb =>
        refine ih (h.imp Nat.le_of_succ_le_succ fun hm => ?_)
        exact (List.mem_cons.1 hm).resolve_left (Ne.symm hb)

theorem printed_over {n : Nat} {mem : Mem} (h : mem.length < n) (hzero : 0 ∉ mem) :
    printed n mem = .error .overrun := by
  induction n generalizing mem with
  | zero => omega
  | succ n ih =>
    cases mem with
    | nil => rw [printed]
    | cons b mem =>
      obtain ⟨hb, hmem⟩ := not_or.1 fun hm => hzero (List.mem_cons.2 hm)
      rw [printed, if_neg (Ne.symm hb), ih (Nat.lt_of_succ_lt_succ h) hmem]

theorem strncmpEq_ok {s : Str} {mem : Mem} (h : s.length ≤ mem.length ∨ ¬mem <+: s) :
    strncmpEq s mem = .ok (mem.take s.length == s) := by
  induction s generalizing mem with
  | nil => rw [strncmpEq, List.length_nil, List.take_zero, beq_self_eq_true]
  | cons c s ih =>
    cases mem with
    | nil => simp at h
    | cons b mem =>
      rw [strncmpEq]
      split
      · next hb =>
        obtain rfl := hb
        rw [ih (h.imp Nat.le_of_succ_le_succ fun hp hmem =>
          hp (List.cons_prefix_cons.2 ⟨rfl, hmem⟩))]
        simp
      · next hb => simp [hb]

theorem strncmpEq_over {s : Str} {mem : Mem} (h : mem.length < s.length) (hp : mem <+: s) :
    strncmpEq s mem = .error .overrun := by
  induction s generalizing mem with
  | nil => simp at h
  | cons c s ih =>
    cases mem with
    | nil => rw [strncmpEq]
    | cons b mem =>
      obtain ⟨rfl, hmem⟩ := List.cons_prefix_cons.1 hp
      rw [strncmpEq, if_pos rfl, ih (Nat.lt_of_succ_lt_succ h) hmem]

theorem bounded_of_zero (debug : Bool) (h : 0 ∈ status) : Bounded debug status := by
  refine Or.inr ?_
  cases debug with
  | false => exact fun hp => absurd (hp.subset h) (by decide)
  | true => exact h

theorem checkStatus_ok {debug : Bool} (h : Bounded debug status) :
    checkStatus debug status = .ok (status.take 3 == [0x32, 0x30, 0x30]) := by
  rw [checkStatus]
  cases debug with
  | false => exact strncmpEq_ok h
  | true =>
    rw [if_pos rfl, printed_ok h]
    exact strncmpEq_ok (h.imp_right fun hzero hp => absurd (hp.subset hzero) (by decide))

theorem checkStatus_over {debug : Bool} (h : ¬Bounded debug status) :
    checkStatus debug status = .error .overrun := by
  obtain ⟨hlen, hno⟩ := not_or.1 h
  rw [checkStatus]
  cases debug with
  | false => exact strncmpEq_over (Nat.lt_of_not_le hlen) (not_not.1 hno)
  | true =>
    rw [if_pos rfl, printed_over (Nat.lt_of_not_le hlen) hno]
    rfl

end Status

def Refused (debug : Bool) (s : Str) : Prop :=
  ∃ pre rest, Clean pre ∧ (s = pre ++ 0 :: rest ∨
    s = pre ++ 0x20 :: rest ∧ Bounded debug rest ∧ rest.take 3 ≠ [0x32, 0x30, 0x30])

theorem refused_iff (debug : Bool) (s : Str) : granted debug s = .ok false ↔ Refused debug s := by
  constructor
  · intro h
    obtain hclean | ⟨pre, c, rest, hpre, rfl, rfl | rfl⟩ := clean_or_split s
    · rw [granted_clean debug hclean] at h
      cases h
    · rw [granted_space debug hpre] at h
      have hbounded : Bounded debug rest := by
        by_contra hno
        rw [checkStatus_over hno] at h
        cases h
      rw [checkStatus_ok hbounded] at h
      exact ⟨pre, rest, hpre, Or.inr ⟨rfl, hbounded, beq_eq_false_iff_ne.1 (Except.ok.inj h)⟩⟩
    · exact ⟨pre, rest, hpre, Or.inl rfl⟩
  · rintro ⟨pre, rest, hpre, rfl | ⟨rfl, hbounded, hstatus⟩⟩
    · exact granted_zero debug hpre rest
    · rw [granted_space debug hpre, checkStatus_ok hbounded, beq_eq_false_iff_ne.2 hstatus]

theorem suffix_behind {pre rest tail : Str} {c : UInt8} (h : tail <:+ pre ++ c :: rest)
    (hc : c ∉ tail) :
    tail <:+ rest := by
  obtain hs | hs := List.suffix_or_suffix_of_suffix h (List.suffix_append pre (c :: rest))
  · obtain rfl | hs := List.suffix_cons_iff.1 hs
    · exact absurd List.mem_cons_self hc
    · exact hs
  · exact absurd (hs.subset List.mem_cons_self) hc

theorem granted_padded (debug : Bool) (h : got.length < 256) :
    ∃ b, granted debug (padded got) = .ok b := by
  have hzero : [0] <:+ padded got := by
    obtain ⟨n, hn⟩ : ∃ n, 256 - got.length = n + 1 := ⟨255 - got.length, by omega⟩
    rw [padded, hn, List.replicate_succ', ← List.append_assoc]
    exact List.suffix_append _ _
  obtain hclean | ⟨pre, c, rest, hpre, he, rfl | rfl⟩ := clean_or_split (padded got)
  · exact absurd rfl (hclean 0 (hzero.subset (List.mem_singleton_self 0))).2
  · rw [he] at hzero
    have hmem := (suffix_behind hzero (by decide)).subset (List.mem_singleton_self 0)
    rw [he, granted_space debug hpre, checkStatus_ok (bounded_of_zero debug hmem)]
    exact ⟨_, rfl⟩
  · rw [he]
    exact ⟨false, granted_zero debug hpre rest⟩

theorem granted_header (debug : Bool) (h : twoCrlf <:+ header) :
    (∃ b, granted debug header = .ok b) ↔ ¬Clean header := by
  constructor
  · rintro ⟨b, hb⟩ hclean
    rw [granted_clean debug hclean] at hb
    cases hb
  · intro hno
    obtain hclean | ⟨pre, c, rest, hpre, rfl, rfl | rfl⟩ := clean_or_split header
    · exact absurd hclean hno
    · have hlen := (suffix_behind h (by decide)).length_le
      rw [granted_space debug hpre, checkStatus_ok (Or.inl (Nat.le_of_succ_le hlen))]
      exact ⟨_, rfl⟩
    · exact ⟨false, granted_zero debug hpre rest⟩

/-- A handshake stores what it reads in the array of `size` bytes and looks at nothing outside of
it, and if it succeeds, it has read all but `t`. -/
structure Consumed (size : Nat) (r : Reads (Bool × Sck)) (src : Source) (t : Str) : Prop where
  inside : ∀ st ∈ r.1, Placed size st
  bounded : ∀ e, r.2 ≠ some (.error e)
  exactly : ∀ sck, r.2 = some (.ok (true, sck)) → ahead sck.src = t ∧ beyond sck.src = beyond src

/-- A header that has room in the array, or the beginning of which is a refusal. -/
def Sound (debug : Bool) (header : Str) : Prop :=
  header.length < 256 ∨ header.length = 256 ∧ ¬Clean header ∨
    256 < header.length ∧ Refused debug (header.take 256)

variable {sck : Sck}

theorem http_reads (debug : Bool) (host : Str) (port : UInt16) (h : Header header)
    (hahead : ahead sck.src = header ++ t) (hok : (ask sck.writes).1 = true) :
    ∃ stores sck', pxLogonHttp debug host port sck =
        (stores, some ((granted debug (padded (header.take 256))).map fun ok => (ok, sck'))) ∧
      (∀ st ∈ stores, Placed 256 st) ∧ ahead sck'.src = header.drop 256 ++ t ∧
      beyond sck'.src = beyond sck.src := by
  obtain ⟨stores, src', hr, hplaced, hahead', hbeyond⟩ :=
    @readHeader_reads header [] header t sck.src 256 h
    (List.nil_append header).symm (Nat.zero_le _) (Nat.le_refl _) hahead
  have hrun : readHeader 256 (List.replicate 256 0) 0 sck.src = _ := hr
  refine ⟨stores, ⟨src', (ask sck.writes).2, sck.sent ++ [connectLine host port]⟩, ?_, hplaced,
    hahead', hbeyond⟩
  rw [pxLogonHttp, write_done hok]
  dsimp only
  rw [hrun]
  simp only [Reads.bind, List.append_nil]

theorem padded_full (h : got.length = 256) : padded got = got := by
  rw [padded, h, Nat.sub_self, List.replicate_zero, List.append_nil]

/-- What the header must be like, in terms of what is found in the array. -/
theorem sound_iff (debug : Bool) (h : Header header) : Sound debug header ↔
    (∃ b, granted debug (padded (header.take 256)) = .ok b) ∧
      (granted debug (padded (header.take 256)) = .ok true → header.length ≤ 256) := by
  obtain hlt | heq | hgt := Nat.lt_trichotomy header.length 256
  · rw [List.take_of_length_le (Nat.le_of_lt hlt)]
    exact iff_of_true (Or.inl hlt) ⟨granted_padded debug hlt, fun _ => Nat.le_of_lt hlt⟩
  · rw [List.take_of_length_le (Nat.le_of_eq heq), padded_full heq, granted_header debug h.ends]
    refine ⟨fun hs => ⟨?_, fun _ => Nat.le_of_eq heq⟩, fun hs => Or.inr (Or.inl ⟨heq, hs.1⟩)⟩
    obtain hlt | ⟨_, hno⟩ | ⟨hgt, _⟩ := hs
    · omega
    · exact hno
    · omega
  · rw [padded_full (by rw [List.length_take]; omega)]
    constructor
    · intro hs
      obtain hlt | ⟨heq, _⟩ | ⟨_, href⟩ := hs
      · omega
      · omega
      · have hg := (refused_iff debug _).2 href
        exact ⟨⟨false, hg⟩, fun htrue => by rw [hg] at htrue; cases htrue⟩
    · rintro ⟨⟨b, hb⟩, htrue⟩
      cases b with
      | true => exact absurd (htrue hb) (by omega)
      | false => exact Or.inr (Or.inr ⟨hgt, (refused_iff debug _).1 hb⟩)

theorem http_unsent (debug : Bool) (host : Str) (port : UInt16) (hno : (ask sck.writes).1 = false) :
    Consumed 256 (pxLogonHttp debug host port sck) sck.src t := by
  rw [pxLogonHttp, write_failed hno]
  refine ⟨fun _ h => absurd h List.not_mem_nil, ?_, ?_⟩
  · intro e he
    cases he
  · intro sck he
    cases he

theorem http_sound (debug : Bool) (host : Str) (port : UInt16) (h : Header header)
    (hahead : ahead sck.src = header ++ t) (hok : (ask sck.writes).1 = true) :
    Consumed 256 (pxLogonHttp debug host port sck) sck.src t ↔ Sound debug header := by
  obtain ⟨stores, sck', hrun, hplaced, hahead', hbeyond⟩ := http_reads debug host port h hahead hok
  rw [hrun, sound_iff debug h]
  constructor
  · intro hc
    constructor
    · cases hg : granted debug (padded (header.take 256)) with
      | error e => exact absurd (by rw [hg]; rfl) (hc.bounded e)
      | ok b => exact ⟨b, rfl⟩
    · intro hg
      have ht := (hc.exactly sck' (by rw [hg]; rfl)).1
      rw [hahead'] at ht
      have hlen := congrArg List.length ht
      rw [List.length_append, List.length_drop] at hlen
      omega
  · rintro ⟨⟨b, hb⟩, htrue⟩
    rw [hb]
    refine ⟨hplaced, ?_, ?_⟩
    · intro e he
      cases he
    · intro sck he
      cases he
      rw [hahead', List.drop_eq_nil_of_le (htrue hb)]
      exact ⟨rfl, hbeyond⟩

/-- The response is consumed as it should be if its header has room or is seen to be a refusal. -/
theorem http_consumes (debug : Bool) (host : Str) (port : UInt16) (h : Header header)
    (hahead : ahead sck.src = header ++ t) :
      Consumed 256 (pxLogonHttp debug host port sck) sck.src t ↔
      ((ask sck.writes).1 = true → Sound debug header) := by
  cases hok : (ask sck.writes).1 with
  | false => exact iff_of_true (http_unsent debug host port hok) fun h => by cases h
  | true =>
    rw [http_sound debug host port h hahead hok]
    exact ⟨fun hs _ => hs, fun hs => hs rfl⟩

theorem header_line {s : Str} (h : 0x0d ∉ s) : Header (s ++ twoCrlf) := by
  refine ⟨List.suffix_append _ _, fun p hp hsuffix => hp.eq_of_length ?_⟩
  obtain ⟨q, rfl⟩ := hsuffix
  have hle := hp.length_le
  rw [List.length_append, List.length_append] at hle ⊢
  by_contra hne
  have hlt : q.length < s.length := by omega
  have hget : (q ++ twoCrlf)[q.length]? = (s ++ twoCrlf)[q.length]? := by
    obtain ⟨rest, he⟩ := hp
    rw [← he]
    exact (List.getElem?_append_left (by simp [twoCrlf])).symm
  rw [List.getElem?_append_right (Nat.le_refl _), Nat.sub_self,
    List.getElem?_append_left hlt] at hget
  exact h (List.mem_of_getElem? hget.symm)

def response (n : Nat) : Str := ascii "HTTP/1.0 200 " ++ List.replicate n 0x61

def tunnelling (n : Nat) : Sck := ⟨[.chunk 0x48 ((response n).tail ++ twoCrlf ++ [0x3a])], [], []⟩

theorem response_header (n : Nat) : Header (response n ++ twoCrlf) := by
  refine header_line fun h => ?_
  obtain h | h := List.mem_append.1 h
  · exact absurd h (by decide +kernel)
  · exact absurd (List.eq_of_mem_replicate h) (by decide)

theorem tunnelling_ahead (n : Nat) :
    ahead (tunnelling n).src = response n ++ twoCrlf ++ [0x3a] := by
  simp only [tunnelling, ahead, List.append_nil]
  rfl

theorem response_consumed :
    Consumed 256 (pxLogonHttp true (ascii "h") 6667 (tunnelling 5)) (tunnelling 5).src [0x3a] :=
  (@http_consumes (response 5 ++ twoCrlf) [0x3a] (tunnelling 5) true (ascii "h") 6667
    (response_header 5)
      (tunnelling_ahead 5)).2
    fun _ => Or.inl (by decide)

/-- Of a longer header the end is left to be read as a line of the IRC server. -/
theorem response_left :
    ¬Consumed 256 (pxLogonHttp true (ascii "h") 6667 (tunnelling 256)) (tunnelling 256).src
      [0x3a] := by
  intro hc
  have hs :=
    (http_sound true (ascii "h") 6667 (response_header 256) (tunnelling_ahead 256) rfl).1 hc
  have hlen : (response 256 ++ twoCrlf).length = 273 := by
    rw [response, List.length_append, List.length_append, List.length_replicate]
    rfl
  obtain hlt | ⟨heq, _⟩ | ⟨_, href⟩ := hs
  · omega
  · omega
  · have hg := (refused_iff true _).2 href
    have htrue : granted true ((response 256 ++ twoCrlf).take 256) = .ok true := by rfl
    rw [htrue] at hg
    cases hg

end Srsirc.HttpTunnel
