import Srsirc.SocksReplies

namespace Srsirc.ConnectReply

open CharMap Memory Message ReadBuffer BoundedStore Context Proxy ProxyReads SocksReplies

variable {k l c : Nat} {resp : Mem} {src src' : Source} {dns : Bool}

/-- Behind the first byte, the loop is like the others. -/
theorem readAddress_rest (hc : 0 < c) :
    readAddress dns k resp c l src = readReply 1 l k resp c src := by
  induction k generalizing c resp src with
  | zero => rfl
  | succ k ih =>
    have hne : c ≠ 0 := by omega
    have hstep : ∀ (mem : Mem) (s : Str) (src : Source),
        readAddress dns k mem (c + s.length) (if c = 0 ∧ dns then l + (mem.getD c 0).toNat
          else l) src =
          readReply 1 l k mem (c + s.length) src := by
      intro mem s src
      rw [if_neg fun h => hne h.1]
      exact ih (by omega)
    rw [readAddress, readReply, if_neg hne, Nat.one_mul]
    simp only [hstep]

def extent (dns : Bool) (l : Nat) (b : UInt8) : Nat := if dns then l + b.toNat else l

theorem fits_first (b : UInt8) (h : 0 < resp.length) : 0 + [b].length ≤ resp.length := by
  rw [List.length_singleton]
  omega

theorem readAddress_first {b : UInt8} {t : Str} (h : ahead src = b :: t) (hl : 0 < l)
    (hsize : 0 < resp.length) :
    ∃ src', ahead src' = t ∧ beyond src' = beyond src ∧ readAddress dns (k + 1) resp 0 l src =
      Reads.bind ([⟨0, 0, [b]⟩], some (.ok (overwrite resp 0 [b]))) fun resp =>
        readReply 1 (extent dns l b) k resp 1 src' := by
  obtain ⟨s, src', hr, hpos, hle, hahead, hbeyond⟩ :=
    read_some (h ▸ List.cons_ne_nil b t) (Nat.lt_succ_self 0)
  obtain ⟨b', rfl⟩ := List.length_eq_one_iff.1 (Nat.le_antisymm hle hpos)
  rw [h] at hahead
  obtain ⟨rfl, ht⟩ := List.cons.inj hahead
  refine ⟨src', ht.symm, hbeyond, ?_⟩
  have hget : (overwrite resp 0 [b]).getD 0 0 = b :=
    getD_overwrite (s := [b]) (Nat.lt_succ_self 0) 0
  rw [readAddress, if_pos hl, if_pos rfl, hr]
  dsimp only
  rw [if_neg (by simp), store_ok (fits_first b hsize), bind_stored, bind_stored, hget,
    readAddress_rest (by simp)]
  simp only [true_and, extent, List.length_singleton, Nat.zero_add]

theorem readAddress_nothing (h : ahead src = []) (hl : 0 < l) :
    readAddress dns (k + 1) resp 0 l src = ([], cut (beyond src)) := by
  rw [readAddress, if_pos hl]
  obtain ⟨hb, hr⟩ | ⟨a, src', n, hb, hr, hn⟩ := read_nothing h (if (0 : Nat) = 0 then 1 else l - 0)
  · rw [hb, hr]
    rfl
  · rw [hb, hr]
    exact if_pos hn

theorem extent_le (dns : Bool) (l : Nat) (b : UInt8) : extent dns l b ≤ l + 255 := by
  have := b.toNat_lt
  rw [extent]
  split <;> omega

theorem le_extent (dns : Bool) (l : Nat) (b : UInt8) : l ≤ extent dns l b := by
  rw [extent]
  split <;> omega

/-- What arrives of an address has room. -/
def Fits (size : Nat) (dns : Bool) (l : Nat) : Str → Prop
  | [] => True
  | b :: t => min (extent dns l b) (t.length + 1) ≤ size

theorem readAddress_placed (hl : 0 < l) (hk : l + 255 ≤ k + 1) (hsize : 0 < resp.length) :
    (∀ st ∈ (readAddress dns (k + 1) resp 0 l src).1, Placed resp.length st) ↔
      Fits resp.length dns l (ahead src) := by
  cases h : ahead src with
  | nil =>
    rw [readAddress_nothing h hl]
    exact iff_of_true (fun _ hst => absurd hst List.not_mem_nil) trivial
  | cons b t =>
    obtain ⟨src', ht, _, hr⟩ := @readAddress_first k l resp src dns b t h hl hsize
    have hle := extent_le dns l b
    have hge := le_extent dns l b
    have hlen : (overwrite resp 0 [b]).length = resp.length := length_overwrite (fits_first b hsize)
    have hrest :=
      @readReply_placed k (extent dns l b) 1 (overwrite resp 0 [b]) src' (by omega) (by omega)
      (by rw [hlen]; exact hsize)
    rw [hlen, ht] at hrest
    rw [hr, bind_stored, List.forall_mem_cons, hrest, Fits]
    refine ⟨fun h => by omega, fun h => ⟨⟨rfl, hsize⟩, by omega⟩⟩

theorem readAddress_agree (hs : Same src src') (hl : 0 < l) (hk : l + 255 ≤ k + 1)
    (hsize : 0 < resp.length) :
    Agree Alike (readAddress dns (k + 1) resp 0 l src).2
      (readAddress dns (k + 1) resp 0 l src').2 := by
  obtain ⟨ha, hb⟩ := hs
  cases h : ahead src with
  | nil =>
    rw [readAddress_nothing h hl, readAddress_nothing (ha ▸ h) hl, hb]
    exact agree_cut _
  | cons b t =>
    obtain ⟨src₁, ht, hb₁, hr⟩ := @readAddress_first k l resp src dns b t h hl hsize
    obtain ⟨src₁', ht', hb₁', hr'⟩ := @readAddress_first k l resp src' dns b t (ha ▸ h) hl hsize
    have hle := extent_le dns l b
    have hge := le_extent dns l b
    rw [hr, hr', bind_stored, bind_stored]
    refine readReply_agree ⟨ht.trans ht'.symm, hb₁.trans (hb.trans hb₁'.symm)⟩ (by omega)
      (by omega) ?_
    rw [length_overwrite (fits_first b hsize)]
    exact hsize

def behindHead (ver rep atyp : UInt8) (resp : Mem) (src : Source) : Reads (Bool × Source) :=
  if ver ≠ 5 ∨ rep ≠ 0 then done (false, src)
  else
    match addressLength atyp with
    | none => done (false, src)
    | some l =>
      (readAddress (atyp == 3) (l + 2 + 255) resp 0 (l + 2) src).bind fun r =>
        done (r.1.isSome, r.2)

theorem readConnectReply_head {ver rep rsv atyp : UInt8} {t : Str}
    (h : ahead src = ver :: rep :: rsv :: atyp :: t)
    (hsize : 4 ≤ resp.length) : ∃ stores resp' src', (∀ st ∈ stores, Placed resp.length st) ∧
      stores.flatMap Stored.bytes = [ver, rep, rsv, atyp] ∧ resp'.length = resp.length ∧
      ahead src' = t ∧ beyond src' = beyond src ∧
      readConnectReply resp src = Reads.bind (stores, some (.ok ())) fun _ =>
        behindHead ver rep atyp resp' src' := by
  obtain ⟨stores, src', hr, hplaced, hbytes, hahead, hbeyond⟩ :=
    @readReply_whole 4 4 0 resp src (by omega)
    (by omega) (by rw [h]; simp) hsize
  have htake : (ahead src).take (4 - 0) = [ver, rep, rsv, atyp] := by rw [h]; rfl
  rw [htake] at hr hbytes
  refine ⟨stores, overwrite resp 0 [ver, rep, rsv, atyp], src', hplaced, hbytes,
    length_overwrite (by simpa using hsize), by rw [hahead, h]; rfl, hbeyond, ?_⟩
  have hget :
      ∀ i < 4, (overwrite resp 0 [ver, rep, rsv, atyp]).getD i 0 = [ver, rep, rsv, atyp].getD i 0 :=
    fun i hi => getD_overwrite (s := [ver, rep, rsv, atyp]) hi 0
  rw [readConnectReply, hr]
  simp only [Reads.bind, hget 0 (by omega), hget 1 (by omega), hget 3 (by omega), behindHead]
  rfl

theorem readConnectReply_short (h : (ahead src).length < 4) (hsize : 4 ≤ resp.length) :
    ∀ st ∈ (readConnectReply resp src).1, Placed resp.length st := by
  obtain ⟨stores, hr, hplaced⟩ := @readReply_short 4 4 0 resp src (by omega) (by omega) (by omega)
  rw [readConnectReply, hr]
  refine stores_bind hplaced fun a ha => ?_
  cases hb : beyond src with
  | nil =>
    rw [hb] at ha
    cases ha
  | cons x src' =>
    rw [hb] at ha
    cases ha
    exact fun _ hst => absurd hst List.not_mem_nil

/-- The domain name that a proxy tells as the address is short, as far as it arrives. -/
def Narrow (t : Str) : Prop :=
  ∀ rsv n rest, t = 5 :: 0 :: rsv :: 3 :: n :: rest → min (n.toNat + 3) (rest.length + 1) ≤ 128

theorem addressLength_le {atyp : UInt8} {l : Nat} (h : addressLength atyp = some l) : l ≤ 16 := by
  unfold addressLength at h
  split at h <;> cases h <;> omega

theorem behindHead_placed {ver rep atyp : UInt8} (hsize : resp.length = 128) (rsv : UInt8) :
    (∀ st ∈ (behindHead ver rep atyp resp src).1, Placed 128 st) ↔
      Narrow (ver :: rep :: rsv :: atyp :: ahead src) := by
  rw [behindHead]
  split
  · next hno =>
    refine iff_of_true (fun _ hst => absurd hst List.not_mem_nil) fun rsv' n rest he => ?_
    obtain ⟨rfl, rfl, _⟩ := by simpa only [List.cons.injEq] using he
    exact absurd hno (by simp)
  next hyes =>
  obtain ⟨rfl, rfl⟩ : ver = 5 ∧ rep = 0 := by simpa using hyes
  cases hl : addressLength atyp with
  | none =>
    refine iff_of_true (fun _ hst => absurd hst List.not_mem_nil) fun rsv' n rest he => ?_
    obtain ⟨_, _, _, rfl, _⟩ := by simpa only [List.cons.injEq] using he
    cases hl
  | some l =>
    have hle := addressLength_le hl
    have hp := @readAddress_placed (l + 2 + 254) (l + 2) resp src (atyp == 3) (by omega)
      (by omega) (by omega)
    have hdone : (∀ st ∈ ((readAddress (atyp == 3) (l + 2 + 255) resp 0 (l + 2) src).bind fun r =>
        done (r.1.isSome, r.2)).1, Placed 128 st) ↔
          ∀ st ∈ (readAddress (atyp == 3) (l + 2 + 255) resp 0 (l + 2) src).1, Placed 128 st :=
      ⟨fun h => (stores_of_bind h).1, fun h => stores_bind h fun _ _ _ hst =>
        absurd hst List.not_mem_nil⟩
    rw [hsize] at hp
    rw [hdone, hp]
    by_cases hdns : atyp = 3
    · obtain rfl := hdns
      cases hl
      constructor
      · intro hfit rsv' n rest he
        obtain ⟨_, _, _, _, ht⟩ := by simpa only [List.cons.injEq] using he
        rw [ht] at hfit
        have hfit : min (1 + 2 + n.toNat) (rest.length + 1) ≤ 128 := hfit
        omega
      · intro hn
        cases ha : ahead src with
        | nil => exact trivial
        | cons n rest =>
          have := hn rsv n rest (by rw [ha])
          have hgoal : min (1 + 2 + n.toNat) (rest.length + 1) ≤ 128 := by omega
          exact hgoal
    · refine iff_of_true ?_ fun rsv' n rest he => ?_
      · cases ahead src with
        | nil => exact trivial
        | cons n rest =>
          have hext : extent (atyp == 3) (l + 2) n = l + 2 := by
            rw [extent, beq_eq_false_iff_ne.2 hdns]
            rfl
          rw [Fits, hext]
          omega
      · obtain ⟨_, _, _, rfl, _⟩ := by simpa only [List.cons.injEq] using he
        exact absurd rfl hdns

theorem readConnectReply_placed (hsize : resp.length = 128) :
    (∀ st ∈ (readConnectReply resp src).1, Placed 128 st) ↔ Narrow (ahead src) := by
  by_cases hlen : (ahead src).length < 4
  · refine iff_of_true (hsize ▸ readConnectReply_short hlen (by omega)) fun rsv n rest he => ?_
    rw [he] at hlen
    simp at hlen
    omega
  · obtain ⟨ver, rep, rsv, atyp, t, ht⟩ :
      ∃ ver rep rsv atyp t, ahead src = ver :: rep :: rsv :: atyp :: t := by
      match ahead src, hlen with
      | _ :: _ :: _ :: _ :: _, _ => exact ⟨_, _, _, _, _, rfl⟩
      | [], h | [_], h | [_, _], h | [_, _, _], h => simp at h
    obtain ⟨stores, resp', src', hplaced, _, hlen', hahead, _, hr⟩ :=
      readConnectReply_head ht (show 4 ≤ resp.length by omega)
    have hrest := @behindHead_placed resp' src' ver rep atyp (by omega) rsv
    rw [hsize] at hplaced
    rw [hr, ht, ← hahead, ← hrest]
    exact ⟨fun h => (stores_of_bind h).2 () rfl, fun h => stores_bind hplaced fun _ _ => h⟩

theorem readConnectReply_agree (hs : Same src src') (hsize : 4 ≤ resp.length) :
    Agree Alike (readConnectReply resp src).2 (readConnectReply resp src').2 := by
  refine (readReply_agree hs (by omega) (by omega) (by omega)).bind ?_
  rintro ⟨r, src₁⟩ ⟨r', src₁'⟩ hr ⟨heq, hs⟩
  dsimp only at heq hs
  subst heq
  cases r with
  | none => exact .ok ⟨rfl, hs⟩
  | some resp' =>
    have hlen := length_readReply hr
    dsimp only
    split
    · exact .ok ⟨rfl, hs⟩
    · split
      · exact .ok ⟨rfl, hs⟩
      · next l _ =>
        refine (readAddress_agree (k := l + 2 + 254) hs (by omega) (by omega) (by omega)).bind ?_
        rintro ⟨r, src₂⟩ ⟨r', src₂'⟩ _ ⟨heq, hs⟩
        dsimp only at heq hs
        subst heq
        exact .ok ⟨rfl, hs⟩

end Srsirc.ConnectReply
