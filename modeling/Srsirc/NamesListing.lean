import Srsirc.NamesReply
import Srsirc.TokenGrammar

namespace Srsirc.NamesListing

open CharMap Memory Message NamesReply ServerInfo TokenGrammar
open UserBase (MAX_NICK_LEN)

/-- One item of a listing: its symbol, if any, its nick, and how many spaces follow. -/
structure Item where
  sym : Option UInt8
  nick : Str
  gap : Nat

def Item.text (i : Item) : Str := i.sym.toList ++ i.nick

def Item.entry (i : Item) : Str × Str := (i.nick, i.sym.toList)

/-- The text of a listing that has `lead` spaces in front. -/
def listing (lead : Nat) : List Item → Str
  | [] => List.replicate lead 0x20
  | i :: is => List.replicate lead 0x20 ++ (i.text ++ listing i.gap is)

/-- An item whose symbol is among `pfx`, with a nick that fits. -/
structure Item.WellFormed (pfx : Str) (i : Item) : Prop where
  sym : ∀ c ∈ i.sym, c ∈ pfx ∧ c ≠ 0
  nonempty : i.nick ≠ []
  short : i.nick.length < MAX_NICK_LEN
  nonspace : 0x20 ∉ i.nick
  nonzero : 0 ∉ i.nick

/-- Well-formed items, with spaces between any two of them. -/
def WellFormed (pfx : Str) : List Item → Prop
  | [] => True
  | i :: is => i.WellFormed pfx ∧ (is ≠ [] → 0 < i.gap) ∧ WellFormed pfx is

/-- An item whose nick cannot be taken for one with a symbol in front. -/
def Item.Plain (pfx : Str) (i : Item) : Prop := i.sym = none → i.nick.headD 0 ∉ pfx

/-- At least one item, one space between any two of them and none around them, and no nick
without a symbol starts with one. -/
def Tidy (pfx : Str) (lead : Nat) : List Item → Prop
  | [] => False
  | [i] => lead = 0 ∧ i.Plain pfx ∧ i.gap = 0
  | i :: j :: is => lead = 0 ∧ i.Plain pfx ∧ i.gap = 1 ∧ Tidy pfx 0 (j :: is)

/-- A nick without either of the bytes that what follows a nick begins with. -/
def Item.Whole (i : Item) : Prop := 0x21 ∉ i.nick ∧ 0x40 ∉ i.nick

def cursors (info : Info) (mem : Mem) : Nat → Nat → List Nat
  | 0, _ => []
  | k + 1, p =>
    let q := if (strchr info.m005modepfx.2 (mem.getD p 0)).isSome then p + 1 else p
    let len := (cstr mem q).idxOf 0x20
    p :: q :: if mem.getD (q + len) 0 = 0 then [] else cursors info mem k (q + len + 1)

variable {info : Info} {mem : Mem} {p k : Nat}

theorem getD_nil (h : cstr mem p = []) : mem.getD p 0 = 0 := by
  rw [cstr] at h
  rw [List.getD_eq_getElem?_getD, ← Nat.add_zero p, ← List.getElem?_drop]
  cases hd : mem.drop p with
  | nil => rfl
  | cons c t =>
    rw [hd] at h
    by_contra hne
    rw [List.takeWhile_cons_of_pos (by simpa using hne)] at h
    cases h

theorem getD_cons {c : UInt8} {t : Str} (h : cstr mem p = c :: t) :
    mem.getD p 0 = c ∧ c ≠ 0 ∧ cstr mem (p + 1) = t := by
  rw [cstr] at h
  rw [List.getD_eq_getElem?_getD, ← Nat.add_zero p, ← List.getElem?_drop, cstr, Nat.add_zero,
    ← List.drop_drop]
  cases hd : mem.drop p with
  | nil =>
    rw [hd] at h
    cases h
  | cons d s =>
    rw [hd] at h
    by_cases hne : d = 0
    · rw [hne, List.takeWhile_cons_of_neg (by simp)] at h
      cases h
    · rw [List.takeWhile_cons_of_pos (by simpa using hne)] at h
      obtain ⟨rfl, rfl⟩ := List.cons.inj h
      exact ⟨rfl, hne, rfl⟩

theorem cstr_append {s t : Str} (h : cstr mem p = s ++ t) : cstr mem (p + s.length) = t := by
  induction s generalizing p with
  | nil => exact h
  | cons c s ih =>
    obtain ⟨_, _, hnext⟩ := getD_cons h
    have hs := ih hnext
    rwa [Nat.add_assoc, Nat.add_comm 1] at hs

def Ends (rest : Str) : Prop := ∀ c ∈ rest.head?, c = 0x20

theorem idxOf_word {w rest : Str} (hw : 0x20 ∉ w) (hr : Ends rest) :
    (w ++ rest).idxOf 0x20 = w.length := by
  rw [List.idxOf_append_of_notMem hw]
  cases rest with
  | nil => rfl
  | cons c t =>
    rw [hr c (by simp), List.idxOf_cons_self]
    rfl

structure Marked (pfx : Str) (sym : Option UInt8) (w rest : Str) : Prop where
  symbol : ∀ c ∈ sym, c ∈ pfx ∧ c ≠ 0
  plain : sym = none → ∃ c ∈ (w ++ rest).head?, c ∉ pfx ∧ c ≠ 0
  nonspace : 0x20 ∉ w
  ends : Ends rest

theorem skip_sym {sym : Option UInt8} {w rest : Str} (hm : Marked info.m005modepfx.2 sym w rest)
    (h : cstr mem p = sym.toList ++ (w ++ rest)) :
    (if (strchr info.m005modepfx.2 (mem.getD p 0)).isSome = true then p + 1 else p) =
        p + sym.toList.length ∧
      (if (strchr info.m005modepfx.2 (mem.getD p 0)).isSome = true ∧ mem.getD p 0 ≠ 0 then
        [mem.getD p 0] else []) = sym.toList := by
  cases sym with
  | some c =>
    obtain ⟨hget, hne, _⟩ := getD_cons h
    obtain ⟨hc, _⟩ := hm.symbol c rfl
    have his := (isSome_strchr hne).2 hc
    rw [hget, if_pos his, if_pos ⟨his, hne⟩]
    exact ⟨rfl, rfl⟩
  | none =>
    obtain ⟨c, hc, hnot, hne⟩ := hm.plain rfl
    obtain ⟨t, ht⟩ := List.head?_eq_some_iff.1 hc
    rw [Option.toList_none, List.nil_append, ht] at h
    obtain ⟨hget, _, _⟩ := getD_cons h
    have his : ¬(strchr info.m005modepfx.2 c).isSome = true :=
      fun hs => hnot ((isSome_strchr hne).1 hs)
    rw [hget, if_neg his, if_neg fun hs => his hs.1]
    exact ⟨rfl, rfl⟩

/-- One round of the loop. -/
theorem names_word {sym : Option UInt8} {w rest : Str} (hm : Marked info.m005modepfx.2 sym w rest)
    (h : cstr mem p = sym.toList ++ (w ++ rest)) :
    names info mem (k + 1) p = (w.take (MAX_NICK_LEN - 1), sym.toList) ::
        (if rest = [] then [] else names info mem k (p + sym.toList.length + w.length + 1)) ∧
      cursors info mem (k + 1) p = p :: (p + sym.toList.length) ::
        (if rest = [] then [] else cursors info mem k (p + sym.toList.length + w.length + 1)) := by
  obtain ⟨hskip, hmpfx⟩ := skip_sym hm h
  have hq := cstr_append h
  have hlen := idxOf_word hm.nonspace hm.ends
  have hend : mem.getD (p + sym.toList.length + w.length) 0 = 0 ↔ rest = [] := by
    have hr := cstr_append hq
    cases rest with
    | nil => exact iff_of_true (getD_nil hr) rfl
    | cons c t =>
      obtain ⟨hget, hne, _⟩ := getD_cons hr
      rw [hget]
      exact iff_of_false hne (by simp)
  have htake : (w ++ rest).take (min w.length (MAX_NICK_LEN - 1)) = w.take (MAX_NICK_LEN - 1) := by
    rw [List.take_append_of_le_length (Nat.min_le_left _ _), ← List.take_take,
      List.take_of_length_le (by simp)]
  constructor
  · rw [names]
    simp only [hskip, hq, hlen, hend]
    simp only [hmpfx, htake]
  · rw [cursors]
    simp only [hskip, hq, hlen, hend]

variable {pfx : Str} {i : Item} {is : List Item}

theorem listing_succ (n : Nat) : listing (n + 1) is = 0x20 :: listing n is := by
  cases is <;> rfl

theorem listing_zero : listing 0 (i :: is) = i.sym.toList ++ (i.nick ++ listing i.gap is) := by
  rw [listing, Item.text, List.append_assoc]
  rfl

theorem listing_ends (h : WellFormed pfx (i :: is)) : Ends (listing i.gap is) := by
  intro c hc
  cases hg : i.gap with
  | zero =>
    obtain ⟨_, hsep, _⟩ := h
    cases is with
    | nil =>
      rw [hg] at hc
      cases hc
    | cons => exact absurd (hsep (by simp)) (by omega)
  | succ n =>
    rw [hg, listing_succ] at hc
    exact (Option.some.inj hc).symm

theorem marked_item (h : WellFormed pfx (i :: is)) (hp : i.Plain pfx) :
    Marked pfx i.sym i.nick (listing i.gap is) := by
  have hi := h.1
  refine ⟨hi.sym, ?_, hi.nonspace, listing_ends h⟩
  intro hs
  obtain ⟨c, t, hn⟩ := List.exists_cons_of_ne_nil hi.nonempty
  have hnot := hp hs
  have hzero := hi.nonzero
  rw [hn] at hnot hzero ⊢
  exact ⟨c, rfl, hnot, fun hc => hzero (hc ▸ List.mem_cons_self)⟩

theorem names_space {t : Str} (h : cstr mem p = 0x20 :: t)
    (ht : 0x20 ∈ info.m005modepfx.2 → t.head? = some 0x20) :
    (names info mem (k + 1) p).head?.map Prod.fst = some [] := by
  by_cases hsp : 0x20 ∈ info.m005modepfx.2
  · obtain ⟨t, rfl⟩ := List.head?_eq_some_iff.1 (ht hsp)
    have hm : Marked info.m005modepfx.2 (some 0x20) [] (0x20 :: t) :=
      ⟨fun c hc => Option.some.inj hc ▸ ⟨hsp, by decide⟩, by simp, by simp,
        fun c hc => (Option.some.inj hc).symm⟩
    rw [(names_word hm h).1]
    rfl
  · have hm : Marked info.m005modepfx.2 none [] (0x20 :: t) :=
      ⟨by simp, fun _ => ⟨0x20, rfl, hsp, by decide⟩,
        by simp, fun c hc => (Option.some.inj hc).symm⟩
    rw [(names_word hm h).1]
    rfl

theorem names_head {c : UInt8} {t : Str} (h : cstr mem p = c :: t) :
    (names info mem (k + 1) p).head?.map Prod.snd =
      some (if c ∈ info.m005modepfx.2 then [c] else []) := by
  obtain ⟨hget, hne, _⟩ := getD_cons h
  simp only [names, hget, ne_eq, hne, not_false_eq_true, and_true, isSome_strchr hne,
    List.head?_cons,
    Option.map_some]

theorem names_ne_nil : names info mem (k + 1) p ≠ [] := by
  rw [names]
  simp

theorem tidy_cons (h : WellFormed pfx (i :: is)) {lead : Nat} :
    Tidy pfx lead (i :: is) ↔
      lead = 0 ∧ i.Plain pfx ∧ (i.gap = 0 ∨ 0 < i.gap ∧ Tidy pfx (i.gap - 1) is) := by
  cases is with
  | nil => simp [Tidy]
  | cons j is =>
    obtain ⟨_, hsep, _⟩ := h
    have hpos := hsep (by simp)
    rw [Tidy]
    constructor
    · rintro ⟨hl, hp, hg, ht⟩
      refine ⟨hl, hp, Or.inr ⟨hpos, ?_⟩⟩
      rwa [hg]
    · rintro ⟨hl, hp, hg | ⟨_, ht⟩⟩
      · omega
      · have hone : i.gap - 1 = 0 := by
          cases is with
          | nil => exact ht.1
          | cons => exact ht.1
        rw [hone] at ht
        exact ⟨hl, hp, by omega, ht⟩

variable {f : Str → Str}

theorem head_listed (h : (names info mem k p).map (Prod.map f id) = (i :: is).map Item.entry) :
    ((names info mem k p).head?.map Prod.fst).map f = some i.nick ∧
      (names info mem k p).head?.map Prod.snd = some i.sym.toList := by
  cases hn : names info mem k p with
  | nil =>
    rw [hn] at h
    cases h
  | cons n ns =>
    rw [hn] at h
    obtain ⟨hhead, _⟩ := List.cons.inj h
    obtain ⟨hnick, hsym⟩ := Prod.mk.inj hhead
    exact ⟨congrArg some hnick, congrArg some hsym⟩

theorem names_lead {lead : Nat} (hf : f [] = []) (hi : i.nick ≠ [])
    (hp : cstr mem p = listing (lead + 1) (i :: is)) :
    (names info mem (k + 1) p).map (Prod.map f id) ≠ (i :: is).map Item.entry := by
  intro hn
  obtain ⟨hnick, hsym⟩ := head_listed hn
  rw [listing_succ] at hp
  rw [names_space hp, Option.map_some, hf] at hnick
  · exact hi (Option.some.inj hnick).symm
  · intro hsp
    rw [names_head hp, if_pos hsp] at hsym
    cases lead with
    | zero =>
      rw [listing_zero, ← Option.some.inj hsym]
      rfl
    | succ n =>
      rw [listing_succ]
      rfl

theorem names_misread (hp : cstr mem p = listing 0 (i :: is)) (hi : i.nick ≠ [])
    (hmis : ¬i.Plain info.m005modepfx.2) :
    (names info mem (k + 1) p).map (Prod.map f id) ≠ (i :: is).map Item.entry := by
  intro hn
  obtain ⟨_, hsym⟩ := head_listed hn
  simp only [Item.Plain, Classical.not_imp, not_not] at hmis
  obtain ⟨hnone, hmem⟩ := hmis
  obtain ⟨c, t, hc⟩ := List.exists_cons_of_ne_nil hi
  rw [listing_zero, hnone, hc] at hp
  rw [hc, List.headD_cons] at hmem
  rw [names_head hp, if_pos hmem, hnone] at hsym
  cases hsym

theorem cstr_next {n : Nat} (hp : cstr mem p = listing 0 (i :: is)) (hg : i.gap = n + 1) :
    cstr mem (p + i.sym.toList.length + i.nick.length + 1) = listing n is := by
  rw [listing_zero, hg, listing_succ] at hp
  obtain ⟨_, _, hnext⟩ := getD_cons (cstr_append (cstr_append hp))
  exact hnext

/-- What is made of the names that the loop reads is what is listed if, and only if, the
listing is tidy and each nick in it is left as it is. -/
theorem map_names_iff (hf : f [] = []) {lead : Nat} (h : WellFormed info.m005modepfx.2 is)
    (hp : cstr mem p = listing lead is) (hk : (listing lead is).length < k) :
    (names info mem k p).map (Prod.map f id) = is.map Item.entry ↔
      Tidy info.m005modepfx.2 lead is ∧ ∀ i ∈ is, f i.nick = i.nick := by
  obtain ⟨k, rfl⟩ := Nat.exists_eq_succ_of_ne_zero (Nat.ne_zero_of_lt hk)
  induction is generalizing lead p k with
  | nil => exact iff_of_false (fun h => names_ne_nil (List.map_eq_nil_iff.1 h)) fun h => h.1
  | cons i is ih =>
    have hi := h.1
    rw [tidy_cons h, List.forall_mem_cons]
    cases lead with
    | succ n => exact iff_of_false (names_lead hf hi.nonempty hp) (by simp)
    | zero =>
      by_cases hplain : i.Plain info.m005modepfx.2
      · have hword := (names_word (k := k) (marked_item h hplain) (by rw [hp, listing_zero])).1
        have htake : i.nick.take (MAX_NICK_LEN - 1) = i.nick :=
          List.take_of_length_le (Nat.le_pred_of_lt hi.short)
        have hcons : (names info mem (k + 1) p).map (Prod.map f id) = (i :: is).map Item.entry ↔
            f i.nick = i.nick ∧ (if listing i.gap is = [] then []
              else names info mem k (p + i.sym.toList.length + i.nick.length + 1)).map
                (Prod.map f id) = is.map Item.entry := by
          rw [hword, htake, List.map_cons, List.map_cons, List.cons.injEq, Item.entry, Prod.map,
            Prod.mk.injEq]
          exact and_congr_left fun _ => and_iff_left rfl
        rw [hcons]
        cases hg : i.gap with
        | zero =>
          have hnil : is = [] := by
            by_contra hne
            have := h.2.1 hne
            omega
          simp [hnil, listing, hplain]
        | succ n =>
          have hlen : (listing 0 (i :: is)).length =
              i.sym.toList.length + (i.nick.length + ((listing n is).length + 1)) := by
            rw [listing_zero, hg, listing_succ]
            simp
          have hpos := List.length_pos_of_ne_nil hi.nonempty
          have hsplit : (names info mem k
              (p + i.sym.toList.length + i.nick.length + 1)).map (Prod.map f id) =
              is.map Item.entry ↔
                Tidy info.m005modepfx.2 n is ∧ ∀ i ∈ is, f i.nick = i.nick := by
            obtain ⟨k, rfl⟩ := Nat.exists_eq_succ_of_ne_zero (show k ≠ 0 by omega)
            exact ih h.2.2 (cstr_next hp hg) k (by omega)
          rw [listing_succ, if_neg (by simp), hsplit]
          simp only [hplain, Nat.succ_ne_zero, Nat.zero_lt_succ, Nat.add_sub_cancel, true_and,
            false_or]
          exact and_left_comm
      · exact iff_of_false (names_misread hp hi.nonempty hplain) fun ht => hplain ht.1.2.1

theorem cursors_tidy {lead : Nat} (h : WellFormed info.m005modepfx.2 is)
    (hp : cstr mem p = listing lead is) (ht : Tidy info.m005modepfx.2 lead is) :
    ∀ q ∈ cursors info mem k p, q ≤ p + (listing lead is).length := by
  induction is generalizing lead p k with
  | nil => exact ht.elim
  | cons i is ih =>
    obtain ⟨rfl, hplain, hgap⟩ := (tidy_cons h).1 ht
    cases k with
    | zero => exact fun _ hq => absurd hq List.not_mem_nil
    | succ k =>
      have hlen : (listing 0 (i :: is)).length =
          i.sym.toList.length + (i.nick.length + (listing i.gap is).length) := by
        rw [listing_zero]
        simp
      rw [(names_word (marked_item h hplain) (by rw [hp, listing_zero])).2]
      intro q hq
      obtain rfl | rfl | hq := by simpa only [List.mem_cons] using hq
      · exact Nat.le_add_right _ _
      · omega
      · obtain hzero | ⟨hpos, htail⟩ := hgap
        · split at hq
          · cases hq
          · next hne =>
            have hnil : is = [] := by
              by_contra hne
              have := h.2.1 hne
              omega
            rw [hnil, hzero] at hne
            exact absurd rfl hne
        · obtain ⟨n, hn⟩ := Nat.exists_eq_succ_of_ne_zero hpos.ne'
          rw [hn, listing_succ, if_neg (by simp)] at hq
          rw [hn] at htail
          have hle := ih h.2.2 (cstr_next hp hn) htail q hq
          rw [hn, listing_succ, List.length_cons] at hlen
          omega

end Srsirc.NamesListing
