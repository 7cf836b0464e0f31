import Srsirc.NamesListing
import Srsirc.TrackSafety

namespace Srsirc.NamesEntered

open CharMap Dictionary Fallible HeapCells Members MemberOps Memory Message NamesReply NamesListing
open RefCount ServerInfo Tally Track TrackSafety UserBase UserLifetime

variable {cm : CMap} {b : Base}

/-- The user found by `nick`, at `p`, is a member of the channel at `c` now. -/
structure Joined (cm : CMap) (c : Ptr) (nick mpfx : Str) (p : Ptr) (b b' : Base) : Prop where
  chans : b'.chans.lookup = b.chans.lookup
  name : nameAt b' = nameAt b
  endofnames : b'.endofnames = b.endofnames
  users : b'.users.lookup = Function.update b.users.lookup (norm cm nick) (some p)
  same : ∀ q, b.users.lookup (norm cm nick) = some q → q = p ∧ nickAt b' = nickAt b
  fresh : b.users.lookup (norm cm nick) = none →
    nickAt b' = Function.update (nickAt b) p (some (ident2nick MAX_NICK_LEN nick))
  memb : membAt b' = Function.update (membAt b) c (Function.update (membAt b c) (norm cm nick)
    (some ⟨p, strNcpy mpfx MAX_MODEPFX⟩))

theorem norm_short {nick : Str} (h : nick.length < MAX_NICK_LEN) :
    norm cm (ident2nick MAX_NICK_LEN nick) = norm cm nick := by
  rw [norm_ident2nick, List.take_of_length_le]
  exact (norm_length_le cm nick).trans (Nat.le_pred_of_lt h)

/-- Somebody whose key is not cut short by the room for the nick becomes a member. -/
theorem nameOf353_keyed (h : Safe cm b) {c : Ptr} (hc : c ∈ b.chans.vals) {nick : Str}
    (hkey : norm cm (ident2nick MAX_NICK_LEN nick) = norm cm nick) (mpfx : Str) :
    Returns (nameOf353 b c nick mpfx) fun r =>
      r.1 = true ∧ Safe cm r.2 ∧ ∃ p, Joined cm c nick mpfx p b r.2 := by
  rw [nameOf353, getUser_eq h]
  cases hl : b.users.lookup (norm cm nick) with
  | some p =>
    obtain ⟨u, hu, hukey⟩ := h.counted.roster.found _ p hl
    refine (@addMemb_ok _ _ _ h _ _ _ hc hu mpfx (fun _ => False) fun _ hq => hq.elim).mono ?_
    rintro r ⟨hr, hi, hch, hnick, husers⟩
    refine ⟨hr, hi, p, hch.chans, hch.name, hch.endofnames, ?_, ?_, ?_, ?_⟩
    · rw [husers, eq_comm, Function.update_eq_self_iff, hl]
    · intro q hq
      exact ⟨Option.some.inj (hq.symm.trans hl), hnick⟩
    · intro hnone
      rw [hl] at hnone
      cases hnone
    · rw [hch.memb, hukey]
  | none =>
    refine (addUser_ok h.counted nick (not_filed_next h) fun _ hq => hq.elim).bind ?_
    rintro ⟨added, b₁⟩ ⟨rfl, hcount, hchans, hheap, heon, hnick, hlook, u, hu, hunick, _⟩
    rw [hkey] at hlook
    dsimp only at hcount hchans hheap heon hnick hlook hu ⊢
    have h₁ : Safe cm b₁ := h.users hchans hheap hcount
    have hukey : norm cm u.nick = norm cm nick := by rw [hunick, hkey]
    have hmemb : membAt b₁ = membAt b := by
      ext1 d
      rw [membAt, membAt, hheap]
    refine (@addMemb_ok _ _ _ h₁ _ _ _ (hchans ▸ hc) hu mpfx (fun _ => False) fun _ hq =>
      hq.elim).bind ?_
    rintro ⟨ok, b₂⟩ ⟨rfl, hi, hch, hnick₂, husers⟩
    refine Returns.ok ⟨rfl, hi, b.userHeap.next, ?_, ?_, hch.endofnames.trans heon, ?_, ?_, ?_, ?_⟩
    · rw [hch.chans, hchans]
    · rw [hch.name]
      ext1 d
      rw [nameAt, nameAt, hheap]
    · rw [← hlook]
      exact congrArg Dict.lookup husers
    · intro q hq
      rw [hl] at hq
      cases hq
    · intro _
      exact hnick₂.trans hnick
    · rw [hch.memb, hmemb, hukey]

theorem nameOf353_joined (h : Safe cm b) {c : Ptr} (hc : c ∈ b.chans.vals) {nick : Str}
    (hlen : nick.length < MAX_NICK_LEN) (mpfx : Str) :
    Returns (nameOf353 b c nick mpfx) fun r =>
      r.1 = true ∧ Safe cm r.2 ∧ ∃ p, Joined cm c nick mpfx p b r.2 :=
  nameOf353_keyed h hc (norm_short hlen) mpfx

def listed (cm : CMap) (ns : List (Str × Str)) (κ : Str) : Option Str :=
  (ns.reverse.find? fun n => norm cm n.1 = κ).map Prod.snd

theorem listed_cons (n : Str × Str) (ns : List (Str × Str)) (κ : Str) :
    listed cm (n :: ns) κ = (listed cm ns κ).or (if norm cm n.1 = κ then some n.2 else none) := by
  rw [listed, listed, List.reverse_cons, List.find?_append, Option.map_or, List.find?_singleton]
  by_cases hn : norm cm n.1 = κ <;> simp [hn]

/-- The first of the names with that key. -/
def firstListed (cm : CMap) (ns : List (Str × Str)) (κ : Str) : Option Str :=
  (ns.find? fun n => norm cm n.1 = κ).map Prod.fst

theorem firstListed_cons (n : Str × Str) (ns : List (Str × Str)) (κ : Str) :
    firstListed cm (n :: ns) κ = if norm cm n.1 = κ then some n.1 else firstListed cm ns κ := by
  rw [firstListed, List.find?_cons, firstListed]
  by_cases hn : norm cm n.1 = κ <;> simp [hn]

/-- Under the key `κ` the channel at `c` has what the names say. Who was known by the key still
is, under the same nick; if nobody was, somebody with the first of those names is. Nothing is
different if the names do not mention the key. -/
def EnteredAt (cm : CMap) (c : Ptr) (ns : List (Str × Str)) (b b' : Base) (κ : Str) : Prop :=
  (∀ q, b.users.lookup κ = some q → b'.users.lookup κ = some q ∧ nickAt b' q = nickAt b q) ∧
  match listed cm ns κ with
  | none => membAt b' c κ = membAt b c κ ∧ b'.users.lookup κ = b.users.lookup κ
  | some mpfx => ∃ p, b'.users.lookup κ = some p ∧ membAt b' c κ = some ⟨p, mpfx⟩ ∧
      (b.users.lookup κ = none → nickAt b' p = firstListed cm ns κ)

/-- The names, and nobody else, are members of the channel at `c` in addition. -/
structure Entered (cm : CMap) (c : Ptr) (ns : List (Str × Str)) (b b' : Base) : Prop where
  chans : b'.chans.lookup = b.chans.lookup
  others : ∀ d, d ≠ c → membAt b' d = membAt b d
  at_key : ∀ κ, EnteredAt cm c ns b b' κ

theorem entered_nil (c : Ptr) (b : Base) : Entered cm c [] b b :=
  ⟨rfl, fun _ _ => rfl, fun _ => ⟨fun _ hq => ⟨hq, rfl⟩, rfl, rfl⟩⟩

theorem Joined.spares {c p : Ptr} {nick mpfx : Str} {b' : Base} (hj : Joined cm c nick mpfx p b b')
    (h' : Safe cm b') {κ : Str} {q : Ptr} (hq : b.users.lookup κ = some q) :
    b'.users.lookup κ = some q ∧ nickAt b' q = nickAt b q := by
  by_cases hκ : κ = norm cm nick
  · subst hκ
    obtain ⟨rfl, hnick⟩ := hj.same q hq
    rw [hj.users, Function.update_self, hnick]
    exact ⟨rfl, rfl⟩
  · have hlook : b'.users.lookup κ = some q := by rw [hj.users, Function.update_of_ne hκ, hq]
    refine ⟨hlook, ?_⟩
    cases hl : b.users.lookup (norm cm nick) with
    | some q' => rw [(hj.same q' hl).2]
    | none =>
      -- two keys have different users, since a user has one nick
      have hne : q ≠ p := by
        rintro rfl
        have hp : b'.users.lookup (norm cm nick) = some q := by
          rw [hj.users, Function.update_self]
        obtain ⟨u, hu, hkey⟩ := h'.counted.roster.found _ _ hlook
        obtain ⟨u', hu', hkey'⟩ := h'.counted.roster.found _ _ hp
        obtain rfl := Option.some.inj (hu.symm.trans hu')
        exact hκ (hkey.symm.trans hkey')
      rw [hj.fresh hl, Function.update_of_ne hne]

/-- The user that a name which was read comes to. -/
def seated : Str × Str → Str × Str := Prod.map (ident2nick MAX_NICK_LEN) id

theorem Entered.cons {c p : Ptr} {n : Str × Str} {ns : List (Str × Str)} {b₁ b' : Base}
    (hj : Joined cm c n.1 n.2 p b b₁) (h₁ : Safe cm b₁) (hnick : n.1.length < MAX_NICK_LEN)
    (hshort : n.2.length < MAX_MODEPFX) (h : Entered cm c ns b₁ b') :
    Entered cm c (seated n :: ns) b b' := by
  have hmpfx : strNcpy n.2 MAX_MODEPFX = n.2 := List.take_of_length_le (Nat.le_pred_of_lt hshort)
  have hkey : norm cm (seated n).1 = norm cm n.1 := norm_short hnick
  refine ⟨h.chans.trans hj.chans, ?_, ?_⟩
  · intro d hd
    rw [h.others d hd, hj.memb, Function.update_of_ne hd]
  · intro κ
    obtain ⟨hknown, hκ⟩ := h.at_key κ
    refine ⟨fun q hq => ?_, ?_⟩
    · obtain ⟨hq₁, hnick₁⟩ := hj.spares h₁ hq
      obtain ⟨hq', hnick'⟩ := hknown q hq₁
      exact ⟨hq', hnick'.trans hnick₁⟩
    · have hmem : membAt b₁ c = Function.update (membAt b c) (norm cm n.1) (some ⟨p, n.2⟩) := by
        rw [hj.memb, Function.update_self, hmpfx]
      simp only [listed_cons, firstListed_cons, hkey]
      rw [hmem] at hκ
      by_cases hn : norm cm n.1 = κ
      · subst hn
        have hp₁ : b₁.users.lookup (norm cm n.1) = some p := by
          rw [hj.users, Function.update_self]
        obtain ⟨hp', hnickp⟩ := hknown p hp₁
        have hfirst : b.users.lookup (norm cm n.1) = none → nickAt b' p = some (seated n).1 := by
          intro hnone
          rw [hnickp, hj.fresh hnone, Function.update_self]
          rfl
        simp only [if_true]
        cases hl : listed cm ns (norm cm n.1) with
        | none =>
          rw [hl, Function.update_self] at hκ
          exact ⟨p, hp', hκ.1, hfirst⟩
        | some mpfx =>
          rw [hl] at hκ
          obtain ⟨q, hq, hm, _⟩ := hκ
          obtain rfl := Option.some.inj (hp'.symm.trans hq)
          exact ⟨p, hq, hm, hfirst⟩
      · rw [Function.update_of_ne (Ne.symm hn), hj.users, Function.update_of_ne (Ne.symm hn)] at hκ
        simp only [if_neg hn, Option.or_none]
        exact hκ

theorem enter_entered {c : Ptr} (ns : List (Str × Str)) {b : Base} (h : Safe cm b)
    (hc : c ∈ b.chans.vals) (hnick : ∀ n ∈ ns, n.1.length < MAX_NICK_LEN)
    (hmpfx : ∀ n ∈ ns, n.2.length < MAX_MODEPFX) :
    ∃ b', enter c ns b = .ok (0, b') ∧ Safe cm b' ∧ Entered cm c (ns.map seated) b b' := by
  induction ns generalizing b with
  | nil => exact ⟨b, rfl, h, entered_nil c b⟩
  | cons n ns ih =>
    have hn := hnick n List.mem_cons_self
    obtain ⟨⟨ok, b₁⟩, hr, rfl, h₁, p, hj⟩ := nameOf353_joined h hc hn n.2
    obtain ⟨b', hb', hs, he⟩ := ih h₁ (mem_of_lookup hj.chans hc)
      (fun m hm => hnick m (List.mem_cons_of_mem n hm)) fun m hm =>
        hmpfx m (List.mem_cons_of_mem n hm)
    refine ⟨b', ?_, hs, he.cons hj h₁ hn (hmpfx n List.mem_cons_self)⟩
    rw [enter, hr]
    exact hb'

theorem names_single {info : Info} {mem : Mem} {k p : Nat} :
    ∀ n ∈ names info mem k p, n.2.length < MAX_MODEPFX := by
  induction k generalizing p with
  | zero => exact fun _ hn => absurd hn List.not_mem_nil
  | succ k ih =>
    intro n hn
    rw [names] at hn
    generalize (if (strchr info.m005modepfx.2 (mem.getD p 0)).isSome = true then p + 1
      else p) = q at hn
    obtain rfl | hn := List.mem_cons.1 hn
    · have hle : ∀ (P : Prop) [Decidable P] (c : UInt8), (if P then [c] else []).length ≤ 1 := by
        intro P _ c
        split <;> simp
      exact Nat.lt_of_le_of_lt (hle _ _) (by decide)
    · split at hn
      · cases hn
      · exact ih n hn

/-- The channel at `c` starts anew if its last listing was complete. -/
structure Refreshed (c : Ptr) (b b₀ : Base) : Prop where
  chans : b₀.chans.lookup = b.chans.lookup
  memb : membAt b₀ =
    if b.endofnames then Function.update (membAt b) c fun _ => none else membAt b
  users : Fewer b b₀

theorem h_353_entered (info : Info) {msg : Msg} (h : Safe cm b) (h0 : msg.present 0 = true)
    (hargs : 6 ≤ msg.nargs) {name : Str} (hname : msg.fld 4 = .ok name) {c : Ptr}
    (hc : getChan b name = some c) {p : Nat} (hp : msg.deref 5 = .ok p) :
    ∃ b₀ b', h_353 info msg msg.nargs b = .ok (0, b') ∧ Safe cm b' ∧ Refreshed c b b₀ ∧
      Entered cm c ((names info msg.mem (msg.mem.length + 2) p).map seated) b₀ b' := by
  have hmem := mem_of_getChan hc
  have hg : ¬((!msg.present 0) = true ∨ msg.nargs < 6) := by
    simp only [h0, Bool.not_true, Bool.false_eq_true, false_or]
    omega
  rw [h_353, if_neg hg]
  simp only [hname, hp, ok_bind, names353_eq, hc]
  cases heon : b.endofnames with
  | true =>
    obtain ⟨b₁, hb₁, hi, hfew, hch⟩ := clearMemb_ok h hmem
    have hi : Safe cm b₁ := hi.loosen fun _ hq => hq.elim
    have hi' : Safe cm { b₁ with endofnames := false } :=
      ⟨⟨hi.counted.al, hi.counted.usersCm, hi.counted.roster⟩, hi.chansCm, hi.live, hi.nodup⟩
    have hmemb : membAt { b₁ with endofnames := false } = membAt b₁ := rfl
    obtain ⟨b', hb', hs, he⟩ := enter_entered (names info msg.mem (msg.mem.length + 2) p) hi'
      (mem_of_lookup hch.chans hmem) names_short names_single
    refine ⟨{ b₁ with endofnames := false }, b', ?_, hs, ⟨hch.chans, ?_, hfew⟩, he⟩
    · rw [if_pos rfl, hb₁]
      exact hb'
    · rw [hmemb, hch.memb, heon, if_pos rfl]
  | false =>
    obtain ⟨b', hb', hs, he⟩ := enter_entered (names info msg.mem (msg.mem.length + 2) p) h hmem
      names_short names_single
    refine ⟨b, b', ?_, hs, ⟨rfl, ?_, Fewer.of_eq rfl⟩, he⟩
    · rw [if_neg (by simp)]
      exact hb'
    · rw [heon, if_neg (by simp)]

theorem length_cstr (mem : Mem) (p : Nat) : (cstr mem p).length ≤ mem.length :=
  (length_cstr_le _).trans (by rw [List.length_drop]; omega)

theorem fld_eq {msg : Msg} {k : Nat} {s : Str} (h : msg.fld k = .ok s) :
    ∃ p, msg.deref k = .ok p ∧ cstr msg.mem p = s := by
  rw [Msg.fld] at h
  cases hp : msg.deref k with
  | error e =>
    rw [hp] at h
    cases h
  | ok p =>
    rw [hp] at h
    exact ⟨p, rfl, Except.ok.inj h⟩

theorem whole_iff {i : Item} (h : i.nick.length < MAX_NICK_LEN) :
    ident2nick MAX_NICK_LEN i.nick = i.nick ↔ i.Whole := by
  rw [ident2nick, strNcpy, List.take_of_length_le (Nat.le_sub_one_of_lt h)]
  constructor
  · intro heq
    refine ⟨fun hmem => ?_, fun hmem => ?_⟩
    · rw [← heq] at hmem
      simpa using List.mem_takeWhile_imp hmem
    · rw [← heq] at hmem
      simpa using List.mem_takeWhile_imp (List.takeWhile_subset _ hmem)
  · rintro ⟨hbang, hat⟩
    rw [List.takeWhile_eq_self_iff.2, List.takeWhile_eq_self_iff.2]
    · exact fun b hb => bne_iff_ne.2 fun heq => hat (heq ▸ hb)
    · intro b hb
      have hb' : b ∈ i.nick := List.takeWhile_subset _ hb
      exact bne_iff_ne.2 fun heq => hbang (heq ▸ hb')

theorem nick_short {pfx : Str} {items : List Item} (h : WellFormed pfx items) :
    ∀ i ∈ items, i.nick.length < MAX_NICK_LEN := by
  induction items with
  | nil => exact fun _ hi => absurd hi List.not_mem_nil
  | cons i is ih => exact List.forall_mem_cons.2 ⟨h.1.short, ih h.2.2⟩

/-- What a 353 message lists enters the channel name by name. Those who enter are the listed
ones, and the cursor stays in the text, if, and only if, the listing is tidy and no nick of it
is cut short. -/
theorem listing_exact_iff (info : Info) {msg : Msg} (h : Safe cm b) (h0 : msg.present 0 = true)
    (hargs : 6 ≤ msg.nargs) {name : Str} (hname : msg.fld 4 = .ok name) {c : Ptr}
    (hc : getChan b name = some c) {lead : Nat} {items : List Item}
    (hwf : WellFormed info.m005modepfx.2 items) (htext : msg.fld 5 = .ok (listing lead items)) :
    ∃ p b₀ b', msg.deref 5 = .ok p ∧ h_353 info msg msg.nargs b = .ok (0, b') ∧ Refreshed c b b₀ ∧
      Entered cm c ((names info msg.mem (msg.mem.length + 2) p).map seated) b₀ b' ∧
      ((∀ q ∈ cursors info msg.mem (msg.mem.length + 2) p, q ≤ p + (listing lead items).length) ∧
          (names info msg.mem (msg.mem.length + 2) p).map seated = items.map Item.entry ↔
        Tidy info.m005modepfx.2 lead items ∧ ∀ i ∈ items, i.Whole) := by
  obtain ⟨p, hp, htext⟩ := fld_eq htext
  obtain ⟨b₀, b', hr, -, hrefreshed, hentered⟩ := h_353_entered info h h0 hargs hname hc hp
  have hlen : (listing lead items).length < msg.mem.length + 2 := by
    have hle := length_cstr msg.mem p
    rw [htext] at hle
    omega
  have hwhole : (∀ i ∈ items, ident2nick MAX_NICK_LEN i.nick = i.nick) ↔ ∀ i ∈ items, i.Whole :=
    forall₂_congr fun i hi => whole_iff (nick_short hwf i hi)
  have hiff := map_names_iff (f := ident2nick MAX_NICK_LEN) rfl hwf htext hlen
  rw [hwhole] at hiff
  refine ⟨p, b₀, b', hp, hr, hrefreshed, hentered, ?_, ?_⟩
  · exact fun hboth => hiff.1 hboth.2
  · exact fun ht => ⟨cursors_tidy hwf htext ht.1, hiff.2 ht⟩

/-- The line `:s 353 me = #a :` with these names. -/
def namesLine (names : String) : Msg := .ofLine (ascii ":s 353 me = #a :" ++ ascii names)

def joined : Input .rfc1459 := sample .rfc1459 .join ":me!u@h JOIN #a"

def tidyItems : List Item := [⟨some 0x40, ascii "me", 1⟩, ⟨none, ascii "x", 0⟩]

theorem listing_exact_joined :
    ∃ r c p b₀ b', handle joined (Base.init .rfc1459) = .ok r ∧
      (namesLine "@me x").deref 5 = .ok p ∧
      h_353 joined.info (namesLine "@me x") (namesLine "@me x").nargs r.2 = .ok (0, b') ∧
      Refreshed c r.2 b₀ ∧
      Entered .rfc1459 c
        ((names joined.info (namesLine "@me x").mem ((namesLine "@me x").mem.length + 2) p).map
          seated) b₀ b' ∧
      ((∀ q ∈ cursors joined.info (namesLine "@me x").mem ((namesLine "@me x").mem.length + 2) p,
            q ≤ p + (listing 0 tidyItems).length) ∧
          (names joined.info (namesLine "@me x").mem ((namesLine "@me x").mem.length + 2) p).map
            seated = tidyItems.map Item.entry ↔
        Tidy joined.info.m005modepfx.2 0 tidyItems ∧ ∀ i ∈ tidyItems, i.Whole) := by
  have hchan : ((handle joined (Base.init .rfc1459)).toOption.bind fun r =>
      getChan r.2 (ascii "#a")).isSome = true := by decide +kernel
  obtain ⟨r, hr, hs⟩ := handle_safe joined (safe_init .rfc1459) trivial
  rw [hr] at hchan
  obtain ⟨c, hc⟩ := Option.isSome_iff_exists.1 hchan
  have hwf : WellFormed joined.info.m005modepfx.2 tidyItems := by
    refine ⟨⟨?_, ?_, ?_, ?_, ?_⟩, ?_, ⟨?_, ?_, ?_, ?_, ?_⟩, ?_, trivial⟩ <;> decide +kernel
  have hname : (namesLine "@me x").fld 4 = .ok (ascii "#a") := by decide +kernel
  have htext : (namesLine "@me x").fld 5 = .ok (listing 0 tidyItems) := by decide +kernel
  obtain ⟨p, b₀, b', hout⟩ := listing_exact_iff joined.info hs (by decide +kernel)
    (by decide +kernel) hname hc hwf htext
  exact ⟨r, c, p, b₀, b', hr, hout⟩

def spacedItems : List Item := [⟨some 0x40, ascii "me", 1⟩, ⟨none, ascii "x", 1⟩]

/-- The terminator is taken for a symbol, the cursor passes it, and a user with the empty nick
becomes a member. -/
theorem listing_spaced :
    ∃ b p b' c ch m, handle joined (Base.init .rfc1459) = .ok (0, b) ∧
      WellFormed joined.info.m005modepfx.2 spacedItems ∧
      (namesLine "@me x ").fld 5 = .ok (listing 0 spacedItems) ∧
      (namesLine "@me x ").deref 5 = .ok p ∧
      p + (listing 0 spacedItems).length + 1 ∈
        cursors joined.info (namesLine "@me x ").mem ((namesLine "@me x ").mem.length + 2) p ∧
      h_353 joined.info (namesLine "@me x ") (namesLine "@me x ").nargs b = .ok (0, b') ∧
      getChan b' (ascii "#a") = some c ∧ b'.chanHeap.get c = some ch ∧ ch.memb.get [] = some m := by
  have hwf : WellFormed joined.info.m005modepfx.2 spacedItems := by
    refine ⟨⟨?_, ?_, ?_, ?_, ?_⟩, ?_, ⟨?_, ?_, ?_, ?_, ?_⟩, ?_, trivial⟩ <;> decide +kernel
  have htext : (namesLine "@me x ").fld 5 = .ok (listing 0 spacedItems) := by decide +kernel
  have hptr : (namesLine "@me x ").deref 5 = .ok 16 := by decide +kernel
  have hcur : 16 + (listing 0 spacedItems).length + 1 ∈ cursors joined.info (namesLine "@me x ").mem
      ((namesLine "@me x ").mem.length + 2) 16 := by decide +kernel
  have hrun : ((handle joined (Base.init .rfc1459)).toOption.any fun r => r.1 == 0 &&
      (h_353 joined.info (namesLine "@me x ") (namesLine "@me x ").nargs r.2).toOption.any fun r' =>
        r'.1 == 0 && (getChan r'.2 (ascii "#a")).any fun c =>
          (r'.2.chanHeap.get c).any fun ch => (ch.memb.get []).isSome) = true := by decide +kernel
  obtain ⟨⟨f, b⟩, hb, hrun⟩ := ok_of_toOption hrun
  obtain ⟨hf, hrun⟩ := Bool.and_eq_true_iff.1 hrun
  obtain ⟨⟨f', b'⟩, hb', hrun⟩ := ok_of_toOption hrun
  obtain ⟨hf', hrun⟩ := Bool.and_eq_true_iff.1 hrun
  obtain ⟨c, hc, hrun⟩ := (Option.any_eq_true _ _).1 hrun
  obtain ⟨ch, hch, hm⟩ := (Option.any_eq_true _ _).1 hrun
  obtain ⟨m, hm⟩ := Option.isSome_iff_exists.1 hm
  obtain rfl : f = 0 := by simpa using hf
  obtain rfl : f' = 0 := by simpa using hf'
  exact ⟨b, 16, b', c, ch, m, hb, hwf, htext, hptr, hcur, hb', hc, hch, hm⟩

end Srsirc.NamesEntered
