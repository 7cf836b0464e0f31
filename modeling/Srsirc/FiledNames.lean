import Srsirc.FailedJoin

namespace Srsirc.FiledNames

open Allocations CharMap Dictionary FailedJoin Fallible HeapCells Message UserBase UserLifetime

variable {b b' : Base} {cm : CMap} {name ident : Str} {c p : Ptr}

structure Entered (b : Base) (name : Str) (c : Ptr) (b' : Base) : Prop where
  chans : b'.chans.lookup = Function.update b.chans.lookup (norm b.chans.cm name) (some c)
  chansCm : b'.chans.cm = b.chans.cm
  record : ∃ ch, b'.chanHeap.get c = some ch ∧ ch.name = strNcpy name MAX_CHAN_LEN ∧
      ch.memb.vals = []

def newChan (cm : CMap) (name : Str) : Chan :=
  ⟨strNcpy name MAX_CHAN_LEN, none, none, 0, .init 256 Memb cm, false, List.replicate 16 none,
    none, false⟩

theorem addChan_some (h : addChan b cm name = (some c, b')) :
    c = b.chanHeap.next ∧ ∃ al, b' = { b with
      chans := b.chans.store name c
      al
      chanHeap := b.chanHeap.new (newChan cm name) } := by
  obtain ⟨ok, al, halloc⟩ := allocChan_base b
  rw [addChan, halloc] at h
  cases ok with
  | false => cases h
  | true =>
    dsimp only at h
    cases hput : b.chans.put name b.chanHeap.next al with
    | mk stored r =>
      obtain ⟨chans, al'⟩ := r
      rw [hput] at h
      cases stored with
      | false => cases h
      | true =>
        obtain rfl := put_true hput
        cases h
        exact ⟨rfl, al', rfl⟩

theorem addChan_entered (h : addChan b cm name = (some c, b')) : Entered b name c b' := by
  obtain ⟨rfl, al, rfl⟩ := addChan_some h
  refine ⟨lookup_store .., cm_store .., newChan cm name, ?_, rfl, vals_init cm⟩
  rw [get_new, Function.update_self]

/-- A name has the key that it has in its record if it fits into that. -/
theorem norm_strNcpy (cm : CMap) (s : Str) {n : Nat} (hn : 0 < n) :
    norm cm (strNcpy s n) = norm cm s ↔ (norm cm s).length < n := by
  rw [strNcpy, norm_take, List.take_eq_self_iff]
  omega

theorem dropChan_empty {ch : Chan} (hch : b.chanHeap.get c = some ch) (hempty : ch.memb.vals = []) :
    dropChan b c = .ok (match b.chans.lookup (norm b.chans.cm ch.name) with
      | none => (false, b)
      | some _ => (true, { b with
        chans := b.chans.drop ch.name
        chanHeap := b.chanHeap.free c
        freed := freeTag ch.tag ch.freetag b.freed })) := by
  simp only [dropChan, chan_eq hch, ok_bind, del_eq]
  cases b.chans.lookup (norm b.chans.cm ch.name) with
  | none => rfl
  | some c' =>
    simp only [visit_fst, hempty, unrefAll, ok_bind]
    rw [freeChan_eq (b := { b with chans := b.chans.drop ch.name }) hch]
    rfl

/-- A new channel can be dropped again just if its name fits into the record. -/
theorem chan_filed_iff (h : Entered b name c b') :
    (∃ b'', dropChan b' c = .ok (true, b'') ∧ getChan b'' name = none) ↔
      (norm b.chans.cm name).length < MAX_CHAN_LEN := by
  obtain ⟨ch, hch, hname, hempty⟩ := h.record
  rw [dropChan_empty hch hempty, h.chansCm, hname,
    ← norm_strNcpy _ _ (show 0 < MAX_CHAN_LEN by decide)]
  constructor
  · rintro ⟨b'', hdrop, hgone⟩
    by_contra hne
    cases hl : b'.chans.lookup (norm b.chans.cm (strNcpy name MAX_CHAN_LEN)) with
    | none =>
      rw [hl] at hdrop
      cases hdrop
    | some c' =>
      rw [hl] at hdrop
      cases hdrop
      rw [getChan, get_eq, lookup_drop, cm_drop, h.chansCm,
        Function.update_of_ne (Ne.symm hne), h.chans,
        Function.update_self] at hgone
      cases hgone
  · intro hkey
    rw [hkey, h.chans, Function.update_self]
    refine ⟨_, rfl, ?_⟩
    rw [getChan, get_eq, lookup_drop, cm_drop, h.chansCm, hkey, Function.update_self]

/-- A new user is found under the identity it was made from just if its nick fits. -/
theorem user_filed_iff (hlive : ∀ κ q, b.users.lookup κ = some q → ∃ u, b.userHeap.get q = some u)
    (hadd : addUser b ident = .ok (some p, b')) :
    getUser b' ident = some p ↔ (norm b.users.cm ident).length < MAX_NICK_LEN := by
  obtain ⟨r, hr, ha⟩ := @addUser_added b.users.cm b rfl ident
  obtain rfl := Except.ok.inj (hadd.symm.trans hr)
  have hkey : norm b.users.cm (ident2nick MAX_NICK_LEN ident) = norm b.users.cm ident ↔
      (norm b.users.cm ident).length < MAX_NICK_LEN := by
    rw [norm_ident2nick, List.take_eq_self_iff]
    exact (Nat.lt_iff_le_pred (by decide)).symm
  rw [getUser, get_eq, ha.usersCm, ha.users, ← hkey]
  constructor
  · intro hfound
    by_contra hne
    rw [Function.update_of_ne (Ne.symm hne), ha.ptr] at hfound
    obtain ⟨u, hu⟩ := hlive _ _ hfound
    rw [get_next] at hu
    cases hu
  · intro heq
    rw [heq, Function.update_self]

/-- In a base whose users are alive, a new channel can be dropped again and a new user is found
again just if the key of the channel and that of the user fit into their records. -/
theorem names_filed_iff (b : Base) (cm : CMap) (name ident : Str) {c p : Ptr} {b₁ b₂ : Base}
    (hlive : ∀ κ q, b.users.lookup κ = some q → ∃ u, b.userHeap.get q = some u)
    (hchan : addChan b cm name = (some c, b₁))
    (huser : addUser b ident = .ok (some p, b₂)) :
    ((∃ b', dropChan b₁ c = .ok (true, b') ∧ getChan b' name = none) ↔
      (norm b.chans.cm name).length < MAX_CHAN_LEN) ∧
    (getUser b₂ ident = some p ↔ (norm b.users.cm ident).length < MAX_NICK_LEN) :=
  ⟨chan_filed_iff (addChan_entered hchan), user_filed_iff hlive huser⟩

theorem live_init (cm : CMap) :
    ∀ κ q, (Base.init cm).users.lookup κ = some q → ∃ u, (Base.init cm).userHeap.get q =
      some u := by
  intro κ q hq
  rw [Base.init, lookup_init] at hq
  cases hq

theorem init_added (name ident : Str) :
    ∃ c p b₁ b₂, addChan (Base.init .rfc1459) .rfc1459 name = (some c, b₁) ∧
      addUser (Base.init .rfc1459) ident = .ok (some p, b₂) := by
  have hsafe := TrackSafety.safe_init .rfc1459
  have hnone : (Base.init .rfc1459).chans.lookup (norm .rfc1459 name) =
      none := by rw [Base.init, lookup_init]
  obtain ⟨c, b₁, hchan, _⟩ := ChannelOps.addChan_ok hsafe hnone
  have hfiled : ∀ κ, ¬Members.Filed (Base.init .rfc1459) κ (Base.init .rfc1459).userHeap.next := by
    rintro κ ⟨q, hq, _⟩
    rw [Base.init, vals_init] at hq
    cases hq
  obtain ⟨⟨p, b₂⟩, huser, hp, _⟩ := addUser_ok hsafe.counted ident hfiled fun _ h => h.elim
  obtain rfl : p = _ := hp
  exact ⟨c, _, b₁, b₂, hchan, huser⟩

theorem names_filed_sample : ∃ c p b₁ b₂, addChan (Base.init .rfc1459) .rfc1459 (ascii "#a") =
    (some c, b₁) ∧
    addUser (Base.init .rfc1459) (ascii "me!u@h") = .ok (some p, b₂) ∧
      (∃ b', dropChan b₁ c = .ok (true, b') ∧ getChan b' (ascii "#a") = none) ∧
      getUser b₂ (ascii "me!u@h") = some p := by
  obtain ⟨c, p, b₁, b₂, hchan, huser⟩ := init_added (ascii "#a") (ascii "me!u@h")
  obtain ⟨hc, hp⟩ := names_filed_iff _ _ (ascii "#a") (ascii "me!u@h") (live_init _) hchan huser
  exact ⟨c, p, b₁, b₂, hchan, huser, hc.2 (by decide), hp.2 (by decide)⟩

/-- A channel whose name has 256 bytes cannot be dropped, and a user whose nick has 64 is not
found. -/
theorem names_misfiled : ∃ c p b₁ b₂,
    addChan (Base.init .rfc1459) .rfc1459 (ascii "#" ++ List.replicate 255 0x61) = (some c, b₁) ∧
      addUser (Base.init .rfc1459) (List.replicate 64 0x61 ++ ascii "!u@h") = .ok (some p, b₂) ∧
      (¬∃ b', dropChan b₁ c = .ok (true, b') ∧
        getChan b' (ascii "#" ++ List.replicate 255 0x61) = none) ∧
      getUser b₂ (List.replicate 64 0x61 ++ ascii "!u@h") ≠ some p := by
  obtain ⟨c, p, b₁, b₂, hchan, huser⟩ := init_added (ascii "#" ++ List.replicate 255 0x61)
    (List.replicate 64 0x61 ++ ascii "!u@h")
  refine ⟨c, p, b₁, b₂, hchan, huser, fun h => ?_, fun h => ?_⟩
  · exact absurd ((chan_filed_iff (addChan_entered hchan)).1 h) (by decide +kernel)
  · exact absurd ((user_filed_iff (live_init _) huser).1 h) (by decide +kernel)

end Srsirc.FiledNames
