import Srsirc.Connect

namespace Srsirc.Registry

open CharMap UserBase Context Connect

def hndsOf (dumb : Bool) : Module → List (String × Hnd)
  | .core => coreHnds dumb
  | .v3 => v3Hnds dumb
  | .track => trackHnds

def Known (dumb : Bool) (e : Msghnd) : Prop :=
  ∃ cmd, (cmd, e.hndfn) ∈ hndsOf dumb e.module ∧ e.cmd = ascii cmd

/-- The table has grown by entries of the library: what does not belong to the tracking
is where it was. -/
structure Grown (dumb : Bool) (tbl tbl' : Msghnds) : Prop where
  slots : ∀ (i : Nat) (e : Msghnd), tbl.val[i]? = some (some e) → e.module ≠ .track →
    tbl'.val[i]? = some (some e)
  known : ∀ e, some e ∈ tbl'.val → some e ∈ tbl.val ∨ Known dumb e

theorem Grown.refl (dumb : Bool) (tbl : Msghnds) : Grown dumb tbl tbl :=
  ⟨fun _ _ h _ => h, fun _ h => Or.inl h⟩

theorem Grown.trans {dumb : Bool} {tbl tbl' tbl'' : Msghnds} (h : Grown dumb tbl tbl')
    (h' : Grown dumb tbl' tbl'') : Grown dumb tbl tbl'' := by
  refine ⟨fun i e he hm => h'.slots i e (h.slots i e he hm) hm, fun e he => ?_⟩
  obtain he | he := h'.known e he
  · exact h.known e he
  · exact Or.inr he

structure Kept (irc irc' : Irc) : Prop where
  dumb : irc'.dumb = irc.dumb
  grown : Grown irc.dumb irc.msghnds irc'.msghnds

theorem Kept.of_eq {irc irc' : Irc} (hd : irc'.dumb = irc.dumb)
    (ht : irc'.msghnds = irc.msghnds) : Kept irc irc' :=
  ⟨hd, ht ▸ Grown.refl _ _⟩

theorem Kept.trans {irc irc' irc'' : Irc} (h : Kept irc irc') (h' : Kept irc' irc'') :
    Kept irc irc'' :=
  ⟨h'.dumb.trans h.dumb, h.grown.trans (h.dumb ▸ h'.grown)⟩

/-- The library's own handlers are registered, and no others. -/
structure Table (irc : Irc) : Prop where
  known : ∀ e, some e ∈ irc.msghnds.val → Known irc.dumb e
  has : ∀ cmd h m, m ≠ .track → (cmd, h) ∈ hndsOf irc.dumb m →
    some ⟨ascii cmd, h, m⟩ ∈ irc.msghnds.val

theorem Table.kept {irc irc' : Irc} (ht : Table irc) (hk : Kept irc irc') : Table irc' := by
  refine ⟨fun e he => ?_, fun cmd h m hm hmem => ?_⟩
  · rw [hk.dumb]
    obtain he | he := hk.grown.known e he
    · exact ht.known e he
    · exact he
  · rw [hk.dumb] at hmem
    obtain ⟨i, hi⟩ := List.getElem?_of_mem (ht.has cmd h m hm hmem)
    exact List.mem_of_getElem? (hk.grown.slots i _ hi hm)

section Slots

variable {e x : Msghnd} {tbl : List (Option Msghnd)}

theorem setFirstFree_slot {i : Nat} (h : tbl[i]? = some (some x)) :
    (setFirstFree e tbl)[i]? = some (some x) := by
  induction tbl generalizing i with
  | nil => cases h
  | cons y tbl ih =>
    cases y with
    | none =>
      cases i with
      | zero => cases h
      | succ i => exact h
    | some y =>
      cases i with
      | zero => exact h
      | succ i => exact ih h

theorem mem_setFirstFree (h : some x ∈ setFirstFree e tbl) : x = e ∨ some x ∈ tbl := by
  induction tbl with
  | nil => cases h
  | cons y tbl ih =>
    cases y with
    | none =>
      obtain h | h := List.mem_cons.1 h
      · exact Or.inl (Option.some.inj h)
      · exact Or.inr (List.mem_cons_of_mem _ h)
    | some y =>
      obtain h | h := List.mem_cons.1 h
      · exact Or.inr (h ▸ List.mem_cons_self)
      · exact (ih h).imp_right (List.mem_cons_of_mem _)

theorem setFirstFree_self (h : none ∈ tbl) : some e ∈ setFirstFree e tbl := by
  induction tbl with
  | nil => cases h
  | cons y tbl ih =>
    cases y with
    | none => exact List.mem_cons_self
    | some y =>
      obtain h | h := List.mem_cons.1 h
      · cases h
      · exact List.mem_cons_of_mem _ (ih h)

end Slots

theorem none_mem_double (tbl : Msghnds) : none ∈ tbl.double.val := by
  have hlen := List.length_pos_iff.2 tbl.property
  exact List.mem_append_right _ (List.mem_replicate.2 ⟨by omega, rfl⟩)

theorem grown_add {dumb : Bool} {e : Msghnd} (tbl : Msghnds) (hk : Known dumb e) :
    Grown dumb tbl (tbl.add e) := by
  refine ⟨fun i x hx _ => setFirstFree_slot hx, fun x hx => ?_⟩
  obtain rfl | hx := mem_setFirstFree hx
  · exact Or.inr hk
  · exact Or.inl hx

theorem grown_double (dumb : Bool) (tbl : Msghnds) : Grown dumb tbl tbl.double := by
  refine ⟨fun i e he _ => ?_, fun e he => ?_⟩
  · exact (List.getElem?_append_left (List.getElem?_eq_some_iff.1 he).1).trans he
  · obtain he | he := List.mem_append.1 he
    · exact Or.inl he
    · cases List.eq_of_mem_replicate he

theorem grown_without (dumb : Bool) (tbl : Msghnds) : Grown dumb tbl (tbl.without .track) := by
  refine ⟨fun i e he hm => ?_, fun e he => ?_⟩
  · simp [Msghnds.without, he, hm]
  · obtain ⟨x, hx, hxe⟩ := List.mem_map.1 he
    obtain ⟨rfl, _⟩ := Option.filter_eq_some_iff.1 hxe
    exact Or.inl hx

def Aside (irc irc' : Irc) : Prop := ∃ base msghnds, irc' = { irc with base, msghnds }

theorem Aside.trans {irc irc' irc'' : Irc} (h : Aside irc irc') (h' : Aside irc' irc'') :
    Aside irc irc'' := by
  obtain ⟨_, _, rfl⟩ := h
  obtain ⟨_, _, rfl⟩ := h'
  exact ⟨_, _, rfl⟩

variable {irc irc' : Irc} {ok : Bool} {m : Module}

theorem reghnd_spec {cmd : String} {h : Hnd} (hmem : (cmd, h) ∈ hndsOf irc.dumb m)
    (hlen : (ascii cmd).length < 32) (heq : reghnd irc (ascii cmd) h m = (ok, irc')) :
    Kept irc irc' ∧ Aside irc irc' ∧ (ok = true → some ⟨ascii cmd, h, m⟩ ∈ irc'.msghnds.val) := by
  have hcmd : Message.strNcpy (ascii cmd) 32 = ascii cmd := List.take_of_length_le (by omega)
  have hknown : Known irc.dumb ⟨ascii cmd, h, m⟩ := ⟨cmd, hmem, rfl⟩
  rw [reghnd] at heq
  simp only [hcmd] at heq
  split at heq
  · next hfree =>
    obtain ⟨rfl, rfl⟩ := Prod.mk.inj heq
    exact ⟨⟨rfl, grown_add _ hknown⟩, ⟨_, _, rfl⟩, fun _ => setFirstFree_self hfree⟩
  · rw [Irc.malloc] at heq
    split at heq
    · next hmal =>
      obtain ⟨rfl, rfl⟩ := Prod.mk.inj heq
      obtain ⟨_, rfl⟩ := Prod.mk.inj hmal
      exact ⟨Kept.of_eq rfl rfl, ⟨_, _, rfl⟩, fun hc => (Bool.false_ne_true hc).elim⟩
    · next hmal =>
      obtain ⟨rfl, rfl⟩ := Prod.mk.inj heq
      obtain ⟨_, rfl⟩ := Prod.mk.inj hmal
      exact ⟨⟨rfl, (grown_double _ _).trans (grown_add _ hknown)⟩, ⟨_, _, rfl⟩,
        fun _ => setFirstFree_self (none_mem_double _)⟩

theorem reghnds_spec (hs : List (String × Hnd)) (hmem : ∀ p ∈ hs, p ∈ hndsOf irc.dumb m)
    (hlen : ∀ p ∈ hs, (ascii p.1).length < 32) (heq : reghnds hs m irc = (ok, irc')) :
    Kept irc irc' ∧ Aside irc irc' ∧
      (ok = true → m ≠ .track → ∀ p ∈ hs, some ⟨ascii p.1, p.2, m⟩ ∈ irc'.msghnds.val) := by
  induction hs generalizing irc with
  | nil =>
    obtain ⟨rfl, rfl⟩ := Prod.mk.inj heq
    exact ⟨Kept.of_eq rfl rfl, ⟨_, _, rfl⟩, fun _ _ p hp => absurd hp List.not_mem_nil⟩
  | cons p hs ih =>
    rw [reghnds] at heq
    split at heq
    · next hreg =>
      obtain ⟨rfl, rfl⟩ := Prod.mk.inj heq
      obtain ⟨hk, ha, _⟩ := reghnd_spec (hmem p List.mem_cons_self) (hlen p List.mem_cons_self) hreg
      exact ⟨hk, ha, fun hc => (Bool.false_ne_true hc).elim⟩
    · next irc₁ hreg =>
      obtain ⟨hk, ha, hin⟩ :=
        reghnd_spec (hmem p List.mem_cons_self) (hlen p List.mem_cons_self) hreg
      obtain ⟨hk', ha', hin'⟩ := ih (fun q hq => hk.dumb ▸ hmem q (List.mem_cons_of_mem _ hq))
        (fun q hq => hlen q (List.mem_cons_of_mem _ hq)) heq
      refine ⟨hk.trans hk', ha.trans ha', fun hok hm q hq => ?_⟩
      obtain rfl | hq := List.mem_cons.1 hq
      · obtain ⟨i, hi⟩ := List.getElem?_of_mem (hin rfl)
        exact List.mem_of_getElem? (hk'.grown.slots i _ hi hm)
      · exact hin' hok hm q hq

theorem short_hndsOf (dumb : Bool) (m : Module) : ∀ p ∈ hndsOf dumb m, (ascii p.1).length < 32 := by
  cases dumb <;> cases m <;> decide +kernel

theorem ucbInit_spec (irc : Irc) : ∃ base, (ucbInit irc).2 = { irc with base } := by
  rw [ucbInit]
  dsimp only [Irc.malloc]
  split
  · exact ⟨_, rfl⟩
  · split
    · exact ⟨_, rfl⟩
    · split
      · exact ⟨_, rfl⟩
      · split <;> exact ⟨_, rfl⟩

theorem trkInit_spec (irc : Irc) : Kept irc (trkInit irc).2 ∧ Aside irc (trkInit irc).2 := by
  have hun : ∀ irc' : Irc, Kept irc' (unregall irc' .track) := fun irc' => ⟨rfl, grown_without _ _⟩
  have hreg := fun ok irc' => @reghnds_spec irc irc' ok .track
    trackHnds (fun _ hp => hp) (short_hndsOf irc.dumb .track)
  rw [trkInit]
  split
  · next irc₁ h =>
    obtain ⟨hk, ha, _⟩ := hreg _ _ h
    exact ⟨hk.trans (hun _), ha.trans ⟨_, _, rfl⟩⟩
  · next irc₁ h =>
    obtain ⟨hk, ha, _⟩ := hreg _ _ h
    have hucb : ∀ ok irc₂, ucbInit irc₁ = (ok, irc₂) → Kept irc irc₂ ∧ Aside irc irc₂ := by
      intro ok irc₂ h₂
      obtain ⟨base, hbase⟩ := ucbInit_spec irc₁
      obtain rfl : irc₂ = { irc₁ with base } := by rw [← hbase, h₂]
      exact ⟨hk.trans (Kept.of_eq rfl rfl), ha.trans ⟨_, _, rfl⟩⟩
    split
    · next irc₂ h₂ =>
      obtain ⟨hk₂, ha₂⟩ := hucb _ _ h₂
      exact ⟨hk₂.trans (hun _), ha₂.trans ⟨_, _, rfl⟩⟩
    · next irc₂ h₂ => exact hucb _ _ h₂

theorem not_mem_without (tbl : Msghnds) {e : Msghnd} (h : some e ∈ (tbl.without m).val) :
    some e ∈ tbl.val ∧ e.module ≠ m := by
  obtain ⟨x, hx, hxe⟩ := List.mem_map.1 h
  obtain ⟨rfl, hm⟩ := Option.filter_eq_some_iff.1 hxe
  exact ⟨hx, by simpa using hm⟩

theorem regall_spec {irc₁ irc₂ : Irc} (hnone : ∀ e, some e ∈ irc.msghnds.val → e.module = .v3)
    (h₁ : imhRegall irc = (true, irc₁)) (h₂ : v3Regall (unregall irc₁ .v3) = (true, irc₂)) :
    Table irc₂ ∧ Aside irc irc₂ := by
  obtain ⟨hk₁, ha₁, hin₁⟩ := reghnds_spec (m := .core) _ (fun _ hp => hp)
    (short_hndsOf irc.dumb .core) h₁
  obtain ⟨hk₂, ha₂, hin₂⟩ := @reghnds_spec (unregall irc₁ .v3) _ _ .v3 _ (fun _ hp => hp)
    (short_hndsOf irc₁.dumb .v3) h₂
  have hd₂ : irc₂.dumb = irc.dumb := hk₂.dumb.trans hk₁.dumb
  refine ⟨⟨fun e he => ?_, fun cmd h m hm hmem => ?_⟩, (ha₁.trans ⟨_, _, rfl⟩).trans ha₂⟩
  · obtain he | he := hk₂.grown.known e he
    · obtain ⟨he, hv3⟩ := not_mem_without _ he
      obtain he | he := hk₁.grown.known e he
      · exact absurd (hnone e he) hv3
      · exact hd₂ ▸ he
    · exact hk₂.dumb ▸ he
  · rw [hd₂] at hmem
    cases m with
    | core =>
      obtain ⟨i, hi⟩ := List.getElem?_of_mem (hin₁ rfl hm _ hmem)
      have hi' : (irc₁.msghnds.without .v3).val[i]? = some (some ⟨ascii cmd, h, .core⟩) := by
        simp [Msghnds.without, hi]
      exact List.mem_of_getElem? (hk₂.grown.slots i _ hi' hm)
    | v3 => exact hin₂ rfl hm _ (hk₁.dumb ▸ hmem)
    | track => exact absurd rfl hm

/-- What `irc_connect` has done when the connection is there. -/
theorem openConn_cases (heq : openConn irc = (true, irc')) :
    Table irc' ∧ Conn.connConnect irc.con = (true, irc'.con) ∧
      ∃ info base trackingEnab v3capreq msghnds con,
      irc' = { irc with info, base, trackingEnab, v3capreq, msghnds, con } := by
  rw [openConn] at heq
  dsimp only at heq
  generalize hi : unregall { trkDeinit irc with trackingEnab := false } .core = irc₀ at heq
  have hnone : ∀ e, some e ∈ irc₀.msghnds.val → e.module = .v3 := by
    subst hi
    intro e he
    obtain ⟨he, hc⟩ := not_mem_without _ he
    obtain ⟨_, ht⟩ := not_mem_without _ he
    cases hm : e.module with
    | core => exact absurd hm hc
    | v3 => rfl
    | track => exact absurd hm ht
  split at heq
  · cases heq
  · next irc₁ h₁ =>
    split at heq
    · cases heq
    · next irc₂ h₂ =>
      obtain ⟨ht, _, _, rfl⟩ := regall_spec hnone h₁ h₂
      subst hi
      obtain ⟨hcon, rfl⟩ := Prod.mk.inj heq
      exact ⟨⟨ht.known, ht.has⟩, Prod.ext hcon rfl, _, _, _, _, _, _, rfl⟩

/-- What the logon starts with. -/
theorem openConn_spec (heq : openConn irc = (true, irc')) :
    Table irc' ∧ Conn.connConnect irc.con = (true, irc'.con) ∧ irc'.dumb = irc.dumb ∧
      irc'.v3caps = irc.v3caps := by
  obtain ⟨ht, hcon, _, _, _, _, _, _, rfl⟩ := openConn_cases heq
  exact ⟨ht, hcon, rfl, rfl⟩

end Srsirc.Registry
