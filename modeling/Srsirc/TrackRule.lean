import Srsirc.Dispatch
import Srsirc.NamesReply

namespace Srsirc.TrackRule

open CharMap Dictionary HeapCells Memory Message ServerInfo UserBase ChannelModes Track TrackInfo
open NamesReply Fallible Context Dispatch
open BucketList (Alloc)

/-- The prefixes that members are entered with: none, or one symbol of the table. -/
def Marked (info : Info) (mpfx : Str) : Prop :=
  mpfx = [] ∨ ∃ c ∈ info.m005modepfx.2, c ≠ 0 ∧ mpfx = [c]

/-- What holds of the base is preserved by all that the tracking handlers are made of. -/
structure Preserves (info : Info) (J : Base → Prop) : Prop where
  al : ∀ {b} al, J b → J { b with al }
  endofnames : ∀ {b} endofnames, J b → J { b with endofnames }
  chan : ∀ {b c ch ch'}, J b → b.chan c = .ok ch → ch'.memb = ch.memb → ch'.tag = ch.tag →
    ch'.freetag = ch.freetag → J (b.setChan c ch')
  user : ∀ {b p u u'}, J b → b.user p = .ok u → u'.nick = u.nick → u'.nchans = u.nchans →
    u'.tag = u.tag → u'.freetag = u.freetag → J (b.setUser p u')
  addChan : ∀ {b} name, J b → J (addChan b info.casemap name).2
  dropChan : ∀ {b} c, J b → Ensures (dropChan b c) fun r => J r.2
  addMemb : ∀ {b} c p {mpfx}, Marked info mpfx → J b → Ensures (addMemb b c p mpfx) fun r => J r.2
  dropMemb : ∀ {b} c p purge, J b → Ensures (dropMemb b c p purge) fun r => J r.2
  clearMemb : ∀ {b} c, J b → Ensures (clearMemb b c) J
  touchUser : ∀ {b} ident, J b → Ensures (touchUser b ident) J
  addUser : ∀ {b} ident, J b → Ensures (addUser b ident) fun r => J r.2
  dropUser : ∀ {b} p, J b → Ensures (dropUser b p) fun r => J r.2
  renameUser : ∀ {b} ident newnick, J b →
    Ensures (renameUser b info.casemap ident newnick) fun r => J r.2.2
  updateModepfx : ∀ {b mode i} c nick enab, strchr info.m005modepfx.1 mode = some i → J b →
    Ensures (updateModepfx info b c nick (info.m005modepfx.2.getD i 0) enab) J

variable {info : Info} {J : Base → Prop} (hJ : Preserves info J) {b : Base}

section Modes

variable (c : Ptr)

include hJ

theorem clearChanmodes_rule (h : J b) : Ensures (clearChanmodes b c) J :=
  Ensures.bind_of fun _ hch => Ensures.ok (hJ.chan h hch rfl rfl rfl)

theorem addChanmode_rule (h : J b) (modestr : Str) :
    Ensures (addChanmode b c modestr) fun r => J r.2 := by
  refine Ensures.bind_of fun ch hch => ?_
  have hset :
      ∀ al (modes : List (Option Str)), J (Base.setChan { b with al } c { ch with modes }) :=
    fun al modes => hJ.chan (hJ.al al h) hch rfl rfl rfl
  dsimp only
  split
  · exact Ensures.ite (fun _ => Ensures.ok h) fun _ => Ensures.ok (hset _ _)
  · exact Ensures.ite (fun _ => Ensures.ok (hJ.al _ h)) fun _ => Ensures.ok (hset _ _)

theorem dropChanmode_rule (h : J b) (modestr : Str) :
    Ensures (dropChanmode info b c modestr) fun r => J r.2 := by
  refine Ensures.bind_of fun ch hch => ?_
  split
  · exact Ensures.ok h
  · exact Ensures.ok (hJ.chan h hch rfl rfl rfl)

theorem applyMode_rule (h : J b) (m : ModeChange) :
    Ensures (applyMode info c m b) fun r => J r.2 := by
  rw [applyMode]
  split
  · next i hi =>
    exact Ensures.value fun nick => (hJ.updateModepfx c nick m.enab hi h).bind fun _ h₁ =>
      Ensures.ok h₁
  · refine Ensures.ite (fun _ => ?_) fun _ => ?_
    · exact (addChanmode_rule hJ c h m.modestr).bind fun _ h₁ => Ensures.ok h₁
    · exact (dropChanmode_rule hJ c h m.modestr).bind fun _ h₁ => Ensures.ok h₁

theorem applyModes_rule (ms : List ModeChange) {b : Base} (h : J b) :
    Ensures (applyModes info c ms b) fun r => J r.2 := by
  induction ms generalizing b with
  | nil => exact Ensures.ok h
  | cons m ms ih =>
    exact (applyMode_rule hJ c h m).bind fun _ h₁ => (ih h₁).bind fun _ h₂ => Ensures.ok h₂

theorem listModes_rule (ms : List ModeChange) {b : Base} (h : J b) :
    Ensures (listModes info c ms b) fun r => J r.2 := by
  induction ms generalizing b with
  | nil => exact Ensures.ok h
  | cons m ms ih =>
    have hrest : ∀ r : Bool × Base, J r.2 → Ensures (listModes info c ms r.2 >>= fun r' =>
        .ok ((if r.1 then 0 else ALLOC_ERR) ||| r'.1, r'.2)) fun r => J r.2 :=
      fun r hr => (ih hr).bind fun _ h₂ => Ensures.ok h₂
    refine Ensures.ite (fun _ => (addChanmode_rule hJ c h m.modestr).bind hrest) fun _ => ?_
    exact (Ensures.map (q := fun r => J r.2) (dropChanmode_rule hJ c h m.modestr) fun _ h₁ =>
      h₁).bind hrest

end Modes

def Realloc (b b' : Base) : Prop := ∃ al, b' = { b with al }

theorem Realloc.refl (b : Base) : Realloc b b := ⟨b.al, rfl⟩

theorem Realloc.trans {a b c : Base} (h : Realloc a b) (h' : Realloc b c) : Realloc a c := by
  obtain ⟨_, rfl⟩ := h
  obtain ⟨al, rfl⟩ := h'
  exact ⟨al, rfl⟩

theorem Realloc.updateProp {b b' : Base} (h : Realloc b b') (info : Info) (prop : Option Str)
    (val : Str) :
    Realloc b (updateProp info prop val b').2 := by
  obtain ⟨al, rfl⟩ := h
  rw [TrackInfo.updateProp, Base.strdup]
  split
  · split <;> next heq =>
      obtain ⟨_, rfl⟩ := Prod.mk.inj heq
      exact ⟨_, rfl⟩
  · exact ⟨al, rfl⟩

theorem Realloc.user {b b' : Base} (hr : Realloc b b') (hJ : Preserves info J) (h : J b) {p : Ptr}
    {u u' : User}
    (hu : b.user p = .ok u) (hnick : u'.nick = u.nick) (hnchans : u'.nchans =
      u.nchans) (htag : u'.tag = u.tag)
    (hfree : u'.freetag = u.freetag) : J (b'.setUser p u') := by
  obtain ⟨al, rfl⟩ := hr
  exact hJ.user (hJ.al al h) hu hnick hnchans htag hfree

section Handlers

variable (msg : Msg) (nargs : Nat)

include hJ

theorem nameOf353_rule (h : J b) (c : Ptr) (nick : Str) {mpfx : Str} (hm : Marked info mpfx) :
    Ensures (nameOf353 b c nick mpfx) fun r => J r.2 := by
  rw [nameOf353]
  split
  · exact hJ.addMemb c _ hm h
  · refine (hJ.addUser nick h).bind fun ⟨added, b₁⟩ hr => ?_
    cases added with
    | none => exact Ensures.ok hr
    | some p =>
      refine (hJ.addMemb c p hm hr).bind fun r₁ h₁ =>
        Ensures.ite (fun _ => Ensures.ok h₁) fun _ => ?_
      exact (hJ.dropUser _ h₁).bind fun _ h₂ => Ensures.ok h₂

theorem enter_rule (c : Ptr) (ns : List (Str × Str)) {b : Base} (h : J b)
    (hm : ∀ n ∈ ns, Marked info n.2) :
    Ensures (enter c ns b) fun r => J r.2 := by
  induction ns generalizing b with
  | nil => exact Ensures.ok h
  | cons n ns ih =>
    refine (nameOf353_rule hJ h c n.1 (hm n List.mem_cons_self)).bind fun r hr => ?_
    exact Ensures.ite (fun _ => Ensures.ok hr) fun _ => ih hr fun n hn =>
      hm n (List.mem_cons_of_mem _ hn)

omit hJ in
theorem names_marked {mem : Mem} {k p : Nat} : ∀ n ∈ names info mem k p, Marked info n.2 := by
  induction k generalizing p with
  | zero => exact fun _ hn => absurd hn List.not_mem_nil
  | succ k ih =>
    intro n hn
    rw [names] at hn
    generalize (if (strchr info.m005modepfx.2 (mem.getD p 0)).isSome = true then p + 1
      else p) = p' at hn
    obtain rfl | hn := List.mem_cons.1 hn
    · dsimp only
      split
      · next hsym => exact Or.inr ⟨_, (isSome_strchr hsym.2).1 hsym.1, hsym.2, rfl⟩
      · exact Or.inl rfl
    · split at hn
      · cases hn
      · exact ih n hn

theorem h_JOIN_rule (h : J b) : Ensures (h_JOIN info msg nargs b) fun r => J r.2 := by
  have hnone : Marked info [] := Or.inl rfl
  refine Ensures.ite (fun _ => Ensures.ok h) fun _ => Ensures.value fun ident =>
    Ensures.value fun name => ?_
  dsimp only
  split
  · refine Ensures.ite (fun _ => ?_) fun _ => Ensures.ok h
    have hadd := hJ.addChan name h
    split <;> next heq => exact Ensures.ok (by rwa [heq] at hadd)
  · refine Ensures.ite (fun _ => Ensures.ok h) fun _ => ?_
    split
    · exact (hJ.addMemb _ _ hnone h).bind fun _ h₁ => Ensures.ok h₁
    · refine (hJ.addUser ident h).bind fun ⟨added, b₁⟩ hr => ?_
      cases added with
      | none => exact Ensures.ok hr
      | some p =>
        refine (hJ.addMemb _ p hnone hr).bind fun r₁ h₁ =>
          Ensures.ite (fun _ => Ensures.ok h₁) fun _ => ?_
        exact (hJ.dropUser _ h₁).bind fun _ h₂ => Ensures.ok h₂

theorem h_353_rule (h : J b) : Ensures (h_353 info msg nargs b) fun r => J r.2 := by
  refine Ensures.ite (fun _ => Ensures.ok h) fun _ => Ensures.value fun name => ?_
  split
  · exact Ensures.ok h
  · next c _ =>
    have henter : ∀ b₁, J b₁ → Ensures (msg.deref 5 >>= fun p =>
        names353 info c msg.mem (msg.mem.length + 2) p b₁) fun r => J r.2 := by
      refine fun b₁ h₁ => Ensures.value fun p => ?_
      rw [names353_eq]
      exact enter_rule hJ _ _ h₁ names_marked
    refine Ensures.ite (fun _ => ?_) fun _ => henter b h
    exact ((hJ.clearMemb c h).map fun b₁ h₁ => hJ.endofnames false h₁).bind henter

theorem h_366_rule (h : J b) : Ensures (h_366 msg nargs b) fun r => J r.2 := by
  have h₁ := hJ.endofnames true h
  refine Ensures.ite (fun _ => Ensures.ok h) fun _ => Ensures.value fun name => ?_
  dsimp only
  split
  · exact Ensures.ok h₁
  · exact Ensures.bind_of fun ch hch => Ensures.ok (hJ.chan h₁ hch rfl rfl rfl)

theorem h_PART_rule (h : J b) : Ensures (h_PART info msg nargs b) fun r => J r.2 := by
  refine Ensures.ite (fun _ => Ensures.ok h) fun _ => Ensures.value fun ident => ?_
  refine (hJ.touchUser ident h).bind fun b₁ h₁ => Ensures.value fun name => ?_
  split
  · exact Ensures.ok h₁
  · refine Ensures.ite (fun _ => (hJ.dropChan _ h₁).bind fun _ h₂ => Ensures.ok h₂) fun _ => ?_
    split
    · exact Ensures.ok h₁
    · exact (hJ.dropMemb _ _ true h₁).bind fun _ h₂ => Ensures.ok h₂

theorem h_QUIT_rule (h : J b) : Ensures (h_QUIT msg b) fun r => J r.2 := by
  refine Ensures.ite (fun _ => Ensures.ok h) fun _ => Ensures.value fun ident => ?_
  refine (hJ.touchUser ident h).bind fun b₁ h₁ => ?_
  split
  · exact Ensures.ok h₁
  · exact (hJ.dropUser _ h₁).bind fun _ h₂ => Ensures.ok h₂

theorem h_KICK_rule (h : J b) : Ensures (h_KICK info msg nargs b) fun r => J r.2 := by
  refine Ensures.ite (fun _ => Ensures.ok h) fun _ => Ensures.value fun ident => ?_
  refine (hJ.touchUser ident h).bind fun b₁ h₁ => Ensures.value fun name => ?_
  split
  · exact Ensures.ok h₁
  · refine Ensures.value fun nick => Ensures.ite (fun _ => ?_) fun _ => ?_
    · exact (hJ.dropChan _ h₁).bind fun _ h₂ => Ensures.ok h₂
    · split
      · exact Ensures.ok h₁
      · exact (hJ.dropMemb _ _ true h₁).bind fun _ h₂ => Ensures.ok h₂

theorem h_NICK_rule (h : J b) : Ensures (h_NICK info msg nargs b) fun r => J r.2 := by
  refine Ensures.ite (fun _ => Ensures.ok h) fun _ => Ensures.value fun ident => ?_
  refine (hJ.touchUser ident h).bind fun b₁ h₁ => Ensures.value fun newnick => ?_
  exact (hJ.renameUser ident newnick h₁).bind fun _ h₂ => Ensures.ok h₂

theorem h_352_rule (h : J b) : Ensures (h_352 info msg nargs b) fun r => J r.2 := by
  refine Ensures.ite (fun _ => Ensures.ok h) fun _ => Ensures.value fun nick => ?_
  split
  · exact Ensures.ok h
  · refine Ensures.bind_of fun u hu => Ensures.value fun uname => Ensures.value fun host =>
      Ensures.value fun trail => ?_
    have h₂ := ((Realloc.refl b).updateProp info u.uname uname).updateProp info u.host host
    split
    · exact Ensures.ok (h₂.user hJ h hu rfl rfl rfl rfl)
    · next i _ => exact Ensures.ok ((h₂.updateProp info u.fname (trail.drop (i + 1))).user hJ h hu rfl rfl rfl rfl)

theorem h_311_rule (h : J b) : Ensures (h_311 info msg nargs b) fun r => J r.2 := by
  refine Ensures.ite (fun _ => Ensures.ok h) fun _ => Ensures.value fun nick => ?_
  split
  · exact Ensures.ok h
  · refine Ensures.bind_of fun u hu => Ensures.value fun uname => Ensures.value fun host =>
      Ensures.value fun fname => ?_
    have h₂ := ((Realloc.refl b).updateProp info u.uname uname).updateProp info u.host host
    exact Ensures.ok ((h₂.updateProp info u.fname fname).user hJ h hu rfl rfl rfl rfl)

theorem h_332_rule (h : J b) : Ensures (h_332 msg nargs b) fun r => J r.2 := by
  refine Ensures.ite (fun _ => Ensures.ok h) fun _ => Ensures.value fun name => ?_
  split
  · exact Ensures.ok h
  · refine Ensures.bind_of fun ch hch => Ensures.value fun s => Ensures.ok ?_
    exact hJ.chan (hJ.al _ h) hch rfl rfl rfl

theorem h_333_rule (h : J b) : Ensures (h_333 msg nargs b) fun r => J r.2 := by
  refine Ensures.ite (fun _ => Ensures.ok h) fun _ => Ensures.value fun name => ?_
  split
  · exact Ensures.ok h
  · refine Ensures.bind_of fun ch hch => Ensures.value fun s => ?_
    dsimp only [Base.strdup]
    split
    · next heq =>
      obtain ⟨_, rfl⟩ := Prod.mk.inj heq
      exact Ensures.ok (hJ.chan (hJ.al _ h) hch rfl rfl rfl)
    · next heq =>
      obtain ⟨_, rfl⟩ := Prod.mk.inj heq
      exact Ensures.value fun _ => Ensures.ok (hJ.chan (hJ.al _ h) hch rfl rfl rfl)

theorem h_TOPIC_rule (h : J b) : Ensures (h_TOPIC msg nargs b) fun r => J r.2 := by
  refine Ensures.ite (fun _ => Ensures.ok h) fun _ => Ensures.value fun ident => ?_
  refine (hJ.touchUser ident h).bind fun b₁ h₁ => Ensures.value fun name => ?_
  split
  · exact Ensures.ok h₁
  · refine Ensures.bind_of fun ch hch => Ensures.value fun s => ?_
    dsimp only [Base.strdup]
    split
    · next heq =>
      obtain ⟨_, rfl⟩ := Prod.mk.inj heq
      exact Ensures.ok (hJ.chan (hJ.al _ h₁) hch rfl rfl rfl)
    · next heq =>
      obtain ⟨_, rfl⟩ := Prod.mk.inj heq
      exact Ensures.ok (hJ.chan (hJ.al _ (hJ.al _ h₁)) hch rfl rfl rfl)

theorem h_MODE_chanmode_rule (h : J b) :
    Ensures (h_MODE_chanmode info msg nargs b) fun r => J r.2 := by
  refine Ensures.ite (fun _ => Ensures.ok h) fun _ => Ensures.value fun ident => ?_
  have hrest : ∀ b₁, J b₁ → Ensures (chanmodes info msg b₁) fun r => J r.2 := by
    refine fun b₁ h₁ => Ensures.value fun name => ?_
    split
    · exact Ensures.ok h₁
    · refine Ensures.value fun r => ?_
      dsimp only
      split
      · exact Ensures.ok (hJ.al _ h₁)
      · exact applyModes_rule hJ _ _ (hJ.al _ h₁)
  exact Ensures.ite (fun _ => hrest b h) fun _ => (hJ.touchUser ident h).bind hrest

theorem h_MODE_rule (h : J b) : Ensures (h_MODE info msg nargs b) fun r => J r.2 := by
  refine Ensures.ite (fun _ => Ensures.ok h) fun _ => Ensures.value fun name => ?_
  exact Ensures.ite (fun _ => h_MODE_chanmode_rule hJ msg nargs h) fun _ => Ensures.ok h

theorem heard_rule (h : J b) (logon : Bool) : Ensures (heard msg nargs logon b) fun r => J r.2 := by
  refine Ensures.ite (fun _ => Ensures.ok h) fun _ => Ensures.value fun ident => ?_
  refine Ensures.ite (fun _ => ?_) fun _ => Ensures.ok h
  exact (hJ.touchUser ident h).bind fun _ h₁ => Ensures.ok h₁

theorem h_324_rule (h : J b) : Ensures (h_324 info msg nargs b) fun r => J r.2 := by
  refine Ensures.ite (fun _ => Ensures.ok h) fun _ => Ensures.value fun name => ?_
  split
  · exact Ensures.ok h
  · refine Ensures.value fun ⟨ms, al⟩ => ?_
    cases ms with
    | none => exact Ensures.ok (hJ.al al h)
    | some ms => exact (clearChanmodes_rule hJ _ (hJ.al al h)).bind fun _ h₁ =>
      listModes_rule hJ _ _ h₁

end Handlers

def tracks : Hnd → Bool
  | .h_JOIN | .h_311 | .h_332 | .h_333 | .h_352 | .h_353 | .h_366 | .h_PART | .h_QUIT | .h_NICK
  | .h_KICK | .h_MODE | .h_PRIVMSG | .h_NOTICE | .h_324 | .h_TOPIC => true
  | _ => false

/-- A tracking handler changes the base alone, and preserves what its parts preserve. -/
theorem tracking_rule {h : Hnd} (ht : tracks h = true) (irc : Irc) (msg : Msg) (nargs : Nat)
    (logon : Bool) :
    Ensures (run h irc msg nargs logon) fun r =>
      ∃ base, r.2 = { irc with base } ∧ ∀ J, Preserves irc.info J → J irc.base → J base := by
  have hrun : ∀ t : Irc → Msg → Nat → Bool → Base → Step,
      (∀ J, Preserves irc.info J → J irc.base →
        Ensures (t irc msg nargs logon irc.base) fun r => J r.2) →
      Ensures (tracking t irc msg nargs logon) fun r =>
        ∃ base, r.2 = { irc with base } ∧ ∀ J, Preserves irc.info J → J irc.base → J base := by
    intro t hj
    refine Ensures.bind (p := fun r => ∀ J, Preserves irc.info J → J irc.base → J r.2)
      (fun r hr J hJ hb => hj J hJ hb r hr) fun r hr => ?_
    exact Ensures.ok ⟨r.2, rfl, hr⟩
  cases h with
  | h_JOIN =>
    apply hrun
    exact fun _ hJ hb => h_JOIN_rule hJ msg nargs hb
  | h_311 =>
    apply hrun
    exact fun _ hJ hb => h_311_rule hJ msg nargs hb
  | h_332 =>
    apply hrun
    exact fun _ hJ hb => h_332_rule hJ msg nargs hb
  | h_333 =>
    apply hrun
    exact fun _ hJ hb => h_333_rule hJ msg nargs hb
  | h_352 =>
    apply hrun
    exact fun _ hJ hb => h_352_rule hJ msg nargs hb
  | h_353 =>
    apply hrun
    exact fun _ hJ hb => h_353_rule hJ msg nargs hb
  | h_366 =>
    apply hrun
    exact fun _ hJ hb => h_366_rule hJ msg nargs hb
  | h_PART =>
    apply hrun
    exact fun _ hJ hb => h_PART_rule hJ msg nargs hb
  | h_QUIT =>
    apply hrun
    exact fun _ hJ hb => h_QUIT_rule hJ msg hb
  | h_NICK =>
    apply hrun
    exact fun _ hJ hb => h_NICK_rule hJ msg nargs hb
  | h_KICK =>
    apply hrun
    exact fun _ hJ hb => h_KICK_rule hJ msg nargs hb
  | h_MODE =>
    apply hrun
    exact fun _ hJ hb => h_MODE_rule hJ msg nargs hb
  | h_PRIVMSG | h_NOTICE =>
    apply hrun
    exact fun _ hJ hb => heard_rule hJ msg nargs hb logon
  | h_324 =>
    apply hrun
    exact fun _ hJ hb => h_324_rule hJ msg nargs hb
  | h_TOPIC =>
    apply hrun
    exact fun _ hJ hb => h_TOPIC_rule hJ msg nargs hb
  | _ => cases ht

end Srsirc.TrackRule
