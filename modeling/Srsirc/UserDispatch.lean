import Srsirc.UserHandlers

namespace Srsirc.UserDispatch

open CharMap HeapCells Message Fallible UserHandlers

variable {Cb σ : Type} {u u' : Uctx Cb}

/-- Somewhere on its way a callback makes a registration that moves the array of `pre`. -/
def Outgrows (pre : Bool) : Act Cb σ → Uctx Cb → Prop
  | .done _ _, _ => False
  | .reg cmd hndfn kind k, u => (kind = pre ∧ Moves u pre) ∨
      ∃ ok u', reguhnd u cmd hndfn kind = .ok (ok, u') ∧ Outgrows pre (k ok) u'

/-- Over `k` slots from slot `i` on, no callback for the command makes the array outgrow its
memory, unless the pass ends with it: in the last slot, or by what it returns. -/
def Fits (call : Cb → Bool → σ → Act Cb σ) (cmd : Str) (pre : Bool) :
    Nat → Nat → σ → Uctx Cb → Prop
  | 0, _, _, _ => True
  | k + 1, i, s, u =>
    match (u.slots pre)[i]? with
    | some (some e) =>
      (e.cmd ≠ cmd → Fits call cmd pre k (i + 1) s u) ∧
        (e.cmd = cmd → ∀ s' u', (call e.hndfn pre s).exec u = .ok (true, s', u') →
          (Outgrows pre (call e.hndfn pre s) u → k = 0) ∧ Fits call cmd pre k (i + 1) s' u')
    | _ => Fits call cmd pre k (i + 1) s u

/-- The handlers for a command in the slots of a list that begins with slot `i`. -/
def handlersFor (cmd : Str) : Slots Cb → Nat → List (Nat × Cb)
  | [], _ => []
  | none :: slots, i => handlersFor cmd slots (i + 1)
  | some e :: slots, i =>
    if e.cmd = cmd then (i, e.hndfn) :: handlersFor cmd slots (i + 1)
      else handlersFor cmd slots (i + 1)

def wasThere (cmd : Str) (slots : Slots Cb) (j : Nat) : Bool :=
  (slots[j]?.join).any fun e => e.cmd = cmd

/-- Of the handlers for the command that were there before the pass, in the slots from `i` on,
each was called once, in slot order, as far as none before it returned false. -/
structure Calls (cmd : Str) (slots : Slots Cb) (i : Nat) (p : Pass Cb σ) : Prop where
  order : p.calls.Pairwise fun c c' => c.1 < c'.1
  since : ∀ c ∈ p.calls, i ≤ c.1
  all : p.ok = true →
    p.calls.filter (fun c => wasThere cmd slots c.1) = handlersFor cmd (slots.drop i) i
  upto : p.ok = false → ∃ c, p.calls.getLast? = some c ∧
    p.calls.filter (fun c => wasThere cmd slots c.1) =
      (handlersFor cmd (slots.drop i) i).filter fun h => h.1 ≤ c.1

/-- What a callback does to the array of a kind of handlers. -/
structure Ran (pre : Bool) (act : Act Cb σ) (u u' : Uctx Cb) : Prop where
  stays : ¬Outgrows pre act u → u'.hnds pre = u.hnds pre ∧ Extends (u.slots pre) (u'.slots pre)
  gone : Outgrows pre act u → u'.arrays.get (u.hnds pre).harr = none
  dead : ∀ p, p < u.arrays.next → u.arrays.get p = none → p < u'.arrays.next ∧
      u'.arrays.get p = none

theorem exec_spec (act : Act Cb σ) (h : Owned u) :
    ∃ ok s u', act.exec u = .ok (ok, s, u') ∧ Owned u' ∧ ∀ pre, Ran pre act u u' := by
  induction act generalizing u with
  | done ok s =>
    exact ⟨ok, s, u, rfl, h,
      fun pre => ⟨fun _ => ⟨rfl, Extends.refl _⟩, False.elim, fun p hp hd => ⟨hp, hd⟩⟩⟩
  | reg cmd hndfn kind k ih =>
    obtain ⟨ok₁, u₁, hreg, h₁, hr⟩ := reguhnd_spec h cmd hndfn kind
    obtain ⟨ok, s, u', hexec, h', hk⟩ := ih ok₁ h₁
    refine ⟨ok, s, u', ?_, h', fun pre => ⟨fun hno => ?_, fun hout => ?_, fun p hp hd => ?_⟩⟩
    · rw [Act.exec, hreg, ok_bind]
      exact hexec
    · rw [Outgrows, not_or] at hno
      obtain ⟨hstay, hext⟩ := (hr pre).stays hno.1
      obtain ⟨hstay', hext'⟩ := (hk pre).stays fun hout => hno.2 ⟨ok₁, u₁, hreg, hout⟩
      exact ⟨hstay'.trans hstay, hext.trans hext'⟩
    · by_cases hmove : kind = pre ∧ Moves u pre
      · obtain ⟨hlt, hgone⟩ := (hr pre).moves hmove
        exact ((hk pre).dead _ hlt hgone).2
      · obtain ⟨ok₂, u₂, hreg₂, hout₂⟩ := hout.resolve_left hmove
        rw [hreg] at hreg₂
        obtain ⟨rfl, rfl⟩ := Prod.mk.inj (Except.ok.inj hreg₂)
        rw [← ((hr pre).stays hmove).1]
        exact (hk pre).gone hout₂
    · obtain ⟨hp₁, hd₁⟩ := (hr pre).dead p hp hd
      exact (hk pre).dead p hp₁ hd₁

theorem handlersFor_ge {cmd : Str} {slots : Slots Cb} {i : Nat} :
    ∀ h ∈ handlersFor cmd slots i, i ≤ h.1 := by
  induction slots generalizing i with
  | nil => exact fun h hh => absurd hh List.not_mem_nil
  | cons o slots ih =>
    intro h hh
    cases o with
    | none => exact Nat.le_of_succ_le (ih h hh)
    | some e =>
      rw [handlersFor] at hh
      split at hh
      · obtain rfl | hh := List.mem_cons.1 hh
        · exact Nat.le_refl i
        · exact Nat.le_of_succ_le (ih h hh)
      · exact Nat.le_of_succ_le (ih h hh)

section Step

variable {cmd : Str} {slots : Slots Cb} {i : Nat}

theorem handlersFor_drop {o : Option (Umsghnd Cb)} (h : slots[i]? = some o) :
    handlersFor cmd (slots.drop i) i = handlersFor cmd (o :: slots.drop (i + 1)) i := by
  obtain ⟨hi, rfl⟩ := List.getElem?_eq_some_iff.1 h
  rw [List.drop_eq_getElem_cons hi]

theorem handlersFor_miss (h : wasThere cmd slots i = false) :
    handlersFor cmd (slots.drop i) i = handlersFor cmd (slots.drop (i + 1)) (i + 1) := by
  match ho : slots[i]? with
  | none =>
    have hlen := List.getElem?_eq_none_iff.1 ho
    rw [List.drop_of_length_le hlen, List.drop_of_length_le (Nat.le_succ_of_le hlen)]
    rfl
  | some none => rw [handlersFor_drop ho, handlersFor]
  | some (some e) =>
    have hne : e.cmd ≠ cmd := by simpa [wasThere, ho] using h
    rw [handlersFor_drop ho, handlersFor, if_neg hne]

theorem handlersFor_end (h : slots.length ≤ i) : handlersFor cmd (slots.drop i) i = [] := by
  rw [List.drop_of_length_le h, handlersFor]

/-- The slot at hand was there before, or holds no handler that counts. -/
theorem handlersFor_step {slots' : Slots Cb} (hext : Extends slots slots') {e : Umsghnd Cb}
    (h : slots'[i]? = some (some e)) (hcmd : e.cmd = cmd) :
    handlersFor cmd (slots.drop i) i = (if wasThere cmd slots i then [(i, e.hndfn)] else []) ++
      handlersFor cmd (slots.drop (i + 1)) (i + 1) := by
  split
  · next hwas =>
    obtain ⟨e', he', _⟩ := (Option.any_eq_true _ _).1 hwas
    have hslot := Option.join_eq_some_iff.1 he'
    have he := hext i e' hslot
    rw [h] at he
    cases he
    rw [handlersFor_drop hslot, handlersFor, if_pos hcmd, List.singleton_append]
  · next hwas => exact handlersFor_miss (Bool.not_eq_true _ ▸ hwas)

variable {p : Pass Cb σ}

theorem Calls.later (h : Calls cmd slots (i + 1) p) (hwas : wasThere cmd slots i = false) :
    Calls cmd slots i p := by
  refine ⟨h.order, fun c hc => Nat.le_of_succ_le (h.since c hc), ?_, ?_⟩
  · rw [handlersFor_miss hwas]
    exact h.all
  · rw [handlersFor_miss hwas]
    exact h.upto

theorem Calls.cons (h : Calls cmd slots (i + 1) p) {hndfn : Cb}
    (hhs : handlersFor cmd (slots.drop i) i = (if wasThere cmd slots i then [(i, hndfn)] else []) ++
      handlersFor cmd (slots.drop (i + 1)) (i + 1)) :
    Calls cmd slots i { p with calls := (i, hndfn) :: p.calls } := by
  have hfilter : ((i, hndfn) :: p.calls).filter (fun c => wasThere cmd slots c.1) =
      (if wasThere cmd slots i then [(i, hndfn)] else []) ++
        p.calls.filter fun c => wasThere cmd slots c.1 := by
    rw [List.filter_cons]
    split <;> rfl
  refine ⟨?_, ?_, fun hok => ?_, fun hok => ?_⟩
  · exact List.Pairwise.cons (fun c hc => h.since c hc) h.order
  · intro c hc
    obtain rfl | hc := List.mem_cons.1 hc
    · exact Nat.le_refl i
    · exact Nat.le_of_succ_le (h.since c hc)
  · rw [hfilter, hhs, h.all hok]
  · obtain ⟨c, hlast, hupto⟩ := h.upto hok
    have hi : i ≤ c.1 := Nat.le_of_succ_le (h.since c (List.mem_of_getLast? hlast))
    refine ⟨c, by rw [List.getLast?_cons, hlast]; rfl, ?_⟩
    rw [hfilter, hhs, hupto, List.filter_append]
    congr 1
    split
    · rw [List.filter_singleton]
      simp [hi]
    · rfl

theorem Calls.none (h : slots.length ≤ i) (s : σ) (u : Uctx Cb) :
    Calls cmd slots i ⟨true, [], s, u⟩ := by
  refine ⟨List.Pairwise.nil, fun c hc => absurd hc List.not_mem_nil, fun _ => ?_,
    fun hok => Bool.noConfusion hok⟩
  rw [handlersFor_end h, List.filter_nil]

theorem Calls.last {hndfn : Cb} (s : σ) (u : Uctx Cb)
    (hhs : handlersFor cmd (slots.drop i) i = (if wasThere cmd slots i then [(i, hndfn)] else []) ++
      handlersFor cmd (slots.drop (i + 1)) (i + 1)) :
        Calls cmd slots i ⟨false, [(i, hndfn)], s, u⟩ := by
  refine ⟨List.pairwise_singleton _ _, ?_, fun hok => Bool.noConfusion hok,
    fun _ => ⟨(i, hndfn), rfl, ?_⟩⟩
  · simp
  · have hrest : (handlersFor cmd (slots.drop (i + 1)) (i + 1)).filter (fun h => h.1 ≤ i) = [] := by
      rw [List.filter_eq_nil_iff]
      intro c hc
      have hge := handlersFor_ge c hc
      simp only [decide_eq_true_eq]
      omega
    rw [hhs, List.filter_append, hrest, List.append_nil, List.filter_singleton]
    cases wasThere cmd slots i <;> simp

end Step

variable {call : Cb → Bool → σ → Act Cb σ} {cmd : Str} {pre : Bool} {slots : Slots Cb}

theorem wasThere_of_extends {slots' : Slots Cb} (hext : Extends slots slots') {i : Nat}
    (h : ∀ e, slots'[i]? = some (some e) → e.cmd ≠ cmd) : wasThere cmd slots i = false := by
  rw [wasThere]
  match ho : slots[i]? with
  | none => rfl
  | some none => rfl
  | some (some e) => simpa using h e (hext i e ho)

theorem dispatchFrom_serves (k : Nat) {i : Nat} {s : σ} {u : Uctx Cb} (h : Owned u)
    (hext : Extends slots (u.slots pre)) (hlen : slots.length = (u.hnds pre).hcnt)
    (hk : i + k = (u.hnds pre).hcnt) (hfits : Fits call cmd pre k i s u) :
    ∃ p, dispatchFrom call cmd pre (u.hnds pre).harr k i s u = .ok p ∧ Calls cmd slots i p := by
  induction k generalizing i s u with
  | zero => exact ⟨_, rfl, Calls.none (by omega) s u⟩
  | succ k ih =>
    have hread : u.read (u.hnds pre).harr = .ok (u.slots pre) := by rw [Uctx.read, h.live]
    have hi : i < (u.slots pre).length := by
      rw [h.length]
      omega
    rw [dispatchFrom, hread, ok_bind]
    rcases ho : (u.slots pre)[i]? with _ | _ | e
    · have hge := List.getElem?_eq_none_iff.1 ho
      omega
    · simp only [Fits, ho] at hfits
      obtain ⟨p, hp, hcalls⟩ := ih h hext hlen (by omega) hfits
      refine ⟨p, hp, hcalls.later (wasThere_of_extends hext fun e he => ?_)⟩
      rw [ho] at he
      cases he
    · simp only [Fits, ho] at hfits
      dsimp only
      by_cases hcmd : e.cmd = cmd
      · rw [if_neg (not_not.2 hcmd)]
        have hhs := handlersFor_step hext ho hcmd
        obtain ⟨ok, s', u', hexec, h', hran⟩ := exec_spec (call e.hndfn pre s) h
        rw [hexec, ok_bind]
        cases ok with
        | false => exact ⟨_, rfl, Calls.last s' u' hhs⟩
        | true =>
          obtain ⟨hout, hrest⟩ := hfits.2 hcmd s' u' hexec
          by_cases hgrow : Outgrows pre (call e.hndfn pre s) u
          · obtain rfl := hout hgrow
            exact ⟨_, rfl, (Calls.none (by omega) s' u').cons hhs⟩
          · obtain ⟨hstay, hext'⟩ := (hran pre).stays hgrow
            obtain ⟨p, hp, hcalls⟩ := ih h' (hext.trans hext') (by rw [hstay, hlen])
              (by rw [hstay]; omega) hrest
            rw [hstay] at hp
            exact ⟨_, by simp [hp], hcalls.cons hhs⟩
      · rw [if_pos hcmd]
        obtain ⟨p, hp, hcalls⟩ := ih h hext hlen (by omega) (hfits.1 hcmd)
        refine ⟨p, hp, hcalls.later (wasThere_of_extends hext fun e' he' => ?_)⟩
        rw [ho] at he'
        cases he'
        exact hcmd

/-- A pass that goes on after its array was moved reads the old one. -/
theorem dispatchFrom_stale (k : Nat) {i : Nat} {s : σ} {u : Uctx Cb} (h : Owned u)
    (hk : i + k = (u.hnds pre).hcnt) (hfits : ¬Fits call cmd pre k i s u) :
    dispatchFrom call cmd pre (u.hnds pre).harr k i s u = .error .badPtr := by
  induction k generalizing i s u with
  | zero => exact absurd trivial hfits
  | succ k ih =>
    have hread : u.read (u.hnds pre).harr = .ok (u.slots pre) := by rw [Uctx.read, h.live]
    have hi : i < (u.slots pre).length := by
      rw [h.length]
      omega
    rw [dispatchFrom, hread, ok_bind]
    rcases ho : (u.slots pre)[i]? with _ | _ | e
    · have hge := List.getElem?_eq_none_iff.1 ho
      omega
    · simp only [Fits, ho] at hfits
      exact ih h (by omega) hfits
    · simp only [Fits, ho] at hfits
      dsimp only
      by_cases hcmd : e.cmd = cmd
      · rw [if_neg (not_not.2 hcmd)]
        obtain ⟨ok, s', u', hexec, h', hran⟩ := exec_spec (call e.hndfn pre s) h
        have hgo : ok = true ∧ ¬((Outgrows pre (call e.hndfn pre s) u → k = 0) ∧
            Fits call cmd pre k (i + 1) s' u') := by
          by_contra hno
          refine hfits ⟨fun hne => absurd hcmd hne, fun _ s'' u'' hexec' => ?_⟩
          rw [hexec] at hexec'
          cases hexec'
          by_contra hbad
          exact hno ⟨rfl, hbad⟩
        obtain ⟨rfl, hbad⟩ := hgo
        rw [hexec, ok_bind]
        by_cases hgrow : Outgrows pre (call e.hndfn pre s) u
        · cases k with
          | zero => exact absurd ⟨fun _ => rfl, trivial⟩ hbad
          | succ k =>
            have hgone : u'.read (u.hnds pre).harr = .error .badPtr := by
              rw [Uctx.read, (hran pre).gone hgrow]
            simp only [dispatchFrom, hgone]
            rfl
        · have hstay := ((hran pre).stays hgrow).1
          have herr := ih h' (by rw [hstay]; omega) fun hf => hbad ⟨fun hg => absurd hg hgrow, hf⟩
          rw [hstay] at herr
          simp only [herr]
          rfl
      · rw [if_pos hcmd]
        exact ih h (by omega) fun hf => hfits ⟨fun _ => hf, fun hc => absurd hc hcmd⟩

/-- A pass over the handlers of the user reads no array that was freed, and calls each handler
that was there before, exactly if no callback but the last outgrows the array. -/
theorem pass_exact (call : Cb → Bool → σ → Act Cb σ) (cmd : Str) (pre : Bool) (s : σ) (u : Uctx Cb)
    (h : Owned u) :
    (∃ p, dispatchUhnd call cmd pre s u = .ok p ∧ Calls cmd (u.slots pre) 0 p) ↔
      Fits call cmd pre (u.hnds pre).hcnt 0 s u := by
  constructor
  · rintro ⟨p, hp, _⟩
    by_contra hfits
    have herr := dispatchFrom_stale _ h (Nat.zero_add _) hfits
    rw [dispatchUhnd, herr] at hp
    cases hp
  · exact dispatchFrom_serves _ h (Extends.refl _) (h.length pre) (Nat.zero_add _)

def regAll : List (Str × Cb × Bool) → Uctx Cb → Except Fault (Uctx Cb)
  | [], u => .ok u
  | (cmd, hndfn, pre) :: regs, u => do
    let (_, u) ← reguhnd u cmd hndfn pre
    regAll regs u

theorem regAll_owned (regs : List (Str × Cb × Bool)) {u : Uctx Cb} (h : Owned u) :
    Returns (regAll regs u) Owned := by
  induction regs generalizing u with
  | nil => exact Returns.ok h
  | cons r regs ih =>
    obtain ⟨cmd, hndfn, pre⟩ := r
    obtain ⟨ok, u', hreg, h', _⟩ := reguhnd_spec h cmd hndfn pre
    rw [regAll, hreg, ok_bind]
    exact ih h'

/-- A callback that registers one more handler, ahead of those of the library. -/
def registersOne (cmd : String) : Unit → Bool → Unit → Act Unit Unit := fun _ _ _ =>
  .reg (ascii cmd) () true fun _ => .done true ()

theorem pass_exact_one : ∃ u, regAll [(ascii "PING", (), true)] (Uctx.init []) = .ok u ∧
    ∃ p, dispatchUhnd (registersOne "PONG") (ascii "PING") true () u = .ok p ∧
      Calls (ascii "PING") (u.slots true) 0 p := by
  obtain ⟨u, hu, h⟩ := regAll_owned [(ascii "PING", (), true)] (owned_init [])
  refine ⟨u, hu, (pass_exact (registersOne "PONG") (ascii "PING") true () u h).2 ?_⟩
  cases hu
  refine ⟨fun hc => absurd (by decide) hc, fun _ s' u' hexec => ?_⟩
  cases hexec
  refine ⟨fun hout => ?_, fun _ => trivial, fun hc => absurd hc (by decide)⟩
  obtain ⟨_, hfull, _⟩ | ⟨_, _, _, hout⟩ := hout
  · exact absurd (List.mem_cons_of_mem _ List.mem_cons_self) hfull
  · exact hout.elim

/-- In a full table the first callback moves the array, and the second slot is read from the
memory that was freed. -/
theorem pass_stale : ∃ u,
    regAll (List.replicate 8 (ascii "PING", (), true)) (Uctx.init []) = .ok u ∧
      dispatchUhnd (registersOne "PING") (ascii "PING") true () u = .error .badPtr := by
  obtain ⟨u, hu, _⟩ := regAll_owned (List.replicate 8 (ascii "PING", (), true)) (owned_init [])
  refine ⟨u, hu, ?_⟩
  cases hu
  rfl

end Srsirc.UserDispatch
