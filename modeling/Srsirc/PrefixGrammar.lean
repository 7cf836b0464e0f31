import Srsirc.PrefixTable

namespace Srsirc.PrefixGrammar

open CharMap HeapCells Message ServerInfo UserBase Context Conn CoreHandlers Dispatch Connect
open Fallible Casemapping HandlerCalls OneCasemap PrefixTable

def Paired (info : Info) : Prop := info.m005modepfx.1.length = info.m005modepfx.2.length

def Body (rest : Str) (table : Str × Str) : Prop :=
  rest = table.1 ++ 0x29 :: table.2 ∧ table.1 ≠ [] ∧ table.1.length = table.2.length ∧
    0x29 ∉ table.1

/-- What is documented about a PREFIX value and the table it stands for. -/
def Form (val : Str) (table : Str × Str) : Prop :=
  val = [] ∧ table = ([], []) ∨ ∃ rest, val = 0x28 :: rest ∧ Body rest table

/-- A value of the documented form sets its table, and any other is an error that leaves the
table as it is. -/
structure Exact (val : Str) (info : Info) (r : Flags × Info) : Prop where
  accepted : ∀ table, Form val table → r.1.has CANT_PROCEED = false ∧ r.2.m005modepfx = table
  rejected : (∀ table, ¬Form val table) → r.1 = PROTO_ERR ∧ r.2.m005modepfx = info.m005modepfx

/-- There is a value, and it is not taken for another one by its end. -/
def Proper : Str → Prop
  | [] => False
  | c :: rest => c = 0x28 ∨ ∀ table, ¬Body rest table

section Value

variable {info : Info} {val rest : Str} {table : Str × Str} {c : UInt8}

theorem findIdx?_body {m : Str} (hm : 0x29 ∉ m) (p : Str) :
    (m ++ 0x29 :: p).findIdx? (· == 0x29) = some m.length := by
  have h := @strchr_at m p 0x29 (by decide) hm
  rwa [strchr, if_neg (by decide)] at h

/-- A body is what the code splits in two. -/
theorem body_of_findIdx? {i : Nat} (h : rest.findIdx? (· == 0x29) = some i)
    (hne : rest.take i ≠ []) (hlen : (rest.take i).length = (rest.drop (i + 1)).length) :
    Body rest (rest.take i, rest.drop (i + 1)) := by
  obtain ⟨m, p, rfl, rfl, hm⟩ := @strchr_split rest 0x29 i (by decide) h
  have htake : (m ++ 0x29 :: p).take m.length = m := List.take_left
  have hdrop : (m ++ 0x29 :: p).drop (m.length + 1) = p := List.drop_length_add_append 1
  rw [htake, hdrop] at hlen ⊢
  exact ⟨rfl, htake ▸ hne, hlen, hm⟩

theorem handle_005_PREFIX_body (hlen : rest.length ≤ 30) (h : Body rest table) (c : UInt8) :
    handle_005_PREFIX info (c :: rest) = (0, { info with m005modepfx := table }) := by
  obtain ⟨rfl, hne, heq, hm⟩ := h
  obtain ⟨m, p⟩ := table
  dsimp only at *
  rw [List.length_append, List.length_cons] at hlen
  have hcut : strNcpy (m ++ 0x29 :: p) 32 = m ++ 0x29 :: p := by
    refine List.take_of_length_le ?_
    rw [List.length_append, List.length_cons]
    omega
  have htake : (m ++ 0x29 :: p).take m.length = m := List.take_left
  have hdrop : (m ++ 0x29 :: p).drop (m.length + 1) = p := List.drop_length_add_append 1
  have hm' : strNcpy m MAX_005_MDPFX = m := List.take_of_length_le (by rw [MAX_005_MDPFX]; omega)
  have hp' : strNcpy p MAX_005_MDPFX = p := List.take_of_length_le (by rw [MAX_005_MDPFX]; omega)
  simp only [handle_005_PREFIX, hcut, findIdx?_body hm, htake, hdrop, hm', hp']
  exact if_neg fun h => h.elim hne fun h => h heq

theorem handle_005_PREFIX_other (hlen : rest.length ≤ 30) (h : ∀ table, ¬Body rest table)
    (c : UInt8) :
    handle_005_PREFIX info (c :: rest) = (PROTO_ERR, info) := by
  have hcut : strNcpy rest 32 = rest := List.take_of_length_le (by omega)
  simp only [handle_005_PREFIX, hcut]
  split
  · rfl
  · next i hi =>
    refine if_pos ?_
    by_contra hnot
    obtain ⟨hne, heq⟩ := not_or.1 hnot
    exact h _ (body_of_findIdx? hi hne (not_not.1 heq))

theorem form_cons : Form (c :: rest) table ↔ c = 0x28 ∧ Body rest table := by
  constructor
  · rintro (⟨h, _⟩ | ⟨rest', h, hb⟩)
    · cases h
    · cases h
      exact ⟨rfl, hb⟩
  · rintro ⟨rfl, hb⟩
    exact Or.inr ⟨rest, rfl, hb⟩

/-- A value that is read whole is recognised just if it is proper. -/
theorem exact_iff (info : Info) (hlen : val.length ≤ 31) :
    Exact val info (handle_005_PREFIX info val) ↔ Proper val := by
  have hgood : Flags.has 0 CANT_PROCEED = false := by decide
  have hbad : PROTO_ERR.has CANT_PROCEED = true := by decide
  cases val with
  | nil =>
    refine ⟨fun h => ?_, False.elim⟩
    have hnot : PROTO_ERR.has CANT_PROCEED = false := (h.accepted ([], []) (Or.inl ⟨rfl, rfl⟩)).1
    rw [hbad] at hnot
    cases hnot
  | cons c rest =>
    have hlen : rest.length ≤ 30 := Nat.le_of_succ_le_succ hlen
    constructor
    · intro h
      by_contra hnot
      obtain ⟨hc, hbody⟩ := not_or.1 hnot
      obtain ⟨table, hbody⟩ := not_forall_not.1 hbody
      have hr := (h.rejected fun table hf => hc (form_cons.1 hf).1).1
      rw [handle_005_PREFIX_body hlen hbody] at hr
      have hzero : (0 : Flags) ≠ PROTO_ERR := by decide
      exact hzero hr
    · intro hproper
      refine ⟨fun table hf => ?_, fun hnot => ?_⟩
      · rw [handle_005_PREFIX_body hlen (form_cons.1 hf).2]
        exact ⟨hgood, rfl⟩
      · rw [handle_005_PREFIX_other hlen fun table hbody => ?_]
        · exact ⟨rfl, rfl⟩
        · obtain rfl | hno := hproper
          · exact hnot table (form_cons.2 ⟨rfl, hbody⟩)
          · exact hno table hbody

theorem strNcpy_length {s t : Str} (h : s.length = t.length) (n : Nat) :
    (strNcpy s n).length = (strNcpy t n).length := by
  rw [strNcpy, strNcpy, List.length_take, List.length_take, h]

theorem paired_init : Paired .init := by
  rw [Paired]
  decide

theorem handle_005_PREFIX_paired (h : Paired info) (val : Str) :
    Paired (handle_005_PREFIX info val).2 := by
  cases val with
  | nil => exact h
  | cons c rest =>
    rw [handle_005_PREFIX]
    dsimp only
    split
    · exact h
    · split
      · exact h
      · next hcond =>
        exact strNcpy_length (not_not.1 (not_or.1 hcond).2) MAX_005_MDPFX

theorem accepted_paired (h : accepted val = some table) : table.1.length = table.2.length := by
  rw [accepted] at h
  split at h
  · cases h
  · cases h
    exact handle_005_PREFIX_paired paired_init val

end Value

section Token

variable {irc : Irc} {nam : Str}

theorem named_prefix (hnam : sameIgnoringCase nam "PREFIX" = true) :
    sameIgnoringCase nam "CASEMAPPING" = false ∧ 0x3d ∉ nam := by
  rw [sameIgnoringCase, decide_eq_true_eq] at hnam
  refine ⟨?_, fun hmem => ?_⟩
  · rw [sameIgnoringCase, hnam]
    decide
  · have hmem := List.mem_map_of_mem (f := (tolower · .ascii)) hmem
    rw [hnam] at hmem
    exact absurd hmem (by decide)

theorem token_split (h : 0x3d ∉ nam) (val : Str) :
    (nam ++ 0x3d :: val).takeWhile (· != 0x3d) = nam ∧
    (nam ++ 0x3d :: val).drop (nam.length + 1) = val := by
  constructor
  · rw [Memory.takeWhile_append_stop rfl, List.takeWhile_eq_self_iff]
    exact fun c hc => bne_iff_ne.2 fun he => h (he ▸ hc)
  · exact List.drop_length_add_append 1

theorem noteAttr_copied (hnam : sameIgnoringCase nam "PREFIX" = true)
    (hmem : irc.base.malloc.1 = true)
    (val : Str) : ∃ r info, noteAttr irc (nam ++ 0x3d :: val) = .ok r ∧
      info.m005modepfx = irc.info.m005modepfx ∧ (r.1, r.2.info) = handle_005_PREFIX info val := by
  obtain ⟨hcm, heq⟩ := named_prefix hnam
  obtain ⟨hname, hval⟩ := token_split heq val
  rw [noteAttr]
  simp only [hname, hval, Irc.strdup, Base.strdup, hmem, if_true, handleAttr, hcm, hnam,
    Bool.false_eq_true,
    if_false, ok_bind]
  exact ⟨_, { irc.info with
    m005attrs := ((irc.info.m005attrs.del nam).2.put nam val irc.base.malloc.2.al).2.1 },
      rfl, rfl, rfl⟩

theorem noteAttr_starved (hnam : sameIgnoringCase nam "PREFIX" = true)
    (hmem : irc.base.malloc.1 = false)
    (val : Str) : noteAttr irc (nam ++ 0x3d :: val) = .error .badPtr := by
  obtain ⟨hcm, heq⟩ := named_prefix hnam
  obtain ⟨hname, hval⟩ := token_split heq val
  rw [noteAttr]
  simp only [hname, hval, Irc.strdup, Base.strdup, hmem, handleAttr, hcm, hnam, Bool.false_eq_true,
    if_true, if_false]
  rfl

/-- A PREFIX token is recognised exactly, and leaves tables of equal length, just if its value
can be copied and is proper or too long to matter. -/
theorem prefix_exact_iff (irc : Irc) (nam val : Str) (hnam : sameIgnoringCase nam "PREFIX" = true) :
    (∃ r, noteAttr irc (nam ++ 0x3d :: val) = .ok r ∧ (Paired irc.info → Paired r.2.info) ∧
      (val.length ≤ 31 → Exact val irc.info (r.1, r.2.info))) ↔
        irc.base.malloc.1 = true ∧ (val.length ≤ 31 → Proper val) := by
  cases hmem : irc.base.malloc.1 with
  | false =>
    rw [noteAttr_starved hnam hmem]
    exact ⟨fun ⟨_, h, _⟩ => (nomatch h), fun h => (nomatch h.1)⟩
  | true =>
    obtain ⟨r, info, hr, hinfo, hval⟩ := noteAttr_copied hnam hmem val
    have hsame : Exact val irc.info (r.1, r.2.info) ↔
        Exact val info (handle_005_PREFIX info val) := by
      rw [hval]
      constructor <;> exact fun h => ⟨h.accepted, fun hnot => hinfo ▸ h.rejected hnot⟩
    have hpaired : Paired irc.info → Paired r.2.info := by
      intro hp
      rw [Paired, ← hinfo] at hp
      have h := handle_005_PREFIX_paired hp val
      rwa [← hval] at h
    constructor
    · rintro ⟨r', hr', _, hexact⟩
      obtain rfl := Except.ok.inj (hr.symm.trans hr')
      exact ⟨rfl, fun hlen => (exact_iff info hlen).1 (hsame.1 (hexact hlen))⟩
    · rintro ⟨_, hproper⟩
      exact ⟨r, hr, hpaired, fun hlen => hsame.2 ((exact_iff info hlen).2 (hproper hlen))⟩

def fresh : Irc := ircInit (0, 0) [] (serving [])

theorem prefix_exact_sample :
    ∃ r, noteAttr fresh (ascii "PREFIX" ++ 0x3d :: ascii "(qaov)~&@+") = .ok r ∧
    (Paired fresh.info → Paired r.2.info) ∧ ((ascii "(qaov)~&@+").length ≤ 31 →
      Exact (ascii "(qaov)~&@+") fresh.info (r.1, r.2.info)) :=
  (prefix_exact_iff fresh (ascii "PREFIX") (ascii "(qaov)~&@+") (by decide)).2
    ⟨rfl, fun _ => Or.inl rfl⟩

/-- No prefixes at all are documented, but not understood, and the first byte can be anything. -/
theorem prefix_misjudged :
    handle_005_PREFIX .init [] = (PROTO_ERR, .init) ∧ Form [] ([], []) ∧
      (handle_005_PREFIX .init (ascii "xq)~")).1 = 0 ∧
      (handle_005_PREFIX .init (ascii "xq)~")).2.m005modepfx = (ascii "q", ascii "~") ∧
      (∀ table, ¬Form (ascii "xq)~") table) ∧
      ¬Exact [] Info.init (handle_005_PREFIX .init []) := by
  refine ⟨rfl, Or.inl ⟨rfl, rfl⟩, by decide, by decide, fun table h => ?_, fun h => ?_⟩
  · exact absurd (form_cons.1 h).1 (by decide)
  · have hlen : ([] : Str).length ≤ 31 := Nat.zero_le 31
    exact (exact_iff .init hlen).1 h

end Token

section Runs

variable {pre post : Irc → Msg → Nat → Bool} {irc irc₁ : Irc}

theorem lastBy_set {α : Type} {f : Str → Option α} {msg : Msg} {k z : Nat} {a : α}
    (h : lastBy f msg k z = some a) : ∃ attr, f attr = some a := by
  induction k generalizing z with
  | zero => cases h
  | succ k ih =>
    rw [lastBy] at h
    split at h
    · cases h
    · next attr _ =>
      split at h
      · cases h
      · cases hrest : lastBy f msg k (z + 1) with
        | none =>
          rw [hrest] at h
          exact ⟨attr, h⟩
        | some a' =>
          rw [hrest] at h
          cases h
          exact ih hrest

theorem offered_paired {msg : Msg} {table : Str × Str} (h : offered msg = some table) :
    table.1.length = table.2.length := by
  obtain ⟨attr, hattr⟩ := lastBy_set h
  simp only [tableOf] at hattr
  split at hattr
  · cases hattr
  · split at hattr
    · exact accepted_paired hattr
    · cases hattr

theorem handle_005_paired (h : Paired irc.info) (msg : Msg) (logon : Bool) :
    Ensures (handle_005 irc msg msg.nargs logon) fun r => Paired r.2.info := by
  refine (noteAttrs_table msg irc).bind fun ⟨ret, haveCasemap, irc₂⟩ ⟨_, htable⟩ => ?_
  dsimp only at htable ⊢
  have hpaired : Paired irc₂.info := by
    rw [Paired, htable]
    cases hoff : offered msg with
    | none => exact h
    | some table => exact offered_paired hoff
  refine Ensures.ite (fun _ => Ensures.ok hpaired) fun _ => Ensures.ite (fun _ => ?_) fun _ =>
    Ensures.ok hpaired
  obtain ⟨_, _, _, haside⟩ := Registry.trkInit_spec irc₂
  split <;> next irc₃ h₃ =>
    rw [h₃] at haside
    obtain rfl : irc₃ = _ := haside
    exact Ensures.ok hpaired

theorem run_paired (h : Paired irc.info) (e : Hnd) (msg : Msg) (logon : Bool) :
    Ensures (run e irc msg msg.nargs logon) fun r => Paired r.2.info := by
  by_cases h005 : e = .handle_005
  · rw [h005]
    exact handle_005_paired h msg logon
  · refine (run_steady h005 irc msg msg.nargs logon).mono fun r hr => ?_
    rwa [Paired, hr.modepfx]

theorem happen_paired (h : Paired irc.info) (e : Event) :
    Ensures (happen (onlookers pre post) irc e) fun irc' => Paired irc'.info := by
  cases e with
  | message msg logon =>
    have hmsg :
        Ensures (msgHandle (onlookers pre post) irc msg logon) fun r => Paired r.2.info := by
      apply msgHandle_onlookers (J := fun _ irc => Paired irc.info) (K := fun irc =>
        Paired irc.info)
      · exact fun _ _ e h _ _ => run_paired h e.hndfn msg logon
      · exact fun _ _ h => h
      · exact h
      · exact fun _ _ => h
    exact hmsg.map fun _ h => h
  | other con mynick => exact Ensures.ok h

theorem openConn_paired (h : openConn irc = (true, irc₁)) : Paired irc₁.info := by
  rw [openConn] at h
  dsimp only at h
  split at h
  · cases h
  · split at h
    · cases h
    · obtain ⟨_, rfl⟩ := Prod.mk.inj h
      exact paired_init

/-- During a connection, there are always as many modes as symbols. -/
theorem modepfx_paired (hopen : openConn irc = (true, irc₁)) (es : List Event) :
    Ensures (happenAll (onlookers pre post) es irc₁) fun irc' => Paired irc'.info := by
  have hstart := openConn_paired hopen
  clear hopen
  induction es generalizing irc₁ with
  | nil => exact Ensures.ok hstart
  | cons e es ih => exact (happen_paired hstart e).bind fun _ h => ih h

end Runs

end Srsirc.PrefixGrammar
