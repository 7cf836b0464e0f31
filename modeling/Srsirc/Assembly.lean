import Srsirc.LineGrammar
import Srsirc.Message
import Srsirc.ReadBuffer

namespace Srsirc.Assembly

open CharMap Memory Message ReadBuffer Tokenize

/-- `lsi_b_strNcat`. -/
def strNcat (dest : Mem) (src : Str) (destsz : Nat) : Mem :=
  let len := (cstr dest 0).length
  if destsz ≤ len + 1 then dest else overwrite dest len (src.take (destsz - (len + 1)) ++ [0])

/-- `snprintf` into memory, of which it may write `destsz` bytes. -/
def printTo (dest : Mem) (destsz : Nat) (s : Str) : Mem :=
  if destsz = 0 then dest else overwrite dest 0 (s.take (destsz - 1) ++ [0])

/-- Whether the parameter `p` in front of the entries `msg` is the last one and gets a colon. -/
def Colon (coltr : Bool) (p : Str) (msg : List (Option Str)) : Prop :=
  msg.head?.join = none ∧ (coltr = true ∨ 0x20 ∈ p)

instance (coltr : Bool) (p : Str) (msg : List (Option Str)) : Decidable (Colon coltr p msg) :=
  inferInstanceAs (Decidable (_ ∧ _))

/-- The loop in `lsi_ut_snrcmsg`, over the entries that are left. -/
def catParams (destsz : Nat) (coltr : Bool) : List (Option Str) → Mem → Mem
  | some p :: msg, dest =>
    let dest := strNcat dest [0x20] destsz
    let dest := if Colon coltr p msg then strNcat dest [0x3a] destsz else dest
    catParams destsz coltr msg (strNcat dest p destsz)
  | _, dest => dest

def start (pfx : Option Str) (cmd : Str) : Str :=
  match pfx with
  | some pfx => 0x3a :: (pfx ++ 0x20 :: cmd)
  | none => cmd

/-- `lsi_ut_snrcmsg`. A message without a command cannot be printed. -/
def snrcmsg (dest : Mem) (destsz : Nat) (msg : List (Option Str)) (coltr : Bool) :
    Except Fault Mem :=
  match msg.getD 1 none with
  | none => .error (.nullField 1)
  | some cmd =>
    let dest := printTo dest destsz (start (msg.getD 0 none) cmd)
    .ok (strNcat (catParams destsz coltr (msg.drop 2) dest) [0x0d, 0x0a] destsz)

def paramsText (coltr : Bool) : List (Option Str) → Str
  | some p :: msg => 0x20 :: ((if Colon coltr p msg then 0x3a :: p else p) ++ paramsText coltr msg)
  | _ => []

def lineOf (coltr : Bool) (msg : List (Option Str)) : Str :=
  start (msg.getD 0 none) ((msg.getD 1 none).getD []) ++ paramsText coltr (msg.drop 2)

/-- The memory `dest`, `n` bytes, holds the string `w`. -/
structure Holds (dest : Mem) (n : Nat) (w : Str) : Prop where
  length : dest.length = n
  text : ∃ z, dest = w ++ 0 :: z
  nonzero : ∀ c ∈ w, c ≠ 0

variable {dest : Mem} {n destsz : Nat} {w src : Str}

theorem Holds.cstr (h : Holds dest n w) : cstr dest 0 = w := by
  obtain ⟨z, rfl⟩ := h.text
  have hcstr := @cstr_at [] w z 0 rfl
  rwa [List.nil_append, takeWhile_nonzero h.nonzero] at hcstr

theorem strNcat_holds (h : Holds dest n w) (hn : destsz ≤ n) (hsrc : ∀ c ∈ src, c ≠ 0)
    (hroom : w.length + src.length < destsz) : Holds (strNcat dest src destsz) n (w ++ src) := by
  have hnonzero : ∀ c ∈ w ++ src, c ≠ 0 := List.forall_mem_append.2 ⟨h.nonzero, hsrc⟩
  rw [strNcat, h.cstr]
  by_cases hsz : destsz ≤ w.length + 1
  · obtain rfl : src = [] := List.eq_nil_of_length_eq_zero (by omega)
    rw [if_pos hsz, List.append_nil]
    exact h
  · obtain ⟨z, rfl⟩ := h.text
    have hlen := h.length
    rw [List.length_append, List.length_cons] at hlen
    rw [if_neg hsz, List.take_of_length_le (by omega), overwrite, List.take_left]
    refine ⟨?_, ?_, hnonzero⟩
    · simp only [List.length_append, List.length_drop, List.length_nil, List.length_cons]
      omega
    · exact ⟨(w ++ 0 :: z).drop (w.length + (src ++ [0]).length), by simp⟩

theorem printTo_holds (hlen : dest.length = n) (hn : destsz ≤ n) (hw : ∀ c ∈ w, c ≠ 0)
    (hroom : w.length < destsz) : Holds (printTo dest destsz w) n w := by
  rw [printTo, if_neg (by omega), List.take_of_length_le (by omega), overwrite, List.take_zero,
    List.nil_append]
  refine ⟨?_, ?_, hw⟩
  · simp only [List.length_append, List.length_drop, List.length_singleton]
    omega
  · exact ⟨_, by rw [List.append_assoc, List.singleton_append]⟩

theorem catParams_holds (coltr : Bool) (msg : List (Option Str)) (h : Holds dest n w)
    (hn : destsz ≤ n)
    (hmsg : ∀ p, some p ∈ msg → ∀ c ∈ p, c ≠ 0)
    (hroom : w.length + (paramsText coltr msg).length < destsz) :
    Holds (catParams destsz coltr msg dest) n (w ++ paramsText coltr msg) := by
  induction msg generalizing dest w with
  | nil =>
    rw [catParams.eq_def, paramsText.eq_def]
    dsimp only
    rwa [List.append_nil]
  | cons entry msg ih =>
    cases entry with
    | none =>
      rw [catParams.eq_def, paramsText.eq_def]
      dsimp only
      rwa [List.append_nil]
    | some p =>
      have hp := hmsg p List.mem_cons_self
      have hmsg' : ∀ p, some p ∈ msg → ∀ c ∈ p, c ≠ 0 :=
        fun p hp => hmsg p (List.mem_cons_of_mem _ hp)
      rw [paramsText, List.length_cons, List.length_append] at hroom
      rw [catParams, paramsText]
      have hsp := @strNcat_holds _ _ destsz _ [0x20] h hn (by simp) (by simp; omega)
      by_cases hc : Colon coltr p msg
      · rw [if_pos hc, List.length_cons] at hroom
        rw [if_pos hc, if_pos hc]
        have hcol := @strNcat_holds _ _ destsz _ [0x3a] hsp hn (by simp) (by simp; omega)
        have hnext := ih (strNcat_holds hcol hn hp (by simp; omega)) hmsg' (by simp; omega)
        simpa using hnext
      · rw [if_neg hc] at hroom
        rw [if_neg hc, if_neg hc]
        have hnext := ih (strNcat_holds hsp hn hp (by simp; omega)) hmsg' (by simp; omega)
        simpa using hnext

theorem snrcmsg_writes {msg : List (Option Str)} {cmd : Str} (hcmd : msg.getD 1 none = some cmd)
    (hmsg : ∀ p, some p ∈ msg → ∀ c ∈ p, c ≠ 0) (coltr : Bool) (hn : destsz ≤ dest.length)
    (hroom : (lineOf coltr msg).length + 2 < destsz) :
    ∃ dest', snrcmsg dest destsz msg coltr = .ok dest' ∧
      Holds dest' dest.length (lineOf coltr msg ++ [0x0d, 0x0a]) := by
  have hmem : ∀ i p, msg.getD i none = some p → some p ∈ msg := by
    intro i p hp
    rw [List.getD_eq_getElem?_getD, Option.getD_eq_iff] at hp
    obtain hp | ⟨_, hp⟩ := hp
    · exact List.mem_of_getElem? hp
    · cases hp
  have hcmd0 := hmsg cmd (hmem 1 cmd hcmd)
  have hstart0 : ∀ c ∈ start (msg.getD 0 none) cmd, c ≠ 0 := by
    rw [start.eq_def]
    split
    · next pfx hpfx =>
      have hpfx0 := hmsg pfx (hmem 0 pfx hpfx)
      refine List.forall_mem_cons.2 ⟨by decide, List.forall_mem_append.2 ⟨hpfx0, ?_⟩⟩
      exact List.forall_mem_cons.2 ⟨by decide, hcmd0⟩
    · exact hcmd0
  rw [lineOf, hcmd, Option.getD_some] at hroom ⊢
  rw [List.length_append] at hroom
  refine ⟨_, by rw [snrcmsg, hcmd], ?_⟩
  have hstart := @printTo_holds dest _ destsz _ rfl hn hstart0 (by omega)
  have hparams := @catParams_holds _ _ destsz _ coltr (msg.drop 2) hstart hn
    (fun p hp => hmsg p (List.mem_of_mem_drop hp)) (by omega)
  apply strNcat_holds hparams hn (by simp)
  rw [List.length_append, List.length_cons, List.length_singleton]
  omega

end Srsirc.Assembly
