import Srsirc.MirrorSteps

namespace Srsirc.ServerReports

open CaseAgreement CaseMapping CharMap Dictionary Fallible HeapCells MemberOps Members Message
open Mirror
open MirrorSteps NamesListing NamesReply Presence ServerInfo Tally Track TrackSafety UserBase
open UserLifetime

/-- A nick for which comparisons and keys are in accord, and which is not cut short. -/
structure Nickname (cm : CMap) (u : Str) : Prop where
  keys : ∀ c ∈ u, IsKeyByte c
  short : u.length < MAX_NICK_LEN
  caret : cm = .ascii ∨ ∀ c ∈ u, c ≠ 0x5e

/-- The prefix of a message from `u`: what follows the nick begins with a separator. -/
def From (u ident : Str) : Prop :=
  ∃ rest, ident = u ++ rest ∧ ∀ c ∈ rest.head?, c = 0x21 ∨ c = 0x40

structure Says (msg : Msg) (ident cmd : Str) (args : List Str) : Prop where
  ident : msg.fld 0 = .ok ident
  cmd : msg.fld 1 = .ok cmd
  fields : ∀ k a, args[k]? = some a → msg.fld (k + 2) = .ok a
  nargs : args.length + 2 ≤ msg.nargs

/-- One line of a listing of the room `κ`, with these items. -/
def Row (cm : CMap) (syms κ : Str) (msg : Msg) (is : List Item) : Prop :=
  ∃ ident target kind name lead, Says msg ident (ascii "353") [target, kind, name,
    listing lead is] ∧
    norm cm name = κ ∧ WellFormed syms is ∧ Tidy syms lead is

/-- The line that ends the listing of the room `κ`. -/
def Ending (cm : CMap) (κ : Str) (msg : Msg) : Prop :=
  ∃ ident target name, Says msg ident (ascii "366") [target, name] ∧ norm cm name = κ

/-- The lines that list the people of a room, each of them once. -/
def Listing (cm : CMap) (syms κ : Str) (S : Set Str) (ls : List Msg) : Prop :=
  ∃ (rows : List (Msg × List Item)) (fin : Msg), ls = rows.map Prod.fst ++ [fin] ∧
    (∀ r ∈ rows, Row cm syms κ r.1 r.2) ∧ Ending cm κ fin ∧
    ((rows.flatMap Prod.snd).map Item.nick).Nodup ∧
    ∀ u, u ∈ (rows.flatMap Prod.snd).map Item.nick ↔ u ∈ S

def Unseen (N : Net Str Str) (me : Str) : Event Str Str → Prop
  | .join u κ => u ≠ me ∧ me ∉ N κ
  | .leave u κ => u ≠ me ∧ me ∉ N κ
  | .quit u => u ∉ known (view N me)
  | .rename u _ => u ≠ me ∧ u ∉ known (view N me)

/-- The messages that the server sends about an event. -/
inductive Reports (cm : CMap) (syms : Str) (N : Net Str Str) (me : Str) :
    Event Str Str → List Msg → Prop
  | join {u κ ident name : Str} {msg : Msg} (hu : u ≠ me) (hme : me ∈ N κ) (hfrom : From u ident)
      (hname : norm cm name = κ) (hmsg : Says msg ident (ascii "JOIN") [name]) :
      Reports cm syms N me (.join u κ) [msg]
  | joined {κ ident name : Str} {msg : Msg} {ls : List Msg} (hfrom : From me ident)
      (hname : norm cm name = κ) (hlen : κ.length < MAX_CHAN_LEN)
      (hmsg : Says msg ident (ascii "JOIN") [name])
      (hls : Listing cm syms κ (insert me (N κ)) ls) :
      Reports cm syms N me (.join me κ) (msg :: ls)
  | part {u κ ident name : Str} {msg : Msg} (hme : me ∈ N κ) (hfrom : From u ident)
      (hname : norm cm name = κ) (hmsg : Says msg ident (ascii "PART") [name]) :
      Reports cm syms N me (.leave u κ) [msg]
  | kick {u κ ident name nick : Str} {msg : Msg} (hme : me ∈ N κ) (hname : norm cm name = κ)
      (hnick : Nickname cm nick) (hkey : norm cm nick = norm cm u)
      (hmsg : Says msg ident (ascii "KICK") [name, nick]) : Reports cm syms N me (.leave u κ) [msg]
  | quit {u ident : Str} {msg : Msg} (hfrom : From u ident)
      (hmsg : Says msg ident (ascii "QUIT") []) : Reports cm syms N me (.quit u) [msg]
  | nick {u v ident : Str} {msg : Msg} (hfrom : From u ident)
      (hmsg : Says msg ident (ascii "NICK") [v]) : Reports cm syms N me (.rename u v) [msg]
  | unseen {e : Event Str Str} (he : Unseen N me e) : Reports cm syms N me e []

section Nicks

variable {cm : CMap} {u v ident : Str}

theorem same_iff (hu : Nickname cm u) (hv : Nickname cm v) :
    istrcmp u v cm = 0 ↔ norm cm u = norm cm v := by
  rw [istrcmp_eq_zero, ← pfxeq_iff, pfxeq_iff_folds cm u v hu.keys hv.keys, folds_swap_iff]
  obtain hcm | hcaret := hu.caret
  · exact Or.inl hcm
  · obtain hcm | hcaret' := hv.caret
    · exact Or.inl hcm
    · refine Or.inr fun ht => ?_
      obtain ⟨p, hp, hpair⟩ := ht.caret
      obtain ⟨hpu, hpv⟩ := List.of_mem_zip hp
      obtain ⟨hc, _⟩ | ⟨_, hc⟩ := hpair
      · exact hcaret _ hpu hc
      · exact hcaret' _ hpv hc

theorem takeWhile_past {z : UInt8} {s : Str} (hs : z ∉ s) (rest : Str) :
    (s ++ rest).takeWhile (· != z) = s ++ rest.takeWhile (· != z) := by
  apply List.takeWhile_append_of_pos
  intro c hc
  rw [bne_iff_ne]
  rintro rfl
  exact hs hc

theorem takeWhile_front {z : UInt8} {s rest : Str} (hs : z ∉ s) (hr : ∀ c ∈ rest.head?, c = z) :
    (s ++ rest).takeWhile (· != z) = s := by
  rw [takeWhile_past hs]
  cases rest with
  | nil => exact List.append_nil s
  | cons c rest =>
    rw [hr c rfl, List.takeWhile_cons_of_neg (by simp), List.append_nil]

theorem ident2nick_from (hu : ∀ c ∈ u, IsKeyByte c) (h : From u ident) {n : Nat}
    (hn : u.length < n) : ident2nick n ident = u := by
  obtain ⟨rest, rfl, hrest⟩ := h
  have h21 : (0x21 : UInt8) ∉ u := fun hm => (hu _ hm).2.1 rfl
  have h40 : (0x40 : UInt8) ∉ u := fun hm => (hu _ hm).2.2 rfl
  have hall : u.takeWhile (· != 0x21) = u := by
    have hfront := @takeWhile_front 0x21 u [] h21 (by simp)
    rwa [List.append_nil] at hfront
  have hcopy : strNcpy (u ++ rest) n = u ++ rest.take (n - 1 - u.length) := by
    rw [strNcpy, List.take_append, List.take_of_length_le (by omega)]
  rw [ident2nick, hcopy]
  cases hr : rest.take (n - 1 - u.length) with
  | nil => rw [takeWhile_front h40 (by simp), hall]
  | cons c rest' =>
    have hc : c ∈ rest.head? := by
      cases rest with
      | nil =>
        rw [List.take_nil] at hr
        cases hr
      | cons d rest =>
        generalize n - 1 - u.length = m at hr
        cases m with
        | zero => cases hr
        | succ m =>
          cases hr
          rfl
    obtain rfl | rfl := hrest c hc
    · rw [takeWhile_past h40, List.takeWhile_cons_of_pos (by decide),
        takeWhile_front h21 (by simp)]
    · rw [takeWhile_front h40 (by simp), hall]

end Nicks

theorem Says.present {msg : Msg} {ident cmd : Str} {args : List Str} (h : Says msg ident cmd args) :
    msg.present 0 = true := by
  have hfld := h.ident
  rw [Msg.fld, Msg.deref] at hfld
  split at hfld
  · cases hfld
  · next p hp => rw [Msg.present, hp, Option.isSome_some]

end Srsirc.ServerReports
