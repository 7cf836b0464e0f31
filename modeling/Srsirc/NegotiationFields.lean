import Srsirc.FieldSafety

namespace Srsirc.NegotiationFields

open CharMap Message UserBase Context Conn CoreHandlers Capabilities Dispatch Connect FieldSafety
open Fallible

variable {msg : Msg} {logon : Bool}

/-- The last argument that a list of capabilities has is not a continuation marker. -/
def Marked (msg : Msg) (logon : Bool) : Prop :=
  logon = true → msg.nargs = 5 → msg.fld 3 = .ok (ascii "LS") →
    ∀ arg, msg.fld 4 = .ok arg → arg.head? ≠ some 0x2a

theorem handle_CAP_LS_intact (irc : Irc)
    (h : logon = true → msg.nargs = 5 → ∀ arg, msg.fld 4 = .ok arg → arg.head? ≠ some 0x2a) :
    Intact (handle_CAP_LS irc msg msg.nargs logon) := by
  refine Avoids.ite (fun _ => trivial) fun hl => Avoids.ite (fun _ => trivial) fun hn => ?_
  have hlogon : logon = true := by simpa using hl
  refine (arg_intact (by omega) (by omega)).bind_of fun arg harg => ?_
  refine Avoids.ite (fun hstar => ?_) fun _ => trivial
  have h5 : msg.nargs ≠ 5 := fun h5 => h hlogon h5 arg harg hstar
  exact (arg_intact (by omega) (by omega)).bind fun _ => trivial

theorem handle_CAP_ACK_intact (irc : Irc) : Intact (handle_CAP_ACK irc msg msg.nargs) := by
  refine Avoids.ite (fun _ => trivial) fun hn => ?_
  exact (arg_intact (by omega) (by omega)).bind fun _ =>
    Avoids.ite (fun _ => trivial) fun _ => trivial

theorem handle_CAP_intact (irc : Irc) (h : Marked msg logon) :
    Intact (handle_CAP irc msg msg.nargs logon) := by
  refine Avoids.ite (fun _ => trivial) fun hn => ?_
  refine (arg_intact (by omega) (by omega)).bind_of fun subcmd hsub => ?_
  refine Avoids.ite (fun hls => ?_) fun _ => Avoids.ite (fun _ => ?_) fun _ =>
    Avoids.ite (fun _ => trivial) fun _ => trivial
  · refine (handle_CAP_LS_intact irc fun hl h5 => h hl h5 (hls ▸ hsub)).bind fun _ => ?_
    exact Avoids.ite (fun _ => trivial) fun _ => Avoids.ite (fun _ => trivial) fun _ => trivial
  · refine (handle_CAP_ACK_intact irc).bind fun _ => ?_
    exact Avoids.ite (fun _ => trivial) fun _ => Avoids.ite (fun _ => trivial) fun _ => trivial

/-- After the marker the bound that was checked is one short. -/
theorem handle_CAP_marked {arg : Str} (irc : Irc) (hl : logon = true) (hn : msg.nargs = 5)
    (hls : msg.fld 3 = .ok (ascii "LS")) (harg : msg.fld 4 = .ok arg)
    (hstar : arg.head? = some 0x2a) :
    handle_CAP irc msg msg.nargs logon = .error (.nullField 5) := by
  have h5 : msg.fld 5 = .error (.nullField 5) := by
    have habs := @Msg.absent_nargs msg (by omega)
    rw [hn] at habs
    rw [Msg.fld, Msg.deref, Option.not_isSome_iff_eq_none.1 (ne_true_of_eq_false habs)]
    rfl
  have hcap : handle_CAP_LS irc msg 5 true = .error (.nullField 5) := by
    simp [handle_CAP_LS, harg, hstar, h5, Bind.bind, Except.bind]
  simp [handle_CAP, hl, hn, hls, hcap, Bind.bind, Except.bind]

theorem handle_670_intact (irc : Irc) (msg : Msg) (nargs : Nat) (logon : Bool) :
    Intact (handle_670 irc msg nargs logon) := by
  rw [handle_670]
  split
  · trivial
  · exact Avoids.ite (fun _ => trivial) fun _ => trivial

theorem handle_691_intact (irc : Irc) (msg : Msg) (nargs : Nat) (logon : Bool) :
    Intact (handle_691 irc msg nargs logon) :=
  Avoids.ite (fun _ => trivial) fun _ => Avoids.ite (fun _ => trivial) fun _ =>
    Avoids.ite (fun _ => trivial) fun _ => trivial

theorem handle_903_intact (irc : Irc) (msg : Msg) (nargs : Nat) (logon : Bool) :
    Intact (handle_903 irc msg nargs logon) :=
  Avoids.ite (fun _ => trivial) fun _ => Avoids.ite (fun _ => trivial) fun _ => trivial

theorem handle_saslerr_intact (irc : Irc) (msg : Msg) (nargs : Nat) (logon : Bool) :
    Intact (handle_saslerr irc msg nargs logon) :=
  Avoids.ite (fun _ => trivial) fun _ => Avoids.ite (fun _ => trivial) fun _ => trivial

theorem handle_AUTHENTICATE_intact (irc : Irc) (msg : Msg) (logon : Bool) :
    Intact (handle_AUTHENTICATE irc msg msg.nargs logon) := by
  refine Avoids.ite (fun _ => trivial) fun hn => Avoids.ite (fun _ => trivial) fun _ => ?_
  split
  · trivial
  · refine (arg_intact (by omega) (by omega)).bind fun _ => ?_
    split
    · trivial
    · split <;> trivial

theorem not_CAP_intact {dumb : Bool} {cmd : String} {h : Hnd} (hreg : (cmd, h) ∈ v3Hnds dumb)
    (hne : cmd ≠ "CAP") (irc : Irc) : Intact (run h irc msg msg.nargs logon) := by
  cases dumb with
  | true => cases hreg
  | false =>
    simp only [v3Hnds, Bool.false_eq_true, if_false, List.mem_cons, Prod.mk.injEq, List.not_mem_nil,
      or_false] at hreg
    obtain ⟨_, rfl⟩ | ⟨_, rfl⟩ | ⟨_, rfl⟩ | ⟨_, rfl⟩ | ⟨_, rfl⟩ | ⟨_, rfl⟩ | ⟨_, rfl⟩ | ⟨hcap, _⟩ |
      ⟨_, rfl⟩ := hreg
    · exact handle_670_intact irc msg msg.nargs logon
    · exact handle_691_intact irc msg msg.nargs logon
    · exact handle_903_intact irc msg msg.nargs logon
    · exact handle_saslerr_intact irc msg msg.nargs logon
    · exact handle_saslerr_intact irc msg msg.nargs logon
    · exact handle_saslerr_intact irc msg msg.nargs logon
    · exact handle_saslerr_intact irc msg msg.nargs logon
    · exact absurd hcap hne
    · exact handle_AUTHENTICATE_intact irc msg logon

/-- A handler of the capability negotiation uses only fields that are there, unless a list
of capabilities ends with the marker that promises more of it. -/
theorem negotiation_fields {dumb : Bool} {cmd : String} {h : Hnd} (hreg : (cmd, h) ∈ v3Hnds dumb)
    (irc : Irc) (msg : Msg) (logon : Bool) :
    (∀ k, run h irc msg msg.nargs logon ≠ .error (.nullField k)) ↔
      (cmd = "CAP" → Marked msg logon) := by
  rw [← intact_iff]
  by_cases hcmd : cmd = "CAP"
  · obtain rfl : h = .handle_CAP := by
      subst hcmd
      cases dumb with
      | true => cases hreg
      | false => simpa [v3Hnds] using hreg
    constructor
    · intro hi _ hl hn hls arg harg hstar
      rw [run, handle_CAP_marked irc hl hn hls harg hstar] at hi
      exact absurd ⟨5, rfl⟩ hi
    · exact fun hm => handle_CAP_intact irc (hm hcmd)
  · exact iff_of_true (not_CAP_intact hreg hcmd irc) fun hc => absurd hc hcmd

theorem negotiation_fields_nak :
    let msg := Msg.ofLine (ascii "CAP * NAK :sasl")
    ∀ k, run .handle_CAP (ircInit (0, 0) [] (serving [])) msg msg.nargs true ≠
      .error (.nullField k) := by
  refine (@negotiation_fields false "CAP" _ (by decide) _ _ true).2 ?_
  exact fun _ _ _ hls => absurd hls (by decide +kernel)

/-- A server whose list of capabilities consists of the marker only. -/
theorem marker_alone :
    (Tokenize.tokenize (ascii "CAP * LS *" ++ [0]) 0).1 = true ∧
      run .handle_CAP (ircInit (0, 0) [] (serving [])) (.ofLine (ascii "CAP * LS *")) 5 true =
        .error (.nullField 5) ∧
      connect noUsers 4 (ircInit (0, 0) [] (serving [⟨lines ["CAP * LS *"], []⟩])) =
        some (.error (.nullField 5)) := by
  have hn : (Msg.ofLine (ascii "CAP * LS *")).nargs = 5 := by decide +kernel
  refine ⟨by decide +kernel, ?_, eq_error_of_fault (by decide +kernel)⟩
  have h := @handle_CAP_marked (.ofLine (ascii "CAP * LS *")) true (ascii "*")
    (ircInit (0, 0) [] (serving [])) rfl hn (by decide +kernel) (by decide +kernel) rfl
  rwa [hn] at h

end Srsirc.NegotiationFields
