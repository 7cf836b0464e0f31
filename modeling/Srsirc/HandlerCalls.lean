import Srsirc.MessageTags

namespace Srsirc.HandlerCalls

open CharMap Memory Message ServerInfo UserBase Context Conn CoreHandlers Dispatch Connect
open MessageTags Fallible

/-- The handlers that `dispatch` calls, each with the context that it gets. -/
def dispatchCalls (msg : Msg) (cmd : Str) (logon : Bool) :
    Nat → Nat → Flags → Irc → List (Hnd × Irc)
  | 0, _, _, _ => []
  | k + 1, i, res, irc =>
    match irc.msghnds.val[i]? with
    | none => []
    | some none => dispatchCalls msg cmd logon k (i + 1) res irc
    | some (some e) =>
      if e.cmd ≠ cmd then dispatchCalls msg cmd logon k (i + 1) res irc
      else (e.hndfn, irc) ::
        match run e.hndfn irc msg msg.nargs logon with
        | .error _ => []
        | .ok (r, irc) =>
          if (res ||| r).has CANT_PROCEED then []
          else dispatchCalls msg cmd logon k (i + 1) (res ||| r) irc

/-- Those that `msgHandle` calls, apart from the user's own. -/
def msgCalls (users : UserHnds) (irc : Irc) (msg : Msg) (logon : Bool) : List (Hnd × Irc) :=
  match if logon then (true, irc) else users.pre irc msg msg.nargs with
  | (false, _) => []
  | (true, irc) =>
    match msg.fld 1 with
    | .error _ => []
    | .ok cmd => dispatchCalls msg cmd logon (2 * irc.msghnds.val.length + 32) 0 0 irc

def heedCalls (users : UserHnds) (irc : Irc) (msg : Msg) : List (Hnd × Irc) :=
  if irc.cbConRead.any (!· msg) then [] else msgCalls users irc msg true

def logonCalls (users : UserHnds) (sasl : Bool) : Nat → Irc → Progress → List (Hnd × Irc)
  | 0, _, _ => []
  | k + 1, irc, p =>
    match askInTime irc.con with
    | (false, _) => []
    | (true, con) =>
      match connRead con 0 with
      | none => []
      | some (.failed, _) => []
      | some (.timeout, con) => logonCalls users sasl k { irc with con } p
      | some (.message msg _, con) =>
        heedCalls users { irc with con } msg ++
          match heed users { irc with con } p msg with
          | .error _ => []
          | .ok (none, _) => []
          | .ok (some p, irc) =>
            if p.loggedOn && (!sasl || p.saslAuthed) then [] else logonCalls users sasl k irc p

def connectCalls (users : UserHnds) (k : Nat) (irc : Irc) : List (Hnd × Irc) :=
  match openConn irc with
  | (false, _) => []
  | (true, irc) =>
    if irc.dumb then []
    else
      match greet irc with
      | (false, _) => []
      | (true, irc) =>
        let sasl := irc.saslMech.isSome && irc.saslMsg.isSome
        let irc := { irc with info := { irc.info with mynick := strNcpy irc.nick MAX_NICK_LEN } }
        logonCalls users sasl k irc ⟨!irc.starttlsFirst, false, false⟩

def readCalls (users : UserHnds) (irc : Irc) : List (Hnd × Irc) :=
  match connRead irc.con MAX_V3TAGS with
  | some (.message msg _, con) => msgCalls users { irc with con } msg false
  | _ => []

structure Between (T : Irc → Irc → Prop) : Prop where
  opened : ∀ irc, T irc (openConn irc).2
  time : ∀ irc, T irc { irc with con := (askInTime irc.con).2 }
  read : ∀ irc ntags inc con, connRead irc.con ntags = some (inc, con) → T irc { irc with con }
  write : ∀ irc buf, T irc { irc with con := (connWriteRaw irc.con buf).2 }
  reset : ∀ irc, T irc (ircReset irc)
  info : ∀ irc info, T irc { irc with info }

/-- From one context to the other by calls of handlers, and by such changes in between. -/
inductive Worked (T : Irc → Irc → Prop) (irc : Irc) : List (Hnd × Irc) → Irc → Prop
  | refl : Worked T irc [] irc
  | between {calls : List (Hnd × Irc)} {irc' irc'' : Irc} (h : Worked T irc calls irc')
      (ht : T irc' irc'') : Worked T irc calls irc''
  | call {calls : List (Hnd × Irc)} {irc' : Irc} {hnd : Hnd} {msg : Msg} {logon : Bool}
      {r : Flags × Irc} (h : Worked T irc calls irc')
      (hrun : run hnd irc' msg msg.nargs logon = .ok r) : Worked T irc (calls ++ [(hnd, irc')]) r.2

section Worked

variable {T : Irc → Irc → Prop} {irc irc' irc'' : Irc} {calls calls' : List (Hnd × Irc)}

theorem Worked.trans (h : Worked T irc calls irc') (h' : Worked T irc' calls' irc'') :
    Worked T irc (calls ++ calls') irc'' := by
  induction h' with
  | refl => rwa [List.append_nil]
  | between _ ht ih => exact ih.between ht
  | call _ hrun ih =>
    rw [← List.append_assoc]
    exact ih.call hrun

theorem Worked.of (ht : T irc irc') : Worked T irc [] irc' := Worked.refl.between ht

theorem Worked.after (ht : T irc irc') (h : Worked T irc' calls irc'') : Worked T irc calls irc'' :=
  (Worked.of ht).trans h

theorem Worked.first {hnd : Hnd} {msg : Msg} {logon : Bool} {r : Flags × Irc}
    (hrun : run hnd irc msg msg.nargs logon = .ok r) (h : Worked T r.2 calls irc') :
    Worked T irc ((hnd, irc) :: calls) irc' :=
  (Worked.call .refl hrun).trans h

theorem dispatch_worked {msg : Msg} {cmd : Str} {logon : Bool} (k : Nat) {i : Nat} {res : Flags}
    {r : Flags × Irc} (h : dispatch msg cmd logon k i res irc = .ok r) :
    Worked T irc (dispatchCalls msg cmd logon k i res irc) r.2 := by
  induction k generalizing i res irc with
  | zero =>
    cases h
    exact .refl
  | succ k ih =>
    rw [dispatch] at h
    split at h
    · next hslot =>
      cases h
      rw [dispatchCalls, hslot]
      exact .refl
    · next hslot =>
      rw [dispatchCalls, hslot]
      exact ih h
    · next hslot =>
      rw [dispatchCalls, hslot]
      dsimp only
      split at h
      · next hne =>
        rw [if_pos hne]
        exact ih h
      · next hcmd =>
        obtain ⟨r', hrun, h⟩ := bind_ok_iff.1 h
        rw [if_neg hcmd, hrun]
        apply Worked.first hrun
        dsimp only at h ⊢
        split at h
        · next hstop =>
          cases h
          rw [if_pos hstop]
          exact .refl
        · next hgo =>
          rw [if_neg hgo]
          exact ih h

variable {users : UserHnds} {msg : Msg}

theorem msgHandle_worked {logon : Bool}
    (hpre : logon = false → ∀ irc, T irc (users.pre irc msg msg.nargs).2)
    (hpost : logon = false → ∀ irc, T irc (users.post irc msg msg.nargs).2) {r : Flags × Irc}
    (h : msgHandle users irc msg logon = .ok r) :
      Worked T irc (msgCalls users irc msg logon) r.2 := by
  have hfirst : Worked T irc [] (if logon then (true, irc) else users.pre irc msg msg.nargs).2 := by
    cases logon with
    | true => exact .refl
    | false => exact Worked.of (hpre rfl irc)
  rw [msgHandle] at h
  rw [msgCalls]
  generalize (if logon then (true, irc) else users.pre irc msg msg.nargs) = r₀ at h hfirst ⊢
  obtain ⟨ok, irc₀⟩ := r₀
  apply hfirst.trans
  cases ok with
  | false =>
    cases h
    exact .refl
  | true =>
    obtain ⟨cmd, hcmd, h⟩ := bind_ok_iff.1 h
    obtain ⟨r₁, hdis, h⟩ := bind_ok_iff.1 h
    have hw := @dispatch_worked T _ _ _ _ _ _ _ _ hdis
    dsimp only
    rw [hcmd]
    dsimp only at h ⊢
    split at h
    · cases h
      exact hw
    · cases h
      cases logon with
      | true => exact hw
      | false => exact hw.between (hpost rfl _)

/-- What each handler for the command preserves holds at all calls. -/
theorem dispatchCalls_rule {J : Irc → Prop} {msg : Msg} {cmd : Str} {logon : Bool}
    (hstep : ∀ irc e, J irc → some e ∈ irc.msghnds.val → e.cmd = cmd →
      Ensures (run e.hndfn irc msg msg.nargs logon) fun r => J r.2) (k : Nat) {i :
        Nat} {res : Flags}
    {irc : Irc} (hj : J irc) : ∀ call ∈ dispatchCalls msg cmd logon k i res irc, J call.2 := by
  induction k generalizing i res irc with
  | zero => exact fun _ hc => absurd hc List.not_mem_nil
  | succ k ih =>
    rw [dispatchCalls]
    split
    · exact fun _ hc => absurd hc List.not_mem_nil
    · exact ih hj
    · next e hslot =>
      split
      · exact ih hj
      · next hcmd =>
        intro call hc
        obtain rfl | hc := List.mem_cons.1 hc
        · exact hj
        · split at hc
          · cases hc
          · next hrun =>
            have hj' := hstep irc e hj (List.mem_of_getElem? hslot) (not_not.1 hcmd) _ hrun
            split at hc
            · cases hc
            · exact ih hj' call hc

theorem dispatch_ran {J : Irc → Prop} {msg : Msg} {cmd : Str} {logon : Bool} {r : Flags × Irc}
    (hstep : ∀ h irc, J irc → Ensures (run h irc msg msg.nargs logon) fun r => J r.2)
      (k : Nat) {i : Nat}
    {res : Flags} (hj : J irc) (h : dispatch msg cmd logon k i res irc = .ok r) :
    ∀ call ∈ dispatchCalls msg cmd logon k i res irc, J call.2 ∧
      (∃ e, some e ∈ call.2.msghnds.val ∧ e.hndfn = call.1 ∧ e.cmd = cmd) ∧
        ∃ r', run call.1 call.2 msg msg.nargs logon = .ok r' := by
  induction k generalizing i res irc with
  | zero => simp [dispatchCalls]
  | succ k ih =>
    rw [dispatch] at h
    split at h
    · next hslot =>
      rw [dispatchCalls, hslot]
      simp
    · next hslot =>
      rw [dispatchCalls, hslot]
      exact ih hj h
    · next e hslot =>
      rw [dispatchCalls, hslot]
      dsimp only
      split at h
      · next hne =>
        rw [if_pos hne]
        exact ih hj h
      · next hcmd =>
        obtain ⟨r', hrun, h⟩ := bind_ok_iff.1 h
        rw [if_neg hcmd, hrun]
        refine List.forall_mem_cons.2
          ⟨⟨hj, ⟨e, List.mem_of_getElem? hslot, rfl, not_not.1 hcmd⟩, r', hrun⟩, ?_⟩
        dsimp only at h ⊢
        split at h
        · next hstop =>
          rw [if_pos hstop]
          simp
        · next hgo =>
          rw [if_neg hgo]
          exact ih (hstep _ _ hj _ hrun) h

variable (hT : Between T)

include hT

theorem connWrite_worked (irc : Irc) (line : Str) :
    Worked T irc [] { irc with con := (connWrite irc.con line).2 } := by
  have hfirst := hT.write irc line
  rw [connWrite]
  split
  · next heq =>
    rw [heq] at hfirst
    exact Worked.of hfirst
  · next con heq =>
    rw [heq] at hfirst
    exact (Worked.of hfirst).between (hT.write { irc with con } _)

theorem ircWrite_worked (irc : Irc) (line : Str) : Worked T irc [] (ircWrite irc line).2 := by
  have hw := connWrite_worked hT irc line
  rw [ircWrite]
  split
  · next heq =>
    rw [heq] at hw
    exact hw.between (hT.reset _)
  · next heq =>
    rw [heq] at hw
    exact hw

theorem sendLogon_worked (irc : Irc) : Worked T irc [] (sendLogon irc).2 := by
  rw [sendLogon]
  split
  · exact .refl
  · split
    · exact .refl
    · split
      · exact .refl
      · exact ircWrite_worked hT irc _

theorem greet_worked (irc : Irc) : Worked T irc [] (greet irc).2 := by
  rw [greet]
  split
  · have hw := connWrite_worked hT irc (ascii "STARTTLS" ++ crlf)
    split
    next heq =>
    rw [heq] at hw
    exact hw
  · exact sendLogon_worked hT irc

theorem heed_worked {p : Progress} {r : Option Progress × Irc} (h : heed users irc p msg = .ok r) :
    Worked T irc (heedCalls users irc msg) r.2 := by
  rw [heed] at h
  rw [heedCalls]
  split at h
  · next hno =>
    cases h
    rw [if_pos hno]
    exact .refl
  · next hyes =>
    rw [if_neg hyes]
    obtain ⟨⟨flags, irc₁⟩, hmsg, h⟩ := bind_ok_iff.1 h
    have hw := @msgHandle_worked T _ _ _ _ (fun hl => by cases hl) (fun hl => by cases hl) _ hmsg
    dsimp only at h
    split at h
    · cases h
      exact hw
    · split at h
      · have hsend := sendLogon_worked hT irc₁
        rw [← List.append_nil (msgCalls users irc msg true)]
        split at h
        · next heq =>
          rw [heq] at hsend
          cases h
          exact hw.trans hsend
        · next heq =>
          rw [heq] at hsend
          cases h
          exact hw.trans hsend
      · cases h
        exact hw

theorem logon_worked {sasl : Bool} (k : Nat) {p : Progress} {msgs : List Msg} {c : Connected}
    (h : logon users sasl k irc p msgs = some (.ok c)) :
    Worked T irc (logonCalls users sasl k irc p) c.irc := by
  induction k generalizing irc p msgs with
  | zero => cases h
  | succ k ih =>
    have htime := hT.time irc
    rw [logon] at h
    split at h
    · next hask =>
      rw [logonCalls, hask]
      rw [hask] at htime
      cases h
      exact (Worked.of htime).between (hT.reset _)
    · next con hask =>
      rw [hask] at htime
      split at h
      · cases h
      · next hread =>
        simp only [logonCalls, hask, hread]
        cases h
        exact Worked.after htime
          ((Worked.of (hT.read { irc with con } _ _ _ hread)).between (hT.reset _))
      · next con' hread =>
        simp only [logonCalls, hask, hread]
        exact Worked.after htime (Worked.after (hT.read { irc with con } _ _ _ hread) (ih h))
      · next msg tags con' hread =>
        have hmsg := hT.read { irc with con } _ _ _ hread
        split at h
        · cases h
        · next irc₁ heq =>
          simp only [logonCalls, hask, hread, heq, List.append_nil]
          cases h
          exact Worked.after htime (Worked.after hmsg ((heed_worked hT heq).between (hT.reset _)))
        · next p' irc₁ heq =>
          simp only [logonCalls, hask, hread, heq]
          apply Worked.after htime (Worked.after hmsg ((heed_worked hT heq).trans _))
          split at h
          · next hdone =>
            rw [if_pos hdone]
            cases h
            exact .refl
          · next hgo =>
            rw [if_neg hgo]
            exact ih h

theorem connect_worked {k : Nat} {c : Connected} (h : connect users k irc = some (.ok c)) :
    Worked T irc (connectCalls users k irc) c.irc := by
  have hopen := hT.opened irc
  rw [connect] at h
  split at h
  · next heq =>
    rw [connectCalls, heq]
    rw [heq] at hopen
    cases h
    exact Worked.of hopen
  · next irc₁ heq =>
    rw [heq] at hopen
    apply Worked.after hopen
    split at h
    · next hdumb =>
      simp only [connectCalls, heq, if_pos hdumb]
      cases h
      exact .refl
    · next hdumb =>
      have hgreet := greet_worked hT irc₁
      split at h
      · next hg =>
        simp only [connectCalls, heq, if_neg hdumb, hg]
        rw [hg] at hgreet
        cases h
        exact hgreet.between (hT.reset _)
      · next irc₂ hg =>
        simp only [connectCalls, heq, if_neg hdumb, hg]
        rw [hg] at hgreet
        exact hgreet.trans (Worked.after (hT.info irc₂ _) (logon_worked hT k h))

theorem ircRead_worked (hpre : ∀ irc msg n, T irc (users.pre irc msg n).2)
    (hpost : ∀ irc msg n, T irc (users.post irc msg n).2) {x x' : Tctx} {ret : Int}
    (h : ircRead users x = some (.ok (ret, x'))) :
      Worked T x.irc (readCalls users x.irc) x'.irc := by
  rw [ircRead] at h
  rw [readCalls]
  dsimp only at h
  split at h
  · cases h
  · next con hread =>
    rw [hread]
    cases h
    exact Worked.of (hT.read x.irc _ _ _ hread)
  · next con hread =>
    rw [hread]
    cases h
    exact (Worked.of (hT.read x.irc _ _ _ hread)).between (hT.reset _)
  · next msg ps con hread =>
    rw [hread]
    apply Worked.after (hT.read x.irc _ _ _ hread)
    dsimp only
    split at h
    · cases h
    · next flags irc₁ hmsg =>
      have hw := @msgHandle_worked T _ _ _ _ (fun _ irc => hpre irc msg _) (fun _ irc =>
        hpost irc msg _) _ hmsg
      split at h
      · cases h
        exact hw.between (hT.reset _)
      · cases h
        exact hw

end Worked

end Srsirc.HandlerCalls
