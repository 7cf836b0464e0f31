import Srsirc.NodeList

namespace Srsirc.ListCalls

open CharMap NodeList Fallible
open BucketList (Alloc malloc)

variable {V : Type} {l : Bucklist V} {cmap : CMap} {s : List (Pair V)}

section ListModel

theorem insertNode_eq (x : Pair V) (ns : List (Pair V)) (i : Nat) :
    BucketList.insertNode x ns i = ns.insertIdx (min i ns.length) x := by
  induction ns generalizing i with
  | nil => rw [List.length_nil, Nat.min_zero]; rfl
  | cons n ns ih =>
    cases ns with
    | nil =>
      cases i with
      | zero => rfl
      | succ i => rw [List.length_singleton, Nat.min_eq_right (Nat.le_add_left 1 i)]; rfl
    | cons m ns =>
      cases i with
      | zero => rfl
      | succ i =>
        have hmin : min (i + 1) (n :: m :: ns).length = min i (m :: ns).length + 1 :=
          Nat.succ_min_succ i (m :: ns).length
        rw [BucketList.insertNode, ih i, hmin, List.insertIdx_succ_cons]

theorem findNode_eq (cmap : CMap) (key : Str) (ns : List (Pair V)) :
    BucketList.findNode cmap key ns = ns.find? (keyed cmap key) := by
  induction ns with
  | nil => rfl
  | cons n ns ih =>
    rw [BucketList.findNode, List.find?_cons, ← keyed, ih]
    cases keyed cmap key n <;> rfl

theorem removeNode_eq (cmap : CMap) (key : Str) (ns : List (Pair V)) :
    BucketList.removeNode cmap key ns =
      (ns.find? (keyed cmap key)).map fun n => (n, ns.eraseP (keyed cmap key)) := by
  induction ns with
  | nil => rfl
  | cons n ns ih =>
    rw [BucketList.removeNode, List.find?_cons, List.eraseP_cons, ← keyed, ih]
    cases keyed cmap key n with
    | true => rfl
    | false =>
      rw [if_neg Bool.false_ne_true, Option.map_map]
      rfl

theorem replaceNode_eq (cmap : CMap) (key : Str) (val : Option V) (ns : List (Pair V)) :
    BucketList.replaceNode cmap key val ns =
      if ns.any (keyed cmap key) then
        some (ns.modify (ns.findIdx (keyed cmap key)) fun n => (n.1, val))
      else none := by
  induction ns with
  | nil => rfl
  | cons n ns ih =>
    rw [BucketList.replaceNode, List.any_cons, List.findIdx_cons, ← keyed, ih]
    cases keyed cmap key n with
    | true => rfl
    | false =>
      rw [if_neg Bool.false_ne_true, Bool.false_or]
      split <;> rfl

variable {m : BucketList.Bucklist (Option V)}

/-- The list of pairs that the maps are modelled with does what the nodes in memory do. -/
theorem insert_model (hl : Represents l cmap m.nodes) (i : Nat) (key : Str) (val : Option V)
    (al : Alloc) :
    let r := BucketList.insert m i key val al
    ∃ l', NodeList.insert l i key val al = .ok (r.1, l', r.2.2) ∧
      Represents l' cmap r.2.1.nodes := by
  obtain ⟨ok, al', hmalloc⟩ : ∃ ok al', malloc al = (ok, al') := ⟨_, _, rfl⟩
  rw [BucketList.insert, hmalloc]
  cases ok with
  | true =>
    obtain ⟨l', hrun, hl'⟩ := insert_represents hl i key val hmalloc
    rw [← insertNode_eq] at hl'
    exact ⟨l', hrun, hl'⟩
  | false => exact ⟨l, insert_refused l i key val hmalloc, hl⟩

theorem replace_model (hl : Represents l cmap m.nodes) (key : Str) (val : V) :
    let r := BucketList.replace cmap m key (some val)
    ∃ l', NodeList.replace l key (some val) = .ok (r.1, l') ∧ Represents l' cmap r.2.nodes := by
  obtain ⟨l', hrun, hl'⟩ := replace_represents hl key val
  refine ⟨l', ?_⟩
  rw [hrun, BucketList.replace, replaceNode_eq]
  cases hany : m.nodes.any (keyed cmap key) with
  | true => exact ⟨rfl, hl'⟩
  | false =>
    refine ⟨rfl, ?_⟩
    rwa [List.findIdx_eq_length_of_false fun n hn => ?_, List.modify_eq_self (Nat.le_refl _)] at hl'
    exact Bool.of_not_eq_true (List.any_eq_false.1 hany n hn)

theorem remove_model (hl : Represents l cmap m.nodes) (key : Str) :
    let r := BucketList.remove cmap m key
    ∃ l', NodeList.remove l key = .ok (r.1, l') ∧ Represents l' cmap r.2.nodes := by
  obtain ⟨l', hrun, hl'⟩ := remove_represents hl key
  refine ⟨l', ?_⟩
  rw [hrun, BucketList.remove, removeNode_eq]
  cases hfind : m.nodes.find? (keyed cmap key) with
  | some n => exact ⟨rfl, hl'⟩
  | none =>
    refine ⟨rfl, ?_⟩
    rwa [List.eraseP_of_forall_not (List.find?_eq_none.1 hfind)] at hl'

theorem find_model (hl : Represents l cmap m.nodes) (key : Str) :
    (NodeList.find l key).map (·.map Prod.snd) = .ok (BucketList.find cmap m key) := by
  rw [find_represents hl, BucketList.find, findNode_eq]
  rfl

theorem count_model (hl : Represents l cmap m.nodes) :
    NodeList.count l = .ok (BucketList.count m) := count_represents hl

theorem clear_model (hl : Represents l cmap m.nodes) :
    ∃ l', NodeList.clear l = .ok l' ∧ Represents l' cmap (BucketList.clear m).nodes :=
  clear_represents hl

end ListModel

inductive Call (V : Type)
  | insert (i : Nat) (key : Str) (val : Option V)
  | replace (key : Str) (val : Option V)
  | remove (key : Str)
  | get (i : Nat)
  | find (key : Str)
  | count
  | clear

inductive Answer (V : Type)
  | done (ok : Bool)
  | pair (found : Option (Pair V))
  | number (n : Nat)
  | nothing
  deriving DecidableEq

def Call.run (l : Bucklist V) (al : Alloc) : Call V → Except Fault (Answer V × Bucklist V × Alloc)
  | .insert i key val => do
    let (ok, l, al) ← NodeList.insert l i key val al
    .ok (.done ok, l, al)
  | .replace key val => do
    let (ok, l) ← NodeList.replace l key val
    .ok (.done ok, l, al)
  | .remove key => do
    let (found, l) ← NodeList.remove l key
    .ok (.pair found, l, al)
  | .get i => do
    let found ← NodeList.get l i
    .ok (.pair found, l, al)
  | .find key => do
    let found ← NodeList.find l key
    .ok (.pair found, l, al)
  | .count => do
    let n ← NodeList.count l
    .ok (.number n, l, al)
  | .clear => do
    let l ← NodeList.clear l
    .ok (.nothing, l, al)

def runAll (l : Bucklist V) (al : Alloc) :
    List (Call V) → Except Fault (List (Answer V) × Bucklist V × Alloc)
  | [] => .ok ([], l, al)
  | call :: calls => do
    let (answer, l, al) ← call.run l al
    let (answers, l, al) ← runAll l al calls
    .ok (answer :: answers, l, al)

/-- The same on a sequence, where `replace` changes the first pair of the key in any case. -/
def Call.unguarded (cmap : CMap) (s : List (Pair V)) : Call V → Answer V × List (Pair V)
  | .insert i key val => (.done true, s.insertIdx (min i s.length) (key, val))
  | .replace key val =>
    (.done (s.any (keyed cmap key)), s.modify (s.findIdx (keyed cmap key)) fun n => (n.1, val))
  | .remove key => (.pair (s.find? (keyed cmap key)), s.eraseP (keyed cmap key))
  | .get i => (.pair s[i]?, s)
  | .find key => (.pair (s.find? (keyed cmap key)), s)
  | .count => (.number s.length, s)
  | .clear => (.nothing, [])

/-- A null pointer given to `replace` means that nothing is to be changed. -/
def Call.on (cmap : CMap) (s : List (Pair V)) : Call V → Answer V × List (Pair V)
  | .replace _ none => (.done false, s)
  | call => call.unguarded cmap s

def sequenced (step : List (Pair V) → Call V → Answer V × List (Pair V)) :
    List (Pair V) → List (Call V) → List (Answer V) × List (Pair V)
  | s, [] => ([], s)
  | s, call :: calls =>
    let (answer, s) := step s call
    let (answers, s) := sequenced step s calls
    (answer :: answers, s)

/-- The calls on a list return what they return on the sequence, and leave the list with what is
in the sequence then. -/
def Follows (l : Bucklist V) (al : Alloc) (cmap : CMap) (calls : List (Call V))
    (r : List (Answer V) × List (Pair V)) : Prop :=
  ∃ l' al', runAll l al calls = .ok (r.1, l', al') ∧ Represents l' cmap r.2

theorem malloc_granted {al : Alloc} (hal : ∀ ok ∈ al, ok = true) :
    ∃ al', malloc al = (true, al') ∧ ∀ ok ∈ al', ok = true := by
  cases al with
  | nil => exact ⟨[], rfl, hal⟩
  | cons ok al =>
    obtain ⟨rfl, hrest⟩ := List.forall_mem_cons.1 hal
    exact ⟨al, rfl, hrest⟩

/-- One call follows the sequence, and its allocation leaves only such that succeed. -/
theorem run_represents (hl : Represents l cmap s) {al : Alloc} (hal : ∀ ok ∈ al, ok = true)
    (call : Call V) :
    ∃ l' al', call.run l al = .ok ((call.on cmap s).1, l', al') ∧
      Represents l' cmap (call.on cmap s).2 ∧ ∀ ok ∈ al', ok = true := by
  cases call with
  | insert i key val =>
    obtain ⟨al', hmalloc, hal'⟩ := malloc_granted hal
    obtain ⟨l', hrun, hl'⟩ := insert_represents hl i key val hmalloc
    refine ⟨l', al', ?_, hl', hal'⟩
    rw [Call.run, hrun]
    rfl
  | replace key val =>
    cases val with
    | none => exact ⟨l, al, rfl, hl, hal⟩
    | some val =>
      obtain ⟨l', hrun, hl'⟩ := replace_represents hl key val
      refine ⟨l', al, ?_, hl', hal⟩
      rw [Call.run, hrun]
      rfl
  | remove key =>
    obtain ⟨l', hrun, hl'⟩ := remove_represents hl key
    refine ⟨l', al, ?_, hl', hal⟩
    rw [Call.run, hrun]
    rfl
  | get i =>
    refine ⟨l, al, ?_, hl, hal⟩
    rw [Call.run, get_represents hl]
    rfl
  | find key =>
    refine ⟨l, al, ?_, hl, hal⟩
    rw [Call.run, find_represents hl]
    rfl
  | count =>
    refine ⟨l, al, ?_, hl, hal⟩
    rw [Call.run, count_represents hl]
    rfl
  | clear =>
    obtain ⟨l', hrun, hl'⟩ := clear_represents hl
    refine ⟨l', al, ?_, hl', hal⟩
    rw [Call.run, hrun]
    rfl

theorem runAll_represents (hl : Represents l cmap s) {al : Alloc} (hal : ∀ ok ∈ al, ok = true)
    (calls : List (Call V)) : Follows l al cmap calls (sequenced (Call.on cmap) s calls) := by
  induction calls generalizing l s al with
  | nil => exact ⟨l, al, rfl, hl⟩
  | cons call calls ih =>
    obtain ⟨l', al', hrun, hl', hal'⟩ := run_represents hl hal call
    obtain ⟨l'', al'', hruns, hl''⟩ := ih hl' hal'
    refine ⟨l'', al'', ?_, hl''⟩
    rw [runAll, hrun, ok_bind]
    dsimp only
    rw [hruns]
    rfl

theorem calls_sequenced (cmap : CMap) (calls : List (Call V)) (al : Alloc)
    (hal : ∀ ok ∈ al, ok = true) :
    Follows (init cmap) al cmap calls (sequenced (Call.on cmap) [] calls) :=
  runAll_represents (init_represents cmap) hal calls

theorem calls_sequenced_middle :
    Follows (init .ascii) [true, true, true] .ascii
      [.insert 0 (ascii "b") (some 2), .insert 9 (ascii "c") (some 3),
        .insert 1 (ascii "A") (some 1), .get 1, .remove (ascii "a"), .count]
      ([.done true, .done true, .done true, .pair (some (ascii "A", some 1)),
        .pair (some (ascii "A", some 1)), .number 2],
        [(ascii "b", some 2), (ascii "c", some 3)]) :=
  calls_sequenced .ascii _ [true, true, true] (by decide)

/-- The pair of the key keeps its value, and the call fails. -/
theorem replace_null_refused :
    let calls : List (Call Nat) := [.insert 0 (ascii "a") (some 7), .replace (ascii "a") none]
    ¬Follows (init .ascii) [] .ascii calls (sequenced (Call.unguarded .ascii) [] calls) := by
  rintro calls ⟨l', al', hrun, -⟩
  have hcode : (runAll (init .ascii) [] calls).toOption.map Prod.fst =
      some [.done true, .done false] := by decide
  have hclaim : (sequenced (Call.unguarded .ascii) [] calls).1 ≠ [.done true, .done false] := by
    decide
  rw [hrun] at hcode
  exact hclaim (Option.some.inj hcode)

end Srsirc.ListCalls
