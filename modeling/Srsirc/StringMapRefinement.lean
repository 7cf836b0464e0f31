import Mathlib.Data.Set.Card
import Srsirc.StringMapTraversal
import Srsirc.StringMapUpdate

namespace Srsirc.StringMapRefinement

open CharMap BucketList StringMap StringMapEntries StringMapUpdate StringMapTraversal

variable {n : Nat} {V : Type} [NeZero n]

inductive Op (V : Type)
  | put (key : Str) (elem : V)
  | get (key : Str)
  | del (key : Str)
  | clear
  | scan (k : Nat)

inductive Result (V : Type)
  | stored (ok : Bool)
  | found (e : Option V)
  | visited (es : List (Str × V))
  | done

def exec (h : Skmap n V) : Op V → Result V × Skmap n V
  | .put key elem => (.stored (put h key elem []).1, (put h key elem []).2.1)
  | .get key => (.found (StringMap.get h key), h)
  | .del key => (.found (del h key).1, (del h key).2)
  | .clear => (.done, StringMap.clear h)
  | .scan k => (.visited (scan k h).1, (scan k h).2)

def run (h : Skmap n V) (ops : List (Op V)) : Skmap n V := ops.foldl (fun h op => (exec h op).2) h

/-- The finite map a sequence of calls builds: a key counts by its normal form,
and the latest store not followed by a removal wins. -/
def apply (cm : CMap) (σ : Str → Option V) : Op V → Str → Option V
  | .put key elem => Function.update σ (norm cm key) (some elem)
  | .del key => Function.update σ (norm cm key) none
  | .clear => fun _ => none
  | .get _ | .scan _ => σ

def model (cm : CMap) (ops : List (Op V)) : Str → Option V :=
  ops.foldl (apply cm) fun _ => none

/-- What a call has to return on the finite map `σ`. A traversal returns stored
entries of different keys; if it ended before its rounds were used up, it has
returned all of them. -/
def Answers (cm : CMap) (σ : Str → Option V) : Op V → Result V → Prop
  | .put _ _, r => r = .stored true
  | .get key, r => r = .found (σ (norm cm key))
  | .del key, r => r = .found (σ (norm cm key))
  | .clear, r => r = .done
  | .scan k, r => ∃ es, r = .visited es ∧ (KeyedList.keys (norm cm) es).Nodup ∧
      (∀ key v, (key, v) ∈ es → σ (norm cm key) = some v) ∧
      (es.length ≤ k → ∀ κ v, σ κ = some v → ∃ key, (key, v) ∈ es ∧ norm cm key = κ)

/-- The map holds the finite map `σ`. -/
structure Represents (cm : CMap) (h : Skmap n V) (σ : Str → Option V) : Prop where
  wf : WellFormed h
  cm : h.cm = cm
  lookup : lookup h = σ

theorem lookup_stored {h h' : Skmap n V} (w : WellFormed h) {key : Str} {elem : V}
    (s : Stored h h' key elem) :
    lookup h' = Function.update (lookup h) (norm h.cm key) (some elem) := by
  obtain ⟨k, hk, hp⟩ := s.entries
  funext κ
  rw [lookup, KeyedList.lookup_perm (keys_nodup s.wf) (s.cm ▸ hp), s.cm, KeyedList.lookup,
    KeyedList.lookup_erase (keys_nodup w), Function.update_apply]
  simp only [hk, @eq_comm _ (norm h.cm key)]
  by_cases hκ : κ = norm h.cm key <;> simp [hκ, lookup]

theorem lookup_removed {h h' : Skmap n V} (w : WellFormed h) {key : Str} (s : Removed h h' key) :
    lookup h' = Function.update (lookup h) (norm h.cm key) none := by
  funext κ
  rw [lookup, KeyedList.lookup_perm (keys_nodup s.wf) (s.cm ▸ s.entries), s.cm,
    KeyedList.lookup_erase (keys_nodup w), Function.update_apply]
  rfl

theorem put_noFail {h : Skmap n V} (w : WellFormed h) (key : Str) (elem : V) :
    ∃ h', put h key elem [] = (true, h', []) ∧ Stored h h' key elem := by
  rcases put_cases w key elem [] with ⟨hne, _⟩ | ⟨h', al', hp, hal, hs⟩
  · exact absurd rfl hne
  · exact ⟨h', by rw [hp, hal rfl], hs⟩

theorem represents_init (cm : CMap) : Represents cm (StringMap.init n V cm) fun _ => none := by
  obtain ⟨w, he⟩ := wf_empty (StringMap.init n V cm) rfl rfl
  exact ⟨w, rfl, by funext κ; rw [lookup, he]; rfl⟩

/-- One call simulates one step of the finite map. -/
theorem represents_exec {cm : CMap} {h : Skmap n V} {σ : Str → Option V} (r : Represents cm h σ)
    (op : Op V) : Represents cm (exec h op).2 (apply cm σ op) := by
  obtain ⟨w, rfl, rfl⟩ := r
  cases op with
  | put key elem =>
    obtain ⟨h', hp, hs⟩ := put_noFail w key elem
    simp only [exec, hp]
    exact ⟨hs.wf, hs.cm, lookup_stored w hs⟩
  | get key => exact ⟨w, rfl, rfl⟩
  | del key =>
    obtain ⟨_, hs⟩ := del_cases w key
    exact ⟨hs.wf, hs.cm, lookup_removed w hs⟩
  | clear =>
    obtain ⟨hw, he⟩ := wf_empty (StringMap.clear h) rfl rfl
    exact ⟨hw, rfl, by funext κ; rw [lookup]; simp only [exec, he]; rfl⟩
  | scan k =>
    obtain ⟨_, hs⟩ := scan_eq k h
    refine ⟨hs.wf w, hs.cm, ?_⟩
    funext κ
    change KeyedList.lookup (norm (scan k h).2.cm) κ (entries (scan k h).2) = _
    rw [hs.entries, hs.cm]
    rfl

theorem represents_run (cm : CMap) (ops : List (Op V)) :
    Represents cm (run (StringMap.init n V cm) ops) (model cm ops) := by
  have hstep : ∀ (ops : List (Op V)) (h : Skmap n V) (σ : Str → Option V), Represents cm h σ →
      Represents cm (run h ops) (ops.foldl (apply cm) σ) := by
    intro ops
    induction ops with
    | nil => exact fun _ _ r => r
    | cons op ops ih => exact fun h σ r => ih _ _ (represents_exec r op)
  exact hstep ops _ _ (represents_init cm)

theorem answers_exec {cm : CMap} {h : Skmap n V} {σ : Str → Option V} (r : Represents cm h σ)
    (op : Op V) : Answers cm σ op (exec h op).1 := by
  obtain ⟨w, rfl, rfl⟩ := r
  cases op with
  | put key elem =>
    obtain ⟨h', hp, _⟩ := put_noFail w key elem
    simp only [exec, hp, Answers]
  | get key => simp only [exec, Answers, get_eq w]
  | del key => simp only [exec, Answers, (del_cases w key).1]
  | clear => rfl
  | scan k =>
    obtain ⟨he, _⟩ := scan_eq k h
    refine ⟨_, rfl, ?_, ?_, ?_⟩
    · rw [he, KeyedList.keys, List.map_take]
      exact (keys_nodup w).sublist (List.take_sublist _ _)
    · intro key v hm
      rw [he] at hm
      exact KeyedList.lookup_of_mem (keys_nodup w) (List.mem_of_mem_take hm)
    · intro hlen κ v hσ
      rw [he] at hlen ⊢
      rw [List.take_of_length_le (by rw [List.length_take] at hlen; omega)]
      exact (KeyedList.lookup_eq_some_iff (keys_nodup w) κ v).mp hσ

theorem count_eq {cm : CMap} {h : Skmap n V} {σ : Str → Option V} (r : Represents cm h σ) :
    h.count = {κ | σ κ ≠ none}.ncard := by
  obtain ⟨w, rfl, rfl⟩ := r
  have hset : {κ | lookup h κ ≠ none} = ↑(KeyedList.keys (norm h.cm) (entries h)).toFinset := by
    ext κ
    simp [lookup, KeyedList.lookup_eq_none_iff]
  rw [hset, Set.ncard_coe_finset, List.toFinset_card_of_nodup (keys_nodup w), w.counted]
  simp [KeyedList.keys]

/-- After any sequence of calls, every further call answers as the finite map does,
and the count is the number of different keys stored. -/
theorem skmap_refines (n : Nat) [NeZero n] (V : Type) (cm : CMap) (ops : List (Op V)) (op : Op V) :
    Answers cm (model cm ops) op (exec (run (StringMap.init n V cm) ops) op).1 ∧
    (run (StringMap.init n V cm) ops).count = {κ | model cm ops κ ≠ none}.ncard :=
  ⟨answers_exec (represents_run cm ops) op, count_eq (represents_run cm ops)⟩

theorem skmap_refines_collision :
    Answers .rfc1459
      (model .rfc1459 [.put (ascii "foo") 7, .put (ascii "bar") 8, .del (ascii "Bar!x")])
      (.get (ascii "FOO@host"))
      (exec (run (StringMap.init 1 Nat .rfc1459)
        [.put (ascii "foo") 7, .put (ascii "bar") 8, .del (ascii "Bar!x")])
          (.get (ascii "FOO@host"))).1 ∧
    (run (StringMap.init 1 Nat .rfc1459)
        [.put (ascii "foo") 7, .put (ascii "bar") 8, .del (ascii "Bar!x")]).count =
      {κ | model .rfc1459 [.put (ascii "foo") 7, .put (ascii "bar") 8, .del (ascii "Bar!x")] κ ≠
        none}.ncard :=
  skmap_refines 1 Nat .rfc1459 [.put (ascii "foo") 7, .put (ascii "bar") 8, .del (ascii "Bar!x")]
    (.get (ascii "FOO@host"))

end Srsirc.StringMapRefinement
