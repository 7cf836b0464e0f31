import Srsirc.StringMapEntries

namespace Srsirc.StringMapTraversal

open CharMap StringMap StringMapEntries
open BucketList (Bucklist isempty)

variable {n : Nat} {V : Type}

structure SameEntries (h h' : Skmap n V) : Prop where
  nodes : ∀ i, nodesAt h' i = nodesAt h i
  count : h'.count = h.count
  cm : h'.cm = h.cm

theorem SameEntries.refl (h : Skmap n V) : SameEntries h h := ⟨fun _ => rfl, rfl, rfl⟩

theorem SameEntries.trans {h h' h'' : Skmap n V} (a : SameEntries h h') (b : SameEntries h' h'') :
    SameEntries h h'' :=
  ⟨fun i => (b.nodes i).trans (a.nodes i), b.count.trans a.count, b.cm.trans a.cm⟩

theorem SameEntries.entries {h h' : Skmap n V} (s : SameEntries h h') :
    entries h' = StringMapEntries.entries h := by
  rw [StringMapEntries.entries, StringMapEntries.entries, funext s.nodes]

theorem SameEntries.wf [NeZero n] {h h' : Skmap n V} (s : SameEntries h h') (w : WellFormed h) :
    WellFormed h' where
  placed i e he := by
    rw [s.cm]
    exact w.placed i e (s.nodes i ▸ he)
  distinct i := by
    rw [s.cm, s.nodes]
    exact w.distinct i
  counted := by rw [s.count, s.entries, w.counted]

/-- The entries in the buckets from `b` on. -/
def tailFrom (h : Skmap n V) (b : Nat) : List (Str × V) :=
  ((List.finRange n).drop b).flatMap (nodesAt h)

theorem tailFrom_lt (h : Skmap n V) (b : Nat) (hb : b < n) :
    tailFrom h b = nodesAt h ⟨b, hb⟩ ++ tailFrom h (b + 1) := by
  rw [tailFrom, List.drop_eq_getElem_cons (by simpa using hb)]
  simp [tailFrom]

theorem tailFrom_ge (h : Skmap n V) (b : Nat) (hb : n ≤ b) : tailFrom h b = [] := by
  rw [tailFrom, List.drop_eq_nil_of_le (by simpa using hb)]
  rfl

theorem skip_iff (h : Skmap n V) (b : Nat) :
    skip h b = true ↔ ∃ hb : b < n, nodesAt h ⟨b, hb⟩ = [] := by
  by_cases hb : b < n
  · cases hl : h.buck ⟨b, hb⟩ <;> simp [skip, nodesAt, isempty, hb, hl]
  · simp [skip, hb]

/-- Seeking passes over empty buckets only and stops at the next entry, if there is one. -/
theorem seek_spec (h : Skmap n V) (k b : Nat) (hk : n ≤ b + k) :
    tailFrom h (seek h k b) = tailFrom h b ∧ ¬ skip h (seek h k b) = true := by
  induction k generalizing b with
  | zero => exact ⟨rfl, fun hs => absurd ((skip_iff h b).mp hs).choose (by omega)⟩
  | succ k ih =>
    by_cases hs : skip h b = true
    · obtain ⟨hb, hn⟩ := (skip_iff h b).mp hs
      obtain ⟨ht, hstop⟩ := ih (b + 1) (by omega)
      rw [seek, if_pos hs]
      exact ⟨by rw [ht, tailFrom_lt h b hb, hn, List.nil_append], hstop⟩
    · rw [seek, if_neg hs]
      exact ⟨rfl, hs⟩

/-- The traversal stands on node `j` of the current bucket. -/
structure On (h : Skmap n V) (j : Nat) : Prop where
  iterating : h.iterating = true
  at_node : ∃ (hb : h.bit < n) (l : Bucklist V), h.buck ⟨h.bit, hb⟩ = some l ∧ l.iter = some j

/-- What a traversal standing on node `j` of bucket `b` has yet to return. -/
def left (h : Skmap n V) (b j : Nat) : List (Str × V) :=
  (if hb : b < n then (nodesAt h ⟨b, hb⟩).drop (j + 1) else []) ++ tailFrom h (b + 1)

theorem SameEntries.left {h h' : Skmap n V} (s : SameEntries h h') (b j : Nat) :
    left h' b j = StringMapTraversal.left h b j := by
  have ht : tailFrom h' (b + 1) = tailFrom h (b + 1) :=
    congrArg (((List.finRange n).drop (b + 1)).flatMap ·) (funext s.nodes)
  simp only [StringMapTraversal.left, ht, s.nodes]

/-- One call of `first` or `next` either returns the head of what is left, and the
rest is left, or returns nothing because nothing is left. -/
def Returns (h : Skmap n V) (es : List (Str × V)) (r : Option (Str × V) × Skmap n V) : Prop :=
  SameEntries h r.2 ∧
  ((es = [] ∧ r.1 = none) ∨ ∃ e rest j, es = e :: rest ∧ r.1 = some e ∧ On r.2 j ∧
    left r.2 r.2.bit j = rest)

theorem sameEntries_setBuck (h : Skmap n V) (i : Fin n) (l l' : Bucklist V)
    (hl : h.buck i = some l) (hn : l'.nodes = l.nodes) : SameEntries h (setBuck h i l') := by
  refine ⟨fun j => ?_, rfl, rfl⟩
  rw [nodesAt_setBuck]
  by_cases hj : j = i
  · rw [if_pos hj, hj, nodesAt, hl, hn]
  · rw [if_neg hj]

theorem enter_seek (h : Skmap n V) (b : Nat) :
    Returns h (tailFrom h b) (enter { h with bit := seek h n b }) := by
  obtain ⟨ht, hstop⟩ := seek_spec h n b (by omega)
  rw [← ht]
  generalize seek h n b = c at hstop
  by_cases hc : c < n
  · have hne : nodesAt h ⟨c, hc⟩ ≠ [] := fun hn => hstop ((skip_iff h c).mpr ⟨hc, hn⟩)
    cases hl : h.buck ⟨c, hc⟩ with
    | none => exact absurd (by simp [nodesAt, hl]) hne
    | some l =>
      have hn : nodesAt h ⟨c, hc⟩ = l.nodes := by simp [nodesAt, hl]
      obtain ⟨e, es, hes⟩ := List.exists_cons_of_ne_nil (hn ▸ hne)
      have hf : BucketList.first l = (some e, { l with previter := none, iter := some 0 }) := by
        simp [BucketList.first, hes]
      have he : enter { h with bit := c } = (some e,
          { setBuck { h with bit := c } ⟨c, hc⟩ { l with previter := none, iter := some 0 } with
            iterating := true }) := by
        simp [enter, hc, hl, hf]
      rw [he]
      have hsame : SameEntries h
          { setBuck { h with bit := c } ⟨c, hc⟩ { l with previter := none, iter := some 0 } with
            iterating := true } :=
        let s := sameEntries_setBuck h ⟨c, hc⟩ l { l with previter := none, iter := some 0 } hl rfl
        ⟨s.nodes, rfl, rfl⟩
      refine ⟨hsame, Or.inr ⟨e, es ++ tailFrom h (c + 1), 0, ?_, rfl, ⟨rfl, hc, ?_⟩, ?_⟩⟩
      · rw [tailFrom_lt h c hc, hn, hes, List.cons_append]
      · exact ⟨{ l with previter := none, iter := some 0 }, by simp [setBuck], rfl⟩
      · refine (hsame.left c 0).trans ?_
        rw [left, dif_pos hc, hn, hes]
        rfl
  · have hnone : enter { h with bit := c } = (none, { h with bit := c, iterating := false }) := by
      simp [enter, hc]
    rw [hnone]
    exact ⟨⟨fun _ => rfl, rfl, rfl⟩, Or.inl ⟨tailFrom_ge h c (by omega), rfl⟩⟩

theorem first_returns (h : Skmap n V) : Returns h (entries h) (first h) := enter_seek h 0

theorem next_returns (h : Skmap n V) (j : Nat) (o : On h j) :
    Returns h (left h h.bit j) (next h) := by
  obtain ⟨hi, hb, l, hl, hj⟩ := o
  have hn : nodesAt h ⟨h.bit, hb⟩ = l.nodes := by simp [nodesAt, hl]
  have hleft : left h h.bit j = l.nodes.drop (j + 1) ++ tailFrom h (h.bit + 1) := by
    rw [left, dif_pos hb, hn]
  cases he : l.nodes[j + 1]? with
  | none =>
    have hx : BucketList.next l = (none, l) := by simp [BucketList.next, hj, he]
    have hnext : next h = enter { h with bit := seek h n (h.bit + 1) } := by
      simp [next, hi, hb, hl, hx]
    have hd : l.nodes.drop (j + 1) = [] := List.drop_eq_nil_of_le (by simpa using he)
    rw [hnext, hleft, hd, List.nil_append]
    exact enter_seek h (h.bit + 1)
  | some e =>
    let l' : Bucklist V := { l with previter := some j, iter := some (j + 1) }
    have hx : BucketList.next l = (some e, l') := by simp [BucketList.next, hj, he, l']
    have hnext : next h = (some e, setBuck h ⟨h.bit, hb⟩ l') := by
      simp [next, hi, hb, hl, hx]
    obtain ⟨hlt, hget⟩ := List.getElem?_eq_some_iff.mp he
    have hd : l.nodes.drop (j + 1) = e :: l.nodes.drop (j + 1 + 1) := by
      rw [List.drop_eq_getElem_cons hlt, hget]
    have hsame := sameEntries_setBuck h ⟨h.bit, hb⟩ l l' hl rfl
    rw [hnext, hleft, hd]
    refine ⟨hsame, Or.inr ⟨e, _, j + 1, rfl, rfl, ⟨hi, hb, l', by simp [setBuck], rfl⟩, ?_⟩⟩
    refine (hsame.left h.bit (j + 1)).trans ?_
    rw [left, dif_pos hb, hn]
    rfl

theorem nexts_eq (k : Nat) (h : Skmap n V) (j : Nat) (o : On h j) :
    (nexts k h).1 = (left h h.bit j).take k ∧ SameEntries h (nexts k h).2 := by
  induction k generalizing h j with
  | zero => exact ⟨rfl, SameEntries.refl h⟩
  | succ k ih =>
    obtain ⟨hs, hr⟩ := next_returns h j o
    cases hn : next h with
    | mk r h' =>
      rw [hn] at hs hr
      rcases hr with ⟨he, hnone⟩ | ⟨e, rest, j', he, hsome, o', hrest⟩
      · simp only at hnone
        subst hnone
        simp only [nexts, hn, he, List.take_nil]
        exact ⟨trivial, hs⟩
      · simp only at hsome
        subst hsome
        obtain ⟨hl, ht⟩ := ih h' j' o'
        simp only [nexts, hn, he, List.take_succ_cons]
        exact ⟨by rw [hl, hrest], hs.trans ht⟩

/-- A traversal of `k + 1` rounds returns the first `k + 1` entries, so one round more
than there are entries returns them all and then stops. -/
theorem scan_eq (k : Nat) (h : Skmap n V) :
    (scan k h).1 = (entries h).take (k + 1) ∧ SameEntries h (scan k h).2 := by
  obtain ⟨hs, hr⟩ := first_returns h
  cases hf : first h with
  | mk r h' =>
    rw [hf] at hs hr
    rcases hr with ⟨he, hnone⟩ | ⟨e, rest, j, he, hsome, o, hrest⟩
    · simp only at hnone
      subst hnone
      simp only [scan, hf, he, List.take_nil]
      exact ⟨trivial, hs⟩
    · simp only at hsome
      subst hsome
      obtain ⟨hl, ht⟩ := nexts_eq k h' j o
      simp only [scan, hf, he, List.take_succ_cons]
      exact ⟨by rw [hl, hrest], hs.trans ht⟩

end Srsirc.StringMapTraversal
