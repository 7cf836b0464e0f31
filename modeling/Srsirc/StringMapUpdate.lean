import Srsirc.StringMapEntries

namespace Srsirc.StringMapUpdate

open CharMap BucketList StringMap StringMapEntries

variable {n : Nat} {V : Type} [NeZero n]

/-- What a successful store under `key` leaves behind. -/
structure Stored (h h' : Skmap n V) (key : Str) (elem : V) : Prop where
  wf : WellFormed h'
  cm : h'.cm = h.cm
  entries : ∃ k, norm h.cm k = norm h.cm key ∧
    (entries h').Perm ((k, elem) :: KeyedList.erase (norm h.cm) (norm h.cm key) (entries h))

theorem not_mem_others {h : Skmap n V} (w : WellFormed h) (key : Str) :
    norm h.cm key ∉ KeyedList.keys (norm h.cm) (others h (slot h.cm key)) := by
  intro hm
  obtain ⟨k, v, hk, he⟩ := (KeyedList.mem_keys _ _ _).mp hm
  obtain ⟨i, hi, hki⟩ := List.mem_flatMap.mp hk
  have hs : i = slot h.cm key := (w.placed i (k, v) hki).symm.trans (slot_congr h.cm k key he)
  exact List.Nodup.not_mem_erase (List.nodup_finRange n) (hs ▸ hi)

theorem erase_entries {h : Skmap n V} (w : WellFormed h) (key : Str) :
    (KeyedList.erase (norm h.cm) (norm h.cm key) (entries h)).Perm
      (KeyedList.erase (norm h.cm) (norm h.cm key) (nodesAt h (slot h.cm key)) ++
        others h (slot h.cm key)) := by
  rw [← KeyedList.erase_append _ _ (not_mem_others w key)]
  exact KeyedList.erase_perm (keys_nodup w) (entries_split h _) _

/-- Replacing one list by another of well-placed distinct keys keeps the map well formed,
once the count is brought up to date. -/
theorem wf_setBuck {h : Skmap n V} (w : WellFormed h) (i : Fin n) (l : Bucklist V) (c : Nat)
    (hp : ∀ e ∈ l.nodes, slot h.cm e.1 = i) (hd : (KeyedList.keys (norm h.cm) l.nodes).Nodup)
    (hc : c = (l.nodes ++ others h i).length) : WellFormed { setBuck h i l with count := c } where
  placed j e he := by
    change e ∈ nodesAt (setBuck h i l) j at he
    rw [nodesAt_setBuck] at he
    by_cases hj : j = i
    · rw [if_pos hj] at he
      exact (hp e he).trans hj.symm
    · rw [if_neg hj] at he
      exact w.placed j e he
  distinct j := by
    change (KeyedList.keys (norm h.cm) (nodesAt (setBuck h i l) j)).Nodup
    rw [nodesAt_setBuck]
    by_cases hj : j = i
    · rwa [if_pos hj]
    · rw [if_neg hj]
      exact w.distinct j
  counted := hc.trans (entries_setBuck h i l).length_eq.symm

theorem mem_erase_slot {h : Skmap n V} (w : WellFormed h) (i : Fin n) (κ : Str) :
    ∀ e ∈ KeyedList.erase (norm h.cm) κ (nodesAt h i), slot h.cm e.1 = i := by
  intro e he
  rw [KeyedList.erase_eq_filter (w.distinct i)] at he
  exact w.placed i e (List.mem_of_mem_filter he)

theorem not_mem_keys_erase {f : Str → Str} {l : List (Str × V)} (hd : (KeyedList.keys f l).Nodup)
    (κ : Str) : κ ∉ KeyedList.keys f (KeyedList.erase f κ l) := by
  rw [← KeyedList.lookup_eq_none_iff, KeyedList.lookup_erase hd, if_pos rfl]

theorem stored_of_perm {h : Skmap n V} (w : WellFormed h) (key k : Str) (elem : V)
    (l : Bucklist V) (c : Nat) (hk : norm h.cm k = norm h.cm key)
    (hl : l.nodes.Perm ((k, elem) :: KeyedList.erase (norm h.cm) (norm h.cm key)
      (nodesAt h (slot h.cm key))))
    (hc : c = (l.nodes ++ others h (slot h.cm key)).length) :
    Stored h { setBuck h (slot h.cm key) l with count := c } key elem where
  wf := by
    refine wf_setBuck w _ l c ?_ ?_ hc
    · intro e he
      rcases List.mem_cons.mp (hl.mem_iff.mp he) with rfl | he
      · exact slot_congr h.cm _ _ hk
      · exact mem_erase_slot w _ _ e he
    · refine (hl.map _).nodup_iff.mpr (List.nodup_cons.mpr ⟨?_, ?_⟩)
      · change norm h.cm k ∉ KeyedList.keys _ _
        rw [hk]
        exact not_mem_keys_erase (w.distinct _) _
      · exact (w.distinct _).sublist (KeyedList.keys_erase_sublist _ _ _)
  cm := rfl
  entries := by
    refine ⟨k, hk, ?_⟩
    have hs := (entries_setBuck h (slot h.cm key) l).trans (hl.append_right _)
    exact hs.trans ((erase_entries w key).symm.cons (k, elem))

theorem stored_replace {h : Skmap n V} (w : WellFormed h) (kl : Bucklist V) (key : Str) (elem e : V)
    (hkl : kl.nodes = nodesAt h (slot h.cm key)) (hf : find h.cm kl key = some e) :
    Stored h (setBuck h (slot h.cm key) (replace h.cm kl key elem).2) key elem := by
  rw [find_eq, hkl] at hf
  obtain ⟨k, hk, hp⟩ := KeyedList.perm_replace hf elem
  obtain ⟨_, _, he⟩ := KeyedList.perm_erase hf
  have hl := (replace_nodes h.cm kl key elem).trans (congrArg _ hkl)
  refine stored_of_perm w key k elem _ h.count hk (hl ▸ hp) ?_
  rw [w.counted, (entries_split h (slot h.cm key)).length_eq, List.length_append,
    List.length_append, hl, hp.length_eq, he.length_eq]
  rfl

theorem stored_insert {h : Skmap n V} (w : WellFormed h) (kl : Bucklist V) (key : Str) (elem : V)
    (hkl : kl.nodes = nodesAt h (slot h.cm key)) (hf : find h.cm kl key = none) :
    Stored h { setBuck h (slot h.cm key) { kl with nodes := insertNode (key, elem) kl.nodes 0 } with
      count := h.count + 1 } key elem := by
  rw [find_eq, hkl] at hf
  refine stored_of_perm w key key elem _ _ rfl ?_ ?_
  · rw [insert_front, hkl, KeyedList.erase_of_lookup_none hf]
  · rw [w.counted, (entries_split h (slot h.cm key)).length_eq, insert_front, hkl]
    simp

/-- Either an allocation failed and nothing happened, or the element is stored. -/
theorem putIn_cases {h : Skmap n V} (w : WellFormed h) (kl : Bucklist V) (key : Str) (elem : V)
    (al : Alloc) (hkl : kl.nodes = nodesAt h (slot h.cm key)) :
    (al ≠ [] ∧ ∃ al', putIn h (slot h.cm key) kl key elem al = (false, h, al')) ∨
    ∃ h' al', putIn h (slot h.cm key) kl key elem al = (true, h', al') ∧ (al = [] → al' = []) ∧
      Stored h h' key elem := by
  cases hf : find h.cm kl key with
  | some e =>
    refine Or.inr ⟨_, al, ?_, id, stored_replace w kl key elem e hkl hf⟩
    simp only [putIn, hf]
  | none =>
    have hs := stored_insert w kl key elem hkl hf
    rcases al with _ | ⟨_ | _, _ | ⟨_ | _, al⟩⟩
    · exact Or.inr ⟨_, [], by simp only [putIn, hf, BucketList.insert, malloc], id, hs⟩
    · exact Or.inl ⟨by simp, _, by simp only [putIn, hf, malloc]; rfl⟩
    · exact Or.inl ⟨by simp, _, by simp only [putIn, hf, malloc]; rfl⟩
    · exact Or.inl ⟨by simp, _, by simp only [putIn, hf, malloc]; rfl⟩
    · exact Or.inr ⟨_, [], by simp only [putIn, hf, BucketList.insert, malloc], fun _ => rfl, hs⟩
    · exact Or.inl ⟨by simp, al, by simp only [putIn, hf, BucketList.insert, malloc]⟩
    · exact Or.inr ⟨_, al, by simp only [putIn, hf, BucketList.insert, malloc], by simp, hs⟩

theorem put_cases {h : Skmap n V} (w : WellFormed h) (key : Str) (elem : V) (al : Alloc) :
    (al ≠ [] ∧ ∃ al', put h key elem al = (false, h, al')) ∨
    ∃ h' al', put h key elem al = (true, h', al') ∧ (al = [] → al' = []) ∧
      Stored h h' key elem := by
  cases hb : h.buck (slot h.cm key) with
  | some kl =>
    simp only [put, hb]
    exact putIn_cases w kl key elem al (by simp [nodesAt, hb])
  | none =>
    have hkl : (BucketList.init : Bucklist V).nodes = nodesAt h (slot h.cm key) := by
      simp [nodesAt, hb, BucketList.init]
    rcases al with _ | ⟨_ | _, al⟩
    · simpa only [put, hb, malloc] using putIn_cases w _ key elem [] hkl
    · exact Or.inl ⟨by simp, al, by simp only [put, hb, malloc]⟩
    · simp only [put, hb, malloc]
      rcases putIn_cases w _ key elem al hkl with ⟨_, hf⟩ | ⟨h', al', hp, _, hs⟩
      · exact Or.inl ⟨by simp, hf⟩
      · exact Or.inr ⟨h', al', hp, by simp, hs⟩

/-- What a removal under `key` leaves behind. -/
structure Removed (h h' : Skmap n V) (key : Str) : Prop where
  wf : WellFormed h'
  cm : h'.cm = h.cm
  entries : (entries h').Perm (KeyedList.erase (norm h.cm) (norm h.cm key) (entries h))

theorem removed_refl {h : Skmap n V} (w : WellFormed h) (key : Str)
    (hl : lookup h (norm h.cm key) = none) : Removed h h key :=
  ⟨w, rfl, by rw [KeyedList.erase_of_lookup_none hl]⟩

theorem removed_remove {h : Skmap n V} (w : WellFormed h) (kl : Bucklist V) (key : Str) (v : V)
    (hkl : kl.nodes = nodesAt h (slot h.cm key))
    (hv : KeyedList.lookup (norm h.cm) (norm h.cm key) kl.nodes = some v) :
    Removed h { setBuck h (slot h.cm key) (remove h.cm kl key).2 with count := h.count - 1 }
      key := by
  have hn := (remove_nodes h.cm kl key).trans (congrArg _ hkl)
  rw [hkl] at hv
  obtain ⟨k, _, hp⟩ := KeyedList.perm_erase hv
  refine ⟨wf_setBuck w _ _ _ ?_ ?_ ?_, rfl, ?_⟩
  · rw [hn]
    exact mem_erase_slot w _ _
  · rw [hn]
    exact (w.distinct _).sublist (KeyedList.keys_erase_sublist _ _ _)
  · rw [w.counted, (entries_split h (slot h.cm key)).length_eq, hn, List.length_append,
      List.length_append, hp.length_eq, List.length_cons]
    omega
  · have hs := entries_setBuck h (slot h.cm key) (remove h.cm kl key).2
    rw [hn] at hs
    exact hs.trans (erase_entries w key).symm

theorem del_cases {h : Skmap n V} (w : WellFormed h) (key : Str) :
    (del h key).1 = lookup h (norm h.cm key) ∧ Removed h (del h key).2 key := by
  have hl := lookup_slot w key
  cases hb : h.buck (slot h.cm key) with
  | none =>
    have hn : lookup h (norm h.cm key) = none := by rw [hl, nodesAt, hb]; rfl
    simp only [del, hb]
    exact ⟨hn.symm, removed_refl w key hn⟩
  | some kl =>
    have hkl : kl.nodes = nodesAt h (slot h.cm key) := by simp [nodesAt, hb]
    have hv := remove_val h.cm kl key
    rw [← hkl] at hl
    cases hr : remove h.cm kl key with
    | mk o kl' =>
      rw [hr, ← hl] at hv
      cases o with
      | none =>
        simp only [del, hb, hr]
        exact ⟨hv, removed_refl w key hv.symm⟩
      | some e =>
        have hrem := removed_remove w kl key e.2 hkl (hl.symm.trans hv.symm)
        rw [hr] at hrem
        simp only [del, hb, hr]
        exact ⟨hv, hrem⟩

theorem wf_empty (h : Skmap n V) (hb : h.buck = fun _ => none) (hc : h.count = 0) :
    WellFormed h ∧ entries h = [] := by
  have hn : ∀ i, nodesAt h i = [] := fun i => by simp [nodesAt, hb]
  have he : entries h = [] := by simp [entries, hn]
  exact ⟨⟨by simp [hn], by simp [hn], by rw [hc, he]; rfl⟩, he⟩

end Srsirc.StringMapUpdate
