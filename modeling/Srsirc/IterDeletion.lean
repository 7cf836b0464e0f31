import Srsirc.StringMapTraversal
import Srsirc.StringMapUpdate

namespace Srsirc.IterDeletion

open CharMap BucketList StringMap StringMapEntries StringMapUpdate StringMapTraversal

variable {n : Nat} {V : Type}

/-- `lsi_bucklist_del_iter`; `none` where it follows a null pointer, or where the node it frees
stays in the list. -/
def delNode (l : Bucklist V) : Option (Bucklist V) :=
  match l.previter, l.iter with
  | _, none => none
  | none, some i => some ⟨l.nodes.drop (i + 1), none, none⟩
  | some p, some i =>
    if i = p + 1 then some ⟨l.nodes.take (p + 1) ++ l.nodes.drop (i + 1), some p, some p⟩ else none

/-- `lsi_skmap_del_iter`, which leaves the count as it is. -/
def delIter (h : Skmap n V) : Option (Skmap n V) :=
  if !h.iterating then some h
  else if hb : h.bit < n then
    match h.buck ⟨h.bit, hb⟩ with
    | none => none
    | some l => (delNode l).map (setBuck h ⟨h.bit, hb⟩)
  else none

def visit (del : Bool) (h : Skmap n V) : Option (Skmap n V) := if del then delIter h else some h

/-- The rest of a traversal, `r` being what `first` or `next` has just returned for the `i`-th
time. The `i`-th entry is deleted if `dels` says so, and `k` bounds the number of calls. -/
def sweepFrom (dels : Nat → Bool) :
    Nat → Nat → Option (Str × V) × Skmap n V → Option (List (Str × V) × Skmap n V)
  | 0, _, _ => none
  | _ + 1, _, (none, h) => some ([], h)
  | k + 1, i, (some e, h) =>
    (visit (dels i) h).bind fun h =>
      (sweepFrom dels k (i + 1) (next h)).map fun r => (e :: r.1, r.2)

/-- What a traversal returns before it ends, and what it leaves. -/
def sweep (dels : Nat → Bool) (k : Nat) (h : Skmap n V) : Option (List (Str × V) × Skmap n V) :=
  sweepFrom dels k 0 (first h)

/-- The entries that are not deleted, of those returned from the `i`-th on. -/
def kept (dels : Nat → Bool) : Nat → List (Str × V) → List (Str × V)
  | _, [] => []
  | i, e :: es => if dels i then kept dels (i + 1) es else e :: kept dels (i + 1) es

/-- The traversal returns all entries once and ends, and what is there then is what was not
deleted. -/
def Sound [NeZero n] (h : Skmap n V) (dels : Nat → Bool) : Prop :=
  ∃ k es h', sweep dels k h = some (es, h') ∧ es.Perm (entries h) ∧
    (∀ key, StringMap.get h' key =
      KeyedList.lookup (norm h.cm) (norm h.cm key) (kept dels 0 es)) ∧
    (∃ k' es' h'', sweep (fun _ => false) k' h' = some (es', h'') ∧ es'.Perm (kept dels 0 es)) ∧
    h'.count = (kept dels 0 es).length

/-- A map that calls have led to. -/
inductive Reached [NeZero n] : Skmap n V → Prop
  | init (cm : CMap) : Reached (StringMap.init n V cm)
  | put {h : Skmap n V} (hr : Reached h) (key : Str) (elem : V) (al : Alloc) :
      Reached (put h key elem al).2.1
  | del {h : Skmap n V} (hr : Reached h) (key : Str) : Reached (del h key).2
  | clear {h : Skmap n V} (hr : Reached h) : Reached (StringMap.clear h)
  | first {h : Skmap n V} (hr : Reached h) : Reached (StringMap.first h).2
  | next {h : Skmap n V} (hr : Reached h) : Reached (StringMap.next h).2
  | delIter {h h' : Skmap n V} (hr : Reached h) (hd : delIter h = some h') : Reached h'

section Traversal

variable {h h' : Skmap n V} {dels : Nat → Bool}

theorem kept_all {i : Nat} {es : List (Str × V)} (hno : ∀ j < es.length, dels (i + j) = false) :
    kept dels i es = es := by
  induction es generalizing i with
  | nil => rfl
  | cons e es ih =>
    have hi : dels i = false := hno 0 (Nat.succ_pos _)
    rw [kept, if_neg (by simp [hi]), ih]
    intro j hj
    have hthen := hno (j + 1) (Nat.succ_lt_succ hj)
    rwa [← Nat.add_assoc, Nat.add_right_comm] at hthen

theorem length_kept_le (i : Nat) (es : List (Str × V)) : (kept dels i es).length ≤ es.length := by
  induction es generalizing i with
  | nil => exact Nat.le_refl _
  | cons e es ih =>
    rw [kept]
    split
    · exact (ih (i + 1)).trans (Nat.le_succ _)
    · exact Nat.succ_le_succ (ih (i + 1))

theorem none_deleted {i : Nat} {es : List (Str × V)}
    (hlen : es.length ≤ (kept dels i es).length) : ∀ j < es.length, dels (i + j) = false := by
  induction es generalizing i with
  | nil => exact fun j hj => absurd hj (Nat.not_lt_zero j)
  | cons e es ih =>
    rw [kept] at hlen
    split at hlen
    · exact absurd (hlen.trans (length_kept_le (i + 1) es)) (Nat.not_succ_le_self _)
    · next hi =>
      intro j hj
      cases j with
      | zero => exact Bool.eq_false_iff.2 hi
      | succ j =>
        have hthen := ih (Nat.le_of_succ_le_succ hlen) j (Nat.lt_of_succ_lt_succ hj)
        rwa [Nat.add_right_comm, Nat.add_assoc] at hthen

theorem next_nodes (l : Bucklist V) : (BucketList.next l).2.nodes = l.nodes := by
  rw [BucketList.next]
  split
  · rfl
  · split <;> rfl

theorem next_same (h : Skmap n V) : SameEntries h (StringMap.next h).2 := by
  have henter : SameEntries h (enter { h with bit := seek h n (h.bit + 1) }).2 :=
    (enter_seek h (h.bit + 1)).1
  rw [StringMap.next]
  split
  · exact SameEntries.refl h
  · by_cases hb : h.bit < n
    · cases hl : h.buck ⟨h.bit, hb⟩ with
      | none => simpa [hb, hl] using henter
      | some l =>
        have hsame := sameEntries_setBuck h ⟨h.bit, hb⟩ l (BucketList.next l).2 hl (next_nodes l)
        cases hnext : BucketList.next l with
        | mk r l' =>
          rw [hnext] at hsame
          cases r with
          | none => simpa [hb, hl, hnext] using henter
          | some e => simpa [hb, hl, hnext] using hsame
    · simpa [hb] using henter

theorem delIter_count (hd : delIter h = some h') : h'.count = h.count := by
  rw [delIter] at hd
  split at hd
  · rw [Option.some.inj hd]
  · split at hd
    · split at hd
      · cases hd
      · obtain ⟨l, -, rfl⟩ := Option.map_eq_some_iff.1 hd
        rfl
    · cases hd

/-- Whatever is deleted on the way, the count stays. -/
theorem sweepFrom_count {k i : Nat} {r : Option (Str × V) × Skmap n V} {es : List (Str × V)}
    (hs : sweepFrom dels k i r = some (es, h')) : h'.count = r.2.count := by
  induction k generalizing i r es with
  | zero => cases hs
  | succ k ih =>
    obtain ⟨o, h⟩ := r
    cases o with
    | none =>
      cases hs
      rfl
    | some e =>
      rw [sweepFrom, Option.bind_eq_some_iff] at hs
      obtain ⟨h₁, hvisit, hs⟩ := hs
      obtain ⟨⟨es', h₂⟩, hrest, hs⟩ := Option.map_eq_some_iff.1 hs
      obtain ⟨-, rfl⟩ := Prod.mk.inj hs
      rw [ih hrest, (next_same h₁).count]
      rw [visit] at hvisit
      split at hvisit
      · exact delIter_count hvisit
      · rw [Option.some.inj hvisit]

theorem sweepFrom_keeps {k i : Nat} {es : List (Str × V)} {r : Option (Str × V) × Skmap n V}
    (hr : Returns h es r) (hno : ∀ j < es.length, dels (i + j) = false) (hk : es.length < k) :
    ∃ h', sweepFrom dels k i r = some (es, h') ∧ SameEntries h h' := by
  induction es generalizing h k i r with
  | nil =>
    obtain ⟨hsame, ⟨-, hnone⟩ | ⟨_, _, _, hcons, -⟩⟩ := hr
    · obtain ⟨k, rfl⟩ := Nat.exists_eq_add_of_lt hk
      obtain ⟨o, h'⟩ := r
      obtain rfl := hnone
      exact ⟨h', rfl, hsame⟩
    · cases hcons
  | cons e es ih =>
    obtain ⟨hsame, ⟨hnil, -⟩ | ⟨e', rest, j, hcons, hsome, hon, hleft⟩⟩ := hr
    · cases hnil
    · obtain ⟨rfl, rfl⟩ := List.cons.inj hcons
      obtain ⟨o, h₁⟩ := r
      obtain rfl := hsome
      cases k with
      | zero => exact absurd hk (Nat.not_lt_zero _)
      | succ k =>
        have hi : dels i = false := hno 0 (Nat.succ_pos _)
        have hnext := next_returns h₁ j hon
        dsimp only at hleft
        rw [hleft] at hnext
        have hno' : ∀ j < es.length, dels (i + 1 + j) = false := by
          intro j hj
          rw [Nat.add_right_comm, Nat.add_assoc]
          exact hno (j + 1) (Nat.succ_lt_succ hj)
        obtain ⟨h', hrest, hsame'⟩ := ih hnext hno' (Nat.lt_of_succ_lt_succ hk)
        refine ⟨h', ?_, hsame.trans hsame'⟩
        rw [sweepFrom, visit, if_neg (by simp [hi]), Option.bind_some, hrest]
        rfl

theorem delNode_sublist {l l' : Bucklist V} (hd : delNode l = some l') :
    l'.nodes.Sublist l.nodes := by
  rw [delNode] at hd
  split at hd
  · cases hd
  · cases hd
    exact List.drop_sublist _ _
  · next p i _ _ =>
    split at hd
    · next hi =>
      cases hd
      conv_rhs => rw [← List.take_append_drop (p + 1) l.nodes]
      subst hi
      exact (List.Sublist.refl _).append (List.drop_sublist_drop_left _ (Nat.le_succ _))
    · cases hd

end Traversal

section Calls

theorem putIn_recount (h : Skmap n V) (i : Fin n) (kl : Bucklist V) (key : Str) (elem : V)
    (al : Alloc) (c : Nat) :
    ∃ d, (putIn { h with count := c } i kl key elem al).2.1 =
        { (putIn h i kl key elem al).2.1 with count := c + d } ∧
      (putIn h i kl key elem al).2.1.count = h.count + d := by
  rw [putIn, putIn]
  dsimp only
  split
  · exact ⟨0, rfl, rfl⟩
  · split
    · exact ⟨0, rfl, rfl⟩
    · split
      · exact ⟨0, rfl, rfl⟩
      · exact ⟨1, rfl, rfl⟩

variable [NeZero n] {h h' : Skmap n V}

/-- The entries are where they belong, and there are no more of them than are counted. -/
structure Tracked (h : Skmap n V) : Prop where
  recounted : WellFormed { h with count := (entries h).length }
  counted : (entries h).length ≤ h.count

theorem Tracked.same (ht : Tracked h) (hs : SameEntries h h') : Tracked h' := by
  have hsame : SameEntries { h with count := (entries h).length }
      { h' with count := (entries h').length } := ⟨hs.nodes, by rw [hs.entries], hs.cm⟩
  refine ⟨hsame.wf ht.recounted, ?_⟩
  rw [hs.entries, hs.count]
  exact ht.counted

theorem put_recount (h : Skmap n V) (key : Str) (elem : V) (al : Alloc) (c : Nat) :
    ∃ d, (put { h with count := c } key elem al).2.1 =
        { (put h key elem al).2.1 with count := c + d } ∧
      (put h key elem al).2.1.count = h.count + d := by
  rw [put, put]
  dsimp only
  split
  · exact putIn_recount h _ _ key elem al c
  · split
    · exact ⟨0, rfl, rfl⟩
    · exact putIn_recount h _ _ key elem _ c

theorem del_recount (h : Skmap n V) (key : Str) (c : Nat) :
    ∃ d, (del { h with count := c } key).2 = { (del h key).2 with count := c - d } ∧
      (del h key).2.count = h.count - d := by
  rw [del, del]
  dsimp only
  split
  · exact ⟨0, rfl, rfl⟩
  · split
    · exact ⟨0, rfl, rfl⟩
    · exact ⟨1, rfl, rfl⟩

theorem tracked_delIter (ht : Tracked h) (hd : delIter h = some h') : Tracked h' := by
  rw [delIter] at hd
  split at hd
  · obtain rfl := Option.some.inj hd
    exact ht
  · split at hd
    · next hb =>
      split at hd
      · cases hd
      · next l hl =>
        obtain ⟨l', hnode, rfl⟩ := Option.map_eq_some_iff.1 hd
        have hnodes : nodesAt h ⟨h.bit, hb⟩ = l.nodes := by rw [nodesAt, hl]
        have hsub : l'.nodes.Sublist (nodesAt h ⟨h.bit, hb⟩) := hnodes ▸ delNode_sublist hnode
        have hlen : (entries (setBuck h ⟨h.bit, hb⟩ l')).length =
            (l'.nodes ++ others h ⟨h.bit, hb⟩).length := (entries_setBuck _ _ _).length_eq
        refine ⟨?_, ?_⟩
        · refine wf_setBuck ht.recounted ⟨h.bit, hb⟩ l' _ ?_ ?_ hlen
          · exact fun e he => ht.recounted.placed _ e (hsub.subset he)
          · exact (ht.recounted.distinct _).sublist (hsub.map _)
        · refine Nat.le_trans ?_ ht.counted
          rw [hlen, (entries_split h ⟨h.bit, hb⟩).length_eq, List.length_append,
            List.length_append]
          exact Nat.add_le_add_right hsub.length_le _
    · cases hd

theorem tracked_recount {c : Nat} (hwf : WellFormed { h with count := c }) (hle : c ≤ h.count) :
    Tracked h := by
  obtain rfl : c = (entries h).length := hwf.counted
  exact ⟨hwf, hle⟩

theorem Reached.tracked (hr : Reached h) : Tracked h := by
  induction hr with
  | init cm =>
    obtain ⟨hwf, hnil⟩ := wf_empty (StringMap.init n V cm) rfl rfl
    refine ⟨?_, ?_⟩
    · rw [hnil]
      exact hwf
    · rw [hnil]
      exact Nat.le_refl _
  | @put h _ key elem al ih =>
    obtain ⟨d, heq, hcount⟩ := put_recount h key elem al (entries h).length
    have hwf :
        WellFormed (StringMap.put { h with count := (entries h).length } key elem al).2.1 := by
      obtain ⟨-, _, hput⟩ | ⟨_, _, hput, -, hstored⟩ := put_cases ih.recounted key elem al
      · rw [hput]
        exact ih.recounted
      · rw [hput]
        exact hstored.wf
    rw [heq] at hwf
    exact tracked_recount hwf (hcount ▸ Nat.add_le_add_right ih.counted d)
  | @del h _ key ih =>
    obtain ⟨d, heq, hcount⟩ := del_recount h key (entries h).length
    have hwf := (del_cases ih.recounted key).2.wf
    rw [heq] at hwf
    exact tracked_recount hwf (hcount ▸ Nat.sub_le_sub_right ih.counted d)
  | @clear h _ _ =>
    obtain ⟨hwf, hnil⟩ := wf_empty (StringMap.clear h) rfl rfl
    refine ⟨?_, ?_⟩
    · rw [hnil]
      exact hwf
    · rw [hnil]
      exact Nat.le_refl _
  | @first h _ ih => exact ih.same (first_returns h).1
  | @next h _ ih => exact ih.same (next_same h)
  | delIter _ hd ih => exact tracked_delIter ih hd

end Calls

/-- A sound traversal deletes nothing, and nothing was deleted like that before. -/
theorem Sound.kept_all [NeZero n] {h : Skmap n V} {dels : Nat → Bool} (hs : Sound h dels)
    (ht : Tracked h) :
    h.count = (entries h).length ∧ ∀ i < (entries h).length, dels i = false := by
  obtain ⟨k, es, h', hsweep, hperm, -, -, hcount⟩ := hs
  have hsame : h'.count = h.count := (sweepFrom_count hsweep).trans (first_returns h).1.count
  have hlen := hperm.length_eq
  have hle : es.length ≤ (kept dels 0 es).length := by
    rw [hlen, ← hcount, hsame]
    exact ht.counted
  refine ⟨?_, fun i hi => ?_⟩
  · rw [← hsame, hcount, ← hlen]
    exact Nat.le_antisymm (length_kept_le 0 es) hle
  · have hno := none_deleted hle i (hlen ▸ hi)
    rwa [Nat.zero_add] at hno

/-- A traversal in which entries may be deleted is sound just if none is, neither in it nor
before it. -/
theorem deletion_sound_iff [NeZero n] (h : Skmap n V) (hr : Reached h) (dels : Nat → Bool) :
    Sound h dels ↔
      h.count = (entries h).length ∧ ∀ i < (entries h).length, dels i = false := by
  refine ⟨fun hs => hs.kept_all hr.tracked, fun ⟨hcount, hno⟩ => ?_⟩
  have hwf : WellFormed h := by
    have hre := hr.tracked.recounted
    rwa [← hcount] at hre
  have hno' : ∀ i < (entries h).length, dels (0 + i) = false := fun i hi => by
    rw [Nat.zero_add]
    exact hno i hi
  obtain ⟨h', hsweep, hsame⟩ :=
    sweepFrom_keeps (first_returns h) hno' (Nat.lt_succ_self _)
  obtain ⟨h'', hfresh, -⟩ :=
    @sweepFrom_keeps _ _ _ (fun _ => false) _ 0 _ _ (first_returns h') (fun _ _ => rfl)
      (Nat.lt_succ_self _)
  refine ⟨_, _, h', hsweep, List.Perm.refl _, fun key => ?_, ⟨_, _, h'', hfresh, ?_⟩, ?_⟩
  · rw [IterDeletion.kept_all hno', get_eq (hsame.wf hwf), lookup, hsame.entries, hsame.cm]
  · rw [IterDeletion.kept_all hno', hsame.entries]
  · rw [IterDeletion.kept_all hno', hsame.count, hcount]

def pair : Skmap 1 Nat :=
  (put (put (StringMap.init 1 Nat .ascii) (ascii "a") 1 []).2.1 (ascii "b") 2 []).2.1

theorem pair_reached : Reached pair := .put (.put (.init .ascii) _ _ _) _ _ _

theorem sound_pair : Sound pair fun _ => false :=
  (deletion_sound_iff pair pair_reached fun _ => false).2 ⟨by decide +kernel, fun _ _ => rfl⟩

/-- The first entry is deleted. Then the second one is never returned, and both are counted. -/
theorem unsound_pair :
    ¬Sound pair (· = 0) ∧ (sweep (· = 0) 3 pair).map (fun r => (r.1, entries r.2, r.2.count)) =
      some ([(ascii "b", 2)], [(ascii "a", 1)], 2) := by
  refine ⟨fun hs => ?_, by decide +kernel⟩
  exact absurd ((hs.kept_all pair_reached.tracked).2 0 (by decide +kernel)) (by decide)

section Position

variable {h : Skmap n V} {l : Bucklist V} {j : Nat} {hb : h.bit < n}

theorem tailFrom_setBuck (i : Fin n) (l : Bucklist V) {b : Nat} (hi : i.val < b) :
    tailFrom (setBuck h i l) b = tailFrom h b := by
  rw [tailFrom, tailFrom]
  refine List.flatMap_congr fun m hm => ?_
  rw [nodesAt_setBuck, if_neg]
  rintro rfl
  obtain ⟨k, hk, heq⟩ := List.mem_drop_iff_getElem.1 hm
  rw [← heq, List.getElem_finRange] at hi
  exact absurd hi (Nat.not_lt.2 (Nat.le_add_right b k))

theorem delIter_at (hon : h.iterating = true) (hl : h.buck ⟨h.bit, hb⟩ = some l) {l' : Bucklist V}
    (hnode : delNode l = some l') : delIter h = some (setBuck h ⟨h.bit, hb⟩ l') := by
  simp [delIter, hon, hb, hl, hnode]

/-- The deletion of a node behind the first one goes unnoticed by the traversal. -/
theorem delIter_inner (hon : h.iterating = true) (hl : h.buck ⟨h.bit, hb⟩ = some l)
    (hprev : l.previter = some j) (hiter : l.iter = some (j + 1))
    (hj : j + 1 < l.nodes.length) :
    ∃ h', delIter h = some h' ∧
      Returns h' (left h h.bit (j + 1)) (StringMap.next h') := by
  let l' : Bucklist V := ⟨l.nodes.take (j + 1) ++ l.nodes.drop (j + 1 + 1), some j, some j⟩
  have hnode : delNode l = some l' := by
    rw [delNode, hprev, hiter]
    exact if_pos rfl
  have hleft : left (setBuck h ⟨h.bit, hb⟩ l') h.bit j = left h h.bit (j + 1) := by
    have htake : (l.nodes.take (j + 1)).length = j + 1 := List.length_take_of_le (Nat.le_of_lt hj)
    rw [left, left, dif_pos hb, dif_pos hb, tailFrom_setBuck _ _ (Nat.lt_succ_self _),
      nodesAt_setBuck, if_pos rfl, List.drop_left' htake, nodesAt, hl]
  have hthen : On (setBuck h ⟨h.bit, hb⟩ l') j := ⟨hon, hb, l', by simp [setBuck], rfl⟩
  refine ⟨_, delIter_at hon hl hnode, ?_⟩
  rw [← hleft]
  exact next_returns _ j hthen

/-- After that of the first one the traversal goes on with the next bucket. -/
theorem delIter_head (hon : h.iterating = true) (hl : h.buck ⟨h.bit, hb⟩ = some l)
    (hprev : l.previter = none) (hiter : l.iter = some 0) :
    ∃ h', delIter h = some h' ∧ Returns h' (tailFrom h (h.bit + 1)) (StringMap.next h') := by
  let l' : Bucklist V := ⟨l.nodes.drop 1, none, none⟩
  have hnode : delNode l = some l' := by
    rw [delNode, hprev, hiter]
  have hnext : StringMap.next (setBuck h ⟨h.bit, hb⟩ l') =
      enter { setBuck h ⟨h.bit, hb⟩ l' with
        bit := seek (setBuck h ⟨h.bit, hb⟩ l') n (h.bit + 1) } := by
    simp [StringMap.next, setBuck, hon, hb, l', BucketList.next]
  refine ⟨_, delIter_at hon hl hnode, ?_⟩
  rw [hnext, ← tailFrom_setBuck ⟨h.bit, hb⟩ l' (Nat.lt_succ_self _)]
  exact enter_seek _ (h.bit + 1)

end Position

end Srsirc.IterDeletion
