import Srsirc.StringMap

namespace Srsirc.StringMapEntries

open CharMap BucketList StringMap

variable {n : Nat} {V : Type}

theorem foldSmall_norm (cm : CMap) (s : Str) (r : UInt8) (k : UInt32) :
    foldSmall cm s r k = ((norm cm s).foldl (fun p cur =>
      (p.1 ^^^ (cur <<< ((p.2 + 1) % 3).toUInt8), p.2 + 1)) (r, k)).1 := by
  induction s generalizing r k with
  | nil => rfl
  | cons c s ih => by_cases h : gCmap cm c = 0 <;> simp [foldSmall, norm_cons, h, ih]

theorem foldMid_norm (cm : CMap) (s : Str) (r : UInt8 × UInt8) (k : UInt32) (f : Bool) :
    foldMid cm s r k f = ((norm cm s).foldl (fun p cur =>
      let x := cur <<< ((p.2.1 + 1) % 3).toUInt8
      (if !p.2.2 then (p.1.1, p.1.2 ^^^ x) else (p.1.1 ^^^ x, p.1.2), p.2.1 + 1, !p.2.2))
      (r, k, f)).1 := by
  induction s generalizing r k f with
  | nil => rfl
  | cons c s ih => by_cases h : gCmap cm c = 0 <;> simp [foldMid, norm_cons, h, ih]

theorem strhash_congr {cm : CMap} {a b : Str} (h : norm cm a = norm cm b) :
    strhashSmall cm a = strhashSmall cm b ∧ strhashMid cm a = strhashMid cm b := by
  simp only [strhashSmall, strhashMid, foldSmall_norm, foldMid_norm, h, and_self]

/-- Keys that compare equal share a bucket, whatever the bucket count. -/
theorem slot_congr [NeZero n] (cm : CMap) (a b : Str) (h : norm cm a = norm cm b) :
    slot (n := n) cm a = slot cm b := by
  obtain ⟨hsmall, hmid⟩ := strhash_congr h
  rw [slot, slot, hfn, hfn, hsmall, hmid]

/-- Two keys compare equal exactly if their images are the same up to the first byte mapped to
zero, and then they hash alike, whatever the bucket count. -/
theorem keys_agree (cm : CMap) (a b : Str) :
    (pfxeq cm a b = true ↔
      (a.map (gCmap cm)).takeWhile (· ≠ 0) = (b.map (gCmap cm)).takeWhile (· ≠ 0)) ∧
    (pfxeq cm a b = true →
      strhashSmall cm a = strhashSmall cm b ∧ strhashMid cm a = strhashMid cm b ∧
        ∀ (k : Nat) [NeZero k], slot (n := k) cm a = slot cm b) := by
  have hiff := pfxeq_iff cm a b
  refine ⟨hiff, fun heq => ?_⟩
  have hnorm := hiff.1 heq
  obtain ⟨hsmall, hmid⟩ := strhash_congr hnorm
  exact ⟨hsmall, hmid, fun k _ => slot_congr cm a b hnorm⟩

/-- The two cases of a bracket, in front of what a key does not go into. -/
theorem keys_agree_brackets :
    strhashSmall .rfc1459 (ascii "a[b") = strhashSmall .rfc1459 (ascii "A\x7bB!u@h") ∧
      strhashMid .rfc1459 (ascii "a[b") = strhashMid .rfc1459 (ascii "A\x7bB!u@h") := by
  obtain ⟨-, hhash⟩ := keys_agree .rfc1459 (ascii "a[b") (ascii "A\x7bB!u@h")
  obtain ⟨hsmall, hmid, -⟩ := hhash (by decide +kernel)
  exact ⟨hsmall, hmid⟩

def nodesAt (h : Skmap n V) (i : Fin n) : List (Str × V) :=
  match h.buck i with
  | none => []
  | some l => l.nodes

def entries (h : Skmap n V) : List (Str × V) := (List.finRange n).flatMap (nodesAt h)

structure WellFormed [NeZero n] (h : Skmap n V) : Prop where
  placed : ∀ i, ∀ e ∈ nodesAt h i, slot h.cm e.1 = i
  distinct : ∀ i, (KeyedList.keys (norm h.cm) (nodesAt h i)).Nodup
  counted : h.count = (entries h).length

def others (h : Skmap n V) (i : Fin n) : List (Str × V) :=
  ((List.finRange n).erase i).flatMap (nodesAt h)

theorem mem_entries (h : Skmap n V) (e : Str × V) : e ∈ entries h ↔ ∃ i, e ∈ nodesAt h i := by
  simp [entries]

theorem entries_split (h : Skmap n V) (i : Fin n) :
    (entries h).Perm (nodesAt h i ++ others h i) :=
  (List.perm_cons_erase (List.mem_finRange i)).flatMap_right (nodesAt h)

@[simp] theorem nodesAt_setBuck (h : Skmap n V) (i j : Fin n) (l : Bucklist V) :
    nodesAt (setBuck h i l) j = if j = i then l.nodes else nodesAt h j := by
  by_cases hj : j = i
  · subst hj; simp [nodesAt, setBuck]
  · simp [nodesAt, setBuck, hj]

theorem entries_setBuck (h : Skmap n V) (i : Fin n) (l : Bucklist V) :
    (entries (setBuck h i l)).Perm (l.nodes ++ others h i) := by
  have hs := entries_split (setBuck h i l) i
  have ho : others (setBuck h i l) i = others h i := by
    apply List.flatMap_congr
    intro j hj
    have hne : j ≠ i := fun he =>
      (List.Nodup.not_mem_erase (List.nodup_finRange n)) (he ▸ hj)
    simp [hne]
  simpa [ho] using hs

theorem keys_nodup [NeZero n] {h : Skmap n V} (w : WellFormed h) :
    (KeyedList.keys (norm h.cm) (entries h)).Nodup := by
  rw [KeyedList.keys, entries, List.map_flatMap, List.nodup_flatMap]
  refine ⟨fun i _ => w.distinct i, ?_⟩
  refine (List.nodup_finRange n).imp_of_mem ?_
  intro i j _ _ hij κ hi hj
  obtain ⟨d, hd, hdκ⟩ := List.mem_map.mp hi
  obtain ⟨e, he, heκ⟩ := List.mem_map.mp hj
  have hs := slot_congr (n := n) h.cm d.1 e.1 (hdκ.trans heκ.symm)
  rw [w.placed i d hd, w.placed j e he] at hs
  exact hij hs

def lookup (h : Skmap n V) (κ : Str) : Option V := KeyedList.lookup (norm h.cm) κ (entries h)

theorem lookup_slot [NeZero n] {h : Skmap n V} (w : WellFormed h) (key : Str) :
    lookup h (norm h.cm key) =
      KeyedList.lookup (norm h.cm) (norm h.cm key) (nodesAt h (slot h.cm key)) := by
  ext v
  rw [lookup, KeyedList.lookup_eq_some_iff (keys_nodup w),
    KeyedList.lookup_eq_some_iff (w.distinct _)]
  constructor
  · rintro ⟨k, hk, he⟩
    obtain ⟨i, hi⟩ := (mem_entries h _).mp hk
    have hs := w.placed i (k, v) hi
    rw [slot_congr h.cm k key he] at hs
    exact ⟨k, hs ▸ hi, he⟩
  · rintro ⟨k, hk, he⟩
    exact ⟨k, (mem_entries h _).mpr ⟨_, hk⟩, he⟩

theorem get_eq [NeZero n] {h : Skmap n V} (w : WellFormed h) (key : Str) :
    StringMap.get h key = lookup h (norm h.cm key) := by
  rw [lookup_slot w, StringMap.get, nodesAt]
  cases h.buck (slot h.cm key) with
  | none => rfl
  | some l => exact find_eq h.cm l key

end Srsirc.StringMapEntries
