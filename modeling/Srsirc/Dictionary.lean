import Srsirc.StringMapRefinement

namespace Srsirc.Dictionary

open CharMap BucketList StringMapEntries StringMapUpdate StringMapTraversal

/-- A string map that is well formed by construction. -/
structure Dict (n : Nat) [NeZero n] (V : Type) where
  map : StringMap.Skmap n V
  wf : WellFormed map

instance small_ne_zero : NeZero 256 := ⟨by decide⟩

instance large_ne_zero : NeZero 4096 := ⟨by decide⟩

variable {n : Nat} [NeZero n] {V : Type}

theorem wf_put {h : StringMap.Skmap n V} (w : WellFormed h) (key : Str) (v : V) (al : Alloc) :
    WellFormed (StringMap.put h key v al).2.1 := by
  obtain ⟨_, al', hp⟩ | ⟨h', al', hp, _, hs⟩ := put_cases w key v al
  · rwa [hp]
  · rw [hp]
    exact hs.wf

def Dict.init (n : Nat) [NeZero n] (V : Type) (cm : CMap) : Dict n V :=
  ⟨StringMap.init n V cm, (wf_empty _ rfl rfl).1⟩

def Dict.put (d : Dict n V) (key : Str) (v : V) (al : Alloc) : Bool × Dict n V × Alloc :=
  let r := StringMap.put d.map key v al
  (r.1, ⟨r.2.1, wf_put d.wf key v al⟩, r.2.2)

def Dict.get (d : Dict n V) (key : Str) : Option V := StringMap.get d.map key

def Dict.del (d : Dict n V) (key : Str) : Option V × Dict n V :=
  ((StringMap.del d.map key).1, ⟨(StringMap.del d.map key).2, (del_cases d.wf key).2.wf⟩)

def Dict.clear (d : Dict n V) : Dict n V := ⟨StringMap.clear d.map, (wf_empty _ rfl rfl).1⟩

def Dict.count (d : Dict n V) : Nat := d.map.count

/-- What a loop of `first` and `next` runs over, provided that its body leaves the map alone. -/
def Dict.visit (d : Dict n V) : List (Str × V) × Dict n V :=
  ((StringMap.scan d.map.count d.map).1,
    ⟨(StringMap.scan d.map.count d.map).2, (scan_eq d.map.count d.map).2.wf d.wf⟩)

def Dict.lookup (d : Dict n V) : Str → Option V := StringMapEntries.lookup d.map

def Dict.vals (d : Dict n V) : List V := KeyedList.vals (entries d.map)

def Dict.cm (d : Dict n V) : CMap := d.map.cm

def Dict.store (d : Dict n V) (key : Str) (v : V) : Dict n V := (d.put key v []).2.1

def Dict.drop (d : Dict n V) (key : Str) : Dict n V := (d.del key).2

@[simp] theorem cm_init (cm : CMap) : (Dict.init n V cm).cm = cm := rfl

@[simp] theorem lookup_init (cm : CMap) : (Dict.init n V cm).lookup = fun _ => none :=
  (StringMapRefinement.represents_init cm).lookup

@[simp] theorem vals_init (cm : CMap) : (Dict.init n V cm).vals = [] := by
  rw [Dict.vals, Dict.init, (wf_empty (StringMap.init n V cm) rfl rfl).2]
  rfl

theorem get_eq (d : Dict n V) (key : Str) : d.get key = d.lookup (norm d.cm key) :=
  StringMapEntries.get_eq d.wf key

theorem mem_vals (d : Dict n V) (v : V) : v ∈ d.vals ↔ ∃ κ, d.lookup κ = some v := by
  simp only [Dict.vals, KeyedList.vals, List.mem_map, Dict.lookup, StringMapEntries.lookup,
    KeyedList.lookup_eq_some_iff (keys_nodup d.wf)]
  constructor
  · rintro ⟨⟨k, w⟩, he, rfl⟩
    exact ⟨_, k, he, rfl⟩
  · rintro ⟨κ, k, he, _⟩
    exact ⟨(k, v), he, rfl⟩

theorem store_stored (d : Dict n V) (key : Str) (v : V) :
    d.put key v [] = (true, d.store key v, []) ∧ Stored d.map (d.store key v).map key v := by
  obtain ⟨h', hp, hs⟩ := StringMapRefinement.put_noFail d.wf key v
  have hmap : (d.store key v).map = h' := by simp [Dict.store, Dict.put, hp]
  refine ⟨?_, hmap ▸ hs⟩
  simp [Dict.store, Dict.put, hp]

theorem put_nil (d : Dict n V) (key : Str) (v : V) : d.put key v [] = (true, d.store key v, []) :=
  (store_stored d key v).1

@[simp] theorem cm_store (d : Dict n V) (key : Str) (v : V) : (d.store key v).cm = d.cm :=
  (store_stored d key v).2.cm

theorem cm_put (d : Dict n V) (key : Str) (v : V) (al : Alloc) :
    (d.put key v al).2.1.cm = d.cm := by
  obtain ⟨_, al', hp⟩ | ⟨h', al', hp, _, hs⟩ := put_cases d.wf key v al
  · simp only [Dict.put, Dict.cm, hp]
  · simp only [Dict.put, Dict.cm, hp, hs.cm]

theorem vals_put (d : Dict n V) (key : Str) (v : V) (al : Alloc) :
    ∀ w ∈ (d.put key v al).2.1.vals, w = v ∨ w ∈ d.vals := by
  intro w hw
  obtain ⟨κ, hκ⟩ := (mem_vals _ _).1 hw
  obtain ⟨_, al', hp⟩ | ⟨h', al', hp, _, hs⟩ := put_cases d.wf key v al
  · simp only [Dict.lookup, Dict.put, hp] at hκ
    exact Or.inr ((mem_vals _ _).2 ⟨κ, hκ⟩)
  · simp only [Dict.lookup, Dict.put, hp, StringMapRefinement.lookup_stored d.wf hs,
      Function.update_apply] at hκ
    split at hκ
    · exact Or.inl (Option.some.inj hκ).symm
    · exact Or.inr ((mem_vals _ _).2 ⟨κ, hκ⟩)

theorem lookup_store (d : Dict n V) (key : Str) (v : V) :
    (d.store key v).lookup = Function.update d.lookup (norm d.cm key) (some v) :=
  StringMapRefinement.lookup_stored d.wf (store_stored d key v).2

theorem vals_store_new {d : Dict n V} {key : Str} (h : d.lookup (norm d.cm key) = none) (v : V) :
    (d.store key v).vals.Perm (v :: d.vals) := by
  obtain ⟨k, _, hp⟩ := (store_stored d key v).2.entries
  have hn : StringMapEntries.lookup d.map (norm d.map.cm key) = none := h
  rw [KeyedList.erase_of_lookup_none hn] at hp
  exact hp.map Prod.snd

theorem vals_store_old {d : Dict n V} {key : Str} {w : V} (h : d.lookup (norm d.cm key) = some w)
    (v : V) : (w :: (d.store key v).vals).Perm (v :: d.vals) := by
  obtain ⟨k, _, hp⟩ := (store_stored d key v).2.entries
  obtain ⟨k', _, hp'⟩ := KeyedList.perm_erase h
  refine ((hp.map Prod.snd).cons w).trans ((List.Perm.swap v w _).trans ?_)
  exact (hp'.map Prod.snd).symm.cons v

theorem del_fst (d : Dict n V) (key : Str) : (d.del key).1 = d.lookup (norm d.cm key) :=
  (del_cases d.wf key).1

theorem del_eq (d : Dict n V) (key : Str) : d.del key = (d.lookup (norm d.cm key), d.drop key) := by
  rw [← del_fst]
  rfl

@[simp] theorem cm_drop (d : Dict n V) (key : Str) : (d.drop key).cm = d.cm :=
  (del_cases d.wf key).2.cm

theorem lookup_drop (d : Dict n V) (key : Str) :
    (d.drop key).lookup = Function.update d.lookup (norm d.cm key) none :=
  StringMapRefinement.lookup_removed d.wf (del_cases d.wf key).2

theorem vals_drop (d : Dict n V) (key : Str) : ∀ w ∈ (d.drop key).vals, w ∈ d.vals := by
  intro w hw
  obtain ⟨κ, hκ⟩ := (mem_vals _ _).1 hw
  rw [lookup_drop, Function.update_apply] at hκ
  split at hκ
  · cases hκ
  · exact (mem_vals _ _).2 ⟨κ, hκ⟩

theorem vals_drop_some {d : Dict n V} {key : Str} {w : V} (h : d.lookup (norm d.cm key) = some w) :
    (w :: (d.drop key).vals).Perm d.vals := by
  obtain ⟨k, _, hp⟩ := KeyedList.perm_erase h
  have hd := (del_cases d.wf key).2.entries
  exact ((hd.map Prod.snd).cons w).trans (hp.map Prod.snd).symm

@[simp] theorem cm_clear (d : Dict n V) : d.clear.cm = d.cm := rfl

@[simp] theorem vals_clear (d : Dict n V) : d.clear.vals = [] := by
  rw [Dict.vals, Dict.clear, (wf_empty (StringMap.clear d.map) rfl rfl).2]
  rfl

@[simp] theorem lookup_clear (d : Dict n V) : d.clear.lookup = fun _ => none := by
  funext κ
  simp only [Dict.lookup, Dict.clear, StringMapEntries.lookup]
  rw [(wf_empty (StringMap.clear d.map) rfl rfl).2]
  rfl

theorem visit_fst (d : Dict n V) : KeyedList.vals d.visit.1 = d.vals := by
  have h := (scan_eq d.map.count d.map).1
  rw [List.take_of_length_le (by rw [d.wf.counted]; omega)] at h
  rw [Dict.visit, h]
  rfl

@[simp] theorem cm_visit (d : Dict n V) : d.visit.2.cm = d.cm :=
  (scan_eq d.map.count d.map).2.cm

@[simp] theorem vals_visit (d : Dict n V) : d.visit.2.vals = d.vals := by
  have h := (scan_eq d.map.count d.map).2.entries
  rw [Dict.vals, Dict.visit, h]
  rfl

@[simp] theorem lookup_visit (d : Dict n V) : d.visit.2.lookup = d.lookup := by
  have hs := (scan_eq d.map.count d.map).2
  funext κ
  simp only [Dict.lookup, Dict.visit, StringMapEntries.lookup]
  rw [hs.entries, hs.cm]

theorem count_eq (d : Dict n V) : d.count = d.vals.length := by
  rw [Dict.count, d.wf.counted, Dict.vals, KeyedList.vals, List.length_map]

theorem vals_nodup {d : Dict n V}
    (h : ∀ κ κ' v, d.lookup κ = some v → d.lookup κ' = some v → κ = κ') : d.vals.Nodup := by
  have hk := keys_nodup d.wf
  have he : (entries d.map).Nodup := List.Nodup.of_map _ hk
  refine List.Nodup.map_on ?_ he
  rintro ⟨k, v⟩ hk₁ ⟨k', v'⟩ hk₂ rfl
  have hkey := h _ _ v (KeyedList.lookup_of_mem hk hk₁) (KeyedList.lookup_of_mem hk hk₂)
  exact List.inj_on_of_nodup_map hk hk₁ hk₂ hkey

end Srsirc.Dictionary
