import Srsirc.MemberOps

namespace Srsirc.Coherence

open CharMap Dictionary HeapCells Members MemberOps RefCount UserBase

/-- Every user and every member is filed under the key of its nick. -/
structure Coherent (cm : CMap) (b : Base) : Prop where
  usersCm : b.users.cm = cm
  user : ∀ κ p, b.users.lookup κ = some p → ∃ u, b.userHeap.get p = some u ∧ norm cm u.nick = κ
  chan : ∀ c ∈ b.chans.vals, ∃ ch, b.chanHeap.get c = some ch ∧ ch.memb.cm = cm
  memb : ∀ c ∈ b.chans.vals, ∀ κ m, membAt b c κ = some m →
    ∃ u, b.userHeap.get m.u = some u ∧ norm cm u.nick = κ
  nodup : b.chans.vals.Nodup

structure Agreed (cm : CMap) (b : Base) : Prop where
  usersCm : b.users.cm = cm
  user : ∀ κ p, b.users.lookup κ = some p → ∃ u, b.userHeap.get p = some u
  chan : ∀ c ∈ b.chans.vals, ∃ ch, b.chanHeap.get c = some ch ∧ ch.memb.cm = cm
  memb : ∀ c ∈ b.chans.vals, ∀ κ m, membAt b c κ = some m → b.users.lookup κ = some m.u ∧
    ∃ u, b.userHeap.get m.u = some u ∧ norm cm u.nick = κ

variable {cm : CMap} {b : Base}

theorem Coherent.lookup (h : Coherent cm b) {ident : Str} {p : Ptr}
    (hp : getUser b ident = some p) :
    b.users.lookup (norm cm ident) = some p := by
  rwa [getUser, get_eq, h.usersCm] at hp

def single (al : BucketList.Alloc) : Base :=
  { chans := (Dict.init 256 Ptr .rfc1459).store (ascii "#a") 0
    users := (Dict.init 4096 Ptr .rfc1459).store (ascii "ann") 0
    chanHeap := Heap.empty.new ⟨ascii "#a", none, none, 0,
      (Dict.init 256 Memb .rfc1459).store (ascii "ann") ⟨0, []⟩, false, List.replicate 16 none,
        none, false⟩
    userHeap := Heap.empty.new ⟨ascii "ann", none, none, none, 1, none, false⟩
    endofnames := true, al, freed := [] }

theorem single_chans {al : BucketList.Alloc} {c : Ptr} : c ∈ (single al).chans.vals ↔ c = 0 := by
  have hnew : (Dict.init 256 Ptr .rfc1459).lookup
      (norm (Dict.init 256 Ptr .rfc1459).cm (ascii "#a")) = none := by
    rw [lookup_init]
  have hvals := vals_store_new hnew 0
  rw [vals_init] at hvals
  exact hvals.mem_iff.trans List.mem_singleton

theorem single_users (al : BucketList.Alloc) :
    (single al).users.lookup =
      Function.update (fun _ => none) (norm .rfc1459 (ascii "ann")) (some 0) := by
  rw [single, lookup_store, lookup_init, cm_init]

theorem single_memb (al : BucketList.Alloc) :
    membAt (single al) 0 =
      Function.update (fun _ => none) (norm .rfc1459 (ascii "ann")) (some ⟨0, []⟩) := by
  rw [membAt_eq rfl, lookup_store, lookup_init, cm_init]

theorem single_coherent (al : BucketList.Alloc) : Coherent .rfc1459 (single al) := by
  refine ⟨cm_store .., fun κ p hp => ?_, fun c hc => ?_, fun c hc κ m hm => ?_, vals_nodup ?_⟩
  · rw [single_users] at hp
    obtain ⟨rfl, rfl⟩ | ⟨_, hp⟩ := update_some hp
    · exact ⟨_, rfl, rfl⟩
    · cases hp
  · obtain rfl := single_chans.1 hc
    exact ⟨_, rfl, cm_store ..⟩
  · obtain rfl := single_chans.1 hc
    rw [single_memb] at hm
    obtain ⟨rfl, rfl⟩ | ⟨_, hm⟩ := update_some hm
    · exact ⟨_, rfl, rfl⟩
    · cases hm
  · intro κ κ' c hc hc'
    rw [single, lookup_store, lookup_init] at hc hc'
    obtain ⟨rfl, _⟩ | ⟨_, hc⟩ := update_some hc
    · obtain ⟨rfl, _⟩ | ⟨_, hc'⟩ := update_some hc'
      · rfl
      · cases hc'
    · cases hc

theorem single_agreed (al : BucketList.Alloc) : Agreed .rfc1459 (single al) := by
  have h := single_coherent al
  refine ⟨h.usersCm, fun κ p hp => ?_, h.chan, fun c hc κ m hm => ⟨?_, h.memb c hc κ m hm⟩⟩
  · obtain ⟨u, hu, _⟩ := h.user κ p hp
    exact ⟨u, hu⟩
  · obtain rfl := single_chans.1 hc
    rw [single_memb] at hm
    obtain ⟨rfl, rfl⟩ | ⟨_, hm⟩ := update_some hm
    · rw [single_users, Function.update_self]
    · cases hm

theorem getUser_single (al : BucketList.Alloc) (ident : Str) :
    getUser (single al) ident = if norm .rfc1459 ident = norm .rfc1459 (ascii "ann") then some 0
      else none := by
  rw [getUser, get_eq, single_users, Function.update_apply, single, cm_store, cm_init]

end Srsirc.Coherence
