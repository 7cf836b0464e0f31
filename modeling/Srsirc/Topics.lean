import Srsirc.ReportedSteps
import Srsirc.TagBalance

namespace Srsirc.Topics

open CharMap Dictionary Fallible HeapCells MemberOps Members Memory Message Mirror NamesReply Presence
open RefCount ReportedSteps ServerInfo ServerReports TagBalance Track TrackInfo TrackSafety UserBase
open UserLifetime
open BucketList (Alloc)

structure Topic where
  text : Option Str
  who : Option Str
  since : Nat

def Topic.blank : Topic := ⟨none, none, 0⟩

def topicOf (ch : Chan) : Topic := ⟨ch.topic, ch.topicnick, ch.tstopic⟩

def topicAt (b : Base) (c : Ptr) : Option Topic := (b.chanHeap.get c).map topicOf

structure Retained (b b' : Base) : Prop where
  chans : ∀ κ c, b'.chans.lookup κ = some c → b.chans.lookup κ = some c
  topics : ∀ c t, topicAt b' c = some t → topicAt b c = some t

theorem Retained.refl (b : Base) : Retained b b := ⟨fun _ _ h => h, fun _ _ h => h⟩

theorem Retained.trans {a b c : Base} (h : Retained a b) (h' : Retained b c) : Retained a c :=
  ⟨fun κ p hp => h.chans κ p (h'.chans κ p hp), fun p t ht => h.topics p t (h'.topics p t ht)⟩

section Primitives

variable {b : Base}

end Primitives

section Handlers

variable (info : Info) (msg : Msg) (nargs : Nat) (b : Base)

end Handlers

section Titles

variable {cm : CMap} {V : View Str Str} {b b' b'' : Base} {κ : Str} {c : Ptr} {S : Set Str}
  {ch : Chan} {f : Topic → Topic} {msg : Msg} {ident name target text who time : Str}

theorem opened_topics (h : Mirrors cm V b) (hV : V (norm cm name) = none) {κ : Str} {c : Ptr}
    {t : Topic} (hc : (addChan b cm name).2.chans.lookup κ = some c)
    (ht : topicAt (addChan b cm name).2 c = some t) :
    κ = norm cm name ∧ t = Topic.blank ∨
      κ ≠ norm cm name ∧ b.chans.lookup κ = some c ∧ topicAt b c = some t := by
  obtain ⟨c₀, b', hadd, _, ho⟩ := ChannelOps.addChan_ok h.tallied (h.no_room hV)
  have hnew : (addChan b cm name).1 = some b.chanHeap.next ∧
      topicAt (addChan b cm name).2 =
        Function.update (topicAt b) b.chanHeap.next (some Topic.blank) := by
    have halloc : allocChan b = (true, b) := by simp [allocChan, malloc_eq h.tallied.counted.al]
    rw [addChan, halloc]
    simp only [h.tallied.counted.al, put_nil]
    refine ⟨trivial, ?_⟩
    funext d
    simp only [topicAt, get_new, Function.update_apply]
    split <;> rfl
  rw [hadd] at hc ht hnew
  obtain ⟨hnext, htopics⟩ := hnew
  obtain rfl : c₀ = b.chanHeap.next := Option.some.inj hnext
  dsimp only at hc ht htopics
  rw [ho.chans] at hc
  rw [htopics] at ht
  obtain ⟨rfl, rfl⟩ | ⟨hκ, hc⟩ := update_some hc
  · rw [Function.update_self] at ht
    exact Or.inl ⟨rfl, (Option.some.inj ht).symm⟩
  · have hne : c ≠ b.chanHeap.next := by
      rintro rfl
      exact ho.fresh (mem_vals_of_lookup hc)
    rw [Function.update_of_ne hne] at ht
    exact Or.inr ⟨hκ, hc, ht⟩

end Titles

end Srsirc.Topics
