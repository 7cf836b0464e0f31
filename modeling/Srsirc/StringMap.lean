import Mathlib.Algebra.GroupWithZero.Nat
import Mathlib.Data.List.FinRange
import Mathlib.Logic.Function.Basic
import Srsirc.BucketList

namespace Srsirc.StringMap

open CharMap BucketList

/-- `strhash_small` after its initialisation: the byte folded so far and the shift counter. -/
def foldSmall (cm : CMap) : Str → UInt8 → UInt32 → UInt8
  | [], res, _ => res
  | c :: s, res, shift =>
    let cur := gCmap cm c
    if cur = 0 then res
    else foldSmall cm s (res ^^^ (cur <<< ((shift + 1) % 3).toUInt8)) (shift + 1)

def strhashSmall (cm : CMap) (s : Str) : Nat := (foldSmall cm s 0xaa 0).toNat

def foldMid (cm : CMap) : Str → UInt8 × UInt8 → UInt32 → Bool → UInt8 × UInt8
  | [], res, _, _ => res
  | c :: s, res, shift, first =>
    let cur := gCmap cm c
    if cur = 0 then res
    else
      let x := cur <<< ((shift + 1) % 3).toUInt8
      let res := if !first then (res.1, res.2 ^^^ x) else (res.1 ^^^ x, res.2)
      foldMid cm s res (shift + 1) (!first)

def strhashMid (cm : CMap) (s : Str) : Nat :=
  let res := foldMid cm s (0xaa, 0xaa) 0 true
  res.1.toNat <<< 8 ||| res.2.toNat

/-- A map with `n` buckets; its hash function is determined by `n`. -/
structure Skmap (n : Nat) (V : Type) where
  buck : Fin n → Option (Bucklist V)
  count : Nat
  iterating : Bool
  bit : Nat
  cm : CMap

variable {n : Nat} {V : Type}

def init (n : Nat) (V : Type) (cm : CMap) : Skmap n V := ⟨fun _ => none, 0, false, 0, cm⟩

def hfn (n : Nat) (cm : CMap) (s : Str) : Nat :=
  if n ≤ 256 then strhashSmall cm s else strhashMid cm s

def slot [NeZero n] (cm : CMap) (key : Str) : Fin n := Fin.ofNat n (hfn n cm key)

def clear (h : Skmap n V) : Skmap n V := { h with buck := fun _ => none, count := 0 }

def setBuck (h : Skmap n V) (i : Fin n) (l : Bucklist V) : Skmap n V :=
  { h with buck := Function.update h.buck i (some l) }

/-- The second half of `put`, once the list of the slot is at hand. A list
allocated for this call is disposed of on failure, which leaves the map as it was. -/
def putIn (h : Skmap n V) (i : Fin n) (kl : Bucklist V) (key : Str) (elem : V) (al : Alloc) :
    Bool × Skmap n V × Alloc :=
  match find h.cm kl key with
  | some _ => (true, setBuck h i (replace h.cm kl key elem).2, al)
  | none =>
    match malloc al with
    | (false, al) => (false, h, al)
    | (true, al) =>
      match insert kl 0 key elem al with
      | (false, _, al) => (false, h, al)
      | (true, kl, al) => (true, { setBuck h i kl with count := h.count + 1 }, al)

def put [NeZero n] (h : Skmap n V) (key : Str) (elem : V) (al : Alloc) :
    Bool × Skmap n V × Alloc :=
  let i := slot h.cm key
  match h.buck i with
  | some kl => putIn h i kl key elem al
  | none =>
    match malloc al with
    | (false, al) => (false, h, al)
    | (true, al) => putIn h i BucketList.init key elem al

def get [NeZero n] (h : Skmap n V) (key : Str) : Option V :=
  match h.buck (slot h.cm key) with
  | none => none
  | some kl => find h.cm kl key

def del [NeZero n] (h : Skmap n V) (key : Str) : Option V × Skmap n V :=
  let i := slot h.cm key
  match h.buck i with
  | none => (none, h)
  | some kl =>
    match remove h.cm kl key with
    | (none, _) => (none, h)
    | (some e, kl) => (some e.2, { setBuck h i kl with count := h.count - 1 })

def skip (h : Skmap n V) (bit : Nat) : Bool :=
  if hb : bit < n then
    match h.buck ⟨bit, hb⟩ with
    | none => true
    | some l => isempty l
  else false

/-- Advance over missing and empty lists; `k` bounds the number of steps. -/
def seek (h : Skmap n V) : Nat → Nat → Nat
  | 0, bit => bit
  | k + 1, bit => if skip h bit then seek h k (bit + 1) else bit

def enter (h : Skmap n V) : Option (Str × V) × Skmap n V :=
  if hb : h.bit < n then
    match h.buck ⟨h.bit, hb⟩ with
    | none => (none, { h with iterating := true })
    | some l => ((BucketList.first l).1,
        { setBuck h ⟨h.bit, hb⟩ (BucketList.first l).2 with iterating := true })
  else (none, { h with iterating := false })

def first (h : Skmap n V) : Option (Str × V) × Skmap n V :=
  enter { h with bit := seek h n 0 }

def next (h : Skmap n V) : Option (Str × V) × Skmap n V :=
  if !h.iterating then (none, h)
  else
    let step := if hb : h.bit < n then (h.buck ⟨h.bit, hb⟩).map fun l =>
      ((BucketList.next l).1, setBuck h ⟨h.bit, hb⟩ (BucketList.next l).2) else none
    match step with
    | some (some e, h) => (some e, h)
    | _ => enter { h with bit := seek h n (h.bit + 1) }

/-- What up to `k` further calls of `next` return, stopping at the first failure. -/
def nexts : Nat → Skmap n V → List (Str × V) × Skmap n V
  | 0, h => ([], h)
  | k + 1, h =>
    match next h with
    | (none, h) => ([], h)
    | (some e, h) => (e :: (nexts k h).1, (nexts k h).2)

/-- A traversal: `first`, and if it succeeds up to `k` calls of `next`. -/
def scan (k : Nat) (h : Skmap n V) : List (Str × V) × Skmap n V :=
  match first h with
  | (none, h) => ([], h)
  | (some e, h) => (e :: (nexts k h).1, (nexts k h).2)

end Srsirc.StringMap
