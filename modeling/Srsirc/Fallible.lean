import Mathlib.Tactic.Common

namespace Srsirc.Fallible

variable {ε α β : Type}

/-- The computation succeeds, with a result that satisfies `q`. -/
def Returns (x : Except ε α) (q : α → Prop) : Prop := ∃ a, x = .ok a ∧ q a

@[simp] theorem ok_bind (a : α) (f : α → Except ε β) : (.ok a : Except ε α) >>= f = f a := rfl

theorem Returns.ok {a : α} {q : α → Prop} (h : q a) : Returns (.ok a : Except ε α) q := ⟨a, rfl, h⟩

theorem Returns.bind {x : Except ε α} {f : α → Except ε β} {p : α → Prop} {q : β → Prop}
    (hx : Returns x p) (hf : ∀ a, p a → Returns (f a) q) : Returns (x >>= f) q := by
  obtain ⟨a, rfl, ha⟩ := hx
  exact hf a ha

theorem Returns.mono {x : Except ε α} {p q : α → Prop} (hx : Returns x p) (h : ∀ a, p a → q a) :
    Returns x q := by
  obtain ⟨a, rfl, ha⟩ := hx
  exact ⟨a, rfl, h a ha⟩

theorem Returns.map {x : Except ε α} {f : α → β} {p : α → Prop} {q : β → Prop} (hx : Returns x p)
    (hf : ∀ a, p a → q (f a)) : Returns (x.map f) q := by
  obtain ⟨a, rfl, ha⟩ := hx
  exact ⟨f a, rfl, hf a ha⟩

theorem Returns.ite {c : Prop} [Decidable c] {x y : Except ε α} {q : α → Prop}
    (hx : c → Returns x q)
    (hy : ¬c → Returns y q) : Returns (if c then x else y) q := by
  split
  · next h => exact hx h
  · next h => exact hy h

theorem Returns.and {x : Except ε α} {p q : α → Prop} (hp : Returns x p) (hq : Returns x q) :
    Returns x fun a => p a ∧ q a := by
  obtain ⟨a, rfl, ha⟩ := hp
  obtain ⟨a', heq, ha'⟩ := hq
  cases heq
  exact ⟨a, rfl, ha, ha'⟩

/-- If the computation succeeds, its result satisfies `q`. -/
def Ensures (x : Except ε α) (q : α → Prop) : Prop := ∀ a, x = .ok a → q a

theorem Ensures.ok {a : α} {q : α → Prop} (h : q a) : Ensures (.ok a : Except ε α) q := by
  intro a' ha
  cases ha
  exact h

theorem Ensures.error {e : ε} {q : α → Prop} : Ensures (.error e : Except ε α) q := by
  intro a ha
  cases ha

theorem Ensures.bind {x : Except ε α} {f : α → Except ε β} {p : α → Prop} {q : β → Prop}
    (hx : Ensures x p) (hf : ∀ a, p a → Ensures (f a) q) : Ensures (x >>= f) q := by
  cases x with
  | error e => exact Ensures.error
  | ok a => exact hf a (hx a rfl)

theorem Ensures.bind_of {x : Except ε α} {f : α → Except ε β} {q : β → Prop}
    (hf : ∀ a, x = .ok a → Ensures (f a) q) : Ensures (x >>= f) q :=
  Ensures.bind (fun _ ha => ha) hf

theorem Ensures.value {x : Except ε α} {f : α → Except ε β} {q : β → Prop}
    (hf : ∀ a, Ensures (f a) q) : Ensures (x >>= f) q :=
  Ensures.bind (p := fun _ => True) (fun _ _ => trivial) fun a _ => hf a

theorem Ensures.mono {x : Except ε α} {p q : α → Prop} (hx : Ensures x p) (h : ∀ a, p a → q a) :
    Ensures x q := fun a ha => h a (hx a ha)

theorem Ensures.map {x : Except ε α} {f : α → β} {p : α → Prop} {q : β → Prop} (hx : Ensures x p)
    (hf : ∀ a, p a → q (f a)) : Ensures (x.map f) q := by
  cases x with
  | error e => exact Ensures.error
  | ok a => exact Ensures.ok (hf a (hx a rfl))

theorem Ensures.ite {c : Prop} [Decidable c] {x y : Except ε α} {q : α → Prop}
    (hx : c → Ensures x q) (hy : ¬c → Ensures y q) : Ensures (if c then x else y) q := by
  split
  · next h => exact hx h
  · next h => exact hy h

theorem bind_ok_iff {x : Except ε α} {f : α → Except ε β} {b : β} :
    (x >>= f) = .ok b ↔ ∃ a, x = .ok a ∧ f a = .ok b := by
  cases x <;> simp [Bind.bind, Except.bind]

def fault : Except ε α → Option ε
  | .ok _ => none
  | .error e => some e

theorem eq_error_of_fault {x : Option (Except ε α)} {e : ε} (h : x.bind fault = some e) :
    x = some (.error e) := by
  obtain ⟨y, rfl, hy⟩ := Option.bind_eq_some_iff.1 h
  cases y with
  | ok a => cases hy
  | error e' => rw [Option.some.inj hy]

theorem ok_of_any {x : Option (Except ε α)} {q : α → Bool}
    (h : (x.bind Except.toOption).any q = true) : ∃ a, x = some (.ok a) ∧ q a = true := by
  match x with
  | none => cases h
  | some (.error e) => cases h
  | some (.ok a) => exact ⟨a, rfl, h⟩

theorem ok_of_toOption {x : Except ε α} {q : α → Bool} (h : x.toOption.any q = true) :
    ∃ a, x = .ok a ∧ q a = true := by
  cases x with
  | error e => cases h
  | ok a => exact ⟨a, rfl, h⟩

/-- The computation does not fail in a bad way. -/
def Avoids (bad : ε → Prop) : Except ε α → Prop
  | .ok _ => True
  | .error e => ¬bad e

variable {bad : ε → Prop}

theorem Avoids.ok (a : α) : Avoids bad (.ok a : Except ε α) := trivial

theorem Avoids.error {e : ε} (h : ¬bad e) : Avoids bad (.error e : Except ε α) := h

theorem Avoids.bind {x : Except ε α} {f : α → Except ε β} (hx : Avoids bad x)
    (hf : ∀ a, Avoids bad (f a)) : Avoids bad (x >>= f) := by
  cases x with
  | error e => exact hx
  | ok a => exact hf a

theorem Avoids.bind_of {x : Except ε α} {f : α → Except ε β} (hx : Avoids bad x)
    (hf : ∀ a, x = .ok a → Avoids bad (f a)) : Avoids bad (x >>= f) := by
  cases x with
  | error e => exact hx
  | ok a => exact hf a rfl

theorem Avoids.map {x : Except ε α} {f : α → β} (hx : Avoids bad x) : Avoids bad (x.map f) := by
  cases x with
  | error e => exact hx
  | ok a => trivial

theorem Avoids.ite {c : Prop} [Decidable c] {x y : Except ε α} (hx : c → Avoids bad x)
    (hy : ¬c → Avoids bad y) : Avoids bad (if c then x else y) := by
  split
  · next h => exact hx h
  · next h => exact hy h

theorem avoids_iff (x : Except ε α) : Avoids bad x ↔ ∀ e, x = .error e → ¬bad e := by
  cases x <;> simp [Avoids]

end Srsirc.Fallible
