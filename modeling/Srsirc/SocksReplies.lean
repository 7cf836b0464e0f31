import Srsirc.ProxyReads

namespace Srsirc.SocksReplies

open CharMap Memory Message ReadBuffer BoundedStore Proxy ProxyReads

/-- Two outcomes are the same but for results that are related. -/
inductive Agree {α β : Type} (R : α → β → Prop) :
    Option (Except Fault α) → Option (Except Fault β) → Prop
  | waits : Agree R none none
  | fault (e : Fault) : Agree R (some (.error e)) (some (.error e))
  | ok {a : α} {b : β} (h : R a b) : Agree R (some (.ok a)) (some (.ok b))

section Reads

variable {α β γ δ : Type} {R : α → β → Prop} {S : γ → δ → Prop} {P : Stored → Prop}

theorem Agree.bind {x : Reads α} {y : Reads β} {f : α → Reads γ} {g : β → Reads δ}
    (h : Agree R x.2 y.2)
    (hf : ∀ a b, x.2 = some (.ok a) → R a b → Agree S (f a).2 (g b).2) :
      Agree S (x.bind f).2 (y.bind g).2 := by
  obtain ⟨stores, out⟩ := x
  obtain ⟨stores', out'⟩ := y
  cases h with
  | waits => exact .waits
  | fault e => exact .fault e
  | ok h => exact hf _ _ rfl h

theorem stores_bind {x : Reads α} {f : α → Reads γ} (hx : ∀ st ∈ x.1, P st)
    (hf : ∀ a, x.2 = some (.ok a) → ∀ st ∈ (f a).1, P st) : ∀ st ∈ (x.bind f).1, P st := by
  obtain ⟨stores, _ | e | a⟩ := x
  · exact hx
  · exact hx
  · intro st hst
    obtain hst | hst := List.mem_append.1 hst
    · exact hx st hst
    · exact hf a rfl st hst

theorem bind_assoc (x : Reads α) (f : α → Reads γ) (g : γ → Reads δ) :
    (x.bind f).bind g = x.bind fun a => (f a).bind g := by
  obtain ⟨stores, _ | e | a⟩ := x
  · rfl
  · rfl
  · simp only [Reads.bind]
    cases (f a).2 with
    | none => rfl
    | some out =>
      cases out with
      | error e => rfl
      | ok b => simp only [List.append_assoc]

theorem bind_stored (st : Stored) (a : α) (f : α → Reads γ) :
    Reads.bind ([st], some (.ok a)) f = (st :: (f a).1, (f a).2) := rfl

theorem stores_of_bind {x : Reads α} {f : α → Reads γ} (h : ∀ st ∈ (x.bind f).1, P st) :
    (∀ st ∈ x.1, P st) ∧ ∀ a, x.2 = some (.ok a) → ∀ st ∈ (f a).1, P st := by
  obtain ⟨stores, _ | e | a⟩ := x
  · exact ⟨h, fun _ ha => by cases ha⟩
  · exact ⟨h, fun _ ha => by cases ha⟩
  · refine ⟨fun st hst => h st (List.mem_append_left _ hst), fun a' ha st hst => ?_⟩
    cases ha
    exact h st (List.mem_append_right _ hst)

end Reads

def cut : Source → Option (Except Fault (Option Mem × Source))
  | [] => none
  | _ :: src => some (.ok (none, src))

variable {k l c : Nat} {resp : Mem} {src src' : Source}

theorem length_readReply {stride : Nat} {resp' : Mem}
    (h : (readReply stride l k resp c src).2 = some (.ok (some resp', src'))) :
      resp'.length = resp.length := by
  induction k generalizing c resp src with
  | zero =>
    rw [readReply] at h
    split at h
    · cases h
    · cases h
      rfl
  | succ k ih =>
    rw [readReply] at h
    split at h
    · split at h
      · cases h
      · split at h
        · cases h
        · next s _ _ _ =>
          by_cases hfit : stride * c + s.length ≤ resp.length
          · rw [store_ok hfit] at h
            rw [ih h, length_overwrite hfit]
          · rw [store_overrun (Nat.lt_of_not_le hfit)] at h
            cases h
    · cases h
      rfl

theorem readReply_full (stride : Nat) (h : l ≤ c) :
    readReply stride l k resp c src = done (some resp, src) := by
  cases k <;> exact if_neg (by omega)

theorem readReply_nothing (stride : Nat) (h : ahead src = []) (hk : l ≤ c + k) (hc : c < l) :
    readReply stride l k resp c src = ([], cut (beyond src)) := by
  cases k with
  | zero => omega
  | succ k =>
    rw [readReply, if_pos hc]
    obtain ⟨hb, hr⟩ | ⟨a, src', n, hb, hr, hn⟩ := read_nothing h (l - c)
    · rw [hb, hr]
      rfl
    · rw [hb, hr]
      exact if_pos hn

theorem readReply_step (stride : Nat) (h : ahead src ≠ []) (hc : c < l) :
    ∃ t src', 0 < t.length ∧ t.length ≤ l - c ∧ ahead src = t ++ ahead src' ∧
      beyond src' = beyond src ∧
      readReply stride l (k + 1) resp c src =
        Reads.bind ([⟨c, stride * c, t⟩], some (store resp (stride * c) t)) fun resp =>
          readReply stride l k resp (c + t.length) src' := by
  obtain ⟨t, src', hr, hpos, hle, hahead, hbeyond⟩ := @read_some src h (l - c) (by omega)
  refine ⟨t, src', hpos, hle, hahead, hbeyond, ?_⟩
  rw [readReply, if_pos hc, hr]
  exact if_neg (by omega)

theorem readReply_whole (hk : l ≤ c + k) (hc : c ≤ l) (havail : l - c ≤ (ahead src).length)
    (hsize : l ≤ resp.length) : ∃ stores src', readReply 1 l k resp c src =
      (stores, some (.ok (some (overwrite resp c ((ahead src).take (l - c))), src'))) ∧
        (∀ st ∈ stores, Placed resp.length st) ∧ stores.flatMap Stored.bytes =
          (ahead src).take (l - c) ∧
        ahead src' = (ahead src).drop (l - c) ∧ beyond src' = beyond src := by
  induction k generalizing c resp src with
  | zero =>
    obtain rfl : c = l := by omega
    rw [readReply_full 1 (Nat.le_refl c), Nat.sub_self, List.take_zero, List.drop_zero,
      overwrite_nil]
    exact ⟨[], src, rfl, fun _ h => absurd h List.not_mem_nil, rfl, rfl, rfl⟩
  | succ k ih =>
    by_cases hlt : c < l
    · have hne : ahead src ≠ [] := fun he => by
        rw [he, List.length_nil] at havail
        omega
      obtain ⟨t, src₁, hpos, hle, hahead, hbeyond, hstep⟩ :=
        @readReply_step k l c resp src 1 hne hlt
      have hfit : c + t.length ≤ resp.length := by omega
      have hsplit : l - c = t.length + (l - (c + t.length)) := by omega
      rw [hahead, List.length_append] at havail
      rw [Nat.one_mul, store_ok hfit] at hstep
      obtain ⟨stores, src', hrest, hplaced, hbytes, hahead', hbeyond'⟩ := @ih (c + t.length)
        (overwrite resp c t) src₁ (by omega) (by omega) (by omega)
        (by rw [length_overwrite hfit]; exact hsize)
      have htake : c + (t ++ (ahead src₁).take (l - (c + t.length))).length ≤ resp.length := by
        rw [List.length_append, List.length_take]
        omega
      rw [length_overwrite hfit] at hplaced
      rw [overwrite_overwrite htake] at hrest
      refine ⟨⟨c, c, t⟩ :: stores, src', ?_, ?_, ?_, ?_, hbeyond'.trans hbeyond⟩
      · rw [hstep, hahead, hsplit, List.take_length_add_append, bind_stored, hrest]
      · intro st hst
        obtain rfl | hst := List.mem_cons.1 hst
        · exact ⟨rfl, hfit⟩
        · exact hplaced st hst
      · rw [hahead, hsplit, List.take_length_add_append, List.flatMap_cons, hbytes]
      · rw [hahead', hahead, hsplit, List.drop_length_add_append]
    · obtain rfl : c = l := by omega
      rw [readReply_full 1 (Nat.le_refl c), Nat.sub_self, List.take_zero, List.drop_zero,
        overwrite_nil]
      exact ⟨[], src, rfl, fun _ h => absurd h List.not_mem_nil, rfl, rfl, rfl⟩

theorem readReply_short (hk : l ≤ c + k) (havail : (ahead src).length < l - c)
    (hsize : c + (ahead src).length ≤ resp.length) : ∃ stores,
      readReply 1 l k resp c src = (stores, cut (beyond src)) ∧
        ∀ st ∈ stores, Placed resp.length st := by
  induction k generalizing c resp src with
  | zero => omega
  | succ k ih =>
    by_cases hne : ahead src = []
    · exact ⟨[], readReply_nothing 1 hne hk (by omega), fun _ h => absurd h List.not_mem_nil⟩
    · obtain ⟨t, src₁, hpos, hle, hahead, hbeyond, hstep⟩ :=
        @readReply_step k l c resp src 1 hne (by omega)
      rw [hahead, List.length_append] at havail hsize
      have hfit : c + t.length ≤ resp.length := by omega
      rw [Nat.one_mul, store_ok hfit] at hstep
      obtain ⟨stores, hrest, hplaced⟩ := @ih (c + t.length) (overwrite resp c t) src₁
        (by omega) (by omega) (by rw [length_overwrite hfit]; omega)
      rw [length_overwrite hfit] at hplaced
      refine ⟨⟨c, c, t⟩ :: stores, ?_, ?_⟩
      · rw [hstep, ← hbeyond, bind_stored, hrest]
      · intro st hst
        obtain rfl | hst := List.mem_cons.1 hst
        · exact ⟨rfl, hfit⟩
        · exact hplaced st hst

theorem readReply_over (hk : l ≤ c + k) (hc : c ≤ resp.length)
    (h : resp.length < c + min (l - c) (ahead src).length) : ∃ stores,
      readReply 1 l k resp c src = (stores, some (.error .overrun)) ∧
        ∃ st ∈ stores, ¬Placed resp.length st := by
  induction k generalizing c resp src with
  | zero => omega
  | succ k ih =>
    have hne : ahead src ≠ [] := fun he => by
      rw [he, List.length_nil] at h
      omega
    obtain ⟨t, src₁, hpos, hle, hahead, hbeyond, hstep⟩ :=
      @readReply_step k l c resp src 1 hne (by omega)
    rw [hahead, List.length_append] at h
    rw [Nat.one_mul] at hstep
    by_cases hfit : c + t.length ≤ resp.length
    · rw [store_ok hfit] at hstep
      obtain ⟨stores, hrest, st, hst, hout⟩ := @ih (c + t.length) (overwrite resp c t) src₁
        (by omega) (by rw [length_overwrite hfit]; exact hfit)
          (by rw [length_overwrite hfit]; omega)
      rw [length_overwrite hfit] at hout
      refine ⟨⟨c, c, t⟩ :: stores, ?_, st, List.mem_cons_of_mem _ hst, hout⟩
      rw [hstep, bind_stored, hrest]
    · rw [store_overrun (by omega)] at hstep
      exact ⟨[⟨c, c, t⟩], hstep, _, List.mem_singleton_self _, fun hp => hfit hp.inside⟩

theorem readReply_placed (hk : l ≤ c + k) (hc : c ≤ l) (hlen : c ≤ resp.length) :
    (∀ st ∈ (readReply 1 l k resp c src).1, Placed resp.length st) ↔
      c + min (l - c) (ahead src).length ≤ resp.length := by
  constructor
  · intro h
    by_contra hover
    obtain ⟨stores, hr, st, hst, hout⟩ := readReply_over hk hlen (Nat.lt_of_not_le hover)
    rw [hr] at h
    exact hout (h st hst)
  · intro h
    by_cases hall : l - c ≤ (ahead src).length
    · obtain ⟨stores, _, hr, hplaced, _⟩ := @readReply_whole k l c resp src hk hc hall (by omega)
      rw [hr]
      exact hplaced
    · obtain ⟨stores, hr, hplaced⟩ := @readReply_short k l c resp src hk (by omega) (by omega)
      rw [hr]
      exact hplaced

def Alike {α : Type} (a b : α × Source) : Prop := a.1 = b.1 ∧ Same a.2 b.2

theorem agree_cut (src : Source) : Agree Alike (cut src) (cut src) := by
  cases src with
  | nil => exact .waits
  | cons a src => exact .ok ⟨rfl, rfl, rfl⟩

/-- How the bytes of a reply are split does not matter. -/
theorem readReply_agree (hs : Same src src') (hk : l ≤ c + k) (hc : c ≤ l)
    (hlen : c ≤ resp.length) :
    Agree Alike (readReply 1 l k resp c src).2 (readReply 1 l k resp c src').2 := by
  obtain ⟨ha, hb⟩ := hs
  by_cases hover : resp.length < c + min (l - c) (ahead src).length
  · obtain ⟨_, hr, _⟩ := readReply_over hk hlen hover
    rw [ha] at hover
    obtain ⟨_, hr', _⟩ := readReply_over hk hlen hover
    rw [hr, hr']
    exact .fault _
  · by_cases hall : l - c ≤ (ahead src).length
    · obtain ⟨_, src₁, hr, _, _, ha₁, hb₁⟩ := @readReply_whole k l c resp src hk hc hall (by omega)
      obtain ⟨_, src₁', hr', _, _, ha₁', hb₁'⟩ :=
        @readReply_whole k l c resp src' hk hc (ha ▸ hall) (by omega)
      rw [hr, hr', ha]
      refine .ok ⟨rfl, ?_, ?_⟩
      · rw [ha₁, ha₁', ha]
      · rw [hb₁, hb₁', hb]
    · obtain ⟨_, hr, _⟩ := @readReply_short k l c resp src hk (Nat.lt_of_not_le hall) (by omega)
      rw [ha] at hall hover
      obtain ⟨_, hr', _⟩ :=
        @readReply_short k l c resp src' hk (Nat.lt_of_not_le hall) (by omega)
      rw [hr, hr', hb]
      exact agree_cut _

/-- Of a reply of `l` bytes, what arrives arrives at once. -/
def AtOnce (l : Nat) : Source → Prop
  | .chunk _ s :: .chunk _ _ :: _ => l ≤ s.length + 1
  | _ => True

instance (l : Nat) : DecidablePred (AtOnce l) := fun src =>
  match src with
  | .chunk _ s :: .chunk _ _ :: _ => inferInstanceAs (Decidable (l ≤ s.length + 1))
  | [] | [.chunk _ _] | .chunk _ _ :: .timeout :: _ | .chunk _ _ :: .eof :: _
  | .chunk _ _ :: .failure :: _ | .timeout :: _ | .eof :: _ | .failure :: _ => .isTrue trivial

/-- A reply that arrives at once is stored at its place whatever the stride, since there is but
one store. -/
theorem readReply_atOnce (stride : Nat) (h : AtOnce l src) (hk : l ≤ k) :
    readReply stride l k resp 0 src = readReply 1 l k resp 0 src := by
  cases k with
  | zero => rw [readReply_full _ (by omega), readReply_full _ (by omega)]
  | succ k =>
    by_cases hl : 0 < l
    · rw [readReply, readReply, if_pos hl, if_pos hl, Nat.mul_zero, Nat.mul_zero]
      cases src with
      | nil => rfl
      | cons a src =>
        cases a with
        | timeout | eof | failure => rfl
        | chunk c s =>
          by_cases hall : l ≤ s.length + 1
          · -- the reply is complete after this read
            obtain ⟨t, src', hr, hpos, _, _⟩ :=
              @read_some (.chunk c s :: src) (List.cons_ne_nil _ _) l hl
            have hlen : l ≤ t.length := by
              have htake : t = (c :: s).take l := by
                simp only [Source.read] at hr
                split at hr <;> exact (Prod.mk.inj (Prod.mk.inj (Option.some.inj hr)).2).1.symm
              rw [htake, List.length_take, List.length_cons]
              omega
            rw [Nat.sub_zero, hr]
            simp only [readReply_full _ (show l ≤ 0 + t.length by omega)]
          · have hnext : ahead src = [] := by
              cases src with
              | nil => rfl
              | cons a src =>
                cases a with
                | chunk c' s' => exact absurd h hall
                | timeout | eof | failure => rfl
            have hread : Source.read (l - 0) (.chunk c s :: src) =
                some (((c :: s).length : Int), c :: s, src) := by
              have hlen : (c :: s).length ≤ l - 0 := by
                rw [List.length_cons]
                omega
              simp only [Source.read, List.take_of_length_le hlen, List.drop_eq_nil_of_le hlen]
            rw [hread]
            have hlt : 0 + (c :: s).length < l := by
              rw [List.length_cons]
              omega
            simp only [readReply_nothing _ hnext (show l ≤ 0 + (c :: s).length + k by
              rw [List.length_cons]; omega) hlt]
    · rw [readReply_full _ (by omega), readReply_full _ (by omega)]

/-- The second piece of a reply that does not arrive at once is stored outside of the array. -/
theorem readReply_apart {size : Nat} (h : ¬AtOnce l src) (hk : l ≤ k) (hsize : l ≤ size)
    (hresp : resp.length = size) :
    ∃ st ∈ (readReply size l k resp 0 src).1, size < st.index + st.bytes.length := by
  obtain ⟨c, s, c', s', src', rfl, hlt⟩ :
    ∃ c s c' s' src', src = .chunk c s :: .chunk c' s' :: src' ∧
      s.length + 1 < l := by
    unfold AtOnce at h
    split at h
    · exact ⟨_, _, _, _, _, rfl, Nat.lt_of_not_le h⟩
    · exact absurd trivial h
  obtain ⟨k, rfl⟩ : ∃ k', k = k' + 2 := ⟨k - 2, by omega⟩
  have hlen : (c :: s).length ≤ l := by
    rw [List.length_cons]
    omega
  have hread : Source.read l (.chunk c s :: .chunk c' s' :: src') =
      some (((c :: s).length : Int), c :: s, .chunk c' s' :: src') := by
    simp only [Source.read, List.take_of_length_le hlen, List.drop_eq_nil_of_le hlen]
  have hfit : 0 + (c :: s).length ≤ resp.length := by omega
  obtain ⟨t, src₂, hpos, _, _, _, hstep⟩ :=
    @readReply_step k l (c :: s).length (overwrite resp 0 (c :: s))
    (.chunk c' s' :: src') size (List.cons_ne_nil _ _) (by rw [List.length_cons]; omega)
  rw [readReply, if_pos (by omega), Nat.sub_zero, hread]
  dsimp only
  rw [if_neg (by rw [List.length_cons]; omega), Nat.mul_zero, store_ok hfit, Nat.zero_add,
    bind_stored, hstep]
  refine ⟨⟨(c :: s).length, size * (c :: s).length, t⟩, ?_, ?_⟩
  · refine List.mem_cons_of_mem _ ?_
    rw [Reads.bind]
    cases store (overwrite resp 0 (c :: s)) (size * (c :: s).length) t with
    | error e => exact List.mem_singleton_self _
    | ok mem => exact List.mem_cons_self
  · have hmul : size * 1 ≤ size * (c :: s).length := Nat.mul_le_mul_left size (by simp)
    dsimp only
    omega

end Srsirc.SocksReplies
