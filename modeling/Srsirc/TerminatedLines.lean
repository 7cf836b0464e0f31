import Mathlib.Data.List.TakeWhile

namespace Srsirc.TerminatedLines

variable {α : Type} [DecidableEq α]

/-- The lines of a stream, each with the terminator that ends it. -/
def lines (z : α) (s : List α) : List (List α) := (s.splitOnP (· == z)).dropLast.map (· ++ [z])

def unterminated (z : α) (s : List α) : List α := (s.splitOnP (· == z)).getLastD []

variable {z : α}

theorem beq_of_notMem {w : List α} (hw : z ∉ w) : ∀ c ∈ w, (c == z) = false := by
  intro c hc
  rw [beq_eq_false_iff_ne]
  rintro rfl
  exact hw hc

theorem splitOnP_plain {w : List α} (hw : z ∉ w) : w.splitOnP (· == z) = [w] :=
  List.splitOnP_eq_singleton (beq_of_notMem hw)

theorem splitOnP_line {w : List α} (hw : z ∉ w) (s : List α) :
    (w ++ z :: s).splitOnP (· == z) = w :: s.splitOnP (· == z) :=
  List.splitOnP_append_cons_of_forall_mem (beq_of_notMem hw) z (BEq.refl z) s

theorem lines_plain {w : List α} (hw : z ∉ w) : lines z w = [] := by
  simp [lines, splitOnP_plain hw]

theorem unterminated_plain {w : List α} (hw : z ∉ w) : unterminated z w = w := by
  simp [unterminated, splitOnP_plain hw]

theorem lines_line {w : List α} (hw : z ∉ w) (s : List α) :
    lines z (w ++ z :: s) = (w ++ [z]) :: lines z s := by
  obtain ⟨x, xs, hx⟩ := List.exists_cons_of_ne_nil (List.splitOnP_ne_nil (· == z) s)
  simp [lines, splitOnP_line hw, hx]

theorem unterminated_line {w : List α} (hw : z ∉ w) (s : List α) :
    unterminated z (w ++ z :: s) = unterminated z s := by
  obtain ⟨x, xs, hx⟩ := List.exists_cons_of_ne_nil (List.splitOnP_ne_nil (· == z) s)
  simp [unterminated, splitOnP_line hw, hx]

/-- Lines of at most `n` elements, and less than `n` behind the last of them. -/
structure Fits (z : α) (n : Nat) (s : List α) : Prop where
  lines : ∀ l ∈ lines z s, l.length ≤ n
  unterminated : (unterminated z s).length < n

variable {n : Nat}

theorem Fits.tail {w s : List α} (h : Fits z n (w ++ z :: s)) (hw : z ∉ w) : Fits z n s := by
  refine ⟨fun l hl => h.lines l ?_, ?_⟩
  · rw [lines_line hw]
    exact List.mem_cons_of_mem _ hl
  · rw [← unterminated_line hw s]
    exact h.unterminated

theorem Fits.length_lt {w s : List α} (h : Fits z n (w ++ s)) (hw : z ∉ w) : w.length < n := by
  by_cases hs : z ∈ s
  · obtain ⟨u, t, rfl, hu⟩ := List.eq_append_cons_of_mem hs
    have hwu : z ∉ w ++ u := by simp [hw, hu]
    have hline := h.lines ((w ++ u) ++ [z]) (by simp [← List.append_assoc, lines_line hwu])
    simp only [List.length_append, List.length_singleton] at hline
    omega
  · have hws : z ∉ w ++ s := by simp [hw, hs]
    have hrest := h.unterminated
    rw [unterminated_plain hws, List.length_append] at hrest
    omega

end Srsirc.TerminatedLines
