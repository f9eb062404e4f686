import Mathlib.Algebra.BigOperators.Group.Finset.Piecewise
import Mathlib.Algebra.GroupWithZero.Nat
import Mathlib.Algebra.Order.BigOperators.Group.Finset

/-!
# The room that replacements need

Files are replaced one after the other, each by way of a sibling that is there beside it until it
takes its place. What all files together hold grows at most by the growth of each replacement and
by one sibling more (`held_le_of_growing`), however often a file is replaced, and whether files
grow, shrink or are missing.
-/

namespace Asnx.Room

variable {P : Type*}

/-- By how much a file gets larger when `w.2` bytes take the place of the file `w.1`. -/
def growth (start : P → Nat) (w : P × Nat) : Nat := w.2 - start w.1

/-- The growth of all replacements. -/
def totalGrowth (start : P → Nat) (ws : List (P × Nat)) : Nat := (ws.map (growth start)).sum

/-- What the files in `S` hold together. -/
def held (S : Finset P) (size : P → Nat) : Nat := ∑ p ∈ S, size p

section Totals

variable {start : P → Nat} {w : P × Nat} {ws ws' : List (P × Nat)}

@[simp] theorem totalGrowth_nil : totalGrowth start [] = 0 := rfl

@[simp] theorem totalGrowth_cons : totalGrowth start (w :: ws) =
    growth start w + totalGrowth start ws := rfl

@[simp] theorem totalGrowth_append : totalGrowth start (ws ++ ws') =
    totalGrowth start ws + totalGrowth start ws' := by
  unfold totalGrowth
  rw [List.map_append, List.sum_append]

theorem totalGrowth_le (h : ws <+: ws') : totalGrowth start ws ≤ totalGrowth start ws' := by
  obtain ⟨more, rfl⟩ := h
  rw [totalGrowth_append]
  exact Nat.le_add_right _ _

theorem growth_le_total (h : w ∈ ws) : growth start w ≤ totalGrowth start ws :=
  List.single_le_sum (fun _ _ => Nat.zero_le _) _ (List.mem_map_of_mem h)

/-- Different replacements out of a list of replacements. -/
theorem totalGrowth_le_of_subset (hnodup : ws.Nodup) (hsubset : ws ⊆ ws') :
    totalGrowth start ws ≤ totalGrowth start ws' := by
  obtain ⟨same, hperm, hsublist⟩ := List.subperm_of_subset hnodup hsubset
  unfold totalGrowth
  rw [← (hperm.map _).sum_eq]
  exact (hsublist.map _).sum_le_sum fun _ _ => Nat.zero_le _

/-- What the replacements add is what they write but for what they find of it. -/
theorem totalGrowth_add (start : P → Nat) (ws : List (P × Nat)) :
    totalGrowth start ws + (ws.map fun w => min (start w.1) w.2).sum = (ws.map Prod.snd).sum := by
  induction ws with
  | nil => rfl
  | cons w ws ih =>
      rw [totalGrowth_cons, List.map_cons, List.map_cons, List.sum_cons, List.sum_cons]
      unfold growth
      omega

end Totals

section Shares

variable [DecidableEq P] {start size size' : P → Nat} {w : P × Nat} {ws done : List (P × Nat)}
    {p sibling : P}

/-- The growth of the replacements of one file. -/
def share (start : P → Nat) (ws : List (P × Nat)) (p : P) : Nat :=
  totalGrowth start (ws.filter fun w => w.1 = p)

theorem share_cons : share start (w :: ws) p = (if w.1 = p then growth start w else 0) +
    share start ws p := by
  unfold share
  rw [List.filter_cons]
  by_cases hp : w.1 = p
  · rw [if_pos (decide_eq_true hp), if_pos hp, totalGrowth_cons]
  · rw [if_neg (by simpa using hp), if_neg hp, Nat.zero_add]

/-- No replacement has a share in two files. -/
theorem sum_share_le (S : Finset P) : ∑ p ∈ S, share start ws p ≤ totalGrowth start ws := by
  induction ws with
  | nil => exact Nat.le_of_eq (Finset.sum_const_zero)
  | cons w ws ih =>
      have hfirst : ∑ p ∈ S, (if w.1 = p then growth start w else 0) ≤ growth start w := by
        rw [Finset.sum_ite_eq]
        split
        · exact Nat.le_refl _
        · exact Nat.zero_le _
      calc ∑ p ∈ S, share start (w :: ws) p
          = ∑ p ∈ S, (if w.1 = p then growth start w else 0) + ∑ p ∈ S, share start ws p := by
            rw [← Finset.sum_add_distrib]
            exact Finset.sum_congr rfl fun p _ => share_cons
        _ ≤ totalGrowth start (w :: ws) := Nat.add_le_add hfirst ih

/-! ## What has been replaced -/

/-- After the replacements `done` a file is not larger than one of its replacements, or than it was
at the start if it has not been replaced. -/
def Settled (start : P → Nat) (done : List (P × Nat)) (size : P → Nat) (p : P) : Prop :=
  (size p ≤ start p ∧ ∀ w ∈ done, w.1 ≠ p) ∨ ∃ w ∈ done, w.1 = p ∧ size p ≤ w.2

/-- The replacements `done` have been made. -/
def Grown (start : P → Nat) (done : List (P × Nat)) (size : P → Nat) : Prop :=
    ∀ p, Settled start done size p

/-- The replacement `w` is being made: its sibling is not larger than what takes the place of the
file. -/
def Growing (start : P → Nat) (done : List (P × Nat)) (w : P × Nat) (sibling : P)
    (size : P → Nat) : Prop :=
  ∀ p, Settled start done size p ∨ (p = sibling ∧ size p ≤ w.2)

omit [DecidableEq P] in
theorem grown_start : Grown start [] start := fun _ => .inl ⟨Nat.le_refl _, nofun⟩

omit [DecidableEq P] in
theorem Settled.of_le (h : Settled start done size p) (hle : size' p ≤ size p) :
    Settled start done size' p := by
  rcases h with ⟨hsize, hnone⟩ | ⟨w, hw, hp, hsize⟩
  · exact .inl ⟨Nat.le_trans hle hsize, hnone⟩
  · exact .inr ⟨w, hw, hp, Nat.le_trans hle hsize⟩

omit [DecidableEq P] in
/-- One replacement more. -/
theorem Grown.replace (h : Grown start done size) (hfile : size' w.1 ≤ w.2)
    (hothers : ∀ p, p ≠ w.1 → size' p ≤ size p) : Grown start (done ++ [w]) size' := by
  intro p
  by_cases hp : w.1 = p
  · exact .inr ⟨w, by simp, hp, hp ▸ hfile⟩
  · rcases (h p).of_le (hothers p (Ne.symm hp)) with ⟨hsize, hnone⟩ | ⟨w', hw', hp', hsize⟩
    · refine .inl ⟨hsize, fun w' hw' => ?_⟩
      rcases List.mem_append.1 hw' with hw' | hw'
      · exact hnone w' hw'
      · rwa [List.mem_singleton.1 hw']
    · exact .inr ⟨w', List.mem_append_left _ hw', hp', hsize⟩

theorem Settled.le (h : Settled start done size p) : size p ≤ start p + share start done p := by
  rcases h with ⟨hsize, -⟩ | ⟨w, hw, rfl, hsize⟩
  · exact Nat.le_trans hsize (Nat.le_add_right _ _)
  · have hgrowth : growth start w ≤ share start done w.1 :=
      growth_le_total (List.mem_filter.2 ⟨hw, decide_eq_true rfl⟩)
    unfold growth at hgrowth
    omega

/-- While a replacement is being made, the files hold at most its sibling more than the
replacements before it make up for. -/
theorem Growing.held_le (h : Growing start done w sibling size) (S : Finset P) :
    held S size ≤ held S start + totalGrowth start done + w.2 := by
  have hsize : ∀ p, size p ≤ (start p + share start done p) + if sibling = p then w.2 else 0 := by
    intro p
    rcases h p with hsettled | ⟨rfl, hle⟩
    · exact Nat.le_trans hsettled.le (Nat.le_add_right _ _)
    · rw [if_pos rfl]
      exact Nat.le_trans hle (Nat.le_add_left _ _)
  have hsibling : ∑ p ∈ S, (if sibling = p then w.2 else 0) ≤ w.2 := by
    rw [Finset.sum_ite_eq]
    split
    · exact Nat.le_refl _
    · exact Nat.zero_le _
  calc held S size
      ≤ ∑ p ∈ S, ((start p + share start done p) + if sibling = p then w.2 else 0) :=
        Finset.sum_le_sum fun p _ => hsize p
    _ = held S start + ∑ p ∈ S, share start done p + ∑ p ∈ S, (if sibling = p then w.2 else 0) := by
        rw [Finset.sum_add_distrib, Finset.sum_add_distrib]
        rfl
    _ ≤ held S start + totalGrowth start done + w.2 :=
        Nat.add_le_add (Nat.add_le_add_left (sum_share_le S) _) hsibling

/-- At every moment the files hold at most `peak` more than all replacements together make up for,
if `peak` is room for each sibling of a file that is there at the start. -/
theorem held_le_of_growing (h : Growing start done w sibling size)
    (hws : done ++ [w] <+: ws) {peak : Nat}
    (hpeak : 0 < start w.1 → w.2 ≤ peak) (S : Finset P) :
    held S size ≤ held S start + (totalGrowth start ws + peak) := by
  have hheld := h.held_le S
  have htotal : totalGrowth start (done ++ [w]) ≤ totalGrowth start ws := totalGrowth_le hws
  rw [totalGrowth_append, totalGrowth_cons, totalGrowth_nil] at htotal
  have hsibling : w.2 ≤ growth start w + peak := by
    unfold growth
    rcases Nat.eq_zero_or_pos (start w.1) with hzero | hpos
    · omega
    · exact Nat.le_trans (hpeak hpos) (Nat.le_add_left _ _)
  omega

theorem held_le_of_grown (h : Grown start done size) (hws : done <+: ws) (S : Finset P) :
    held S size ≤ held S start + totalGrowth start ws := by
  have hsizes : held S size ≤ held S start + ∑ p ∈ S, share start done p := by
    unfold held
    rw [← Finset.sum_add_distrib]
    exact Finset.sum_le_sum fun p _ => (h p).le
  exact Nat.le_trans hsizes (Nat.add_le_add_left
    (Nat.le_trans (sum_share_le S) (totalGrowth_le hws)) _)

end Shares

end Asnx.Room
