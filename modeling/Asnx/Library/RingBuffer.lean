import Mathlib.Data.List.Range

/-!
# Ring buffers

A ring buffer of capacity `cap` keeps `length` elements from position `head` on, wrapping
around at the end. `contents` is the queue it stands for. The lemmas say that copying out of the
ring and into it, in at most two pieces each, takes elements off the front of that queue and puts
elements at its back.
-/

namespace Asnx.RingBuffer

variable {α : Type*}

/-- The `n` elements from position `start` on. -/
def slice (data : Nat → α) (start n : Nat) : List α :=
  (List.range n).map fun k => data (start + k)

/-- The buffer after `n` elements of `source` have been copied to position `start`. -/
def copyTo (data : Nat → α) (start n : Nat) (source : Nat → α) : Nat → α := fun k =>
  if start ≤ k ∧ k < start + n then source (k - start) else data k

/-- The queue that the ring holds. -/
def contents (cap : Nat) (data : Nat → α) (head length : Nat) : List α :=
  (List.range length).map fun k => data ((head + k) % cap)

/-- Copy `n` elements out of the ring. -/
def copyOut (cap : Nat) (data : Nat → α) (head n : Nat) : List α :=
  let first := if n > cap - head then cap - head else n
  slice data head first ++ if n > first then slice data 0 (n - first) else []

/-- The ring after `n` elements of `source` have been copied in at position `tail`. -/
def copyIn (cap : Nat) (data : Nat → α) (tail n : Nat) (source : Nat → α) : Nat → α :=
  let first := if n > cap - tail then cap - tail else n
  let data := copyTo data tail first source
  if n > first then copyTo data 0 (n - first) fun k => source (first + k) else data

@[simp] theorem length_slice (data : Nat → α) (start n : Nat) :
    (slice data start n).length = n := by
  simp [slice]

@[simp] theorem length_contents (cap : Nat) (data : Nat → α) (head length : Nat) :
    (contents cap data head length).length = length := by
  simp [contents]

@[simp] theorem contents_zero (cap : Nat) (data : Nat → α) (head : Nat) :
    contents cap data head 0 = [] := rfl

/-- Adjacent slices make up one slice. -/
theorem slice_append (data : Nat → α) (start m n : Nat) :
    slice data start m ++ slice data (start + m) n = slice data start (m + n) := by
  rw [slice, slice, slice, List.range_add, List.map_append, List.map_map]
  congr 2
  funext k
  show data (start + m + k) = data (start + (m + k))
  rw [Nat.add_assoc]

/-- The positions of the ring, without the modulus. -/
theorem position {cap head k : Nat} (hhead : head < cap) (hk : k < cap) :
    (head + k) % cap = if head + k < cap then head + k else head + k - cap := by
  split
  · rename_i h
    exact Nat.mod_eq_of_lt h
  · rw [Nat.mod_eq_sub_mod (by omega), Nat.mod_eq_of_lt (by omega)]

/-- The next position of the ring is a position of the ring. -/
theorem position_lt {cap head : Nat} (hhead : head < cap) (n : Nat) : (head + n) % cap < cap :=
  Nat.mod_lt _ (by omega)

/-- The queue of `m + n` elements, cut after the first `m`. -/
theorem contents_append (cap : Nat) (data : Nat → α) (head m n : Nat) :
    contents cap data head m ++ contents cap data ((head + m) % cap) n =
      contents cap data head (m + n) := by
  rw [contents, contents, contents, List.range_add, List.map_append, List.map_map]
  congr 2
  funext k
  show data (((head + m) % cap + k) % cap) = data ((head + (m + k)) % cap)
  rw [Nat.mod_add_mod, Nat.add_assoc]

/-- Before the end of the ring the queue is a slice. -/
theorem contents_of_le {cap head n : Nat} (data : Nat → α) (h : head + n ≤ cap) :
    contents cap data head n = slice data head n := by
  refine List.map_congr_left fun k hk => ?_
  have hk := List.mem_range.1 hk
  rw [Nat.mod_eq_of_lt (by omega)]

/-- The front of the queue. -/
theorem contents_take {cap head length n : Nat} (data : Nat → α) (hn : n ≤ length) :
    (contents cap data head length).take n = contents cap data head n := by
  rw [contents, contents, ← List.map_take, List.take_range, Nat.min_eq_left hn]

/-- The rest of the queue. -/
theorem contents_drop {cap head length n : Nat} (data : Nat → α) (hn : n ≤ length) :
    (contents cap data head length).drop n = contents cap data ((head + n) % cap) (length - n) := by
  have happend := contents_append cap data head n (length - n)
  rw [Nat.add_sub_cancel' hn] at happend
  rw [← happend, List.drop_left' (length_contents ..)]

/-- Copying out gives the front of the queue. -/
theorem copyOut_eq {cap head n : Nat} (data : Nat → α) (hhead : head < cap) (hn : n ≤ cap) :
    copyOut cap data head n = contents cap data head n := by
  unfold copyOut
  by_cases hwrap : n > cap - head
  · have happend := contents_append cap data head (cap - head) (n - (cap - head))
    have hend : (head + (cap - head)) % cap = 0 := by
      rw [Nat.add_sub_cancel' hhead.le, Nat.mod_self]
    rw [hend, contents_of_le data (by omega), contents_of_le data (by omega),
      Nat.add_sub_cancel' hwrap.le] at happend
    simp only [if_pos hwrap]
    exact happend
  · simp only [if_neg hwrap, gt_iff_lt, Nat.lt_irrefl, if_false, List.append_nil]
    exact (contents_of_le data (by omega)).symm

/-- How far a position lies behind `tail`, going around the end of the ring. -/
def distance (cap tail j : Nat) : Nat := if tail ≤ j then j - tail else j + cap - tail

/-- Copying in writes the `n` positions from `tail` on. -/
theorem copyIn_apply {cap tail n j : Nat} (data source : Nat → α) (htail : tail < cap)
    (hn : n ≤ cap) (hj : j < cap) :
    copyIn cap data tail n source j =
      if distance cap tail j < n then source (distance cap tail j) else data j := by
  unfold copyIn distance
  by_cases hwrap : n > cap - tail
  · simp only [if_pos hwrap, copyTo]
    by_cases hbehind : tail ≤ j
    · rw [if_neg (by omega), if_pos (by omega), if_pos hbehind, if_pos (by omega)]
    · rw [if_neg hbehind]
      by_cases hwritten : j < n - (cap - tail)
      · rw [if_pos (by omega), if_pos (by omega), Nat.sub_zero]
        congr 1
        omega
      · rw [if_neg (by omega), if_neg (by omega), if_neg (by omega)]
  · simp only [if_neg hwrap, gt_iff_lt, Nat.lt_irrefl, if_false, copyTo]
    by_cases hbehind : tail ≤ j
    · rw [if_pos hbehind]
      by_cases hwritten : j - tail < n
      · rw [if_pos (by omega), if_pos hwritten]
      · rw [if_neg (by omega), if_neg hwritten]
    · rw [if_neg hbehind, if_neg (by omega), if_neg (by omega)]

/-- Copying in leaves what lies outside of the ring. -/
theorem copyIn_outside {cap tail n j : Nat} (data source : Nat → α) (htail : tail < cap)
    (hn : n ≤ cap) (hj : cap ≤ j) : copyIn cap data tail n source j = data j := by
  unfold copyIn
  by_cases hwrap : n > cap - tail
  · simp only [if_pos hwrap, copyTo]
    rw [if_neg (by omega), if_neg (by omega)]
  · simp only [if_neg hwrap, gt_iff_lt, Nat.lt_irrefl, if_false, copyTo]
    rw [if_neg (by omega)]

/-- Only the first `n` elements of the source are copied in. -/
theorem copyIn_congr {cap tail n : Nat} (data : Nat → α) {source source' : Nat → α}
    (htail : tail < cap) (hn : n ≤ cap) (h : ∀ k < n, source k = source' k) :
    copyIn cap data tail n source = copyIn cap data tail n source' := by
  funext j
  by_cases hj : j < cap
  · rw [copyIn_apply data source htail hn hj, copyIn_apply data source' htail hn hj]
    split
    · rename_i hwritten
      exact h _ hwritten
    · rfl
  · rw [copyIn_outside data source htail hn (by omega),
      copyIn_outside data source' htail hn (by omega)]

/-- Copying in twice, the second time behind the first, is copying in once. -/
theorem copyIn_copyIn {cap tail m n : Nat} (data source source' : Nat → α) (htail : tail < cap)
    (hfits : m + n ≤ cap) :
    copyIn cap (copyIn cap data tail m source) ((tail + m) % cap) n source' =
      copyIn cap data tail (m + n) fun k => if k < m then source k else source' (k - m) := by
  have htail' := position_lt htail m
  funext j
  by_cases hj : j < cap
  · rw [copyIn_apply _ source' htail' (by omega) hj, copyIn_apply data source htail (by omega) hj,
      copyIn_apply data _ htail hfits hj]
    by_cases hm : m = cap
    · -- the second copy is empty
      rw [if_neg (by omega)]
      by_cases hwritten : distance cap tail j < m
      · rw [if_pos hwritten, if_pos (by omega), if_pos hwritten]
      · rw [if_neg hwritten, if_neg (by omega)]
    · have hdistance : distance cap ((tail + m) % cap) j =
          if distance cap tail j < m then distance cap tail j + cap - m
          else distance cap tail j - m := by
        rw [position htail (k := m) (by omega)]
        unfold distance
        split <;> split <;> split <;> split <;> omega
      rw [hdistance]
      by_cases hwritten : distance cap tail j < m
      · rw [if_pos hwritten, if_neg (by omega), if_pos hwritten, if_pos (by omega), if_pos hwritten]
      · rw [if_neg hwritten, if_neg hwritten]
        by_cases hmore : distance cap tail j - m < n
        · rw [if_pos hmore, if_pos (by omega), if_neg hwritten]
        · rw [if_neg hmore, if_neg (by omega)]
  · rw [copyIn_outside _ source' htail' (by omega) (by omega),
      copyIn_outside data source htail (by omega) (by omega),
      copyIn_outside data _ htail hfits (by omega)]

/-- Copying in at the back of the queue appends to it. -/
theorem contents_copyIn {cap head length n : Nat} (data source : Nat → α) (hhead : head < cap)
    (hfits : length + n ≤ cap) :
    contents cap (copyIn cap data ((head + length) % cap) n source) head (length + n) =
      contents cap data head length ++ slice source 0 n := by
  have htail := position_lt hhead length
  rw [← contents_append]
  congr 1
  · refine List.map_congr_left fun k hk => ?_
    have hk := List.mem_range.1 hk
    rw [copyIn_apply data source htail (by omega) (position_lt hhead k), if_neg]
    by_cases hfull : length = cap
    · omega
    · rw [position hhead (k := k) (by omega), position hhead (k := length) (by omega)]
      unfold distance
      split <;> split <;> split <;> omega
  · refine List.map_congr_left fun k hk => ?_
    have hk := List.mem_range.1 hk
    rw [copyIn_apply data source htail (by omega) (position_lt htail k)]
    have hdistance : distance cap ((head + length) % cap) (((head + length) % cap + k) % cap) =
        k := by
      rw [position htail (k := k) (by omega)]
      unfold distance
      split <;> split <;> omega
    rw [hdistance, if_pos hk, Nat.zero_add]

end Asnx.RingBuffer
