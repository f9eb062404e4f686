import Mathlib.Data.List.Infix

/-!
# Searching a text

`strstr needle text` is the rest of the text from the first occurrence of the needle on. What is
put before a text does not change what is found in it, when no occurrence begins there
(`strstr_append`). Two conditions that can be seen from the parts give this: every rest of what
comes before disagrees with the needle (`Apart`), or the needle is not in what comes before and
cannot go on into the text (`strstr_append_head`).
-/

namespace Asnx.Searching

variable {α : Type*} [DecidableEq α]

/-- What a text has after something that it begins with. -/
def after (pfx text : List α) : Option (List α) :=
  if pfx <+: text then some (text.drop pfx.length) else none

/-- The rest of a text from the first occurrence of a needle on. -/
def strstr (needle : List α) : List α → Option (List α)
  | [] => if needle = [] then some [] else none
  | c :: rest => if needle <+: c :: rest then some (c :: rest) else strstr needle rest

/-- The rest of a text from the first `c` on. -/
def strchr (c : α) (text : List α) : Option (List α) := strstr [c] text

variable {needle a b text found : List α}

/-- What comes after the beginning of a text. -/
theorem after_eq_some {pfx rest : List α} : after pfx text = some rest ↔ text = pfx ++ rest := by
  unfold after
  constructor
  · intro h
    split at h
    · rename_i hbegins
      cases h
      exact List.prefix_append_drop hbegins
    · cases h
  · rintro rfl
    simp

theorem after_eq_none {pfx : List α} : after pfx text = none ↔ ¬ pfx <+: text := by
  unfold after
  split
  · rename_i hbegins
    simp [hbegins]
  · rename_i hnot
    simp [hnot]

/-- Nothing is found where the needle does not occur. -/
theorem strstr_none : strstr needle text = none ↔ ¬ needle <:+: text := by
  induction text with
  | nil => simp [strstr]
  | cons c rest ih =>
      rw [strstr, List.infix_cons_iff]
      by_cases hbegins : needle <+: c :: rest
      · simp [hbegins]
      · simp [hbegins, ih]

/-- What is found is a rest of the text, and begins with the needle. -/
theorem strstr_some (h : strstr needle text = some found) :
    found <:+ text ∧ needle <+: found := by
  induction text with
  | nil =>
      rw [strstr] at h
      split at h
      · rename_i hempty
        cases h
        simp [hempty]
      · cases h
  | cons c rest ih =>
      rw [strstr] at h
      split at h
      · rename_i hbegins
        cases h
        exact ⟨List.suffix_refl _, hbegins⟩
      · obtain ⟨hsuffix, hbegins⟩ := ih h
        exact ⟨hsuffix.trans (List.suffix_cons c rest), hbegins⟩

/-- No rest begins with a letter that is not in the text. -/
theorem strchr_none {c : α} : strchr c text = none ↔ c ∉ text := by
  unfold strchr
  rw [strstr_none, List.singleton_infix_iff]

/-- The rest from the first `c` on begins behind a part that has none. -/
theorem strchr_append {c : α} (ha : c ∉ a) (b : List α) :
    strchr c (a ++ c :: b) = some (c :: b) := by
  unfold strchr
  induction a with
  | nil => simp [strstr]
  | cons d a ih =>
      obtain ⟨hd, ha⟩ := not_or.1 (mt List.mem_cons.2 ha)
      rw [List.cons_append, strstr, if_neg]
      case hnc => simpa using hd
      exact ih ha

/-- A needle is found at the beginning. -/
theorem strstr_self (hneedle : needle ≠ []) (text : List α) :
    strstr needle (needle ++ text) = some (needle ++ text) := by
  cases needle with
  | nil => exact absurd rfl hneedle
  | cons c rest =>
      rw [List.cons_append, strstr, if_pos]
      exact List.prefix_append (c :: rest) text

/-- What comes before a text is skipped when no occurrence begins in it. -/
theorem strstr_append (h : ∀ t, t ≠ [] → t <:+ a → ¬ needle <+: t ++ b) :
    strstr needle (a ++ b) = strstr needle b := by
  induction a with
  | nil => rfl
  | cons c a ih =>
      have hhead := h (c :: a) nofun (List.suffix_refl _)
      rw [List.cons_append, strstr, if_neg (by simpa using hhead)]
      exact ih fun t ht hsuffix => h t ht (hsuffix.trans (List.suffix_cons c a))

/-- Two texts differ before either of them ends. -/
def Differ (a b : List α) : Prop := ¬ a <+: b ∧ ¬ b <+: a

instance (a b : List α) : Decidable (Differ a b) := inferInstanceAs (Decidable (_ ∧ _))

omit [DecidableEq α] in
/-- Texts that differ still do when they go on. -/
theorem Differ.not_begins (h : Differ a b) (text : List α) : ¬ a <+: b ++ text := by
  intro hbegins
  rcases List.prefix_or_prefix_of_prefix hbegins (List.prefix_append b text) with hle | hle
  · exact h.1 hle
  · exact h.2 hle

omit [DecidableEq α] in
/-- A text does not begin with what it does not begin with before the first letter that is not in
it. -/
theorem not_prefix_append (h : ¬ needle <+: a) (hhead : ∀ c ∈ b.head?, c ∉ needle) :
    ¬ needle <+: a ++ b := by
  intro hbegins
  rcases List.prefix_or_prefix_of_prefix hbegins (List.prefix_append a b) with hle | hle
  · exact h hle
  · obtain ⟨more, rfl⟩ := hle
    have hmore : more <+: b := (List.prefix_append_right_inj a).1 hbegins
    cases more with
    | nil => exact h (by simp)
    | cons c more =>
        obtain ⟨rest, rfl⟩ := hmore
        exact hhead c rfl (by simp)

/-- Every rest of `a` differs from the needle. -/
def Apart (needle a : List α) : Prop := ∀ t ∈ a.tails, t ≠ [] → Differ needle t

instance (needle a : List α) : Decidable (Apart needle a) :=
  inferInstanceAs (Decidable (∀ t ∈ a.tails, _))

/-- A text that differs from the needle everywhere is skipped. -/
theorem Apart.strstr_append (h : Apart needle a) (b : List α) :
    strstr needle (a ++ b) = strstr needle b := by
  refine Searching.strstr_append fun t ht hsuffix => ?_
  exact (h t ((List.mem_tails _ _).2 hsuffix) ht).not_begins b

/-- A text without the needle is skipped when the needle cannot go on into what follows. -/
theorem strstr_append_head (hnot : ¬ needle <:+: a)
    (hhead : ∀ c ∈ b.head?, c ∉ needle.tail) : strstr needle (a ++ b) = strstr needle b := by
  refine strstr_append fun t ht hsuffix hbegins => ?_
  rcases List.prefix_or_prefix_of_prefix hbegins (List.prefix_append t b) with hle | hle
  · exact hnot (hle.isInfix.trans hsuffix.isInfix)
  · -- the needle goes on after `t`, with the head of `b`
    obtain ⟨more, rfl⟩ := hle
    have hmore : more <+: b := (List.prefix_append_right_inj t).1 hbegins
    cases more with
    | nil => exact hnot (by simpa using hsuffix.isInfix)
    | cons c more =>
        obtain ⟨rest, rfl⟩ := hmore
        cases t with
        | nil => exact ht rfl
        | cons d t => exact hhead c rfl (by simp)

end Asnx.Searching
