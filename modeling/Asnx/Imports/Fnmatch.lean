import Asnx.Library.Splitting

/-!
# Wildcard patterns

`fnm_class` and `nx_fnmatch` of `source/imports.c` on strings without their terminating zero. A
pattern is a list of items, and the string matches if it can be split along them (`fnmatch_iff`).
Where a leading period comes next, a `*` matches nothing, not even the empty string.
-/

namespace Asnx.Imports.Fnmatch

open Splitting

/-- `NX_FNM_PATHNAME` -/
def nxFnmPathname : BitVec 32 := 0x01
/-- `NX_FNM_NOESCAPE` -/
def nxFnmNoescape : BitVec 32 := 0x02
/-- `NX_FNM_PERIOD` -/
def nxFnmPeriod : BitVec 32 := 0x04
/-- `NX_FNM_LEADING_DIR` -/
def nxFnmLeadingDir : BitVec 32 := 0x08
/-- `NX_FNM_CASEFOLD` -/
def nxFnmCasefold : BitVec 32 := 0x10
/-- `NX_FNM_NOMATCH` -/
def nxFnmNomatch : Int := 1

/-- `flags&flag` -/
def has (flags flag : BitVec 32) : Bool := flags &&& flag ≠ 0

/-- The bytes with a meaning of their own. -/
abbrev asterisk : UInt8 := 42
abbrev question : UInt8 := 63
abbrev opening : UInt8 := 91
abbrev closing : UInt8 := 93
abbrev backslash : UInt8 := 92
abbrev slash : UInt8 := 47
abbrev period : UInt8 := 46
abbrev dash : UInt8 := 45
abbrev exclamation : UInt8 := 33
abbrev caret : UInt8 := 94

/-- `tolower` -/
def tolower (a : UInt8) : UInt8 := if 65 ≤ a ∧ a ≤ 90 then a + 32 else a

/-- A byte as the comparisons see it. -/
def folded (flags : BitVec 32) (a : UInt8) : UInt8 :=
  if has flags nxFnmCasefold then tolower a else a

/-- `fnm_eq` -/
def fnmEq (flags : BitVec 32) (a b : UInt8) : Bool := folded flags a = folded flags b

/-- `fnm_leading_period` at the string `s`, behind the bytes `before` from `start` on. -/
def fnmLeadingPeriod (flags : BitVec 32) (before s : List UInt8) : Bool :=
  has flags nxFnmPeriod && s.head? = some period &&
    (before = [] || has flags nxFnmPathname && before.getLast? = some slash)

/-- A byte of a pattern that has been read, or the one behind it if it is a backslash, with what is
left of the pattern. -/
def unescape (flags : BitVec 32) (a : UInt8) (p : List UInt8) : UInt8 × List UInt8 :=
  if a = backslash && !has flags nxFnmNoescape then
    match p with
    | [] => (a, [])
    | b :: p => (b, p)
  else (a, p)

theorem unescape_length (flags : BitVec 32) (a : UInt8) (p : List UInt8) :
    (unescape flags a p).2.length ≤ p.length := by
  unfold unescape
  split
  · cases p with
    | nil => exact Nat.le_refl _
    | cons b p => exact Nat.le_succ _
  · exact Nat.le_refl _

/-- The end of a range, behind its dash. -/
def rangeEnd (p : List UInt8) : Option (UInt8 × List UInt8) :=
  match p with
  | a :: b :: p => if a = dash && b ≠ closing then some (b, p) else none
  | _ => none

theorem rangeEnd_length {p p' : List UInt8} {b : UInt8} (h : rangeEnd p = some (b, p')) :
    p'.length < p.length := by
  unfold rangeEnd at h
  split at h
  · split at h
    · cases h
      exact Nat.lt_succ_of_lt (Nat.lt_succ_self _)
    · exact nomatch h
  · exact nomatch h

/-- The loop of `fnm_class`; `none` stands for -1. -/
def classLoop (flags : BitVec 32) (c : UInt8) : List UInt8 → Bool → Option (List UInt8 × Bool)
  | [], _ => none
  | a :: p, hit =>
      if a = closing then some (p, hit)
      else
        let first := unescape flags a p
        match _hrange : rangeEnd first.2 with
        | some (b, p') =>
            let last := unescape flags b p'
            let inRange := folded flags first.1 ≤ folded flags c && folded flags c ≤
              folded flags last.1
            classLoop flags c last.2 (hit || inRange)
        | none => classLoop flags c first.2 (hit || fnmEq flags first.1 c)
termination_by p => p.length
decreasing_by
  · have hfirst := unescape_length flags a p
    have hrest := rangeEnd_length _hrange
    have hlast := unescape_length flags b p'
    exact Nat.lt_succ_of_le (Nat.le_of_lt
      (Nat.lt_of_le_of_lt hlast (Nat.lt_of_lt_of_le hrest hfirst)))
  · exact Nat.lt_succ_of_le (unescape_length flags a p)

/-- A byte of the pattern is passed. -/
def skipIf (b : Bool) (p : List UInt8) : List UInt8 := if b then p.tail else p

theorem skipIf_length (b : Bool) (p : List UInt8) : (skipIf b p).length ≤ p.length := by
  cases b with
  | true => exact List.length_tail ▸ Nat.sub_le ..
  | false => exact Nat.le_refl _

/-- `fnm_class`: what is left of the pattern, and whether it has `c`; `none` stands for -1. -/
def fnmClass (flags : BitVec 32) (pp : List UInt8) (c : UInt8) : Option (List UInt8 × Bool) :=
  let neg := pp.head? = some exclamation || pp.head? = some caret
  let p := skipIf neg pp
  let bracket := p.head? = some closing
  let hit := bracket && fnmEq flags closing c
  (classLoop flags c (skipIf bracket p) hit).map fun (p, hit) =>
    (p, if neg then !hit else hit)

theorem classLoop_length {flags : BitVec 32} {c : UInt8} {p p' : List UInt8} {hit hit' : Bool}
    (h : classLoop flags c p hit = some (p', hit')) : p'.length < p.length := by
  fun_induction classLoop flags c p hit with
  | case1 => exact nomatch h
  | case2 =>
      cases h
      exact Nat.lt_succ_self _
  | case3 a p hit hne first b p'' hrange last inRange ih =>
      have hfirst : first.2.length ≤ p.length := unescape_length flags a p
      have hrest := rangeEnd_length hrange
      have hlast : last.2.length ≤ p''.length := unescape_length flags b p''
      have hloop := ih h
      show _ < p.length + 1
      omega
  | case4 a p hit hne first hrange ih =>
      have hfirst : first.2.length ≤ p.length := unescape_length flags a p
      have hloop := ih h
      show _ < p.length + 1
      omega

theorem fnmClass_length {flags : BitVec 32} {c : UInt8} {pp p : List UInt8} {r : Bool}
    (h : fnmClass flags pp c = some (p, r)) : p.length < pp.length := by
  obtain ⟨⟨p', hit⟩, hloop, heq⟩ := Option.map_eq_some_iff.1 h
  obtain rfl : p' = p := congrArg Prod.fst heq
  have hlength := classLoop_length hloop
  exact Nat.lt_of_lt_of_le hlength (Nat.le_trans (skipIf_length ..) (skipIf_length ..))

/-- The loop over what a `*` may stand for, with `m` for the match of the rest of the pattern. -/
def starLoop (flags : BitVec 32) (m : List UInt8 → List UInt8 → Int) :
    List UInt8 → List UInt8 → Int
  | before, [] => if m before [] = 0 then 0 else nxFnmNomatch
  | before, c :: s =>
      if m before (c :: s) = 0 then 0
      else if has flags nxFnmPathname && c = slash then nxFnmNomatch
      else starLoop flags m (before ++ [c]) s

/-- `nx_fnmatch_impl` at the string `s`, behind the bytes `before` from `start` on. -/
def nxFnmatchImpl (flags : BitVec 32) (pat before s : List UInt8) : Int :=
  match pat with
  | [] =>
      if s = [] then 0
      else if has flags nxFnmLeadingDir && s.head? = some slash then 0
      else nxFnmNomatch
  | pc :: pat =>
      if pc = asterisk then
        let pat' := pat.dropWhile (· = asterisk)
        if fnmLeadingPeriod flags before s then nxFnmNomatch
        else if pat' = [] then
          if !has flags nxFnmPathname then 0
          else if slash ∉ s then 0
          else if has flags nxFnmLeadingDir then 0 else nxFnmNomatch
        else starLoop flags (fun before s => nxFnmatchImpl flags pat' before s) before s
      else
        match s with
        | [] => nxFnmNomatch
        | c :: s =>
            let special := has flags nxFnmPathname && c =
              slash || fnmLeadingPeriod flags before (c :: s)
            if pc = question then
              if special then nxFnmNomatch else nxFnmatchImpl flags pat (before ++ [c]) s
            else if pc = opening && special then nxFnmNomatch
            else
              match _hclass : (if pc = opening then fnmClass flags pat c else none) with
              | some (pat', r) =>
                  if r then nxFnmatchImpl flags pat' (before ++ [c]) s else nxFnmNomatch
              | none =>
                  let next := unescape flags pc pat
                  if has flags nxFnmPathname && next.1 = slash && c ≠ slash then nxFnmNomatch
                  else if fnmEq flags next.1 c then nxFnmatchImpl flags next.2 (before ++ [c]) s
                  else nxFnmNomatch
termination_by pat.length
decreasing_by
  · exact Nat.lt_succ_of_le (List.dropWhile_suffix _).length_le
  · exact Nat.lt_succ_self _
  · split at _hclass
    · exact Nat.lt_succ_of_lt (fnmClass_length _hclass)
    · exact nomatch _hclass
  · exact Nat.lt_succ_of_le (unescape_length flags pc pat)

/-- `EINVAL` -/
def einval : Int := 22

/-- `nx_fnmatch` with the `errno` it sets; a null pointer is `none`. -/
def nxFnmatch (pattern string : Option (List UInt8)) (flags : BitVec 32) : Int × Option Int :=
  match pattern, string with
  | some pattern, some string => (nxFnmatchImpl flags pattern [] string, none)
  | _, _ => (nxFnmNomatch, some einval)

/-! ## What a pattern means -/

/-- An item of a pattern. -/
inductive Item where
  | star
  | any
  | bracket (accepts : UInt8 → Bool)
  | byte (b : UInt8)

/-- A bracket expression with the bytes that `fnm_class` accepts for it, if it is terminated. -/
def bracketOf (flags : BitVec 32) (pat : List UInt8) : Option (List UInt8 × (UInt8 → Bool)) :=
  (fnmClass flags pat 0).map fun (p, _) => (p, fun c => (fnmClass flags pat c).any (·.2))

/-- The items of a pattern. -/
def items (flags : BitVec 32) (pat : List UInt8) : List Item :=
  match pat with
  | [] => []
  | a :: pat =>
      if a = asterisk then .star :: items flags pat
      else if a = question then .any :: items flags pat
      else
        match _hclass : (if a = opening then bracketOf flags pat else none) with
        | some (pat', accepts) => .bracket accepts :: items flags pat'
        | none => .byte (unescape flags a pat).1 :: items flags (unescape flags a pat).2
termination_by pat.length
decreasing_by
  · exact Nat.lt_succ_self _
  · exact Nat.lt_succ_self _
  · split at _hclass
    · obtain ⟨⟨p, r⟩, hp, heq⟩ := Option.map_eq_some_iff.1 _hclass
      obtain rfl : p = pat' := congrArg Prod.fst heq
      exact Nat.lt_succ_of_lt (fnmClass_length hp)
    · exact nomatch _hclass
  · exact Nat.lt_succ_of_le (unescape_length flags a pat)

/-- A `/` is not taken under `NX_FNM_PATHNAME`. -/
def NoSlash (flags : BitVec 32) (piece : List UInt8) : Prop :=
  has flags nxFnmPathname = true → slash ∉ piece

/-- No part of a piece begins with a leading period. -/
def NoLeadingPeriod (flags : BitVec 32) (before piece : List UInt8) : Prop :=
  ∀ u v, piece = u ++ v → fnmLeadingPeriod flags (before ++ u) v = false

/-- The piece of the string that an item takes, by what is around it. -/
def Takes (flags : BitVec 32) (before : List UInt8) : Item → List UInt8 → List UInt8 → Prop
  | .star, piece, _ => NoSlash flags piece ∧ NoLeadingPeriod flags before piece
  | .any, piece, _ => ∃ c, piece = [c] ∧ NoSlash flags piece ∧ NoLeadingPeriod flags before piece
  | .bracket accepts, piece, _ =>
      ∃ c, piece = [c] ∧ accepts c = true ∧ NoSlash flags piece ∧ NoLeadingPeriod flags before piece
  | .byte b, piece, _ => ∃ c, piece = [c] ∧ fnmEq flags b c = true

/-- The same, but that a `*` takes nothing, not even the empty piece, where a leading period comes
next. -/
def TakesStrict (flags : BitVec 32) (before : List UInt8) (i : Item)
    (piece after : List UInt8) : Prop :=
  Takes flags before i piece after ∧
    (i = .star → fnmLeadingPeriod flags before (piece ++ after) = false)

/-- What may be left over. -/
def LeftOver (flags : BitVec 32) (s : List UInt8) : Prop :=
  s = [] ∨ has flags nxFnmLeadingDir = true ∧ s.head? = some slash

/-- The string can be split according to the pattern. -/
def Matches (flags : BitVec 32) (pattern string : List UInt8) : Prop :=
  Splits (Takes flags) (LeftOver flags) [] (items flags pattern) string

/-- The same, with no `*` where a leading period comes next. -/
def MatchesStrict (flags : BitVec 32) (pattern string : List UInt8) : Prop :=
  Splits (TakesStrict flags) (LeftOver flags) [] (items flags pattern) string

/-! ## Brackets -/

section Items

variable {flags : BitVec 32} {c c' a : UInt8} {p p' : List UInt8} {r : Bool}

/-- How far a bracket expression goes does not depend on the byte it is asked about. -/
theorem classLoop_rest (flags : BitVec 32) (c c' : UInt8) (p : List UInt8) (hit hit' : Bool) :
    (classLoop flags c p hit).map Prod.fst = (classLoop flags c' p hit').map Prod.fst := by
  fun_induction classLoop flags c p hit generalizing hit' with
  | case1 => rw [classLoop]
  | case2 p hit =>
      rw [classLoop, if_pos rfl]
      rfl
  | case3 a p hit hne first b p' hrange last inRange ih =>
      rw [classLoop, if_neg hne]
      dsimp only
      split
      · rename_i b' p'' hrange'
        obtain ⟨rfl, rfl⟩ := Prod.mk.inj (Option.some.inj (hrange.symm.trans hrange'))
        exact ih _
      · rename_i hrange'
        exact nomatch hrange.symm.trans hrange'
  | case4 a p hit hne first hrange ih =>
      rw [classLoop, if_neg hne]
      dsimp only
      split
      · rename_i b' p'' hrange'
        exact nomatch hrange.symm.trans hrange'
      · exact ih _

theorem fnmClass_rest (flags : BitVec 32) (p : List UInt8) (c c' : UInt8) :
    (fnmClass flags p c).map Prod.fst = (fnmClass flags p c').map Prod.fst := by
  unfold fnmClass
  rw [Option.map_map, Option.map_map]
  exact classLoop_rest ..

/-- A terminated bracket expression. -/
theorem bracketOf_some (h : fnmClass flags p c = some (p', r)) :
    ∃ accepts, bracketOf flags p = some (p', accepts) ∧ accepts c = r := by
  have hrest := fnmClass_rest flags p 0 c
  rw [h] at hrest
  obtain ⟨⟨p'', r'⟩, hzero, rfl⟩ := Option.map_eq_some_iff.1 hrest
  refine ⟨_, by rw [bracketOf, hzero]; rfl, ?_⟩
  show (fnmClass flags p c).any (·.2) = r
  rw [h]
  rfl

/-- One that is not terminated. -/
theorem bracketOf_none (h : fnmClass flags p c = none) : bracketOf flags p = none := by
  have hrest := fnmClass_rest flags p 0 c
  rw [h] at hrest
  rw [bracketOf, Option.map_eq_none_iff.1 hrest]
  rfl

theorem items_nil : items flags [] = [] := by
  rw [items]

theorem items_star : items flags (asterisk :: p) = .star :: items flags p := by
  rw [items, if_pos rfl]

theorem items_any : items flags (question :: p) = .any :: items flags p := by
  rw [items, if_neg (by decide), if_pos rfl]

theorem items_bracket {accepts : UInt8 → Bool} (h : bracketOf flags p = some (p', accepts)) :
    items flags (opening :: p) = .bracket accepts :: items flags p' := by
  rw [items, if_neg (by decide), if_neg (by decide)]
  split
  · rename_i heq
    rw [if_pos rfl, h] at heq
    obtain ⟨rfl, rfl⟩ := Prod.mk.inj (Option.some.inj heq)
    rfl
  · rename_i heq
    rw [if_pos rfl, h] at heq
    exact nomatch heq

theorem items_byte (hstar : a ≠ asterisk) (hany : a ≠ question)
    (h : (if a = opening then bracketOf flags p else none) = none) :
    items flags (a :: p) =
      .byte (unescape flags a p).1 :: items flags (unescape flags a p).2 := by
  rw [items, if_neg hstar, if_neg hany]
  split
  · rename_i heq
    exact nomatch h.symm.trans heq
  · rfl

end Items

/-! ## Pieces -/

section Pieces

variable {flags : BitVec 32} {before s u v : List UInt8} {c b : UInt8} {is : List Item}

/-- Only the next byte can be a leading period. -/
theorem leadingPeriod_append (hu : u ≠ []) :
    fnmLeadingPeriod flags before (u ++ v) = fnmLeadingPeriod flags before u := by
  obtain ⟨c, u, rfl⟩ := List.exists_cons_of_ne_nil hu
  rfl

theorem leadingPeriod_nil : fnmLeadingPeriod flags before [] = false := by
  simp [fnmLeadingPeriod]

/-- Behind a byte that is no `/` under `NX_FNM_PATHNAME` there is no leading period. -/
theorem leadingPeriod_behind (hu : u ≠ []) (hslash : NoSlash flags u) :
    fnmLeadingPeriod flags (before ++ u) v = false := by
  have hne : before ++ u ≠ [] := fun h => hu (List.append_eq_nil_iff.1 h).2
  cases hpathname : has flags nxFnmPathname with
  | false => simp [fnmLeadingPeriod, hne, hpathname]
  | true =>
      have hlast : (before ++ u).getLast? ≠ some slash := by
        rw [List.getLast?_append_of_ne_nil _ hu]
        exact fun h => hslash hpathname (List.mem_of_getLast? h)
      unfold fnmLeadingPeriod
      rw [decide_eq_false hne, decide_eq_false hlast, Bool.and_false, Bool.or_false, Bool.and_false]

/-- A piece without a `/` has a leading period at its beginning only. -/
theorem noLeadingPeriod_of (hslash : NoSlash flags u)
    (h : fnmLeadingPeriod flags before u = false) :
    NoLeadingPeriod flags before u := by
  rintro w v rfl
  by_cases hw : w = []
  case pos => rwa [hw, List.append_nil, ← List.nil_append v, ← hw]
  case neg => exact leadingPeriod_behind hw fun hp hmem => hslash hp (List.mem_append_left v hmem)

/-- What the code tests before a `?` or a bracket expression takes a byte. -/
theorem single_iff : NoSlash flags [c] ∧ NoLeadingPeriod flags before [c] ↔
    (has flags nxFnmPathname && decide (c = slash) || fnmLeadingPeriod flags before (c :: s)) =
      false := by
  have hcons : fnmLeadingPeriod flags before (c :: s) = fnmLeadingPeriod flags before [c] := rfl
  have hslash : NoSlash flags [c] ↔ (has flags nxFnmPathname && decide (c = slash)) = false := by
    rw [NoSlash, List.mem_singleton, @eq_comm _ slash c]
    simp
  rw [hcons, Bool.or_eq_false_iff, ← hslash]
  refine and_congr_right fun h => ⟨fun hnone => hnone [] [c] rfl ▸ ?_, noLeadingPeriod_of h⟩
  rw [List.append_nil]

theorem splits_any : Splits (TakesStrict flags) (LeftOver flags) before (.any :: is) s ↔
    ∃ c after, s = c :: after ∧ (NoSlash flags [c] ∧ NoLeadingPeriod flags before [c]) ∧
      Splits (TakesStrict flags) (LeftOver flags) (before ++ [c]) is after := by
  refine splits_one (P := fun before c _ => NoSlash flags [c] ∧ NoLeadingPeriod flags before [c])
    fun before piece after => ?_
  constructor
  · rintro ⟨⟨c, rfl, h⟩, -⟩
    exact ⟨c, rfl, h⟩
  · rintro ⟨c, rfl, h⟩
    exact ⟨⟨c, rfl, h⟩, Item.noConfusion⟩

theorem splits_bracket {accepts : UInt8 → Bool} :
    Splits (TakesStrict flags) (LeftOver flags) before (.bracket accepts :: is) s ↔
      ∃ c after, s = c :: after ∧
        (accepts c = true ∧ NoSlash flags [c] ∧ NoLeadingPeriod flags before [c]) ∧
        Splits (TakesStrict flags) (LeftOver flags) (before ++ [c]) is after := by
  refine splits_one (P := fun before c _ => accepts c = true ∧ NoSlash flags [c] ∧
    NoLeadingPeriod flags before [c]) fun before piece after => ?_
  constructor
  · rintro ⟨⟨c, rfl, h⟩, -⟩
    exact ⟨c, rfl, h⟩
  · rintro ⟨c, rfl, h⟩
    exact ⟨⟨c, rfl, h⟩, Item.noConfusion⟩

theorem splits_byte : Splits (TakesStrict flags) (LeftOver flags) before (.byte b :: is) s ↔
    ∃ c after, s = c :: after ∧ fnmEq flags b c = true ∧
      Splits (TakesStrict flags) (LeftOver flags) (before ++ [c]) is after := by
  refine splits_one (P := fun _ c _ => fnmEq flags b c = true) fun before piece after => ?_
  constructor
  · rintro ⟨⟨c, rfl, h⟩, -⟩
    exact ⟨c, rfl, h⟩
  · rintro ⟨c, rfl, h⟩
    exact ⟨⟨c, rfl, h⟩, Item.noConfusion⟩

theorem splits_star : Splits (TakesStrict flags) (LeftOver flags) before (.star :: is) s ↔
    fnmLeadingPeriod flags before s = false ∧ ∃ w after, s = w ++ after ∧ NoSlash flags w ∧
      Splits (TakesStrict flags) (LeftOver flags) (before ++ w) is after := by
  rw [splits_cons]
  constructor
  · rintro ⟨w, after, rfl, ⟨⟨hslash, -⟩, hstrict⟩, hrest⟩
    exact ⟨hstrict rfl, w, after, rfl, hslash, hrest⟩
  · rintro ⟨hperiod, w, after, rfl, hslash, hrest⟩
    refine ⟨w, after, rfl, ⟨⟨hslash, noLeadingPeriod_of hslash ?_⟩, fun _ => hperiod⟩, hrest⟩
    by_cases hw : w = []
    case pos => rw [hw, leadingPeriod_nil]
    case neg => rwa [leadingPeriod_append hw] at hperiod

/-- Two `*` in a row are as good as one. -/
theorem splits_star_star : Splits (TakesStrict flags) (LeftOver flags) before
    (.star :: .star :: is) s ↔
    Splits (TakesStrict flags) (LeftOver flags) before (.star :: is) s := by
  rw [splits_star, splits_star]
  refine and_congr_right fun hperiod => ⟨?_, ?_⟩
  · rintro ⟨w, s', rfl, hslash, h⟩
    obtain ⟨-, w', after, rfl, hslash', h⟩ := splits_star.1 h
    refine ⟨w ++ w', after, (List.append_assoc ..).symm, fun hp hmem => ?_, ?_⟩
    · exact (List.mem_append.1 hmem).elim (hslash hp) (hslash' hp)
    · rwa [← List.append_assoc]
  · rintro ⟨w, after, rfl, hslash, h⟩
    refine ⟨w, after, rfl, hslash, splits_star.2 ⟨?_, [], after, rfl, fun _ =>
      List.not_mem_nil, ?_⟩⟩
    · by_cases hw : w = []
      case pos => simpa [hw] using hperiod
      case neg => exact leadingPeriod_behind hw hslash
    · rwa [List.append_nil]

/-- The items of a pattern that begins with any number of `*`. -/
theorem splits_stars (p : List UInt8) :
    Splits (TakesStrict flags) (LeftOver flags) before (items flags (asterisk :: p)) s ↔
      Splits (TakesStrict flags) (LeftOver flags) before
        (.star :: items flags (p.dropWhile (· = asterisk))) s := by
  rw [items_star]
  induction p with
  | nil => rfl
  | cons a p ih =>
      by_cases ha : a = asterisk
      case pos =>
        rw [ha, items_star, splits_star_star, ih, List.dropWhile_cons_of_pos (by rfl)]
      case neg => rw [List.dropWhile_cons_of_neg (by simpa using ha)]

/-- The loop finds a place from which the rest of the pattern matches, if there is one. -/
theorem starLoop_iff {m : List UInt8 → List UInt8 → Int} : starLoop flags m before s = 0 ↔
    ∃ w after, s = w ++ after ∧ NoSlash flags w ∧ m (before ++ w) after = 0 := by
  induction s generalizing before with
  | nil =>
      rw [starLoop]
      constructor
      · intro h
        split at h
        · rename_i hm
          exact ⟨[], [], rfl, fun _ => List.not_mem_nil, by rwa [List.append_nil]⟩
        · exact absurd h (by decide)
      · rintro ⟨w, after, hs, -, hm⟩
        obtain ⟨rfl, rfl⟩ := List.append_eq_nil_iff.1 hs.symm
        rw [List.append_nil] at hm
        rw [if_pos hm]
  | cons c s ih =>
      rw [starLoop]
      by_cases hm : m before (c :: s) = 0
      case pos =>
        rw [if_pos hm]
        exact iff_of_true rfl ⟨[], c :: s, rfl, fun _ => List.not_mem_nil, by rwa [List.append_nil]⟩
      case neg =>
        rw [if_neg hm]
        -- the star must stop at a slash; otherwise it takes the byte
        by_cases hslash : (has flags nxFnmPathname && decide (c = slash)) = true
        case pos =>
          rw [if_pos hslash]
          refine iff_of_false (by decide) ?_
          rintro ⟨w, after, hs, hno, hrest⟩
          rw [Bool.and_eq_true, decide_eq_true_eq] at hslash
          cases w with
          | nil =>
              rw [List.append_nil, ← List.nil_append after, ← hs] at hrest
              exact hm hrest
          | cons c' w =>
              obtain ⟨rfl, -⟩ := List.cons.inj hs
              exact hno hslash.1 (hslash.2 ▸ List.mem_cons_self)
        case neg =>
          rw [if_neg hslash, ih]
          constructor
          · rintro ⟨w, after, rfl, hno, hrest⟩
            refine ⟨c :: w, after, rfl, fun hp hmem => ?_, by rwa [List.append_assoc] at hrest⟩
            rcases List.mem_cons.1 hmem with hc | hmem
            · exact hslash (by rw [hp, ← hc]; rfl)
            · exact hno hp hmem
          · rintro ⟨w, after, hs, hno, hrest⟩
            cases w with
            | nil =>
                rw [List.append_nil, ← List.nil_append after, ← hs] at hrest
                exact absurd hrest hm
            | cons c' w =>
                obtain ⟨rfl, rfl⟩ := List.cons.inj hs
                refine ⟨w, after, rfl, fun hp hmem => hno hp (List.mem_cons_of_mem _ hmem), ?_⟩
                rwa [List.append_assoc]

/-- A `*` at the end of a pattern: it takes everything, or what is before the first `/`. -/
theorem splits_last_star : Splits (TakesStrict flags) (LeftOver flags) before [.star] s ↔
    fnmLeadingPeriod flags before s = false ∧ (has flags nxFnmPathname = false ∨ slash ∉ s ∨
      has flags nxFnmLeadingDir = true) := by
  rw [splits_star]
  refine and_congr_right fun _ => ⟨?_, fun h => ?_⟩
  · rintro ⟨w, after, rfl, hslash, h⟩
    cases hp : has flags nxFnmPathname with
    | false => exact .inl rfl
    | true =>
        rcases splits_nil.1 h with rfl | ⟨hdir, -⟩
        · exact .inr (.inl (by rw [List.append_nil]; exact hslash hp))
        · exact .inr (.inr hdir)
  · by_cases hmem : has flags nxFnmPathname = true ∧ slash ∈ s
    case neg =>
      refine ⟨s, [], (List.append_nil s).symm, fun hp hs => hmem ⟨hp, hs⟩, splits_nil.2 (.inl rfl)⟩
    case pos =>
      have hdir : has flags nxFnmLeadingDir = true := by
        rcases h with h | h | h
        · rw [hmem.1] at h
          exact Bool.noConfusion h
        · exact absurd hmem.2 h
        · exact h
      obtain ⟨w, after, rfl, hw⟩ := List.eq_append_cons_of_mem hmem.2
      exact ⟨w, slash :: after, rfl, fun _ => hw, splits_nil.2 (.inr ⟨hdir, rfl⟩)⟩

end Pieces

/-! ## The match -/

section Match

variable {flags : BitVec 32}

theorem nomatch_ne : nxFnmNomatch ≠ 0 := by decide

/-- An item that is no `*` and no `?`: a bracket expression or a byte. -/
theorem items_cases {a : UInt8} {p : List UInt8} (hstar : a ≠ asterisk) (hany : a ≠ question) :
    (∃ p' accepts, a = opening ∧ bracketOf flags p = some (p', accepts) ∧
        items flags (a :: p) = .bracket accepts :: items flags p') ∨
      (a = opening → bracketOf flags p = none) ∧
        items flags (a :: p) = .byte (unescape flags a p).1 :: items flags
          (unescape flags a p).2 := by
  by_cases ha : a = opening
  case pos =>
    cases hbracket : bracketOf flags p with
    | none =>
        refine .inr ⟨fun _ => rfl, items_byte hstar hany ?_⟩
        rw [if_pos ha, hbracket]
    | some bracket =>
        obtain ⟨p', accepts⟩ := bracket
        exact .inl ⟨p', accepts, ha, rfl, ha ▸ items_bracket hbracket⟩
  case neg =>
    refine .inr ⟨fun h => absurd h ha, items_byte hstar hany ?_⟩
    rw [if_neg ha]

/-- An item that is no `*` takes a byte. -/
theorem not_splits_nil {before : List UInt8} {a : UInt8} {p : List UInt8} (hstar : a ≠ asterisk) :
    ¬ Splits (TakesStrict flags) (LeftOver flags) before (items flags (a :: p)) [] := by
  intro h
  by_cases hany : a = question
  case pos =>
    rw [hany, items_any, splits_any] at h
    obtain ⟨c, after, hs, -⟩ := h
    exact nomatch hs
  case neg =>
    rcases @items_cases flags _ p hstar hany with
      ⟨p', accepts, -, -, hitems⟩ | ⟨-, hitems⟩
    · rw [hitems, splits_bracket] at h
      obtain ⟨c, after, hs, -⟩ := h
      exact nomatch hs
    · rw [hitems, splits_byte] at h
      obtain ⟨c, after, hs, -⟩ := h
      exact nomatch hs

/-- Only an `A` to `Z` is folded, and to no other byte than an `a` to `z`. -/
theorem folded_eq (a c : UInt8) (ha : a < 97) (h : fnmEq flags a c = true)
    (hupper : tolower a = a) :
    c = a := by
  unfold fnmEq folded at h
  rw [decide_eq_true_eq] at h
  cases hfold : has flags nxFnmCasefold with
  | false =>
      rw [hfold] at h
      exact h.symm
  | true =>
      rw [hfold, if_pos rfl, if_pos rfl, hupper] at h
      unfold tolower at h
      split at h
      · rename_i hc
        obtain ⟨hle, hge⟩ := hc
        rw [UInt8.le_iff_toNat_le] at hle hge
        rw [UInt8.lt_iff_toNat_lt, h, UInt8.toNat_add] at ha
        have h65 : (65 : UInt8).toNat = 65 := rfl
        have h90 : (90 : UInt8).toNat = 90 := rfl
        have h32 : (32 : UInt8).toNat = 32 := rfl
        have h97 : (97 : UInt8).toNat = 97 := rfl
        omega
      · exact h.symm

/-- A `[` for itself is not what a test before a bracket expression objects to. -/
theorem not_special {before s : List UInt8} {c : UInt8} (h : fnmEq flags opening c = true) :
    (has flags nxFnmPathname && decide (c = slash) || fnmLeadingPeriod flags before (c :: s)) =
      false := by
  obtain rfl : c = opening := folded_eq opening c (by decide) h (by decide)
  have hslash : opening ≠ slash := by decide
  have hperiod : opening ≠ period := by decide
  simp [fnmLeadingPeriod, hslash, hperiod]

theorem unescape_opening (p : List UInt8) : unescape flags opening p = (opening, p) := by
  have hbackslash : opening ≠ backslash := by decide
  simp [unescape, hbackslash]

/-- A byte that does not begin a terminated bracket expression. -/
theorem bracketOf_unterminated {b c : UInt8} {p : List UInt8}
    (h : (if b = opening then fnmClass flags p c else none) = none) :
    (if b = opening then bracketOf flags p else none) = none := by
  split at h
  case isTrue hb => rw [if_pos hb, bracketOf_none h]
  case isFalse hb => rw [if_neg hb]

/-- `nx_fnmatch_impl` finds a split exactly if there is one. -/
theorem nxFnmatchImpl_iff (pat before s : List UInt8) : nxFnmatchImpl flags pat before s = 0 ↔
    Splits (TakesStrict flags) (LeftOver flags) before (items flags pat) s := by
  fun_induction nxFnmatchImpl flags pat before s with
  -- the pattern is over
  | case1 before =>
      rw [items_nil, splits_nil]
      exact iff_of_true rfl (.inl rfl)
  | case2 before s hs hdir =>
      rw [items_nil, splits_nil]
      rw [Bool.and_eq_true, decide_eq_true_eq] at hdir
      exact iff_of_true rfl (.inr hdir)
  | case3 before s hs hdir =>
      rw [items_nil, splits_nil]
      rw [Bool.and_eq_true, decide_eq_true_eq] at hdir
      exact iff_of_false nomatch_ne (not_or.2 ⟨hs, hdir⟩)
  -- stars, with a leading period next, at the end of the pattern, or before more of it
  | case4 before s p hperiod =>
      rw [splits_stars, splits_star]
      exact iff_of_false nomatch_ne fun h => Bool.noConfusion (h.1.symm.trans hperiod)
  | case5 before s p pat' hperiod hempty hpathname =>
      rw [splits_stars, show p.dropWhile _ = [] from hempty, items_nil, splits_last_star]
      exact iff_of_true rfl ⟨by simpa using hperiod, .inl (by simpa using hpathname)⟩
  | case6 before s p pat' hperiod hempty hpathname hslash =>
      rw [splits_stars, show p.dropWhile _ = [] from hempty, items_nil, splits_last_star]
      exact iff_of_true rfl ⟨by simpa using hperiod, .inr (.inl hslash)⟩
  | case7 before s p pat' hperiod hempty hpathname hslash hdir =>
      rw [splits_stars, show p.dropWhile _ = [] from hempty, items_nil, splits_last_star]
      exact iff_of_true rfl ⟨by simpa using hperiod, .inr (.inr hdir)⟩
  | case8 before s p pat' hperiod hempty hpathname hslash hdir =>
      rw [splits_stars, show p.dropWhile _ = [] from hempty, items_nil, splits_last_star]
      exact iff_of_false nomatch_ne fun h => by simp_all
  | case9 before s p pat' hperiod hne ih =>
      rw [splits_stars, splits_star, starLoop_iff]
      simp only [ih]
      exact ⟨fun h => ⟨by simpa using hperiod, h⟩, fun h => h.2⟩
  -- anything but stars takes a byte, so not from the empty string
  | case10 before b p hstar => exact iff_of_false nomatch_ne (not_splits_nil hstar)
  -- a question mark
  | case11 before p c s special hspecial =>
      rw [items_any, splits_any]
      refine iff_of_false nomatch_ne ?_
      rintro ⟨c', after, hs, hsingle, -⟩
      obtain ⟨rfl, rfl⟩ := List.cons.inj hs
      exact Bool.noConfusion ((single_iff.1 hsingle).symm.trans hspecial)
  | case12 before p c s special hspecial _ ih =>
      rw [items_any, splits_any, ih]
      have hsingle : (has flags nxFnmPathname && decide (c = slash) ||
          fnmLeadingPeriod flags before (c :: s)) = false := Bool.eq_false_iff.2 hspecial
      refine ⟨fun h => ⟨c, s, rfl, single_iff.2 hsingle, h⟩, ?_⟩
      rintro ⟨c', after, hs, -, h⟩
      obtain ⟨rfl, rfl⟩ := List.cons.inj hs
      exact h
  -- a bracket, before a byte that no bracket takes
  | case13 before b p hstar c s special hany hspecial =>
      rw [Bool.and_eq_true, decide_eq_true_eq] at hspecial
      obtain ⟨rfl, hspecial⟩ := hspecial
      refine iff_of_false nomatch_ne fun h => ?_
      rcases @items_cases flags _ p hstar hany with
        ⟨p', accepts, -, -, hitems⟩ | ⟨-, hitems⟩
      · rw [hitems, splits_bracket] at h
        obtain ⟨c', after, hs, ⟨-, hsingle⟩, -⟩ := h
        obtain ⟨rfl, rfl⟩ := List.cons.inj hs
        exact Bool.noConfusion ((single_iff.1 hsingle).symm.trans hspecial)
      · rw [hitems, splits_byte, unescape_opening] at h
        obtain ⟨c', after, hs, heq, -⟩ := h
        obtain ⟨rfl, rfl⟩ := List.cons.inj hs
        exact Bool.noConfusion ((not_special heq).symm.trans hspecial)
  -- a bracket that is closed, and accepts the byte or not
  | case14 before b p hstar c s special hany hspecial pat' hclass ih =>
      split at hclass
      case isFalse => exact nomatch hclass
      case isTrue hb =>
        obtain ⟨accepts, hbracket, haccepts⟩ := bracketOf_some hclass
        rw [hb, items_bracket hbracket, splits_bracket, ih]
        rw [hb, decide_eq_true rfl, Bool.true_and] at hspecial
        have hsingle : (has flags nxFnmPathname && decide (c = slash) ||
            fnmLeadingPeriod flags before (c :: s)) = false := Bool.eq_false_iff.2 hspecial
        refine ⟨fun h => ⟨c, s, rfl, ⟨haccepts, single_iff.2 hsingle⟩, h⟩, ?_⟩
        rintro ⟨c', after, hs, -, h⟩
        obtain ⟨rfl, rfl⟩ := List.cons.inj hs
        exact h
  | case15 before b p hstar c s special hany hspecial pat' r hclass hr =>
      split at hclass
      case isFalse => exact nomatch hclass
      case isTrue hb =>
        obtain ⟨accepts, hbracket, haccepts⟩ := bracketOf_some hclass
        rw [hb, items_bracket hbracket, splits_bracket]
        refine iff_of_false nomatch_ne ?_
        rintro ⟨c', after, hs, ⟨haccepts', -⟩, -⟩
        obtain ⟨rfl, rfl⟩ := List.cons.inj hs
        exact hr (haccepts.symm.trans haccepts')
  -- a byte by itself, or a bracket that is never closed
  | case16 before b p hstar c s special hany hspecial hclass next hslash =>
      rw [items_byte hstar hany (bracketOf_unterminated hclass), splits_byte]
      refine iff_of_false nomatch_ne ?_
      rintro ⟨c', after, hs, heq, -⟩
      obtain ⟨rfl, rfl⟩ := List.cons.inj hs
      rw [Bool.and_eq_true, Bool.and_eq_true, decide_eq_true_eq, decide_eq_true_eq] at hslash
      rw [show (unescape flags b p).1 = slash from hslash.1.2] at heq
      exact hslash.2 (folded_eq slash c (by decide) heq (by decide))
  | case17 before b p hstar c s special hany hspecial hclass next hslash heq ih =>
      rw [items_byte hstar hany (bracketOf_unterminated hclass), splits_byte, ih]
      refine ⟨fun h => ⟨c, s, rfl, heq, h⟩, ?_⟩
      rintro ⟨c', after, hs, -, h⟩
      obtain ⟨rfl, rfl⟩ := List.cons.inj hs
      exact h
  | case18 before b p hstar c s special hany hspecial hclass next hslash hne =>
      rw [items_byte hstar hany (bracketOf_unterminated hclass), splits_byte]
      refine iff_of_false nomatch_ne ?_
      rintro ⟨c', after, hs, heq, -⟩
      obtain ⟨rfl, rfl⟩ := List.cons.inj hs
      exact hne heq

/-- `nx_fnmatch` returns 0 exactly for the strings that can be split according to the pattern, with
no `*` where a leading period comes next. -/
theorem fnmatch_iff (pattern string : List UInt8) (flags : BitVec 32) :
    (nxFnmatch (some pattern) (some string) flags).1 = 0 ↔ MatchesStrict flags pattern string :=
  nxFnmatchImpl_iff pattern [] string

/-- A leading period that the pattern has itself, behind a `*` that could be empty. -/
theorem not_fnmatch_iff_star_period :
    ¬ ((nxFnmatch (some [asterisk, period]) (some [period]) nxFnmPeriod).1 = 0 ↔
      Matches nxFnmPeriod [asterisk, period] [period]) := by
  have hitems : items nxFnmPeriod [asterisk, period] = [.star, .byte period] := by
    rw [items_star, items_byte (by decide) (by decide) (by decide)]
    simp [unescape, items_nil]
  have hmatches : Matches nxFnmPeriod [asterisk, period] [period] := by
    unfold Matches
    rw [hitems]
    have hlast : Splits (Takes nxFnmPeriod) (LeftOver nxFnmPeriod) ([] ++ []) [.byte period]
      ([period] ++ []) :=
      .item ⟨period, rfl, by decide⟩ (.done (.inl rfl))
    refine show Splits _ _ [] _ ([] ++ ([period] ++ [])) from
      .item ⟨fun _ => List.not_mem_nil, ?_⟩ hlast
    intro u v h
    obtain ⟨rfl, rfl⟩ := List.append_eq_nil_iff.1 h.symm
    rfl
  intro h
  have hzero := h.2 hmatches
  rw [nxFnmatch, nxFnmatchImpl, if_pos rfl, if_pos (by decide)] at hzero
  exact absurd hzero (by decide)

end Match

end Asnx.Imports.Fnmatch
