import Asnx.Library.Files
import Mathlib.Data.List.TakeWhile

/-!
# Fake Java objects

The objects of `source/jni_fake.c` and the functions that make them. A pointer is a word, and
`NULL` is 0. What `malloc` and `calloc` return is given in advance, 0 where an allocation fails, so
that two calls from one state meet the same allocations. The pointers of an object to memory of
other owners and the fields that no modelled function reads are left out.
-/

namespace Asnx.Jni

open Files

/-- A 64-bit word: a pointer, or what is passed for an argument. -/
abbrev Word := BitVec 64

/-! ## C strings -/

/-- A C string without its terminator. -/
structure CString where
  bytes : Bytes
  nonzero : 0 ∉ bytes
  deriving DecidableEq

/-- The C string that a buffer starts with. -/
def cString (buffer : Bytes) : CString :=
  ⟨buffer.takeWhile fun b => b ≠ 0, fun h => by simpa using List.mem_takeWhile_imp h⟩

/-- A string constant. -/
def text (s : String) : CString := cString (Files.bytes s)

/-- A zero-free buffer is one C string. -/
theorem cString_bytes {buffer : Bytes} (h : 0 ∉ buffer) : (cString buffer).bytes = buffer := by
  refine List.takeWhile_eq_self_iff.2 fun b hb => ?_
  rw [decide_eq_true_eq]
  exact fun hb0 => h (hb0 ▸ hb)

/-- The `FK_` constants. -/
inductive Kind where
  | classObject
  | object
  | string
  | method
  | field
  | direct
  | array
  | motion
  deriving DecidableEq, Repr

/-- `FakeMotionEvent`; a float is its bit pattern. -/
structure FakeMotionEvent where
  action : BitVec 32
  x : BitVec 32
  y : BitVec 32
  pressure : BitVec 32
  size : BitVec 32
  source : BitVec 32
  buttonState : BitVec 32
  metaState : BitVec 32
  downTimeMs : Word
  eventTimeMs : Word
  deriving DecidableEq, Repr

/-- `FakeObj` -/
structure FakeObj where
  kind : Kind
  className : Option CString
  name : Option CString
  sig : Option CString
  size : Word
  motion : FakeMotionEvent
  deriving DecidableEq

/-- A motion event of zeros. -/
def noMotion : FakeMotionEvent := ⟨0, 0, 0, 0, 0, 0, 0, 0, 0, 0⟩

/-- `MAX_FAKE` -/
def maxFake : Nat := 4096

/-- The state of `jni_fake.c` and what it reads of other modules. `heap` has the objects by their
address, that is the memory with `F_MAGIC` in front. `allocated k` is what the allocation number `k`
returns and `allocations` how many there have been. -/
structure Env where
  heap : Word → Option FakeObj
  allocated : Nat → Word
  allocations : Nat
  gObjs : List Word
  quitRequested : Bool
  pool : Nat → Word
  nextSlot : BitVec 32
  trace : List (String × String)
  fakeContextObj : Word
  packageName : Option CString
  androidWidth : BitVec 32
  androidHeight : BitVec 32

/-- `as_obj` -/
def asObj (env : Env) (p : Word) : Option FakeObj := if p = 0 then none else env.heap p

/-- `malloc` or `calloc`: the address, 0 on failure. -/
def malloc (env : Env) : Word × Env :=
  (env.allocated env.allocations, { env with allocations := env.allocations + 1 })

/-- `xstrdup`, `NULL` on failure. -/
def xstrdup (s : CString) (env : Env) : Option CString × Env :=
  let (p, env) := malloc env
  (if p = 0 then none else some s, env)

/-- `s?xstrdup(s):NULL` -/
def copyOf (s : Option CString) (env : Env) : Option CString × Env :=
  match s with
  | none => (none, env)
  | some s => xstrdup s env

/-- An object is written to its address. -/
def Env.put (env : Env) (p : Word) (o : FakeObj) : Env :=
  { env with heap := fun q => if q = p then some o else env.heap q }

/-- `if(g_obj_count<MAX_FAKE)g_objs[g_obj_count++]=o;` -/
def Env.register (env : Env) (p : Word) : Env :=
  if env.gObjs.length < maxFake then { env with gObjs := env.gObjs ++ [p] } else env

/-- `obj_new` -/
def objNew (kind : Kind) (cls name sig : Option CString) (env : Env) : Word × Env :=
  let (p, env) := malloc env
  if p = 0 then (0, env)
  else
    let (cls, env) := copyOf cls env
    let (name, env) := copyOf name env
    let (sig, env) := copyOf sig env
    (p, (env.put p ⟨kind, cls, name, sig, 0, noMotion⟩).register p)

/-- `make_object` -/
def makeObject (cls : CString) (env : Env) : Word × Env := objNew .object (some cls) none none env

/-- `make_class` -/
def makeClass (cls : CString) (env : Env) : Word × Env :=
  objNew .classObject (some cls) (some cls) none env

/-- `file_obj` -/
def fileObj (path : CString) (env : Env) : Word × Env :=
  objNew .object (some (text "java/io/File")) (some path) none env

/-- `class_name` -/
def className (env : Env) (p : Word) : CString :=
  ((asObj env p).bind FakeObj.className).getD (text "java/lang/Object")

/-- `jni_new_string`; every caller passes a string. -/
def jniNewString (s : CString) (env : Env) : Word × Env :=
  objNew .string (some (text "java/lang/String")) (some s) none env

/-- `jni_string_utf8` -/
def jniStringUtf8 (env : Env) (p : Word) : CString :=
  match asObj env p with
  | some o => if o.kind = .string then o.name.getD (text "") else text ""
  | none => text ""

/-- What the string object at an address holds. -/
theorem jniStringUtf8_of_string {env : Env} {p : Word} {o : FakeObj} {s : CString}
    (ho : asObj env p = some o) (hkind : o.kind = .string) (hname : o.name = some s) :
    jniStringUtf8 env p = s := by
  unfold jniStringUtf8
  rw [ho]
  dsimp only
  rw [if_pos hkind, hname, Option.getD_some]

/-! ## Objects that are made -/

/-- All allocations from now on succeed. -/
def Env.Plenty (env : Env) : Prop := ∀ k, env.allocations ≤ k → env.allocated k ≠ 0

/-- An allocation of a heap that has enough. -/
theorem Env.Plenty.malloc {env : Env} (h : env.Plenty) :
    (Jni.malloc env).1 ≠ 0 ∧ (Jni.malloc env).2.Plenty :=
  ⟨h _ (Nat.le_refl _), fun k hk => h k (Nat.le_trans (Nat.le_succ _) hk)⟩

/-- Copies of strings succeed. -/
theorem Env.Plenty.copyOf {env : Env} (h : env.Plenty) (s : Option CString) :
    (Jni.copyOf s env).1 = s ∧ (Jni.copyOf s env).2.Plenty := by
  cases s with
  | none => exact ⟨rfl, h⟩
  | some s => exact ⟨if_neg h.malloc.1, h.malloc.2⟩

/-- A registration leaves the objects alone. -/
@[simp] theorem Env.register_heap (env : Env) (p : Word) : (env.register p).heap = env.heap := by
  unfold Env.register
  split
  · rfl
  · rfl

/-- A registration takes no memory. -/
theorem Env.Plenty.register {env : Env} (h : env.Plenty) (p : Word) : (env.register p).Plenty := by
  unfold Env.register
  split
  · exact h
  · exact h

/-- There is enough left behind `obj_new`. -/
theorem Env.Plenty.objNew {env : Env} (h : env.Plenty) (kind : Kind)
    (cls name sig : Option CString) : (Jni.objNew kind cls name sig env).2.Plenty := by
  have hcls := h.malloc.2.copyOf cls
  have hname := hcls.2.copyOf name
  have hsig := hname.2.copyOf sig
  unfold Jni.objNew
  dsimp only
  rw [if_neg h.malloc.1]
  exact @Env.Plenty.register (Env.put _ _ _) hsig.2 _

/-- The object that `obj_new` makes. -/
theorem asObj_objNew {env : Env} (h : env.Plenty) (kind : Kind) (cls name sig : Option CString) :
    asObj (objNew kind cls name sig env).2 (objNew kind cls name sig env).1 =
      some ⟨kind, cls, name, sig, 0, noMotion⟩ := by
  obtain ⟨hp, hmalloc⟩ := h.malloc
  obtain ⟨hcls, hmalloc⟩ := hmalloc.copyOf cls
  obtain ⟨hname, hmalloc⟩ := hmalloc.copyOf name
  obtain ⟨hsig, -⟩ := hmalloc.copyOf sig
  unfold objNew
  dsimp only
  rw [if_neg hp, hcls, hname, hsig]
  unfold asObj
  dsimp only
  rw [if_neg hp, Env.register_heap]
  exact if_pos rfl

end Asnx.Jni
