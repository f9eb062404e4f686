import Asnx.Jni.Strings

/-!
# Calls of methods

The entries of the `JNIEnv` that `jni_init` of `source/jni_fake.c` installs for `Call<Type>Method`
and `CallStatic<Type>Method`: each in a variadic form, a form with a `va_list` (V) and one with an
array of `jvalue` (A). What a call returns and the state it leaves are a value and an `Env`. A
float and a double are their bit patterns.
-/

namespace Asnx.Jni

/-! ## Arguments -/

/-- An argument list, as each form passes it. A variadic call and a `va_list` have the words of
`words`, behind which lies a word that nobody passed; an array is `NULL` at most when there is no
argument. -/
structure Arguments where
  words : List Word
  beyond : Word
  null : Bool
  nil_of_null : null = true → words = []

/-- `va_arg` for the first argument, or `a[0]` -/
def Arguments.first (args : Arguments) : Word := args.words.headD args.beyond

/-- The first `jvalue` of the array, `none` when the array is `NULL`. -/
def Arguments.array (args : Arguments) : Option Word := if args.null then none else some args.first

/-- A variadic call without arguments. -/
def Arguments.none (beyond : Word) : Arguments := ⟨[], beyond, false, fun _ => rfl⟩

/-- The field `i` of a `jvalue`. -/
def intOf (w : Word) : BitVec 32 := w.setWidth 32

/-! ## Results by name -/

/-- `mid&&mid->name?mid->name:""` -/
def nameOf (mid : Option FakeObj) : CString := (mid.bind FakeObj.name).getD (text "")

/-- `mid&&mid->class_name?mid->class_name:""` -/
def classOf (mid : Option FakeObj) : CString := (mid.bind FakeObj.className).getD (text "")

/-- `trace_log_printf`, as it is when `ENABLE_TRACE_LOG` is 1 -/
def traceLogPrintf (tag line : String) (env : Env) : Env :=
  { env with trace := env.trace ++ [(tag, line)] }

/-- `ANDROID_DATA_DIR` -/
def androidDataDir : CString := text "/data/data/com.dripmissouri.refreshed"

/-- The results of `object_result` for `getSystemService`. -/
def systemService (service : CString) (env : Env) : Word × Env :=
  if service = text "audio" then
    makeObject (text "android/media/AudioManager")
      (traceLogPrintf "ANDROID" "AudioManager getSystemService(audio)" env)
  else makeObject (text "java/lang/Object") env

/-- The results of `object_result` for `getProperty` of the audio manager. -/
def audioProperty (key : CString) (env : Env) : Word × Env :=
  if key = text "android.media.property.OUTPUT_SAMPLE_RATE" then
    jniNewString (text "48000")
      (traceLogPrintf "ANDROID" "AudioManager getProperty OUTPUT_SAMPLE_RATE -> 48000" env)
  else if key = text "android.media.property.OUTPUT_FRAMES_PER_BUFFER" then
    jniNewString (text "1024")
      (traceLogPrintf "ANDROID" "AudioManager getProperty OUTPUT_FRAMES_PER_BUFFER -> 1024" env)
  else (0, env)

/-- A `getProperty` that `object_result` answers for the audio manager. -/
def asksAudioManager (env : Env) (obj : Word) (mid : Option FakeObj) : Bool :=
  classOf mid = text "android/media/AudioManager" ∨
    className env obj = text "android/media/AudioManager"

/-- `object_result`; of the arguments it reads the first. -/
def objectResult (env : Env) (obj : Word) (mid : Option FakeObj) (args : Option Word) :
    Word × Env :=
  let n := nameOf mid
  let cls := classOf mid
  let object := asObj env obj
  let string (w : Option Word) : CString := (w.map (jniStringUtf8 env)).getD (text "")
  if n = text "getApplicationContext" ∨ n = text "getApplication" ∨ n = text "getBaseContext" then
    (env.fakeContextObj, env)
  else if n = text "getPackageName" then
    jniNewString (env.packageName.getD (text "com.dripmissouri.refreshed")) env
  else if n = text "getPackageManager" then makeObject
    (text "android/content/pm/PackageManager") env
  else if n = text "getApplicationInfo" then
    makeObject (text "android/content/pm/ApplicationInfo") env
  else if n = text "getPackageInfo" then makeObject (text "android/content/pm/PackageInfo") env
  else if n = text "getPackageCodePath" ∨ n = text "getPackageResourcePath" ∨
      n = text "getSourceDir" then jniNewString (text "sdmc:/switch/angrybirdas_nx/runtime") env
  else if n = text "getFilesDir" then fileObj
    (text "/data/data/com.dripmissouri.refreshed/files") env
  else if n = text "getCacheDir" then fileObj
    (text "/data/data/com.dripmissouri.refreshed/cache") env
  else if n = text "getExternalFilesDir" then
    fileObj (text "/storage/emulated/0/Android/data/com.dripmissouri.refreshed/files") env
  else if n = text "getAbsolutePath" ∨ n = text "getCanonicalPath" ∨ n = text "getPath" then
    jniNewString ((object.bind FakeObj.name).getD androidDataDir) env
  else if n = text "getClassLoader" then makeObject (text "java/lang/ClassLoader") env
  else if n = text "getAssets" then makeObject (text "android/content/res/AssetManager") env
  else if n = text "getResources" then makeObject (text "android/content/res/Resources") env
  else if n = text "getDisplayMetrics" then makeObject (text "android/util/DisplayMetrics") env
  else if n = text "getSystemService" then systemService (string args) env
  else if n = text "getProperty" ∧ asksAudioManager env obj mid then audioProperty (string args) env
  else if n = text "getWindowManager" then makeObject (text "android/view/WindowManager") env
  else if n = text "getDefaultDisplay" ∨ n = text "getDisplay" then
    makeObject (text "android/view/Display") env
  else if n = text "getWindow" then makeObject (text "android/view/Window") env
  else if n = text "getDecorView" ∨ n = text "getCurrentFocus" then
    makeObject (text "android/view/View") env
  else if n = text "getMainLooper" ∨ n = text "myLooper" then
    makeObject (text "android/os/Looper") env
  else if n = text "getDefault" then makeObject (text "java/util/Locale") env
  else if n = text "getLanguage" then jniNewString (text "en") env
  else if n = text "getCountry" then jniNewString (text "US") env
  else if n = text "getIntent" then makeObject (text "android/content/Intent") env
  else if n = text "getData" ∨ n = text "getExtras" then (0, env)
  else if n = text "toString" then
    jniNewString ((object.bind FakeObj.name).getD ((object.bind FakeObj.className).getD cls)) env
  else if n = text "getName" then jniNewString cls env
  else if n = text "getClass" then makeClass (className env obj) env
  else makeObject (text "java/lang/Object") env

/-- The object at an address, when it is a motion event. -/
def asMotion (env : Env) (obj : Word) : Option FakeMotionEvent :=
  ((asObj env obj).filter fun o => o.kind = .motion).map FakeObj.motion

/-- The results of `int_result` for a motion event. -/
def motionInt (n : CString) (motion : FakeMotionEvent) : Option (BitVec 32) :=
  if n = text "getAction" ∨ n = text "getActionMasked" then some motion.action
  else if n = text "getActionIndex" then some 0
  else if n = text "getActionButton" then some 0
  else if n = text "getPointerCount" then some 1
  else if n = text "getPointerId" then some 0
  else if n = text "getToolType" then some 1
  else if n = text "getSource" then some motion.source
  else if n = text "getButtonState" then some motion.buttonState
  else if n = text "getMetaState" then some motion.metaState
  else if n = text "getDeviceId" ∨ n = text "getDisplayId" ∨ n = text "getFlags" ∨
      n = text "getEdgeFlags" ∨ n = text "getClassification" ∨ n = text "getHistorySize" then some 0
  else none

/-- `int_result`; it does not look at the arguments. -/
def intResult (env : Env) (obj : Word) (mid : Option FakeObj) : BitVec 32 :=
  let n := nameOf mid
  let object := asObj env obj
  match (asMotion env obj).bind (motionInt n) with
  | some i => i
  | none =>
    if n = text "getWidth" then env.androidWidth
    else if n = text "getHeight" then env.androidHeight
    else if n = text "getRotation" then 0
    else if n = text "hashCode" then (obj >>> 4).setWidth 32
    else
      match object with
      | none => 0
      | some o =>
        if n = text "size" ∧ o.kind = .array then o.size.setWidth 32
        else if n = text "length" ∧ o.kind = .array then o.size.setWidth 32
        else if n = text "length" ∧ o.kind = .string then
          BitVec.ofNat 32 (utf16LengthUtf8 (o.name.getD (text "")))
        else 0

/-- `long_result`; it does not look at the arguments. -/
def longResult (env : Env) (obj : Word) (mid : Option FakeObj) : Word :=
  let n := nameOf mid
  match asMotion env obj with
  | none => 0
  | some motion =>
    if n = text "getEventTime" then motion.eventTimeMs
    else if n = text "getDownTime" then motion.downTimeMs
    else 0

/-- `1.0f` -/
def oneFloat : BitVec 32 := 0x3f800000

/-- `motion_axis_value` -/
def motionAxisValue (motion : FakeMotionEvent) (axis : BitVec 32) : BitVec 32 :=
  if axis = 0 then motion.x
  else if axis = 1 then motion.y
  else if axis = 2 then motion.pressure
  else if axis = 3 then motion.size
  else if axis = 4 ∨ axis = 5 ∨ axis = 6 ∨ axis = 7 then motion.size
  else 0

/-- `float_result`; of the arguments it reads the first. -/
def floatResult (env : Env) (obj : Word) (mid : Option FakeObj) (args : Option Word) : BitVec 32 :=
  let n := nameOf mid
  let rest : BitVec 32 := if n = text "getDensity" then oneFloat else 0
  match asMotion env obj with
  | none => rest
  | some motion =>
    if n = text "getX" ∨ n = text "getRawX" then motion.x
    else if n = text "getY" ∨ n = text "getRawY" then motion.y
    else if n = text "getPressure" then motion.pressure
    else if n = text "getSize" then motion.size
    else if n = text "getXPrecision" ∨ n = text "getYPrecision" then oneFloat
    else if n = text "getAxisValue" then motionAxisValue motion ((args.map intOf).getD 0)
    else rest

/-- The conversion of a float to a double. -/
def toDouble (f : BitVec 32) : Word :=
  let sign := f.toNat / 2 ^ 31
  let exponent := f.toNat / 2 ^ 23 % 2 ^ 8
  let fraction := f.toNat % 2 ^ 23
  let magnitude :=
    if exponent = 255 then
      2047 * 2 ^ 52 + (if fraction = 0 then 0 else 2 ^ 51 + fraction % 2 ^ 22 * 2 ^ 29)
    else if exponent ≠ 0 then (exponent + 896) * 2 ^ 52 + fraction * 2 ^ 29
    else if fraction = 0 then 0
    else
      -- a subnormal float is a normal double: its highest one becomes the implicit one
      let high := fraction.log2
      (high + 874) * 2 ^ 52 + (fraction - 2 ^ high) * 2 ^ (52 - high)
  BitVec.ofNat 64 (sign * 2 ^ 63 + magnitude)

/-! ## The entries -/

/-- What an entry returns. -/
inductive Value where
  | pointer (p : Word)
  | int (i : BitVec 32)
  | long (j : Word)
  | float (f : BitVec 32)
  | double (d : Word)
  | void
  deriving DecidableEq, Repr

/-- An entry: the state, the object or class, the method and the arguments. -/
abbrev Handler := Env → Word → Word → Arguments → Value × Env

/-- `j_stub_u` -/
def jStubU : Handler := fun env _ _ _ => (.long 0, env)
/-- `j_stub_v` -/
def jStubV : Handler := fun env _ _ _ => (.void, env)
/-- `j_stub_f` -/
def jStubF : Handler := fun env _ _ _ => (.float 0, env)
/-- `j_stub_d` -/
def jStubD : Handler := fun env _ _ _ => (.double 0, env)

/-- A pointer as the value of an entry. -/
def returnPointer (r : Word × Env) : Value × Env := (.pointer r.1, r.2)

/-- `object_call_needs_arg0` -/
def objectCallNeedsArg0 (mid : Option FakeObj) : Bool :=
  nameOf mid = text "getSystemService" ∨ nameOf mid = text "getProperty"

/-- `j_CallObject` -/
def jCallObject : Handler := fun env o m args =>
  let id := asObj env m
  returnPointer (objectResult env o id (if objectCallNeedsArg0 id then some args.first else none))

/-- `j_CallObjectV` -/
def jCallObjectV : Handler := fun env o m args =>
  let id := asObj env m
  returnPointer (objectResult env o id (if objectCallNeedsArg0 id then some args.first else none))

/-- `j_CallObjectA` -/
def jCallObjectA : Handler := fun env o m args =>
  returnPointer (objectResult env o (asObj env m) args.array)

/-- `j_CallInt`, `j_CallIntV` and `j_CallIntA` -/
def jCallInt : Handler := fun env o m _ => (.int (intResult env o (asObj env m)), env)
def jCallIntV : Handler := fun env o m _ => (.int (intResult env o (asObj env m)), env)
def jCallIntA : Handler := fun env o m _ => (.int (intResult env o (asObj env m)), env)

/-- `j_CallLong`, `j_CallLongV` and `j_CallLongA` -/
def jCallLong : Handler := fun env o m _ => (.long (longResult env o (asObj env m)), env)
def jCallLongV : Handler := fun env o m _ => (.long (longResult env o (asObj env m)), env)
def jCallLongA : Handler := fun env o m _ => (.long (longResult env o (asObj env m)), env)

/-- The float that `j_CallFloat` returns. -/
def callFloat (env : Env) (o m : Word) (args : Arguments) : BitVec 32 :=
  let id := asObj env m
  floatResult env o id (if nameOf id = text "getAxisValue" then some args.first else none)

/-- The float that `j_CallFloatV` returns. -/
def callFloatV (env : Env) (o m : Word) (args : Arguments) : BitVec 32 :=
  let id := asObj env m
  floatResult env o id (if nameOf id = text "getAxisValue" then some args.first else none)

/-- The float that `j_CallFloatA` returns. -/
def callFloatA (env : Env) (o m : Word) (args : Arguments) : BitVec 32 :=
  floatResult env o (asObj env m) args.array

/-- `j_CallFloat`, `j_CallFloatV` and `j_CallFloatA` -/
def jCallFloat : Handler := fun env o m args => (.float (callFloat env o m args), env)
def jCallFloatV : Handler := fun env o m args => (.float (callFloatV env o m args), env)
def jCallFloatA : Handler := fun env o m args => (.float (callFloatA env o m args), env)

/-- `j_CallDouble`: it calls `j_CallFloat` without arguments. -/
def jCallDouble : Handler := fun env o m args =>
  (.double (toDouble (callFloat env o m (Arguments.none args.beyond))), env)

/-- `j_CallDoubleV` and `j_CallDoubleA` -/
def jCallDoubleV : Handler := fun env o m args =>
    (.double (toDouble (callFloatV env o m args)), env)
def jCallDoubleA : Handler := fun env o m args =>
    (.double (toDouble (callFloatA env o m args)), env)

/-- `j_CallVoid` -/
def jCallVoid : Handler := fun env _ m _ =>
  let n := nameOf (asObj env m)
  (.void, if n = text "finish" ∨ n = text "quit" then { env with quitRequested := true } else env)

/-- `j_is_class_for_name` -/
def jIsClassForName (mid : Option FakeObj) : Bool := nameOf mid = text "forName"

/-- `j_is_motion_obtain` -/
def jIsMotionObtain (mid : Option FakeObj) : Bool :=
  nameOf mid = text "obtain" ∧
    (classOf mid = text "android/view/MotionEvent" ∨
      mid.bind FakeObj.sig = some (text "(Landroid/view/MotionEvent;)Landroid/view/MotionEvent;"))

/-- `MOTION_CLONE_SLOTS` -/
def motionCloneSlots : Nat := 8

/-- A motion event is copied into the one at an address. -/
def copyMotion (env : Env) (dst : Word) (motion : FakeMotionEvent) : Env :=
  match env.heap dst with
  | some o => env.put dst { o with motion := motion }
  | none => env

/-- `motion_event_obtain_clone` -/
def motionEventObtainClone (env : Env) (src : Word) : Word × Env :=
  match asMotion env src with
  | none => (0, env)
  | some motion =>
    let slot := env.nextSlot.toNat % motionCloneSlots
    let env := { env with nextSlot := env.nextSlot + 1 }
    let (dst, env) :=
      if env.pool slot = 0 then
        let (dst, env) := objNew .motion (some (text "android/view/MotionEvent")) none none env
        (dst, { env with pool := fun k => if k = slot then dst else env.pool k })
      else (env.pool slot, env)
    if dst = 0 then (0, env) else (dst, copyMotion env dst motion)

/-- `j_class_for_name` -/
def jClassForName (env : Env) (nameObj : Word) : Word × Env :=
  let src := jniStringUtf8 env nameObj
  if src = text "" then makeClass (text "java/lang/Object") env
  else
    let (norm, env) := malloc env
    if norm = 0 then makeClass (text "java/lang/Object") env
    else makeClass (cString (src.bytes.map fun b => if b = 46 then 47 else b)) env

/-- `j_CallStaticObject` -/
def jCallStaticObject : Handler := fun env c m args =>
  let mid := asObj env m
  if jIsClassForName mid then returnPointer (jClassForName env args.first)
  else if jIsMotionObtain mid then returnPointer (motionEventObtainClone env args.first)
  else returnPointer (objectResult env c mid none)

/-- `j_CallStaticObjectV` -/
def jCallStaticObjectV : Handler := fun env c m args =>
  let mid := asObj env m
  if jIsClassForName mid then returnPointer (jClassForName env args.first)
  else if jIsMotionObtain mid then returnPointer (motionEventObtainClone env args.first)
  else returnPointer (objectResult env c mid none)

/-- `j_CallStaticObjectA` -/
def jCallStaticObjectA : Handler := fun env c m args =>
  let mid := asObj env m
  if jIsClassForName mid then returnPointer (jClassForName env (args.array.getD 0))
  else if jIsMotionObtain mid then returnPointer (motionEventObtainClone env (args.array.getD 0))
  else returnPointer (objectResult env c mid args.array)

/-- `j_CallStaticInt`, `j_CallStaticIntV` and `j_CallStaticIntA` -/
def jCallStaticInt : Handler := fun env c m _ => (.int (intResult env c (asObj env m)), env)
def jCallStaticIntV : Handler := jCallStaticInt
def jCallStaticIntA : Handler := jCallStaticInt

/-- `j_CallStaticLong` -/
def jCallStaticLong : Handler := fun env c m _ => (.long (longResult env c (asObj env m)), env)

/-- `j_CallStaticFloat` -/
def jCallStaticFloat : Handler := fun env c m _ =>
    (.float (floatResult env c (asObj env m) none), env)

/-- `j_CallStaticDouble` -/
def jCallStaticDouble : Handler := fun env c m _ =>
  (.double (toDouble (floatResult env c (asObj env m) none)), env)

/-- `j_is_system_load_library` -/
def jIsSystemLoadLibrary (mid : Option FakeObj) : Bool :=
  classOf mid = text "java/lang/System" ∧ nameOf mid = text "loadLibrary"

/-- `j_CallStaticVoid`, `j_CallStaticVoidV` and `j_CallStaticVoidA`: `j_system_load_library` has no
effect. -/
def jCallStaticVoid : Handler := fun env _ _ _ => (.void, env)
def jCallStaticVoidV : Handler := fun env _ _ _ => (.void, env)
def jCallStaticVoidA : Handler := fun env _ _ _ => (.void, env)

/-! ## The table -/

/-- The types of the calls. -/
inductive CallType where
  | object
  | int
  | long
  | float
  | double
  | void
  deriving DecidableEq, Repr

/-- The forms of a call. -/
inductive Form where
  | variadic
  | vaList
  | jvalues
  deriving DecidableEq, Repr

/-- The slots of `g_env_table` for these calls, as `jni_init` sets them. -/
def gEnvTable : Nat → Handler
  | 34 => jCallObject
  | 35 => jCallObjectV
  | 36 => jCallObjectA
  | 49 => jCallInt
  | 50 => jCallIntV
  | 51 => jCallIntA
  | 52 => jCallLong
  | 53 => jCallLongV
  | 54 => jCallLongA
  | 55 => jCallFloat
  | 56 => jCallFloatV
  | 57 => jCallFloatA
  | 58 => jCallDouble
  | 59 => jCallDoubleV
  | 60 => jCallDoubleA
  | 61 => jCallVoid
  | 62 => jStubV
  | 63 => jStubV
  | 114 => jCallStaticObject
  | 115 => jCallStaticObjectV
  | 116 => jCallStaticObjectA
  | 129 => jCallStaticInt
  | 130 => jCallStaticIntV
  | 131 => jCallStaticIntA
  | 132 => jCallStaticLong
  | 133 => jStubU
  | 134 => jStubU
  | 135 => jCallStaticFloat
  | 136 => jStubF
  | 137 => jStubF
  | 138 => jCallStaticDouble
  | 139 => jStubD
  | 140 => jStubD
  | 141 => jCallStaticVoid
  | 142 => jCallStaticVoidV
  | 143 => jCallStaticVoidA
  | _ => jStubU

/-- The first slot of `Call<Type>Method` and of `CallStatic<Type>Method` in a `JNIEnv`. -/
def firstSlot (isStatic : Bool) : CallType → Nat
  | .object => if isStatic then 114 else 34
  | .int => if isStatic then 129 else 49
  | .long => if isStatic then 132 else 52
  | .float => if isStatic then 135 else 55
  | .double => if isStatic then 138 else 58
  | .void => if isStatic then 141 else 61

/-- How far behind it a form is. -/
def Form.offset : Form → Nat
  | .variadic => 0
  | .vaList => 1
  | .jvalues => 2

/-- A call through the table. -/
def call (isStatic : Bool) (type : CallType) (form : Form) : Handler :=
  gEnvTable (firstSlot isStatic type + form.offset)

end Asnx.Jni
