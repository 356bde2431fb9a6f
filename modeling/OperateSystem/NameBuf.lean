import OperateSystem.Getcwd
import OperateSystem.Paths

/-!
# The array for a path's names

`path_parse` stores a name without a NUL and without looking at the length of the
caller's array. Its three callers in a loop are modelled here on the bytes of
that array, with the calls of `path_parse` that they make: a run that is cut short by a
store outside the array still has made them.
-/

namespace OperateSystem

/-! ## `path_parse` -/

def storeName : List UInt8 → Nat → Mem → Exec Mem
  | [], _, name => .ok name
  | c :: pathname, k, name =>
    if c = slash then .ok name
    else do
      inBounds (k < 16)
      storeName pathname (k + 1) (Function.update name k c)

/-- `path_parse` with the array `name` of 16 bytes behind `name_store`. -/
def pathParseInto (pathname : List UInt8) (name : Mem) : Exec (Mem × Option (List UInt8)) := do
  let p := pathname.dropWhile (· = slash)
  let name ← storeName p 0 name
  let rest := p.dropWhile (· ≠ slash)
  return (name, if rest = [] then none else some rest)

structure ParseCall where
  pathname : List UInt8
  name : Mem

def ParseCall.Fits (c : ParseCall) : Prop :=
  ∃ name rest, pathParseInto c.pathname c.name = .ok (name, rest) ∧ ∃ j < 16, name j = 0

def cString (name : Mem) : Exec (List UInt8) := do
  inBounds (0 ∈ (List.range 16).map name)
  return ((List.range 16).map name).takeWhile (· ≠ 0)

/-! ## Runs with their calls -/

/-- What a run returns, and the calls of `path_parse` it makes. -/
structure Traced (α : Type) where
  calls : List ParseCall
  result : Exec α

namespace Traced

variable {α β : Type}

def bind (x : Traced α) (f : α → Traced β) : Traced β :=
  match x.result with
  | .ok a => ⟨x.calls ++ (f a).calls, (f a).result⟩
  | .error e => ⟨x.calls, .error e⟩

instance : Monad Traced where
  pure a := ⟨[], .ok a⟩
  bind := bind

def lift (x : Exec α) : Traced α := ⟨[], x⟩

def parse (pathname : List UInt8) (name : Mem) : Traced (Mem × Option (List UInt8)) :=
  ⟨[⟨pathname, name⟩], pathParseInto pathname name⟩

@[simp] theorem calls_pure (a : α) : (pure a : Traced α).calls = [] := rfl

@[simp] theorem result_pure (a : α) : (pure a : Traced α).result = .ok a := rfl

@[simp] theorem calls_lift (x : Exec α) : (lift x).calls = [] := rfl

@[simp] theorem result_lift (x : Exec α) : (lift x).result = x := rfl

@[simp] theorem ok_bind (calls : List ParseCall) (a : α) (f : α → Traced β) :
    (⟨calls, .ok a⟩ >>= f : Traced β) = ⟨calls ++ (f a).calls, (f a).result⟩ := rfl

@[simp] theorem error_bind (calls : List ParseCall) (e : Fault) (f : α → Traced β) :
    (⟨calls, .error e⟩ >>= f : Traced β) = ⟨calls, .error e⟩ := rfl

@[simp] theorem lift_ok_bind (a : α) (f : α → Traced β) : lift (.ok a) >>= f = f a := rfl

@[simp] theorem lift_error_bind (e : Fault) (f : α → Traced β) : lift (.error e) >>= f = ⟨[], .error e⟩ := rfl

@[simp] theorem result_bind (x : Traced α) (f : α → Traced β) :
    (x >>= f).result = x.result >>= fun a => (f a).result := by
  obtain ⟨calls, x⟩ := x
  cases x <;> rfl

end Traced

open Traced (parse lift)

/-- All three loops end their rounds so. -/
def nextName (sub : Option (List UInt8)) : Traced (Mem × Option (List UInt8)) :=
  match sub with
  | none => pure (fun _ => 0, none)
  | some p => parse p fun _ => 0

/-! ## The callers -/

def depthLoop : Nat → Mem → Option (List UInt8) → Nat → Traced Nat
  | 0, _, _, depth => pure depth
  | n + 1, name, p, depth =>
    if name 0 = 0 then pure depth
    else do
      let (name, p) ← nextName p
      depthLoop n name p (depth + 1)

def pathDepthCntInto (pathname : List UInt8) (old : Mem) : Traced Nat := do
  let (name, p) ← parse pathname old
  depthLoop (pathname.length + 1) name p 0

def washLoop : Nat → List UInt8 → Mem → Option (List UInt8) → Traced (List UInt8)
  | 0, newAbsPath, _, _ => pure newAbsPath
  | n + 1, newAbsPath, name, sub =>
    if name 0 = 0 then pure newAbsPath
    else do
      let string ← lift (cString name)
      let (name, sub) ← nextName sub
      washLoop n (washStep newAbsPath string) name sub

def washPathInto (b : Build) (oldAbsPath : List UInt8) : Traced (List UInt8) := do
  lift (assert b (oldAbsPath.head? = some slash) "old_abs_path[0] == '/'")
  let (name, sub) ← parse oldAbsPath fun _ => 0
  if name 0 = 0 then
    return [slash]
  washLoop (oldAbsPath.length + 1) [slash] name sub

def leftNames (sub : Option (List UInt8)) : List (List UInt8) := (sub.map names).getD []

section
variable {part : Partition}

/-- The loop of `search_file`. Without a name it ends like `searchLoop`. -/
def searchLoopInto (b : Build) (mem : Nat → Bool) :
    Nat → Mem → Option (List UInt8) → Searching part → Traced (Fs part × PathSearchRecord × UInt32)
  | 0, _, _, st => lift (searchLoop b mem [] st)
  | n + 1, name, sub, st =>
    if name 0 = 0 then lift (searchLoop b mem [] st)
    else do
      lift (assert b (st.searchedPath.length < 512) "strlen(searched_record->searched_path) < 512")
      let string ← lift (cString name)
      let searchedPath := st.searchedPath ++ slash :: string
      let c ← lift (st.fs.cached st.parentDir.inode)
      match ← lift (searchDirEntry b st.fs.vol.disk c.inode string (mem (leftNames sub).length) fun _ => 0) with
      | none => return (st.fs, ⟨searchedPath, st.parentDir, 0⟩, -1)
      | some e =>
        let (name, sub) ← nextName sub
        if e.fType = ftDirectory then
          let fs ← lift (st.fs.dirClose b st.parentDir)
          let (fs, parentDir) ← lift (fs.dirOpen b e.iNo)
          searchLoopInto b mem n name sub ⟨fs, parentDir, c.inode.iNo, searchedPath, e.iNo⟩
        else if e.fType = ftRegular then
          return (st.fs, ⟨searchedPath, st.parentDir, ftRegular⟩, e.iNo)
        else searchLoopInto b mem n name sub { st with searchedPath, iNo := e.iNo }

def searchFileInto (b : Build) (s : Fs part) (pathname : List UInt8) (mem : Nat → Bool) (old : UInt32) :
    Traced (Fs part × PathSearchRecord × UInt32) :=
  if pathname ∈ rootPaths then return (s, ⟨[], s.rootPtr, ftDirectory⟩, 0)
  else do
    lift (assert b (pathname.head? = some slash ∧ 1 < pathname.length ∧ pathname.length < 512)
      "pathname[0] == '/' && path_len > 1 && path_len < MAX_PATH_LEN")
    let (name, sub) ← parse pathname fun _ => 0
    searchLoopInto b mem (pathname.length + 1) name sub ⟨s, s.rootPtr, 0, [], old⟩

end

end OperateSystem
