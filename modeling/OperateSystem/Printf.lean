import OperateSystem.TaskName

/-!
# Formatted output

`itoa`, `vsprintf` and `sprintf` of `lib/stdio.c`, and `pad_print` of
`thread/thread.c`. A buffer has a size, and a store or a walk to the NUL that
leaves it is out of bounds.
-/

namespace OperateSystem

/-! ## `vsprintf` -/

/-- What a word of the argument list is used as: a number, a character or the address of a string. -/
inductive VaArg where
  | word (w : UInt32)
  | str (text : List UInt8)

def digit (m : Nat) : UInt8 := if m < 10 then .ofNat (m + 48) else .ofNat (m - 10 + 65)

/-- The characters that `itoa` stores, in their order. -/
def itoa (base : Nat) (hbase : 1 < base) (value : Nat) : List UInt8 :=
  (if value / base = 0 then [] else itoa base hbase (value / base)) ++ [digit (value % base)]
termination_by value
decreasing_by
  rename_i h
  exact Nat.div_lt_self (Nat.pos_of_ne_zero fun e => h (by rw [e, Nat.zero_div])) hbase

def putBytes (buf : Mem) (bufPtr : Nat) (bytes : List UInt8) : Mem := fun k =>
  if bufPtr ≤ k then bytes.getD (k - bufPtr) (buf k) else buf k

/-- Stores at `buf_ptr`, which then moves on by `n`; `strcpy` stores a NUL that `n` does not count. -/
def emit (size : Nat) (buf : Mem) (bufPtr : Nat) (bytes : List UInt8) (n : Nat) : Exec (Mem × Nat) := do
  inBounds (bufPtr + bytes.length ≤ size)
  return (putBytes buf bufPtr bytes, bufPtr + n)

inductive Conversion where
  | s
  | c
  | d
  | x
  deriving DecidableEq

def Conversion.ofChar (indexChar : UInt8) : Option Conversion :=
  if indexChar = 115 then some .s
  else if indexChar = 99 then some .c
  else if indexChar = 100 then some .d
  else if indexChar = 120 then some .x
  else none

def convert (size : Nat) (buf : Mem) (bufPtr : Nat) : Conversion → VaArg → Exec (Mem × Nat)
  | .s, .str text => emit size buf bufPtr (text ++ [0]) text.length
  | .c, .word w => emit size buf bufPtr [w.toUInt8] 1
  | .d, .word w =>
    let argInt := w.toInt32
    let bytes := if argInt < 0 then 45 :: itoa 10 (by decide) (0 - argInt).toUInt32.toNat else itoa 10 (by decide) argInt.toUInt32.toNat
    emit size buf bufPtr bytes bytes.length
  | .x, .word w =>
    let bytes := itoa 16 (by decide) w.toNat
    emit size buf bufPtr bytes bytes.length
  -- the argument is not what the conversion expects
  | _, _ => .error .outOfBounds

/-- A character behind `%` that is no conversion is handled as if the `%` were not there. -/
def vsprintfLoop (size : Nat) : List UInt8 → List VaArg → Mem → Nat → Exec Mem
  | [], _, buf, _ => .ok buf
  | [indexChar], _, buf, bufPtr =>
    if indexChar ≠ 37 then do
      let (buf, _) ← emit size buf bufPtr [indexChar] 1
      return buf
    else .ok buf
  | indexChar :: next :: format, args, buf, bufPtr =>
    if indexChar ≠ 37 then do
      let (buf, bufPtr) ← emit size buf bufPtr [indexChar] 1
      vsprintfLoop size (next :: format) args buf bufPtr
    else
      match Conversion.ofChar next, args with
      | none, args => vsprintfLoop size (next :: format) args buf bufPtr
      | some _, [] => .error .outOfBounds
      | some conv, arg :: args => do
        let (buf, bufPtr) ← convert size buf bufPtr conv arg
        vsprintfLoop size format args buf bufPtr

def vsprintf (size : Nat) (str : Mem) (format : List UInt8) (args : List VaArg) : Exec (Mem × Nat) := do
  let buf ← vsprintfLoop size format args str 0
  let len ← strlen buf size 0
  return (buf, len)

def sprintf (size : Nat) (buf : Mem) (format : List UInt8) (args : List VaArg) : Exec (Mem × Nat) := vsprintf size buf format args

/-! ## `pad_print` -/

inductive PadFormat where
  | s (text : List UInt8)
  | d (ptr : Mem)
  | x (ptr : Mem)

def int16At (ptr : Mem) : UInt32 := (UInt16.ofNat ((ptr 0).toNat + 256 * (ptr 1).toNat)).toInt16.toInt32.toUInt32

/-- The loop over `out_pad_0idx`, of type `uint8_t`; `none` if it has not ended. -/
def padLoop (bufLen : Nat) : Nat → UInt8 → Mem → Option Mem
  | 0, _, _ => none
  | n + 1, outPad0idx, buf =>
    if outPad0idx.toNat < bufLen then padLoop bufLen n (outPad0idx + 1) (Function.update buf outPad0idx.toNat 32) else some buf

def padRest (bufLen : Nat) (printed : Mem × Nat) : Option (List UInt8) :=
  (padLoop bufLen 256 (.ofNat printed.2) printed.1).map fun buf => (List.range (bufLen - 1)).map buf

/-- What `pad_print` passes to `sys_write`. The case `'d'` goes on with the case `'x'`. -/
def padPrint (buf : Mem) (bufLen : Nat) : PadFormat → Exec (Option (List UInt8))
  | .s text => do
    let r ← sprintf bufLen (fill buf 0 bufLen 0) [37, 115] [.str text]
    return padRest bufLen r
  | .d ptr => do
    let r ← sprintf bufLen (fill buf 0 bufLen 0) [37, 100] [.word (int16At ptr)]
    let r ← sprintf bufLen r.1 [37, 120] [.word (word ptr 0)]
    return padRest bufLen r
  | .x ptr => do
    let r ← sprintf bufLen (fill buf 0 bufLen 0) [37, 120] [.word (word ptr 0)]
    return padRest bufLen r

end OperateSystem
