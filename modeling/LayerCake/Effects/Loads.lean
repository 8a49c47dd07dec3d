import Mathlib.Data.Nat.Digits.Lemmas
import LayerCake.Effects.Program

/-
  Programs that read a block of bytes through pointers.

  A load names where it reads and how much. A program of loads is a tree of them,
  so what it can read is seen without saying what the block holds; what it computes
  is had by answering its loads from a block.

  What is defined and proved:
    1. `Prog.eval answer p` — what `p` returns when its calls have the answers of
       one function; `eval_congr`: only the answers of the calls it makes matter.
    2. `Load`, `Loads`, `load` and `slice`, the bytes of a load.
    3. `eval_append` — a program whose loads stay inside a block computes the same
       whatever lies behind the block.
    4. `overwrite`, the block after a store.
    5. `Endian.value`, the integer whose bytes are stored in memory order, and
       `Endian.bytes`, the bytes it is stored as.
-/

namespace LayerCake.Effects

variable {I : Interface} {α β : Type}

/-! ## Answering the calls of a program -/

/-- What a program returns when every call has the answer of `answer`. -/
def Prog.eval (answer : ∀ op, I.Res op) : Prog I α → α
  | .done a => a
  | .call op _ k => (k (answer op)).eval answer

@[simp] theorem Prog.eval_done (answer : ∀ op, I.Res op) (a : α) :
    (Prog.done a).eval answer = a := rfl

@[simp] theorem Prog.eval_bind (answer : ∀ op, I.Res op) (p : Prog I α) (f : α → Prog I β) :
    (p >>= f).eval answer = (f (p.eval answer)).eval answer := by
  induction p with
  | done a => rfl
  | call op again k ih => exact ih (answer op)

@[simp] theorem Prog.eval_perform (answer : ∀ op, I.Res op) (op : I.Op) :
    (perform op).eval answer = answer op := rfl

/-- Only the answers of the calls a program makes matter. -/
theorem Prog.eval_congr {P : I.Op → Prop} {answer answer' : ∀ op, I.Res op} {p : Prog I α}
    (hp : p.Calls P) (h : ∀ op, P op → answer op = answer' op) :
    p.eval answer = p.eval answer' := by
  induction p with
  | done a => rfl
  | call op again k ih =>
    calc (k (answer op)).eval answer
        = (k (answer op)).eval answer' := ih _ (hp.2 _)
      _ = (k (answer' op)).eval answer' := by rw [h op hp.1]

/-! ## Loads -/

/-- A read of `size` bytes at `offset` from the start of a block. -/
structure Load where
  offset : Nat
  size : Nat
  deriving DecidableEq, Repr

@[reducible] def Loads : Interface where
  Op := Load
  Res _ := List UInt8

/-- `ptr::read_unaligned`, up to how the bytes are read. -/
def load (offset size : Nat) : Prog Loads (List UInt8) := perform (I := Loads) ⟨offset, size⟩

/-- The load reads none but the first `n` bytes. -/
def Load.Within (n : Nat) (l : Load) : Prop := l.offset + l.size ≤ n

/-- The bytes of a load. -/
def slice (block : List UInt8) (l : Load) : List UInt8 := (block.drop l.offset).take l.size

theorem load_calls {n offset size : Nat} (h : offset + size ≤ n) :
    (load offset size).Calls (Load.Within n) := ⟨h, fun _ => trivial⟩

@[simp] theorem eval_load (block : List UInt8) (offset size : Nat) :
    (load offset size).eval (slice block) = slice block ⟨offset, size⟩ := rfl

theorem slice_append {block : List UInt8} {l : Load} (h : l.Within block.length)
    (rest : List UInt8) : slice (block ++ rest) l = slice block l := by
  unfold Load.Within at h
  unfold slice
  rw [List.drop_append_of_le_length (by omega), List.take_append_of_le_length]
  simp only [List.length_drop]
  omega

/-- A load within a load. -/
theorem slice_slice (block : List UInt8) {offset size o n : Nat} (h : o + n ≤ size) :
    slice (slice block ⟨offset, size⟩) ⟨o, n⟩ = slice block ⟨offset + o, n⟩ := by
  have hmin : min n (size - o) = n := Nat.min_eq_left (by omega)
  simp only [slice, List.drop_take, List.drop_drop, List.take_take, hmin]

theorem slice_behind (before block : List UInt8) (l : Load) :
    slice (before ++ block) ⟨before.length + l.offset, l.size⟩ = slice block l := by
  unfold slice
  rw [← List.drop_drop, List.drop_left]

theorem slice_left {before : List UInt8} {n : Nat} (h : before.length = n) (block : List UInt8) :
    slice (before ++ block) ⟨0, n⟩ = before := List.take_left' h

theorem slice_middle {before middle : List UInt8} {offset size : Nat}
    (hoffset : before.length = offset) (hsize : middle.length = size) (behind : List UInt8) :
    slice (before ++ (middle ++ behind)) ⟨offset, size⟩ = middle := by
  subst hoffset
  exact (slice_behind before (middle ++ behind) ⟨0, size⟩).trans (slice_left hsize behind)

/-- A program whose loads stay inside a block does not see what lies behind it. -/
theorem eval_append {block : List UInt8} {p : Prog Loads α}
    (hp : p.Calls (Load.Within block.length)) (rest : List UInt8) :
    p.eval (slice (block ++ rest)) = p.eval (slice block) :=
  Prog.eval_congr hp fun _ h => slice_append h rest

/-! ## Stores -/

/-- A block once bytes were stored at an offset in it. -/
def overwrite (block : List UInt8) (offset : Nat) (bytes : List UInt8) : List UInt8 :=
  block.take offset ++ bytes ++ block.drop (offset + bytes.length)

theorem length_overwrite {block bytes : List UInt8} {offset : Nat}
    (h : offset + bytes.length ≤ block.length) :
    (overwrite block offset bytes).length = block.length := by
  simp only [overwrite, List.length_append, List.length_take, List.length_drop]
  omega

theorem overwrite_behind {before : List UInt8} {offset : Nat} (h : before.length = offset)
    (block bytes : List UInt8) :
    overwrite (before ++ block) offset bytes = before ++ bytes ++ block.drop bytes.length := by
  subst h
  unfold overwrite
  rw [List.take_left, ← List.drop_drop, List.drop_left]

/-! ## Integers in memory -/

/-- The target's byte order. -/
inductive Endian where
  | little | big
  deriving DecidableEq, Repr

/-- Bytes in memory order, least significant first. -/
def Endian.leastFirst : Endian → List UInt8 → List UInt8
  | .little, bytes => bytes
  | .big, bytes => bytes.reverse

/-- The unsigned integer that bytes in memory order are. -/
def Endian.value (e : Endian) (bytes : List UInt8) : Nat :=
  Nat.ofDigits 256 ((e.leastFirst bytes).map UInt8.toNat)

/-- The lowest `size` bytes of an integer, least significant first. -/
def lowBytes : Nat → Nat → List UInt8
  | 0, _ => []
  | size + 1, n => n.toUInt8 :: lowBytes size (n / 256)

/-- The bytes in memory order of an unsigned integer of `size` bytes. -/
def Endian.bytes (e : Endian) (size n : Nat) : List UInt8 := e.leastFirst (lowBytes size n)

@[simp] theorem length_lowBytes (size n : Nat) : (lowBytes size n).length = size := by
  induction size generalizing n with
  | zero => rfl
  | succ size ih => rw [lowBytes, List.length_cons, ih]

@[simp] theorem Endian.length_bytes (e : Endian) (size n : Nat) :
    (e.bytes size n).length = size := by
  cases e with
  | little => exact length_lowBytes size n
  | big =>
    show (lowBytes size n).reverse.length = size
    rw [List.length_reverse, length_lowBytes]

theorem ofDigits_lowBytes {size n : Nat} (h : n < 256 ^ size) :
    Nat.ofDigits 256 ((lowBytes size n).map UInt8.toNat) = n := by
  induction size generalizing n with
  | zero =>
    rw [Nat.pow_zero] at h
    exact (Nat.lt_one_iff.mp h).symm
  | succ size ih =>
    have hdiv : n / 256 < 256 ^ size := by
      rw [Nat.pow_succ] at h
      exact Nat.div_lt_of_lt_mul (by omega)
    have hlow : n.toUInt8.toNat = n % 256 := UInt8.toNat_ofNat'
    rw [lowBytes, List.map_cons, Nat.ofDigits_cons, ih hdiv, hlow]
    exact Nat.mod_add_div n 256

/-- What is stored is read back. -/
theorem Endian.value_bytes (e : Endian) {size n : Nat} (h : n < 256 ^ size) :
    e.value (e.bytes size n) = n := by
  have hleast : e.leastFirst (e.bytes size n) = lowBytes size n := by
    cases e with
    | little => rfl
    | big => exact List.reverse_reverse _
  unfold Endian.value
  rw [hleast, ofDigits_lowBytes h]

end LayerCake.Effects
