import LayerCake.Store.Directory

/-
  The digest of a blob and its name in the store: what the store uses of `blake3`.

  Correspondence (Rust ↔ Lean):
    `blake3::Hash`                ↔ `Hash`
    `Hasher::new`, `finalize`     ↔ `Blake3.new`, `Blake3.finalize`
    `Hasher::update_reader`       ↔ `Blake3.updateReader`
    `Hash::to_hex`, `from_hex`    ↔ `Blake3.toHex`, `Blake3.fromHex`
  None of these is code of the repository: they are parameters, and `Blake3.Documented`
  is what their documentation says of them. `update_reader` reads to the end with a buffer
  of a size it does not promise, and without a bound on its reads; since a program makes
  finitely many of them on any answers, one that is followed for so many reads goes on
  for ever behind them (`ReadsToEnd.forever`), and every run is a run of such a program.

  What is proved: two digests with one name are one digest (`toHex_inj`), and there is a
  library that does what is documented (`Blake3.reference_documented`).
-/

namespace LayerCake.Store

open Effects Meowix

/-- A digest: 32 bytes. -/
structure Hash where
  bytes : Bytes
  length : bytes.length = 32
  deriving DecidableEq

/-- What the store calls of `blake3`. -/
structure Blake3 where
  Hasher : Type
  new : Hasher
  updateReader : Hasher → Fd → Prog StoreCalls (Except Errno Hasher)
  finalize : Hasher → Hash
  toHex : Hash → Bytes
  fromHex : Bytes → Option Hash

/-- The program reads on, behind the bytes it was given so far, until a read is empty, and
then returns something that suits all it was given. It may make an interrupted read again,
and returns any other error. -/
inductive ReadsToEnd {α : Type} (file : Fd) (Suits : Bytes → α → Prop) :
    Bytes → Prog StoreCalls (Except Errno α) → Prop
  | read {given : Bytes} {len : Nat} {again : Except Errno Bytes → Bool}
      {k : Except Errno Bytes → Prog StoreCalls (Except Errno α)} (hlen : 0 < len)
      (hagain : ∀ bytes, again (.ok bytes) = false)
      (hend : ∃ a, Suits given a ∧ k (.ok []) = .done (.ok a))
      (hmore : ∀ bytes, bytes ≠ [] → ReadsToEnd file Suits (given ++ bytes) (k (.ok bytes)))
      (herror : ∀ error, again (.error error) = false →
        k (.error error) = .done (.error error)) :
      ReadsToEnd file Suits given (.call (.read file len) again k)
  | forever {given : Bytes} {len : Nat}
      {k : Except Errno Bytes → Prog StoreCalls (Except Errno α)} (hlen : 0 < len) :
      ReadsToEnd file Suits given (.call (.read file len) (fun _ => true) k)

/-- What is documented: the name of a digest has 64 characters and is read back, and a new
hasher that is given a file ends with the digest of what was read. -/
structure Blake3.Documented (blake3 : Blake3) (hash : Bytes → Hash) : Prop where
  toHex_length : ∀ digest, (blake3.toHex digest).length = 64
  fromHex_toHex : ∀ digest, blake3.fromHex (blake3.toHex digest) = some digest
  updateReader : ∀ file,
    ReadsToEnd file (fun bytes hasher => blake3.finalize hasher = hash bytes) []
      (blake3.updateReader blake3.new file)

theorem Blake3.Documented.toHex_inj {blake3 : Blake3} {hash : Bytes → Hash}
    (h : blake3.Documented hash) {digest digest' : Hash}
    (heq : blake3.toHex digest = blake3.toHex digest') : digest = digest' := by
  have hread := h.fromHex_toHex digest
  rw [heq, h.fromHex_toHex] at hread
  exact (Option.some.inj hread).symm

/-! ## One that does as documented -/

/-- The lower-case digit of a number below 16. -/
def hexDigit (n : UInt8) : UInt8 := if n < 10 then 48 + n else 87 + n

/-- The value of a digit of either case. -/
def hexVal (c : UInt8) : Option UInt8 :=
  if 65 ≤ c ∧ c ≤ 70 then some (c - 65 + 10)
  else if 97 ≤ c ∧ c ≤ 102 then some (c - 97 + 10)
  else if 48 ≤ c ∧ c ≤ 57 then some (c - 48)
  else none

/-- The bytes of an even number of digits. -/
def hexBytes : Bytes → Option Bytes
  | [] => some []
  | [_] => none
  | a :: b :: rest => do
    let high ← hexVal a
    let low ← hexVal b
    let bytes ← hexBytes rest
    return (16 * high + low) :: bytes

/-- The digits of a digest. -/
def Hash.hexText (h : Hash) : Bytes :=
  h.bytes.flatMap fun b => [hexDigit (b / 16), hexDigit (b % 16)]

/-- The digest of 64 digits. -/
def Hash.ofHexText (hex : Bytes) : Option Hash := do
  let bytes ← hexBytes hex
  if h : bytes.length = 32 then some ⟨bytes, h⟩ else none

/-- The bytes of a file from where its descriptor is, behind those given, followed for so
many reads. -/
def readBehind (file : Fd) (given : Bytes) : Nat → Prog StoreCalls (Except Errno Bytes)
  | 0 => performUntil (I := StoreCalls) (.read file (2 ^ 16)) fun _ => true
  | bound + 1 => do
    match ← performUntil (I := StoreCalls) (.read file (2 ^ 16)) interrupted with
    | .ok bytes =>
      if bytes.length = 0 then return .ok given else readBehind file (given ++ bytes) bound
    | .error e => return .error e

/-- A hasher that keeps all it was given. -/
def Blake3.reference (hash : Bytes → Hash) (bound : Nat) : Blake3 where
  Hasher := Bytes
  new := []
  updateReader hasher file := readBehind file hasher bound
  finalize := hash
  toHex := Hash.hexText
  fromHex := Hash.ofHexText

theorem hexVal_hexDigit {n : UInt8} (h : n < 16) : hexVal (hexDigit n) = some n := by
  have hall : ∀ k : Fin 16, hexVal (hexDigit (UInt8.ofNat k)) = some (UInt8.ofNat k) := by decide
  have hn : n.toNat < 16 := by simpa [UInt8.lt_iff_toNat_lt] using h
  have := hall ⟨n.toNat, hn⟩
  simpa using this

theorem hexBytes_flatMap (bytes : Bytes) :
    hexBytes (bytes.flatMap fun b => [hexDigit (b / 16), hexDigit (b % 16)]) = some bytes := by
  induction bytes with
  | nil => rfl
  | cons b bytes ih =>
    have hhigh : b / 16 < 16 := by
      rw [UInt8.lt_iff_toNat_lt, UInt8.toNat_div]
      have := b.toNat_lt
      simp
      omega
    have hlow : b % 16 < 16 := by
      rw [UInt8.lt_iff_toNat_lt, UInt8.toNat_mod]
      simp
      omega
    have hsum : 16 * (b / 16) + b % 16 = b := by
      have := b.toNat_lt
      apply UInt8.toNat_inj.mp
      rw [UInt8.toNat_add, UInt8.toNat_mul, UInt8.toNat_div, UInt8.toNat_mod]
      simp only [UInt8.reduceToNat]
      omega
    simp [hexBytes, hexVal_hexDigit hhigh, hexVal_hexDigit hlow, ih, hsum]

theorem Hash.ofHexText_hexText (h : Hash) : Hash.ofHexText h.hexText = some h := by
  simp [ofHexText, hexText, hexBytes_flatMap, h.length]

theorem Hash.hexText_length (h : Hash) : h.hexText.length = 64 := by
  simp [hexText, List.length_flatMap, h.length]

theorem readBehind_readsToEnd (file : Fd) (hash : Bytes → Hash) (given : Bytes) (bound : Nat) :
    ReadsToEnd file (fun bytes hasher => hash hasher = hash bytes) given
      (readBehind file given bound) := by
  induction bound generalizing given with
  | zero => exact .forever (by decide)
  | succ bound ih =>
    refine .read (by decide) (fun _ => rfl) ⟨given, rfl, rfl⟩ ?_ fun _ _ => rfl
    intro bytes hne
    show ReadsToEnd _ _ _ (if bytes.length = 0 then _ else _)
    rw [if_neg fun h => hne (List.eq_nil_of_length_eq_zero h)]
    exact ih (given ++ bytes)

theorem Blake3.reference_documented (hash : Bytes → Hash) (bound : Nat) :
    (Blake3.reference hash bound).Documented hash where
  toHex_length := Hash.hexText_length
  fromHex_toHex := Hash.ofHexText_hexText
  updateReader file := readBehind_readsToEnd file hash [] bound

end LayerCake.Store
